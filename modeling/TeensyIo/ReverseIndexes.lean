import Mathlib.Data.List.Basic
import Mathlib.Logic.Function.Basic
import Mathlib.Tactic.Common

/-! # Reverse indexes

A map from keys to elements is brought up to date by going through the elements. Later ones
win, and an entry that is not written over stays. -/
namespace ReverseIndexes

universe u v

variable {α : Type u} {κ : Type v} [DecidableEq κ]

def enter (key : α → Option κ) (index : κ → Option α) (x : α) : κ → Option α :=
  match key x with
  | some k => Function.update index k (some x)
  | none => index

def reindex (key : α → Option κ) (index : κ → Option α) (xs : List α) : κ → Option α :=
  xs.foldl (enter key) index

/-- The last element with a key. -/
def winner (key : α → Option κ) (xs : List α) (k : κ) : Option α :=
  xs.reverse.find? fun x => key x = some k

def Reached (key : α → Option κ) (xs : List α) (k : κ) : Prop := ∃ x ∈ xs, key x = some k

def Sound (key : α → Option κ) (index : κ → Option α) : Prop :=
  ∀ k x, index k = some x → key x = some k

def Complete (key : α → Option κ) (index : κ → Option α) : Prop :=
  ∀ x k, key x = some k → (index k).isSome

variable {key : α → Option κ} {index : κ → Option α} {xs : List α} {k : κ}

instance : Decidable (Reached key xs k) := inferInstanceAs (Decidable (∃ x ∈ xs, key x = some k))

theorem enter_eq (key : α → Option κ) (index : κ → Option α) (x : α) (k : κ) :
    enter key index x k = (if key x = some k then some x else none).or (index k) := by
  rw [enter]
  cases hkey : key x with
  | none => rfl
  | some k' =>
    by_cases hk : k = k'
    · rw [hk, if_pos rfl, Option.some_or]
      exact Function.update_self k' _ index
    · have hne : some k' ≠ some k := fun heq => hk (Option.some.inj heq).symm
      rw [if_neg hne, Option.none_or]
      exact Function.update_of_ne hk _ index

theorem winner_cons (x : α) (xs : List α) :
    winner key (x :: xs) k =
      (winner key xs k).or (if key x = some k then some x else none) := by
  rw [winner, List.reverse_cons, List.find?_append, List.find?_singleton]
  simp only [decide_eq_true_eq, winner]

theorem reindex_eq (key : α → Option κ) (index : κ → Option α) (xs : List α) (k : κ) :
    reindex key index xs k = (winner key xs k).or (index k) := by
  induction xs generalizing index with
  | nil => rfl
  | cons x xs ih =>
    rw [winner_cons, Option.or_assoc, ← enter_eq]
    exact ih (enter key index x)

theorem winner_some {x : α} (h : winner key xs k = some x) : x ∈ xs ∧ key x = some k := by
  have hkey := List.find?_some h
  exact ⟨List.mem_reverse.mp (List.mem_of_find?_eq_some h), of_decide_eq_true hkey⟩

theorem winner_isSome : (winner key xs k).isSome ↔ Reached key xs k := by
  rw [winner, List.find?_isSome, Reached]
  simp

theorem reindex_isSome :
    (reindex key index xs k).isSome ↔ Reached key xs k ∨ (index k).isSome := by
  rw [reindex_eq, Option.isSome_or, Bool.or_eq_true, winner_isSome]

/-- What a reindexed key is mapped to was gone through now or indexed before. -/
theorem reindex_mem (hindexed : ∀ k x, index k = some x → x ∈ xs) {x : α}
    (h : reindex key index xs k = some x) : x ∈ xs := by
  rw [reindex_eq] at h
  rcases Option.or_eq_some_iff.mp h with hwinner | ⟨-, hold⟩
  · exact (winner_some hwinner).1
  · exact hindexed k x hold

theorem reindex_reached (hreached : Reached key xs k) :
    reindex key index xs k = winner key xs k := by
  obtain ⟨x, hx⟩ := Option.isSome_iff_exists.mp (winner_isSome.mpr hreached)
  rw [reindex_eq, hx, Option.some_or]

/-- A right entry was written by the last element with its key, also where it is an old one. -/
theorem winner_of_reindex (hindexed : ∀ k x, index k = some x → x ∈ xs) {x : α}
    (h : reindex key index xs k = some x) (hkey : key x = some k) :
    Reached key xs k ∧ winner key xs k = some x := by
  have hreached : Reached key xs k := ⟨x, reindex_mem hindexed h, hkey⟩
  exact ⟨hreached, (reindex_reached hreached).symm.trans h⟩

/-- An index that has gone through all its elements is right exactly where these reach every
key that is in use and every key that was. -/
theorem reindex_faithful_iff (hindexed : ∀ k x, index k = some x → x ∈ xs) :
    (Complete key (reindex key index xs) ∧ Sound key (reindex key index xs)) ↔
      (∀ x k, key x = some k → Reached key xs k) ∧
        ∀ k, (index k).isSome → Reached key xs k := by
  constructor
  · rintro ⟨hcomplete, hsound⟩
    have hreached : ∀ k, (reindex key index xs k).isSome → Reached key xs k := by
      intro k hsome
      obtain ⟨x, hx⟩ := Option.isSome_iff_exists.mp hsome
      exact (winner_of_reindex hindexed hx (hsound k x hx)).1
    constructor
    · intro x k hkey
      exact hreached k (hcomplete x k hkey)
    · intro k hold
      exact hreached k (reindex_isSome.mpr (Or.inr hold))
  · rintro ⟨hused, hindex⟩
    constructor
    · intro x k hkey
      exact reindex_isSome.mpr (Or.inl (hused x k hkey))
    · intro k x hx
      rw [reindex_eq] at hx
      rcases Option.or_eq_some_iff.mp hx with hwinner | ⟨hnone, hold⟩
      · exact (winner_some hwinner).2
      · have hreached := hindex k (Option.isSome_iff_exists.mpr ⟨x, hold⟩)
        have hwinner := winner_isSome.mpr hreached
        rw [hnone] at hwinner
        cases hwinner

end ReverseIndexes
