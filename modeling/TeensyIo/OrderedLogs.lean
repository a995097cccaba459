import Mathlib.Data.List.Basic
import Mathlib.Tactic.Common

/-! # Logs whose entries name earlier entries

An entry has a key and a list of keys that must stand before it. -/
namespace OrderedLogs

universe u v

variable {α : Type u} {β : Type v} {key : α → β} {needs : α → List β} {seen more : List β}
  {as bs : List α} {a : α}

/-- Every entry comes after the keys it needs, where some have been seen already. -/
def Preceded (key : α → β) (needs : α → List β) (seen : List β) : List α → Prop
  | [] => True
  | a :: as => needs a ⊆ seen ∧ Preceded key needs (seen ++ [key a]) as

theorem preceded_append :
    Preceded key needs seen (as ++ bs) ↔
      Preceded key needs seen as ∧ Preceded key needs (seen ++ as.map key) bs := by
  induction as generalizing seen with
  | nil => simp [Preceded]
  | cons a as ih => simp [Preceded, ih, and_assoc]

theorem Preceded.mono (hsub : seen ⊆ more) (h : Preceded key needs seen as) :
    Preceded key needs more as := by
  induction as generalizing seen more with
  | nil => trivial
  | cons a as ih =>
    refine ⟨List.Subset.trans h.1 hsub, ih (List.append_subset.mpr ⟨?_, ?_⟩) h.2⟩
    · exact List.Subset.trans hsub (List.subset_append_left _ _)
    · exact List.subset_append_right _ _

/-- A new entry may be put in wherever the keys it needs are to its left. -/
theorem Preceded.insert (h : Preceded key needs seen (as ++ bs))
    (ha : needs a ⊆ seen ++ as.map key) : Preceded key needs seen (as ++ [a] ++ bs) := by
  obtain ⟨hleft, hright⟩ := preceded_append.mp h
  refine preceded_append.mpr ⟨preceded_append.mpr ⟨hleft, ha, trivial⟩, hright.mono ?_⟩
  rw [List.map_append, ← List.append_assoc]
  exact List.subset_append_left _ _

theorem preceded_last (h : Preceded key needs seen (as ++ [a])) : needs a ⊆ seen ++ as.map key :=
  (preceded_append.mp h).2.1

/-- With distinct keys, no entry stands before one that it needs. -/
theorem Preceded.pairwise (h : Preceded key needs seen as)
    (hdistinct : (seen ++ as.map key).Nodup) : as.Pairwise fun a b => key b ∉ needs a := by
  induction as generalizing seen with
  | nil => exact List.Pairwise.nil
  | cons a as ih =>
    refine List.Pairwise.cons (fun b hb hneeded => ?_) (ih h.2 (by simpa using hdistinct))
    have hlater : key b ∈ (a :: as).map key := List.mem_map_of_mem (List.mem_cons_of_mem a hb)
    exact (List.nodup_append.mp hdistinct).2.2 _ (h.1 hneeded) _ hlater rfl

end OrderedLogs
