import Mathlib.Tactic.Common

/-! # Loops that are left from within

A loop without a condition of its own: each pass goes around again or leaves with a result.
Nothing says that it is ever left; a measure that every pass lowers does, and bounds the passes. -/
namespace PassLoops

universe u v

/-- How a pass ends. -/
inductive Pass (σ : Type u) (ρ : Type v) where
  | again (state : σ)
  | leave (result : ρ)
  deriving DecidableEq, Repr

variable {σ : Type u} {ρ : Type v} (pass : σ → Pass σ ρ)

/-- The loop with a bound on its passes; none where it is not left within them. -/
def runFor : ℕ → σ → Option ρ
  | 0, _ => none
  | n + 1, s =>
    match pass s with
    | .again t => runFor n t
    | .leave r => some r

/-- The states in which a pass begins. -/
inductive Reaches (s : σ) : σ → Prop where
  | start : Reaches s s
  | again {t u} : Reaches s t → pass t = .again u → Reaches s u

/-- The loop is left with the result, after however many passes. -/
def Leaves (s : σ) (r : ρ) : Prop := ∃ t, Reaches pass s t ∧ pass t = .leave r

variable {pass} {s t u : σ} {r r' : ρ}

theorem runFor_again (h : pass s = .again t) (n : ℕ) : runFor pass (n + 1) s = runFor pass n t := by
  rw [runFor, h]

theorem runFor_leave (h : pass s = .leave r) (n : ℕ) : runFor pass (n + 1) s = some r := by
  rw [runFor, h]

theorem Reaches.head (h : pass s = .again t) (hreaches : Reaches pass t u) : Reaches pass s u := by
  induction hreaches with
  | start => exact .again .start h
  | again _ hpass ih => exact .again ih hpass

theorem Reaches.trans (h : Reaches pass s t) (hlater : Reaches pass t u) : Reaches pass s u := by
  induction hlater with
  | start => exact h
  | again _ hpass ih => exact .again ih hpass

/-- A loop inside another goes around within it. -/
theorem Reaches.inside {τ : Type u} {κ : Type v} {outer : τ → Pass τ κ} {f : σ → τ}
    (hagain : ∀ t u, pass t = .again u → outer (f t) = .again (f u)) (h : Reaches pass s t) :
    Reaches outer (f s) (f t) := by
  induction h with
  | start => exact .start
  | again _ hpass ih => exact .again ih (hagain _ _ hpass)

theorem Reaches.leaves (h : Reaches pass s t) (hleaves : Leaves pass t r) : Leaves pass s r := by
  obtain ⟨u, hreaches, hleave⟩ := hleaves
  exact ⟨u, h.trans hreaches, hleave⟩

theorem leaves_of_runFor {n : ℕ} (h : runFor pass n s = some r) : Leaves pass s r := by
  induction n generalizing s with
  | zero => cases h
  | succ n ih =>
    cases hpass : pass s with
    | again t =>
      rw [runFor_again hpass] at h
      obtain ⟨u, hreaches, hleave⟩ := ih h
      exact ⟨u, hreaches.head hpass, hleave⟩
    | leave r' =>
      rw [runFor_leave hpass] at h
      obtain rfl := Option.some.inj h
      exact ⟨s, .start, hpass⟩

/-- More passes than are needed change nothing. -/
theorem runFor_le {n m : ℕ} (h : runFor pass n s = some r) (hle : n ≤ m) :
    runFor pass m s = some r := by
  induction n generalizing s m with
  | zero => cases h
  | succ n ih =>
    obtain ⟨m, rfl⟩ : ∃ k, m = k + 1 := ⟨m - 1, by omega⟩
    cases hpass : pass s with
    | again t =>
      rw [runFor_again hpass] at h ⊢
      exact ih h (by omega)
    | leave r' =>
      rw [runFor_leave hpass] at h ⊢
      exact h

theorem runFor_of_reaches (hreaches : Reaches pass s t) {n : ℕ} (h : runFor pass n t = some r) :
    ∃ m, runFor pass m s = some r := by
  induction hreaches generalizing n with
  | start => exact ⟨n, h⟩
  | again _ hpass ih =>
    have hbefore := runFor_again hpass n
    rw [h] at hbefore
    exact ih hbefore

theorem leaves_iff : Leaves pass s r ↔ ∃ n, runFor pass n s = some r := by
  constructor
  · rintro ⟨t, hreaches, hleave⟩
    exact runFor_of_reaches hreaches (runFor_leave hleave 0)
  · rintro ⟨n, h⟩
    exact leaves_of_runFor h

/-- A loop is left in one way only. -/
theorem Leaves.unique (h : Leaves pass s r) (h' : Leaves pass s r') : r = r' := by
  obtain ⟨n, hn⟩ := leaves_iff.mp h
  obtain ⟨m, hm⟩ := leaves_iff.mp h'
  have hlater := runFor_le hn (Nat.le_max_left n m)
  rw [runFor_le hm (Nat.le_max_right n m)] at hlater
  exact (Option.some.inj hlater).symm

section Invariants

variable {I : σ → Prop} {Q : ρ → Prop} (keep : ∀ t u, I t → pass t = .again u → I u)

include keep

theorem Reaches.keeps (h : Reaches pass s t) (hs : I s) : I t := by
  induction h with
  | start => exact hs
  | again _ hpass ih => exact keep _ _ ih hpass

theorem Leaves.ensures (exit : ∀ t r, I t → pass t = .leave r → Q r) (h : Leaves pass s r)
    (hs : I s) : Q r := by
  obtain ⟨t, hreaches, hleave⟩ := h
  exact exit t r (hreaches.keeps keep hs) hleave

omit keep in
/-- A loop that is left, or comes to a place like this one with a lower measure, is left. -/
theorem leaves_of_descent {μ : σ → ℕ}
    (descend : ∀ t, I t → (∃ r, Leaves pass t r) ∨ ∃ u, Reaches pass t u ∧ I u ∧ μ u < μ t)
    (hs : I s) : ∃ r, Leaves pass s r := by
  induction hμ : μ s using Nat.strongRecOn generalizing s with
  | _ n ih =>
    rcases descend s hs with hleaves | ⟨u, hreaches, hu, hlower⟩
    · exact hleaves
    · obtain ⟨r, hleaves⟩ := ih (μ u) (hμ ▸ hlower) hu rfl
      exact ⟨r, hreaches.leaves hleaves⟩

/-- A loop whose passes lower a measure is left within as many passes as it allows. -/
theorem runFor_returns {μ : σ → ℕ} (lower : ∀ t u, I t → pass t = .again u → μ u < μ t)
    (hs : I s) {n : ℕ} (hn : μ s < n) : ∃ r, runFor pass n s = some r := by
  induction n generalizing s with
  | zero => omega
  | succ n ih =>
    cases hpass : pass s with
    | again t =>
      rw [runFor_again hpass]
      have hlower := lower s t hs hpass
      exact ih (keep s t hs hpass) (by omega)
    | leave r => exact ⟨r, runFor_leave hpass n⟩

end Invariants

end PassLoops
