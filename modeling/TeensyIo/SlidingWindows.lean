import Mathlib.Data.List.Basic
import Mathlib.Order.Lattice
import Mathlib.Tactic.Common

/-! # Sliding windows

Timed samples are kept in the order of their arrival. Old ones leave from the front, but the
last two always stay, so that there is something to compare with after a long pause. -/
namespace SlidingWindows

universe u v

variable {τ : Type u} {α : Type v} [LinearOrder τ]

/-- Samples from before the cutoff leave as long as more than two are left. -/
def trim (cutoff : τ) : List (τ × α) → List (τ × α)
  | a :: b :: c :: samples =>
    if a.1 < cutoff then trim cutoff (b :: c :: samples) else a :: b :: c :: samples
  | samples => samples

/-- The oldest sample in the window, or the latest of all if the window has none. -/
def reference (cutoff : τ) (past : List (τ × α)) : Option (τ × α) :=
  (past.find? fun s => cutoff ≤ s.1).or past.getLast?

/-- What is kept is the end of the past, and nothing that a window may still ask for is gone. -/
structure Keeps (cutoff : τ) (past kept : List (τ × α)) : Prop where
  split : ∃ dropped, past = dropped ++ kept ∧ ∀ s ∈ dropped, s.1 < cutoff
  some_kept : past ≠ [] → kept ≠ []

theorem Keeps.nil (cutoff : τ) : Keeps cutoff ([] : List (τ × α)) [] :=
  ⟨⟨[], rfl, nofun⟩, id⟩

theorem Keeps.mono {cutoff later : τ} {past kept : List (τ × α)} (h : Keeps cutoff past kept)
    (hle : cutoff ≤ later) : Keeps later past kept := by
  obtain ⟨dropped, hpast, hold⟩ := h.split
  exact ⟨⟨dropped, hpast, fun s hs => (hold s hs).trans_le hle⟩, h.some_kept⟩

/-- The reference of a window is found among the samples that are kept. -/
theorem Keeps.reference_eq {cutoff : τ} {past kept : List (τ × α)} (h : Keeps cutoff past kept) :
    reference cutoff past = reference cutoff kept := by
  obtain ⟨dropped, rfl, hold⟩ := h.split
  have hnone : dropped.find? (fun s => decide (cutoff ≤ s.1)) = none := by
    rw [List.find?_eq_none]
    intro s hs
    simpa using hold s hs
  by_cases hkept : kept = []
  · have hpast : dropped ++ kept = [] := by
      by_contra hsome
      exact h.some_kept hsome hkept
    rw [hpast, hkept]
  · rw [reference, reference, List.find?_append, hnone, Option.none_or,
      List.getLast?_append_of_ne_nil dropped hkept]

theorem trim_suffix (cutoff : τ) (samples : List (τ × α)) :
    ∃ dropped, samples = dropped ++ trim cutoff samples ∧ ∀ s ∈ dropped, s.1 < cutoff := by
  fun_induction trim cutoff samples with
  | case1 a b c samples hold ih =>
    obtain ⟨dropped, hsplit, hdropped⟩ := ih
    refine ⟨a :: dropped, congrArg (a :: ·) hsplit, ?_⟩
    intro s hs
    rcases List.mem_cons.mp hs with rfl | hs
    · exact hold
    · exact hdropped s hs
  | case2 a b c samples hin => exact ⟨[], rfl, nofun⟩
  | case3 samples hshort => exact ⟨[], rfl, nofun⟩

/-- After a sample is added the front is the reference for it. -/
theorem trim_front (cutoff : τ) (x : τ × α) {kept : List (τ × α)} (hkept : kept ≠ []) :
    ∃ s y rest, reference cutoff kept = some s ∧ trim cutoff (kept ++ [x]) = s :: y :: rest := by
  induction kept with
  | nil => exact absurd rfl hkept
  | cons a kept ih =>
    cases kept with
    | nil =>
      refine ⟨a, x, [], ?_, rfl⟩
      rw [reference, List.find?_singleton]
      by_cases hin : cutoff ≤ a.1
      · simp [hin]
      · simp [hin]
    | cons b kept =>
      obtain ⟨c, rest, hrest⟩ := List.exists_cons_of_ne_nil (List.append_ne_nil_of_right_ne_nil kept
        (List.cons_ne_nil x []))
      rw [List.cons_append, List.cons_append, hrest, trim]
      by_cases hold : a.1 < cutoff
      · obtain ⟨s, y, left, hs, hleft⟩ := ih (List.cons_ne_nil b kept)
        rw [List.cons_append, hrest] at hleft
        refine ⟨s, y, left, ?_, ?_⟩
        · rw [← hs, reference, reference, List.find?_cons_of_neg (by simpa using hold),
            List.getLast?_cons_cons]
        · rw [if_pos hold, hleft]
      · refine ⟨a, b, c :: rest, ?_, if_neg hold⟩
        rw [reference, List.find?_cons_of_pos (by simpa using hold), Option.some_or]

theorem Keeps.push {cutoff : τ} {past kept : List (τ × α)} (h : Keeps cutoff past kept)
    (x : τ × α) : Keeps cutoff (past ++ [x]) (trim cutoff (kept ++ [x])) := by
  obtain ⟨dropped, hpast, hold⟩ := h.split
  obtain ⟨trimmed, hkept, htrimmed⟩ := trim_suffix cutoff (kept ++ [x])
  constructor
  · refine ⟨dropped ++ trimmed, ?_, ?_⟩
    · rw [hpast, List.append_assoc, List.append_assoc, ← hkept]
    · intro s hs
      rcases List.mem_append.mp hs with hs | hs
      · exact hold s hs
      · exact htrimmed s hs
  · intro _
    by_cases hnone : kept = []
    · rw [hnone]
      exact List.cons_ne_nil x []
    · obtain ⟨s, y, rest, -, hfront⟩ := trim_front cutoff x hnone
      rw [hfront]
      exact List.cons_ne_nil s _

end SlidingWindows
