import Mathlib.Data.List.Basic
import Mathlib.Tactic.Common

/-! # Words that may be swapped

Two words can be read in either order only if both repeat one block. -/
namespace CommutingWords

universe u

variable {α : Type u}

/-- The block, so many times over. -/
def power (block : List α) (n : ℕ) : List α := (List.replicate n block).flatten

theorem power_one (block : List α) : power block 1 = block := by
  simp [power]

theorem power_add (block : List α) (m n : ℕ) :
    power block (m + n) = power block m ++ power block n := by
  rw [power, List.replicate_add, List.flatten_append, power, power]

/-- Both words are made of one block. -/
def Alike (xs ys : List α) : Prop := ∃ block m n, xs = power block m ∧ ys = power block n

theorem Alike.symm {xs ys : List α} (h : Alike xs ys) : Alike ys xs := by
  obtain ⟨block, m, n, hxs, hys⟩ := h
  exact ⟨block, n, m, hys, hxs⟩

theorem alike_nil (xs : List α) : Alike xs [] := ⟨xs, 1, 0, (power_one xs).symm, rfl⟩

/-- A longer word that starts with the other goes on with another of the kind. -/
theorem Alike.extend {xs rest : List α} (h : Alike xs rest) : Alike xs (xs ++ rest) := by
  obtain ⟨block, m, n, hxs, hrest⟩ := h
  exact ⟨block, m, m + n, hxs, by rw [power_add, ← hxs, ← hrest]⟩

/-- The shorter word is taken off the longer one, as in the subtractive algorithm for a greatest
common divisor. -/
theorem alike_of_commute (bound : ℕ) : ∀ xs ys : List α, xs.length + ys.length ≤ bound →
    xs ++ ys = ys ++ xs → Alike xs ys := by
  induction bound with
  | zero =>
    intro xs ys hbound _
    obtain rfl : ys = [] := List.length_eq_zero_iff.mp (by omega)
    exact alike_nil xs
  | succ bound ih =>
    have hshorter : ∀ xs ys : List α, xs.length + ys.length ≤ bound + 1 →
        xs ++ ys = ys ++ xs → xs.length ≤ ys.length → Alike xs ys := by
      intro xs ys hbound hcommute hle
      by_cases hempty : xs = []
      · subst xs
        exact (alike_nil ys).symm
      · have hpositive : 0 < xs.length := List.length_pos_iff.mpr hempty
        obtain ⟨rest, rfl⟩ : xs <+: ys :=
          List.prefix_of_prefix_length_le ⟨ys, hcommute⟩ ⟨xs, rfl⟩ hle
        rw [List.append_assoc] at hcommute
        rw [List.length_append] at hbound
        exact (ih xs rest (by omega) (List.append_cancel_left hcommute)).extend
    intro xs ys hbound hcommute
    rcases Nat.le_total xs.length ys.length with hle | hle
    · exact hshorter xs ys hbound hcommute hle
    · exact (hshorter ys xs (by omega) hcommute.symm hle).symm

theorem append_comm_iff {xs ys : List α} : xs ++ ys = ys ++ xs ↔ Alike xs ys := by
  constructor
  · exact alike_of_commute _ xs ys (Nat.le_refl _)
  · rintro ⟨block, m, n, rfl, rfl⟩
    rw [← power_add, ← power_add, Nat.add_comm]

end CommutingWords
