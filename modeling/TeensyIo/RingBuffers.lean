import Mathlib.Data.List.Basic
import Mathlib.Data.Nat.ModEq
import Mathlib.Logic.Function.Basic
import Mathlib.Order.Interval.Set.Basic
import Mathlib.Tactic.Common

/-! # Ring buffers

A queue kept in an array: the slot of the oldest entry, the number of entries and the slot the
next entry goes to. `place` turns a number into an index of the array; only the first `size`
numbers are used. -/
namespace RingBuffers

universe u v

variable {ι : Type u} {ε : Type v} {place : ℕ → ι} {size head count : ℕ}

/-- The entries, the oldest first. -/
def contents (place : ℕ → ι) (size : ℕ) (slots : ι → ε) (head count : ℕ) : List ε :=
  (List.range count).map fun i => slots (place ((head + i) % size))

theorem contents_length (slots : ι → ε) :
    (contents place size slots head count).length = count := by simp [contents]

/-- Two entries stand in the same slot only if they are the same. -/
theorem offset_injective {i j : ℕ} (hi : i < size) (hj : j < size)
    (h : (head + i) % size = (head + j) % size) : i = j := by
  have hmod : i ≡ j [MOD size] := Nat.ModEq.add_left_cancel' head h
  rwa [Nat.ModEq, Nat.mod_eq_of_lt hi, Nat.mod_eq_of_lt hj] at hmod

/-- A slot outside the entries may be written. -/
theorem contents_update [DecidableEq ι] (hplace : Set.InjOn place (Set.Iio size))
    {free : ℕ} (hfree : free < size) (hcount : count ≤ free) (slots : ι → ε) (entry : ε) :
    contents place size (Function.update slots (place ((head + free) % size)) entry) head count =
      contents place size slots head count := by
  have hpos : 0 < size := by omega
  apply List.map_congr_left
  intro i hi
  have hlt : i < count := List.mem_range.mp hi
  apply Function.update_of_ne
  intro hsame
  have hslot := hplace (Nat.mod_lt _ hpos) (Nat.mod_lt _ hpos) hsame
  have := offset_injective (by omega) hfree hslot
  omega

theorem contents_push [DecidableEq ι] (hplace : Set.InjOn place (Set.Iio size)) (head : ℕ)
    (hroom : count < size) (slots : ι → ε) (entry : ε) :
    contents place size (Function.update slots (place ((head + count) % size)) entry) head
        (count + 1) = contents place size slots head count ++ [entry] := by
  rw [← contents_update hplace hroom le_rfl slots entry]
  simp [contents, List.range_succ]

theorem contents_pop (slots : ι → ε) :
    contents place size slots head (count + 1) =
      slots (place (head % size)) :: contents place size slots ((head + 1) % size) count := by
  simp only [contents, List.range_succ_eq_map, List.map_cons, List.map_map, Nat.add_zero]
  congr 1
  apply List.map_congr_left
  intro i _
  have hslot : (head + (i + 1)) % size = ((head + 1) % size + i) % size := by
    rw [Nat.mod_add_mod, Nat.add_assoc, Nat.add_comm 1 i]
  exact congrArg (fun n => slots (place n)) hslot

/-- The slot of the entry that was taken may be cleared. -/
theorem contents_pop_update [DecidableEq ι] (hplace : Set.InjOn place (Set.Iio size)) (head : ℕ)
    (hroom : count < size) (slots : ι → ε) (entry : ε) :
    contents place size (Function.update slots (place (head % size)) entry) ((head + 1) % size)
        count = contents place size slots ((head + 1) % size) count := by
  have hlast : ((head + 1) % size + (size - 1)) % size = head % size := by
    have hsum : head + 1 + (size - 1) = head + size := by omega
    rw [Nat.mod_add_mod, hsum, Nat.add_mod_right]
  rw [← hlast]
  exact contents_update hplace (by omega) (by omega) slots entry

/-- The bounds of the three counters, and that the next slot is the one behind the entries. -/
structure Sound (size head tail count : ℕ) : Prop where
  head_lt : head < size
  count_le : count ≤ size
  tail_eq : tail = (head + count) % size

namespace Sound

variable {tail : ℕ}

theorem tail_lt (h : Sound size head tail count) : tail < size := by
  rw [h.tail_eq]
  exact Nat.mod_lt _ (Nat.zero_lt_of_lt h.head_lt)

theorem push (h : Sound size head tail count) (hroom : count < size) :
    Sound size head ((tail + 1) % size) (count + 1) where
  head_lt := h.head_lt
  count_le := hroom
  tail_eq := by rw [h.tail_eq, Nat.mod_add_mod, Nat.add_assoc]

theorem pop (h : Sound size head tail count) (hsome : 0 < count) :
    Sound size ((head + 1) % size) tail (count - 1) where
  head_lt := Nat.mod_lt _ (Nat.zero_lt_of_lt h.head_lt)
  count_le := (Nat.sub_le _ _).trans h.count_le
  tail_eq := by
    have hsum : head + 1 + (count - 1) = head + count := by omega
    rw [Nat.mod_add_mod, hsum, h.tail_eq]

end Sound

end RingBuffers
