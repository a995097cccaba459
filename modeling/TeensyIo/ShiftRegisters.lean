import Mathlib.Algebra.Group.Hom.Defs
import Mathlib.Algebra.Field.ZMod
import Mathlib.Tactic.Abel

/-! # Linear shift registers

A register steps linearly and takes in one bit at a time. What a bit string leaves in an
empty register is its residue; two strings of one length leave the same in any register
exactly if the residue of their difference is zero. Nothing here depends on how wide the
register is or on where its taps are. -/
namespace ShiftRegisters

variable {R : Type*} [AddCommGroup R] (step : R →+ R) (unit : R)

/-- What a bit adds to the register. -/
def digit (b : Bool) : R := if b then unit else 0

def shiftIn (c : R) (b : Bool) : R := step c + digit unit b

/-- What the bits leave in an empty register. -/
def residue (bits : List Bool) : R := bits.foldl (shiftIn step unit) 0

theorem foldl_shiftIn (bits : List Bool) (c : R) :
    bits.foldl (shiftIn step unit) c = step^[bits.length] c + residue step unit bits := by
  induction bits using List.reverseRecOn with
  | nil => simp [residue]
  | append_singleton bits b ih =>
    have hres : residue step unit (bits ++ [b]) =
        step (residue step unit bits) + digit unit b := by
      rw [residue, List.foldl_append]
      rfl
    rw [List.foldl_append, List.foldl_cons, List.foldl_nil, ih, shiftIn, map_add, hres,
      List.length_append, List.length_singleton, Function.iterate_succ_apply']
    abel

theorem residue_append (xs ys : List Bool) :
    residue step unit (xs ++ ys) =
      step^[ys.length] (residue step unit xs) + residue step unit ys := by
  rw [residue, List.foldl_append, foldl_shiftIn]
  rfl

@[simp] theorem residue_nil : residue step unit [] = 0 := rfl

theorem residue_cons (b : Bool) (bits : List Bool) :
    residue step unit (b :: bits) =
      step^[bits.length] (digit unit b) + residue step unit bits := by
  have hone : residue step unit [b] = digit unit b := by
    simp [residue, shiftIn]
  rw [← List.singleton_append, residue_append, hone]

theorem residue_zeros (n : ℕ) : residue step unit (List.replicate n false) = 0 := by
  induction n with
  | zero => rfl
  | succ n ih =>
    have hzero : digit unit false = 0 := rfl
    rw [List.replicate_succ, residue_cons, ih, hzero, iterate_map_zero, add_zero]

/-- Zeros in front do not count, and zeros behind only step the register on. -/
theorem residue_padded (a c : ℕ) (bits : List Bool) :
    residue step unit (List.replicate a false ++ bits ++ List.replicate c false) =
      step^[c] (residue step unit bits) := by
  rw [residue_append, residue_append, residue_zeros, residue_zeros, iterate_map_zero, zero_add,
    add_zero, List.length_replicate]

/-! ### Differences -/

section Differences

variable {unit} (hchar : unit + unit = 0)
include hchar

theorem digit_xor (a b : Bool) : digit unit (a ^^ b) = digit unit a + digit unit b := by
  cases a <;> cases b <;> simp [digit, hchar]

theorem residue_xor {xs ys : List Bool} (hlen : xs.length = ys.length) :
    residue step unit (List.zipWith xor xs ys) =
      residue step unit xs + residue step unit ys := by
  induction xs generalizing ys with
  | nil =>
    cases ys with
    | nil => simp
    | cons y ys => cases hlen
  | cons x xs ih =>
    cases ys with
    | nil => cases hlen
    | cons y ys =>
      have htail : xs.length = ys.length := Nat.succ.inj hlen
      rw [List.zipWith_cons_cons, residue_cons, residue_cons, residue_cons, ih htail,
        digit_xor hchar, iterate_map_add, List.length_zipWith, htail, Nat.min_self]
      abel

end Differences

/-! ### What a register tells apart -/

/-- A functional that a step leaves alone counts the bits. -/
theorem residue_parity {unit} (parity : R →+ ZMod 2) (hstep : ∀ c, parity (step c) = parity c)
    (hunit : parity unit = 1) (bits : List Bool) :
    parity (residue step unit bits) = (bits.count true : ℕ) := by
  have hsteps : ∀ n c, parity (step^[n] c) = parity c := by
    intro n c
    induction n with
    | zero => rfl
    | succ n ih => rw [Function.iterate_succ_apply', hstep, ih]
  induction bits with
  | nil => simp
  | cons b bits ih =>
    rw [residue_cons, map_add, hsteps, ih]
    cases b with
    | false => simp [digit]
    | true => simp [digit, hunit, add_comm]

/-- An odd number of bits leaves something. -/
theorem residue_odd {unit} (parity : R →+ ZMod 2) (hstep : ∀ c, parity (step c) = parity c)
    (hunit : parity unit = 1) {bits : List Bool} (h : Odd (bits.count true)) :
    residue step unit bits ≠ 0 := by
  intro hzero
  have hpar := residue_parity step parity hstep hunit bits
  rw [hzero, map_zero, eq_comm, ZMod.natCast_eq_zero_iff_even] at hpar
  exact Nat.not_even_iff_odd.mpr h hpar

theorem step_iterate_injective {step : R →+ R} (hinj : Function.Injective step) (n : ℕ) {c : R}
    (h : step^[n] c = 0) : c = 0 :=
  hinj.iterate n (h.trans (iterate_map_zero step n).symm)

/-- Where the first bit is. -/
theorem exists_leading_bit {bits : List Bool} {n : ℕ} (h : bits.count true = n + 1) :
    ∃ a later, bits = List.replicate a false ++ true :: later ∧ later.count true = n := by
  induction bits with
  | nil => cases h
  | cons b bits ih =>
    cases b with
    | true => exact ⟨0, bits, rfl, by simpa using h⟩
    | false =>
      obtain ⟨a, later, rfl, hlater⟩ := ih (by simpa using h)
      exact ⟨a + 1, later, rfl, hlater⟩

/-- Two bits leave something if the register does not come back to one bit in between. -/
theorem residue_two {step : R →+ R} {unit : R} (hinj : Function.Injective step) {bits : List Bool}
    (hperiod : ∀ n, 0 < n → n < bits.length → step^[n] unit + unit ≠ 0)
    (h : bits.count true = 2) : residue step unit bits ≠ 0 := by
  obtain ⟨a, later, rfl, hlater⟩ := exists_leading_bit h
  obtain ⟨b, rest, rfl, hrest⟩ := exists_leading_bit hlater
  have hzeros : rest = List.replicate rest.length false := by
    refine List.eq_replicate_iff.mpr ⟨rfl, fun x hx => ?_⟩
    cases x with
    | false => rfl
    | true => exact absurd hx (List.count_eq_zero.mp hrest)
  have hunit : digit unit true = unit := rfl
  have hmiddle : residue step unit (true :: (List.replicate b false ++ [true])) =
      step^[b + 1] unit + unit := by
    rw [residue_cons, residue_append, residue_zeros, iterate_map_zero, zero_add, residue_cons,
      List.length_append, List.length_replicate, List.length_singleton, hunit]
    simp
  have hsplit : List.replicate a false ++ true :: (List.replicate b false ++ true :: rest) =
      List.replicate a false ++ (true :: (List.replicate b false ++ [true])) ++
        List.replicate rest.length false := by
    conv_lhs => rw [hzeros]
    simp
  rw [hsplit, residue_padded, hmiddle]
  intro hzero
  refine hperiod (b + 1) (Nat.succ_pos b) ?_ (step_iterate_injective hinj rest.length hzero)
  simp only [List.length_append, List.length_replicate, List.length_cons]
  omega

/-- A burst leaves something exactly if its own bits do. -/
theorem residue_burst {step : R →+ R} (hinj : Function.Injective step) (a c : ℕ)
    (bits : List Bool) :
    residue step unit (List.replicate a false ++ bits ++ List.replicate c false) = 0 ↔
      residue step unit bits = 0 := by
  rw [residue_padded]
  constructor
  · exact step_iterate_injective hinj c
  · intro h
    rw [h, iterate_map_zero]

end ShiftRegisters
