import TeensyIo.ShiftRegisters
import TeensyIo.WireCompatibility
import Mathlib.Algebra.BigOperators.Group.Finset.Basic

/-! # The checksum as a shift register

The loop over the bits of a byte is one step of a linear register of 16 bits. Whether the
trailer of a frame fits its bytes is a question about the residue of all of them, with the
two bytes of the trailer in the order opposite to the one in which they are sent. -/
namespace ChecksumAlgebra

open ShiftRegisters
open FirmwareProtocol (crcBit crcByte crc16Ccitt joined)

/-! ### One step -/

theorem topBit_iff (c : UInt16) : c &&& 0x8000 ≠ 0 ↔ c.toBitVec.getLsbD 15 = true := by
  have hand : (c &&& 0x8000).toBitVec =
      if c.toBitVec.getLsbD 15 then BitVec.twoPow 16 15 else 0 := BitVec.and_twoPow c.toBitVec 15
  cases h : c.toBitVec.getLsbD 15 with
  | false =>
    rw [h] at hand
    have hzero : c &&& 0x8000 = 0 := UInt16.toBitVec_inj.mp hand
    simp [hzero]
  | true =>
    rw [h] at hand
    simp only [iff_true]
    intro hzero
    rw [hzero] at hand
    exact absurd hand (by decide)

/-- The bit that leaves the register comes back at the taps. -/
theorem crcBit_bits (c : UInt16) (i : ℕ) (hi : i < 16) :
    (crcBit c).toBitVec.getLsbD i =
      ((decide (0 < i) && c.toBitVec.getLsbD (i - 1)) ^^
        (c.toBitVec.getLsbD 15 && (0x1021#16).getLsbD i)) := by
  have hshift : (c <<< 1).toBitVec.getLsbD i = (decide (0 < i) && c.toBitVec.getLsbD (i - 1)) := by
    rw [UInt16.toBitVec_shiftLeft]
    change (c.toBitVec <<< 1).getLsbD i = _
    rw [BitVec.getLsbD_shiftLeft]
    cases i with
    | zero => simp
    | succ i => simp [hi]
  unfold crcBit
  by_cases h : c &&& 0x8000 ≠ 0
  · rw [if_pos h, (topBit_iff c).mp h, UInt16.toBitVec_xor, BitVec.getLsbD_xor, hshift]
    simp
  · have htop : c.toBitVec.getLsbD 15 = false := by
      rw [← Bool.not_eq_true, ← topBit_iff c]
      exact h
    rw [if_neg h, htop, hshift]
    simp

theorem word_ext {a b : UInt16} (h : ∀ i < 16, a.toBitVec.getLsbD i = b.toBitVec.getLsbD i) :
    a = b :=
  UInt16.toBitVec_inj.mp (BitVec.eq_of_getLsbD_eq h)

theorem crcBit_xor (a b : UInt16) : crcBit (a ^^^ b) = crcBit a ^^^ crcBit b := by
  apply word_ext
  intro i hi
  rw [UInt16.toBitVec_xor, BitVec.getLsbD_xor, crcBit_bits _ i hi, crcBit_bits _ i hi,
    crcBit_bits _ i hi, UInt16.toBitVec_xor, BitVec.getLsbD_xor, BitVec.getLsbD_xor]
  generalize a.toBitVec.getLsbD (i - 1) = p
  generalize b.toBitVec.getLsbD (i - 1) = q
  generalize a.toBitVec.getLsbD 15 = r
  generalize b.toBitVec.getLsbD 15 = s
  generalize (0x1021#16).getLsbD i = t
  generalize decide (0 < i) = u
  revert p q r s t u
  decide

/-- The lowest tap shows what has left the register, so nothing is lost. -/
theorem crcBit_eq_zero {c : UInt16} (h : crcBit c = 0) : c = 0 := by
  have hbits : ∀ i < 16, ((decide (0 < i) && c.toBitVec.getLsbD (i - 1)) ^^
      (c.toBitVec.getLsbD 15 && (0x1021#16).getLsbD i)) = false := by
    intro i hi
    rw [← crcBit_bits c i hi, h]
    exact BitVec.getLsbD_zero
  have htop : c.toBitVec.getLsbD 15 = false := by simpa using hbits 0 (by omega)
  apply word_ext
  intro i hi
  rw [UInt16.toBitVec_zero, BitVec.getLsbD_zero]
  by_cases h15 : i = 15
  · rw [h15, htop]
  · have hnext := hbits (i + 1) (by omega)
    rw [htop, Bool.false_and, Bool.xor_false, Nat.add_sub_cancel] at hnext
    simpa using hnext

/-- The number of ones, modulo two. -/
def bitParity (c : UInt16) : ZMod 2 :=
  ∑ i ∈ Finset.range 16, if c.toBitVec.getLsbD i then 1 else 0

theorem bit_xor (a b : Bool) : (if a ^^ b then (1 : ZMod 2) else 0) =
    (if a then 1 else 0) + if b then 1 else 0 := by
  revert a b
  decide

theorem bitParity_xor (a b : UInt16) : bitParity (a ^^^ b) = bitParity a + bitParity b := by
  simp only [bitParity, ← Finset.sum_add_distrib, ← bit_xor, UInt16.toBitVec_xor,
    BitVec.getLsbD_xor]

/-- There are three taps: with the bit that leaves, an even number of ones changes. -/
theorem bitParity_crcBit (c : UInt16) : bitParity (crcBit c) = bitParity c := by
  have hbit : ∀ i < 16, (if (crcBit c).toBitVec.getLsbD i then (1 : ZMod 2) else 0) =
      (if decide (0 < i) && c.toBitVec.getLsbD (i - 1) then 1 else 0) +
        if c.toBitVec.getLsbD 15 && (0x1021#16).getLsbD i then 1 else 0 := by
    intro i hi
    rw [crcBit_bits c i hi, bit_xor]
  have htaps : (∑ i ∈ Finset.range 16,
      if c.toBitVec.getLsbD 15 && (0x1021#16).getLsbD i then (1 : ZMod 2) else 0) =
      if c.toBitVec.getLsbD 15 then 1 else 0 := by
    cases c.toBitVec.getLsbD 15 <;> decide
  have hshift : (∑ i ∈ Finset.range 16,
      if decide (0 < i) && c.toBitVec.getLsbD (i - 1) then (1 : ZMod 2) else 0) =
      ∑ i ∈ Finset.range 15, if c.toBitVec.getLsbD i then 1 else 0 := by
    rw [Finset.sum_range_succ']
    simp only [Nat.zero_lt_succ, decide_true, Bool.true_and, Nat.add_sub_cancel, lt_irrefl,
      decide_false, Bool.false_and, Bool.false_eq_true, if_false, add_zero]
  rw [bitParity, Finset.sum_congr rfl fun i hi => hbit i (Finset.mem_range.mp hi),
    Finset.sum_add_distrib, htaps, hshift]
  exact (Finset.sum_range_succ _ 15).symm

/-! ### The register -/

/-- The contents of the checksum register, added by exclusive or. -/
@[ext]
structure Residue where
  word : UInt16
  deriving DecidableEq

instance : Add Residue := ⟨fun a b => ⟨a.word ^^^ b.word⟩⟩
instance : Zero Residue := ⟨⟨0⟩⟩
instance : Neg Residue := ⟨id⟩

theorem add_self (a : Residue) : a + a = 0 := Residue.ext UInt16.xor_self

instance : AddCommGroup Residue where
  add_assoc a b c := Residue.ext (UInt16.xor_assoc a.word b.word c.word)
  zero_add a := Residue.ext UInt16.zero_xor
  add_zero a := Residue.ext UInt16.xor_zero
  neg_add_cancel := add_self
  add_comm a b := Residue.ext (UInt16.xor_comm a.word b.word)
  nsmul := nsmulRec
  zsmul := zsmulRec

theorem eq_iff_add_eq_zero (a b : Residue) : a = b ↔ a + b = 0 := by
  constructor
  · rintro rfl
    exact add_self a
  · intro h
    rw [← add_zero a, ← add_self b, ← add_assoc, h, zero_add]

def step : Residue →+ Residue where
  toFun c := ⟨crcBit c.word⟩
  map_zero' := by decide
  map_add' a b := Residue.ext (crcBit_xor a.word b.word)

def one : Residue := ⟨1⟩

theorem word_steps (n : ℕ) (c : UInt16) : step^[n] ⟨c⟩ = ⟨crcBit^[n] c⟩ := by
  induction n generalizing c with
  | zero => rfl
  | succ n ih =>
    rw [Function.iterate_succ_apply, Function.iterate_succ_apply]
    exact ih (crcBit c)

theorem step_injective : Function.Injective step := by
  apply (injective_iff_map_eq_zero step).mpr
  intro c h
  exact Residue.ext (crcBit_eq_zero (congrArg Residue.word h))

def parity : Residue →+ ZMod 2 where
  toFun c := bitParity c.word
  map_zero' := by decide
  map_add' a b := bitParity_xor a.word b.word

theorem parity_step (c : Residue) : parity (step c) = parity c := bitParity_crcBit c.word

theorem parity_one : parity one = 1 := by decide

/-- From `c` on, the register does not hold a single one in the next `n` steps. -/
def noReturn : ℕ → ℕ → Bool
  | 0, _ => true
  | n + 1, c => decide (c ≠ 1) && noReturn n (HostProtocol.crcBit c)

theorem noReturn_spec {n c : ℕ} (h : noReturn n c = true) :
    ∀ i < n, HostProtocol.crcBit^[i] c ≠ 1 := by
  induction n generalizing c with
  | zero =>
    intro i hi
    omega
  | succ n ih =>
    simp only [noReturn, Bool.and_eq_true, decide_eq_true_eq] at h
    intro i hi
    cases i with
    | zero => exact h.1
    | succ i => exact ih h.2 i (by omega)

/-- Within the 1088 bits of the longest frame the register does not come back to a single one. -/
theorem period_exceeds {n : ℕ} (hpos : 0 < n) (hn : n < 1088) : step^[n] one + one ≠ 0 := by
  have hrun : noReturn 1087 (HostProtocol.crcBit 1) = true := by decide +kernel
  have hnat := noReturn_spec hrun (n - 1) (by omega)
  rw [← Function.iterate_succ_apply, Nat.succ_eq_add_one, Nat.sub_add_cancel hpos] at hnat
  rw [Ne, ← eq_iff_add_eq_zero, one, word_steps]
  intro heq
  have hword : crcBit^[n] 1 = 1 := congrArg Residue.word heq
  have hvalue := WireCompatibility.crcBits_toNat n 1
  rw [hword] at hvalue
  exact hnat hvalue.symm

/-! ### Bytes -/

/-- The bits of a byte in the order in which the register takes them in. -/
def bitsOf (b : UInt8) : List Bool := (List.range 8).map fun i => b.toNat.testBit (7 - i)

def bitStream (bytes : List UInt8) : List Bool := bytes.flatMap bitsOf

@[simp] theorem length_bitsOf (b : UInt8) : (bitsOf b).length = 8 := by simp [bitsOf]

@[simp] theorem length_bitStream (bytes : List UInt8) :
    (bitStream bytes).length = 8 * bytes.length := by
  induction bytes with
  | nil => rfl
  | cons b bytes ih =>
    have hcons : bitStream (b :: bytes) = bitsOf b ++ bitStream bytes := rfl
    rw [hcons, List.length_append, length_bitsOf, ih, List.length_cons]
    omega

theorem bitStream_cons (b : UInt8) (bytes : List UInt8) :
    bitStream (b :: bytes) = bitsOf b ++ bitStream bytes := rfl

theorem bitStream_append (xs ys : List UInt8) :
    bitStream (xs ++ ys) = bitStream xs ++ bitStream ys := List.flatMap_append

/-- What bytes leave in the empty register. -/
def remainder (bytes : List UInt8) : Residue := residue step one (bitStream bytes)

theorem remainder_append (xs ys : List UInt8) :
    remainder (xs ++ ys) = step^[8 * ys.length] (remainder xs) + remainder ys := by
  rw [remainder, bitStream_append, residue_append, length_bitStream]
  rfl

/-- A byte fills the lower half of the empty register, and moves up with eight more steps. -/
theorem byte_steps (b : UInt8) :
    remainder [b] = ⟨b.toUInt16⟩ ∧ crcBit^[8] b.toUInt16 = b.toUInt16 <<< 8 := by
  have hall : ∀ n < 256, remainder [UInt8.ofNat n] = ⟨(UInt8.ofNat n).toUInt16⟩ ∧
      crcBit^[8] (UInt8.ofNat n).toUInt16 = (UInt8.ofNat n).toUInt16 <<< 8 := by decide +kernel
  have := hall b.toNat (UInt8.toNat_lt b)
  rwa [UInt8.ofNat_toNat] at this

theorem crcByte_eq (c : Residue) (b : UInt8) :
    (⟨crcByte c.word b⟩ : Residue) = step^[8] c + step^[16] (remainder [b]) := by
  obtain ⟨hlow, hhigh⟩ := byte_steps b
  have hsum : (⟨c.word ^^^ (b.toUInt16 <<< 8)⟩ : Residue) = c + step^[8] (remainder [b]) := by
    rw [hlow, word_steps, hhigh]
    rfl
  rw [crcByte, ← word_steps, hsum, iterate_map_add, ← Function.iterate_add_apply]

theorem crc_eq (data : List UInt8) (c : Residue) :
    (⟨data.foldl crcByte c.word⟩ : Residue) =
      step^[8 * data.length] c + step^[16] (remainder data) := by
  induction data using List.reverseRecOn with
  | nil =>
    have hnone : remainder [] = 0 := rfl
    rw [hnone, iterate_map_zero, add_zero]
    rfl
  | append_singleton data b ih =>
    have hlen : 8 * (data ++ [b]).length = 8 + 8 * data.length := by
      rw [List.length_append, List.length_singleton]
      omega
    have hswap : step^[8] (step^[16] (remainder data)) =
        step^[16] (step^[8 * [b].length] (remainder data)) := by
      rw [← Function.iterate_add_apply, ← Function.iterate_add_apply]
      rfl
    rw [List.foldl_append, List.foldl_cons, List.foldl_nil, remainder_append, iterate_map_add,
      hlen, Function.iterate_add_apply, ← add_assoc, ← hswap, ← iterate_map_add, ← ih]
    exact crcByte_eq ⟨data.foldl crcByte c.word⟩ b

/-- A trailer, with the byte sent last in front. -/
theorem remainder_trailer (lo hi : UInt8) : remainder [hi, lo] = ⟨joined lo hi⟩ := by
  have hsplit : remainder [hi, lo] = step^[8] (remainder [hi]) + remainder [lo] :=
    remainder_append [hi] [lo]
  rw [hsplit, (byte_steps hi).1, (byte_steps lo).1, word_steps, (byte_steps hi).2]
  apply Residue.ext
  apply word_ext
  intro i h16
  change (hi.toUInt16 <<< 8 ^^^ lo.toUInt16).toBitVec.getLsbD i =
    (lo.toUInt16 ||| (hi.toUInt16 <<< 8)).toBitVec.getLsbD i
  rw [UInt16.toBitVec_xor, UInt16.toBitVec_or, BitVec.getLsbD_xor, BitVec.getLsbD_or,
    UInt16.toBitVec_shiftLeft]
  change ((hi.toUInt16.toBitVec <<< 8).getLsbD i ^^ _) =
    (_ || (hi.toUInt16.toBitVec <<< 8).getLsbD i)
  rw [BitVec.getLsbD_shiftLeft]
  by_cases h8 : i < 8
  · simp [h8]
  · have hlow : lo.toUInt16.toBitVec.getLsbD i = false := by
      rw [UInt8.toBitVec_toUInt16, BitVec.getLsbD_setWidth, BitVec.getLsbD_of_ge _ _ (by omega)]
      simp
    rw [hlow]
    simp

/-- The trailer fits exactly if covered bytes and trailer, with its bytes exchanged, leave the
register as the initial value makes it. -/
theorem checksum_iff (covered : List UInt8) (lo hi : UInt8) :
    crc16Ccitt covered = joined lo hi ↔
      step^[8 * covered.length] ⟨0xFFFF⟩ + remainder (covered ++ [hi, lo]) = 0 := by
  have hcrc : (⟨crc16Ccitt covered⟩ : Residue) =
      step^[8 * covered.length] ⟨0xFFFF⟩ + step^[16] (remainder covered) :=
    crc_eq covered ⟨0xFFFF⟩
  have hall : remainder (covered ++ [hi, lo]) =
      step^[16] (remainder covered) + ⟨joined lo hi⟩ := by
    rw [remainder_append, remainder_trailer]
    rfl
  rw [hall, ← add_assoc, ← hcrc, ← eq_iff_add_eq_zero, Residue.mk.injEq]

/-! ### Differences -/

/-- The changes from one byte string to another. -/
def changes (xs ys : List UInt8) : List UInt8 := List.zipWith (· ^^^ ·) xs ys

theorem bitsOf_xor (a b : UInt8) : bitsOf (a ^^^ b) = List.zipWith xor (bitsOf a) (bitsOf b) := by
  rw [bitsOf, bitsOf, bitsOf, List.zipWith_map_left, List.zipWith_map_right, List.zipWith_self]
  simp only [UInt8.toNat_xor, Nat.testBit_xor]

theorem bitStream_changes {xs ys : List UInt8} (hlen : xs.length = ys.length) :
    bitStream (changes xs ys) = List.zipWith xor (bitStream xs) (bitStream ys) := by
  induction xs generalizing ys with
  | nil => simp [changes, bitStream]
  | cons x xs ih =>
    cases ys with
    | nil => cases hlen
    | cons y ys =>
      have hcons : changes (x :: xs) (y :: ys) = (x ^^^ y) :: changes xs ys := rfl
      rw [hcons, bitStream_cons, ih (Nat.succ.inj hlen), bitsOf_xor, bitStream_cons,
        bitStream_cons, List.zipWith_append (by rw [length_bitsOf, length_bitsOf])]

theorem remainder_changes {xs ys : List UInt8} (hlen : xs.length = ys.length) :
    remainder (changes xs ys) = remainder xs + remainder ys := by
  have hbits : (bitStream xs).length = (bitStream ys).length := by
    rw [length_bitStream, length_bitStream, hlen]
  rw [remainder, bitStream_changes hlen, residue_xor step (add_self one) hbits]
  rfl

/-- From a frame whose trailer fits, the changes that keep it fitting are those that leave
nothing in the register. -/
theorem checksum_changes {covered covered' : List UInt8} {lo hi lo' hi' : UInt8}
    (hlen : covered.length = covered'.length) (h : crc16Ccitt covered = joined lo hi) :
    crc16Ccitt covered' = joined lo' hi' ↔
      remainder (changes (covered ++ [hi, lo]) (covered' ++ [hi', lo'])) = 0 := by
  rw [checksum_iff] at h ⊢
  rw [remainder_changes (by rw [List.length_append, List.length_append, hlen]; rfl), ← hlen]
  rw [← eq_iff_add_eq_zero] at h ⊢
  rw [h, eq_iff_add_eq_zero]

end ChecksumAlgebra
