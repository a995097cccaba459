import Mathlib.Data.Nat.Bitwise
import Mathlib.Tactic.Common
import Mathlib.Tactic.Ring

/-! # Little-endian byte strings

Numbers as byte strings of a fixed width, and the shift-and-mask spellings of the same
conversion on fixed-width integers. -/
namespace LittleEndian

/-- The low `width` bytes of a number, lowest first. -/
def toBytes : ℕ → ℕ → List UInt8
  | 0, _ => []
  | width + 1, n => UInt8.ofNat n :: toBytes width (n / 256)

def value : List UInt8 → ℕ
  | [] => 0
  | b :: bs => b.toNat + 256 * value bs

@[simp] theorem value_nil : value [] = 0 := rfl

@[simp] theorem value_cons (b : UInt8) (bs : List UInt8) :
    value (b :: bs) = b.toNat + 256 * value bs := rfl

@[simp] theorem length_toBytes (width n : ℕ) : (toBytes width n).length = width := by
  induction width generalizing n with
  | zero => rfl
  | succ width ih => simp [toBytes, ih]

theorem toNat_lt_256 (b : UInt8) : b.toNat < 256 := UInt8.toNat_lt b

theorem value_lt (bs : List UInt8) : value bs < 256 ^ bs.length := by
  induction bs with
  | nil => simp
  | cons b bs ih =>
    have hb := toNat_lt_256 b
    simp only [value_cons, List.length_cons, pow_succ]
    omega

theorem value_toBytes (width n : ℕ) : value (toBytes width n) = n % 256 ^ width := by
  induction width generalizing n with
  | zero => simp [toBytes, Nat.mod_one]
  | succ width ih =>
    have hb : (UInt8.ofNat n).toNat = n % 256 := UInt8.toNat_ofNat'
    simp only [toBytes, value_cons, ih, hb]
    rw [pow_succ, Nat.mul_comm (256 ^ width) 256, Nat.mod_mul]

theorem value_toBytes_of_lt {width n : ℕ} (h : n < 256 ^ width) :
    value (toBytes width n) = n := by
  rw [value_toBytes, Nat.mod_eq_of_lt h]

theorem toBytes_value (bs : List UInt8) : toBytes bs.length (value bs) = bs := by
  induction bs with
  | nil => rfl
  | cons b bs ih =>
    have hb := toNat_lt_256 b
    have hdiv : (b.toNat + 256 * value bs) / 256 = value bs := by omega
    have hlow : UInt8.ofNat (b.toNat + 256 * value bs) = b := by
      apply UInt8.toNat_inj.mp
      rw [UInt8.toNat_ofNat']
      omega
    simp [toBytes, hdiv, hlow, ih]

theorem toBytes_mod (width n : ℕ) : toBytes width (n % 256 ^ width) = toBytes width n := by
  have h := toBytes_value (toBytes width n)
  rwa [length_toBytes, value_toBytes] at h

/-! ### Masks and shifts -/

theorem or_shift (a b : ℕ) (ha : a < 256) : a ||| (b <<< 8) = a + 256 * b := by
  rw [Nat.or_comm, ← Nat.shiftLeft_add_eq_or_of_lt (by simpa using ha), Nat.shiftLeft_eq]
  omega

theorem low_byte (n : ℕ) : n &&& 0xFF = n % 256 := Nat.and_two_pow_sub_one_eq_mod n 8

theorem shift_byte (n k : ℕ) : n >>> (8 * k) = n / 256 ^ k := by
  rw [Nat.shiftRight_eq_div_pow, Nat.pow_mul]

theorem bytes_of_nat16 (n : ℕ) :
    [UInt8.ofNat (n &&& 0xFF), UInt8.ofNat ((n >>> 8) &&& 0xFF)] = toBytes 2 n := by
  have h8 := shift_byte n 1
  simp only [Nat.mul_one, pow_one] at h8
  simp only [toBytes, low_byte, h8]
  congr 1
  · exact UInt8.toNat_inj.mp (by simp)
  · congr 1
    exact UInt8.toNat_inj.mp (by simp)

section FixedWidth

theorem low_byte16 (v : UInt16) : (v &&& 0xFF).toUInt8 = UInt8.ofNat v.toNat := by
  apply UInt8.toNat_inj.mp
  simp only [UInt16.toNat_toUInt8, UInt16.toNat_and, UInt8.toNat_ofNat']
  change (v.toNat &&& 0xFF) % 256 = v.toNat % 256
  rw [low_byte, Nat.mod_mod]

theorem high_byte16 (v : UInt16) :
    ((v >>> 8) &&& 0xFF).toUInt8 = UInt8.ofNat (v.toNat / 256) := by
  apply UInt8.toNat_inj.mp
  simp only [UInt16.toNat_toUInt8, UInt16.toNat_and, UInt16.toNat_shiftRight, UInt8.toNat_ofNat']
  change (v.toNat >>> 8 &&& 0xFF) % 256 = v.toNat / 256 % 256
  rw [low_byte, Nat.mod_mod, shift_byte v.toNat 1, pow_one]

theorem bytes_of_uint16 (v : UInt16) :
    [(v &&& 0xFF).toUInt8, ((v >>> 8) &&& 0xFF).toUInt8] = toBytes 2 v.toNat := by
  rw [low_byte16, high_byte16]
  rfl

theorem uint16_of_bytes (lo hi : UInt8) :
    (lo.toUInt16 ||| (hi.toUInt16 <<< 8)).toNat = value [lo, hi] := by
  have hlo := toNat_lt_256 lo
  have hhi := toNat_lt_256 hi
  simp only [UInt16.toNat_or, UInt16.toNat_shiftLeft, UInt8.toNat_toUInt16]
  change lo.toNat ||| (hi.toNat <<< 8) % 65536 = lo.toNat + 256 * (hi.toNat + 256 * 0)
  rw [Nat.mod_eq_of_lt (by rw [Nat.shiftLeft_eq]; omega), or_shift _ _ hlo]
  omega

/-- Putting the two bytes of a number back together gives the number. -/
theorem uint16_roundtrip (v : UInt16) :
    (UInt8.ofNat v.toNat).toUInt16 ||| ((UInt8.ofNat (v.toNat / 256)).toUInt16 <<< 8) = v := by
  apply UInt16.toNat_inj.mp
  have hlt : v.toNat < 256 ^ 2 := v.toNat_lt
  rw [uint16_of_bytes]
  exact value_toBytes_of_lt hlt

theorem or_shift_le {n : ℕ} (lo hi k : ℕ) (hlo : lo < 2 ^ k) (hb : lo + 2 ^ k * hi < n) :
    lo ||| (hi <<< k) % n = lo + 2 ^ k * hi := by
  have hs : hi <<< k = 2 ^ k * hi := by rw [Nat.shiftLeft_eq, Nat.mul_comm]
  rw [Nat.mod_eq_of_lt (by omega), Nat.or_comm, ← Nat.shiftLeft_add_eq_or_of_lt hlo, hs,
    Nat.add_comm]

theorem uint32_of_bytes (a b c d : UInt8) :
    (a.toUInt32 ||| (b.toUInt32 <<< 8) ||| (c.toUInt32 <<< 16) ||| (d.toUInt32 <<< 24)).toNat =
      value [a, b, c, d] := by
  have ha := toNat_lt_256 a
  have hb := toNat_lt_256 b
  have hc := toNat_lt_256 c
  have hd := toNat_lt_256 d
  simp only [UInt32.toNat_or, UInt32.toNat_shiftLeft, UInt8.toNat_toUInt32]
  change a.toNat ||| (b.toNat <<< 8) % 4294967296 ||| (c.toNat <<< 16) % 4294967296 |||
    (d.toNat <<< 24) % 4294967296 = _
  rw [or_shift_le a.toNat b.toNat 8 (by omega) (by omega),
    or_shift_le _ c.toNat 16 (by omega) (by omega),
    or_shift_le _ d.toNat 24 (by omega) (by omega)]
  simp only [value_cons, value_nil]
  omega

theorem byte_of_uint32 (v : UInt32) (k : ℕ) (hk : k < 4) :
    ((v >>> UInt32.ofNat (8 * k)) &&& 0xFF).toUInt8 = UInt8.ofNat (v.toNat / 256 ^ k) := by
  have hs : (UInt32.ofNat (8 * k)).toNat % 32 = 8 * k := by
    rw [UInt32.toNat_ofNat']
    omega
  apply UInt8.toNat_inj.mp
  simp only [UInt32.toNat_toUInt8, UInt32.toNat_and, UInt32.toNat_shiftRight, UInt8.toNat_ofNat',
    hs]
  change (v.toNat >>> (8 * k) &&& 0xFF) % 256 = v.toNat / 256 ^ k % 256
  rw [low_byte, Nat.mod_mod, shift_byte]

theorem bytes_of_uint32 (v : UInt32) :
    [(v &&& 0xFF).toUInt8, ((v >>> 8) &&& 0xFF).toUInt8, ((v >>> 16) &&& 0xFF).toUInt8,
      ((v >>> 24) &&& 0xFF).toUInt8] = toBytes 4 v.toNat := by
  have h0 := byte_of_uint32 v 0 (by omega)
  have h1 := byte_of_uint32 v 1 (by omega)
  have h2 := byte_of_uint32 v 2 (by omega)
  have h3 := byte_of_uint32 v 3 (by omega)
  have hz : v >>> UInt32.ofNat (8 * 0) = v := by
    apply UInt32.toNat_inj.mp
    simp
  rw [hz] at h0
  change ((v >>> 8) &&& 0xFF).toUInt8 = _ at h1
  change ((v >>> 16) &&& 0xFF).toUInt8 = _ at h2
  change ((v >>> 24) &&& 0xFF).toUInt8 = _ at h3
  rw [h0, h1, h2, h3]
  simp [toBytes, Nat.div_div_eq_div_mul]

/-- An arithmetic shift that leaves a whole byte brings the same byte down as a logical one. -/
theorem sshiftRight_low (x : BitVec 32) {k i : ℕ} (hk : k ≤ 24) (hi : i < 8) :
    (x.sshiftRight k).getLsbD i = x.getLsbD (k + i) := by
  rw [BitVec.getLsbD_sshiftRight]
  simp [show ¬ 32 ≤ i by omega, show k + i < 32 by omega]

theorem byte_of_int32 (v : Int32) :
    (v &&& 0xFF).toUInt32.toUInt8 = (v.toUInt32 &&& 0xFF).toUInt8 ∧
    ((v >>> 8) &&& 0xFF).toUInt32.toUInt8 = ((v.toUInt32 >>> 8) &&& 0xFF).toUInt8 ∧
    ((v >>> 16) &&& 0xFF).toUInt32.toUInt8 = ((v.toUInt32 >>> 16) &&& 0xFF).toUInt8 ∧
    ((v >>> 24) &&& 0xFF).toUInt32.toUInt8 = ((v.toUInt32 >>> 24) &&& 0xFF).toUInt8 := by
  refine ⟨?_, ?_, ?_, ?_⟩ <;>
    (apply UInt8.toBitVec_inj.mp; apply BitVec.eq_of_getLsbD_eq; intro i hi)
  · simp
  · simp [sshiftRight_low v.toBitVec (show 8 ≤ 24 by omega) hi]
  · simp [sshiftRight_low v.toBitVec (show 16 ≤ 24 by omega) hi]
  · simp [sshiftRight_low v.toBitVec (show 24 ≤ 24 by omega) hi]

theorem bytes_of_int32 (v : Int32) :
    [(v &&& 0xFF).toUInt32.toUInt8, ((v >>> 8) &&& 0xFF).toUInt32.toUInt8,
      ((v >>> 16) &&& 0xFF).toUInt32.toUInt8, ((v >>> 24) &&& 0xFF).toUInt32.toUInt8] =
      toBytes 4 v.toUInt32.toNat := by
  obtain ⟨h0, h1, h2, h3⟩ := byte_of_int32 v
  rw [h0, h1, h2, h3, bytes_of_uint32]

end FixedWidth

/-- The two's complement reading of a 32-bit number. -/
def signed32 (n : ℕ) : ℤ := if n < 2 ^ 31 then n else n - 2 ^ 32

theorem signed32_toNat (v : Int32) : signed32 v.toUInt32.toNat = v.toInt := by
  have h : v.toInt = BitVec.toInt v.toBitVec := rfl
  have hn : v.toUInt32.toNat = v.toBitVec.toNat := rfl
  have hlt := v.toBitVec.isLt
  rw [h, hn, BitVec.toInt_eq_toNat_cond, signed32]
  split_ifs <;> omega

end LittleEndian
