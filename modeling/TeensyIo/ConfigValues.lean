import TeensyIo.HostResources
import Mathlib.Tactic.Positivity

/-! # Values of a configuration

What a YAML loader builds from scalars, lists and mappings, and the operations of Python that the
validator and `configure_all` apply to it. -/
namespace ConfigValues

open HostProtocol HostResources

/-- A float. The two zeros are equal, and the loader makes only one NaN. -/
inductive Double where
  | finite (x : ℚ)
  | infinity (negative : Bool)
  | nan
  deriving DecidableEq

/-- A hashable value up to `==`: `True`, `1` and `1.0` are one key of a mapping. A date or a time
is known by a number. -/
inductive Key where
  | null
  | number (x : ℚ)
  | infinity (negative : Bool)
  | nan
  | str (s : String)
  | bytes (b : List UInt8)
  | timestamp (t : ℕ)
  deriving DecidableEq

/-- A mapping has its entries in the order of insertion. -/
inductive Value where
  | null
  | bool (b : Bool)
  | int (n : ℤ)
  | float (x : Double)
  | str (s : String)
  | bytes (b : List UInt8)
  | timestamp (t : ℕ)
  | list (items : List Value)
  | dict (entries : List (Key × Value))

abbrev Mapping := List (Key × Value)

/-- `spec.get(field)`, where nothing stands for a missing key. -/
def Mapping.get (spec : Mapping) (field : String) : Option Value := spec.lookup (.str field)

namespace Double

/-- `x < y`. -/
def below : Double → ℚ → Bool
  | finite x, y => x < y
  | infinity negative, _ => negative
  | nan, _ => false

/-- `x > y`. -/
def above : Double → ℚ → Bool
  | finite x, y => y < x
  | infinity negative, _ => !negative
  | nan, _ => false

end Double

namespace Value

/-- The value as a key; an unhashable value is none. -/
def key : Value → Option Key
  | null => some .null
  | bool b => some (.number (if b then 1 else 0))
  | int n => some (.number n)
  | float (.finite x) => some (.number x)
  | float (.infinity negative) => some (.infinity negative)
  | float .nan => some .nan
  | str s => some (.str s)
  | bytes b => some (.bytes b)
  | timestamp t => some (.timestamp t)
  | list _ => none
  | dict _ => none

/-- The value as an integer, if `isinstance(value, int)`. -/
def asInt : Value → Option ℤ
  | bool b => some (if b then 1 else 0)
  | int n => some n
  | _ => none

/-- The value as a number, if `isinstance(value, (int, float))`. -/
def asNumber : Value → Option Double
  | bool b => some (.finite (if b then 1 else 0))
  | int n => some (.finite n)
  | float x => some x
  | _ => none

/-- The value as a string, if `isinstance(value, str)`. -/
def asStr : Value → Option String
  | str s => some s
  | _ => none

theorem eq_str_of_asStr {v : Value} {s : String} (h : v.asStr = some s) : v = .str s := by
  cases v with
  | str t => exact congrArg str (Option.some.inj h)
  | _ => cases h

def truthy : Value → Bool
  | null => false
  | bool b => b
  | int n => n != 0
  | float (.finite x) => x != 0
  | float _ => true
  | str s => s != ""
  | bytes b => b != []
  | timestamp _ => true
  | list items => !items.isEmpty
  | dict entries => !entries.isEmpty

end Value

/-- What `int` and `float` read in a text. -/
structure Texts where
  int : String → Option ℤ
  intBytes : List UInt8 → Option ℤ
  float : String → Option Double
  floatBytes : List UInt8 → Option Double

def parsed {α : Type} : Option α → Except PyError α
  | some x => .ok x
  | none => .error .valueError

/-- `float(n)`, which overflows where rounding leaves the range. -/
def doubleOf (n : ℤ) : Except PyError Double :=
  if 2 ^ 1024 ≤ |roundDouble n| then .error .overflowError else .ok (.finite (roundDouble n))

section Conversions

variable (texts : Texts)

/-- `int(value)`. -/
def toInt : Value → Except PyError ℤ
  | .bool b => .ok (if b then 1 else 0)
  | .int n => .ok n
  | .float (.finite x) => .ok (truncate x)
  | .float (.infinity _) => .error .overflowError
  | .float .nan => .error .valueError
  | .str s => parsed (texts.int s)
  | .bytes b => parsed (texts.intBytes b)
  | _ => .error .typeError

/-- `float(value)`. -/
def toFloat : Value → Except PyError Double
  | .bool b => .ok (.finite (if b then 1 else 0))
  | .int n => doubleOf n
  | .float x => .ok x
  | .str s => parsed (texts.float s)
  | .bytes b => parsed (texts.floatBytes b)
  | _ => .error .typeError

theorem toInt_of_asInt {v : Value} {n : ℤ} (h : v.asInt = some n) : toInt texts v = .ok n := by
  cases v with
  | bool b => exact congrArg Except.ok (Option.some.inj h)
  | int m => exact congrArg Except.ok (Option.some.inj h)
  | _ => cases h

end Conversions

/-! ### Rounding stays within integers -/

theorem roundHalfEven_le {x : ℚ} {n : ℤ} (h : x ≤ n) : roundHalfEven x ≤ n := by
  have hfloor : ⌊x⌋ ≤ n := by
    have := Int.floor_le_floor h
    rwa [Int.floor_intCast] at this
  have hlow := Int.floor_le x
  unfold roundHalfEven
  dsimp only
  by_cases heq : ⌊x⌋ = n
  · have hx : x = n := le_antisymm h (heq ▸ hlow)
    have hnone : x - ⌊x⌋ < 1 / 2 := by
      rw [heq, hx, sub_self]
      norm_num
    rw [if_pos hnone]
    exact hfloor
  · split_ifs <;> omega

theorem roundHalfEven_nonneg {x : ℚ} (h : 0 ≤ x) : 0 ≤ roundHalfEven x := by
  have hfloor : 0 ≤ ⌊x⌋ := Int.floor_nonneg.mpr h
  unfold roundHalfEven
  dsimp only
  split_ifs <;> omega

/-- A float does not leave an interval between zero and a small integer. -/
theorem roundDouble_mem {x : ℚ} {n : ℕ} (hlow : 0 ≤ x) (hhigh : x ≤ n) (hn : n < 2 ^ 52) :
    0 ≤ roundDouble x ∧ roundDouble x ≤ n := by
  unfold roundDouble
  dsimp only
  rw [abs_of_nonneg hlow]
  generalize hk : max (Int.log 2 x - 52) (-1074) = k
  have hpos : (0 : ℚ) < 2 ^ k := zpow_pos two_pos k
  have hneg : k ≤ 0 := by
    rw [← hk]
    apply max_le _ (by decide)
    rcases hlow.eq_or_lt with hzero | hpositive
    · rw [← hzero, Int.log_zero_right]
      decide
    · have hbound : x < ((2 : ℕ) : ℚ) ^ (52 : ℤ) := by
        apply hhigh.trans_lt
        exact_mod_cast hn
      have := (Int.lt_zpow_iff_log_lt one_lt_two hpositive).mp hbound
      omega
  -- the scale is a power of one half, so the upper bound is a whole number of steps
  obtain ⟨j, rfl⟩ := Int.exists_eq_neg_ofNat hneg
  have hsteps : x / 2 ^ (-(j : ℤ)) ≤ ((n * 2 ^ j : ℤ) : ℚ) := by
    rw [div_le_iff₀ hpos, zpow_neg, zpow_natCast]
    push_cast
    rwa [mul_assoc, mul_inv_cancel₀ (by positivity), mul_one]
  constructor
  · apply mul_nonneg _ hpos.le
    exact_mod_cast roundHalfEven_nonneg (div_nonneg hlow hpos.le)
  · have hrounded : ((roundHalfEven (x / 2 ^ (-(j : ℤ))) : ℤ) : ℚ) ≤ ((n * 2 ^ j : ℤ) : ℚ) := by
      exact_mod_cast roundHalfEven_le hsteps
    calc (roundHalfEven (x / 2 ^ (-(j : ℤ))) : ℚ) * 2 ^ (-(j : ℤ))
        ≤ ((n * 2 ^ j : ℤ) : ℚ) * 2 ^ (-(j : ℤ)) := mul_le_mul_of_nonneg_right hrounded hpos.le
      _ = n := by
        rw [zpow_neg, zpow_natCast]
        push_cast
        rw [mul_assoc, mul_inv_cancel₀ (by positivity), mul_one]

end ConfigValues
