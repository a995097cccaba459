import Mathlib.Algebra.Order.Group.Int
import Mathlib.Algebra.Order.Group.Unbundled.Abs

/-! # Odometers

An odometer can be set back to zero. Its observer keeps the reading it has reported last and
reports differences; whether these are the distances covered depends on who has set the odometer
back. -/
namespace Odometers

/-- `restart` sets the odometer back behind the observer's back, `reset` with its knowledge. -/
inductive Action where
  | restart | reset | read | delta
  | advance (distance : ℤ)
  deriving DecidableEq

/-- The distance covered since the last `restart`, `reset` or `delta`. -/
def counted (before : ℤ) : Action → ℤ
  | .advance distance => before + distance
  | .read => before
  | _ => 0

/-- The last of `restart`, `reset` and `delta` was a `restart` of which the observer, whose last
reading was not zero, knows nothing. -/
def stale (last : ℤ) (before : Bool) : Action → Bool
  | .restart => last != 0
  | .advance _ | .read => before
  | _ => false

/-- An odometer, the reading its observer has kept, and what has become of both. -/
@[ext] structure Odometer where
  position : ℤ := 0
  last : ℤ := 0
  counted : ℤ := 0
  stale : Bool := false

namespace Odometer

def positionAfter (o : Odometer) : Action → ℤ
  | .restart | .reset => 0
  | .read | .delta => o.position
  | .advance distance => o.position + distance

def lastAfter (o : Odometer) : Action → ℤ
  | .reset => 0
  | .delta => o.position
  | _ => o.last

def step (o : Odometer) (a : Action) : Odometer where
  position := o.positionAfter a
  last := o.lastAfter a
  counted := Odometers.counted o.counted a
  stale := Odometers.stale o.last o.stale a

/-- The difference is right unless a restart has been missed. -/
def Settled (o : Odometer) : Prop := o.position - o.last = o.counted ↔ o.stale = false

theorem settled_initial : Settled {} := iff_of_true rfl rfl

theorem Settled.step {o : Odometer} (h : Settled o) (a : Action) : Settled (o.step a) := by
  cases a with
  | restart =>
    change 0 - o.last = 0 ↔ (o.last != 0) = false
    rw [bne_eq_false_iff_eq]
    omega
  | reset => exact iff_of_true rfl rfl
  | read => exact h
  | delta => exact iff_of_true (Int.sub_self o.position) rfl
  | advance distance =>
    change o.position + distance - o.last = o.counted + distance ↔ o.stale = false
    rw [Settled] at h
    rw [← h]
    omega

/-- An odometer goes no further than the action takes it. -/
theorem positionAfter_le (o : Odometer) (a : Action) {bound : ℤ}
    (h : ∀ distance, a = .advance distance → |distance| ≤ bound) (hbound : 0 ≤ bound) :
    |o.positionAfter a| ≤ |o.position| + bound := by
  have hposition := abs_nonneg o.position
  cases a with
  | restart | reset =>
    rw [positionAfter, abs_zero]
    omega
  | read | delta =>
    rw [positionAfter]
    omega
  | advance distance =>
    have hdistance := h distance rfl
    have hsum := abs_add_le o.position distance
    rw [positionAfter]
    omega

end Odometer

end Odometers
