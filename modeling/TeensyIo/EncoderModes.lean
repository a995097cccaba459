import Mathlib.Data.List.Iterate
import Mathlib.Tactic.IntervalCases
import Mathlib.Tactic.Linarith
import TeensyIo.QuadratureDecoding

/-! # Encoder modes

The mode of an encoder is kept in its slot, but every step of the inputs is counted, as in x4. -/
namespace EncoderModes

open WireCommands FirmwareState FirmwareCommands FirmwareUpdate FirmwareRequests
open FirmwareDevice MachineRuns PathSums QuadratureDecoding
open ChangeEvents (step)

inductive Direction where
  | forward | reverse
  deriving DecidableEq

def Direction.turn : Direction → UInt8 → UInt8
  | .forward => next
  | .reverse => prev

def Direction.sign : Direction → ℤ
  | .forward => 1
  | .reverse => -1

/-- So many single-bit changes of the inputs in one direction; four are a cycle. -/
def walk (d : Direction) (x : UInt8) (n : ℕ) : List UInt8 := List.iterate d.turn (d.turn x) n

theorem turn_mem (d : Direction) {x : UInt8} (hx : x ∈ cycle) : d.turn x ∈ cycle := by
  have h : ∀ x ∈ cycle, next x ∈ cycle ∧ prev x ∈ cycle := by decide +kernel
  cases d with
  | forward => exact (h x hx).1
  | reverse => exact (h x hx).2

theorem delta_turn (d : Direction) {x : UInt8} (hx : x ∈ cycle) : delta x (d.turn x) = d.sign := by
  have h : ∀ x ∈ cycle, delta x (next x) = 1 ∧ delta x (prev x) = -1 := by decide +kernel
  cases d with
  | forward => exact (h x hx).1
  | reverse => exact (h x hx).2

/-- Every step of a walk counts. -/
theorem total_walk (d : Direction) {x : UInt8} (hx : x ∈ cycle) (n : ℕ) :
    total delta x (walk d x n) = d.sign * n := by
  induction n generalizing x with
  | zero => exact (mul_zero d.sign).symm
  | succ n ih =>
    change delta x (d.turn x) + total delta (d.turn x) (walk d (d.turn x) n) = _
    rw [delta_turn d hx, ih (turn_mem d hx)]
    push_cast
    rw [mul_add, mul_one, add_comm]

theorem encoderRead_active {s : State} {id : UInt8} (hid : id < kMaxEncoders)
    (hactive : (s.encoders id).active = true) (seq : UInt16) :
    encoderRead s seq id = (s, [data seq (writeI32 (s.encoders id).position)]) := by
  rw [encoderRead, if_neg]
  simp [UInt8.not_le.mpr hid, hactive]

/-- Two readings are less than a turn of the word apart. -/
theorem turns_eq_zero (distance : ℤ) {turns : ℤ} (hsum : 4294967296 * turns = distance)
    (hlow : -4294967296 < distance) (hhigh : distance < 4294967296) : turns = 0 := by
  have hmin : -1 < turns := by linarith
  have hmax : turns < 1 := by linarith
  omega

/-- In the other modes the word would have to wrap around to a value out of its range. -/
theorem wrapped_moves_iff {before later turns k m : ℤ} (hlow : -2147483648 ≤ before)
    (hhigh : before < 2147483648) (hle : -2147483648 ≤ later) (hlt : later < 2147483648)
    (hsum : later + 4294967296 * turns = before + 4 * k) (hm : m = 1 ∨ m = 2 ∨ m = 4) :
    later - before = m * k ↔
      k = 0 ∨ (m = 4 ∧ -2147483648 ≤ before + 4 * k ∧ before + 4 * k < 2147483648) := by
  constructor
  · intro h
    rcases hm with rfl | rfl | rfl
    · have hthree : 4294967296 * turns = 3 * k := by linarith
      have hmin : -3 < turns := by linarith
      have hmax : turns < 3 := by linarith
      interval_cases turns <;> omega
    · have hturns : turns = 0 := turns_eq_zero (2 * k) (by linarith) (by linarith)
        (by linarith)
      subst hturns
      omega
    · exact Or.inr ⟨rfl, by linarith, by linarith⟩
  · rintro (rfl | ⟨rfl, hmin, hmax⟩)
    · have hturns : turns = 0 :=
        turns_eq_zero (before - later) (by linarith) (by linarith) (by linarith)
      subst hturns
      linarith
    · have hturns : turns = 0 := turns_eq_zero (before + 4 * k - later)
        (by linarith) (by linarith) (by linarith)
      subst hturns
      linarith

/-- A 32-bit reading before and after `4 * n` steps differs by the mode's count exactly if the mode
is x4 and the sum fits, or there are no steps. -/
theorem reading_moves_iff (d : Direction) {before : ℤ} (hlow : -2 ^ 31 ≤ before)
    (hhigh : before < 2 ^ 31) {m : UInt8} (hm : m = 1 ∨ m = 2 ∨ m = 4) (n : ℕ) :
    (before + d.sign * (4 * n)).bmod (2 ^ 32) - before = d.sign * (m.toNat * n) ↔
      n = 0 ∨ (m = 4 ∧ -2 ^ 31 ≤ before + d.sign * (4 * n) ∧
        before + d.sign * (4 * n) < 2 ^ 31) := by
  have hmode : (m.toNat : ℤ) = 1 ∨ (m.toNat : ℤ) = 2 ∨ (m.toNat : ℤ) = 4 := by
    rcases hm with rfl | rfl | rfl <;> decide
  have hfour : (m.toNat : ℤ) = 4 ↔ m = 4 := by
    rcases hm with rfl | rfl | rfl <;> decide
  have hnone : d.sign * (n : ℤ) = 0 ↔ n = 0 := by
    cases d <;> simp [Direction.sign]
  have hmoved : d.sign * (4 * (n : ℤ)) = 4 * (d.sign * n) := mul_left_comm _ _ _
  have hwanted : d.sign * (m.toNat * (n : ℤ)) = m.toNat * (d.sign * n) := mul_left_comm _ _ _
  have hle := Int.le_bmod (x := before + d.sign * (4 * n)) (m := 2 ^ 32) (by decide)
  have hlt := Int.bmod_lt (x := before + d.sign * (4 * n)) (m := 2 ^ 32) (by decide)
  have hsum := Int.bmod_add_bdiv (before + d.sign * (4 * n)) (2 ^ 32)
  rw [hmoved] at hle hlt hsum ⊢
  rw [hwanted, ← hnone, ← hfour]
  exact wrapped_moves_iff hlow hhigh (le_trans (by decide) hle) (lt_of_lt_of_le hlt (by decide))
    hsum hmode

/-! ### Runs -/

/-- Over `n` cycles in one direction from any phase `EncoderRead` moves by what the mode asks for
exactly if the mode is x4 and the position stays within 32 bits, or there is no cycle at all. -/
theorem mode_honoured_iff (b : Board) (s : State) (id : UInt8) (d : Direction) (n : ℕ)
    (es : List Event) (hid : id < kMaxEncoders) (hactive : (s.encoders id).active = true)
    (hmode : (s.encoders id).mode = 1 ∨ (s.encoders id).mode = 2 ∨ (s.encoders id).mode = 4)
    (hphase : (s.encoders id).lastState ∈ cycle) (hkept : ∀ e ∈ es, Kept id e)
    (hpath : path b id s es = walk d (s.encoders id).lastState (4 * n)) :
    let state := after (step b) s es
    let before := (s.encoders id).position
    let later := (state.encoders id).position
    let mode := (s.encoders id).mode
    (∀ seq, encoderRead s seq id = (s, [data seq (writeI32 before)])) ∧
      (∀ seq, encoderRead state seq id = (state, [data seq (writeI32 later)])) ∧
      (later.toInt - before.toInt = d.sign * (mode.toNat * n) ↔
        n = 0 ∨ (mode = 4 ∧ -2 ^ 31 ≤ before.toInt + d.sign * (4 * n) ∧
          before.toInt + d.sign * (4 * n) < 2 ^ 31)) := by
  intro state before later mode
  have hslot : state.encoders id = seen (s.encoders id) (path b id s es) :=
    run_encoder hid hactive hkept
  have hlater : (state.encoders id).active = true := by
    rw [hslot, seen_active, hactive]
  refine ⟨encoderRead_active hid hactive, encoderRead_active hid hlater, ?_⟩
  have hmoved : later.toInt = (before.toInt + d.sign * (4 * n)).bmod (2 ^ 32) := by
    have htotal := total_walk d hphase (4 * n)
    push_cast at htotal
    change (state.encoders id).position.toInt = _
    rw [hslot, seen_position, hpath, htotal]
  rw [hmoved]
  exact reading_moves_iff d (Int32.le_toInt before) (Int32.toInt_lt before) hmode n

/-- An encoder of this mode on pins 2 and 3, both low. -/
def encoderIn (mode : UInt8) : State :=
  step sampleBoard {} (.handle (inputsAt 0) (configPacket mode))

/-- Three cycles backwards in x4. -/
theorem x4_counts :
    let state := after (step sampleBoard) (encoderIn 4) (ticks 0 (walk .reverse 0 12))
    (state.encoders 0).position.toInt - ((encoderIn 4).encoders 0).position.toInt =
      -1 * (4 * 3) := by
  have hkept : ∀ e ∈ ticks 0 (walk .reverse 0 12), Kept 0 e := by
    intro e he
    obtain ⟨x, -, rfl⟩ := List.mem_map.mp he
    trivial
  obtain ⟨-, -, hiff⟩ := mode_honoured_iff sampleBoard (encoderIn 4) 0 .reverse 3
    (ticks 0 (walk .reverse 0 12)) (by decide) rfl (by decide +kernel) (by decide +kernel) hkept
    (by decide +kernel)
  exact hiff.mpr (by decide +kernel)

/-- One cycle forward in x1 is read as four steps. -/
theorem x1_counts_four :
    let before := encoderIn 1
    let later := after (step sampleBoard) before (ticks 0 (walk .forward 0 4))
    (before.encoders 0).mode = 1 ∧
      path sampleBoard 0 before (ticks 0 (walk .forward 0 4)) = walk .forward 0 4 ∧
      encoderRead before 7 0 = (before, [data 7 (writeI32 0)]) ∧
      encoderRead later 7 0 = (later, [data 7 (writeI32 4)]) ∧
      (4 : Int32).toInt - (0 : Int32).toInt ≠
        Direction.forward.sign * ((1 : UInt8).toNat * 1) := by
  intro before later
  have hbefore : (before.encoders 0).active = true ∧ (before.encoders 0).position = 0 := by
    decide +kernel
  have hlater : (later.encoders 0).active = true ∧ (later.encoders 0).position = 4 := by
    decide +kernel
  refine ⟨rfl, by decide +kernel, ?_, ?_, by decide⟩
  · rw [encoderRead_active (by decide) hbefore.1, hbefore.2]
  · rw [encoderRead_active (by decide) hlater.1, hlater.2]

end EncoderModes
