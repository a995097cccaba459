import TeensyIo.MachineRuns
import Mathlib.Tactic.Linarith

/-! # Deadlines that are sampled

A supervisor that looks at a wrapping clock now and then and trips when the last beat is too long
ago. It may look late, or so late that the interval has wrapped to a short one; how often it has to
look for neither to matter is settled here. -/
namespace SampledDeadlines

open MachineRuns

/-- `check` is when the supervisor last looked, and `silent` is an outside observer's: since the
last clearing there has been a silence longer than the interval and a period. -/
structure Timer where
  clock : ℕ := 0
  beat : ℕ := 0
  check : ℕ := 0
  tripped : Bool := false
  silent : Bool := false
  deriving DecidableEq, Repr

inductive Action where
  | advance (n : ℕ)
  | beat | check | trip | clear | idle
  deriving DecidableEq, Repr

/-- The supervisor trips after `interval` and its clock wraps at `modulus`; it looks once in a
`period`. -/
structure Rates where
  interval : ℕ
  modulus : ℕ
  period : ℕ

namespace Timer

variable (r : Rates)

/-- What the supervisor sees of the time since the last beat. -/
def overdue (t : Timer) : Bool := decide (r.interval < (t.clock - t.beat) % r.modulus)

def step (t : Timer) : Action → Timer
  | .advance n =>
    { t with
      clock := t.clock + n
      silent := t.silent || decide (r.interval + r.period < t.clock + n - t.beat) }
  | .beat => { t with beat := t.clock }
  | .check => { t with check := t.clock, tripped := t.tripped || t.overdue r }
  | .trip => { t with tripped := true }
  | .clear => { t with beat := t.clock, tripped := false, silent := false }
  | .idle => t

/-- Time does not pass beyond a period since the last look. -/
def Prompt (t : Timer) : Action → Prop
  | .advance n => t.clock + n ≤ t.check + r.period
  | _ => True

instance (t : Timer) : DecidablePred (Prompt r t)
  | .advance n => inferInstanceAs (Decidable (t.clock + n ≤ t.check + r.period))
  | .beat | .check | .trip | .clear | .idle => isTrue trivial

/-- Nobody trips the supervisor, nor does it look after the interval is over. -/
def Spared (t : Timer) : Action → Prop
  | .check => t.overdue r = false
  | .trip => False
  | _ => True

/-- By the time the supervisor has looked after the interval was over, it has tripped. -/
structure Watched (t : Timer) : Prop where
  beat_le : t.beat ≤ t.clock
  check_le : t.check ≤ t.clock
  recent : t.clock ≤ t.check + r.period
  looked : t.beat + r.interval < t.check → t.tripped = true
  noticed : t.silent = true → t.tripped = true

theorem watched_initial : Watched r {} where
  beat_le := le_rfl
  check_le := le_rfl
  recent := Nat.zero_le _
  looked := by
    intro h
    exact absurd h (Nat.not_lt_zero _)
  noticed := by
    intro h
    cases h

/-- A look that comes within a period of one in time sees the interval as it is. -/
theorem overdue_of_late {t : Timer} (hfits : r.interval + r.period < r.modulus)
    (hrecent : t.clock ≤ t.check + r.period) (hbefore : t.check ≤ t.beat + r.interval)
    (hlate : t.beat + r.interval < t.clock) : t.overdue r = true := by
  have hexact : (t.clock - t.beat) % r.modulus = t.clock - t.beat := Nat.mod_eq_of_lt (by omega)
  rw [overdue, hexact, decide_eq_true_iff]
  omega

theorem Watched.step {t : Timer} (h : Watched r t) (hfits : r.interval + r.period < r.modulus)
    {a : Action} (hprompt : Prompt r t a) : Watched r (t.step r a) := by
  have hbeat := h.beat_le
  have hcheck := h.check_le
  have hrecent := h.recent
  cases a with
  | advance n =>
    have hnext : t.clock + n ≤ t.check + r.period := hprompt
    refine ⟨?_, ?_, hnext, h.looked, ?_⟩
    · exact hbeat.trans (Nat.le_add_right _ _)
    · exact hcheck.trans (Nat.le_add_right _ _)
    · intro hsilent
      rcases Bool.or_eq_true_iff.mp hsilent with hbefore | hlong
      · exact h.noticed hbefore
      · apply h.looked
        have hlong := of_decide_eq_true hlong
        omega
  | beat =>
    refine ⟨le_rfl, hcheck, hrecent, ?_, h.noticed⟩
    intro hlooked
    exact absurd hlooked (by simp only [Timer.step]; omega)
  | check =>
    refine ⟨hbeat, le_rfl, Nat.le_add_right _ _, ?_, ?_⟩
    · intro hlate
      by_cases hlooked : t.beat + r.interval < t.check
      · exact Bool.or_eq_true_iff.mpr (Or.inl (h.looked hlooked))
      · have hover := overdue_of_late r hfits hrecent (not_lt.mp hlooked) hlate
        exact Bool.or_eq_true_iff.mpr (Or.inr hover)
    · intro hsilent
      exact Bool.or_eq_true_iff.mpr (Or.inl (h.noticed hsilent))
  | trip => exact ⟨hbeat, hcheck, hrecent, fun _ => rfl, fun _ => rfl⟩
  | clear =>
    refine ⟨le_rfl, hcheck, hrecent, ?_, nofun⟩
    intro hlooked
    exact absurd hlooked (by simp only [Timer.step]; omega)
  | idle => exact h

theorem untripped_step_iff {t : Timer} (huntripped : t.tripped = false) (a : Action) :
    (t.step r a).tripped = false ↔ Spared r t a := by
  cases a with
  | check =>
    change (t.tripped || t.overdue r) = false ↔ t.overdue r = false
    rw [huntripped, Bool.false_or]
  | trip => exact iff_of_false nofun id
  | clear => exact iff_of_true rfl trivial
  | advance n | beat | idle => exact iff_of_true huntripped trivial

/-- The supervisor stays untripped exactly if it is spared. -/
theorem untripped_iff {t : Timer} (hstart : t.tripped = false) (actions : List Action) :
    EachState (Timer.step r) (fun t => t.tripped = false) t actions ↔
      EachStep (Timer.step r) (Spared r) t actions := by
  have hsame : ∀ t a, True → t.tripped = false →
      ((t.step r a).tripped = false ↔ Spared r t a) := by
    intro t a _ huntripped
    exact untripped_step_iff r huntripped a
  exact eachState_iff_eachStep (fun _ _ _ => trivial) hsame trivial hstart actions

end Timer

end SampledDeadlines
