import TeensyIo.SubscriptionCalls
import TeensyIo.FirmwareDevice

/-! # Telemetry and the wrapping clock

The firmware compares its millisecond clock, which starts again at zero every 2^32 ms, with the
reading at which the next frame is due. True time does not start again. -/
namespace TelemetryPacing

open WireCommands FirmwareState FirmwareCommands FirmwareUpdate SubscriptionCalls MachineRuns
open FirmwareDevice (sampleBoard envAt commandPacket)

/-! ### Comparing the readings of a wrapping clock -/

section Clock

variable {period due time : ℕ}

/-- Both moments lie in one period of the clock, or the later period has got at least as far. -/
def InStep (period due time : ℕ) : Prop :=
  time / period = due / period ∨ (due / period < time / period ∧ due % period ≤ time % period)

instance (period due time : ℕ) : Decidable (InStep period due time) :=
  inferInstanceAs (Decidable (_ ∨ _))

/-- The readings compare as the moments do exactly if they are in step, for moments of which the
first is at most a period ahead. -/
theorem compare_iff (hperiod : 0 < period) (hnear : due ≤ time + period) :
    ((due % period ≤ time % period) ↔ due ≤ time) ↔ InStep period due time := by
  have hdue := Nat.div_add_mod due period
  have htime := Nat.div_add_mod time period
  have hx := Nat.mod_lt due hperiod
  have hy := Nat.mod_lt time hperiod
  unfold InStep
  generalize due / period = a at hdue ⊢
  generalize due % period = x at hdue hx ⊢
  generalize time / period = c at htime ⊢
  generalize time % period = y at htime hy ⊢
  rcases Nat.lt_trichotomy a c with hlt | heq | hgt
  · have hnext : period * a + period ≤ period * c := by
      rw [← Nat.mul_succ]
      exact Nat.mul_le_mul_left period hlt
    constructor
    · intro h
      exact Or.inr ⟨hlt, h.mpr (by omega)⟩
    · rintro (hsame | ⟨-, hle⟩)
      · omega
      · exact iff_of_true hle (by omega)
  · subst heq
    exact iff_of_true (by omega) (Or.inl rfl)
  · have hnext : period * c + period ≤ period * a := by
      rw [← Nat.mul_succ]
      exact Nat.mul_le_mul_left period hgt
    apply iff_of_false
    · intro h
      have := h.mp (by omega)
      omega
    · rintro (hsame | ⟨hbefore, -⟩)
      · omega
      · omega

end Clock

/-! ### The firmware and true time -/

/-- What happens, seen from one subscription: an update at a moment of true time, or anything
else the firmware does in between. -/
inductive Action where
  | update (env : Env) (time : ℕ)
  | elsewhere (device : State)

/-- The firmware, the moment of the last update and the moment at which the last telemetry frame
of the subscription was queued. -/
structure Tracked where
  device : State
  lastUpdate : ℕ := 0
  lastFrame : Option ℕ := none

variable (b : Board) (i : UInt8)

/-- How many telemetry frames an update queues for the subscription. -/
def telemetryCount (env : Env) (s : State) : ℕ :=
  (updateCalls b env s).countP fun c => c.slot = i && c.type = .telemetry

def step (r : Tracked) : Action → Tracked
  | .update env time =>
    { device := updateSubscriptions b env r.device
      lastUpdate := time
      lastFrame := if 0 < telemetryCount b i env r.device then some time else r.lastFrame }
  | .elsewhere device => { r with device := device }

/-- Time does not run backwards, the clock reads true time modulo 2^32, the resource can be read,
and nothing else touches the subscription. -/
def Proper (r : Tracked) : Action → Prop
  | .update env time =>
    r.lastUpdate ≤ time ∧ env.millis 1 = UInt32.ofNat time ∧
      (readResourceValue b env r.device i.toNat (r.device.subscriptions i).kind
        (r.device.subscriptions i).id).isSome = true
  | .elsewhere device => device.subscriptions i = r.device.subscriptions i

/-- The pause between two frames in milliseconds. -/
def pause (rate : UInt16) : ℕ := max 1 (1000 / rate.toNat)

/-- An update queues at most one frame, and after a first one it queues one exactly if the pause
is over. -/
def Paced (rate : UInt16) (r : Tracked) : Action → Prop
  | .update env time =>
    telemetryCount b i env r.device ≤ 1 ∧
      ∀ last ∈ r.lastFrame,
        (0 < telemetryCount b i env r.device ↔ last + pause rate ≤ time)
  | .elsewhere _ => True

/-- Between the moment the next frame is due and the update the clock has not started again, or
has come past the reading at which the frame is due. -/
def ClockInStep (rate : UInt16) (r : Tracked) : Action → Prop
  | .update _ time => ∀ last ∈ r.lastFrame, InStep (2 ^ 32) (last + pause rate) time
  | .elsewhere _ => True

instance decidableProper : ∀ (r : Tracked) (a : Action), Decidable (Proper b i r a)
  | _, .update _ _ => inferInstanceAs (Decidable (_ ≤ _ ∧ _ ∧ _))
  | _, .elsewhere _ => inferInstanceAs (Decidable (_ = _))

instance decidablePaced (rate : UInt16) :
    ∀ (r : Tracked) (a : Action), Decidable (Paced b i rate r a)
  | _, .update _ _ => inferInstanceAs (Decidable (_ ∧ ∀ last ∈ _, _))
  | _, .elsewhere _ => isTrue trivial

instance decidableClockInStep (rate : UInt16) :
    ∀ (r : Tracked) (a : Action), Decidable (ClockInStep rate r a)
  | _, .update _ _ => inferInstanceAs (Decidable (∀ last ∈ _, _))
  | _, .elsewhere _ => isTrue trivial

theorem pause_le (rate : UInt16) : pause rate ≤ 1000 :=
  max_le (by omega) (Nat.div_le_self 1000 rate.toNat)

theorem intervalMs_eq (rate : UInt16) : (intervalMs rate).toNat = pause rate := by
  have hdiv : (1000 / rate.toUInt32).toNat = 1000 / rate.toNat := by
    rw [UInt32.toNat_div, UInt16.toNat_toUInt32]
    rfl
  unfold intervalMs pause
  by_cases hzero : 1000 / rate.toUInt32 = 0
  · rw [hzero] at hdiv
    rw [if_pos hzero, ← hdiv]
    rfl
  · have hpos : 0 < 1000 / rate.toNat := by
      rw [← hdiv]
      exact Nat.pos_of_ne_zero fun h => hzero (UInt32.toNat_inj.mp h)
    rw [if_neg hzero, hdiv, max_eq_right hpos]

/-- The reading of the clock at which a frame after `time` is due. -/
theorem due_reading (time : ℕ) (rate : UInt16) :
    UInt32.ofNat time + intervalMs rate = UInt32.ofNat (time + pause rate) := by
  rw [UInt32.ofNat_add, ← intervalMs_eq, UInt32.ofNat_toNat]

/-- The subscription is in place, and its slot knows when the next frame is due. -/
structure Scheduled (i : UInt8) (rate : UInt16) (r : Tracked) : Prop where
  active : (r.device.subscriptions i).active = true
  rate_eq : (r.device.subscriptions i).rateHz = rate
  due : ∀ last, r.lastFrame = some last → last ≤ r.lastUpdate ∧
    (r.device.subscriptions i).nextDueMs = UInt32.ofNat (last + pause rate)

section Scheduled

variable {b i} {rate : UInt16} {r : Tracked} {env : Env} {time : ℕ}

/-- What an update does for a subscription in place. -/
theorem update_scheduled (h : Scheduled i rate r) (hi : i.toNat < kMaxSubscriptions.toNat)
    (hrate : rate ≠ 0) (hproper : Proper b i r (.update env time)) :
    let slot := r.device.subscriptions i
    let late := slot.nextDueMs ≤ UInt32.ofNat time
    telemetryCount b i env r.device = (if late then 1 else 0) ∧
      ∃ value, (updateSubscriptions b env r.device).subscriptions i =
        { slot with
          lastValue := value, hasLastValue := true
          nextDueMs := if late then UInt32.ofNat (time + pause rate) else slot.nextDueMs } := by
  obtain ⟨-, hclock, hread⟩ := hproper
  obtain ⟨value, hvalue⟩ := Option.isSome_iff_exists.mp hread
  obtain ⟨hcalls, hslot⟩ := update_slot b env r.device hi
  have hnot : ¬ (!(r.device.subscriptions i).active) = true := by
    rw [h.active]
    decide
  have hrate' : ¬ (r.device.subscriptions i).rateHz = 0 := by
    rw [h.rate_eq]
    exact hrate
  intro slot late
  have hlate : (slot.rateHz = 0 ∨ UInt32.ofNat time < slot.nextDueMs) ↔ ¬ late := by
    rw [or_iff_right hrate']
    exact UInt32.not_le.symm
  constructor
  · have hcount : telemetryCount b i env r.device =
        (turnCalls b env (env.millis 1) r.device i).countP fun c => c.type = .telemetry := by
      rw [← hcalls, callsOf, List.countP_filter, telemetryCount]
      apply List.countP_congr
      intro c _
      rw [Bool.and_comm]
    rw [hcount, hclock, turnCalls, if_neg hnot, hvalue, List.countP_append]
    by_cases hdue : late
    · rw [if_pos hdue, if_neg (fun hearly => hlate.mp hearly hdue)]
      split_ifs <;> rfl
    · rw [if_neg hdue, if_pos (hlate.mpr hdue)]
      split_ifs <;> rfl
  · refine ⟨value, ?_⟩
    rw [hslot, hclock, slotAfter, if_neg hnot, hvalue]
    by_cases hdue : late
    · rw [if_pos hdue, ← due_reading, ← h.rate_eq]
      exact congrArg (fun due => { slot with
        lastValue := value, hasLastValue := true, nextDueMs := due })
        (if_neg fun hearly => hlate.mp hearly hdue)
    · rw [if_neg hdue]
      exact congrArg (fun due => { slot with
        lastValue := value, hasLastValue := true, nextDueMs := due })
        (if_pos (hlate.mpr hdue))

theorem step_scheduled (hi : i.toNat < kMaxSubscriptions.toNat) (hrate : rate ≠ 0)
    (a : Action) (hproper : Proper b i r a) (h : Scheduled i rate r) :
    Scheduled i rate (step b i r a) := by
  cases a with
  | elsewhere device =>
    have hsame : device.subscriptions i = r.device.subscriptions i := hproper
    constructor
    · exact hsame ▸ h.active
    · exact hsame ▸ h.rate_eq
    · intro last hlast
      exact hsame ▸ h.due last hlast
  | update env time =>
    obtain ⟨hcount, value, hslot⟩ := update_scheduled h hi hrate hproper
    constructor
    · rw [step, hslot]
      exact h.active
    · rw [step, hslot]
      exact h.rate_eq
    · intro last hlast
      rw [step] at hlast ⊢
      rw [hslot]
      by_cases hdue : (r.device.subscriptions i).nextDueMs ≤ UInt32.ofNat time
      · rw [if_pos hdue] at hcount ⊢
        rw [hcount, if_pos Nat.one_pos] at hlast
        obtain rfl := Option.some.inj hlast
        exact ⟨Nat.le_refl time, rfl⟩
      · rw [if_neg hdue] at hcount ⊢
        rw [hcount, if_neg (Nat.lt_irrefl 0)] at hlast
        exact ⟨Nat.le_trans (h.due last hlast).1 hproper.1, (h.due last hlast).2⟩

/-- One update keeps the pace exactly if the clock is in step. -/
theorem paced_iff (hi : i.toNat < kMaxSubscriptions.toNat) (hrate : rate ≠ 0)
    (a : Action) (hproper : Proper b i r a) (h : Scheduled i rate r) :
    Paced b i rate r a ↔ ClockInStep rate r a := by
  cases a with
  | elsewhere device => exact Iff.rfl
  | update env time =>
    obtain ⟨hcount, -⟩ := update_scheduled h hi hrate hproper
    have hone : telemetryCount b i env r.device ≤ 1 := by
      rw [hcount]
      split_ifs <;> decide
    have hpos : 0 < telemetryCount b i env r.device ↔
        (r.device.subscriptions i).nextDueMs ≤ UInt32.ofNat time := by
      rw [hcount]
      split_ifs with hdue
      · exact iff_of_true Nat.one_pos hdue
      · exact iff_of_false (Nat.lt_irrefl 0) hdue
    rw [Paced, and_iff_right hone]
    apply forall_congr'
    intro last
    apply imp_congr_right
    intro hlast
    obtain ⟨hbefore, hdue⟩ := h.due last hlast
    have hnear : last + pause rate ≤ time + 2 ^ 32 := by
      have := pause_le rate
      have := hproper.1
      omega
    rw [hpos, hdue, UInt32.le_iff_toNat_le, UInt32.toNat_ofNat', UInt32.toNat_ofNat']
    exact compare_iff (by decide) hnear

end Scheduled

/-- Along every run of updates of a subscription that stays in place and readable, telemetry
keeps its pace if and only if the clock is in step at each update. -/
theorem pacing_iff {b : Board} {i : UInt8} {rate : UInt16} {device : State} {start : ℕ}
    {actions : List Action} (hi : i.toNat < kMaxSubscriptions.toNat) (hrate : rate ≠ 0)
    (hactive : (device.subscriptions i).active = true)
    (hslot : (device.subscriptions i).rateHz = rate)
    (hproper : EachStep (step b i) (Proper b i) { device := device, lastUpdate := start }
      actions) :
    EachStep (step b i) (Paced b i rate) { device := device, lastUpdate := start } actions ↔
      EachStep (step b i) (fun r => ClockInStep rate r)
        { device := device, lastUpdate := start } actions := by
  have hstart : Scheduled i rate { device := device, lastUpdate := start } := by
    refine ⟨hactive, hslot, ?_⟩
    rintro last ⟨⟩
  apply eachStep_congr _ _ hstart hproper
  · intro r a ha h
    exact step_scheduled hi hrate a ha h
  · intro r a ha h
    exact paced_iff hi hrate a ha h

/-- What is counted are frames that `update_subscriptions` queues for the subscription. -/
theorem telemetryCount_queued (b : Board) (i : UInt8) (env : Env) (s : State) :
    ∃ calls, Queues b env s calls ∧
      telemetryCount b i env s = calls.countP fun c => c.slot = i && c.type = .telemetry :=
  ⟨_, updateSubscriptions_calls b env s, rfl⟩

/-! ### Concrete runs -/

/-- Subscription 0, to digital pin 5, made sixteen milliseconds before the clock starts again. -/
def subscribed : State :=
  (handle sampleBoard (envAt 4294967280) {} (commandPacket 1 [0x60, 1, 5, 100, 0, 0])).1

/-- Updates at these moments of true time. -/
def updatesAt (times : List ℕ) : List Action :=
  times.map fun time => .update (envAt (UInt32.ofNat time)) time

/-- A frame, none, a frame, and one after the clock has started again. -/
theorem pace_kept :
    let start : Tracked := { device := subscribed, lastUpdate := 4294967280 }
    let run := updatesAt [4294967284, 4294967290, 4294967294, 4294967305]
    EachStep (step sampleBoard 0) (Paced sampleBoard 0 100) start run ∧
      (after (step sampleBoard 0) start run).lastFrame = some 4294967305 := by
  intro start run
  have hproper : EachStep (step sampleBoard 0) (Proper sampleBoard 0) start run := by
    decide +kernel
  have hinstep : EachStep (step sampleBoard 0) (fun r => ClockInStep 100 r) start run := by
    decide +kernel
  constructor
  · exact (pacing_iff (by decide) (by decide) (by decide +kernel) (by decide +kernel)
      hproper).mpr hinstep
  · decide +kernel

/-- Around the moment the clock starts again two frames come a millisecond apart, or an update
sixteen milliseconds after a frame queues none. -/
theorem pace_lost :
    let start : Tracked := { device := subscribed, lastUpdate := 4294967280 }
    let flood := updatesAt [4294967291, 4294967292]
    let silence := updatesAt [4294967281, 4294967297]
    (EachStep (step sampleBoard 0) (Proper sampleBoard 0) start flood ∧
      ¬ EachStep (step sampleBoard 0) (Paced sampleBoard 0 100) start flood) ∧
    (EachStep (step sampleBoard 0) (Proper sampleBoard 0) start silence ∧
      ¬ EachStep (step sampleBoard 0) (Paced sampleBoard 0 100) start silence) := by
  decide +kernel

end TelemetryPacing
