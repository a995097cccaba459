import TeensyIo.FirmwareSafeState
import TeensyIo.FirmwareWatchdog
import TeensyIo.SampledDeadlines

/-! # A host that falls silent

The handler beside the timer of an observer, who sees the clock, the packets and the calls of
`update`. Where `update` is called often enough the outputs are off soon after the last
heartbeat, whatever else the host still sends; where it is not, the 32-bit clock can hide it. -/
namespace FailSafe

open WireCommands FirmwareState FirmwareCommands FirmwareUpdate FirmwareRequests
open FirmwareDevice FirmwareSafeState FirmwareWatchdog SampledDeadlines MachineRuns
open FirmwareProtocol (Packet)

inductive Input where
  | advance (ms : ℕ)
  | event (e : Event)

structure Rig where
  device : Device := {}
  timer : Timer := {}

/-- `update` is to be called once in `period` milliseconds. -/
def rates (period : ℕ) : Rates where
  interval := kDefaultWatchdogTimeoutMs.toNat
  modulus := 2 ^ 32
  period := period

/-- The call takes place at this time. -/
def clockedEvent (clock : ℕ) : Event → Event
  | .handle env p => .handle (Env.clocked env clock) p
  | .update env => .update (Env.clocked env clock)
  | .counterTick env id => .counterTick (Env.clocked env clock) id
  | .encoderTick env id => .encoderTick (Env.clocked env clock) id

/-- What a packet is to the timer. -/
def seen (p : Packet) : Action :=
  match decode p with
  | .ok .heartbeat => .beat
  | .ok .emergencyStop => .trip
  | .ok .clearEmergencyStop => .clear
  | _ => .idle

def action : Input → Action
  | .advance ms => .advance ms
  | .event (.handle _ p) => seen p
  | .event (.update _) => .check
  | .event _ => .idle

variable (b : Board) (period : ℕ)

def Rig.step (rig : Rig) (i : Input) : Rig where
  device :=
    match i with
    | .advance _ => rig.device
    | .event e => rig.device.step b (clockedEvent rig.timer.clock e)
  timer := rig.timer.step (rates period) (action i)

/-- The timer trips exactly when the handler stops. -/
structure Synced (rig : Rig) : Prop where
  beat_le : rig.timer.beat ≤ rig.timer.clock
  timeout : rig.device.state.safety.watchdogTimeoutMs = kDefaultWatchdogTimeoutMs
  beat : rig.device.state.safety.lastHeartbeatMs = UInt32.ofNat rig.timer.beat
  stopped : rig.device.state.safety.emergencyStopActive = rig.timer.tripped
  expired_stopped : rig.device.state.safety.watchdogExpired = true → rig.timer.tripped = true

theorem synced_initial : Synced {} where
  beat_le := le_rfl
  timeout := rfl
  beat := rfl
  stopped := rfl
  expired_stopped := nofun

namespace Synced

variable {rig : Rig}

theorem locked_iff (h : Synced rig) :
    rig.device.state.safety.outputsAllowed = false ↔ rig.timer.tripped = true := by
  rw [SafetyState.outputsAllowed, h.stopped]
  cases hexpired : rig.device.state.safety.watchdogExpired with
  | true =>
    rw [h.expired_stopped hexpired]
    exact iff_of_true rfl rfl
  | false => cases rig.timer.tripped <;> decide

theorem overdue (h : Synced rig) (env : Env) :
    rig.device.state.safety.overdue ((Env.clocked env rig.timer.clock).millis 0) =
      rig.timer.overdue (rates period) := by
  have hms : (Env.clocked env rig.timer.clock).millis 0 = UInt32.ofNat rig.timer.clock := rfl
  rw [SafetyState.overdue, hms, h.beat, h.timeout, ← UInt32.ofNat_sub h.beat_le, Timer.overdue,
    decide_eq_decide, UInt32.lt_iff_toNat_lt, UInt32.toNat_ofNat']
  rfl

/-- Only the safety state matters. -/
theorem congr (h : Synced rig) {rig' : Rig}
    (hsafety : rig'.device.state.safety = rig.device.state.safety)
    (htimer : rig'.timer = rig.timer) : Synced rig' where
  beat_le := by rw [htimer]; exact h.beat_le
  timeout := by rw [hsafety]; exact h.timeout
  beat := by rw [hsafety, htimer]; exact h.beat
  stopped := by rw [hsafety, htimer]; exact h.stopped
  expired_stopped := by rw [hsafety, htimer]; exact h.expired_stopped

theorem handled (h : Synced rig) (env : Env) (p : Packet) :
    Synced (rig.step b period (.event (.handle env p))) := by
  rcases handle_cases b (Env.clocked env rig.timer.clock) rig.device.state p with
    ⟨code, hp, hrun⟩ | ⟨r, hp, hrun⟩
  · refine h.congr ?_ ?_
    · change (handle b _ rig.device.state p).1.safety = _
      rw [hrun]
      rfl
    · simp only [Rig.step, action, seen, hp, Timer.step]
  · have hsafety : (rig.step b period (.event (.handle env p))).device.state.safety =
        safetyAfter (Env.clocked env rig.timer.clock) rig.device.state.safety r := by
      change (handle b _ rig.device.state p).1.safety = _
      rw [hrun, execute_safety]
    have htimer : (rig.step b period (.event (.handle env p))).timer =
        rig.timer.step (rates period) (seen p) := rfl
    cases r with
    | heartbeat =>
      rw [seen, hp] at htimer
      exact
        { beat_le := by rw [htimer]; exact le_rfl
          timeout := by rw [hsafety]; exact h.timeout
          beat := by rw [hsafety, htimer]; rfl
          stopped := by rw [hsafety, htimer]; exact h.stopped
          expired_stopped := fun hexpired => by
            rw [hsafety] at hexpired
            cases hexpired }
    | emergencyStop =>
      rw [seen, hp] at htimer
      exact
        { beat_le := by rw [htimer]; exact h.beat_le
          timeout := by rw [hsafety]; exact h.timeout
          beat := by rw [hsafety, htimer]; exact h.beat
          stopped := by rw [hsafety, htimer]; rfl
          expired_stopped := fun _ => by rw [htimer]; rfl }
    | clearEmergencyStop =>
      rw [seen, hp] at htimer
      exact
        { beat_le := by rw [htimer]; exact le_rfl
          timeout := by rw [hsafety]; exact h.timeout
          beat := by rw [hsafety, htimer]; rfl
          stopped := by rw [hsafety, htimer]; rfl
          expired_stopped := fun hexpired => by
            rw [hsafety] at hexpired
            cases hexpired }
    | _ =>
      rw [seen, hp] at htimer
      exact h.congr hsafety htimer

theorem updated (h : Synced rig) (env : Env) :
    Synced (rig.step b period (.event (.update env))) := by
  have htimer : (rig.step b period (.event (.update env))).timer =
      rig.timer.step (rates period) .check := rfl
  have hsafety : (rig.step b period (.event (.update env))).device.state.safety =
      rig.device.state.safety.update ((Env.clocked env rig.timer.clock).millis 0) :=
    update_safety b (Env.clocked env rig.timer.clock) rig.device.state
  rw [SafetyState.update, h.overdue period env] at hsafety
  cases hover : rig.timer.overdue (rates period) with
  | true =>
    have htripped : (rig.timer.step (rates period) .check).tripped = true := by
      rw [Timer.step, hover, Bool.or_true]
    rw [hover, if_pos rfl] at hsafety
    exact
      { beat_le := by rw [htimer]; exact h.beat_le
        timeout := by rw [hsafety]; exact h.timeout
        beat := by rw [hsafety, htimer]; exact h.beat
        stopped := by rw [hsafety, htimer, htripped]
        expired_stopped := fun _ => by rw [htimer, htripped] }
  | false =>
    have htripped : (rig.timer.step (rates period) .check).tripped = rig.timer.tripped := by
      rw [Timer.step, hover, Bool.or_false]
    rw [hover, if_neg Bool.false_ne_true] at hsafety
    exact
      { beat_le := by rw [htimer]; exact h.beat_le
        timeout := by rw [hsafety]; exact h.timeout
        beat := by rw [hsafety, htimer]; exact h.beat
        stopped := by rw [hsafety, htimer, htripped]; exact h.stopped
        expired_stopped := by rw [hsafety, htimer, htripped]; exact h.expired_stopped }

theorem step (h : Synced rig) (i : Input) : Synced (rig.step b period i) := by
  cases i with
  | advance ms =>
    exact ⟨h.beat_le.trans (Nat.le_add_right _ ms), h.timeout, h.beat, h.stopped,
      h.expired_stopped⟩
  | event e =>
    cases e with
    | handle env p => exact h.handled b period env p
    | update env => exact h.updated b period env
    | counterTick env id =>
      refine h.congr ?_ rfl
      change (counterTick _ rig.device.state id).safety = _
      simp only [counterTick]
      split_ifs <;> rfl
    | encoderTick env id =>
      refine h.congr ?_ rfl
      change (encoderTick _ rig.device.state id).safety = _
      simp only [encoderTick]
      split_ifs <;> rfl

end Synced

/-- Nothing is driven and nothing can be until the stop is cleared. -/
structure SafelyStopped (d : Device) : Prop where
  locked : d.state.safety.outputsAllowed = false
  undriven : ∀ pin, d.hardware.duty pin = 0
  quiet : ∀ e, ¬ Carries .clearEmergencyStop e → ∀ f ∈ (react b d.state e).2, Quiet f
  refuses : ∀ env p r, decode p = .ok r → Energises r = true →
    handle b env d.state p = refuse d.state p.seq .emergencyStopActive

theorem safelyStopped {d : Device} (hi : SafeInvariant b d)
    (hlocked : d.state.safety.outputsAllowed = false) : SafelyStopped b d where
  locked := hlocked
  undriven := hi.stopped_quiet hlocked
  quiet := by
    intro e he
    exact (stopped_step hi hlocked e he).2
  refuses := by
    intro env p r hp hr
    rw [handle_eq, hp, answer]
    exact (refused_iff b env d.state p.seq hr).mpr hlocked

theorem safe_step {rig : Rig} (hi : SafeInvariant b rig.device) (i : Input) :
    SafeInvariant b (rig.step b period i).device := by
  cases i with
  | advance ms => exact hi
  | event e => exact hi.step (clockedEvent rig.timer.clock e)

theorem timer_moves (rig : Rig) (i : Input) :
    (rig.step b period i).timer = rig.timer.step (rates period) (action i) := rfl

/-- Where no two updates are more than a period apart, a host whose last heartbeat or clearing was
handled longer than the timeout and a period ago finds the outputs off, and they stay so until
it clears the stop. -/
theorem fails_safe (hfits : kDefaultWatchdogTimeoutMs.toNat + period < 2 ^ 32)
    {inputs : List Input}
    (hprompt : EachStep (Rig.step b period)
      (fun rig i => rig.timer.Prompt (rates period) (action i)) {} inputs) :
    EachState (Rig.step b period)
      (fun rig => rig.timer.silent = true → SafelyStopped b rig.device) {} inputs := by
  let Kept : Rig → Prop := fun rig =>
    Synced rig ∧ SafeInvariant b rig.device ∧ rig.timer.Watched (rates period)
  have hkeep : ∀ rig i, Kept rig → rig.timer.Prompt (rates period) (action i) →
      Kept (rig.step b period i) := by
    rintro rig i ⟨hsynced, hsafe, hwatched⟩ hpromptly
    exact ⟨hsynced.step b period i, safe_step b period hsafe i,
      hwatched.step (rates period) hfits hpromptly⟩
  refine eachState_of_eachStep hkeep ?_
    ⟨synced_initial, safe_initial b, Timer.watched_initial _⟩ hprompt
  rintro rig ⟨hsynced, hsafe, hwatched⟩ hsilent
  have hlocked := hsynced.locked_iff.mpr (hwatched.noticed hsilent)
  exact safelyStopped b hsafe hlocked

/-- Updates every 400 ms are often enough: with no heartbeat the outputs are off 701 ms after
boot, though the host still writes a pin. -/
theorem silent_host_locked_out :
    let inputs : List Input := [.advance 400, .event (.update (envAt 0)),
      .event (.handle (envAt 0) (commandPacket 1 [0x13, 13, 1])), .advance 301]
    (after (Rig.step sampleBoard 400) {} inputs).timer.silent = true ∧
      EachState (Rig.step sampleBoard 400)
        (fun rig => rig.timer.silent = true → SafelyStopped sampleBoard rig.device) {} inputs :=
  ⟨by decide, fails_safe sampleBoard 400 (by decide) (by decide +kernel)⟩

/-- The outputs are allowed all through a run exactly if nobody commands a stop and no update comes
when the interval since the last heartbeat or clearing reads longer than the timeout. -/
theorem stays_enabled_iff (inputs : List Input) :
    EachState (Rig.step b period) (fun rig => rig.device.state.safety.outputsAllowed = true) {}
        inputs ↔
      EachStep (Timer.step (rates period)) (Timer.Spared (rates period)) {}
        (inputs.map action) := by
  have hallowed : ∀ rig, Synced rig →
      (rig.device.state.safety.outputsAllowed = true ↔ rig.timer.tripped = false) := by
    intro rig hsynced
    rw [← Bool.not_eq_false, hsynced.locked_iff, Bool.not_eq_true]
  have himage : EachState (Rig.step b period) (fun rig => rig.timer.tripped = false) {} inputs ↔
      EachState (Timer.step (rates period)) (fun t => t.tripped = false) {}
        (inputs.map action) :=
    @eachState_image _ _ _ _ _ _ (fun t => t.tripped = false) _ _ (timer_moves b period) {} inputs
  rw [eachState_congr (fun rig i h => h.step b period i) hallowed synced_initial inputs, himage]
  exact Timer.untripped_iff (rates period) rfl (inputs.map action)

end FailSafe
