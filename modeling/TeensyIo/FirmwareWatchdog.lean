import TeensyIo.FirmwareDevice

/-! # The watchdog and the loop

`main.cpp` drains the serial buffer byte by byte and only then calls `update`, which is where
a missed heartbeat is noticed. A monitor that sees the clock and the commands, but not the
handler, says when the outputs ought to be locked; the loop locks them when it has seen
reason to. -/
namespace FirmwareWatchdog

open WireCommands FirmwareState FirmwareCommands FirmwareUpdate FirmwareRequests
open FirmwareOutcomes FirmwareDevice MachineRuns
open FirmwareProtocol (Packet PacketParser PacketWriter.write)

/-- The requests that would energise an output. -/
def Energises : Request → Bool
  | .digitalWrite _ _ => true
  | .pwmWrite _ _ => true
  | .dacWriteRaw _ _ _ => true
  | .dacWriteNormalized _ _ _ => true
  | .configDigitalOutput _ initial => initial
  | .configPwm _ _ duty => decide (0 < duty)
  | _ => false

theorem refused_of_stopped (b : Board) (env : Env) (s : State) (seq : UInt16) {r : Request}
    (hr : Energises r = true) (hstop : s.safety.outputsAllowed = false) :
    execute b env s seq r = refuse s seq .emergencyStopActive := by
  cases r with
  | digitalWrite pin value => simp [execute, FirmwareCommands.digitalWrite, hstop]
  | pwmWrite pin duty => simp [execute, pwmWrite, hstop]
  | dacWriteRaw id channel value => simp [execute, dacWriteRaw, hstop]
  | dacWriteNormalized id channel value => simp [execute, dacWriteNormalized, hstop]
  | configDigitalOutput pin initial =>
    have hi : initial = true := hr
    simp [execute, configDigitalOutput, hstop, hi]
  | configPwm pin frequency duty =>
    have hd : 0 < duty := of_decide_eq_true hr
    simp [execute, configPwm, hstop, hd]
  | _ => cases hr

/-- No error but the stop's own is reported as the stop's. -/
theorem refuse_ne {s s' : State} {seq : UInt16} {code : ErrorCode}
    (h : code ≠ .emergencyStopActive) : refuse s seq code ≠ refuse s' seq .emergencyStopActive := by
  intro he
  have heffects := congrArg Prod.snd he
  simp only [refuse, nack, List.cons.injEq, Effect.write.injEq, and_true, true_and] at heffects
  exact h (ErrorCode.toByte_injective heffects)

theorem answerDac_ne (b : Board) (env : Env) (s : State) (seq : UInt16) (id channel : UInt8)
    (value : UInt16) :
    answerDac seq (writeDacRaw b env s id channel value) ≠ refuse s seq .emergencyStopActive := by
  unfold writeDacRaw
  dsimp only
  split_ifs
  · exact refuse_ne (by decide)
  · exact refuse_ne (by decide)
  all_goals
    intro he
    have heffects := congrArg Prod.snd he
    simp [answerDac, refuse, nack] at heffects

theorem not_refused_of_allowed (b : Board) (env : Env) (s : State) (seq : UInt16) {r : Request}
    (hr : Energises r = true) (hallowed : s.safety.outputsAllowed = true) :
    execute b env s seq r ≠ refuse s seq .emergencyStopActive := by
  cases r with
  | digitalWrite pin value =>
    simp only [execute, FirmwareCommands.digitalWrite, hallowed]
    split_ifs with hno
    · cases hno
    · exact refuse_ne (by decide)
    · simp [refuse]
  | pwmWrite pin duty =>
    simp only [execute, pwmWrite, hallowed]
    split_ifs with hno
    · cases hno
    · exact refuse_ne (by decide)
    · simp [refuse]
  | dacWriteRaw id channel value =>
    simp only [execute, dacWriteRaw, hallowed]
    exact answerDac_ne b env s seq id channel value
  | dacWriteNormalized id channel normalized =>
    simp only [execute, dacWriteNormalized, hallowed]
    split_ifs with hno
    · cases hno
    · exact refuse_ne (by decide)
    · exact answerDac_ne b env s seq id channel _
  | configDigitalOutput pin initial =>
    simp only [execute, configDigitalOutput, hallowed]
    split_ifs with hno
    · simp at hno
    · exact refuse_ne (by decide)
    · simp [refuse]
  | configPwm pin frequency duty =>
    simp only [execute, configPwm, hallowed]
    split_ifs with hno
    · simp at hno
    · exact refuse_ne (by decide)
    · simp [refuse]
  | _ => cases hr

/-- An energising request is turned away for the stop exactly if outputs are not allowed. -/
theorem refused_iff (b : Board) (env : Env) (s : State) (seq : UInt16) {r : Request}
    (hr : Energises r = true) :
    execute b env s seq r = refuse s seq .emergencyStopActive ↔
      s.safety.outputsAllowed = false := by
  constructor
  · intro h
    cases hallowed : s.safety.outputsAllowed with
    | false => rfl
    | true => exact absurd h (not_refused_of_allowed b env s seq hr hallowed)
  · exact refused_of_stopped b env s seq hr

/-! ### The monitor -/

/-- What an observer knows: the time in milliseconds since boot, when the last heartbeat (or
clearing) was handled, whether the interval has been exceeded since the last clearing, and
whether since then a stop was commanded or an update came while a beat was overdue. -/
structure Monitor where
  clock : ℕ := 0
  lastBeat : ℕ := 0
  expired : Bool := false
  stopSeen : Bool := false
  deriving DecidableEq, Repr

namespace Monitor

def timeout : ℕ := kDefaultWatchdogTimeoutMs.toNat

def advance (m : Monitor) (ms : ℕ) : Monitor :=
  { m with
    clock := m.clock + ms
    expired := m.expired || decide (timeout < m.clock + ms - m.lastBeat) }

/-- The firmware measures the interval modulo 2^32. -/
def overdue (m : Monitor) : Bool := decide (timeout < (m.clock - m.lastBeat) % 2 ^ 32)

def update (m : Monitor) : Monitor := { m with stopSeen := m.stopSeen || m.overdue }

def handled (m : Monitor) : Request → Monitor
  | .heartbeat => { m with lastBeat := m.clock }
  | .emergencyStop => { m with stopSeen := true }
  | .clearEmergencyStop => { clock := m.clock, lastBeat := m.clock }
  | _ => m

end Monitor

/-! ### The loop -/

inductive Input where
  | advance (ms : ℕ)
  | byte (env : Env) (b : UInt8)
  | update (env : Env)

structure Loop where
  parser : PacketParser := {}
  state : State := {}
  monitor : Monitor := {}

/-- The first reading of the clock in a call is the time of the call. -/
def Env.clocked (env : Env) (clock : ℕ) : Env :=
  { env with millis := fun n => if n = 0 then UInt32.ofNat clock else env.millis n }

/-- Handling a packet, with what the monitor makes of it. -/
def Loop.handle (b : Board) (l : Loop) (env : Env) (p : Packet) : Loop :=
  { l with
    state := (FirmwareCommands.handle b (Env.clocked env l.monitor.clock) l.state p).1
    monitor :=
      match decode p with
      | .ok r => l.monitor.handled r
      | .error _ => l.monitor }

def Loop.step (b : Board) (l : Loop) : Input → Loop
  | .advance ms => { l with monitor := l.monitor.advance ms }
  | .byte env x =>
    let pushed := l.parser.push x
    let l := { l with parser := pushed.1 }
    match pushed.2 with
    | none => l
    | some p => l.handle b env p
  | .update env =>
    { l with
      state := (FirmwareUpdate.update b (Env.clocked env l.monitor.clock) l.state).1
      monitor := l.monitor.update }

/-- The byte completes a packet with this request. -/
def Completes (l : Loop) (i : Input) (env : Env) (p : Packet) (r : Request) : Prop :=
  ∃ x, i = .byte env x ∧ (l.parser.push x).2 = some p ∧ decode p = .ok r

/-- An energising command handled after the interval has run out is rejected. -/
def LockedOut (b : Board) (l : Loop) (i : Input) : Prop :=
  ∀ env p r, Completes l i env p r → Energises r = true → l.monitor.expired = true →
    FirmwareCommands.handle b (Env.clocked env l.monitor.clock) l.state p =
      refuse l.state p.seq .emergencyStopActive

/-- By then a stop has been commanded or an update has come in time to notice. -/
def Noticed (l : Loop) (i : Input) : Prop :=
  ∀ env p r, Completes l i env p r → Energises r = true → l.monitor.expired = true →
    l.monitor.stopSeen = true

/-- The handler's safety state is what the monitor says. -/
structure Synced (l : Loop) : Prop where
  beat_le : l.monitor.lastBeat ≤ l.monitor.clock
  timeout : l.state.safety.watchdogTimeoutMs = kDefaultWatchdogTimeoutMs
  beat : l.state.safety.lastHeartbeatMs = UInt32.ofNat l.monitor.lastBeat
  stopped : l.state.safety.emergencyStopActive = l.monitor.stopSeen
  expired_stopped : l.state.safety.watchdogExpired = true → l.monitor.stopSeen = true

theorem synced_initial : Synced {} where
  beat_le := le_rfl
  timeout := rfl
  beat := rfl
  stopped := rfl
  expired_stopped := by simp

/-- Outputs are allowed as long as nothing has been noticed. -/
theorem Synced.allowed {l : Loop} (h : Synced l) :
    l.state.safety.outputsAllowed = false ↔ l.monitor.stopSeen = true := by
  rw [SafetyState.outputsAllowed, h.stopped]
  cases hexp : l.state.safety.watchdogExpired with
  | true => simp [h.expired_stopped hexp]
  | false => simp

/-- The difference of the two clock readings is the true interval modulo 2^32. -/
theorem Synced.overdue {l : Loop} (h : Synced l) (env : Env) :
    l.state.safety.overdue ((Env.clocked env l.monitor.clock).millis 0) = l.monitor.overdue := by
  have hms : (Env.clocked env l.monitor.clock).millis 0 = UInt32.ofNat l.monitor.clock := rfl
  rw [SafetyState.overdue, hms, h.beat, h.timeout, ← UInt32.ofNat_sub h.beat_le, Monitor.overdue,
    decide_eq_decide, UInt32.lt_iff_toNat_lt, UInt32.toNat_ofNat']
  rfl

theorem Synced.handle {l : Loop} (h : Synced l) (b : Board) (env : Env) (p : Packet) :
    Synced (l.handle b env p) := by
  rcases handle_cases b (Env.clocked env l.monitor.clock) l.state p with
    ⟨code, hp, hrun⟩ | ⟨r, hp, hrun⟩
  · simp only [Loop.handle, hp, hrun]
    exact ⟨h.beat_le, h.timeout, h.beat, h.stopped, h.expired_stopped⟩
  · have hsafety := execute_safety b (Env.clocked env l.monitor.clock) l.state p.seq r
    simp only [Loop.handle, hp, hrun]
    cases r with
    | heartbeat =>
      exact ⟨le_rfl, h.timeout, rfl, h.stopped,
        fun hexp => absurd hexp (by simp [execute, heartbeat, SafetyState.heartbeat])⟩
    | emergencyStop =>
      exact ⟨h.beat_le, h.timeout, h.beat, rfl, fun _ => rfl⟩
    | clearEmergencyStop =>
      refine ⟨le_rfl, h.timeout, rfl, rfl, fun hexp => absurd hexp ?_⟩
      simp [execute, clearEmergencyStop, SafetyState.clearEmergencyStop, SafetyState.heartbeat]
    | _ =>
      exact ⟨h.beat_le, by rw [hsafety]; exact h.timeout, by rw [hsafety]; exact h.beat,
        by rw [hsafety]; exact h.stopped, by rw [hsafety]; exact h.expired_stopped⟩

theorem Synced.update {l : Loop} (h : Synced l) (b : Board) (env : Env) :
    Synced (l.step b (.update env)) := by
  have hsafety := update_safety b (Env.clocked env l.monitor.clock) l.state
  rw [SafetyState.update, h.overdue env] at hsafety
  cases hover : l.monitor.overdue with
  | true =>
    rw [hover, if_pos rfl] at hsafety
    exact
      { beat_le := h.beat_le
        timeout := by rw [Loop.step, hsafety]; exact h.timeout
        beat := by rw [Loop.step, hsafety]; exact h.beat
        stopped := by simp [Loop.step, hsafety, Monitor.update, hover]
        expired_stopped := fun _ => by simp [Loop.step, Monitor.update, hover] }
  | false =>
    rw [hover, if_neg (by simp)] at hsafety
    exact
      { beat_le := h.beat_le
        timeout := by rw [Loop.step, hsafety]; exact h.timeout
        beat := by rw [Loop.step, hsafety]; exact h.beat
        stopped := by simp [Loop.step, hsafety, Monitor.update, hover, h.stopped]
        expired_stopped := fun hexp => by
          simp only [Loop.step, hsafety] at hexp
          simp [Loop.step, Monitor.update, h.expired_stopped hexp] }

theorem Synced.step {l : Loop} (h : Synced l) (b : Board) (i : Input) : Synced (l.step b i) := by
  cases i with
  | advance ms =>
    exact ⟨h.beat_le.trans (Nat.le_add_right _ ms), h.timeout, h.beat, h.stopped,
      h.expired_stopped⟩
  | byte env x =>
    have hpushed : Synced { l with parser := (l.parser.push x).1 } :=
      ⟨h.beat_le, h.timeout, h.beat, h.stopped, h.expired_stopped⟩
    rw [Loop.step]
    cases (l.parser.push x).2 with
    | none => exact hpushed
    | some p => exact hpushed.handle b env p
  | update env => exact h.update b env

/-- In a run of the loop every energising command handled after the interval has run out is
rejected, exactly if by each such command the expiry had been noticed. -/
theorem watchdog_iff (b : Board) (inputs : List Input) :
    EachStep (Loop.step b) (LockedOut b) {} inputs ↔ EachStep (Loop.step b) Noticed {} inputs := by
  refine eachStep_congr (I := Synced) (T := fun _ _ => True) (fun l i _ h => h.step b i) ?_
    synced_initial (eachStep_of_forall _ fun _ _ => trivial)
  intro l i _ h
  have hone : ∀ env p r, Completes l i env p r → Energises r = true →
      (FirmwareCommands.handle b (Env.clocked env l.monitor.clock) l.state p =
        refuse l.state p.seq .emergencyStopActive ↔ l.monitor.stopSeen = true) := by
    rintro env p r ⟨x, -, -, hp⟩ hr
    rw [handle_eq, hp, answer, refused_iff b _ l.state p.seq hr, h.allowed]
  constructor
  · intro hlocked env p r hc hr hexp
    exact (hone env p r hc hr).mp (hlocked env p r hc hr hexp)
  · intro hnoticed env p r hc hr hexp
    exact (hone env p r hc hr).mpr (hnoticed env p r hc hr hexp)

/-- The bytes of a command arriving at the parser. -/
def arriving (bytes : List UInt8) : List Input :=
  (PacketWriter.write PacketType.command.toByte 1 bytes).map (.byte (envAt 0))

/-- A late heartbeat and a digital write in one drain, 301 ms after boot: the pin goes high
and the update that follows has nothing left to notice. -/
theorem late_heartbeat_unlocks :
    let inputs := .advance 301 :: (arriving [0x03] ++ arriving [0x13, 13, 1] ++ [.update (envAt 0)])
    let l := after (Loop.step sampleBoard) {} inputs
    l.state.safety.outputsAllowed = true ∧ l.monitor.expired = true ∧
      ¬ EachStep (Loop.step sampleBoard) (LockedOut sampleBoard) {} inputs := by
  intro inputs l
  refine ⟨by decide +kernel, by decide +kernel, fun hlocked => ?_⟩
  let before : List Input := .advance 301 :: (arriving [0x03] ++ (arriving [0x13, 13, 1]).dropLast)
  have hbytes : PacketWriter.write PacketType.command.toByte 1 [0x13, 13, 1] =
      (PacketWriter.write PacketType.command.toByte 1 [0x13, 13, 1]).dropLast ++ [0x9E] := by
    decide +kernel
  have hlastInput : arriving [0x13, 13, 1] =
      (arriving [0x13, 13, 1]).dropLast ++ [.byte (envAt 0) 0x9E] := by
    rw [arriving, ← List.map_dropLast]
    exact (congrArg _ hbytes).trans List.map_append
  have hsplit : inputs = before ++ .byte (envAt 0) 0x9E :: [.update (envAt 0)] := by
    simp only [inputs, before]
    rw [hlastInput]
    simp
  have hlast := (eachStep_iff _ inputs).mp hlocked before _ _ hsplit
  let p : Packet := commandPacket 1 [0x13, 13, 1]
  have hrefused := hlast (envAt 0) p (.digitalWrite 13 true)
    ⟨_, rfl, by decide +kernel, by decide +kernel⟩ rfl (by decide +kernel)
  have heffects := congrArg Prod.snd hrefused
  revert heffects
  decide +kernel

end FirmwareWatchdog
