import TeensyIo.ArgumentAgreement
import TeensyIo.EdgeCallbacks
import TeensyIo.Odometers

/-! # Differences of counters and encoders

`PulseCounter.delta` and `QuadratureEncoder.delta` subtract the last reading the host has seen;
`attach` and `reset` make the firmware start from zero. -/
namespace CounterDeltas

open WireCommands HostProtocol HostClient HostResources HostOperations LittleEndian
open FirmwareState FirmwareRequests FirmwareResponses MachineRuns
open FirmwareUpdate (counterTick encoderTick)
open Odometers EdgeCallbacks
open DeviceLink (hostPacket refusal_raises)
open RequestLayouts (Laid)

/-- The two classes of resources that count. -/
inductive Gauge where
  | counter | encoder
  deriving DecidableEq

namespace Gauge

def id : Gauge → Host → String → Option ℕ
  | counter, h, name => (h.counters name).id
  | encoder, h, name => (h.encoders name).id

/-- `_last_count` and `_last_position`. -/
def last : Gauge → Host → String → ℤ
  | counter, h, name => (h.counters name).lastCount
  | encoder, h, name => (h.encoders name).lastPosition

def ids : Gauge → Host → List String
  | counter, h => h.counterIds
  | encoder, h => h.encoderIds

def position : Gauge → State → UInt8 → Int32
  | counter, s, i => (s.counters i).count
  | encoder, s, i => (s.encoders i).position

def delta : Gauge → (List Command → Except PyError (List UInt8)) → Host → String → Result ℤ
  | counter, respond, h, name => counterDelta respond h name
  | encoder, respond, h, name => encoderDelta respond h name

end Gauge

/-- The calls of the two classes, as the odometer of their resource sees them. -/
def callOf : Operation → Option ((Gauge × String) × Action)
  | .counterAttach name _ _ => some ((.counter, name), .restart)
  | .counterReset name => some ((.counter, name), .reset)
  | .counterRead name => some ((.counter, name), .read)
  | .counterDelta name => some ((.counter, name), .delta)
  | .encoderAttach name _ _ _ => some ((.encoder, name), .restart)
  | .encoderReset name => some ((.encoder, name), .reset)
  | .encoderRead name => some ((.encoder, name), .read)
  | .encoderDelta name => some ((.encoder, name), .delta)
  | _ => none

/-- A call with what the core answers to its command, or an interrupt. -/
inductive Input where
  | call (op : Operation) (env : Env)
  | counterTick (env : Env) (id : UInt8)
  | encoderTick (env : Env) (id : UInt8)

def Input.isTick : Input → Bool
  | .call _ _ => false
  | _ => true

/-- The client and the device, seen from one resource: what the device has counted for it since
the last `delta`, `reset` or `attach`, and whether the last of these was an `attach` that found a
last reading other than zero. -/
structure Bench where
  host : Host
  device : State
  counted : ℤ := 0
  stale : Bool := false
  ticks : ℕ := 0

/-- By how much an interrupt moves the slot. -/
def distance (s : State) (g : Gauge) (i : UInt8) : Input → ℤ
  | .call _ _ => 0
  | .counterTick _ id =>
    if g = .counter ∧ id = i ∧ id < kMaxCounters ∧ (s.counters id).active = true then 1 else 0
  | .encoderTick env id =>
    let slot := s.encoders id
    if g = .encoder ∧ id = i ∧ id < kMaxEncoders ∧ slot.active = true then
      (FirmwareUpdate.encoderDelta slot.lastState
        (FirmwareCommands.encoderState env slot.pinA slot.pinB)).toInt
    else 0

section Runs

variable (b : Board) (g : Gauge) (name : String)

/-- What an input is for the resource. -/
def action (k : Bench) : Input → Action
  | .call op _ =>
    match callOf op with
    | some (resource, a) => if resource = (g, name) then a else .read
    | none => .read
  | input =>
    match g.id k.host name with
    | some id => .advance (distance k.device g (UInt8.ofNat id) input)
    | none => .read

def call (k : Bench) (op : Operation) (env : Env) : Result Unit :=
  runOperation (respond b env k.device) k.host op

/-- The device has handled the command of the call if there was one. -/
def deviceAfter (k : Bench) : Input → State
  | .call op env =>
    let h := (call b k op env).2
    if k.host.log.length < h.log.length then (handled b env k.device h.log).1 else k.device
  | .counterTick env id => counterTick env k.device id
  | .encoderTick env id => encoderTick env k.device id

def hostAfter (k : Bench) : Input → Host
  | .call op env => (call b k op env).2
  | _ => k.host

def step (k : Bench) (input : Input) : Bench where
  host := hostAfter b k input
  device := deviceAfter b k input
  counted := Odometers.counted k.counted (action g name k input)
  stale := Odometers.stale (g.last k.host name) k.stale (action g name k input)
  ticks := k.ticks + if input.isTick then 1 else 0

/-- Only calls of the two classes are made, and all are acknowledged. -/
def Acknowledged (k : Bench) : Input → Prop
  | .call op env => (callOf op).isSome = true ∧ (call b k op env).1 = .ok ()
  | _ => True

/-- A `delta` of the resource returns what the device has counted. -/
def Exact (k : Bench) : Input → Prop
  | .call op env =>
    callOf op = some ((g, name), .delta) →
      (g.delta (respond b env k.device) k.host name).1 = .ok k.counted
  | _ => True

/-- No `delta` of the resource follows an `attach` that found a last reading other than zero. -/
def Fresh (k : Bench) : Input → Prop
  | .call op _ => callOf op = some ((g, name), .delta) → k.stale = false
  | _ => True

instance decidableAcknowledged : ∀ (k : Bench) (input : Input), Decidable (Acknowledged b k input)
  | _, .call _ _ => inferInstanceAs (Decidable (_ ∧ _))
  | _, .counterTick _ _ => isTrue trivial
  | _, .encoderTick _ _ => isTrue trivial

instance decidableExact : ∀ (k : Bench) (input : Input), Decidable (Exact b g name k input)
  | _, .call _ _ => inferInstanceAs (Decidable (_ → _))
  | _, .counterTick _ _ => isTrue trivial
  | _, .encoderTick _ _ => isTrue trivial

instance decidableFresh : ∀ (k : Bench) (input : Input), Decidable (Fresh g name k input)
  | _, .call _ _ => inferInstanceAs (Decidable (_ → _))
  | _, .counterTick _ _ => isTrue trivial
  | _, .encoderTick _ _ => isTrue trivial

end Runs

/-! ### The device -/

/-- The command is answered, and not refused. -/
def Acks (out : Outcome) (reply : List UInt8) : Prop :=
  ∃ w ∈ framesWritten out.2, commandResult (hostPacket w) = .ok reply

section Device

variable {b : Board} {env : Env} {s : State} {seq : UInt16} {reply : List UInt8}

theorem not_acks_refuse {code : ErrorCode} : ¬ Acks (FirmwareCommands.refuse s seq code) reply := by
  rintro ⟨w, hw, hok⟩
  exact refusal_raises hw hok

theorem acks_data {payload : List UInt8} (h : Acks (s, [FirmwareCommands.data seq payload]) reply) :
    reply = payload := by
  obtain ⟨w, hw, hok⟩ := h
  obtain rfl := List.mem_singleton.mp hw
  exact (Except.ok.inj hok).symm

/-- A guard that refuses has let an acknowledged command pass. -/
theorem acks_guard {c : Prop} [Decidable c] {code : ErrorCode} {out : Outcome}
    (h : Acks (if c then FirmwareCommands.refuse s seq code else out) reply) :
    (if c then FirmwareCommands.refuse s seq code else out) = out := by
  by_cases hc : c
  · rw [if_pos hc] at h
    exact absurd h not_acks_refuse
  · rw [if_neg hc]

theorem configCounter_acks {id pin edge : UInt8}
    (h : Acks (execute b env s seq (.configCounter id pin edge)) reply) :
    (execute b env s seq (.configCounter id pin edge)).1 =
      { s with counters := setAt s.counters id { active := true, pin := pin, edge := edge } } := by
  rw [execute, FirmwareCommands.configCounter, FirmwareCommands.configureCounter] at h ⊢
  split at h
  · exact absurd h not_acks_refuse
  · rename_i s' effects hconfigured
    split_ifs at hconfigured
    exact (congrArg Prod.fst (Option.some.inj hconfigured)).symm

theorem counterReset_acks {id : UInt8} (h : Acks (execute b env s seq (.counterReset id)) reply) :
    (execute b env s seq (.counterReset id)).1 =
      { s with
        counters := setAt s.counters id
          { s.counters id with count := 0, lastEdgeUs := 0, periodUs := 0 } } := by
  rw [execute, FirmwareCommands.counterReset] at h ⊢
  rw [acks_guard h]

theorem counterRead_acks {id : UInt8} (h : Acks (execute b env s seq (.counterRead id)) reply) :
    (execute b env s seq (.counterRead id)).1 = s ∧
      reply = FirmwareCommands.writeI32 (s.counters id).count := by
  rw [execute, FirmwareCommands.counterRead] at h ⊢
  have hpassed := acks_guard h
  rw [hpassed] at h ⊢
  exact ⟨rfl, acks_data h⟩

theorem configEncoder_acks {id pinA pinB mode : UInt8}
    (h : Acks (execute b env s seq (.configEncoder id pinA pinB mode)) reply) :
    (execute b env s seq (.configEncoder id pinA pinB mode)).1 =
      { s with
        encoders := setAt s.encoders id
          { active := true, pinA := pinA, pinB := pinB, mode := mode
            lastState := FirmwareCommands.encoderState env pinA pinB } } := by
  rw [execute, FirmwareCommands.configEncoder, FirmwareCommands.configureEncoder] at h ⊢
  split at h
  · exact absurd h not_acks_refuse
  · rename_i s' effects hconfigured
    split_ifs at hconfigured
    exact (congrArg Prod.fst (Option.some.inj hconfigured)).symm

theorem encoderReset_acks {id : UInt8} (h : Acks (execute b env s seq (.encoderReset id)) reply) :
    (execute b env s seq (.encoderReset id)).1 =
      { s with encoders := setAt s.encoders id { s.encoders id with position := 0 } } := by
  rw [execute, FirmwareCommands.encoderReset] at h ⊢
  rw [acks_guard h]

theorem encoderRead_acks {id : UInt8} (h : Acks (execute b env s seq (.encoderRead id)) reply) :
    (execute b env s seq (.encoderRead id)).1 = s ∧
      reply = FirmwareCommands.writeI32 (s.encoders id).position := by
  rw [execute, FirmwareCommands.encoderRead] at h ⊢
  have hpassed := acks_guard h
  rw [hpassed] at h ⊢
  exact ⟨rfl, acks_data h⟩

/-- What `_command` returns was acknowledged by the firmware. -/
theorem respond_acks {log : List Command} {id : CommandId} {bytes : List UInt8} {r : Request}
    (hsize : bytes.length < maxPayloadSize) (hl : Laid r id bytes)
    (hok : respond b env s (log ++ [(id, bytes)]) = .ok reply) :
    Acks (execute b env s (UInt16.ofNat (log ++ [(id, bytes)]).length) r) reply := by
  rw [respond, handled_laid b env s log hsize hl] at hok
  unfold Acks
  cases hframes : framesWritten
      (execute b env s (UInt16.ofNat (log ++ [(id, bytes)]).length) r).2 with
  | nil =>
    rw [hframes] at hok
    cases hok
  | cons w ws =>
    rw [hframes] at hok
    exact ⟨w, List.mem_cons_self, hok⟩

end Device

/-! ### The host -/

section Host

variable {respond : List Command → Except PyError (List UInt8)} {h : Host} {name : String}
  {α β : Type}

theorem counterAttach_accepted {pin : PinRef} {edge : String}
    (hok : (counterAttach respond h name pin edge).1 = .ok ()) :
    ∃ i pin' code : UInt8, ∃ reply, i.toNat = (idFor h.counterIds name).1 ∧
      respond (h.log ++ [(.configCounter, [i, pin', code])]) = .ok reply ∧
      (counterAttach respond h name pin edge).2 =
        { h with
          counterIds := (idFor h.counterIds name).2
          counters := Function.update h.counters name
            { h.counters name with id := some i.toNat }
          log := h.log ++ [(.configCounter, [i, pin', code])] } := by
  unfold counterAttach at hok ⊢
  cases hpin : resolvePin h pin with
  | error error =>
    rw [hpin] at hok
    cases hok
  | ok physicalPin =>
    rw [hpin] at hok
    dsimp only at hok ⊢
    cases hcode : edgeCode edge with
    | none =>
      rw [hcode] at hok
      cases hok
    | some code =>
      rw [hcode] at hok
      dsimp only at hok ⊢
      obtain ⟨reply, hreply, hnext⟩ := next_accepted hok
      obtain ⟨bytes, hbytes, -, hanswer, hcommand⟩ := command_accepted hreply
      obtain - | ⟨hid, - | ⟨-, - | ⟨-, ⟨⟩⟩⟩⟩ := pyBytes_ok hbytes
      have hid := Int.ofNat.inj hid
      refine ⟨_, _, _, reply, hid, hanswer, ?_⟩
      rw [hnext, hcommand, hid]

/-- A call that raises without an id, and whose command has the id for its payload. -/
theorem numbered_accepted {number : Option ℕ} {id : CommandId}
    {rest : List UInt8 → Host → Result α} {call : Result α} {v : α}
    (hcall : call =
      match number with
      | none => (.error .runtimeError, h)
      | some n => (command respond h id (pyBytes [n])).next rest)
    (hok : call.1 = .ok v) :
    ∃ (i : UInt8) (reply : List UInt8), number = some i.toNat ∧
      respond (h.log ++ [(id, [i])]) = .ok reply ∧
      call = rest reply { h with log := h.log ++ [(id, [i])] } := by
  subst hcall
  cases number with
  | none => cases hok
  | some n =>
    dsimp only at hok ⊢
    obtain ⟨reply, hreply, hnext⟩ := next_accepted hok
    obtain ⟨bytes, hbytes, -, hanswer, hcommand⟩ := command_accepted hreply
    obtain - | ⟨hbyte, ⟨⟩⟩ := pyBytes_ok hbytes
    refine ⟨_, reply, congrArg some (Int.ofNat.inj hbyte).symm, hanswer, ?_⟩
    rw [hnext, hcommand]

theorem counterReset_accepted (hok : (counterReset respond h name).1 = .ok ()) :
    ∃ (i : UInt8) (reply : List UInt8), (h.counters name).id = some i.toNat ∧
      respond (h.log ++ [(.counterReset, [i])]) = .ok reply ∧
      (counterReset respond h name).2 =
        { h with
          log := h.log ++ [(.counterReset, [i])]
          counters := Function.update h.counters name
            { h.counters name with lastCount := 0, samples := [] } } := by
  obtain ⟨i, reply, hid, hanswer, hcall⟩ := numbered_accepted rfl hok
  exact ⟨i, reply, hid, hanswer, congrArg Prod.snd hcall⟩

theorem counterRead_accepted {v : ℤ} (hok : (counterRead respond h name).1 = .ok v) :
    ∃ (i : UInt8) (reply : List UInt8), (h.counters name).id = some i.toNat ∧
      respond (h.log ++ [(.counterRead, [i])]) = .ok reply ∧ responseI32 reply = .ok v ∧
      (counterRead respond h name).2 = { h with log := h.log ++ [(.counterRead, [i])] } := by
  obtain ⟨i, reply, hid, hanswer, hcall⟩ := numbered_accepted rfl hok
  have hvalue : responseI32 reply = .ok v := (congrArg Prod.fst hcall).symm.trans hok
  exact ⟨i, reply, hid, hanswer, hvalue, congrArg Prod.snd hcall⟩

theorem counterDelta_accepted {v : ℤ} (hok : (counterDelta respond h name).1 = .ok v) :
    ∃ count, (counterRead respond h name).1 = .ok count ∧
      v = count - ((counterRead respond h name).2.counters name).lastCount ∧
      (counterDelta respond h name).2 =
        { (counterRead respond h name).2 with
          counters := Function.update (counterRead respond h name).2.counters name
            { (counterRead respond h name).2.counters name with lastCount := count } } := by
  obtain ⟨count, hcount, hnext⟩ := next_accepted hok
  rw [counterDelta, hnext] at hok
  refine ⟨count, hcount, (Except.ok.inj hok).symm, ?_⟩
  rw [counterDelta, hnext]

theorem encoderAttach_accepted {pinA pinB : ℤ} {mode : String}
    (hok : (encoderAttach respond h name pinA pinB mode).1 = .ok ()) :
    ∃ i pinA' pinB' code : UInt8, ∃ reply, i.toNat = (idFor h.encoderIds name).1 ∧
      respond (h.log ++ [(.configEncoder, [i, pinA', pinB', code])]) = .ok reply ∧
      (encoderAttach respond h name pinA pinB mode).2 =
        { h with
          encoderIds := (idFor h.encoderIds name).2
          encoders := Function.update h.encoders name
            { h.encoders name with id := some i.toNat }
          log := h.log ++ [(.configEncoder, [i, pinA', pinB', code])] } := by
  unfold encoderAttach at hok ⊢
  cases hcode : modeCode mode with
  | none =>
    rw [hcode] at hok
    cases hok
  | some code =>
    rw [hcode] at hok
    dsimp only at hok ⊢
    obtain ⟨reply, hreply, hnext⟩ := next_accepted hok
    obtain ⟨bytes, hbytes, -, hanswer, hcommand⟩ := command_accepted hreply
    obtain - | ⟨hid, - | ⟨-, - | ⟨-, - | ⟨-, ⟨⟩⟩⟩⟩⟩ := pyBytes_ok hbytes
    have hid := Int.ofNat.inj hid
    refine ⟨_, _, _, _, reply, hid, hanswer, ?_⟩
    rw [hnext, hcommand, hid]

theorem encoderReset_accepted (hok : (encoderReset respond h name).1 = .ok ()) :
    ∃ (i : UInt8) (reply : List UInt8), (h.encoders name).id = some i.toNat ∧
      respond (h.log ++ [(.encoderReset, [i])]) = .ok reply ∧
      (encoderReset respond h name).2 =
        { h with
          log := h.log ++ [(.encoderReset, [i])]
          encoders := Function.update h.encoders name
            { h.encoders name with lastPosition := 0 } } := by
  obtain ⟨i, reply, hid, hanswer, hcall⟩ := numbered_accepted rfl hok
  exact ⟨i, reply, hid, hanswer, congrArg Prod.snd hcall⟩

theorem encoderRead_accepted {v : ℤ} (hok : (encoderRead respond h name).1 = .ok v) :
    ∃ (i : UInt8) (reply : List UInt8), (h.encoders name).id = some i.toNat ∧
      respond (h.log ++ [(.encoderRead, [i])]) = .ok reply ∧ responseI32 reply = .ok v ∧
      (encoderRead respond h name).2 = { h with log := h.log ++ [(.encoderRead, [i])] } := by
  obtain ⟨i, reply, hid, hanswer, hcall⟩ := numbered_accepted rfl hok
  have hvalue : responseI32 reply = .ok v := (congrArg Prod.fst hcall).symm.trans hok
  exact ⟨i, reply, hid, hanswer, hvalue, congrArg Prod.snd hcall⟩

theorem encoderDelta_accepted {v : ℤ} (hok : (encoderDelta respond h name).1 = .ok v) :
    ∃ position, (encoderRead respond h name).1 = .ok position ∧
      v = position - ((encoderRead respond h name).2.encoders name).lastPosition ∧
      (encoderDelta respond h name).2 =
        { (encoderRead respond h name).2 with
          encoders := Function.update (encoderRead respond h name).2.encoders name
            { (encoderRead respond h name).2.encoders name with lastPosition := position } } := by
  obtain ⟨position, hposition, hnext⟩ := next_accepted hok
  rw [encoderDelta, hnext] at hok
  refine ⟨position, hposition, (Except.ok.inj hok).symm, ?_⟩
  rw [encoderDelta, hnext]

end Host

/-! ### What a call does to the odometers -/

/-- The reading of a resource and what the host has kept of it. -/
def meter (k : Bench) (resource : Gauge × String) : Odometer where
  position :=
    match resource.1.id k.host resource.2 with
    | some id => (resource.1.position k.device (UInt8.ofNat id)).toInt
    | none => 0
  last := resource.1.last k.host resource.2
  counted := k.counted
  stale := k.stale

/-- The host has touched one resource. -/
structure HostTouched (resource : Gauge × String) (i : UInt8) (h h' : Host) (last : ℤ) : Prop where
  id : resource.1.id h' resource.2 = some i.toNat
  last_eq : resource.1.last h' resource.2 = last
  others : ∀ other, other ≠ resource →
    other.1.id h' other.2 = other.1.id h other.2 ∧ other.1.last h' other.2 = other.1.last h other.2

/-- The device has touched one slot. -/
structure SlotTouched (g : Gauge) (i : UInt8) (s s' : State) (position : Int32) : Prop where
  position_eq : g.position s' i = position
  others : ∀ g' j, (g', j) ≠ (g, i) → g'.position s' j = g'.position s j

theorem counter_touched {h h' : Host} {name : String} {i : UInt8} (counter : PulseCounter)
    (hid : counter.id = some i.toNat)
    (hcounters : h'.counters = Function.update h.counters name counter)
    (hencoders : h'.encoders = h.encoders) :
    HostTouched (.counter, name) i h h' counter.lastCount := by
  refine ⟨?_, ?_, ?_⟩
  · simp [Gauge.id, hcounters, hid]
  · simp [Gauge.last, hcounters]
  · rintro ⟨g, other⟩ hne
    cases g with
    | counter =>
      have hother : other ≠ name := fun heq => hne (by rw [heq])
      simp [Gauge.id, Gauge.last, hcounters, hother]
    | encoder => simp [Gauge.id, Gauge.last, hencoders]

theorem encoder_touched {h h' : Host} {name : String} {i : UInt8} (encoder : QuadratureEncoder)
    (hid : encoder.id = some i.toNat)
    (hencoders : h'.encoders = Function.update h.encoders name encoder)
    (hcounters : h'.counters = h.counters) :
    HostTouched (.encoder, name) i h h' encoder.lastPosition := by
  refine ⟨?_, ?_, ?_⟩
  · simp [Gauge.id, hencoders, hid]
  · simp [Gauge.last, hencoders]
  · rintro ⟨g, other⟩ hne
    cases g with
    | encoder =>
      have hother : other ≠ name := fun heq => hne (by rw [heq])
      simp [Gauge.id, Gauge.last, hencoders, hother]
    | counter => simp [Gauge.id, Gauge.last, hcounters]

theorem host_untouched {h : Host} (resource : Gauge × String) {i : UInt8}
    (hid : resource.1.id h resource.2 = some i.toNat) (log : List Command) :
    HostTouched resource i h { h with log := log } (resource.1.last h resource.2) := by
  have hsame : ∀ other : Gauge × String, other.1.id { h with log := log } other.2 =
      other.1.id h other.2 ∧ other.1.last { h with log := log } other.2 =
        other.1.last h other.2 := by
    rintro ⟨g, other⟩
    cases g <;> exact ⟨rfl, rfl⟩
  refine ⟨?_, (hsame resource).2, ?_⟩
  · rw [(hsame resource).1]
    exact hid
  · intro other _
    exact hsame other

theorem counterSlot_touched {s : State} {i : UInt8} {slot : CounterSlot} :
    SlotTouched .counter i s { s with counters := setAt s.counters i slot } slot.count := by
  refine ⟨?_, ?_⟩
  · simp [Gauge.position]
  · rintro g j hne
    cases g with
    | counter =>
      have hj : j ≠ i := fun heq => hne (by rw [heq])
      simp [Gauge.position, setAt_of_ne hj]
    | encoder => rfl

theorem encoderSlot_touched {s : State} {i : UInt8} {slot : EncoderSlot} :
    SlotTouched .encoder i s { s with encoders := setAt s.encoders i slot } slot.position := by
  refine ⟨?_, ?_⟩
  · simp [Gauge.position]
  · rintro g j hne
    cases g with
    | encoder =>
      have hj : j ≠ i := fun heq => hne (by rw [heq])
      simp [Gauge.position, setAt_of_ne hj]
    | counter => rfl

theorem slot_untouched (g : Gauge) (i : UInt8) (s : State) :
    SlotTouched g i s s (g.position s i) := ⟨rfl, fun _ _ _ => rfl⟩

/-- What an acknowledged call of a resource does: to the resource what its action says, and to the
others nothing. -/
structure Called (k : Bench) (resource : Gauge × String) (a : Action) (i : UInt8) (h' : Host)
    (s' : State) : Prop where
  found : a ≠ .restart → resource.1.id k.host resource.2 = some i.toNat
  made : a = .restart → i.toNat = (idFor (resource.1.ids k.host) resource.2).1
  ids : resource.1.ids h' =
    if a = .restart then (idFor (resource.1.ids k.host) resource.2).2 else resource.1.ids k.host
  otherIds : ∀ g, g ≠ resource.1 → g.ids h' = g.ids k.host
  host : HostTouched resource i k.host h' ((meter k resource).lastAfter a)
  slot : ∃ position, SlotTouched resource.1 i k.device s' position ∧
    position.toInt = (meter k resource).positionAfter a

section Calls

variable {b : Board} {k : Bench} {env : Env} {name : String}

/-- A call of a resource that has its id already. -/
theorem called_known {resource : Gauge × String} {a : Action} {i : UInt8} {h' : Host} {s' : State}
    (ha : a ≠ .restart) (hid : resource.1.id k.host resource.2 = some i.toNat)
    (hids : ∀ g : Gauge, g.ids h' = g.ids k.host)
    (hhost : HostTouched resource i k.host h' ((meter k resource).lastAfter a))
    (hslot : ∃ position, SlotTouched resource.1 i k.device s' position ∧
      position.toInt = (meter k resource).positionAfter a) : Called k resource a i h' s' := by
  refine ⟨?_, ?_, ?_, ?_, hhost, hslot⟩
  · intro _
    exact hid
  · intro hrestart
    exact absurd hrestart ha
  · rw [if_neg ha]
    exact hids resource.1
  · intro g _
    exact hids g

theorem deviceAfter_laid {op : Operation} {id : CommandId} {bytes : List UInt8} {r : Request}
    (hlog : (call b k op env).2.log = k.host.log ++ [(id, bytes)])
    (hsize : bytes.length < maxPayloadSize) (hl : Laid r id bytes) :
    deviceAfter b k (.call op env) =
      (execute b env k.device (UInt16.ofNat (k.host.log ++ [(id, bytes)]).length) r).1 := by
  rw [deviceAfter, hlog, if_pos (by simp)]
  exact congrArg Prod.fst (handled_laid b env k.device k.host.log hsize hl)

theorem meter_position {resource : Gauge × String} {i : UInt8}
    (hid : resource.1.id k.host resource.2 = some i.toNat) :
    (meter k resource).position = (resource.1.position k.device i).toInt := by
  simp [meter, hid]

theorem counterAttach_called {pin : PinRef} {edge : String}
    (hok : (call b k (.counterAttach name pin edge) env).1 = .ok ()) :
    ∃ i, Called k (.counter, name) .restart i (call b k (.counterAttach name pin edge) env).2
      (deviceAfter b k (.call (.counterAttach name pin edge) env)) := by
  obtain ⟨i, pin', code, reply, hid, hanswer, hhost⟩ := counterAttach_accepted (outcome_ok hok)
  have hhost' : (call b k (.counterAttach name pin edge) env).2 = _ := hhost
  have hl : Laid (.configCounter i pin' code) .configCounter [i, pin', code] :=
    .configCounter i pin' code
  have hsize : [i, pin', code].length < maxPayloadSize := by simp [maxPayloadSize]
  rw [deviceAfter_laid (congrArg Resources.log hhost') hsize hl,
    configCounter_acks (respond_acks hsize hl hanswer), hhost']
  refine ⟨i, ?_, ?_, ?_, ?_, ?_, ?_⟩
  · intro hne
    exact absurd rfl hne
  · intro _
    exact hid
  · rfl
  · intro g hg
    cases g with
    | counter => exact absurd rfl hg
    | encoder => rfl
  · exact counter_touched { k.host.counters name with id := some i.toNat } rfl rfl rfl
  · exact ⟨0, counterSlot_touched, rfl⟩

theorem counterReset_called (hok : (call b k (.counterReset name) env).1 = .ok ()) :
    ∃ i, Called k (.counter, name) .reset i (call b k (.counterReset name) env).2
      (deviceAfter b k (.call (.counterReset name) env)) := by
  obtain ⟨i, reply, hid, hanswer, hhost⟩ := counterReset_accepted (outcome_ok hok)
  have hhost' : (call b k (.counterReset name) env).2 = _ := hhost
  have hl : Laid (.counterReset i) .counterReset [i] := .counterReset i
  have hsize : [i].length < maxPayloadSize := by simp [maxPayloadSize]
  rw [deviceAfter_laid (congrArg Resources.log hhost') hsize hl,
    counterReset_acks (respond_acks hsize hl hanswer), hhost']
  refine ⟨i, called_known (by decide) hid ?_ ?_ ?_⟩
  · intro g
    cases g <;> rfl
  · exact counter_touched { k.host.counters name with lastCount := 0, samples := [] } hid rfl rfl
  · exact ⟨0, counterSlot_touched, rfl⟩

theorem encoderAttach_called {pinA pinB : ℤ} {mode : String}
    (hok : (call b k (.encoderAttach name pinA pinB mode) env).1 = .ok ()) :
    ∃ i, Called k (.encoder, name) .restart i (call b k (.encoderAttach name pinA pinB mode) env).2
      (deviceAfter b k (.call (.encoderAttach name pinA pinB mode) env)) := by
  obtain ⟨i, pinA', pinB', code, reply, hid, hanswer, hhost⟩ :=
    encoderAttach_accepted (outcome_ok hok)
  have hhost' : (call b k (.encoderAttach name pinA pinB mode) env).2 = _ := hhost
  have hl : Laid (.configEncoder i pinA' pinB' code) .configEncoder [i, pinA', pinB', code] :=
    .configEncoder i pinA' pinB' code
  have hsize : [i, pinA', pinB', code].length < maxPayloadSize := by simp [maxPayloadSize]
  rw [deviceAfter_laid (congrArg Resources.log hhost') hsize hl,
    configEncoder_acks (respond_acks hsize hl hanswer), hhost']
  refine ⟨i, ?_, ?_, ?_, ?_, ?_, ?_⟩
  · intro hne
    exact absurd rfl hne
  · intro _
    exact hid
  · rfl
  · intro g hg
    cases g with
    | counter => rfl
    | encoder => exact absurd rfl hg
  · exact encoder_touched { k.host.encoders name with id := some i.toNat } rfl rfl rfl
  · exact ⟨0, encoderSlot_touched, rfl⟩

theorem encoderReset_called (hok : (call b k (.encoderReset name) env).1 = .ok ()) :
    ∃ i, Called k (.encoder, name) .reset i (call b k (.encoderReset name) env).2
      (deviceAfter b k (.call (.encoderReset name) env)) := by
  obtain ⟨i, reply, hid, hanswer, hhost⟩ := encoderReset_accepted (outcome_ok hok)
  have hhost' : (call b k (.encoderReset name) env).2 = _ := hhost
  have hl : Laid (.encoderReset i) .encoderReset [i] := .encoderReset i
  have hsize : [i].length < maxPayloadSize := by simp [maxPayloadSize]
  rw [deviceAfter_laid (congrArg Resources.log hhost') hsize hl,
    encoderReset_acks (respond_acks hsize hl hanswer), hhost']
  refine ⟨i, called_known (by decide) hid ?_ ?_ ?_⟩
  · intro g
    cases g <;> rfl
  · exact encoder_touched { k.host.encoders name with lastPosition := 0 } hid rfl rfl
  · exact ⟨0, encoderSlot_touched, rfl⟩

theorem outcome_accepted {α : Type} {result : Result α} (hok : (outcome result).1 = .ok ()) :
    ∃ v, result.1 = .ok v := by
  obtain ⟨error | v, h'⟩ := result
  · cases hok
  · exact ⟨v, rfl⟩

/-- A reading that has returned is the count of the slot, and changes nothing. -/
theorem counterRead_served {v : ℤ}
    (hok : (counterRead (respond b env k.device) k.host name).1 = .ok v) :
    ∃ i : UInt8, (k.host.counters name).id = some i.toNat ∧
      v = (k.device.counters i).count.toInt ∧
      (counterRead (respond b env k.device) k.host name).2 =
        { k.host with log := k.host.log ++ [(.counterRead, [i])] } ∧
      ∀ op, (call b k op env).2.log = k.host.log ++ [(.counterRead, [i])] →
        deviceAfter b k (.call op env) = k.device := by
  obtain ⟨i, reply, hid, hanswer, hvalue, hhost⟩ := counterRead_accepted hok
  have hl : Laid (.counterRead i) .counterRead [i] := .counterRead i
  have hsize : [i].length < maxPayloadSize := by simp [maxPayloadSize]
  obtain ⟨hsame, hreply⟩ := counterRead_acks (respond_acks hsize hl hanswer)
  refine ⟨i, hid, ?_, hhost, ?_⟩
  · rw [hreply, ArgumentAgreement.responseI32_writeI32] at hvalue
    exact (Except.ok.inj hvalue).symm
  · intro op hlog
    rw [deviceAfter_laid hlog hsize hl, hsame]

theorem counterRead_called (hok : (call b k (.counterRead name) env).1 = .ok ()) :
    ∃ i, Called k (.counter, name) .read i (call b k (.counterRead name) env).2
      (deviceAfter b k (.call (.counterRead name) env)) := by
  obtain ⟨v, hv⟩ := outcome_accepted hok
  obtain ⟨i, hid, -, hhost, hdevice⟩ := counterRead_served hv
  have hposition : (meter k (.counter, name)).position = (k.device.counters i).count.toInt :=
    meter_position hid
  have hhost' : (call b k (.counterRead name) env).2 = _ := hhost
  rw [hdevice _ (congrArg Resources.log hhost'), hhost']
  refine ⟨i, called_known (by decide) hid ?_ ?_ ?_⟩
  · intro g
    cases g <;> rfl
  · exact host_untouched (.counter, name) hid _
  · exact ⟨_, slot_untouched .counter i k.device, hposition.symm⟩

/-- What `delta` returns. -/
theorem counterDelta_served {v : ℤ}
    (hok : (counterDelta (respond b env k.device) k.host name).1 = .ok v) :
    v = (meter k (.counter, name)).position - (meter k (.counter, name)).last ∧
      ∃ i, Called k (.counter, name) .delta i (call b k (.counterDelta name) env).2
        (deviceAfter b k (.call (.counterDelta name) env)) := by
  obtain ⟨count, hcount, hv, hhost⟩ := counterDelta_accepted hok
  obtain ⟨i, hid, rfl, hread, hdevice⟩ := counterRead_served hcount
  have hposition : (meter k (.counter, name)).position = (k.device.counters i).count.toInt :=
    meter_position hid
  rw [hread] at hv hhost
  have hhost' : (call b k (.counterDelta name) env).2 = _ := hhost
  constructor
  · rw [hv, hposition]
    rfl
  · rw [hdevice _ (congrArg Resources.log hhost'), hhost']
    refine ⟨i, called_known (by decide) hid ?_ ?_ ?_⟩
    · intro g
      cases g <;> rfl
    · rw [Odometer.lastAfter, hposition]
      exact counter_touched
        { k.host.counters name with lastCount := (k.device.counters i).count.toInt } hid rfl rfl
    · exact ⟨_, slot_untouched .counter i k.device, hposition.symm⟩

/-- A reading that has returned is the position of the slot, and changes nothing. -/
theorem encoderRead_served {v : ℤ}
    (hok : (encoderRead (respond b env k.device) k.host name).1 = .ok v) :
    ∃ i : UInt8, (k.host.encoders name).id = some i.toNat ∧
      v = (k.device.encoders i).position.toInt ∧
      (encoderRead (respond b env k.device) k.host name).2 =
        { k.host with log := k.host.log ++ [(.encoderRead, [i])] } ∧
      ∀ op, (call b k op env).2.log = k.host.log ++ [(.encoderRead, [i])] →
        deviceAfter b k (.call op env) = k.device := by
  obtain ⟨i, reply, hid, hanswer, hvalue, hhost⟩ := encoderRead_accepted hok
  have hl : Laid (.encoderRead i) .encoderRead [i] := .encoderRead i
  have hsize : [i].length < maxPayloadSize := by simp [maxPayloadSize]
  obtain ⟨hsame, hreply⟩ := encoderRead_acks (respond_acks hsize hl hanswer)
  refine ⟨i, hid, ?_, hhost, ?_⟩
  · rw [hreply, ArgumentAgreement.responseI32_writeI32] at hvalue
    exact (Except.ok.inj hvalue).symm
  · intro op hlog
    rw [deviceAfter_laid hlog hsize hl, hsame]

theorem encoderRead_called (hok : (call b k (.encoderRead name) env).1 = .ok ()) :
    ∃ i, Called k (.encoder, name) .read i (call b k (.encoderRead name) env).2
      (deviceAfter b k (.call (.encoderRead name) env)) := by
  obtain ⟨v, hv⟩ := outcome_accepted hok
  obtain ⟨i, hid, -, hhost, hdevice⟩ := encoderRead_served hv
  have hposition : (meter k (.encoder, name)).position = (k.device.encoders i).position.toInt :=
    meter_position hid
  have hhost' : (call b k (.encoderRead name) env).2 = _ := hhost
  rw [hdevice _ (congrArg Resources.log hhost'), hhost']
  refine ⟨i, called_known (by decide) hid ?_ ?_ ?_⟩
  · intro g
    cases g <;> rfl
  · exact host_untouched (.encoder, name) hid _
  · exact ⟨_, slot_untouched .encoder i k.device, hposition.symm⟩

theorem encoderDelta_served {v : ℤ}
    (hok : (encoderDelta (respond b env k.device) k.host name).1 = .ok v) :
    v = (meter k (.encoder, name)).position - (meter k (.encoder, name)).last ∧
      ∃ i, Called k (.encoder, name) .delta i (call b k (.encoderDelta name) env).2
        (deviceAfter b k (.call (.encoderDelta name) env)) := by
  obtain ⟨position, hread', hv, hhost⟩ := encoderDelta_accepted hok
  obtain ⟨i, hid, rfl, hread, hdevice⟩ := encoderRead_served hread'
  have hposition : (meter k (.encoder, name)).position = (k.device.encoders i).position.toInt :=
    meter_position hid
  rw [hread] at hv hhost
  have hhost' : (call b k (.encoderDelta name) env).2 = _ := hhost
  constructor
  · rw [hv, hposition]
    rfl
  · rw [hdevice _ (congrArg Resources.log hhost'), hhost']
    refine ⟨i, called_known (by decide) hid ?_ ?_ ?_⟩
    · intro g
      cases g <;> rfl
    · rw [Odometer.lastAfter, hposition]
      exact encoder_touched
        { k.host.encoders name with lastPosition := (k.device.encoders i).position.toInt }
        hid rfl rfl
    · exact ⟨_, slot_untouched .encoder i k.device, hposition.symm⟩

end Calls

/-- Every acknowledged call is one of these. -/
theorem call_called {b : Board} {k : Bench} {env : Env} {op : Operation}
    {resource : Gauge × String} {a : Action} (hcall : callOf op = some (resource, a))
    (hok : (call b k op env).1 = .ok ()) :
    ∃ i, Called k resource a i (call b k op env).2 (deviceAfter b k (.call op env)) := by
  cases op with
  | counterAttach name pin edge =>
    obtain ⟨rfl, rfl⟩ := Prod.mk.inj (Option.some.inj hcall)
    exact counterAttach_called hok
  | counterReset name =>
    obtain ⟨rfl, rfl⟩ := Prod.mk.inj (Option.some.inj hcall)
    exact counterReset_called hok
  | counterRead name =>
    obtain ⟨rfl, rfl⟩ := Prod.mk.inj (Option.some.inj hcall)
    exact counterRead_called hok
  | counterDelta name =>
    obtain ⟨rfl, rfl⟩ := Prod.mk.inj (Option.some.inj hcall)
    obtain ⟨v, hv⟩ := outcome_accepted hok
    exact (counterDelta_served hv).2
  | encoderAttach name pinA pinB mode =>
    obtain ⟨rfl, rfl⟩ := Prod.mk.inj (Option.some.inj hcall)
    exact encoderAttach_called hok
  | encoderReset name =>
    obtain ⟨rfl, rfl⟩ := Prod.mk.inj (Option.some.inj hcall)
    exact encoderReset_called hok
  | encoderRead name =>
    obtain ⟨rfl, rfl⟩ := Prod.mk.inj (Option.some.inj hcall)
    exact encoderRead_called hok
  | encoderDelta name =>
    obtain ⟨rfl, rfl⟩ := Prod.mk.inj (Option.some.inj hcall)
    obtain ⟨v, hv⟩ := outcome_accepted hok
    exact (encoderDelta_served hv).2
  | _ => cases hcall

/-- The value of an acknowledged `delta`. -/
theorem delta_served {b : Board} {k : Bench} {env : Env} {op : Operation} {g : Gauge}
    {name : String} (hcall : callOf op = some ((g, name), .delta))
    (hok : (call b k op env).1 = .ok ()) :
    (g.delta (respond b env k.device) k.host name).1 =
      .ok ((meter k (g, name)).position - (meter k (g, name)).last) := by
  cases op with
  | counterDelta name =>
    obtain ⟨hresource, -⟩ := Prod.mk.inj (Option.some.inj hcall)
    obtain ⟨rfl, rfl⟩ := Prod.mk.inj hresource
    obtain ⟨v, hv⟩ := outcome_accepted hok
    rw [← (counterDelta_served hv).1]
    exact hv
  | encoderDelta name =>
    obtain ⟨hresource, -⟩ := Prod.mk.inj (Option.some.inj hcall)
    obtain ⟨rfl, rfl⟩ := Prod.mk.inj hresource
    obtain ⟨v, hv⟩ := outcome_accepted hok
    rw [← (encoderDelta_served hv).1]
    exact hv
  | _ => cases hcall

/-! ### The ids -/

theorem mem_idFor {names : List String} {name other : String} (h : other ∈ names ∨ other = name) :
    other ∈ (idFor names name).2 := by
  unfold idFor
  split_ifs with hmem
  · rcases h with h | rfl
    · exact h
    · exact hmem
  · exact List.mem_append.mpr (h.imp_right List.mem_singleton.mpr)

theorem idFor_eq (names : List String) (name : String) :
    (idFor names name).1 = (idFor names name).2.idxOf name := by
  unfold idFor
  split_ifs with hmem
  · rfl
  · rw [List.idxOf_append_of_notMem hmem, List.idxOf_cons_self, Nat.add_zero]

theorem idxOf_idFor {names : List String} {name other : String} (h : other ∈ names) :
    (idFor names name).2.idxOf other = names.idxOf other := by
  unfold idFor
  split_ifs with hmem
  · rfl
  · exact List.idxOf_append_of_mem h

/-- The id of a resource is the place of its name. -/
def Numbered (h : Host) : Prop :=
  ∀ (resource : Gauge × String) (id : ℕ), resource.1.id h resource.2 = some id →
    id < 256 ∧ resource.2 ∈ resource.1.ids h ∧ id = (resource.1.ids h).idxOf resource.2

section Called

variable {k : Bench} {resource : Gauge × String} {a : Action} {i : UInt8} {h' : Host} {s' : State}

/-- The id of a call is the place of the name among the ids that it leaves. -/
theorem Called.place (h : Called k resource a i h' s') (hids : Numbered k.host) :
    resource.2 ∈ resource.1.ids h' ∧ i.toNat = (resource.1.ids h').idxOf resource.2 := by
  by_cases ha : a = .restart
  · rw [h.ids, if_pos ha, ← idFor_eq]
    exact ⟨mem_idFor (Or.inr rfl), h.made ha⟩
  · rw [h.ids, if_neg ha]
    obtain ⟨-, hmem, hplace⟩ := hids resource i.toNat (h.found ha)
    exact ⟨hmem, hplace⟩

theorem Called.others_place (h : Called k resource a i h' s') {g : Gauge} {name : String}
    (hmem : name ∈ g.ids k.host) :
    name ∈ g.ids h' ∧ (g.ids h').idxOf name = (g.ids k.host).idxOf name := by
  by_cases hg : g = resource.1
  · subst hg
    rw [h.ids]
    by_cases ha : a = .restart
    · rw [if_pos ha]
      exact ⟨mem_idFor (Or.inl hmem), idxOf_idFor hmem⟩
    · rw [if_neg ha]
      exact ⟨hmem, rfl⟩
  · rw [h.otherIds g hg]
    exact ⟨hmem, rfl⟩

theorem Called.numbered (h : Called k resource a i h' s') (hids : Numbered k.host) :
    Numbered h' := by
  intro other id hid
  by_cases hother : other = resource
  · subst hother
    obtain ⟨hmem, hplace⟩ := h.place hids
    obtain rfl := Option.some.inj (h.host.id.symm.trans hid)
    exact ⟨i.toNat_lt, hmem, hplace⟩
  · rw [(h.host.others other hother).1] at hid
    obtain ⟨hlt, hmem, hplace⟩ := hids other id hid
    obtain ⟨hmem', hplace'⟩ := h.others_place hmem
    exact ⟨hlt, hmem', hplace.trans hplace'.symm⟩

/-- Two resources have two slots. -/
theorem Called.other_slot (h : Called k resource a i h' s') (hids : Numbered k.host)
    {other : Gauge × String} (hother : other ≠ resource) {id : ℕ}
    (hid : other.1.id k.host other.2 = some id) :
    (other.1, UInt8.ofNat id) ≠ (resource.1, i) := by
  intro heq
  obtain ⟨hg, hi⟩ := Prod.mk.inj heq
  obtain ⟨hlt, hmem, hplace⟩ := hids other id hid
  obtain ⟨hmem', hplace'⟩ := h.others_place hmem
  obtain ⟨hown, hownPlace⟩ := h.place hids
  have hnum : id = i.toNat := by
    rw [← hi, UInt8.toNat_ofNat', Nat.mod_eq_of_lt hlt]
  rw [hg] at hmem' hplace' hplace
  have hsame : other.2 = resource.2 := by
    apply (List.idxOf_inj hmem').mp
    rw [hplace', ← hplace, hnum, hownPlace]
  exact hother (Prod.ext hg hsame)

end Called

/-! ### Interrupts -/

def encoderDeltas : List Int32 := [0, -1, 1, 0, 1, 0, 0, -1, -1, 0, 0, 1, 0, 1, -1, 0]

theorem encoderDelta_small (previous current : UInt8) :
    -1 ≤ (FirmwareUpdate.encoderDelta previous current).toInt ∧
      (FirmwareUpdate.encoderDelta previous current).toInt ≤ 1 := by
  have hall : encoderDeltas.all (fun d => decide (-1 ≤ d.toInt ∧ d.toInt ≤ 1)) = true := by
    decide +kernel
  have hdelta : FirmwareUpdate.encoderDelta previous current =
      (encoderDeltas[(((previous &&& 0x03) <<< 2) ||| (current &&& 0x03)).toNat]?).getD 0 :=
    List.getD_eq_getElem?_getD
  rw [hdelta]
  cases hentry : encoderDeltas[(((previous &&& 0x03) <<< 2) ||| (current &&& 0x03)).toNat]? with
  | none => decide
  | some d => exact of_decide_eq_true (List.all_eq_true.mp hall d (List.mem_of_getElem? hentry))

/-- A step of at most one does not leave the range of the machine word. -/
theorem toInt_add_small {x d : Int32} {ticks : ℕ} (hx : |x.toInt| ≤ ticks)
    (hticks : ticks + 1 < 2 ^ 31) (hd : -1 ≤ d.toInt ∧ d.toInt ≤ 1) :
    (x + d).toInt = x.toInt + d.toInt := by
  obtain ⟨hlow, hhigh⟩ := abs_le.mp hx
  rw [Int32.toInt_add]
  apply Int.bmod_eq_of_le_mul_two
  · omega
  · omega

/-- An interrupt of a counter that is not attached is ignored. -/
theorem tick_guard {id max : UInt8} {active : Bool} :
    (id ≥ max || !active) = true ↔ ¬ (id < max ∧ active = true) := by
  rw [Bool.or_eq_true, decide_eq_true_iff, Bool.not_eq_true', not_and_or, Bool.not_eq_true]
  exact or_congr_left UInt8.not_lt.symm

/-- An interrupt moves its slot by its distance. -/
theorem tick_position {b : Board} {k : Bench} {input : Input} (htick : input.isTick = true)
    (hticks : k.ticks + 1 < 2 ^ 31) {g : Gauge} {i : UInt8}
    (hx : |(g.position k.device i).toInt| ≤ k.ticks) :
    (g.position (deviceAfter b k input) i).toInt =
      (g.position k.device i).toInt + distance k.device g i input := by
  cases input with
  | call op env => cases htick
  | counterTick env id =>
    rw [deviceAfter, counterTick, distance]
    by_cases hskip : (id ≥ kMaxCounters || !(k.device.counters id).active) = true
    · have hidle : ¬ (g = .counter ∧ id = i ∧ id < kMaxCounters ∧
          (k.device.counters id).active = true) := fun h => tick_guard.mp hskip h.2.2
      rw [if_pos hskip, if_neg hidle, Int.add_zero]
    · rw [if_neg hskip]
      rw [tick_guard, not_not] at hskip
      by_cases hown : g = .counter ∧ id = i
      · obtain ⟨rfl, rfl⟩ := hown
        rw [if_pos ⟨rfl, rfl, hskip⟩, (counterSlot_touched).position_eq]
        exact toInt_add_small hx hticks (by decide)
      · have hother : (g, i) ≠ (Gauge.counter, id) := fun h => hown (by cases h; exact ⟨rfl, rfl⟩)
        rw [if_neg fun h => hown ⟨h.1, h.2.1⟩, Int.add_zero,
          counterSlot_touched.others g i hother]
  | encoderTick env id =>
    rw [deviceAfter, encoderTick, distance]
    by_cases hskip : (id ≥ kMaxEncoders || !(k.device.encoders id).active) = true
    · have hidle : ¬ (g = .encoder ∧ id = i ∧ id < kMaxEncoders ∧
          (k.device.encoders id).active = true) := fun h => tick_guard.mp hskip h.2.2
      rw [if_pos hskip, if_neg hidle, Int.add_zero]
    · rw [if_neg hskip]
      rw [tick_guard, not_not] at hskip
      by_cases hown : g = .encoder ∧ id = i
      · obtain ⟨rfl, rfl⟩ := hown
        rw [if_pos ⟨rfl, rfl, hskip⟩, (encoderSlot_touched).position_eq]
        exact toInt_add_small hx hticks (encoderDelta_small _ _)
      · have hother : (g, i) ≠ (Gauge.encoder, id) := fun h => hown (by cases h; exact ⟨rfl, rfl⟩)
        rw [if_neg fun h => hown ⟨h.1, h.2.1⟩, Int.add_zero,
          encoderSlot_touched.others g i hother]

/-! ### A step is a step of the odometer -/

section Step

variable {b : Board} {g : Gauge} {name : String} {k : Bench}

/-- Nothing else is known of a resource along a run: its odometer is settled and has not gone
further than there were interrupts. -/
structure Tracked (g : Gauge) (name : String) (k : Bench) : Prop where
  numbered : Numbered k.host
  settled : (meter k (g, name)).Settled
  bounded : |(meter k (g, name)).position| ≤ k.ticks

theorem call_meter {op : Operation} {env : Env} (hids : Numbered k.host)
    (hack : Acknowledged b k (.call op env)) :
    meter (step b g name k (.call op env)) (g, name) =
      (meter k (g, name)).step (action g name k (.call op env)) ∧
    Numbered (hostAfter b k (.call op env)) := by
  obtain ⟨hcall, hok⟩ := hack
  obtain ⟨⟨resource, a⟩, hcall⟩ := Option.isSome_iff_exists.mp hcall
  obtain ⟨i, h⟩ := call_called hcall hok
  refine ⟨?_, h.numbered hids⟩
  have haction : action g name k (.call op env) = if resource = (g, name) then a else .read := by
    rw [action, hcall]
  by_cases hown : resource = (g, name)
  · rw [haction, if_pos hown]
    subst hown
    obtain ⟨position, hslot, hposition⟩ := h.slot
    apply Odometer.ext
    · rw [meter_position h.host.id]
      rw [step, hslot.position_eq]
      exact hposition
    · exact h.host.last_eq
    · rw [meter, step, haction, if_pos rfl]
      rfl
    · rw [meter, step, haction, if_pos rfl]
      rfl
  · rw [haction, if_neg hown]
    obtain ⟨hid, hlast⟩ := h.host.others (g, name) (Ne.symm hown)
    obtain ⟨position, hslot, -⟩ := h.slot
    apply Odometer.ext
    · change (match g.id (call b k op env).2 name with
        | some id => (g.position (deviceAfter b k (.call op env)) (UInt8.ofNat id)).toInt
        | none => 0) = (meter k (g, name)).position
      rw [hid, meter]
      cases hold : g.id k.host name with
      | none => rfl
      | some id =>
        exact congrArg Int32.toInt
          (hslot.others g (UInt8.ofNat id) (h.other_slot hids (Ne.symm hown) hold))
    · exact hlast
    · rw [meter, step, haction, if_neg hown]
      rfl
    · rw [meter, step, haction, if_neg hown]
      rfl

theorem tick_meter {input : Input} (htick : input.isTick = true) (h : Tracked g name k)
    (hticks : k.ticks + 1 < 2 ^ 31) :
    meter (step b g name k input) (g, name) =
      (meter k (g, name)).step (action g name k input) ∧ hostAfter b k input = k.host := by
  have hhost : hostAfter b k input = k.host := by
    cases input with
    | call op env => cases htick
    | counterTick env id => rfl
    | encoderTick env id => rfl
  have haction : action g name k input = match g.id k.host name with
      | some id => .advance (distance k.device g (UInt8.ofNat id) input)
      | none => .read := by
    cases input with
    | call op env => cases htick
    | counterTick env id => rfl
    | encoderTick env id => rfl
  refine ⟨?_, hhost⟩
  have hbounded := h.bounded
  apply Odometer.ext
  · change (match g.id (hostAfter b k input) name with
      | some id => (g.position (deviceAfter b k input) (UInt8.ofNat id)).toInt
      | none => 0) = (meter k (g, name)).positionAfter (action g name k input)
    rw [hhost, haction]
    rw [meter] at hbounded ⊢
    cases hid : g.id k.host name with
    | none => rfl
    | some id =>
      dsimp only at hbounded
      rw [hid] at hbounded
      exact tick_position htick hticks hbounded
  · change g.last (hostAfter b k input) name =
      (meter k (g, name)).lastAfter (action g name k input)
    rw [hhost, haction]
    cases g.id k.host name <;> rfl
  · rfl
  · rfl

theorem distance_small (s : State) (g : Gauge) (i : UInt8) (input : Input) :
    |distance s g i input| ≤ 1 := by
  cases input with
  | call op env => simp [distance]
  | counterTick env id =>
    rw [distance]
    split_ifs <;> decide
  | encoderTick env id =>
    rw [distance]
    split_ifs
    · exact abs_le.mpr (encoderDelta_small _ _)
    · decide

theorem callOf_not_advance {op : Operation} {resource : Gauge × String} {d : ℤ} :
    callOf op ≠ some (resource, .advance d) := by
  intro h
  cases op <;> cases h

/-- An odometer moves by its interrupts alone. -/
theorem action_distance {input : Input} {d : ℤ} (h : action g name k input = .advance d) :
    |d| ≤ if input.isTick then 1 else 0 := by
  cases input with
  | call op env =>
    rw [action] at h
    split at h
    · rename_i resource a hcall
      split_ifs at h
      rw [h] at hcall
      exact absurd hcall callOf_not_advance
    · cases h
  | counterTick env id | encoderTick env id =>
    rw [action] at h
    split at h
    · rw [← Action.advance.inj h]
      exact distance_small _ _ _ _
    · cases h
    · intro op env h
      cases h

theorem step_tracked {input : Input} (hack : Acknowledged b k input) (h : Tracked g name k)
    (hticks : input.isTick = true → k.ticks + 1 < 2 ^ 31) :
    Tracked g name (step b g name k input) := by
  have hmeter : meter (step b g name k input) (g, name) =
      (meter k (g, name)).step (action g name k input) ∧ Numbered (hostAfter b k input) := by
    by_cases htick : input.isTick = true
    · obtain ⟨hstep, hhost⟩ := tick_meter (b := b) htick h (hticks htick)
      rw [hhost]
      exact ⟨hstep, h.numbered⟩
    · cases input with
      | call op env => exact call_meter h.numbered hack
      | counterTick env id => exact absurd rfl htick
      | encoderTick env id => exact absurd rfl htick
  constructor
  · exact hmeter.2
  · rw [hmeter.1]
    exact h.settled.step _
  · rw [hmeter.1]
    have hnonneg : (0 : ℤ) ≤ if input.isTick then 1 else 0 := by split_ifs <;> decide
    have hmoved := (meter k (g, name)).positionAfter_le (action g name k input)
      (fun d hd => action_distance hd) hnonneg
    have hbounded := h.bounded
    have hticks' : (step b g name k input).ticks = k.ticks + if input.isTick then 1 else 0 := rfl
    rw [hticks']
    push_cast
    exact hmoved.trans (add_le_add_left hbounded _)

theorem exact_iff {input : Input} (hack : Acknowledged b k input) (h : Tracked g name k) :
    Exact b g name k input ↔ Fresh g name k input := by
  cases input with
  | counterTick env id => exact Iff.rfl
  | encoderTick env id => exact Iff.rfl
  | call op env =>
    apply imp_congr_right
    intro hdelta
    rw [delta_served hdelta hack.2, Except.ok.injEq]
    exact h.settled

end Step

/-- The client as it is after construction, with some pins configured. -/
def start (pins : String → Pin) (device : State) : Bench :=
  { host := { pins := pins }, device := device }

theorem tracked_start (g : Gauge) (name : String) (pins : String → Pin) (device : State) :
    Tracked g name (start pins device) := by
  constructor
  · rintro ⟨g, other⟩ id hid
    cases g <;> cases hid
  · cases g <;> exact Odometer.settled_initial
  · cases g <;> exact le_rfl

theorem few_ticks {b : Board} {g : Gauge} {name : String} {k : Bench} {inputs : List Input}
    (h : k.ticks + inputs.countP Input.isTick < 2 ^ 31) :
    EachStep (step b g name) (fun k input => input.isTick = true → k.ticks + 1 < 2 ^ 31) k
      inputs := by
  induction inputs generalizing k with
  | nil => trivial
  | cons input inputs ih =>
    rw [List.countP_cons] at h
    constructor
    · intro htick
      rw [if_pos htick] at h
      omega
    · apply ih
      have hnext : (step b g name k input).ticks = k.ticks + if input.isTick then 1 else 0 := rfl
      rw [hnext]
      omega

/-- Along every run of acknowledged calls and fewer than 2^31 interrupts, each `delta` returns what
the device has counted since the last `delta`, `reset` or `attach`, if and only if none of them
follows an `attach` that found a last reading other than zero. -/
theorem delta_exact_iff (b : Board) (g : Gauge) (name : String) (pins : String → Pin)
    (device : State) (inputs : List Input) (hfew : inputs.countP Input.isTick < 2 ^ 31)
    (hack : EachStep (step b g name) (Acknowledged b) (start pins device) inputs) :
    EachStep (step b g name) (Exact b g name) (start pins device) inputs ↔
      EachStep (step b g name) (Fresh g name) (start pins device) inputs := by
  have hticks : EachStep (step b g name) (fun k input => input.isTick = true →
      k.ticks + 1 < 2 ^ 31) (start pins device) inputs := by
    apply few_ticks
    have hstart : (start pins device).ticks = 0 := rfl
    rw [hstart]
    omega
  apply eachStep_congr _ _ (tracked_start g name pins device) (eachStep_and.mpr ⟨hack, hticks⟩)
  · intro k input hpromise h
    exact step_tracked hpromise.1 h hpromise.2
  · intro k input hpromise h
    exact exact_iff hpromise.1 h

/-! ### Concrete runs -/

section Concrete

open FirmwareDevice (sampleBoard envAt)

def attachTicks : Input := .call (.counterAttach "ticks" (.number 7) "rising") (envAt 0)

def deltaTicks : Input := .call (.counterDelta "ticks") (envAt 0)

/-- A second attach is harmless once a reset has set the last reading to zero. -/
theorem deltas_after_reset :
    let inputs := [attachTicks] ++ List.replicate 5 (.counterTick (envAt 0) 0) ++
      [deltaTicks, .call (.counterReset "ticks") (envAt 0)] ++
        List.replicate 3 (.counterTick (envAt 0) 0) ++ [attachTicks, deltaTicks]
    EachStep (step sampleBoard .counter "ticks") (Exact sampleBoard .counter "ticks")
      (start (fun _ => {}) {}) inputs := by
  intro inputs
  apply (delta_exact_iff sampleBoard .counter "ticks" (fun _ => {}) {} inputs (by decide)
    (by decide +kernel)).mpr
  decide +kernel

/-- Attached again after it has reported five ticks, the counter reports two ticks less than none
when three have come. -/
theorem delta_after_second_attach :
    let inputs := [attachTicks] ++ List.replicate 5 (.counterTick (envAt 0) 0) ++
      [deltaTicks, attachTicks] ++ List.replicate 3 (.counterTick (envAt 0) 0)
    let k := after (step sampleBoard .counter "ticks") (start (fun _ => {}) {}) inputs
    EachStep (step sampleBoard .counter "ticks") (Acknowledged sampleBoard)
        (start (fun _ => {}) {}) (inputs ++ [deltaTicks]) ∧
      k.counted = 3 ∧
      (Gauge.counter.delta (respond sampleBoard (envAt 0) k.device) k.host "ticks").1 = .ok (-2) ∧
      ¬ EachStep (step sampleBoard .counter "ticks") (Exact sampleBoard .counter "ticks")
        (start (fun _ => {}) {}) (inputs ++ [deltaTicks]) := by
  decide +kernel

end Concrete

end CounterDeltas
