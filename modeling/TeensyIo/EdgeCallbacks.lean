import TeensyIo.DeviceLink
import TeensyIo.HostOperations
import TeensyIo.SubscriptionCalls

/-! # Edge callbacks

`Pin.on_edge` and `TeensyIO.subscribe` on digital pins, the sampling of the pins by the firmware
and the dispatch of its events. The filter of an edge is kept by the firmware for each
subscription; the client knows its callbacks by the pin alone. The frames of a sample are
delivered before the next call begins, so no call is made while an event is on its way. -/
namespace EdgeCallbacks

open WireCommands HostProtocol HostClient HostResources HostOperations LittleEndian
open FirmwareState FirmwareUpdate FirmwareRequests FirmwareResponses FirmwareRing MachineRuns
open DeviceLink (hostPacket refusal_raises)
open RequestLayouts (Laid decode_laid)
open SubscriptionCalls (eventDue noteValue_eq)

/-- The transition from one sample of a pin to the next. -/
inductive Edge where
  | rising | falling
  deriving DecidableEq, Repr

def edgeOf (before later : Bool) : Option Edge :=
  if before = later then none else if later then some .rising else some .falling

/-- What the first argument of `on_edge` asks for. -/
def wants (edge : String) : Edge → Bool
  | .rising => edge == "rising" || edge == "both"
  | .falling => edge == "falling" || edge == "both"

/-- A callback of `on_edge`; `seen` once its pin has been sampled since the call. -/
structure Registration where
  pin : Option ℤ
  edge : String
  seen : Bool := false

/-- A subscription of the run: one of `on_edge`, which reports the edges asked for, or one of
`subscribe`, which reports every edge if it is made for changes and none otherwise. -/
structure Watch where
  pin : Option ℤ
  reports : Edge → Bool
  seen : Bool := false

/-- `levels` is the last sample. -/
structure Bench where
  host : Host
  device : State := {}
  registered : List Registration := []
  watches : List Watch := []
  levels : Option (UInt8 → Bool) := none

/-- A call is made with what the core answers to its command. -/
inductive Input where
  | onEdge (name edge : String) (callback : ℕ) (env : Env)
  | subscribe (name : String) (rateHz : Option ℚ) (onChange : Bool) (env : Env)
  | sample (env : Env) (levels : UInt8 → Bool)

/-- The firmware handles the last command of the log. -/
def handled (b : Board) (env : Env) (device : State) (log : List Command) : Outcome :=
  match log.getLast? with
  | none => (device, [])
  | some (id, payload) =>
    FirmwareCommands.handle b env device
      (FirmwareDevice.commandPacket (UInt16.ofNat log.length) (id.toByte :: payload))

/-- `_command` with the response that the firmware writes. -/
def respond (b : Board) (env : Env) (device : State) (log : List Command) :
    Except PyError (List UInt8) :=
  match framesWritten (handled b env device log).2 with
  | [] => .error .timeoutError
  | w :: _ => commandResult (hostPacket w)

/-- The callbacks of an event, with their places in the order of the registrations. -/
def called (h : Host) (event : EdgeEvent) : List (((ResourceKind × ℤ) × ℕ) × ℕ) :=
  h.edgeCallbacks.zipIdx.filter fun c => c.1.1 = (event.kind, (event.resourceId.toNat : ℤ))

namespace Bench

def pinOf (k : Bench) (name : String) : Option ℤ := (k.host.pins name).physicalPin

def call (b : Board) (k : Bench) (env : Env) (op : Operation) : Result Unit :=
  runOperation (respond b env k.device) k.host op

/-- The device has handled the command of the call if there was one. -/
def called (b : Board) (k : Bench) (env : Env) (op : Operation) : Bench :=
  let h := (k.call b env op).2
  let device :=
    if k.host.log.length < h.log.length then (handled b env k.device h.log).1 else k.device
  { k with host := h, device := device }

/-- An update that samples these levels. -/
def sampled (b : Board) (k : Bench) (env : Env) (levels : UInt8 → Bool) : Outcome :=
  update b { env with digitalRead := fun _ => levels } k.device

/-- What is still in the ring is sent before the next sample. -/
def drained (b : Board) (k : Bench) (env : Env) (levels : UInt8 → Bool) : Outcome :=
  flushAsync { env with availableForWrite := fun _ => 65535 } 0 kAsyncOutboundFrames.toNat
    (k.sampled b env levels).1

def frames (b : Board) (k : Bench) (env : Env) (levels : UInt8 → Bool) : List Written :=
  framesWritten (k.sampled b env levels).2 ++ framesWritten (k.drained b env levels).2

def events (b : Board) (k : Bench) (env : Env) (levels : UInt8 → Bool) : List EdgeEvent :=
  (k.frames b env levels).filterMap fun w => edgeEvent (hostPacket w)

/-- How often the callback in this place is invoked for the events of the sample. -/
def invocations (b : Board) (k : Bench) (env : Env) (levels : UInt8 → Bool) (place : ℕ) : ℕ :=
  ((k.events b env levels).flatMap (EdgeCallbacks.called k.host)).countP (·.2 = place)

def transition (k : Bench) (levels : UInt8 → Bool) (pin : UInt8) : Option Edge :=
  k.levels.bind fun before => edgeOf (before pin) (levels pin)

def step (b : Board) (k : Bench) : Input → Bench
  | .onEdge name edge callback env =>
    { k.called b env (.onEdge name edge callback) with
      registered := k.registered ++ [{ pin := k.pinOf name, edge := edge }]
      watches := k.watches ++ [{ pin := k.pinOf name, reports := wants edge }] }
  | .subscribe name rateHz onChange env =>
    { k.called b env (.subscribe name rateHz onChange) with
      watches := k.watches ++ [{ pin := k.pinOf name, reports := fun _ => onChange }] }
  | .sample env levels =>
    { k with
      device := (k.drained b env levels).1
      registered := k.registered.map fun r => { r with seen := true }
      watches := k.watches.map fun w => { w with seen := true }
      levels := some levels }

end Bench

/-! ### What is asked of a run, and what it gives -/

/-- Every call is made on a digital pin and acknowledged. -/
def Acknowledged (b : Board) (k : Bench) : Input → Prop
  | .onEdge name edge callback env =>
    (k.pinOf name).isSome ∧ (k.call b env (.onEdge name edge callback)).1 = .ok ()
  | .subscribe name rateHz onChange env =>
    (k.pinOf name).isSome ∧ (k.call b env (.subscribe name rateHz onChange)).1 = .ok ()
  | .sample _ _ => True

/-- A sample invokes a callback for the transition of its pin if that is its edge, and not
otherwise; a callback whose pin has not been sampled before may miss it. -/
def Matched (b : Board) (k : Bench) : Input → Prop
  | .sample env levels =>
    ∀ place r (pin : UInt8), k.registered[place]? = some r → r.pin = some (pin.toNat : ℤ) →
      let calls := k.invocations b env levels place
      match k.transition levels pin with
      | none => calls = 0
      | some edge =>
        if wants r.edge edge then calls ≤ 1 ∧ (r.seen = true → calls = 1) else calls = 0
  | _ => True

/-- How many subscriptions in place at the last sample report the transition. -/
def reporting (k : Bench) (pin : UInt8) (edge : Edge) : ℕ :=
  k.watches.countP fun w => w.seen && w.pin = some (pin.toNat : ℤ) && w.reports edge

/-- A transition of a pin with a callback is reported by one subscription at most, and by none if
the callback is for the other edge. -/
def Single (k : Bench) : Input → Prop
  | .sample _ levels =>
    ∀ r ∈ k.registered, ∀ pin : UInt8, r.pin = some (pin.toNat : ℤ) →
      ∀ edge, k.transition levels pin = some edge →
        reporting k pin edge ≤ if wants r.edge edge then 1 else 0
  | _ => True

/-! ### Calls -/

section Calls

variable {respond : List Command → Except PyError (List UInt8)} {h : Host}

/-- A call that has returned was answered, and has done no more than this to the host. -/
structure Returns (respond : List Command → Except PyError (List UInt8)) (h h' : Host)
    (registered : List ((ResourceKind × ℤ) × ℕ)) : Prop where
  answered : ∃ reply, respond h'.log = .ok reply
  pins : h'.pins = h.pins
  edgeCallbacks : h'.edgeCallbacks = h.edgeCallbacks ++ registered

theorem command_returns {id : CommandId} {payload : Except PyError (List UInt8)} {h' : Host}
    {registered : List ((ResourceKind × ℤ) × ℕ)} (hpins : h'.pins = h.pins)
    (hcallbacks : h'.edgeCallbacks = h.edgeCallbacks ++ registered)
    (hok : (((command respond h' id payload).next fun _ h => (.ok (), h)) : Result Unit).1 =
      .ok ()) :
    Returns respond h ((command respond h' id payload).next fun _ h => (.ok (), h) :
      Result Unit).2 registered := by
  obtain ⟨reply, hreply, hnext⟩ := next_accepted hok
  obtain ⟨bytes, -, -, hanswer, hcommand⟩ := command_accepted hreply
  rw [hnext, hcommand]
  exact ⟨⟨reply, hanswer⟩, hpins, hcallbacks⟩

theorem onEdge_returns {name edge : String} {callback : ℕ}
    (hok : (onEdge respond h name edge callback).1 = .ok ()) :
    ∃ pin, (h.pins name).physicalPin = some pin ∧
      Returns respond h (onEdge respond h name edge callback).2 [((.digital, pin), callback)] := by
  unfold onEdge at hok ⊢
  cases hpin : (h.pins name).physicalPin with
  | none =>
    rw [hpin] at hok
    cases hok
  | some pin =>
    rw [hpin] at hok
    dsimp only at hok ⊢
    cases hflags : edgeFlags edge with
    | none =>
      rw [hflags] at hok
      cases hok
    | some flags =>
      rw [hflags] at hok
      exact ⟨pin, rfl, command_returns rfl rfl hok⟩

theorem subscribe_returns {name : String} {rateHz : Option ℚ} {onChange : Bool}
    (hok : (HostResources.subscribe respond h name rateHz onChange).1 = .ok ()) :
    Returns respond h (HostResources.subscribe respond h name rateHz onChange).2 [] := by
  unfold HostResources.subscribe at hok ⊢
  cases href : resourceRef h name with
  | error error =>
    rw [href] at hok
    cases hok
  | ok ref =>
    rw [href] at hok
    exact command_returns rfl (List.append_nil _).symm hok

theorem outcome_ok {result : Result Unit} (hok : (outcome result).1 = .ok ()) :
    result.1 = .ok () := by
  obtain ⟨error | v, h'⟩ := result
  · cases hok
  · rfl

end Calls

section Device

variable (b : Board) (env : Env) (device : State)

theorem handled_laid (log : List Command) {id : CommandId} {bytes : List UInt8} {r : Request}
    (hsize : bytes.length < maxPayloadSize) (hl : Laid r id bytes) :
    handled b env device (log ++ [(id, bytes)]) =
      execute b env device (UInt16.ofNat (log ++ [(id, bytes)]).length) r := by
  have hbytes : (FirmwareDevice.commandPacket (UInt16.ofNat (log ++ [(id, bytes)]).length)
      (id.toByte :: bytes)).bytes = id.toByte :: bytes :=
    FirmwareDevice.commandPacket_bytes _ hsize
  rw [handled, List.getLast?_concat]
  dsimp only
  rw [handle_eq, decode_laid hl rfl hbytes]
  rfl

/-- The slot a subscription is put into. -/
def slotFor (env : Env) (old : SubscriptionSlot) (kind id : UInt8) (rateHz : UInt16)
    (flags : UInt8) : SubscriptionSlot :=
  { old with
    active := true, kind := kind, id := id, rateHz := rateHz, flags := flags
    nextDueMs := env.millis 0, hasLastValue := false }

def firstFree (s : State) : Option UInt8 :=
  (indices kMaxSubscriptions.toNat).find? fun i => !(s.subscriptions i).active

/-- A subscription that is acknowledged has found its resource and a free slot. -/
theorem subscribe_acked {seq : UInt16} {kind id : UInt8} {rateHz : UInt16} {flags : UInt8}
    {w : Written} {reply : List UInt8}
    (hw : w ∈ framesWritten (execute b env device seq (.subscribe kind id rateHz flags)).2)
    (hok : commandResult (hostPacket w) = .ok reply) :
    ∃ i value, FirmwareCommands.readResourceValue b env device 0 kind id = some value ∧
      firstFree device = some i ∧
      (execute b env device seq (.subscribe kind id rateHz flags)).1 =
        { device with
          subscriptions := setAt device.subscriptions i
            (slotFor env (device.subscriptions i) kind id rateHz flags) } := by
  rw [execute] at hw ⊢
  unfold FirmwareCommands.subscribe at hw ⊢
  cases hvalue : FirmwareCommands.readResourceValue b env device 0 kind id with
  | none =>
    rw [hvalue] at hw
    exact absurd hok (refusal_raises hw)
  | some value =>
    rw [hvalue] at hw
    dsimp only at hw ⊢
    cases hfree : (indices kMaxSubscriptions.toNat).find?
        fun i => !(device.subscriptions i).active with
    | none =>
      rw [hfree] at hw
      exact absurd hok (refusal_raises hw)
    | some i => exact ⟨i, value, rfl, hfree, rfl⟩

end Device

/-! ### One turn of the loop over the subscriptions -/

/-- A level as the firmware stores it. -/
def levelValue (level : Bool) : Int32 := if level then 1 else 0

/-- The filter of a digital subscription. -/
def passes (flags : UInt8) : Edge → Bool
  | .rising => flags &&& 0x01 != 0 &&
      (flags &&& 0x02 != 0 || (!(flags &&& 0x02 != 0) && !(flags &&& 0x04 != 0)))
  | .falling => flags &&& 0x01 != 0 &&
      (flags &&& 0x04 != 0 || (!(flags &&& 0x02 != 0) && !(flags &&& 0x04 != 0)))

theorem eventDue_unseen {slot : SubscriptionSlot} (hunseen : slot.hasLastValue = false)
    (value : Int32) : eventDue slot value = false := by simp [eventDue, hunseen]

theorem eventDue_level {slot : SubscriptionSlot} {before : Bool}
    (hkind : slot.kind = ResourceKind.digital.toByte) (hseen : slot.hasLastValue = true)
    (hlast : slot.lastValue = levelValue before) (later : Bool) :
    eventDue slot (levelValue later) = (edgeOf before later).any (passes slot.flags) := by
  rw [eventDue, shouldEmit, if_pos hkind, hseen, hlast]
  cases before <;> cases later <;> simp [levelValue, edgeOf, passes]

/-- The frame is an event of this pin. -/
def names (pin : UInt8) (frame : OutboundFrame) : Bool :=
  (edgeEvent (hostPacket (written frame))).any fun e =>
    e.kind = .digital && e.resourceId == pin

theorem names_telemetry (pin : UInt8) (payload : List UInt8) :
    names pin (asyncFrame .telemetry payload) = false := rfl

theorem names_event {slot : SubscriptionSlot} (hkind : slot.kind = ResourceKind.digital.toByte)
    (pin : UInt8) (value : Int32) (micros : UInt32) :
    names pin (asyncFrame .event (eventPayload slot value micros)) = (slot.id == pin) := by
  have hlength : 10 ≤ (eventPayload slot value micros).length := by
    simp [eventPayload, FirmwareCommands.writeI32, FirmwareCommands.writeU32]
  rw [names, edgeEvent, if_pos ⟨rfl, hlength⟩]
  simp [hostPacket, written, asyncFrame, eventPayload, hkind]

section Turn

variable {b : Board} {env : Env} {now : UInt32} {s : State} {i : UInt8} {levels : UInt8 → Bool}

/-- What a turn leaves of a slot: it has the level of its pin now. -/
structure Turned (levels : UInt8 → Bool) (slot next : SubscriptionSlot) : Prop where
  active : next.active = slot.active
  kind : next.kind = slot.kind
  id : next.id = slot.id
  flags : next.flags = slot.flags
  noted : slot.active = true → next.hasLastValue = true ∧
    next.lastValue = levelValue (levels slot.id)

/-- The slot watches a pin of the board. -/
structure Digital (b : Board) (slot : SubscriptionSlot) : Prop where
  kind : slot.kind = ResourceKind.digital.toByte
  valid : isValidDigitalPin b slot.id = true

/-- A turn of this slot queues an event of this pin. -/
def fires (levels : UInt8 → Bool) (pin : UInt8) (slot : SubscriptionSlot) : Bool :=
  slot.active && slot.id == pin && eventDue slot (levelValue (levels slot.id))

/-- What the turns of some slots have done. -/
structure Pass (levels : UInt8 → Bool) (pin : UInt8) (s t : State) (is : List UInt8) : Prop where
  sound : RingSound t
  room : t.outboundCount.toNat ≤ s.outboundCount.toNat + 2 * is.length
  counted : (queued t).countP (names pin) =
    (queued s).countP (names pin) + is.countP fun i => fires levels pin (s.subscriptions i)
  turned : ∀ i ∈ is, Turned levels (s.subscriptions i) (t.subscriptions i)
  others : ∀ i, i ∉ is → t.subscriptions i = s.subscriptions i

theorem noteValue_queued (env : Env) (i : UInt8) (hs : RingSound s)
    (hroom : s.outboundCount.toNat < kAsyncOutboundFrames.toNat) (value : Int32) :
    queued (noteValue env s i value) = queued s ++
      if eventDue (s.subscriptions i) value then
        [asyncFrame .event (eventPayload (s.subscriptions i) value (env.micros i.toNat))]
      else [] := by
  have hfits : (eventPayload (s.subscriptions i) value (env.micros i.toNat)).length ≤
      FirmwareProtocol.kMaxPayloadSize := by
    simp [eventPayload, FirmwareCommands.writeI32, FirmwareCommands.writeU32,
      FirmwareProtocol.kMaxPayloadSize]
  rw [noteValue_eq]
  by_cases hdue : eventDue (s.subscriptions i) value = true
  · rw [if_pos hdue, if_pos hdue]
    exact queueAsync_queued hs hfits hroom
  · rw [if_neg hdue, if_neg hdue]
    exact (List.append_nil _).symm

theorem noteValue_subscriptions (value : Int32) :
    (noteValue env s i value).subscriptions = setAt s.subscriptions i
      { s.subscriptions i with lastValue := value, hasLastValue := true } := by
  rw [noteValue]
  dsimp only
  split_ifs
  · rw [queueAsync_subscriptions]
  · rfl

theorem sendDue_queued (now : UInt32) (i : UInt8) (hs : RingSound s)
    (hroom : s.outboundCount.toNat < kAsyncOutboundFrames.toNat) (pin : UInt8) (value : Int32) :
    ∃ frames, queued (sendDue s now i value) = queued s ++ frames ∧ frames.length ≤ 1 ∧
      frames.countP (names pin) = 0 := by
  rw [sendDue]
  dsimp only
  split_ifs
  · exact ⟨[], (List.append_nil _).symm, by simp, rfl⟩
  · have hfits : (telemetryPayload (s.subscriptions i) value).length ≤
        FirmwareProtocol.kMaxPayloadSize := by
      simp [telemetryPayload, FirmwareCommands.writeI32, FirmwareProtocol.kMaxPayloadSize]
    exact ⟨_, queueAsync_queued hs hfits hroom, le_rfl, by simp [names_telemetry]⟩

theorem sendDue_subscriptions (now : UInt32) (s : State) (i : UInt8) (value : Int32) :
    ∃ due, (sendDue s now i value).subscriptions = setAt s.subscriptions i
      { s.subscriptions i with nextDueMs := due } := by
  rw [sendDue]
  dsimp only
  split_ifs
  · exact ⟨(s.subscriptions i).nextDueMs, (Function.update_eq_self i s.subscriptions).symm⟩
  · refine ⟨now + intervalMs (s.subscriptions i).rateHz, ?_⟩
    rw [queueAsync_subscriptions]

theorem updateSubscription_idle (hidle : (s.subscriptions i).active = false) :
    updateSubscription b env now s i = s := by simp [updateSubscription, hidle]

theorem updateSubscription_level (hactive : (s.subscriptions i).active = true)
    (hdigital : Digital b (s.subscriptions i)) (hlevels : env.digitalRead = fun _ => levels) :
    let value := levelValue (levels (s.subscriptions i).id)
    updateSubscription b env now s i = sendDue (noteValue env s i value) now i value := by
  have hread : FirmwareCommands.readResourceValue b env s i.toNat (s.subscriptions i).kind
      (s.subscriptions i).id = some (levelValue (levels (s.subscriptions i).id)) := by
    rw [FirmwareCommands.readResourceValue, hdigital.kind, ResourceKind.ofByte_toByte, hlevels]
    simp [hdigital.valid, levelValue]
  rw [updateSubscription]
  simp [hactive, hread]

theorem updateSubscription_pass (now : UInt32) (hs : RingSound s)
    (hroom : s.outboundCount.toNat + 2 ≤ kAsyncOutboundFrames.toNat)
    (hdigital : (s.subscriptions i).active = true → Digital b (s.subscriptions i))
    (hlevels : env.digitalRead = fun _ => levels) (pin : UInt8) :
    Pass levels pin s (updateSubscription b env now s i) [i] := by
  cases hactive : (s.subscriptions i).active with
  | false =>
    rw [updateSubscription_idle hactive]
    refine ⟨hs, Nat.le_add_right _ _, ?_, fun j hj => ?_, fun _ _ => rfl⟩
    · simp [fires, hactive]
    · obtain rfl := List.mem_singleton.mp hj
      exact ⟨rfl, rfl, rfl, rfl, fun h => absurd h (by simp [hactive])⟩
  | true =>
    have hd := hdigital hactive
    have hnoted := noteValue_queued env i hs (by omega)
      (levelValue (levels (s.subscriptions i).id))
    have hsound := noteValue_sound env hs i (levelValue (levels (s.subscriptions i).id))
    have hcount := congrArg List.length hnoted
    rw [List.length_append, queued_length, queued_length] at hcount
    rw [updateSubscription_level hactive hd hlevels]
    set value := levelValue (levels (s.subscriptions i).id) with hvalue
    have hone : (if eventDue (s.subscriptions i) value then [asyncFrame .event
        (eventPayload (s.subscriptions i) value (env.micros i.toNat))] else []).length ≤ 1 := by
      split_ifs <;> simp
    obtain ⟨frames, hsent, hfew, hnone⟩ := sendDue_queued now i hsound (by omega) pin value
    have htotal := congrArg List.length hsent
    rw [List.length_append, queued_length, queued_length] at htotal
    obtain ⟨due, hslots⟩ := sendDue_subscriptions now (noteValue env s i value) i value
    rw [noteValue_subscriptions] at hslots
    refine ⟨sendDue_sound hsound now i value, ?_, ?_, fun j hj => ?_, fun j hj => ?_⟩
    · rw [List.length_singleton]
      omega
    · rw [hsent, List.countP_append, hnone, hnoted, List.countP_append, Nat.add_zero]
      congr 1
      rw [List.countP_singleton, fires, hactive, Bool.true_and, ← hvalue]
      by_cases hdue : eventDue (s.subscriptions i) value = true
      · rw [if_pos hdue, List.countP_singleton, names_event hd.kind, hdue, Bool.and_true]
      · simp [hdue]
    · obtain rfl := List.mem_singleton.mp hj
      rw [hslots, setAt_self, setAt_self]
      exact ⟨rfl, rfl, rfl, rfl, fun _ => ⟨rfl, rfl⟩⟩
    · have hne : j ≠ i := fun h => hj (List.mem_singleton.mpr h)
      rw [hslots, setAt_of_ne hne, setAt_of_ne hne]

theorem Pass.trans {pin : UInt8} {t u : State} {is : List UInt8} (hi : i ∉ is)
    (hfirst : Pass levels pin s t [i]) (hrest : Pass levels pin t u is) :
    Pass levels pin s u (i :: is) where
  sound := hrest.sound
  room := by
    have h1 := hfirst.room
    have h2 := hrest.room
    rw [List.length_singleton] at h1
    rw [List.length_cons]
    omega
  counted := by
    have hsame : is.countP (fun j => fires levels pin (t.subscriptions j)) =
        is.countP (fun j => fires levels pin (s.subscriptions j)) := by
      refine List.countP_congr fun j hj => ?_
      rw [hfirst.others j fun h => hi (List.mem_singleton.mp h ▸ hj)]
    rw [hrest.counted, hfirst.counted, hsame, List.countP_singleton, List.countP_cons]
    omega
  turned j hj := by
    rcases List.mem_cons.mp hj with rfl | hj
    · rw [hrest.others j hi]
      exact hfirst.turned j List.mem_cons_self
    · rw [← hfirst.others j fun h => hi (List.mem_singleton.mp h ▸ hj)]
      exact hrest.turned j hj
  others j hj := by
    rw [List.mem_cons, not_or] at hj
    rw [hrest.others j hj.2, hfirst.others j fun h => hj.1 (List.mem_singleton.mp h)]

/-- The loop, on slots that watch pins: every turn finds its slot as it was before the loop. -/
theorem updateSubscriptions_pass (hlevels : env.digitalRead = fun _ => levels) (pin : UInt8)
    {is : List UInt8} (hnodup : is.Nodup) (hs : RingSound s)
    (hroom : s.outboundCount.toNat + 2 * is.length ≤ kAsyncOutboundFrames.toNat)
    (hdigital : ∀ i ∈ is, (s.subscriptions i).active = true → Digital b (s.subscriptions i)) :
    Pass levels pin s (is.foldl (updateSubscription b env now) s) is := by
  induction is generalizing s with
  | nil => exact ⟨hs, le_rfl, rfl, by simp, fun _ _ => rfl⟩
  | cons i is ih =>
    obtain ⟨hi, hnodup⟩ := List.nodup_cons.mp hnodup
    rw [List.length_cons] at hroom
    have hfirst := updateSubscription_pass now hs (by omega)
      (hdigital i List.mem_cons_self) hlevels pin
    have hcount := hfirst.room
    rw [List.length_singleton] at hcount
    refine hfirst.trans hi (ih hnodup hfirst.sound (by omega) fun j hj => ?_)
    rw [hfirst.others j fun h => hi (List.mem_singleton.mp h ▸ hj)]
    exact hdigital j (List.mem_cons_of_mem i hj)

end Turn

/-! ### What a run keeps -/

/-- A slot of the firmware does what the subscription of the run says. -/
structure Mirrors (b : Board) (levels : Option (UInt8 → Bool)) (slot : SubscriptionSlot)
    (w : Watch) : Prop where
  active : slot.active = true
  digital : Digital b slot
  pin : w.pin = some (slot.id.toNat : ℤ)
  reports : passes slot.flags = w.reports
  seen : slot.hasLastValue = w.seen
  noted : w.seen = true → ∃ before, levels = some before ∧
    slot.lastValue = levelValue (before slot.id)

structure Consistent (b : Board) (k : Bench) : Prop where
  ring : RingSound k.device
  empty : k.device.outboundCount = 0
  room : k.watches.length ≤ kMaxSubscriptions.toNat
  mirrors : ∀ place w, k.watches[place]? = some w →
    Mirrors b k.levels (k.device.subscriptions (UInt8.ofNat place)) w
  free : ∀ i : UInt8, k.watches.length ≤ i.toNat → i.toNat < kMaxSubscriptions.toNat →
    (k.device.subscriptions i).active = false
  places : k.host.edgeCallbacks.length = k.registered.length
  callbacks : ∀ (place : ℕ) r, k.registered[place]? = some r → ∃ (pin : ℤ) (callback : ℕ),
    r.pin = some pin ∧ k.host.edgeCallbacks[place]? = some ((ResourceKind.digital, pin), callback)
  backed : ∀ r ∈ k.registered, ∃ w ∈ k.watches, w.pin = r.pin ∧ w.reports = wants r.edge ∧
    w.seen = r.seen

theorem consistent_initial (b : Board) {host : Host} (hhost : host.edgeCallbacks = []) :
    Consistent b { host := host } where
  ring := ringSound_initial
  empty := rfl
  room := Nat.zero_le _
  mirrors := by simp
  free _ _ _ := rfl
  places := by simp [hhost]
  callbacks := by simp
  backed := by simp

section Counting

variable {α : Type}

theorem countP_places {l : List α} {p : ℕ → Bool} {q : α → Bool}
    (h : ∀ j a, l[j]? = some a → p j = q a) : (List.range l.length).countP p = l.countP q := by
  have hmap : (List.range l.length).map p = l.map q := by
    refine List.ext_getElem (by simp) fun j hj hl => ?_
    rw [List.length_map] at hl
    simpa using h j l[j] (List.getElem?_eq_getElem hl)
  have hcount := congrArg (List.countP id) hmap
  rwa [List.countP_map, List.countP_map] at hcount

/-- Only the entry in the place counts. -/
theorem countP_zipIdx (l : List α) (p : α → Bool) (start place : ℕ) :
    (l.zipIdx start).countP (fun c => decide (c.2 = start + place) && p c.1) =
      if l[place]?.any p then 1 else 0 := by
  induction l generalizing start place with
  | nil => rfl
  | cons a l ih =>
    rw [List.zipIdx_cons, List.countP_cons]
    cases place with
    | zero =>
      have hnone :
          (l.zipIdx (start + 1)).countP (fun c => decide (c.2 = start + 0) && p c.1) = 0 := by
        refine List.countP_eq_zero.mpr fun c hc hplace => ?_
        have hge := List.le_snd_of_mem_zipIdx hc
        simp only [Bool.and_eq_true, decide_eq_true_eq] at hplace
        omega
      rw [hnone]
      simp
    | succ place =>
      have hshift : start + (place + 1) = start + 1 + place := by omega
      have hne : start ≠ start + 1 + place := by omega
      rw [hshift, ih]
      simp [hne]

end Counting

section Dispatch

variable {h : Host} {place : ℕ} {pin : UInt8} {callback : ℕ}

/-- The callback in a place is invoked once for each event of its pin. -/
theorem called_countP
    (hplace : h.edgeCallbacks[place]? = some ((.digital, (pin.toNat : ℤ)), callback))
    (event : EdgeEvent) : (called h event).countP (·.2 = place) =
      if event.kind = .digital && event.resourceId == pin then 1 else 0 := by
  have hcount := countP_zipIdx h.edgeCallbacks
    (fun c => decide (c.1 = (event.kind, (event.resourceId.toNat : ℤ)))) 0 place
  rw [hplace, Option.any_some] at hcount
  simp only [Nat.zero_add] at hcount
  have hkey : (ResourceKind.digital, (pin.toNat : ℤ)) =
      (event.kind, (event.resourceId.toNat : ℤ)) ↔
        event.kind = .digital ∧ event.resourceId = pin := by
    rw [Prod.mk.injEq, Nat.cast_inj, UInt8.toNat_inj, eq_comm, eq_comm (a := pin)]
  rw [called, List.countP_filter, hcount]
  simp [hkey]

theorem dispatched_countP
    (hplace : h.edgeCallbacks[place]? = some ((.digital, (pin.toNat : ℤ)), callback))
    (frames : List OutboundFrame) :
    (((frames.map written).filterMap fun w => edgeEvent (hostPacket w)).flatMap
      (called h)).countP (·.2 = place) = frames.countP (names pin) := by
  induction frames with
  | nil => rfl
  | cons frame frames ih =>
    rw [List.map_cons, List.countP_cons, ← ih, List.filterMap_cons]
    cases hevent : edgeEvent (hostPacket (written frame)) with
    | none => simp [names, hevent]
    | some event =>
      rw [List.flatMap_cons, List.countP_append, called_countP hplace, Nat.add_comm]
      simp [names, hevent]

end Dispatch

section Sample

variable {b : Board} {k : Bench} {env : Env} {levels : UInt8 → Bool}

/-- The state behind the loop over the subscriptions. -/
def Bench.noted (b : Board) (k : Bench) (env : Env) (levels : UInt8 → Bool) : State :=
  let env := { env with digitalRead := fun _ => levels }
  updateSubscriptions b env (checkWatchdog env k.device)

theorem queued_empty {s : State} (hempty : s.outboundCount = 0) : queued s = [] := by
  apply List.length_eq_zero_iff.mp
  rw [queued_length, hempty]
  rfl

theorem Consistent.drained (hk : Consistent b k) (env : Env) (levels : UInt8 → Bool) :
    RingSound (k.drained b env levels).1 ∧ (k.drained b env levels).1.outboundCount = 0 := by
  have hsampled : RingSound (k.sampled b env levels).1 := update_sound b _ hk.ring
  refine ⟨flushAsync_sound _ 0 _ hsampled, ?_⟩
  apply flushAsync_empty
  · intro call
    exact le_rfl
  · exact hsampled
  · exact hsampled.count_le

/-- Every frame that the loop has queued is delivered with the sample. -/
theorem Consistent.frames (hk : Consistent b k) (env : Env) (levels : UInt8 → Bool) :
    k.frames b env levels = (queued (k.noted b env levels)).map written := by
  have hsampled := update_sound b { env with digitalRead := fun _ => levels } hk.ring
  have hdrained := flushAsync_queued { env with availableForWrite := fun _ => 65535 } 0
    kAsyncOutboundFrames.toNat hsampled
  have hleft : queued (k.drained b env levels).1 = [] := queued_empty (hk.drained env levels).2
  rw [Bench.drained, Bench.sampled] at hleft
  rw [hleft, List.map_nil, List.append_nil] at hdrained
  rw [Bench.frames, Bench.drained, Bench.sampled, ← hdrained]
  exact (update_queued b _ hk.ring hk.empty).symm

theorem Consistent.pass (hk : Consistent b k) (env : Env) (levels : UInt8 → Bool) (pin : UInt8) :
    Pass levels pin k.device (k.noted b env levels) (indices kMaxSubscriptions.toNat) := by
  have hnodup : (indices kMaxSubscriptions.toNat).Nodup := by decide
  have hroom : k.device.outboundCount.toNat + 2 * (indices kMaxSubscriptions.toNat).length ≤
      kAsyncOutboundFrames.toNat := by
    rw [hk.empty]
    decide
  have hdigital : ∀ i ∈ indices kMaxSubscriptions.toNat,
      (k.device.subscriptions i).active = true → Digital b (k.device.subscriptions i) := by
    intro i hi hactive
    have hlt := (mem_indices (by decide) i).mp hi
    by_cases hused : i.toNat < k.watches.length
    · have hm := hk.mirrors i.toNat _ (List.getElem?_eq_getElem hused)
      rw [UInt8.ofNat_toNat] at hm
      exact hm.digital
    · have hfree := hk.free i (by omega) hlt
      exact absurd (hfree.symm.trans hactive) (by simp)
  -- the check of the watchdog touches neither the ring nor the subscriptions
  have hpass : Pass levels pin (checkWatchdog { env with digitalRead := fun _ => levels } k.device)
      (k.noted b env levels) (indices kMaxSubscriptions.toNat) :=
    updateSubscriptions_pass rfl pin hnodup hk.ring hroom hdigital
  exact ⟨hpass.sound, hpass.room, hpass.counted, hpass.turned, hpass.others⟩

theorem Mirrors.fires {slot : SubscriptionSlot} {w : Watch} (hm : Mirrors b k.levels slot w)
    (levels : UInt8 → Bool) (pin : UInt8) :
    fires levels pin slot =
      (w.seen && w.pin = some (pin.toNat : ℤ) && (k.transition levels pin).any w.reports) := by
  have hpin : (slot.id == pin) = decide (w.pin = some (pin.toNat : ℤ)) := by
    rw [beq_eq_decide, hm.pin]
    exact decide_eq_decide.mpr (by rw [Option.some_inj, Nat.cast_inj, UInt8.toNat_inj])
  rw [EdgeCallbacks.fires, hm.active, hpin]
  cases hseen : w.seen with
  | false =>
    rw [eventDue_unseen (hm.seen.trans hseen)]
    simp
  | true =>
    obtain ⟨before, hlevels, hlast⟩ := hm.noted hseen
    rw [eventDue_level hm.digital.kind (hm.seen.trans hseen) hlast, hm.reports]
    by_cases hsame : slot.id = pin
    · subst hsame
      simp [Bench.transition, hlevels]
    · have hother : decide (w.pin = some (pin.toNat : ℤ)) = false := by
        rw [← hpin]
        exact beq_eq_false_iff_ne.mpr hsame
      simp [hother]

theorem Consistent.counted (hk : Consistent b k) (env : Env) (levels : UInt8 → Bool)
    (pin : UInt8) : (queued (k.noted b env levels)).countP (names pin) =
      k.watches.countP fun w =>
        w.seen && w.pin = some (pin.toNat : ℤ) && (k.transition levels pin).any w.reports := by
  have hsplit : kMaxSubscriptions.toNat =
      k.watches.length + (kMaxSubscriptions.toNat - k.watches.length) := by
    have := hk.room
    omega
  rw [(hk.pass env levels pin).counted, queued_empty hk.empty, List.countP_nil, Nat.zero_add,
    indices, List.countP_map, hsplit, List.range_add, List.countP_append, List.countP_map]
  have hrest : (List.range (kMaxSubscriptions.toNat - k.watches.length)).countP
      (((fun i => EdgeCallbacks.fires levels pin (k.device.subscriptions i)) ∘ UInt8.ofNat) ∘
        (k.watches.length + ·)) = 0 := by
    refine List.countP_eq_zero.mpr fun j hj => ?_
    have hlt := List.mem_range.mp hj
    have hle : kMaxSubscriptions.toNat = 16 := rfl
    have hplace : (UInt8.ofNat (k.watches.length + j)).toNat = k.watches.length + j := by
      rw [UInt8.toNat_ofNat']
      omega
    have hfree := hk.free (UInt8.ofNat (k.watches.length + j)) (by omega) (by omega)
    dsimp only [Function.comp, EdgeCallbacks.fires]
    rw [hfree]
    exact Bool.false_ne_true
  rw [hrest, Nat.add_zero]
  exact countP_places fun j w hw => (hk.mirrors j w hw).fires levels pin

/-- A callback is invoked once for each subscription that reports the transition of its pin. -/
theorem Consistent.invocations (hk : Consistent b k) (env : Env) (levels : UInt8 → Bool)
    {place : ℕ} {r : Registration} {pin : UInt8} (hr : k.registered[place]? = some r)
    (hpin : r.pin = some (pin.toNat : ℤ)) :
    k.invocations b env levels place =
      match k.transition levels pin with
      | none => 0
      | some edge => reporting k pin edge := by
  obtain ⟨number, callback, hnumber, hplace⟩ := hk.callbacks place r hr
  obtain rfl : (pin.toNat : ℤ) = number := Option.some.inj (hpin.symm.trans hnumber)
  rw [Bench.invocations, Bench.events, hk.frames, dispatched_countP hplace, hk.counted]
  cases k.transition levels pin with
  | none => simp
  | some edge => simp [reporting]

/-- A callback in place at the last sample has its own subscription. -/
theorem Consistent.reporting_pos (hk : Consistent b k) {r : Registration} (hr : r ∈ k.registered)
    {pin : UInt8} (hpin : r.pin = some (pin.toNat : ℤ)) (hseen : r.seen = true) {edge : Edge}
    (hwants : wants r.edge edge = true) : 0 < reporting k pin edge := by
  obtain ⟨w, hw, hwpin, hreports, hwseen⟩ := hk.backed r hr
  refine List.countP_pos_iff.mpr ⟨w, hw, ?_⟩
  simp [hwseen, hseen, hwpin, hpin, hreports, hwants]

theorem Consistent.matched_iff (hk : Consistent b k) (env : Env) (levels : UInt8 → Bool) :
    Matched b k (.sample env levels) ↔ Single k (.sample env levels) := by
  constructor
  · intro hm r hr pin hpin edge hedge
    obtain ⟨place, hplace, hget⟩ := List.getElem_of_mem hr
    have hr' : k.registered[place]? = some r := List.getElem?_eq_some_iff.mpr ⟨hplace, hget⟩
    have hcalls := hm place r pin hr' hpin
    dsimp only at hcalls
    rw [hk.invocations env levels hr' hpin, hedge] at hcalls
    dsimp only at hcalls
    split_ifs at hcalls ⊢
    · exact hcalls.1
    · exact hcalls.le
  · intro hs place r pin hr hpin
    have hmem := List.mem_of_getElem? hr
    dsimp only
    rw [hk.invocations env levels hr hpin]
    cases hedge : k.transition levels pin with
    | none => rfl
    | some edge =>
      have hle := hs r hmem pin hpin edge hedge
      dsimp only
      split_ifs at hle ⊢ with hwants
      · refine ⟨hle, fun hseen => ?_⟩
        have hpos := hk.reporting_pos hmem hpin hseen hwants
        omega
      · exact Nat.le_zero.mp hle

theorem Consistent.sampled_subscriptions (hk : Consistent b k) (env : Env)
    (levels : UInt8 → Bool) :
    (k.drained b env levels).1.subscriptions = (k.noted b env levels).subscriptions := by
  rw [Bench.drained, flushAsync_subscriptions, Bench.sampled, update_empty b _ hk.empty,
    flushAsync_subscriptions]
  rfl

theorem Mirrors.turned {slot next : SubscriptionSlot} {w : Watch} {before : Option (UInt8 → Bool)}
    (hm : Mirrors b before slot w) (ht : Turned levels slot next) :
    Mirrors b (some levels) next { w with seen := true } where
  active := ht.active.trans hm.active
  digital := ⟨ht.kind.trans hm.digital.kind, by rw [ht.id]; exact hm.digital.valid⟩
  pin := by rw [ht.id]; exact hm.pin
  reports := by rw [ht.flags]; exact hm.reports
  seen := (ht.noted hm.active).1
  noted _ := ⟨levels, rfl, by rw [ht.id]; exact (ht.noted hm.active).2⟩

theorem Consistent.sample (hk : Consistent b k) (env : Env) (levels : UInt8 → Bool) :
    Consistent b (k.step b (.sample env levels)) := by
  have hturned : ∀ i : UInt8, i.toNat < kMaxSubscriptions.toNat →
      Turned levels (k.device.subscriptions i)
        ((k.drained b env levels).1.subscriptions i) := by
    intro i hi
    rw [hk.sampled_subscriptions]
    exact (hk.pass env levels 0).turned i ((mem_indices (by decide) i).mpr hi)
  obtain ⟨hring, hempty⟩ := hk.drained env levels
  rw [Bench.step]
  generalize (k.drained b env levels).1 = next at hturned hring hempty
  constructor
  case ring => exact hring
  case empty => exact hempty
  case room => simpa using hk.room
  case mirrors =>
    intro place w hw
    obtain ⟨v, hv, rfl⟩ := Option.map_eq_some_iff.mp ((List.getElem?_map ..).symm.trans hw)
    have hplace := (List.getElem?_eq_some_iff.mp hv).1
    have hroom := hk.room
    have hsmall : kMaxSubscriptions.toNat = 16 := rfl
    refine (hk.mirrors place v hv).turned (hturned _ ?_)
    rw [UInt8.toNat_ofNat']
    omega
  case free =>
    intro i hi hlt
    have hlow : k.watches.length ≤ i.toNat := by simpa using hi
    exact (hturned i hlt).active.trans (hk.free i hlow hlt)
  case places => simpa using hk.places
  case callbacks =>
    intro place r hr
    obtain ⟨q, hq, rfl⟩ := Option.map_eq_some_iff.mp ((List.getElem?_map ..).symm.trans hr)
    exact hk.callbacks place q hq
  case backed =>
    intro r hr
    obtain ⟨q, hq, rfl⟩ := List.mem_map.mp hr
    obtain ⟨w, hw, hpin, hreports, -⟩ := hk.backed q hq
    exact ⟨_, List.mem_map_of_mem hw, hpin, hreports, rfl⟩

end Sample

section Subscribing

variable {b : Board} {k : Bench} {env : Env}

/-- The first free slot is the one behind those in use. -/
theorem Consistent.firstFree_eq (hk : Consistent b k) {i : UInt8}
    (hfree : firstFree k.device = some i) :
    k.watches.length < kMaxSubscriptions.toNat ∧ i.toNat = k.watches.length := by
  have hsmall : kMaxSubscriptions.toNat = 16 := rfl
  obtain ⟨hinactive, place, hplace, hget, hbusy⟩ := List.find?_eq_some_iff_getElem.mp hfree
  have hlength : (indices kMaxSubscriptions.toNat).length = kMaxSubscriptions.toNat := by decide
  have hnth : ∀ j (hj : j < (indices kMaxSubscriptions.toNat).length),
      (indices kMaxSubscriptions.toNat)[j] = UInt8.ofNat j := fun j hj => by simp [indices]
  have hi : i.toNat = place := by
    rw [← hget, hnth place hplace, UInt8.toNat_ofNat']
    omega
  have hge : k.watches.length ≤ i.toNat := by
    by_contra hlt
    have hm := hk.mirrors i.toNat _ (List.getElem?_eq_getElem (Nat.lt_of_not_le hlt))
    rw [UInt8.ofNat_toNat] at hm
    simp [hm.active] at hinactive
  refine ⟨by omega, Nat.le_antisymm ?_ hge⟩
  by_contra hgt
  have hactive := hbusy k.watches.length (by omega)
  rw [hnth _ (by omega)] at hactive
  have hlow : (UInt8.ofNat k.watches.length).toNat = k.watches.length := by
    rw [UInt8.toNat_ofNat']
    omega
  have hidle := hk.free (UInt8.ofNat k.watches.length) hlow.ge (by omega)
  simp [hidle] at hactive

/-- The firmware has put a digital subscription into its first free slot. -/
structure Placed (b : Board) (env : Env) (s s' : State) (pin flags : UInt8) : Prop where
  valid : isValidDigitalPin b pin = true
  stored : ∃ i rateHz, firstFree s = some i ∧
    s' = { s with
      subscriptions := setAt s.subscriptions i
        (slotFor env (s.subscriptions i) ResourceKind.digital.toByte pin rateHz flags) }

theorem Consistent.placed (hk : Consistent b k) {s' : State} {pin flags : UInt8} {w : Watch}
    (hplaced : Placed b env k.device s' pin flags) (hpin : w.pin = some (pin.toNat : ℤ))
    (hreports : passes flags = w.reports) (hseen : w.seen = false) :
    Consistent b { k with device := s', watches := k.watches ++ [w] } := by
  obtain ⟨i, rateHz, hfree, rfl⟩ := hplaced.stored
  obtain ⟨hroom, hi⟩ := hk.firstFree_eq hfree
  have hlast : UInt8.ofNat k.watches.length = i := by rw [← hi, UInt8.ofNat_toNat]
  have hsmall : kMaxSubscriptions.toNat = 16 := rfl
  constructor
  case ring => exact hk.ring
  case empty => exact hk.empty
  case room =>
    rw [List.length_append, List.length_singleton]
    exact hroom
  case mirrors =>
    intro place v hv
    by_cases hold : place < k.watches.length
    · have hne : UInt8.ofNat place ≠ i := by
        intro hsame
        rw [← hsame, UInt8.toNat_ofNat'] at hi
        omega
      rw [List.getElem?_append_left hold] at hv
      dsimp only
      rw [setAt_of_ne hne]
      exact hk.mirrors place v hv
    · have hplace : place < (k.watches ++ [w]).length := (List.getElem?_eq_some_iff.mp hv).1
      rw [List.length_append, List.length_singleton] at hplace
      obtain rfl : place = k.watches.length := by omega
      obtain rfl : w = v := by simpa using hv
      dsimp only
      rw [hlast, setAt_self]
      refine ⟨rfl, ⟨rfl, hplaced.valid⟩, hpin, hreports, hseen.symm, fun h => ?_⟩
      exact absurd (hseen.symm.trans h) (by simp)
  case free =>
    intro j hj hlt
    rw [List.length_append, List.length_singleton] at hj
    have hne : j ≠ i := by
      rintro rfl
      omega
    dsimp only
    rw [setAt_of_ne hne]
    exact hk.free j (by omega) hlt
  case places => exact hk.places
  case callbacks => exact hk.callbacks
  case backed =>
    intro r hr
    obtain ⟨v, hv, hbacks⟩ := hk.backed r hr
    exact ⟨v, List.mem_append_left _ hv, hbacks⟩

theorem Consistent.rehost (hk : Consistent b k) {h' : Host}
    (hcallbacks : h'.edgeCallbacks = k.host.edgeCallbacks) :
    Consistent b { k with host := h' } where
  ring := hk.ring
  empty := hk.empty
  room := hk.room
  mirrors := hk.mirrors
  free := hk.free
  places := by rw [hcallbacks, hk.places]
  callbacks := by rw [hcallbacks]; exact hk.callbacks
  backed := hk.backed

theorem Consistent.register (hk : Consistent b k) {h' : Host} {r : Registration} {pin : ℤ}
    {callback : ℕ} (hpin : r.pin = some pin)
    (hcallbacks : h'.edgeCallbacks = k.host.edgeCallbacks ++ [((.digital, pin), callback)])
    (hbacked : ∃ w ∈ k.watches, w.pin = r.pin ∧ w.reports = wants r.edge ∧ w.seen = r.seen) :
    Consistent b { k with host := h', registered := k.registered ++ [r] } where
  ring := hk.ring
  empty := hk.empty
  room := hk.room
  mirrors := hk.mirrors
  free := hk.free
  places := by simp [hcallbacks, hk.places]
  callbacks place q hq := by
    rw [hcallbacks]
    by_cases hold : place < k.registered.length
    · rw [List.getElem?_append_left hold] at hq
      rw [List.getElem?_append_left (hk.places.symm ▸ hold)]
      exact hk.callbacks place q hq
    · have hplace : place < (k.registered ++ [r]).length := (List.getElem?_eq_some_iff.mp hq).1
      rw [List.length_append, List.length_singleton] at hplace
      obtain rfl : place = k.registered.length := by omega
      obtain rfl : r = q := by simpa using hq
      exact ⟨pin, callback, hpin, by simp [← hk.places]⟩
  backed q hq := by
    rcases List.mem_append.mp hq with hq | hq
    · exact hk.backed q hq
    · obtain rfl := List.mem_singleton.mp hq
      exact hbacked

theorem edgeFlags_cases {edge : String} {wanted : ℕ} (h : edgeFlags edge = some wanted) :
    (edge = "rising" ∧ wanted = 0x02) ∨ (edge = "falling" ∧ wanted = 0x04) ∨
      (edge = "both" ∧ wanted = 0x06) := by
  obtain ⟨before, behind, htable, -⟩ := List.lookup_eq_some_iff.mp h
  have hentry : (edge, wanted) ∈ [("rising", 0x02), ("falling", 0x04), ("both", 0x06)] := by
    rw [htable]
    exact List.mem_append_right _ List.mem_cons_self
  simpa using hentry

/-- The firmware's filter passes the edges that the flags were made for. -/
theorem edgeFlags_passes {edge : String} {wanted : ℕ} {flags : UInt8}
    (hwanted : edgeFlags edge = some wanted) (hflags : flags.toNat = 0x01 ||| wanted) :
    passes flags = wants edge := by
  have hbyte : flags = UInt8.ofNat (0x01 ||| wanted) := by rw [← hflags, UInt8.ofNat_toNat]
  rcases edgeFlags_cases hwanted with ⟨rfl, rfl⟩ | ⟨rfl, rfl⟩ | ⟨rfl, rfl⟩
  · subst hbyte
    funext e
    cases e <;> rfl
  · subst hbyte
    funext e
    cases e <;> rfl
  · subst hbyte
    funext e
    cases e <;> rfl

theorem call_sends (b : Board) (k : Bench) (env : Env) (op : Operation) :
    Sends k.host (Meant k.host op) (k.call b env op) :=
  runOperation_sends _ k.host op

theorem call_onEdge_returns {name edge : String} {callback : ℕ}
    (hok : (k.call b env (.onEdge name edge callback)).1 = .ok ()) :
    ∃ pin, k.pinOf name = some pin ∧ Returns (respond b env k.device) k.host
      (k.call b env (.onEdge name edge callback)).2 [((.digital, pin), callback)] :=
  onEdge_returns (outcome_ok hok)

theorem call_subscribe_returns {name : String} {rateHz : Option ℚ} {onChange : Bool}
    (hok : (k.call b env (.subscribe name rateHz onChange)).1 = .ok ()) :
    Returns (respond b env k.device) k.host (k.call b env (.subscribe name rateHz onChange)).2 [] :=
  subscribe_returns (outcome_ok hok)

/-- What a call has made the firmware do, once it has returned. -/
theorem placed_of_sends {op : Operation} (P : UInt8 → UInt8 → Prop)
    (hsends : Sends k.host (Meant k.host op) (k.call b env op))
    (hreply : ∃ reply, respond b env k.device (k.call b env op).2.log = .ok reply)
    (hmeant : ∀ r, Meant k.host op r → ∃ pin rateHz flags,
      r = .subscribe ResourceKind.digital.toByte pin rateHz flags ∧ P pin flags)
    (hok : (k.call b env op).1 = .ok ()) :
    ∃ pin flags, P pin flags ∧ Placed b env k.device (k.called b env op).device pin flags := by
  rcases hsends with ⟨⟨error, herror⟩, -⟩ | ⟨id, bytes, r, hlog, hsize, hl, hm⟩
  · exact absurd (herror.symm.trans hok) (by simp)
  · obtain ⟨reply, hreply⟩ := hreply
    obtain ⟨pin, rateHz, flags, rfl, hp⟩ := hmeant r hm
    have hlonger : k.host.log.length < (k.call b env op).2.log.length := by simp [hlog]
    have hhandled := handled_laid b env k.device k.host.log hsize hl
    rw [← hlog] at hhandled
    rw [respond] at hreply
    split at hreply
    · cases hreply
    · rename_i w rest hframes
      rw [hhandled] at hframes
      obtain ⟨i, value, hvalue, hfree, hstored⟩ :=
        subscribe_acked b env k.device (by rw [hframes]; exact List.mem_cons_self) hreply
      refine ⟨pin, flags, hp, ?_, i, rateHz, hfree, ?_⟩
      · rw [FirmwareCommands.readResourceValue, ResourceKind.ofByte_toByte] at hvalue
        by_contra hinvalid
        simp [hinvalid] at hvalue
      · rw [Bench.called]
        dsimp only
        rw [if_pos hlonger, hhandled, hstored]

theorem onEdge_meant {name edge : String} {callback : ℕ} {r : Request}
    (hm : Meant k.host (.onEdge name edge callback) r) : ∃ pin rateHz flags,
      r = .subscribe ResourceKind.digital.toByte pin rateHz flags ∧
        k.pinOf name = some (pin.toNat : ℤ) ∧ passes flags = wants edge := by
  cases hm with
  | onEdge hpin hwanted hflags => exact ⟨_, _, _, rfl, hpin, edgeFlags_passes hwanted hflags⟩

theorem subscribe_meant {name : String} {rateHz : Option ℚ} {onChange : Bool} {r : Request}
    (hdigital : (k.pinOf name).isSome = true)
    (hm : Meant k.host (.subscribe name rateHz onChange) r) : ∃ pin rateHz flags,
      r = .subscribe ResourceKind.digital.toByte pin rateHz flags ∧
        k.pinOf name = some (pin.toNat : ℤ) ∧ passes flags = fun _ => onChange := by
  obtain ⟨number, hnumber⟩ := Option.isSome_iff_exists.mp hdigital
  cases hm with
  | @subscribe name hertz onChange kind id rate href hrate =>
    rw [Bench.pinOf] at hnumber
    simp only [resourceRef, hnumber, Except.ok.injEq, Prod.mk.injEq] at href
    obtain ⟨rfl, rfl⟩ := href
    refine ⟨id, rate, _, rfl, hnumber, ?_⟩
    funext e
    cases onChange <;> cases e <;> rfl

end Subscribing

theorem Consistent.step {b : Board} {k : Bench} (hk : Consistent b k) {i : Input}
    (hack : Acknowledged b k i) : Consistent b (k.step b i) := by
  cases i with
  | onEdge name edge callback env =>
    obtain ⟨-, hok⟩ := hack
    obtain ⟨pin, hpin, hreturns⟩ := call_onEdge_returns hok
    obtain ⟨byte, flags, ⟨hbyte, hreports⟩, hplaced⟩ := placed_of_sends
      (fun pin flags => k.pinOf name = some (pin.toNat : ℤ) ∧ passes flags = wants edge)
      (call_sends b k env _) hreturns.answered (fun r => onEdge_meant) hok
    have hwatch := hk.placed (w := { pin := k.pinOf name, reports := wants edge }) hplaced hbyte
      hreports rfl
    exact hwatch.register (r := { pin := k.pinOf name, edge := edge }) hpin
      hreturns.edgeCallbacks ⟨_, List.mem_append_right _ List.mem_cons_self, rfl, rfl, rfl⟩
  | subscribe name rateHz onChange env =>
    obtain ⟨hdigital, hok⟩ := hack
    have hreturns := call_subscribe_returns hok
    obtain ⟨byte, flags, ⟨hbyte, hreports⟩, hplaced⟩ := placed_of_sends
      (fun pin flags => k.pinOf name = some (pin.toNat : ℤ) ∧ passes flags = fun _ => onChange)
      (call_sends b k env _) hreturns.answered (fun r => subscribe_meant hdigital) hok
    have hwatch := hk.placed (w := { pin := k.pinOf name, reports := fun _ => onChange }) hplaced
      hbyte hreports rfl
    exact hwatch.rehost (hreturns.edgeCallbacks.trans (List.append_nil _))
  | sample env levels => exact hk.sample env levels

/-! ### Runs -/

/-- Along every run from boot whose calls are acknowledged, whatever the pins of the host are:
all callbacks match their edges exactly if every transition is reported once. -/
theorem edges_iff (b : Board) {host : Host} (hhost : host.edgeCallbacks = [])
    (inputs : List Input)
    (hack : EachStep (Bench.step b) (Acknowledged b) { host := host } inputs) :
    EachStep (Bench.step b) (Matched b) { host := host } inputs ↔
      EachStep (Bench.step b) Single { host := host } inputs := by
  refine eachStep_congr (I := Consistent b) (fun k i hi hk => hk.step hi) ?_
    (consistent_initial b hhost) hack
  intro k i _ hk
  cases i with
  | onEdge name edge callback env => exact Iff.rfl
  | subscribe name rateHz onChange env => exact Iff.rfl
  | sample env levels => exact hk.matched_iff env levels

/-- Everything is connected to pin 5. -/
def buttonHost : Host := { pins := fun _ => ⟨some 5⟩ }

/-- A sample with all pins at one level. -/
def sampleAll (level : Bool) : Input := .sample (FirmwareDevice.envAt 0) fun _ => level

def pressed : List Input :=
  [.onEdge "button" "rising" 1 (FirmwareDevice.envAt 0), sampleAll false, sampleAll true]

/-- The callback of the only registration is invoked for the press. -/
theorem pressed_matched : EachStep (Bench.step FirmwareDevice.sampleBoard)
    (Matched FirmwareDevice.sampleBoard) { host := buttonHost } pressed := by
  refine (edges_iff FirmwareDevice.sampleBoard rfl pressed ?_).mpr ?_
  · exact ⟨⟨rfl, by decide +kernel⟩, trivial, trivial, trivial⟩
  · refine ⟨trivial, fun r _ pin _ edge hedge => ?_, fun r hr pin _ edge hedge => ?_, trivial⟩
    · cases hedge
    · obtain rfl := List.mem_singleton.mp hr
      obtain rfl : Edge.rising = edge := Option.some.inj hedge
      exact List.countP_le_length

/-- Two callbacks for opposite edges of a pin: the one for falling edges is invoked when the pin
rises. -/
theorem opposite_edges_cross :
    let inputs := [.onEdge "button" "rising" 1 (FirmwareDevice.envAt 0),
      .onEdge "button" "falling" 2 (FirmwareDevice.envAt 0), sampleAll false, sampleAll true]
    EachStep (Bench.step FirmwareDevice.sampleBoard) (Acknowledged FirmwareDevice.sampleBoard)
        { host := buttonHost } inputs ∧
      ¬ EachStep (Bench.step FirmwareDevice.sampleBoard) (Matched FirmwareDevice.sampleBoard)
        { host := buttonHost } inputs := by
  refine ⟨⟨⟨rfl, by decide +kernel⟩, ⟨rfl, by decide +kernel⟩, trivial, trivial, trivial⟩, ?_⟩
  rintro ⟨-, -, -, hpress, -⟩
  have hcalls : Bench.invocations _ _ _ _ 1 = 0 := hpress 1 ⟨some 5, "falling", true⟩ 5 rfl rfl
  exact absurd hcalls (by decide +kernel)

end EdgeCallbacks
