import TeensyIo.FirmwareCommands

/-! # Between commands

`CommandHandler::update`, the ring of frames it sends and the interrupt handlers. -/
namespace FirmwareUpdate

open WireCommands FirmwareState FirmwareCommands
open FirmwareProtocol (Packet PacketWriter.encodedSize kMaxPayloadSize)

/-! ### The ring of asynchronous frames -/

/-- The position after `i` in the ring. -/
def advance (i : UInt8) : UInt8 := (i + 1) % kAsyncOutboundFrames

/-- Taking the oldest frame out of the ring. -/
def popOldest (s : State) : State :=
  { s with
    outbound := setAt s.outbound s.outboundHead {}
    outboundHead := advance s.outboundHead
    outboundCount := s.outboundCount - 1 }

/-- A full ring gives up its oldest frame. -/
def dropOldest (s : State) : State :=
  { popOldest s with outboundDropped := s.outboundDropped + 1 }

def queueAsync (s : State) (type : PacketType) (payload : List UInt8) : State :=
  if payload.length > kMaxPayloadSize then s
  else
    let s := if s.outboundCount ≥ kAsyncOutboundFrames then dropOldest s else s
    let frame : OutboundFrame := { active := true, type := type, seq := 0, payload := payload }
    { s with
      outbound := setAt s.outbound s.outboundTail frame
      outboundTail := advance s.outboundTail
      outboundCount := s.outboundCount + 1 }

/-- `call` numbers the questions about the space in the serial buffer. -/
def flushAsync (env : Env) : ℕ → ℕ → State → Outcome
  | _, 0, s => (s, [])
  | call, maxFrames + 1, s =>
    if s.outboundCount = 0 then (s, [])
    else
      let frame := s.outbound s.outboundHead
      let encodedSize := PacketWriter.encodedSize (UInt16.ofNat frame.payload.length)
      if env.availableForWrite call < encodedSize.toNat then (s, [])
      else
        let later := flushAsync env (call + 1) maxFrames (popOldest s)
        (later.1, .write frame.type frame.seq frame.payload :: later.2)

/-! ### Subscriptions -/

def shouldEmit (slot : SubscriptionSlot) (value : Int32) : Bool :=
  if slot.kind = ResourceKind.digital.toByte then
    let rising := slot.lastValue == 0 && value != 0
    let falling := slot.lastValue != 0 && value == 0
    let wantsRising := slot.flags &&& 0x02 != 0
    let wantsFalling := slot.flags &&& 0x04 != 0
    (rising && wantsRising) || (falling && wantsFalling) || (!wantsRising && !wantsFalling)
  else true

def eventPayload (slot : SubscriptionSlot) (value : Int32) (micros : UInt32) : List UInt8 :=
  [slot.kind, slot.id] ++ writeI32 value ++ writeU32 micros

def telemetryPayload (slot : SubscriptionSlot) (value : Int32) : List UInt8 :=
  [slot.kind, slot.id] ++ writeI32 value

/-- The first half of a turn: an event where the value has changed, then the new value. -/
def noteValue (env : Env) (s : State) (i : UInt8) (value : Int32) : State :=
  let slot := s.subscriptions i
  let onChange := slot.flags &&& 0x01 != 0
  let s :=
    if onChange && slot.hasLastValue && value != slot.lastValue && shouldEmit slot value then
      queueAsync s .event (eventPayload slot value (env.micros i.toNat))
    else s
  { s with
    subscriptions :=
      setAt s.subscriptions i { slot with lastValue := value, hasLastValue := true } }

/-- The pause between two telemetry frames, at least a millisecond. -/
def intervalMs (rateHz : UInt16) : UInt32 :=
  if 1000 / rateHz.toUInt32 = 0 then 1 else 1000 / rateHz.toUInt32

/-- The second half: telemetry where it is due. -/
def sendDue (s : State) (now : UInt32) (i : UInt8) (value : Int32) : State :=
  let slot := s.subscriptions i
  if slot.rateHz = 0 ∨ now < slot.nextDueMs then s
  else
    let s := queueAsync s .telemetry (telemetryPayload slot value)
    let due := now + intervalMs slot.rateHz
    { s with subscriptions := setAt s.subscriptions i { slot with nextDueMs := due } }

/-- One turn of the loop over the subscriptions. -/
def updateSubscription (b : Board) (env : Env) (now : UInt32) (s : State) (i : UInt8) : State :=
  let slot := s.subscriptions i
  if !slot.active then s
  else
    match readResourceValue b env s i.toNat slot.kind slot.id with
    | none => { s with subscriptions := setAt s.subscriptions i {} }
    | some value => sendDue (noteValue env s i value) now i value

def updateSubscriptions (b : Board) (env : Env) (s : State) : State :=
  (indices kMaxSubscriptions.toNat).foldl (updateSubscription b env (env.millis 1)) s

/-- `safety_.update()`. -/
def checkWatchdog (env : Env) (s : State) : State :=
  { s with safety := s.safety.update (env.millis 0) }

/-- Outputs are driven to zero only when the watchdog has just taken the permission away. -/
def safeOutputsOnExpiry (b : Board) (env : Env) (s : State) : List Effect :=
  let allowedBefore := s.safety.outputsAllowed
  let s := checkWatchdog env s
  if allowedBefore && !s.safety.outputsAllowed then applySafeOutputs b s else []

def update (b : Board) (env : Env) (s : State) : Outcome :=
  let first := flushAsync env 0 8 (checkWatchdog env s)
  let second := flushAsync env 8 8 (updateSubscriptions b env first.1)
  (second.1, safeOutputsOnExpiry b env s ++ (first.2 ++ second.2))

/-! ### Interrupts -/

def encoderDelta (previous current : UInt8) : Int32 :=
  [0, -1, 1, 0, 1, 0, 0, -1, -1, 0, 0, 1, 0, 1, -1, 0].getD
    (((previous &&& 0x03) <<< 2) ||| (current &&& 0x03)).toNat 0

def counterTick (env : Env) (s : State) (id : UInt8) : State :=
  let slot := s.counters id
  if id ≥ kMaxCounters || !slot.active then s
  else
    let now := env.micros 0
    let periodUs := if slot.lastEdgeUs ≠ 0 then now - slot.lastEdgeUs else slot.periodUs
    { s with
      counters := setAt s.counters id
        { slot with count := slot.count + 1, periodUs := periodUs, lastEdgeUs := now } }

def encoderTick (env : Env) (s : State) (id : UInt8) : State :=
  let slot := s.encoders id
  if id ≥ kMaxEncoders || !slot.active then s
  else
    let current := encoderState env slot.pinA slot.pinB
    { s with
      encoders := setAt s.encoders id
        { slot with
          position := slot.position + encoderDelta slot.lastState current
          lastState := current } }

/-! ### What an update leaves alone -/

/-- Nothing but the subscriptions and the ring has changed. -/
structure Undisturbed (s s' : State) : Prop where
  safety : s'.safety = s.safety
  pwmConfigured : s'.pwmConfigured = s.pwmConfigured
  analogConfigured : s'.analogConfigured = s.analogConfigured
  analogSamples : s'.analogSamples = s.analogSamples
  i2cConfigured : s'.i2cConfigured = s.i2cConfigured
  dacs : s'.dacs = s.dacs
  counters : s'.counters = s.counters
  encoders : s'.encoders = s.encoders

theorem Undisturbed.refl (s : State) : Undisturbed s s := ⟨rfl, rfl, rfl, rfl, rfl, rfl, rfl, rfl⟩

theorem Undisturbed.trans {s t u : State} (h : Undisturbed s t) (k : Undisturbed t u) :
    Undisturbed s u where
  safety := k.safety.trans h.safety
  pwmConfigured := k.pwmConfigured.trans h.pwmConfigured
  analogConfigured := k.analogConfigured.trans h.analogConfigured
  analogSamples := k.analogSamples.trans h.analogSamples
  i2cConfigured := k.i2cConfigured.trans h.i2cConfigured
  dacs := k.dacs.trans h.dacs
  counters := k.counters.trans h.counters
  encoders := k.encoders.trans h.encoders

theorem Undisturbed.subscriptions {s t : State} (h : Undisturbed s t)
    (slots : UInt8 → SubscriptionSlot) : Undisturbed s { t with subscriptions := slots } :=
  .trans h (.mk rfl rfl rfl rfl rfl rfl rfl rfl)

/-- Every frame in the ring is one the firmware sends of its own accord. -/
structure AsyncFrame (f : OutboundFrame) : Prop where
  type_ok : f.type = .event ∨ f.type = .telemetry
  seq_zero : f.seq = 0
  fits : f.payload.length ≤ kMaxPayloadSize

def AsyncRing (s : State) : Prop := ∀ i, AsyncFrame (s.outbound i)

theorem asyncRing_subscriptions {s : State} (h : AsyncRing s)
    (slots : UInt8 → SubscriptionSlot) : AsyncRing { s with subscriptions := slots } := h

/-- A frame sent by `update`. -/
inductive AsyncWrite : Effect → Prop where
  | frame {f : OutboundFrame} : AsyncFrame f → AsyncWrite (.write f.type f.seq f.payload)

theorem asyncFrame_empty : AsyncFrame {} := ⟨Or.inr rfl, rfl, by simp⟩

theorem asyncRing_setAt {s : State} (h : AsyncRing s) (i : UInt8) {f : OutboundFrame}
    (hf : AsyncFrame f) : ∀ j, AsyncFrame (setAt s.outbound i f j) := by
  intro j
  by_cases hj : j = i
  · rw [hj, setAt_self]
    exact hf
  · rw [setAt_of_ne hj]
    exact h j

theorem popOldest_ring {s : State} (h : AsyncRing s) : AsyncRing (popOldest s) :=
  asyncRing_setAt h _ asyncFrame_empty

theorem queueAsync_undisturbed (s : State) (type : PacketType) (payload : List UInt8) :
    Undisturbed s (queueAsync s type payload) := by
  dsimp only [queueAsync]
  split_ifs
  · exact .refl s
  · exact .mk rfl rfl rfl rfl rfl rfl rfl rfl
  · exact .mk rfl rfl rfl rfl rfl rfl rfl rfl

theorem queueAsync_ring {s : State} (h : AsyncRing s) {type : PacketType}
    (ht : type = .event ∨ type = .telemetry) (payload : List UInt8) :
    AsyncRing (queueAsync s type payload) := by
  dsimp only [queueAsync]
  split_ifs with hl hc
  · exact h
  · exact asyncRing_setAt (s := dropOldest s) (popOldest_ring h) _ ⟨ht, rfl, Nat.le_of_not_lt hl⟩
  · exact asyncRing_setAt h _ ⟨ht, rfl, Nat.le_of_not_lt hl⟩

theorem flushAsync_undisturbed (env : Env) (call n : ℕ) (s : State) :
    Undisturbed s (flushAsync env call n s).1 := by
  induction n generalizing call s with
  | zero => exact .refl s
  | succ n ih =>
    dsimp only [flushAsync]
    split_ifs
    · exact .refl s
    · exact .refl s
    · have hpop : Undisturbed s (popOldest s) := .mk rfl rfl rfl rfl rfl rfl rfl rfl
      exact .trans hpop (ih (call + 1) (popOldest s))

theorem flushAsync_ring (env : Env) (call n : ℕ) {s : State} (h : AsyncRing s) :
    AsyncRing (flushAsync env call n s).1 ∧ ∀ e ∈ (flushAsync env call n s).2, AsyncWrite e := by
  induction n generalizing call s with
  | zero => exact ⟨h, by simp [flushAsync]⟩
  | succ n ih =>
    dsimp only [flushAsync]
    split_ifs
    · exact ⟨h, by simp⟩
    · exact ⟨h, by simp⟩
    · obtain ⟨hring, hlater⟩ := ih (call + 1) (popOldest_ring h)
      refine ⟨hring, fun e he => ?_⟩
      rcases List.mem_cons.mp he with rfl | he
      · exact .frame (h s.outboundHead)
      · exact hlater e he

theorem noteValue_undisturbed (env : Env) (s : State) (i : UInt8) (value : Int32) :
    Undisturbed s (noteValue env s i value) := by
  dsimp only [noteValue]
  split_ifs
  · exact .subscriptions (queueAsync_undisturbed s _ _) _
  · exact .subscriptions (.refl s) _

theorem noteValue_ring (env : Env) {s : State} (h : AsyncRing s) (i : UInt8) (value : Int32) :
    AsyncRing (noteValue env s i value) := by
  dsimp only [noteValue]
  split_ifs
  · exact asyncRing_subscriptions (queueAsync_ring h (Or.inl rfl) _) _
  · exact asyncRing_subscriptions h _

theorem sendDue_undisturbed (s : State) (now : UInt32) (i : UInt8) (value : Int32) :
    Undisturbed s (sendDue s now i value) := by
  dsimp only [sendDue]
  split_ifs
  · exact .refl s
  · exact .subscriptions (queueAsync_undisturbed s _ _) _

theorem sendDue_ring {s : State} (h : AsyncRing s) (now : UInt32) (i : UInt8) (value : Int32) :
    AsyncRing (sendDue s now i value) := by
  dsimp only [sendDue]
  split_ifs
  · exact h
  · exact asyncRing_subscriptions (queueAsync_ring h (Or.inr rfl) _) _

theorem updateSubscription_undisturbed (b : Board) (env : Env) (now : UInt32) (s : State)
    (i : UInt8) : Undisturbed s (updateSubscription b env now s i) := by
  dsimp only [updateSubscription]
  split_ifs
  · exact .refl s
  · split
    · exact .mk rfl rfl rfl rfl rfl rfl rfl rfl
    · exact .trans (noteValue_undisturbed env s i _) (sendDue_undisturbed _ now i _)

theorem updateSubscription_ring (b : Board) (env : Env) (now : UInt32) {s : State}
    (h : AsyncRing s) (i : UInt8) : AsyncRing (updateSubscription b env now s i) := by
  dsimp only [updateSubscription]
  split_ifs
  · exact h
  · split
    · exact h
    · exact sendDue_ring (noteValue_ring env h i _) now i _

theorem updateSubscriptions_undisturbed (b : Board) (env : Env) (s : State) :
    Undisturbed s (updateSubscriptions b env s) := by
  unfold updateSubscriptions
  induction indices kMaxSubscriptions.toNat generalizing s with
  | nil => exact .refl s
  | cons i is ih => exact .trans (updateSubscription_undisturbed b env _ s i) (ih _)

theorem updateSubscriptions_ring (b : Board) (env : Env) {s : State} (h : AsyncRing s) :
    AsyncRing (updateSubscriptions b env s) := by
  unfold updateSubscriptions
  induction indices kMaxSubscriptions.toNat generalizing s with
  | nil => exact h
  | cons i is ih => exact ih (updateSubscription_ring b env _ h i)

/-! ### An update as a whole -/

theorem flushAsync_writes (env : Env) (call n : ℕ) (s : State) :
    ∀ e ∈ (flushAsync env call n s).2, ∃ type seq payload, e = .write type seq payload := by
  induction n generalizing call s with
  | zero => simp [flushAsync]
  | succ n ih =>
    dsimp only [flushAsync]
    split_ifs
    · simp
    · simp
    · intro e he
      rcases List.mem_cons.mp he with rfl | he
      · exact ⟨_, _, _, rfl⟩
      · exact ih (call + 1) (popOldest s) e he

theorem mem_safeOutputsOnExpiry {b : Board} {env : Env} {s : State} {e : Effect}
    (h : e ∈ safeOutputsOnExpiry b env s) : ∃ pin, e = .analogWrite pin 0 := by
  dsimp only [safeOutputsOnExpiry] at h
  split_ifs at h
  · obtain ⟨pin, -, -, he⟩ := mem_applySafeOutputs.mp h
    exact ⟨pin, he⟩
  · simp at h

theorem update_undisturbed (b : Board) (env : Env) (s : State) :
    Undisturbed (checkWatchdog env s) (update b env s).1 :=
  .trans (flushAsync_undisturbed env 0 8 (checkWatchdog env s)) <|
    .trans (updateSubscriptions_undisturbed b env _) (flushAsync_undisturbed env 8 8 _)

theorem update_effects (b : Board) (env : Env) (s : State) :
    ∃ writes, (update b env s).2 = safeOutputsOnExpiry b env s ++ writes ∧
      ∀ e ∈ writes, ∃ type seq payload, e = .write type seq payload := by
  refine ⟨_, rfl, fun e he => ?_⟩
  rcases List.mem_append.mp he with he | he
  · exact flushAsync_writes env 0 8 _ e he
  · exact flushAsync_writes env 8 8 _ e he

/-- An update sends only frames of the ring and keeps the ring what it is. -/
theorem update_ring (b : Board) (env : Env) {s : State} (h : AsyncRing s) :
    AsyncRing (update b env s).1 ∧
      ∀ type seq payload, .write type seq payload ∈ (update b env s).2 →
        AsyncWrite (.write type seq payload) := by
  obtain ⟨hfirst, hwrites⟩ := flushAsync_ring env 0 8 (s := checkWatchdog env s) h
  obtain ⟨hsecond, hlater⟩ := flushAsync_ring env 8 8 (updateSubscriptions_ring b env hfirst)
  refine ⟨hsecond, fun type seq payload hmem => ?_⟩
  rcases List.mem_append.mp hmem with hsafe | hmem
  · obtain ⟨pin, he⟩ := mem_safeOutputsOnExpiry hsafe
    cases he
  · rcases List.mem_append.mp hmem with hmem | hmem
    · exact hwrites _ hmem
    · exact hlater _ hmem

end FirmwareUpdate
