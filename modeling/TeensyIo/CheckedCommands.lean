import TeensyIo.CheckedProtocol
import TeensyIo.FirmwareUpdate

/-! # The handler with checked accesses

`CommandHandler.cpp` once more, down to its loops, its divisions and the accesses to its arrays,
in the order of the source; an element that is accessed several times in a row is accessed once
here. Bodies without any of these are taken from `FirmwareCommands`. -/
namespace CheckedCommands

open WireCommands FirmwareState CheckedMemory
open FirmwareProtocol (Packet PacketWriter.encodedSize kMaxPayloadSize)
open FirmwareCommands (writeI32 writeU32 writeU16 edgeToInterruptMode encoderState dacMaxValue
  clampDac dacBytes isSystem)

/-! ### Array members -/

/-- An array of the handler, or one beside it: what its elements are to begin with, how many
there are, and where it stands in the state. -/
structure Member (ε : Type) where
  initial : ε
  size : ℕ
  table : State → UInt8 → ε
  replace : State → (UInt8 → ε) → State
  size_le : size ≤ 255
  table_replace : ∀ s t, table (replace s t) = t
  replace_replace : ∀ s t u, replace (replace s t) u = replace s u
  replace_table : ∀ s, replace s (table s) = s

def pwmConfigured (b : Board) : Member Bool where
  initial := false
  size := b.numDigitalPins
  table := State.pwmConfigured
  replace s t := { s with pwmConfigured := t }
  size_le := b.pins_le
  table_replace _ _ := rfl
  replace_replace _ _ _ := rfl
  replace_table _ := rfl

def analogConfigured (b : Board) : Member Bool where
  initial := false
  size := b.numDigitalPins
  table := State.analogConfigured
  replace s t := { s with analogConfigured := t }
  size_le := b.pins_le
  table_replace _ _ := rfl
  replace_replace _ _ _ := rfl
  replace_table _ := rfl

def analogSamples (b : Board) : Member UInt8 where
  initial := 0
  size := b.numDigitalPins
  table := State.analogSamples
  replace s t := { s with analogSamples := t }
  size_le := b.pins_le
  table_replace _ _ := rfl
  replace_replace _ _ _ := rfl
  replace_table _ := rfl

def subscriptions : Member SubscriptionSlot where
  initial := {}
  size := kMaxSubscriptions.toNat
  table := State.subscriptions
  replace s t := { s with subscriptions := t }
  size_le := by decide
  table_replace _ _ := rfl
  replace_replace _ _ _ := rfl
  replace_table _ := rfl

def i2cConfigured : Member Bool where
  initial := false
  size := kMaxI2cBuses.toNat
  table := State.i2cConfigured
  replace s t := { s with i2cConfigured := t }
  size_le := by decide
  table_replace _ _ := rfl
  replace_replace _ _ _ := rfl
  replace_table _ := rfl

def dacs : Member DacSlot where
  initial := {}
  size := kMaxDacs.toNat
  table := State.dacs
  replace s t := { s with dacs := t }
  size_le := by decide
  table_replace _ _ := rfl
  replace_replace _ _ _ := rfl
  replace_table _ := rfl

def outbound : Member OutboundFrame where
  initial := {}
  size := kAsyncOutboundFrames.toNat
  table := State.outbound
  replace s t := { s with outbound := t }
  size_le := by decide
  table_replace _ _ := rfl
  replace_replace _ _ _ := rfl
  replace_table _ := rfl

/-- `g_counters`. -/
def counters : Member CounterSlot where
  initial := {}
  size := kMaxCounters.toNat
  table := State.counters
  replace s t := { s with counters := t }
  size_le := by decide
  table_replace _ _ := rfl
  replace_replace _ _ _ := rfl
  replace_table _ := rfl

/-- `g_encoders`. -/
def encoders : Member EncoderSlot where
  initial := {}
  size := kMaxEncoders.toNat
  table := State.encoders
  replace s t := { s with encoders := t }
  size_le := by decide
  table_replace _ _ := rfl
  replace_replace _ _ _ := rfl
  replace_table _ := rfl

section Tables

variable (b : Board) (s : State)

@[simp] theorem pwmConfigured_table : (pwmConfigured b).table s = s.pwmConfigured := rfl

@[simp] theorem analogConfigured_table : (analogConfigured b).table s = s.analogConfigured := rfl

@[simp] theorem subscriptions_table : subscriptions.table s = s.subscriptions := rfl

@[simp] theorem i2cConfigured_table : i2cConfigured.table s = s.i2cConfigured := rfl

@[simp] theorem dacs_table : dacs.table s = s.dacs := rfl

@[simp] theorem outbound_table : outbound.table s = s.outbound := rfl

@[simp] theorem counters_table : counters.table s = s.counters := rfl

@[simp] theorem encoders_table : encoders.table s = s.encoders := rfl

end Tables

namespace Member

variable {ε : Type} (m : Member ε)

def load (s : State) (i : UInt8) : Option ε :=
  CheckedMemory.load UInt8.toNat m.size (m.table s) i

def store (s : State) (i : UInt8) (value : ε) : Option State :=
  (CheckedMemory.store UInt8.toNat m.size (m.table s) i value).map (m.replace s)

/-- A turn of a loop over all elements: those that are hit become initial again, and every
element may call into the core. -/
def sweepTurn (hit : ε → Bool) (effects : ε → List Effect) (i : ℕ) (out : Outcome) :
    Option Outcome := do
  let x ← m.load out.1 (UInt8.ofNat i)
  let s ← if hit x then m.store out.1 (UInt8.ofNat i) m.initial else some out.1
  some (s, out.2 ++ effects x)

def sweep (s : State) (hit : ε → Bool) (effects : ε → List Effect) : Option Outcome :=
  countTo 256 m.size (m.sweepTurn hit effects) (s, [])

/-- `memset` over the whole array, or a loop that does the same. -/
def clear (s : State) : Option State :=
  (m.sweep s (fun _ => true) fun _ => []).map Prod.fst

end Member

/-! ### Responses -/

/-- `writer_.write` with the array that `payload` points to. -/
def frame (type : PacketType) (seq : UInt16) (payload : List UInt8) (length : UInt16) :
    Option Effect := do
  let _ ← CheckedProtocol.write type.toByte seq payload length
  some (.write type seq (payload.take length.toNat))

/-- `ack` of the source. -/
def ackTo (seq : UInt16) : Option Effect := frame .ack seq [ErrorCode.ok.toByte] 1
def nack (seq : UInt16) (code : ErrorCode) : Option Effect := frame .nack seq [code.toByte] 1
def data (seq : UInt16) (payload : List UInt8) (length : UInt16) : Option Effect :=
  frame .data seq payload length

def refuse (s : State) (seq : UInt16) (code : ErrorCode) : Option Outcome :=
  (nack seq code).map fun e => (s, [e])

/-- The end of a command that was carried out with these effects. -/
def acknowledge (s : State) (effects : List Effect) (seq : UInt16) : Option Outcome :=
  (ackTo seq).map fun e => (s, effects ++ [e])

def answer (s : State) (seq : UInt16) (payload : List UInt8) (length : UInt16) :
    Option Outcome := (data seq payload length).map fun e => (s, [e])

/-- An outcome of a body that accesses no array, whose response goes through the writer. -/
def respondTurn (effects : List Effect) : Effect → Option (List Effect)
  | .write type seq payload =>
    (frame type seq payload (UInt16.ofNat payload.length)).map fun e => effects ++ [e]
  | e => some (effects ++ [e])

def respond (out : Outcome) : Option Outcome :=
  (out.2.foldlM respondTurn []).map fun effects => (out.1, effects)

variable (b : Board) (env : Env) (s : State) (seq : UInt16)

/-! ### System -/

def safeOutputTurn (i : ℕ) (effects : List Effect) : Option (List Effect) := do
  let configured ← (pwmConfigured b).load s (UInt8.ofNat i)
  some (effects ++ if configured then [.analogWrite (UInt8.ofNat i) 0] else [])

def applySafeOutputs : Option (List Effect) :=
  countTo 256 b.numDigitalPins (safeOutputTurn b s) []

/-- The literal ends with a zero byte. -/
def ping : Option Outcome := answer s seq [0x70, 0x6F, 0x6E, 0x67, 0] 4

/-- `strncpy` writes all of the bytes it is given room for. -/
def getInfo : Option Outcome := do
  let payload := List.replicate 48 0
  let payload ← storeAt payload 0 (UInt8.ofNat b.numDigitalPins)
  let payload ← storeAt payload 1 kMaxCounters
  let payload ← storeAll payload 2 ((b.firmwareVersion ++ List.replicate 46 0).take 46)
  answer s seq payload 48

def emergencyStop : Option Outcome := do
  let s := { s with safety := s.safety.emergencyStop }
  let effects ← applySafeOutputs b s
  acknowledge s effects seq

def detachCounter (slot : CounterSlot) : List Effect :=
  if slot.active then [.detachInterrupt slot.pin] else []

def detachEncoder (slot : EncoderSlot) : List Effect :=
  if slot.active then [.detachInterrupt slot.pinA, .detachInterrupt slot.pinB] else []

def resetConfig : Option Outcome := do
  let safe ← applySafeOutputs b s
  let (s, countersDetached) ← counters.sweep s (fun _ => true) detachCounter
  let s ← (pwmConfigured b).clear s
  let s ← (analogConfigured b).clear s
  let s ← (analogSamples b).clear s
  let (s, encodersDetached) ← encoders.sweep s (fun _ => true) detachEncoder
  let s ← subscriptions.clear s
  let s ← i2cConfigured.clear s
  let s ← dacs.clear s
  let s ← outbound.clear s
  let s := { s with
    outboundHead := 0, outboundTail := 0, outboundCount := 0, outboundDropped := 0 }
  acknowledge s (safe ++ countersDetached ++ encodersDetached) seq

/-! ### PWM -/

def configPwm (pin : UInt8) (frequency : UInt32) (duty : UInt8) : Option Outcome :=
  if 0 < duty && !s.safety.outputsAllowed then refuse s seq .emergencyStopActive
  else if !isValidPwmPin b pin then refuse s seq .invalidPin
  else do
    let s ← (pwmConfigured b).store s pin true
    acknowledge s [.pinMode pin .output, .analogWriteResolution 8,
      .analogWriteFrequency pin frequency, .analogWrite pin duty] seq

def pwmWrite (pin duty : UInt8) : Option Outcome :=
  if !s.safety.outputsAllowed then refuse s seq .emergencyStopActive
  else if !isValidPwmPin b pin then refuse s seq .invalidPin
  else do
    let configured ← (pwmConfigured b).load s pin
    if !configured then refuse s seq .invalidPin
    else acknowledge s [.analogWrite pin duty] seq

def pwmDisable (pin : UInt8) : Option Outcome :=
  if !isValidPwmPin b pin then refuse s seq .invalidPin
  else do
    let s ← (pwmConfigured b).store s pin false
    acknowledge s [.analogWrite pin 0] seq

/-! ### Analog inputs -/

def configAnalog (pin samples : UInt8) : Option Outcome :=
  if !isValidAnalogPin b pin then refuse s seq .invalidPin
  else do
    let s ← (analogConfigured b).store s pin true
    let s ← (analogSamples b).store s pin (if samples = 0 then 1 else samples)
    acknowledge s [.analogReadResolution 12] seq

def analogMean (occasion : ℕ) (pin : UInt8) : Option UInt32 := do
  let configured ← (analogSamples b).load s pin
  let samples := if configured = 0 then 1 else configured
  let total ← countTo 256 samples.toNat
    (fun i total => some (total + env.analogRead occasion i pin)) 0
  divide total samples.toUInt32

def analogRead (pin : UInt8) : Option Outcome :=
  if !isValidAnalogPin b pin then refuse s seq .invalidPin
  else do
    let configured ← (analogConfigured b).load s pin
    if !configured then refuse s seq .invalidPin
    else do
      let mean ← analogMean b env s 0 pin
      let raw := mean.toUInt16
      let normalized ← divide (raw.toUInt32 * 10000) kAdcMaxValue
      answer s seq (writeU16 raw ++ writeU16 normalized.toUInt16) 4

/-! ### Counters and encoders -/

/-- An array of `count` handlers. -/
def isrFor (count : UInt8) (isr : UInt8 → Isr) (id : UInt8) : Option (Option Isr) :=
  if id < count then (load UInt8.toNat count.toNat isr id).map some else some none

/-- The inner `none` is the `false` of the source. -/
def configureCounter (id pin edge : UInt8) : Option (Option Outcome) :=
  if id ≥ kMaxCounters || !isValidDigitalPin b pin then some none
  else do
    let slot ← counters.load s id
    let s ← counters.store s id { active := true, pin := pin, edge := edge }
    let isr ← isrFor kMaxCounters .counter id
    some (some (s, detachCounter slot ++ [.attachInterrupt pin isr (edgeToInterruptMode edge)]))

def configureEncoder (id pinA pinB mode : UInt8) : Option (Option Outcome) :=
  if id ≥ kMaxEncoders || !isValidDigitalPin b pinA || !isValidDigitalPin b pinB then some none
  else do
    let slot ← encoders.load s id
    let s ← encoders.store s id
      { active := true, pinA := pinA, pinB := pinB, mode := mode
        lastState := encoderState env pinA pinB }
    let isr ← isrFor kMaxEncoders .encoder id
    some (some (s, [.pinMode pinA .input, .pinMode pinB .input] ++ detachEncoder slot ++
      [.attachInterrupt pinA isr .change, .attachInterrupt pinB isr .change]))

/-- The end of both configuring commands. -/
def answerConfigured : Option (Option Outcome) → Option Outcome
  | none => none
  | some none => refuse s seq .invalidPin
  | some (some (s, effects)) => acknowledge s effects seq

/-- A command for a slot that is to be active. -/
def withSlot {ε : Type} (m : Member ε) (active : ε → Bool) (limit id : UInt8)
    (body : ε → Option Outcome) : Option Outcome :=
  if id ≥ limit then refuse s seq .invalidPayload
  else do
    let slot ← m.load s id
    if !active slot then refuse s seq .invalidPayload else body slot

def counterRead (id : UInt8) : Option Outcome :=
  withSlot s seq counters CounterSlot.active kMaxCounters id fun slot => do
    let payload ← storeAll (List.replicate 4 0) 0 (writeI32 slot.count)
    answer s seq payload 4

def counterReset (id : UInt8) : Option Outcome :=
  withSlot s seq counters CounterSlot.active kMaxCounters id fun slot => do
    let s ← counters.store s id { slot with count := 0, lastEdgeUs := 0, periodUs := 0 }
    acknowledge s [] seq

def counterFrequency (id : UInt8) : Option Outcome :=
  withSlot s seq counters CounterSlot.active kMaxCounters id fun slot => do
    let milliHz ← if slot.periodUs = 0 then some 0 else divide 1000000000 slot.periodUs
    let payload ← storeAll (List.replicate 4 0) 0 (writeU32 milliHz)
    answer s seq payload 4

def encoderRead (id : UInt8) : Option Outcome :=
  withSlot s seq encoders EncoderSlot.active kMaxEncoders id fun slot => do
    let payload ← storeAll (List.replicate 4 0) 0 (writeI32 slot.position)
    answer s seq payload 4

def encoderReset (id : UInt8) : Option Outcome :=
  withSlot s seq encoders EncoderSlot.active kMaxEncoders id fun slot => do
    let s ← encoders.store s id { slot with position := 0 }
    acknowledge s [] seq

/-! ### Subscriptions -/

/-- A value of a slot, if the slot is active; the inner `none` sets `ok` to false. -/
def slotValue {ε : Type} (m : Member ε) (active : ε → Bool) (value : ε → Int32)
    (limit id : UInt8) : Option (Option Int32) :=
  if id ≥ limit then some none
  else (m.load s id).map fun slot => if active slot then some (value slot) else none

def readResourceValue (occasion : ℕ) (kind id : UInt8) : Option (Option Int32) :=
  match ResourceKind.ofByte kind with
  | some .digital =>
    if !isValidDigitalPin b id then some none
    else some (some (if env.digitalRead occasion id then 1 else 0))
  | some .analog =>
    if !isValidAnalogPin b id then some none
    else do
      let configured ← (analogConfigured b).load s id
      if !configured then some none
      else (analogMean b env s occasion id).map fun mean => some mean.toInt32
  | some .counter => slotValue s counters CounterSlot.active CounterSlot.count kMaxCounters id
  | some .encoder => slotValue s encoders EncoderSlot.active EncoderSlot.position kMaxEncoders id
  | some .dac =>
    slotValue s dacs DacSlot.active (fun slot => slot.lastValue.toUInt32.toInt32) kMaxDacs id
  | none => some none

/-- The place of the first slot that is not active. -/
def freeSlot : Option (Option ℕ) :=
  searchTo 256 kMaxSubscriptions.toNat fun i =>
    (subscriptions.load s (UInt8.ofNat i)).map fun slot => !slot.active

def subscribe (kind id : UInt8) (rateHz : UInt16) (flags : UInt8) : Option Outcome := do
  let value ← readResourceValue b env s 0 kind id
  match value with
  | none => refuse s seq .invalidPayload
  | some _ =>
    let free ← freeSlot s
    match free with
    | none => refuse s seq .resourceUnavailable
    | some i =>
      let slot ← subscriptions.load s (UInt8.ofNat i)
      let s ← subscriptions.store s (UInt8.ofNat i)
        { slot with
          active := true, kind := kind, id := id, rateHz := rateHz, flags := flags
          nextDueMs := env.millis 0, hasLastValue := false }
      acknowledge s [] seq

def unsubscribe (kind id : UInt8) : Option Outcome := do
  let (s, _) ← subscriptions.sweep s
    (fun slot => slot.active && slot.kind = kind && slot.id = id) fun _ => []
  acknowledge s [] seq

/-! ### I2C and DACs -/

def configI2cBus (bus : UInt8) (frequency : UInt32) : Option Outcome :=
  if bus ≥ kMaxI2cBuses || !wireForBus b bus then refuse s seq .invalidPayload
  else do
    let s ← i2cConfigured.store s bus true
    acknowledge s [.wireBegin bus, .wireSetClock bus (if frequency = 0 then 400000 else frequency)]
      seq

def payloadAt (p : Packet) (i : ℕ) : Option UInt8 := p.payload.toList[i]?

/-- The loop over `wire->write`. -/
def i2cBytes (p : Packet) (length : UInt8) : Option (List UInt8) :=
  countTo 256 length.toNat (fun i bytes => (payloadAt p (4 + i)).map fun x => bytes ++ [x]) []

def i2cWrite (p : Packet) (bus address length : UInt8) : Option Outcome :=
  if bus ≥ kMaxI2cBuses then refuse s p.seq .invalidPayload
  else do
    let configured ← i2cConfigured.load s bus
    if !configured || p.length.toNat < 4 + length.toNat then refuse s p.seq .invalidPayload
    else if !wireForBus b bus then refuse s p.seq .invalidPayload
    else do
      let bytes ← i2cBytes p length
      let sent : Effect := .transmit .i2cWrite bus address bytes
      let response ← if env.endTransmission ≠ 0 then nack p.seq .resourceUnavailable
        else ackTo p.seq
      some (s, [sent, response])

/-- The loop ends where the bytes that have arrived do. -/
def i2cRead (bus address length : UInt8) : Option Outcome :=
  if bus ≥ kMaxI2cBuses then refuse s seq .invalidPayload
  else do
    let configured ← i2cConfigured.load s bus
    if !configured || length.toNat > kMaxPayloadSize then refuse s seq .invalidPayload
    else if !wireForBus b bus then refuse s seq .invalidPayload
    else do
      let (received, available) := env.requestFrom length
      let payload ← countTo 256 (min received.toNat available.length) (copyTurn available 0)
        (List.replicate kMaxPayloadSize 0)
      let response ← data seq payload received.toUInt16
      some (s, [.requestFrom bus address length, response])

def configDac (id bus address channels resolution : UInt8) : Option Outcome :=
  if id ≥ kMaxDacs || bus ≥ kMaxI2cBuses then refuse s seq .invalidPayload
  else do
    let configured ← i2cConfigured.load s bus
    if !configured || channels = 0 || resolution = 0 || resolution > 16 then
      refuse s seq .invalidPayload
    else do
      let s ← dacs.store s id
        { active := true, bus := bus, address := address, channels := channels
          resolutionBits := resolution }
      acknowledge s [] seq

def writeDacRaw (id channel : UInt8) (value : UInt16) : Option (Outcome × Bool) :=
  if id ≥ kMaxDacs then some ((s, []), false)
  else do
    let slot ← dacs.load s id
    if !slot.active || channel ≥ slot.channels then some ((s, []), false)
    else if !wireForBus b slot.bus then some ((s, []), false)
    else do
      let configured ← i2cConfigured.load s slot.bus
      if !configured then some ((s, []), false)
      else
        let value := clampDac slot value
        let sent : Effect :=
          .transmit .writeDacRaw slot.bus slot.address (dacBytes slot channel value)
        if env.endTransmission ≠ 0 then some ((s, [sent]), false)
        else do
          let s ← dacs.store s id { slot with lastValue := value }
          some ((s, [sent]), true)

def answerDac (written : Outcome × Bool) : Option Outcome :=
  if written.2 then acknowledge written.1.1 written.1.2 seq
  else (nack seq .resourceUnavailable).map fun e => (written.1.1, written.1.2 ++ [e])

def dacWriteRaw (id channel : UInt8) (value : UInt16) : Option Outcome :=
  if !s.safety.outputsAllowed then refuse s seq .emergencyStopActive
  else do
    let written ← writeDacRaw b env s id channel value
    answerDac seq written

def dacWriteNormalized (id channel : UInt8) (normalized : UInt16) : Option Outcome :=
  if !s.safety.outputsAllowed then refuse s seq .emergencyStopActive
  else withSlot s seq dacs DacSlot.active kMaxDacs id fun slot => do
    let value ← divide (normalized.toUInt32 * (dacMaxValue slot).toUInt32) 10000
    let written ← writeDacRaw b env s id channel value.toUInt16
    answerDac seq written

/-! ### Dispatch -/

variable (p : Packet) (command : UInt8)

def word16 (i : ℕ) : Option UInt16 := do
  let low ← payloadAt p i
  let high ← payloadAt p (i + 1)
  some (low.toUInt16 ||| (high.toUInt16 <<< 8))

def word32 (i : ℕ) : Option UInt32 := do
  let x₀ ← payloadAt p i
  let x₁ ← payloadAt p (i + 1)
  let x₂ ← payloadAt p (i + 2)
  let x₃ ← payloadAt p (i + 3)
  some (x₀.toUInt32 ||| (x₁.toUInt32 <<< 8) ||| (x₂.toUInt32 <<< 16) ||| (x₃.toUInt32 <<< 24))

def needing (n : UInt16) (body : Option Outcome) : Option Outcome :=
  if p.length < n then refuse s p.seq .invalidPayload else body

def handleSystem : Option Outcome :=
  match CommandId.ofByte command with
  | some .ping => ping s p.seq
  | some .getInfo => getInfo b s p.seq
  | some .heartbeat => respond (FirmwareCommands.heartbeat env s p.seq)
  | some .emergencyStop => emergencyStop b s p.seq
  | some .clearEmergencyStop => respond (FirmwareCommands.clearEmergencyStop env s p.seq)
  | some .resetConfig => resetConfig b s p.seq
  | _ => refuse s p.seq .unknownCommand

def handleDigital : Option Outcome :=
  match CommandId.ofByte command with
  | some .configDigitalOutput => needing s p 3 do
    let pin ← payloadAt p 1
    let initial ← payloadAt p 2
    respond (FirmwareCommands.configDigitalOutput b s p.seq pin (initial != 0))
  | some .configDigitalInput => needing s p 3 do
    let pin ← payloadAt p 1
    let pull ← payloadAt p 2
    respond (FirmwareCommands.configDigitalInput b s p.seq pin pull)
  | some .digitalRead => needing s p 2 do
    let pin ← payloadAt p 1
    respond (FirmwareCommands.digitalRead b env s p.seq pin)
  | some .digitalWrite => needing s p 3 do
    let pin ← payloadAt p 1
    let value ← payloadAt p 2
    respond (FirmwareCommands.digitalWrite b s p.seq pin (value != 0))
  | _ => refuse s p.seq .unknownCommand

def handlePwm : Option Outcome :=
  match CommandId.ofByte command with
  | some .configPwm => needing s p 7 do
    let pin ← payloadAt p 1
    let frequency ← word32 p 2
    let duty ← payloadAt p 6
    configPwm b s p.seq pin frequency duty
  | some .pwmWrite => needing s p 3 do
    let pin ← payloadAt p 1
    let duty ← payloadAt p 2
    pwmWrite b s p.seq pin duty
  | some .pwmDisable => needing s p 2 do
    let pin ← payloadAt p 1
    pwmDisable b s p.seq pin
  | _ => refuse s p.seq .unknownCommand

def handleAnalog : Option Outcome :=
  match CommandId.ofByte command with
  | some .configAnalog => needing s p 3 do
    let pin ← payloadAt p 1
    let samples ← payloadAt p 2
    configAnalog b s p.seq pin samples
  | some .analogRead => needing s p 2 do
    let pin ← payloadAt p 1
    analogRead b env s p.seq pin
  | _ => refuse s p.seq .unknownCommand

def handleCounter : Option Outcome :=
  match CommandId.ofByte command with
  | some .configCounter => needing s p 4 do
    let id ← payloadAt p 1
    let pin ← payloadAt p 2
    let edge ← payloadAt p 3
    answerConfigured s p.seq (configureCounter b s id pin edge)
  | some .counterRead => needing s p 2 do
    let id ← payloadAt p 1
    counterRead s p.seq id
  | some .counterReset => needing s p 2 do
    let id ← payloadAt p 1
    counterReset s p.seq id
  | some .counterFrequency => needing s p 2 do
    let id ← payloadAt p 1
    counterFrequency s p.seq id
  | _ => refuse s p.seq .unknownCommand

def handleEncoder : Option Outcome :=
  match CommandId.ofByte command with
  | some .configEncoder => needing s p 5 do
    let id ← payloadAt p 1
    let pinA ← payloadAt p 2
    let pinB ← payloadAt p 3
    let mode ← payloadAt p 4
    answerConfigured s p.seq (configureEncoder b env s id pinA pinB mode)
  | some .encoderRead => needing s p 2 do
    let id ← payloadAt p 1
    encoderRead s p.seq id
  | some .encoderReset => needing s p 2 do
    let id ← payloadAt p 1
    encoderReset s p.seq id
  | _ => refuse s p.seq .unknownCommand

def handleSubscription : Option Outcome :=
  match CommandId.ofByte command with
  | some .subscribe => needing s p 6 do
    let kind ← payloadAt p 1
    let id ← payloadAt p 2
    let rateHz ← word16 p 3
    let flags ← payloadAt p 5
    subscribe b env s p.seq kind id rateHz flags
  | some .unsubscribe => needing s p 3 do
    let kind ← payloadAt p 1
    let id ← payloadAt p 2
    unsubscribe s p.seq kind id
  | _ => refuse s p.seq .unknownCommand

def handleI2c : Option Outcome :=
  match CommandId.ofByte command with
  | some .configI2cBus => needing s p 6 do
    let bus ← payloadAt p 1
    let frequency ← word32 p 2
    configI2cBus b s p.seq bus frequency
  | some .i2cWrite => needing s p 4 do
    let bus ← payloadAt p 1
    let address ← payloadAt p 2
    let length ← payloadAt p 3
    i2cWrite b env s p bus address length
  | some .i2cRead => needing s p 4 do
    let bus ← payloadAt p 1
    let address ← payloadAt p 2
    let length ← payloadAt p 3
    i2cRead b env s p.seq bus address length
  | some .configDac => needing s p 6 do
    let id ← payloadAt p 1
    let bus ← payloadAt p 2
    let address ← payloadAt p 3
    let channels ← payloadAt p 4
    let resolution ← payloadAt p 5
    configDac s p.seq id bus address channels resolution
  | some .dacWriteRaw => needing s p 5 do
    let id ← payloadAt p 1
    let channel ← payloadAt p 2
    let value ← word16 p 3
    dacWriteRaw b env s p.seq id channel value
  | some .dacWriteNormalized => needing s p 5 do
    let id ← payloadAt p 1
    let channel ← payloadAt p 2
    let normalized ← word16 p 3
    dacWriteNormalized b env s p.seq id channel normalized
  | _ => refuse s p.seq .unknownCommand

def dispatch : Option Outcome :=
  let group := command &&& 0xF0
  if isSystem command then handleSystem b env s p command
  else if group = 0x10 then handleDigital b env s p command
  else if group = 0x20 then handlePwm b s p command
  else if group = 0x30 then handleAnalog b env s p command
  else if group = 0x40 then handleCounter b s p command
  else if group = 0x50 then handleEncoder b env s p command
  else if group = 0x60 then handleSubscription b env s p command
  else if group = 0x70 then handleI2c b env s p command
  else refuse s p.seq .unknownCommand

def handle : Option Outcome :=
  if p.type ≠ PacketType.command.toByte ∨ p.length = 0 then refuse s p.seq .invalidPayload
  else do
    let command ← payloadAt p 0
    dispatch b env s p command

/-! ### Between commands -/

def advance (i : UInt8) : Option UInt8 := remainder (i + 1) kAsyncOutboundFrames

def popOldest : Option State := do
  let s ← outbound.store s s.outboundHead {}
  let head ← advance s.outboundHead
  some { s with outboundHead := head, outboundCount := s.outboundCount - 1 }

def dropOldest : Option State :=
  (popOldest s).map fun s => { s with outboundDropped := s.outboundDropped + 1 }

/-- A full ring gives up its oldest frame. -/
def makeRoom : Option State :=
  if s.outboundCount ≥ kAsyncOutboundFrames then dropOldest s else some s

/-- `memcpy` reads as many bytes of `payload` as it writes into the buffer of the frame. -/
def queueAsync (type : PacketType) (payload : List UInt8) (length : ℕ) : Option State :=
  if length > kMaxPayloadSize then some s
  else do
    let s ← makeRoom s
    let copied ← loadFirst payload length
    let _ ← storeAll (List.replicate kMaxPayloadSize 0) 0 copied
    let s ← outbound.store s s.outboundTail
      { active := true, type := type, seq := 0, payload := copied }
    let tail ← advance s.outboundTail
    some { s with outboundTail := tail, outboundCount := s.outboundCount + 1 }

/-- A turn of the loop that sends frames, with the number of those written so far. -/
def flushTurn (call : ℕ) (maxFrames : UInt8) (c : UInt8 × Outcome) :
    Option (Turn (UInt8 × Outcome)) :=
  let (written, s, effects) := c
  if s.outboundCount = 0 || written ≥ maxFrames then some (.leave c)
  else do
    let slot ← outbound.load s s.outboundHead
    let length := UInt16.ofNat slot.payload.length
    if env.availableForWrite (call + written.toNat) < (PacketWriter.encodedSize length).toNat then
      some (.leave c)
    else do
      let sent ← frame slot.type slot.seq slot.payload length
      let s ← popOldest s
      some (.again (written + 1, s, effects ++ [sent]))

def flushAsync (call : ℕ) (maxFrames : UInt8) : Option Outcome :=
  (loop (flushTurn env call maxFrames) 256 (0, s, [])).map Prod.snd

/-- An event where the value of the slot has changed. -/
def noteChange (i : UInt8) (slot : SubscriptionSlot) (value : Int32) : Option State :=
  let onChange := slot.flags &&& 0x01 != 0
  if onChange && slot.hasLastValue && value != slot.lastValue &&
      FirmwareUpdate.shouldEmit slot value then do
    let payload := [slot.kind, slot.id] ++ List.replicate 8 0
    let payload ← storeAll payload 2 (writeI32 value)
    let payload ← storeAll payload 6 (writeU32 (env.micros i.toNat))
    queueAsync s .event payload 10
  else some s

def noteValue (i : UInt8) (value : Int32) : Option State := do
  let slot ← subscriptions.load s i
  let s ← noteChange env s i slot value
  subscriptions.store s i { slot with lastValue := value, hasLastValue := true }

def sendDue (now : UInt32) (i : UInt8) (value : Int32) : Option State := do
  let slot ← subscriptions.load s i
  if slot.rateHz = 0 ∨ now < slot.nextDueMs then some s
  else do
    let payload := [slot.kind, slot.id] ++ List.replicate 4 0
    let payload ← storeAll payload 2 (writeI32 value)
    let s ← queueAsync s .telemetry payload 6
    let intervalMs ← divide 1000 slot.rateHz.toUInt32
    subscriptions.store s i
      { slot with nextDueMs := now + if intervalMs = 0 then 1 else intervalMs }

def updateSubscription (now : UInt32) (i : UInt8) : Option State := do
  let slot ← subscriptions.load s i
  if !slot.active then some s
  else do
    let value ← readResourceValue b env s i.toNat slot.kind slot.id
    match value with
    | none => subscriptions.store s i {}
    | some value =>
      let s ← noteValue env s i value
      sendDue s now i value

def updateSubscriptions : Option State :=
  countTo 256 kMaxSubscriptions.toNat
    (fun i s => updateSubscription b env s (env.millis 1) (UInt8.ofNat i)) s

/-- `now` is the state in which the watchdog has been checked. -/
def safeOutputsOnExpiry (now : State) : Option (List Effect) :=
  if s.safety.outputsAllowed && !now.safety.outputsAllowed then applySafeOutputs b now else some []

def update : Option Outcome := do
  let now := FirmwareUpdate.checkWatchdog env s
  let safe ← safeOutputsOnExpiry b s now
  let s := now
  let (s, first) ← flushAsync env s 0 8
  let s ← updateSubscriptions b env s
  let (s, second) ← flushAsync env s 8 8
  some (s, safe ++ (first ++ second))

/-! ### Interrupts -/

def encoderTable : List Int32 := [0, -1, 1, 0, 1, 0, 0, -1, -1, 0, 0, 1, 0, 1, -1, 0]

def encoderDelta (previous current : UInt8) : Option Int32 :=
  encoderTable[(((previous &&& 0x03) <<< 2) ||| (current &&& 0x03)).toNat]?

def counterTick (id : UInt8) : Option State :=
  if id ≥ kMaxCounters then some s
  else do
    let slot ← counters.load s id
    if !slot.active then some s
    else
      let now := env.micros 0
      let periodUs := if slot.lastEdgeUs ≠ 0 then now - slot.lastEdgeUs else slot.periodUs
      counters.store s id { slot with count := slot.count + 1, periodUs, lastEdgeUs := now }

def encoderTick (id : UInt8) : Option State :=
  if id ≥ kMaxEncoders then some s
  else do
    let slot ← encoders.load s id
    if !slot.active then some s
    else do
      let current := encoderState env slot.pinA slot.pinB
      let delta ← encoderDelta slot.lastState current
      encoders.store s id { slot with position := slot.position + delta, lastState := current }

end CheckedCommands
