import TeensyIo.FirmwareState

/-! # Handling a command

`CommandHandler::handle`. Each case of the source is its length check, made on the packet,
and a body that works on the bytes the case has extracted. -/
namespace FirmwareCommands

open WireCommands FirmwareState
open FirmwareProtocol (Packet kMaxPayloadSize)

/-! ### Responses -/

/-- `ack` of the source. -/
def ackTo (seq : UInt16) : Effect := .write .ack seq [ErrorCode.ok.toByte]
def nack (seq : UInt16) (code : ErrorCode) : Effect := .write .nack seq [code.toByte]
def data (seq : UInt16) (payload : List UInt8) : Effect := .write .data seq payload

def refuse (s : State) (seq : UInt16) (code : ErrorCode) : Outcome := (s, [nack seq code])

def writeI32 (v : Int32) : List UInt8 :=
  [(v &&& 0xFF).toUInt32.toUInt8, ((v >>> 8) &&& 0xFF).toUInt32.toUInt8,
    ((v >>> 16) &&& 0xFF).toUInt32.toUInt8, ((v >>> 24) &&& 0xFF).toUInt32.toUInt8]

def writeU32 (v : UInt32) : List UInt8 :=
  [(v &&& 0xFF).toUInt8, ((v >>> 8) &&& 0xFF).toUInt8, ((v >>> 16) &&& 0xFF).toUInt8,
    ((v >>> 24) &&& 0xFF).toUInt8]

def writeU16 (v : UInt16) : List UInt8 := [(v &&& 0xFF).toUInt8, ((v >>> 8) &&& 0xFF).toUInt8]

/-! ### System -/

def applySafeOutputs (b : Board) (s : State) : List Effect :=
  (indices b.numDigitalPins).flatMap fun pin =>
    if s.pwmConfigured pin then [.analogWrite pin 0] else []

theorem mem_applySafeOutputs {b : Board} {s : State} {e : Effect} :
    e ∈ applySafeOutputs b s ↔
      ∃ pin, pin ∈ indices b.numDigitalPins ∧ s.pwmConfigured pin = true ∧
        e = .analogWrite pin 0 := by
  simp only [applySafeOutputs, List.mem_flatMap]
  constructor
  · rintro ⟨pin, hpin, he⟩
    split_ifs at he with hc
    · exact ⟨pin, hpin, hc, List.mem_singleton.mp he⟩
    · simp at he
  · rintro ⟨pin, hpin, hc, rfl⟩
    exact ⟨pin, hpin, by simp [hc]⟩

def ping (s : State) (seq : UInt16) : Outcome := (s, [data seq [0x70, 0x6F, 0x6E, 0x67]])

/-- The version is copied by `strncpy` into what is left of 48 bytes. -/
def getInfo (b : Board) (s : State) (seq : UInt16) : Outcome :=
  (s, [data seq (UInt8.ofNat b.numDigitalPins :: kMaxCounters ::
    (b.firmwareVersion ++ List.replicate 46 0).take 46)])

def heartbeat (env : Env) (s : State) (seq : UInt16) : Outcome :=
  ({ s with safety := s.safety.heartbeat (env.millis 0) }, [ackTo seq])

def emergencyStop (b : Board) (s : State) (seq : UInt16) : Outcome :=
  ({ s with safety := s.safety.emergencyStop }, applySafeOutputs b s ++ [ackTo seq])

def clearEmergencyStop (env : Env) (s : State) (seq : UInt16) : Outcome :=
  ({ s with safety := s.safety.clearEmergencyStop (env.millis 0) }, [ackTo seq])

/-- An active slot gives its pins up. -/
def detachCounter (s : State) (id : UInt8) : List Effect :=
  if (s.counters id).active then [.detachInterrupt (s.counters id).pin] else []

def detachEncoder (s : State) (id : UInt8) : List Effect :=
  if (s.encoders id).active then
    [.detachInterrupt (s.encoders id).pinA, .detachInterrupt (s.encoders id).pinB]
  else []

theorem mem_detachCounter {s : State} {id : UInt8} {e : Effect} :
    e ∈ detachCounter s id ↔
      (s.counters id).active = true ∧ e = .detachInterrupt (s.counters id).pin := by
  simp [detachCounter]

theorem mem_detachEncoder {s : State} {id : UInt8} {e : Effect} :
    e ∈ detachEncoder s id ↔
      (s.encoders id).active = true ∧
        (e = .detachInterrupt (s.encoders id).pinA ∨
          e = .detachInterrupt (s.encoders id).pinB) := by
  simp [detachEncoder]

def detachCounters (s : State) : List Effect :=
  (indices kMaxCounters.toNat).flatMap (detachCounter s)

def detachEncoders (s : State) : List Effect :=
  (indices kMaxEncoders.toNat).flatMap (detachEncoder s)

/-- Everything but the safety state returns to its initial value. -/
def resetConfig (b : Board) (s : State) (seq : UInt16) : Outcome :=
  ({ safety := s.safety },
    applySafeOutputs b s ++ detachCounters s ++ detachEncoders s ++ [ackTo seq])

/-! ### Digital pins -/

def configDigitalOutput (b : Board) (s : State) (seq : UInt16) (pin : UInt8) (initial : Bool) :
    Outcome :=
  if initial && !s.safety.outputsAllowed then refuse s seq .emergencyStopActive
  else if !isValidDigitalPin b pin then refuse s seq .invalidPin
  else (s, [.pinMode pin .output, .digitalWrite pin initial, ackTo seq])

def configDigitalInput (b : Board) (s : State) (seq : UInt16) (pin pull : UInt8) : Outcome :=
  if !isValidDigitalPin b pin then refuse s seq .invalidPin
  else
    let mode := if pull = 1 then .inputPullup else if pull = 2 then .inputPulldown else .input
    (s, [.pinMode pin mode, ackTo seq])

def digitalRead (b : Board) (env : Env) (s : State) (seq : UInt16) (pin : UInt8) : Outcome :=
  if !isValidDigitalPin b pin then refuse s seq .invalidPin
  else (s, [data seq [if env.digitalRead 0 pin then 1 else 0]])

def digitalWrite (b : Board) (s : State) (seq : UInt16) (pin : UInt8) (value : Bool) : Outcome :=
  if !s.safety.outputsAllowed then refuse s seq .emergencyStopActive
  else if !isValidDigitalPin b pin then refuse s seq .invalidPin
  else (s, [.digitalWrite pin value, ackTo seq])

/-! ### PWM -/

def configPwm (b : Board) (s : State) (seq : UInt16) (pin : UInt8) (frequency : UInt32)
    (duty : UInt8) : Outcome :=
  if 0 < duty && !s.safety.outputsAllowed then refuse s seq .emergencyStopActive
  else if !isValidPwmPin b pin then refuse s seq .invalidPin
  else
    ({ s with pwmConfigured := setAt s.pwmConfigured pin true },
      [.pinMode pin .output, .analogWriteResolution 8, .analogWriteFrequency pin frequency,
        .analogWrite pin duty, ackTo seq])

def pwmWrite (b : Board) (s : State) (seq : UInt16) (pin duty : UInt8) : Outcome :=
  if !s.safety.outputsAllowed then refuse s seq .emergencyStopActive
  else if !isValidPwmPin b pin || !s.pwmConfigured pin then refuse s seq .invalidPin
  else (s, [.analogWrite pin duty, ackTo seq])

def pwmDisable (b : Board) (s : State) (seq : UInt16) (pin : UInt8) : Outcome :=
  if !isValidPwmPin b pin then refuse s seq .invalidPin
  else
    ({ s with pwmConfigured := setAt s.pwmConfigured pin false }, [.analogWrite pin 0, ackTo seq])

/-! ### Analog inputs -/

def configAnalog (b : Board) (s : State) (seq : UInt16) (pin samples : UInt8) : Outcome :=
  if !isValidAnalogPin b pin then refuse s seq .invalidPin
  else
    ({ s with
      analogConfigured := setAt s.analogConfigured pin true
      analogSamples := setAt s.analogSamples pin (if samples = 0 then 1 else samples) },
      [.analogReadResolution 12, ackTo seq])

/-- The mean over the configured number of samples, in unsigned 32-bit arithmetic. -/
def analogMean (env : Env) (s : State) (occasion : ℕ) (pin : UInt8) : UInt32 :=
  let samples := if s.analogSamples pin = 0 then 1 else s.analogSamples pin
  let total := (List.range samples.toNat).foldl
    (fun total i => total + env.analogRead occasion i pin) 0
  total / samples.toUInt32

def analogRead (b : Board) (env : Env) (s : State) (seq : UInt16) (pin : UInt8) : Outcome :=
  if !isValidAnalogPin b pin || !s.analogConfigured pin then refuse s seq .invalidPin
  else
    let raw := (analogMean env s 0 pin).toUInt16
    let normalized := (raw.toUInt32 * 10000 / kAdcMaxValue).toUInt16
    (s, [data seq (writeU16 raw ++ writeU16 normalized)])

/-! ### Counters and encoders -/

def counterIsrFor (id : UInt8) : Option Isr :=
  if id < kMaxCounters then some (.counter id) else none

def encoderIsrFor (id : UInt8) : Option Isr :=
  if id < kMaxEncoders then some (.encoder id) else none

def edgeToInterruptMode (edge : UInt8) : InterruptMode :=
  if edge = 0 then .rising else if edge = 1 then .falling else if edge = 2 then .change else .rising

def encoderState (env : Env) (pinA pinB : UInt8) : UInt8 :=
  (if env.digitalRead 0 pinA then 2 else 0) ||| (if env.digitalRead 1 pinB then 1 else 0)

/-- `none` is the `false` of the source. -/
def configureCounter (b : Board) (s : State) (id pin edge : UInt8) : Option Outcome :=
  if id ≥ kMaxCounters || !isValidDigitalPin b pin then none
  else
    some ({ s with counters := setAt s.counters id { active := true, pin := pin, edge := edge } },
      detachCounter s id ++ [.attachInterrupt pin (counterIsrFor id) (edgeToInterruptMode edge)])

def configureEncoder (b : Board) (env : Env) (s : State) (id pinA pinB mode : UInt8) :
    Option Outcome :=
  if id ≥ kMaxEncoders || !isValidDigitalPin b pinA || !isValidDigitalPin b pinB then none
  else
    let slot : EncoderSlot :=
      { active := true, pinA := pinA, pinB := pinB, mode := mode
        lastState := encoderState env pinA pinB }
    some ({ s with encoders := setAt s.encoders id slot },
      [.pinMode pinA .input, .pinMode pinB .input] ++ detachEncoder s id ++
        [.attachInterrupt pinA (encoderIsrFor id) .change,
          .attachInterrupt pinB (encoderIsrFor id) .change])

def configCounter (b : Board) (s : State) (seq : UInt16) (id pin edge : UInt8) : Outcome :=
  match configureCounter b s id pin edge with
  | none => refuse s seq .invalidPin
  | some (s', effects) => (s', effects ++ [ackTo seq])

def counterRead (s : State) (seq : UInt16) (id : UInt8) : Outcome :=
  if id ≥ kMaxCounters || !(s.counters id).active then refuse s seq .invalidPayload
  else (s, [data seq (writeI32 (s.counters id).count)])

def counterReset (s : State) (seq : UInt16) (id : UInt8) : Outcome :=
  if id ≥ kMaxCounters || !(s.counters id).active then refuse s seq .invalidPayload
  else
    let slot := { s.counters id with count := 0, lastEdgeUs := 0, periodUs := 0 }
    ({ s with counters := setAt s.counters id slot }, [ackTo seq])

def counterFrequency (s : State) (seq : UInt16) (id : UInt8) : Outcome :=
  if id ≥ kMaxCounters || !(s.counters id).active then refuse s seq .invalidPayload
  else
    let periodUs := (s.counters id).periodUs
    let milliHz := if periodUs = 0 then 0 else 1000000000 / periodUs
    (s, [data seq (writeU32 milliHz)])

def configEncoder (b : Board) (env : Env) (s : State) (seq : UInt16)
    (id pinA pinB mode : UInt8) : Outcome :=
  match configureEncoder b env s id pinA pinB mode with
  | none => refuse s seq .invalidPin
  | some (s', effects) => (s', effects ++ [ackTo seq])

def encoderRead (s : State) (seq : UInt16) (id : UInt8) : Outcome :=
  if id ≥ kMaxEncoders || !(s.encoders id).active then refuse s seq .invalidPayload
  else (s, [data seq (writeI32 (s.encoders id).position)])

def encoderReset (s : State) (seq : UInt16) (id : UInt8) : Outcome :=
  if id ≥ kMaxEncoders || !(s.encoders id).active then refuse s seq .invalidPayload
  else
    ({ s with encoders := setAt s.encoders id { s.encoders id with position := 0 } }, [ackTo seq])

/-! ### Subscriptions -/

/-- `none` where the source sets `ok` to false. -/
def readResourceValue (b : Board) (env : Env) (s : State) (occasion : ℕ) (kind id : UInt8) :
    Option Int32 :=
  match ResourceKind.ofByte kind with
  | some .digital =>
    if !isValidDigitalPin b id then none
    else some (if env.digitalRead occasion id then 1 else 0)
  | some .analog =>
    if !isValidAnalogPin b id || !s.analogConfigured id then none
    else some (analogMean env s occasion id).toInt32
  | some .counter =>
    if id ≥ kMaxCounters || !(s.counters id).active then none else some (s.counters id).count
  | some .encoder =>
    if id ≥ kMaxEncoders || !(s.encoders id).active then none else some (s.encoders id).position
  | some .dac =>
    if id ≥ kMaxDacs || !(s.dacs id).active then none
    else some (s.dacs id).lastValue.toUInt32.toInt32
  | none => none

def subscribe (b : Board) (env : Env) (s : State) (seq : UInt16) (kind id : UInt8)
    (rateHz : UInt16) (flags : UInt8) : Outcome :=
  match readResourceValue b env s 0 kind id with
  | none => refuse s seq .invalidPayload
  | some _ =>
    match (indices kMaxSubscriptions.toNat).find? fun i => !(s.subscriptions i).active with
    | none => refuse s seq .resourceUnavailable
    | some i =>
      let slot : SubscriptionSlot :=
        { s.subscriptions i with
          active := true, kind := kind, id := id, rateHz := rateHz, flags := flags
          nextDueMs := env.millis 0, hasLastValue := false }
      ({ s with subscriptions := setAt s.subscriptions i slot }, [ackTo seq])

def unsubscribe (s : State) (seq : UInt16) (kind id : UInt8) : Outcome :=
  ({ s with
    subscriptions := fun i =>
      let slot := s.subscriptions i
      if slot.active && slot.kind = kind && slot.id = id then {} else slot }, [ackTo seq])

/-! ### I2C and DACs -/

def configI2cBus (b : Board) (s : State) (seq : UInt16) (bus : UInt8) (frequency : UInt32) :
    Outcome :=
  if bus ≥ kMaxI2cBuses || !wireForBus b bus then refuse s seq .invalidPayload
  else
    ({ s with i2cConfigured := setAt s.i2cConfigured bus true },
      [.wireBegin bus, .wireSetClock bus (if frequency = 0 then 400000 else frequency), ackTo seq])

def i2cWrite (b : Board) (env : Env) (s : State) (seq : UInt16) (bus address : UInt8)
    (bytes : List UInt8) : Outcome :=
  if bus ≥ kMaxI2cBuses || !s.i2cConfigured bus then refuse s seq .invalidPayload
  else if !wireForBus b bus then refuse s seq .invalidPayload
  else
    (s, [.transmit .i2cWrite bus address bytes,
      if env.endTransmission ≠ 0 then nack seq .resourceUnavailable else ackTo seq])

/-- `received` bytes of a zeroed buffer into which the bytes that are there are read. -/
def i2cRead (b : Board) (env : Env) (s : State) (seq : UInt16) (bus address length : UInt8) :
    Outcome :=
  if bus ≥ kMaxI2cBuses || !s.i2cConfigured bus || length.toNat > kMaxPayloadSize then
    refuse s seq .invalidPayload
  else if !wireForBus b bus then refuse s seq .invalidPayload
  else
    let received := (env.requestFrom length).1.toNat
    let got := (env.requestFrom length).2.take received
    (s, [.requestFrom bus address length,
      data seq (got ++ List.replicate (received - got.length) 0)])

def configDac (s : State) (seq : UInt16) (id bus address channels resolution : UInt8) : Outcome :=
  if id ≥ kMaxDacs || bus ≥ kMaxI2cBuses || !s.i2cConfigured bus || channels = 0 ||
      resolution = 0 || resolution > 16 then refuse s seq .invalidPayload
  else
    let slot : DacSlot :=
      { active := true, bus := bus, address := address, channels := channels
        resolutionBits := resolution }
    ({ s with dacs := setAt s.dacs id slot }, [ackTo seq])

def dacResolution (slot : DacSlot) : UInt8 :=
  if slot.resolutionBits = 0 then 12 else slot.resolutionBits

def dacMaxValue (slot : DacSlot) : UInt16 :=
  if dacResolution slot ≥ 16 then 0xFFFF
  else (((1 : UInt32) <<< (dacResolution slot).toUInt32) - 1).toUInt16

def clampDac (slot : DacSlot) (value : UInt16) : UInt16 :=
  if value > dacMaxValue slot then dacMaxValue slot else value

/-- The channel is sent only to a device that has several. -/
def dacBytes (slot : DacSlot) (channel : UInt8) (value : UInt16) : List UInt8 :=
  (if slot.channels > 1 then [channel] else []) ++
    [((value >>> 8) &&& 0xFF).toUInt8, (value &&& 0xFF).toUInt8]

/-- The outcome and the returned flag. -/
def writeDacRaw (b : Board) (env : Env) (s : State) (id channel : UInt8) (value : UInt16) :
    Outcome × Bool :=
  let slot := s.dacs id
  if id ≥ kMaxDacs || !slot.active || channel ≥ slot.channels then ((s, []), false)
  else if !wireForBus b slot.bus || !s.i2cConfigured slot.bus then ((s, []), false)
  else
    let value := clampDac slot value
    let sent : Effect := .transmit .writeDacRaw slot.bus slot.address (dacBytes slot channel value)
    if env.endTransmission ≠ 0 then ((s, [sent]), false)
    else (({ s with dacs := setAt s.dacs id { slot with lastValue := value } }, [sent]), true)

/-- The end of both DAC commands. -/
def answerDac (seq : UInt16) : Outcome × Bool → Outcome
  | ((s, effects), true) => (s, effects ++ [ackTo seq])
  | ((s, effects), false) => (s, effects ++ [nack seq .resourceUnavailable])

def dacWriteRaw (b : Board) (env : Env) (s : State) (seq : UInt16) (id channel : UInt8)
    (value : UInt16) : Outcome :=
  if !s.safety.outputsAllowed then refuse s seq .emergencyStopActive
  else answerDac seq (writeDacRaw b env s id channel value)

def dacWriteNormalized (b : Board) (env : Env) (s : State) (seq : UInt16) (id channel : UInt8)
    (normalized : UInt16) : Outcome :=
  if !s.safety.outputsAllowed then refuse s seq .emergencyStopActive
  else if id ≥ kMaxDacs || !(s.dacs id).active then refuse s seq .invalidPayload
  else
    let value := (normalized.toUInt32 * (dacMaxValue (s.dacs id)).toUInt32 / 10000).toUInt16
    answerDac seq (writeDacRaw b env s id channel value)

/-! ### Dispatch -/

/-- `packet.payload[i]`. -/
def byte (p : Packet) (i : ℕ) : UInt8 := p.payload.toList.getD i 0

def word16 (p : Packet) (i : ℕ) : UInt16 :=
  (byte p i).toUInt16 ||| ((byte p (i + 1)).toUInt16 <<< 8)

def word32 (p : Packet) (i : ℕ) : UInt32 :=
  (byte p i).toUInt32 ||| ((byte p (i + 1)).toUInt32 <<< 8) |||
    ((byte p (i + 2)).toUInt32 <<< 16) ||| ((byte p (i + 3)).toUInt32 <<< 24)

/-- The length check at the head of a case. -/
def needing (n : UInt16) (s : State) (p : Packet) (body : Outcome) : Outcome :=
  if p.length < n then refuse s p.seq .invalidPayload else body

variable (b : Board) (env : Env) (s : State) (p : Packet) (command : UInt8)

def handleSystem : Outcome :=
  match CommandId.ofByte command with
  | some .ping => ping s p.seq
  | some .getInfo => getInfo b s p.seq
  | some .heartbeat => heartbeat env s p.seq
  | some .emergencyStop => emergencyStop b s p.seq
  | some .clearEmergencyStop => clearEmergencyStop env s p.seq
  | some .resetConfig => resetConfig b s p.seq
  | _ => refuse s p.seq .unknownCommand

def handleDigital : Outcome :=
  match CommandId.ofByte command with
  | some .configDigitalOutput =>
    needing 3 s p (configDigitalOutput b s p.seq (byte p 1) (byte p 2 != 0))
  | some .configDigitalInput => needing 3 s p (configDigitalInput b s p.seq (byte p 1) (byte p 2))
  | some .digitalRead => needing 2 s p (digitalRead b env s p.seq (byte p 1))
  | some .digitalWrite => needing 3 s p (digitalWrite b s p.seq (byte p 1) (byte p 2 != 0))
  | _ => refuse s p.seq .unknownCommand

def handlePwm : Outcome :=
  match CommandId.ofByte command with
  | some .configPwm => needing 7 s p (configPwm b s p.seq (byte p 1) (word32 p 2) (byte p 6))
  | some .pwmWrite => needing 3 s p (pwmWrite b s p.seq (byte p 1) (byte p 2))
  | some .pwmDisable => needing 2 s p (pwmDisable b s p.seq (byte p 1))
  | _ => refuse s p.seq .unknownCommand

def handleAnalog : Outcome :=
  match CommandId.ofByte command with
  | some .configAnalog => needing 3 s p (configAnalog b s p.seq (byte p 1) (byte p 2))
  | some .analogRead => needing 2 s p (analogRead b env s p.seq (byte p 1))
  | _ => refuse s p.seq .unknownCommand

def handleCounter : Outcome :=
  match CommandId.ofByte command with
  | some .configCounter => needing 4 s p (configCounter b s p.seq (byte p 1) (byte p 2) (byte p 3))
  | some .counterRead => needing 2 s p (counterRead s p.seq (byte p 1))
  | some .counterReset => needing 2 s p (counterReset s p.seq (byte p 1))
  | some .counterFrequency => needing 2 s p (counterFrequency s p.seq (byte p 1))
  | _ => refuse s p.seq .unknownCommand

def handleEncoder : Outcome :=
  match CommandId.ofByte command with
  | some .configEncoder =>
    needing 5 s p (configEncoder b env s p.seq (byte p 1) (byte p 2) (byte p 3) (byte p 4))
  | some .encoderRead => needing 2 s p (encoderRead s p.seq (byte p 1))
  | some .encoderReset => needing 2 s p (encoderReset s p.seq (byte p 1))
  | _ => refuse s p.seq .unknownCommand

def handleSubscription : Outcome :=
  match CommandId.ofByte command with
  | some .subscribe =>
    needing 6 s p (subscribe b env s p.seq (byte p 1) (byte p 2) (word16 p 3) (byte p 5))
  | some .unsubscribe => needing 3 s p (unsubscribe s p.seq (byte p 1) (byte p 2))
  | _ => refuse s p.seq .unknownCommand

/-- The bytes of an `I2cWrite`, if the packet holds as many as it says. -/
def i2cBytes : Option (List UInt8) :=
  if p.length.toNat < 4 + (byte p 3).toNat then none
  else some ((p.payload.toList.drop 4).take (byte p 3).toNat)

def handleI2c : Outcome :=
  match CommandId.ofByte command with
  | some .configI2cBus => needing 6 s p (configI2cBus b s p.seq (byte p 1) (word32 p 2))
  | some .i2cWrite =>
    needing 4 s p <|
      match i2cBytes p with
      | none => refuse s p.seq .invalidPayload
      | some bytes => i2cWrite b env s p.seq (byte p 1) (byte p 2) bytes
  | some .i2cRead => needing 4 s p (i2cRead b env s p.seq (byte p 1) (byte p 2) (byte p 3))
  | some .configDac =>
    needing 6 s p
      (configDac s p.seq (byte p 1) (byte p 2) (byte p 3) (byte p 4) (byte p 5))
  | some .dacWriteRaw =>
    needing 5 s p (dacWriteRaw b env s p.seq (byte p 1) (byte p 2) (word16 p 3))
  | some .dacWriteNormalized =>
    needing 5 s p (dacWriteNormalized b env s p.seq (byte p 1) (byte p 2) (word16 p 3))
  | _ => refuse s p.seq .unknownCommand

def isSystem : Bool :=
  [CommandId.ping, .getInfo, .heartbeat, .resetConfig, .emergencyStop, .clearEmergencyStop].any
    fun c => command == c.toByte

def dispatch : Outcome :=
  let group := command &&& 0xF0
  if isSystem command then handleSystem b env s p command
  else if group = 0x10 then handleDigital b env s p command
  else if group = 0x20 then handlePwm b s p command
  else if group = 0x30 then handleAnalog b env s p command
  else if group = 0x40 then handleCounter b s p command
  else if group = 0x50 then handleEncoder b env s p command
  else if group = 0x60 then handleSubscription b env s p command
  else if group = 0x70 then handleI2c b env s p command
  else refuse s p.seq .unknownCommand

def handle : Outcome :=
  if p.type ≠ PacketType.command.toByte ∨ p.length = 0 then refuse s p.seq .invalidPayload
  else dispatch b env s p (byte p 0)

end FirmwareCommands
