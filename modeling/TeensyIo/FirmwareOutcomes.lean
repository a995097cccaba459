import TeensyIo.FirmwareRequests

/-! # What a request can do

One relation lists every outcome of a request together with what the handler has checked
before it. The properties of commands are read off this list. -/
namespace FirmwareOutcomes

open WireCommands FirmwareState FirmwareCommands FirmwareRequests
open FirmwareProtocol (kMaxPayloadSize)

/-- The two ways to write a DAC slot. -/
inductive WritesDac : Request → UInt8 → Prop where
  | raw (id channel value) : WritesDac (.dacWriteRaw id channel value) id
  | normalized (id channel value) : WritesDac (.dacWriteNormalized id channel value) id

/-- The slot can be written: it is active and its bus works. -/
structure DacReady (b : Board) (s : State) (id : UInt8) : Prop where
  id_lt : id < kMaxDacs
  active : (s.dacs id).active = true
  wire : wireForBus b (s.dacs id).bus = true
  configured : s.i2cConfigured (s.dacs id).bus = true

/-- Every outcome of a request, with what the handler has checked before it. -/
inductive Executed (b : Board) (env : Env) (s : State) (seq : UInt16) :
    Request → Outcome → Prop where
  | refused {r} (code : ErrorCode) : Executed b env s seq r (s, [nack seq code])
  | answered {r} (payload : List UInt8) : payload.length ≤ kMaxPayloadSize →
      Executed b env s seq r (s, [data seq payload])
  | heartbeat : Executed b env s seq .heartbeat (heartbeat env s seq)
  | resetConfig : Executed b env s seq .resetConfig (resetConfig b s seq)
  | emergencyStop : Executed b env s seq .emergencyStop (emergencyStop b s seq)
  | clearEmergencyStop : Executed b env s seq .clearEmergencyStop (clearEmergencyStop env s seq)
  | configDigitalInput {pin pull} (mode : PinMode) : isValidDigitalPin b pin = true →
      Executed b env s seq (.configDigitalInput pin pull) (s, [.pinMode pin mode, ackTo seq])
  | configDigitalOutput {pin initial} : (initial = true → s.safety.outputsAllowed = true) →
      isValidDigitalPin b pin = true →
      Executed b env s seq (.configDigitalOutput pin initial)
        (s, [.pinMode pin .output, .digitalWrite pin initial, ackTo seq])
  | digitalWrite {pin value} : s.safety.outputsAllowed = true → isValidDigitalPin b pin = true →
      Executed b env s seq (.digitalWrite pin value) (s, [.digitalWrite pin value, ackTo seq])
  | configPwm {pin frequency duty} : (0 < duty → s.safety.outputsAllowed = true) →
      isValidPwmPin b pin = true →
      Executed b env s seq (.configPwm pin frequency duty)
        ({ s with pwmConfigured := setAt s.pwmConfigured pin true },
          [.pinMode pin .output, .analogWriteResolution 8, .analogWriteFrequency pin frequency,
            .analogWrite pin duty, ackTo seq])
  | pwmWrite {pin duty} : s.safety.outputsAllowed = true → isValidPwmPin b pin = true →
      s.pwmConfigured pin = true →
      Executed b env s seq (.pwmWrite pin duty) (s, [.analogWrite pin duty, ackTo seq])
  | pwmDisable {pin} : isValidPwmPin b pin = true →
      Executed b env s seq (.pwmDisable pin)
        ({ s with pwmConfigured := setAt s.pwmConfigured pin false },
          [.analogWrite pin 0, ackTo seq])
  | configAnalog {pin samples} (count : UInt8) : isValidAnalogPin b pin = true →
      Executed b env s seq (.configAnalog pin samples)
        ({ s with
          analogConfigured := setAt s.analogConfigured pin true
          analogSamples := setAt s.analogSamples pin count },
          [.analogReadResolution 12, ackTo seq])
  | configCounter {id pin edge} : id < kMaxCounters → isValidDigitalPin b pin = true →
      Executed b env s seq (.configCounter id pin edge)
        ({ s with counters := setAt s.counters id { active := true, pin := pin, edge := edge } },
          detachCounter s id ++
            [.attachInterrupt pin (some (.counter id)) (edgeToInterruptMode edge), ackTo seq])
  | counterReset {id} : (s.counters id).active = true →
      Executed b env s seq (.counterReset id)
        ({ s with
          counters := setAt s.counters id
            { s.counters id with count := 0, lastEdgeUs := 0, periodUs := 0 } }, [ackTo seq])
  | configEncoder {id pinA pinB mode} (lastState : UInt8) : id < kMaxEncoders →
      isValidDigitalPin b pinA = true → isValidDigitalPin b pinB = true →
      Executed b env s seq (.configEncoder id pinA pinB mode)
        ({ s with
          encoders := setAt s.encoders id
            { active := true, pinA := pinA, pinB := pinB, mode := mode, lastState := lastState } },
          [.pinMode pinA .input, .pinMode pinB .input] ++ detachEncoder s id ++
            [.attachInterrupt pinA (some (.encoder id)) .change,
              .attachInterrupt pinB (some (.encoder id)) .change, ackTo seq])
  | encoderReset {id} : (s.encoders id).active = true →
      Executed b env s seq (.encoderReset id)
        ({ s with encoders := setAt s.encoders id { s.encoders id with position := 0 } },
          [ackTo seq])
  | subscribed {r} (slots : UInt8 → SubscriptionSlot) :
      Executed b env s seq r ({ s with subscriptions := slots }, [ackTo seq])
  | configI2cBus {bus frequency} (clock : UInt32) : bus < kMaxI2cBuses → wireForBus b bus = true →
      Executed b env s seq (.configI2cBus bus frequency)
        ({ s with i2cConfigured := setAt s.i2cConfigured bus true },
          [.wireBegin bus, .wireSetClock bus clock, ackTo seq])
  | i2cWrite {bus address bytes} (type : PacketType) (code : ErrorCode) : bus < kMaxI2cBuses →
      s.i2cConfigured bus = true → wireForBus b bus = true → (type = .ack ∨ type = .nack) →
      Executed b env s seq (.i2cWrite bus address bytes)
        (s, [.transmit .i2cWrite bus address bytes, .write type seq [code.toByte]])
  | i2cRead {bus address length} (payload : List UInt8) : payload.length ≤ kMaxPayloadSize →
      Executed b env s seq (.i2cRead bus address length)
        (s, [.requestFrom bus address length, data seq payload])
  | configDac {id bus address channels resolution} : id < kMaxDacs → bus < kMaxI2cBuses →
      s.i2cConfigured bus = true → channels ≠ 0 → resolution ≠ 0 → resolution ≤ 16 →
      Executed b env s seq (.configDac id bus address channels resolution)
        ({ s with
          dacs := setAt s.dacs id
            { active := true, bus := bus, address := address, channels := channels
              resolutionBits := resolution } }, [ackTo seq])
  | dacFailed {r id} (bytes : List UInt8) : WritesDac r id → s.safety.outputsAllowed = true →
      DacReady b s id →
      Executed b env s seq r
        (s, [.transmit .writeDacRaw (s.dacs id).bus (s.dacs id).address bytes,
          nack seq .resourceUnavailable])
  | dacWritten {r id} (bytes : List UInt8) (value : UInt16) : WritesDac r id →
      s.safety.outputsAllowed = true → DacReady b s id →
      Executed b env s seq r
        ({ s with dacs := setAt s.dacs id { s.dacs id with lastValue := value } },
          [.transmit .writeDacRaw (s.dacs id).bus (s.dacs id).address bytes, ackTo seq])

/-! ### The list is complete -/

variable (b : Board) (env : Env) (s : State) (seq : UInt16)

theorem configCounter_accepted {id pin : UInt8} (edge : UInt8) (hid : id < kMaxCounters)
    (hpin : isValidDigitalPin b pin = true) :
    configCounter b s seq id pin edge =
      ({ s with counters := setAt s.counters id { active := true, pin := pin, edge := edge } },
        detachCounter s id ++
          [.attachInterrupt pin (some (.counter id)) (edgeToInterruptMode edge), ackTo seq]) := by
  have hguard : (decide (id ≥ kMaxCounters) || !isValidDigitalPin b pin) = false := by
    simp [hpin, UInt8.not_le.mpr hid]
  simp [configCounter, configureCounter, hguard, counterIsrFor, hid]

theorem configEncoder_accepted {id pinA pinB : UInt8} (mode : UInt8) (hid : id < kMaxEncoders)
    (hA : isValidDigitalPin b pinA = true) (hB : isValidDigitalPin b pinB = true) :
    configEncoder b env s seq id pinA pinB mode =
      ({ s with
        encoders := setAt s.encoders id
          { active := true, pinA := pinA, pinB := pinB, mode := mode
            lastState := encoderState env pinA pinB } },
        [.pinMode pinA .input, .pinMode pinB .input] ++ detachEncoder s id ++
          [.attachInterrupt pinA (some (.encoder id)) .change,
            .attachInterrupt pinB (some (.encoder id)) .change, ackTo seq]) := by
  have hguard : (decide (id ≥ kMaxEncoders) || !isValidDigitalPin b pinA ||
      !isValidDigitalPin b pinB) = false := by
    simp [hA, hB, UInt8.not_le.mpr hid]
  simp [configEncoder, configureEncoder, hguard, encoderIsrFor, hid]

theorem configCounter_executed (id pin edge : UInt8) :
    Executed b env s seq (.configCounter id pin edge) (configCounter b s seq id pin edge) := by
  unfold configCounter configureCounter
  split_ifs with h
  · exact .refused _
  · simp only [Bool.or_eq_true, decide_eq_true_eq, Bool.not_eq_true', not_or, ge_iff_le,
      UInt8.not_le, Bool.not_eq_false] at h
    dsimp only
    rw [counterIsrFor, if_pos h.1, List.append_assoc]
    exact .configCounter h.1 h.2

theorem configEncoder_executed (id pinA pinB mode : UInt8) :
    Executed b env s seq (.configEncoder id pinA pinB mode)
      (configEncoder b env s seq id pinA pinB mode) := by
  unfold configEncoder configureEncoder
  split_ifs with h
  · exact .refused _
  · simp only [Bool.or_eq_true, decide_eq_true_eq, Bool.not_eq_true', not_or, ge_iff_le,
      UInt8.not_le, Bool.not_eq_false] at h
    dsimp only
    rw [encoderIsrFor, if_pos h.1.1, List.append_assoc]
    exact .configEncoder _ h.1.1 h.1.2 h.2

theorem subscribe_executed (kind id : UInt8) (rateHz : UInt16) (flags : UInt8) (r : Request) :
    Executed b env s seq r (subscribe b env s seq kind id rateHz flags) := by
  unfold subscribe
  split
  · exact .refused _
  · split
    · exact .refused _
    · exact .subscribed _

theorem i2cWrite_executed (bus address : UInt8) (bytes : List UInt8) :
    Executed b env s seq (.i2cWrite bus address bytes)
      (i2cWrite b env s seq bus address bytes) := by
  unfold i2cWrite
  split_ifs with hbus hwire hresult
  · exact .refused _
  · exact .refused _
  all_goals
    simp only [Bool.or_eq_true, decide_eq_true_eq, Bool.not_eq_true', not_or, ge_iff_le,
      UInt8.not_le, Bool.not_eq_false] at hbus hwire
  · exact .i2cWrite .nack .resourceUnavailable hbus.1 hbus.2 hwire (Or.inr rfl)
  · exact .i2cWrite .ack .ok hbus.1 hbus.2 hwire (Or.inl rfl)

theorem i2cRead_executed (bus address length : UInt8) :
    Executed b env s seq (.i2cRead bus address length)
      (i2cRead b env s seq bus address length) := by
  unfold i2cRead
  split_ifs with hbus hwire
  · exact .refused _
  · exact .refused _
  · refine .i2cRead _ ?_
    simp only [Bool.or_eq_true, decide_eq_true_eq, not_or] at hbus
    have hle : (env.requestFrom length).1.toNat ≤ length.toNat := env.requested_le length
    simp only [List.length_append, List.length_take, List.length_replicate]
    omega

theorem configDac_executed (id bus address channels resolution : UInt8) :
    Executed b env s seq (.configDac id bus address channels resolution)
      (configDac s seq id bus address channels resolution) := by
  unfold configDac
  split_ifs with h
  · exact .refused _
  · simp only [Bool.or_eq_true, decide_eq_true_eq, Bool.not_eq_true', not_or, ge_iff_le,
      UInt8.not_le, Bool.not_eq_false, gt_iff_lt, UInt8.not_lt] at h
    obtain ⟨⟨⟨⟨⟨hid, hbus⟩, hconf⟩, hch⟩, hres⟩, hmax⟩ := h
    exact .configDac hid hbus hconf hch hres hmax

theorem writeDac_executed {r : Request} {id : UInt8} (hr : WritesDac r id)
    (ha : s.safety.outputsAllowed = true) (channel : UInt8) (value : UInt16) :
    Executed b env s seq r (answerDac seq (writeDacRaw b env s id channel value)) := by
  unfold writeDacRaw
  dsimp only
  split_ifs with hslot hbus hsent
  · exact .refused _
  · exact .refused _
  all_goals
    simp only [Bool.or_eq_true, decide_eq_true_eq, Bool.not_eq_true', not_or, ge_iff_le,
      UInt8.not_le, Bool.not_eq_false] at hslot hbus
    have hready : DacReady b s id := ⟨hslot.1.1, hslot.1.2, hbus.1, hbus.2⟩
  · exact .dacFailed _ hr ha hready
  · exact .dacWritten _ _ hr ha hready

theorem dacWriteRaw_executed (id channel : UInt8) (value : UInt16) :
    Executed b env s seq (.dacWriteRaw id channel value)
      (dacWriteRaw b env s seq id channel value) := by
  unfold dacWriteRaw
  split_ifs with ha
  · exact .refused _
  · exact writeDac_executed b env s seq (.raw id channel value) (by simpa using ha) channel value

theorem dacWriteNormalized_executed (id channel : UInt8) (normalized : UInt16) :
    Executed b env s seq (.dacWriteNormalized id channel normalized)
      (dacWriteNormalized b env s seq id channel normalized) := by
  unfold dacWriteNormalized
  split_ifs with ha
  · exact .refused _
  · exact .refused _
  · exact writeDac_executed b env s seq (.normalized id channel normalized) (by simpa using ha)
      channel _

/-- Nothing else can happen. -/
theorem execute_spec (r : Request) : Executed b env s seq r (execute b env s seq r) := by
  cases r with
  | ping => exact .answered _ (by simp [kMaxPayloadSize])
  | getInfo => exact .answered _ (by simp [kMaxPayloadSize])
  | heartbeat => exact .heartbeat
  | resetConfig => exact .resetConfig
  | emergencyStop => exact .emergencyStop
  | clearEmergencyStop => exact .clearEmergencyStop
  | configDigitalInput pin pull =>
    simp only [execute, configDigitalInput]
    split_ifs with hpin
    · exact .refused _
    all_goals exact .configDigitalInput _ (by simpa using hpin)
  | configDigitalOutput pin initial =>
    simp only [execute, configDigitalOutput]
    split_ifs with ha hpin
    · exact .refused _
    · exact .refused _
    · exact .configDigitalOutput (by simpa using ha) (by simpa using hpin)
  | digitalRead pin =>
    simp only [execute, FirmwareCommands.digitalRead]
    split_ifs
    · exact .refused _
    all_goals exact .answered _ (by simp [kMaxPayloadSize])
  | digitalWrite pin value =>
    simp only [execute, FirmwareCommands.digitalWrite]
    split_ifs with ha hpin
    · exact .refused _
    · exact .refused _
    · exact .digitalWrite (by simpa using ha) (by simpa using hpin)
  | configPwm pin frequency duty =>
    simp only [execute, configPwm]
    split_ifs with ha hpin
    · exact .refused _
    · exact .refused _
    · exact .configPwm (by simpa using ha) (by simpa using hpin)
  | pwmWrite pin duty =>
    simp only [execute, pwmWrite]
    split_ifs with ha hpin
    · exact .refused _
    · exact .refused _
    · simp only [Bool.or_eq_true, Bool.not_eq_true', not_or, Bool.not_eq_false] at ha hpin
      exact .pwmWrite ha hpin.1 hpin.2
  | pwmDisable pin =>
    simp only [execute, pwmDisable]
    split_ifs with hpin
    · exact .refused _
    · exact .pwmDisable (by simpa using hpin)
  | configAnalog pin samples =>
    simp only [execute, configAnalog]
    split_ifs with hpin
    · exact .refused _
    all_goals exact .configAnalog _ (by simpa using hpin)
  | analogRead pin =>
    simp only [execute, FirmwareCommands.analogRead]
    split_ifs
    · exact .refused _
    · exact .answered _ (by simp [writeU16, kMaxPayloadSize])
  | configCounter id pin edge => exact configCounter_executed b env s seq id pin edge
  | counterRead id =>
    simp only [execute, counterRead]
    split_ifs
    · exact .refused _
    · exact .answered _ (by simp [writeI32, kMaxPayloadSize])
  | counterReset id =>
    simp only [execute, counterReset]
    split_ifs with h
    · exact .refused _
    · simp only [Bool.or_eq_true, Bool.not_eq_true', not_or, Bool.not_eq_false] at h
      exact .counterReset h.2
  | counterFrequency id =>
    simp only [execute, counterFrequency]
    split_ifs
    · exact .refused _
    all_goals exact .answered _ (by simp [writeU32, kMaxPayloadSize])
  | configEncoder id pinA pinB mode => exact configEncoder_executed b env s seq id pinA pinB mode
  | encoderRead id =>
    simp only [execute, encoderRead]
    split_ifs
    · exact .refused _
    · exact .answered _ (by simp [writeI32, kMaxPayloadSize])
  | encoderReset id =>
    simp only [execute, encoderReset]
    split_ifs with h
    · exact .refused _
    · simp only [Bool.or_eq_true, Bool.not_eq_true', not_or, Bool.not_eq_false] at h
      exact .encoderReset h.2
  | subscribe kind id rateHz flags => exact subscribe_executed b env s seq kind id rateHz flags _
  | unsubscribe kind id => exact .subscribed _
  | configI2cBus bus frequency =>
    simp only [execute, configI2cBus]
    split_ifs with h
    · exact .refused _
    all_goals
      simp only [Bool.or_eq_true, decide_eq_true_eq, Bool.not_eq_true', not_or, ge_iff_le,
        UInt8.not_le, Bool.not_eq_false] at h
      exact .configI2cBus _ h.1 h.2
  | i2cWrite bus address bytes => exact i2cWrite_executed b env s seq bus address bytes
  | i2cRead bus address length => exact i2cRead_executed b env s seq bus address length
  | configDac id bus address channels resolution =>
    exact configDac_executed b env s seq id bus address channels resolution
  | dacWriteRaw id channel value => exact dacWriteRaw_executed b env s seq id channel value
  | dacWriteNormalized id channel normalized =>
    exact dacWriteNormalized_executed b env s seq id channel normalized

end FirmwareOutcomes
