import TeensyIo.FirmwareUpdate

/-! # Commands as requests

A packet either carries a request with its arguments or is refused at once. What the handler
does to a request is its body; the dispatch over bytes and lengths is settled here once, so
that everything below speaks about requests. -/
namespace FirmwareRequests

open WireCommands FirmwareState FirmwareCommands FirmwareUpdate
open FirmwareProtocol (Packet)

inductive Request where
  | ping | getInfo | heartbeat | resetConfig | emergencyStop | clearEmergencyStop
  | configDigitalInput (pin pull : UInt8)
  | configDigitalOutput (pin : UInt8) (initial : Bool)
  | digitalRead (pin : UInt8)
  | digitalWrite (pin : UInt8) (value : Bool)
  | configPwm (pin : UInt8) (frequency : UInt32) (duty : UInt8)
  | pwmWrite (pin duty : UInt8)
  | pwmDisable (pin : UInt8)
  | configAnalog (pin samples : UInt8)
  | analogRead (pin : UInt8)
  | configCounter (id pin edge : UInt8)
  | counterRead (id : UInt8)
  | counterReset (id : UInt8)
  | counterFrequency (id : UInt8)
  | configEncoder (id pinA pinB mode : UInt8)
  | encoderRead (id : UInt8)
  | encoderReset (id : UInt8)
  | subscribe (kind id : UInt8) (rateHz : UInt16) (flags : UInt8)
  | unsubscribe (kind id : UInt8)
  | configI2cBus (bus : UInt8) (frequency : UInt32)
  | i2cWrite (bus address : UInt8) (bytes : List UInt8)
  | i2cRead (bus address length : UInt8)
  | configDac (id bus address channels resolution : UInt8)
  | dacWriteRaw (id channel : UInt8) (value : UInt16)
  | dacWriteNormalized (id channel : UInt8) (normalized : UInt16)
  deriving DecidableEq, Repr

/-- A request that takes at least `n` payload bytes. -/
def taking (n : UInt16) (p : Packet) (r : Request) : Except ErrorCode Request :=
  if p.length < n then .error .invalidPayload else .ok r

def requestOf (p : Packet) : CommandId → Except ErrorCode Request
  | .ping => .ok .ping
  | .getInfo => .ok .getInfo
  | .heartbeat => .ok .heartbeat
  | .resetConfig => .ok .resetConfig
  | .emergencyStop => .ok .emergencyStop
  | .clearEmergencyStop => .ok .clearEmergencyStop
  | .configDigitalInput => taking 3 p (.configDigitalInput (byte p 1) (byte p 2))
  | .configDigitalOutput => taking 3 p (.configDigitalOutput (byte p 1) (byte p 2 != 0))
  | .digitalRead => taking 2 p (.digitalRead (byte p 1))
  | .digitalWrite => taking 3 p (.digitalWrite (byte p 1) (byte p 2 != 0))
  | .configPwm => taking 7 p (.configPwm (byte p 1) (word32 p 2) (byte p 6))
  | .pwmWrite => taking 3 p (.pwmWrite (byte p 1) (byte p 2))
  | .pwmDisable => taking 2 p (.pwmDisable (byte p 1))
  | .configAnalog => taking 3 p (.configAnalog (byte p 1) (byte p 2))
  | .analogRead => taking 2 p (.analogRead (byte p 1))
  | .configCounter => taking 4 p (.configCounter (byte p 1) (byte p 2) (byte p 3))
  | .counterRead => taking 2 p (.counterRead (byte p 1))
  | .counterReset => taking 2 p (.counterReset (byte p 1))
  | .counterFrequency => taking 2 p (.counterFrequency (byte p 1))
  | .configEncoder => taking 5 p (.configEncoder (byte p 1) (byte p 2) (byte p 3) (byte p 4))
  | .encoderRead => taking 2 p (.encoderRead (byte p 1))
  | .encoderReset => taking 2 p (.encoderReset (byte p 1))
  | .subscribe => taking 6 p (.subscribe (byte p 1) (byte p 2) (word16 p 3) (byte p 5))
  | .unsubscribe => taking 3 p (.unsubscribe (byte p 1) (byte p 2))
  | .telemetryFrame => .error .unknownCommand
  | .configI2cBus => taking 6 p (.configI2cBus (byte p 1) (word32 p 2))
  | .i2cWrite =>
    if p.length < 4 then .error .invalidPayload
    else
      match i2cBytes p with
      | none => .error .invalidPayload
      | some bytes => .ok (.i2cWrite (byte p 1) (byte p 2) bytes)
  | .i2cRead => taking 4 p (.i2cRead (byte p 1) (byte p 2) (byte p 3))
  | .configDac =>
    taking 6 p (.configDac (byte p 1) (byte p 2) (byte p 3) (byte p 4) (byte p 5))
  | .dacWriteRaw => taking 5 p (.dacWriteRaw (byte p 1) (byte p 2) (word16 p 3))
  | .dacWriteNormalized => taking 5 p (.dacWriteNormalized (byte p 1) (byte p 2) (word16 p 3))

def decode (p : Packet) : Except ErrorCode Request :=
  if p.type ≠ PacketType.command.toByte ∨ p.length = 0 then .error .invalidPayload
  else
    match CommandId.ofByte (byte p 0) with
    | none => .error .unknownCommand
    | some c => requestOf p c

def execute (b : Board) (env : Env) (s : State) (seq : UInt16) : Request → Outcome
  | .ping => ping s seq
  | .getInfo => getInfo b s seq
  | .heartbeat => heartbeat env s seq
  | .resetConfig => resetConfig b s seq
  | .emergencyStop => emergencyStop b s seq
  | .clearEmergencyStop => clearEmergencyStop env s seq
  | .configDigitalInput pin pull => configDigitalInput b s seq pin pull
  | .configDigitalOutput pin initial => configDigitalOutput b s seq pin initial
  | .digitalRead pin => digitalRead b env s seq pin
  | .digitalWrite pin value => digitalWrite b s seq pin value
  | .configPwm pin frequency duty => configPwm b s seq pin frequency duty
  | .pwmWrite pin duty => pwmWrite b s seq pin duty
  | .pwmDisable pin => pwmDisable b s seq pin
  | .configAnalog pin samples => configAnalog b s seq pin samples
  | .analogRead pin => analogRead b env s seq pin
  | .configCounter id pin edge => configCounter b s seq id pin edge
  | .counterRead id => counterRead s seq id
  | .counterReset id => counterReset s seq id
  | .counterFrequency id => counterFrequency s seq id
  | .configEncoder id pinA pinB mode => configEncoder b env s seq id pinA pinB mode
  | .encoderRead id => encoderRead s seq id
  | .encoderReset id => encoderReset s seq id
  | .subscribe kind id rateHz flags => subscribe b env s seq kind id rateHz flags
  | .unsubscribe kind id => unsubscribe s seq kind id
  | .configI2cBus bus frequency => configI2cBus b s seq bus frequency
  | .i2cWrite bus address bytes => i2cWrite b env s seq bus address bytes
  | .i2cRead bus address length => i2cRead b env s seq bus address length
  | .configDac id bus address channels resolution =>
    configDac s seq id bus address channels resolution
  | .dacWriteRaw id channel value => dacWriteRaw b env s seq id channel value
  | .dacWriteNormalized id channel normalized =>
    dacWriteNormalized b env s seq id channel normalized

/-- The answer to a packet, by what it decodes to. -/
def answer (b : Board) (env : Env) (s : State) (seq : UInt16) :
    Except ErrorCode Request → Outcome
  | .error code => refuse s seq code
  | .ok r => execute b env s seq r

variable (b : Board) (env : Env) (s : State) (p : Packet)

theorem answer_taking (n : UInt16) (r : Request) :
    answer b env s p.seq (taking n p r) = needing n s p (execute b env s p.seq r) := by
  unfold taking needing
  split_ifs <;> rfl

theorem not_system_of_none {command : UInt8} (h : CommandId.ofByte command = none) :
    isSystem command = false := by
  rw [isSystem, List.any_eq_false]
  rintro c - hc
  rw [eq_of_beq hc, CommandId.ofByte_toByte] at h
  cases h

theorem dispatch_unknown {command : UInt8} (h : CommandId.ofByte command = none) :
    dispatch b env s p command = refuse s p.seq .unknownCommand := by
  rw [dispatch, not_system_of_none h, if_neg Bool.false_ne_true]
  simp only [handleDigital, handlePwm, handleAnalog, handleCounter, handleEncoder,
    handleSubscription, handleI2c, h, ite_self]

/-- System commands and groups lead every known command to its case. -/
theorem dispatch_known (c : CommandId) :
    dispatch b env s p c.toByte = answer b env s p.seq (requestOf p c) := by
  cases c with
  | i2cWrite =>
    change needing 4 s p _ = answer b env s p.seq (if p.length < 4 then _ else _)
    unfold needing
    split_ifs
    · rfl
    · cases i2cBytes p <;> rfl
  | _ => first | rfl | (rw [requestOf, answer_taking]; rfl)

theorem handle_eq : handle b env s p = answer b env s p.seq (decode p) := by
  unfold handle decode
  split_ifs with hbad
  · rfl
  · cases hcommand : CommandId.ofByte (byte p 0) with
    | none => exact dispatch_unknown b env s p hcommand
    | some c =>
      rw [← CommandId.toByte_of_ofByte hcommand]
      exact dispatch_known b env s p c

end FirmwareRequests
