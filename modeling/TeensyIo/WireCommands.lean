import Mathlib.Logic.Function.Basic
import Mathlib.Tactic.Common

/-! # Command numbers

`CommandIds.h` and `commands.py` list the same enumerations with the same values. The
firmware casts bytes to them unchecked; Python raises `ValueError` on a foreign byte, which
is the `none` of `ofByte`. -/
namespace WireCommands

/-- Looking a byte up among the members of an enumeration. -/
def memberOf {ε : Type} (members : List ε) (code : ε → UInt8) (byte : UInt8) : Option ε :=
  members.find? fun e => code e == byte

theorem memberOf_some {ε : Type} {members : List ε} {code : ε → UInt8} {byte : UInt8} {e : ε}
    (h : memberOf members code byte = some e) : code e = byte := by
  simpa using List.find?_some h

theorem memberOf_code {ε : Type} {members : List ε} {code : ε → UInt8}
    (complete : ∀ e, e ∈ members) (inj : Function.Injective code) (e : ε) :
    memberOf members code (code e) = some e := by
  cases h : memberOf members code (code e) with
  | none =>
    have := List.find?_eq_none.mp h e (complete e)
    simp at this
  | some d => exact congrArg some (inj (memberOf_some h))

inductive PacketType where
  | command | ack | nack | data | event | telemetry | error
  deriving DecidableEq, Repr

def PacketType.toByte : PacketType → UInt8
  | .command => 0x01
  | .ack => 0x02
  | .nack => 0x03
  | .data => 0x04
  | .event => 0x05
  | .telemetry => 0x06
  | .error => 0x07

def PacketType.ofByte : UInt8 → Option PacketType :=
  memberOf [.command, .ack, .nack, .data, .event, .telemetry, .error] toByte

inductive CommandId where
  | ping | getInfo | heartbeat | resetConfig
  | configDigitalInput | configDigitalOutput | digitalRead | digitalWrite
  | configPwm | pwmWrite | pwmDisable
  | configAnalog | analogRead
  | configCounter | counterRead | counterReset | counterFrequency
  | configEncoder | encoderRead | encoderReset
  | subscribe | unsubscribe | telemetryFrame
  | configI2cBus | i2cWrite | i2cRead | configDac | dacWriteRaw | dacWriteNormalized
  | emergencyStop | clearEmergencyStop
  deriving DecidableEq, Repr

def CommandId.toByte : CommandId → UInt8
  | .ping => 0x01
  | .getInfo => 0x02
  | .heartbeat => 0x03
  | .resetConfig => 0x04
  | .configDigitalInput => 0x10
  | .configDigitalOutput => 0x11
  | .digitalRead => 0x12
  | .digitalWrite => 0x13
  | .configPwm => 0x20
  | .pwmWrite => 0x21
  | .pwmDisable => 0x22
  | .configAnalog => 0x30
  | .analogRead => 0x31
  | .configCounter => 0x40
  | .counterRead => 0x41
  | .counterReset => 0x42
  | .counterFrequency => 0x43
  | .configEncoder => 0x50
  | .encoderRead => 0x51
  | .encoderReset => 0x52
  | .subscribe => 0x60
  | .unsubscribe => 0x61
  | .telemetryFrame => 0x62
  | .configI2cBus => 0x70
  | .i2cWrite => 0x71
  | .i2cRead => 0x72
  | .configDac => 0x73
  | .dacWriteRaw => 0x74
  | .dacWriteNormalized => 0x75
  | .emergencyStop => 0xF0
  | .clearEmergencyStop => 0xF1

def CommandId.ofByte : UInt8 → Option CommandId :=
  memberOf [.ping, .getInfo, .heartbeat, .resetConfig,
    .configDigitalInput, .configDigitalOutput, .digitalRead, .digitalWrite,
    .configPwm, .pwmWrite, .pwmDisable, .configAnalog, .analogRead,
    .configCounter, .counterRead, .counterReset, .counterFrequency,
    .configEncoder, .encoderRead, .encoderReset, .subscribe, .unsubscribe, .telemetryFrame,
    .configI2cBus, .i2cWrite, .i2cRead, .configDac, .dacWriteRaw, .dacWriteNormalized,
    .emergencyStop, .clearEmergencyStop] toByte

inductive ErrorCode where
  | ok | unknownCommand | invalidPayload | invalidPin | invalidMode | emergencyStopActive
  | resourceUnavailable
  deriving DecidableEq, Repr

def ErrorCode.toByte : ErrorCode → UInt8
  | .ok => 0x00
  | .unknownCommand => 0x01
  | .invalidPayload => 0x02
  | .invalidPin => 0x03
  | .invalidMode => 0x04
  | .emergencyStopActive => 0x05
  | .resourceUnavailable => 0x06

def ErrorCode.ofByte : UInt8 → Option ErrorCode :=
  memberOf [.ok, .unknownCommand, .invalidPayload, .invalidPin, .invalidMode,
    .emergencyStopActive, .resourceUnavailable] toByte

inductive ResourceKind where
  | digital | analog | counter | encoder | dac
  deriving DecidableEq, Repr

def ResourceKind.toByte : ResourceKind → UInt8
  | .digital => 1
  | .analog => 2
  | .counter => 3
  | .encoder => 4
  | .dac => 5

def ResourceKind.ofByte : UInt8 → Option ResourceKind :=
  memberOf [.digital, .analog, .counter, .encoder, .dac] toByte

theorem PacketType.toByte_injective : Function.Injective PacketType.toByte := by
  intro a b h
  cases a <;> cases b <;> first | rfl | exact absurd h (by decide)

theorem ErrorCode.toByte_injective : Function.Injective ErrorCode.toByte := by
  intro a b h
  cases a <;> cases b <;> first | rfl | exact absurd h (by decide)

theorem ResourceKind.toByte_injective : Function.Injective ResourceKind.toByte := by
  intro a b h
  cases a <;> cases b <;> first | rfl | exact absurd h (by decide)

@[simp] theorem PacketType.ofByte_toByte (t : PacketType) :
    PacketType.ofByte t.toByte = some t :=
  memberOf_code (fun e => by cases e <;> simp) toByte_injective t

@[simp] theorem CommandId.ofByte_toByte (c : CommandId) : CommandId.ofByte c.toByte = some c := by
  cases c <;> rfl

@[simp] theorem ErrorCode.ofByte_toByte (c : ErrorCode) : ErrorCode.ofByte c.toByte = some c :=
  memberOf_code (fun e => by cases e <;> simp) toByte_injective c

@[simp] theorem ResourceKind.ofByte_toByte (k : ResourceKind) :
    ResourceKind.ofByte k.toByte = some k :=
  memberOf_code (fun e => by cases e <;> simp) toByte_injective k

theorem PacketType.toByte_of_ofByte {b : UInt8} {t : PacketType}
    (h : PacketType.ofByte b = some t) : t.toByte = b := memberOf_some h

theorem CommandId.toByte_of_ofByte {b : UInt8} {c : CommandId}
    (h : CommandId.ofByte b = some c) : c.toByte = b := memberOf_some h

end WireCommands
