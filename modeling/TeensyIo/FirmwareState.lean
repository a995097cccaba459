import TeensyIo.FirmwareProtocol

/-! # The firmware's data

`BoardConfig.h`, `SafetyState.h`, `PulseCounter.h` and the members of `CommandHandler`. An
array member is a function of its index, of which the code uses the first few. Calls into
the Arduino core are answered by an `Env` or recorded as an `Effect`. -/
namespace FirmwareState

open WireCommands
open FirmwareProtocol (Packet)

def kDefaultWatchdogTimeoutMs : UInt32 := 300
def kMaxCounters : UInt8 := 8
def kMaxEncoders : UInt8 := 4
def kMaxSubscriptions : UInt8 := 16
def kAsyncOutboundFrames : UInt8 := 64
def kMaxI2cBuses : UInt8 := 3
def kMaxDacs : UInt8 := 8
def kAdcMaxValue : UInt32 := 4095

/-- What the build fixes. The pin loop of `apply_safe_outputs` counts in a byte. -/
structure Board where
  numDigitalPins : ℕ
  pins_le : numDigitalPins ≤ 255
  digitalPinHasPwm : UInt8 → Bool
  hasWire1 : Bool
  hasWire2 : Bool
  firmwareVersion : List UInt8

/-- The answers of the Arduino core during one call into the handler. The natural number
counts the readings of that call, so that two of them may differ. -/
structure Env where
  millis : ℕ → UInt32
  micros : ℕ → UInt32
  digitalRead : ℕ → UInt8 → Bool
  analogRead : ℕ → ℕ → UInt8 → UInt32
  availableForWrite : ℕ → ℤ
  endTransmission : UInt8
  /-- How many bytes arrived, and the bytes. -/
  requestFrom : UInt8 → UInt8 × List UInt8
  requested_le : ∀ n, (requestFrom n).1 ≤ n

def isValidDigitalPin (b : Board) (pin : UInt8) : Bool := decide (pin.toNat < b.numDigitalPins)

def isValidPwmPin (b : Board) (pin : UInt8) : Bool :=
  isValidDigitalPin b pin && b.digitalPinHasPwm pin

def isValidAnalogPin (b : Board) (pin : UInt8) : Bool := decide (pin.toNat < b.numDigitalPins)

/-- `wire_for_bus` is not null. -/
def wireForBus (b : Board) (bus : UInt8) : Bool :=
  if bus = 0 then true
  else if bus = 1 then b.hasWire1
  else if bus = 2 then b.hasWire2
  else false

structure SafetyState where
  watchdogTimeoutMs : UInt32 := kDefaultWatchdogTimeoutMs
  lastHeartbeatMs : UInt32 := 0
  emergencyStopActive : Bool := false
  watchdogExpired : Bool := false
  deriving DecidableEq, Repr

namespace SafetyState

def heartbeat (s : SafetyState) (millis : UInt32) : SafetyState :=
  { s with lastHeartbeatMs := millis, watchdogExpired := false }

/-- The subtraction wraps around. -/
def overdue (s : SafetyState) (millis : UInt32) : Bool :=
  decide (s.watchdogTimeoutMs < millis - s.lastHeartbeatMs)

def update (s : SafetyState) (millis : UInt32) : SafetyState :=
  if s.overdue millis then { s with watchdogExpired := true, emergencyStopActive := true } else s

def emergencyStop (s : SafetyState) : SafetyState := { s with emergencyStopActive := true }

def clearEmergencyStop (s : SafetyState) (millis : UInt32) : SafetyState :=
  heartbeat { s with emergencyStopActive := false, watchdogExpired := false } millis

def outputsAllowed (s : SafetyState) : Bool := !s.emergencyStopActive && !s.watchdogExpired

end SafetyState

/-- `edge` is any byte: the handler casts it to `EdgeMode` without a check. -/
structure CounterSlot where
  active : Bool := false
  pin : UInt8 := 0
  edge : UInt8 := 0
  count : Int32 := 0
  lastEdgeUs : UInt32 := 0
  periodUs : UInt32 := 0
  deriving DecidableEq

structure EncoderSlot where
  active : Bool := false
  pinA : UInt8 := 0
  pinB : UInt8 := 0
  mode : UInt8 := 4
  position : Int32 := 0
  lastState : UInt8 := 0
  deriving DecidableEq

/-- `kind` is any byte: the handler casts it to `ResourceKind` without a check. -/
structure SubscriptionSlot where
  active : Bool := false
  kind : UInt8 := ResourceKind.digital.toByte
  id : UInt8 := 0
  rateHz : UInt16 := 0
  flags : UInt8 := 0
  nextDueMs : UInt32 := 0
  lastValue : Int32 := 0
  hasLastValue : Bool := false
  deriving DecidableEq

structure DacSlot where
  active : Bool := false
  bus : UInt8 := 0
  address : UInt8 := 0
  channels : UInt8 := 1
  resolutionBits : UInt8 := 12
  lastValue : UInt16 := 0
  deriving DecidableEq, Repr

/-- The payload is the part of the slot's buffer that counts. -/
structure OutboundFrame where
  active : Bool := false
  type : PacketType := .telemetry
  seq : UInt16 := 0
  payload : List UInt8 := []
  deriving DecidableEq

structure State where
  safety : SafetyState := {}
  pwmConfigured : UInt8 → Bool := fun _ => false
  analogConfigured : UInt8 → Bool := fun _ => false
  analogSamples : UInt8 → UInt8 := fun _ => 0
  subscriptions : UInt8 → SubscriptionSlot := fun _ => {}
  i2cConfigured : UInt8 → Bool := fun _ => false
  dacs : UInt8 → DacSlot := fun _ => {}
  outbound : UInt8 → OutboundFrame := fun _ => {}
  outboundHead : UInt8 := 0
  outboundTail : UInt8 := 0
  outboundCount : UInt8 := 0
  outboundDropped : UInt32 := 0
  counters : UInt8 → CounterSlot := fun _ => {}
  encoders : UInt8 → EncoderSlot := fun _ => {}

/-- Writing one element of an array member. -/
def setAt {ε : Type} (table : UInt8 → ε) (i : UInt8) (value : ε) : UInt8 → ε :=
  Function.update table i value

@[simp] theorem setAt_self {ε : Type} (table : UInt8 → ε) (i : UInt8) (value : ε) :
    setAt table i value i = value := Function.update_self ..

theorem setAt_of_ne {ε : Type} {i j : UInt8} (h : j ≠ i) (table : UInt8 → ε) (value : ε) :
    setAt table i value j = table j := Function.update_of_ne h ..

/-- The indices of an array, in the order the loops visit them. -/
def indices (n : ℕ) : List UInt8 := (List.range n).map UInt8.ofNat

theorem mem_indices {n : ℕ} (hn : n ≤ 256) (i : UInt8) : i ∈ indices n ↔ i.toNat < n := by
  constructor
  · intro h
    obtain ⟨k, hk, rfl⟩ := List.mem_map.mp h
    have := List.mem_range.mp hk
    rw [UInt8.toNat_ofNat']
    omega
  · intro h
    exact List.mem_map.mpr ⟨i.toNat, List.mem_range.mpr h, UInt8.ofNat_toNat⟩

inductive PinMode where
  | input | inputPullup | inputPulldown | output
  deriving DecidableEq, Repr

inductive InterruptMode where
  | rising | falling | change
  deriving DecidableEq, Repr

/-- `counter_isr_i` and `encoder_isr_i`. -/
inductive Isr where
  | counter (id : UInt8)
  | encoder (id : UInt8)
  deriving DecidableEq, Repr

/-- The function that sends an I2C transaction. -/
inductive Sender where
  | writeDacRaw | i2cWrite
  deriving DecidableEq, Repr

/-- A call into the Arduino core that does something, in the order of the calls. -/
inductive Effect where
  | write (type : PacketType) (seq : UInt16) (payload : List UInt8)
  | pinMode (pin : UInt8) (mode : PinMode)
  | digitalWrite (pin : UInt8) (high : Bool)
  | analogWriteResolution (bits : UInt8)
  | analogWriteFrequency (pin : UInt8) (frequency : UInt32)
  | analogWrite (pin duty : UInt8)
  | analogReadResolution (bits : UInt8)
  | attachInterrupt (pin : UInt8) (isr : Option Isr) (mode : InterruptMode)
  | detachInterrupt (pin : UInt8)
  | wireBegin (bus : UInt8)
  | wireSetClock (bus : UInt8) (frequency : UInt32)
  | transmit (sender : Sender) (bus address : UInt8) (data : List UInt8)
  | requestFrom (bus address length : UInt8)
  deriving DecidableEq, Repr

/-- The state after a call and the effects of the call. -/
abbrev Outcome := State × List Effect

/-! ### What the effects do to the hardware -/

/-- The last duty written to each pin, and the interrupt vector of each pin: attaching
replaces the handler that was there. -/
structure Hardware where
  duty : UInt8 → UInt8 := fun _ => 0
  handler : UInt8 → Option (Isr × InterruptMode) := fun _ => none

def Hardware.apply (h : Hardware) : Effect → Hardware
  | .analogWrite pin duty => { h with duty := setAt h.duty pin duty }
  | .attachInterrupt pin isr mode =>
    { h with handler := setAt h.handler pin (isr.map fun i => (i, mode)) }
  | .detachInterrupt pin => { h with handler := setAt h.handler pin none }
  | _ => h

def Hardware.run (h : Hardware) (effects : List Effect) : Hardware := effects.foldl apply h

@[simp] theorem Hardware.run_nil (h : Hardware) : h.run [] = h := rfl

@[simp] theorem Hardware.run_cons (h : Hardware) (e : Effect) (es : List Effect) :
    h.run (e :: es) = (h.apply e).run es := rfl

theorem Hardware.run_append (h : Hardware) (es fs : List Effect) :
    h.run (es ++ fs) = (h.run es).run fs := List.foldl_append ..

end FirmwareState
