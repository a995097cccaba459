import TeensyIo.HostClient
import Mathlib.Algebra.Order.Round
import Mathlib.Data.Int.Log
import Mathlib.Data.Rat.Floor

/-! # Resources of the host

The classes under `resources/` and the operations of the client that issue one command. A
host carries the fields of all resources by name and the log of its commands; what comes back
for a command is a function of that log, so it stands for any device, any timeout and any
batch.

A float argument is a rational. NaN and the infinities are left out: `_u8_duty` and
`write_normalized` raise a `ValueError` for them, as they do for two, and `int(rate_hz)` a
`ValueError` or an `OverflowError`, before any command is formed. -/
namespace HostResources

open WireCommands HostProtocol HostClient LittleEndian

/-! ### Python numbers -/

/-- `bytes([...])`. -/
def pyBytes (values : List ℤ) : Except PyError (List UInt8) :=
  if ∀ v ∈ values, 0 ≤ v ∧ v ≤ 255 then .ok (values.map fun v => UInt8.ofNat v.toNat)
  else .error .valueError

/-- `struct.pack("<I", value)`. -/
def packU32 (value : ℤ) : Except PyError (List UInt8) :=
  if 0 ≤ value ∧ value < 4294967296 then .ok (toBytes 4 value.toNat) else .error .structError

/-- `struct.pack("<H", value)`. -/
def packU16 (value : ℤ) : Except PyError (List UInt8) :=
  if 0 ≤ value ∧ value < 65536 then .ok (toBytes 2 value.toNat) else .error .structError

/-- `value.to_bytes(2, "little")`. -/
def toBytes16 (value : ℤ) : Except PyError (List UInt8) :=
  if 0 ≤ value ∧ value < 65536 then .ok (toBytes 2 value.toNat) else .error .overflowError

/-- A sum of byte strings, evaluated from left to right. -/
def concat : List (Except PyError (List UInt8)) → Except PyError (List UInt8)
  | [] => .ok []
  | .error error :: _ => .error error
  | .ok bytes :: parts =>
    match concat parts with
    | .error error => .error error
    | .ok rest => .ok (bytes ++ rest)

/-- `round(x)`: to the nearest integer, and to the even one of two. -/
def roundHalfEven (x : ℚ) : ℤ :=
  let low := ⌊x⌋
  if x - low < 1 / 2 then low
  else if 1 / 2 < x - low then low + 1
  else if low % 2 = 0 then low else low + 1

/-- The nearest number with 53 significant bits: a floating point result. -/
def roundDouble (x : ℚ) : ℚ :=
  let scale : ℚ := 2 ^ max (Int.log 2 |x| - 52) (-1074)
  roundHalfEven (x / scale) * scale

/-- `int(round(x * n))` for a float. -/
def scaled (x : ℚ) (n : ℕ) : ℤ := roundHalfEven (roundDouble (x * n))

/-- `int(x)` for a float. -/
def truncate (x : ℚ) : ℤ := if 0 ≤ x then ⌊x⌋ else ⌈x⌉

def u8Duty (duty : ℚ) : Except PyError ℤ :=
  if duty < 0 ∨ 1 < duty then .error .valueError else .ok (scaled duty 255)

theorem pyBytes_ok {values : List ℤ} {bytes : List UInt8} (h : pyBytes values = .ok bytes) :
    List.Forall₂ (fun b v => (b.toNat : ℤ) = v) bytes values := by
  rw [pyBytes] at h
  split_ifs at h with hrange
  obtain rfl := Except.ok.inj h
  rw [List.forall₂_map_left_iff, List.forall₂_same]
  intro v hv
  have hlow := (hrange v hv).1
  have hhigh := (hrange v hv).2
  rw [UInt8.toNat_ofNat']
  omega

theorem packU32_ok {value : ℤ} {bytes : List UInt8} (h : packU32 value = .ok bytes) :
    ∃ v : UInt32, (v.toNat : ℤ) = value ∧ bytes = toBytes 4 v.toNat := by
  rw [packU32] at h
  split_ifs at h with hrange
  have hv : (UInt32.ofNat value.toNat).toNat = value.toNat := by
    rw [UInt32.toNat_ofNat']
    omega
  refine ⟨UInt32.ofNat value.toNat, ?_, ?_⟩
  · rw [hv]
    omega
  · rw [hv, Except.ok.inj h]

/-- The two ways the client has to write sixteen bits. -/
theorem toBytes_ok {value : ℤ} {bytes : List UInt8} {error : PyError}
    (h : (if 0 ≤ value ∧ value < 65536 then .ok (toBytes 2 value.toNat) else .error error) =
      Except.ok bytes) : ∃ v : UInt16, (v.toNat : ℤ) = value ∧ bytes = toBytes 2 v.toNat := by
  split_ifs at h with hrange
  have hv : (UInt16.ofNat value.toNat).toNat = value.toNat := by
    rw [UInt16.toNat_ofNat']
    omega
  refine ⟨UInt16.ofNat value.toNat, ?_, ?_⟩
  · rw [hv]
    omega
  · rw [hv, Except.ok.inj h]

theorem concat_ok {part : Except PyError (List UInt8)} {parts : List (Except PyError (List UInt8))}
    {bytes : List UInt8} (h : concat (part :: parts) = .ok bytes) :
    ∃ first rest, part = .ok first ∧ concat parts = .ok rest ∧ bytes = first ++ rest := by
  cases part with
  | error error => cases h
  | ok first =>
    rw [concat] at h
    split at h
    · cases h
    · next rest hrest => exact ⟨first, rest, rfl, hrest, (Except.ok.inj h).symm⟩

theorem bind_ok {α β : Type} {x : Except PyError α} {f : α → Except PyError β} {y : β}
    (h : x.bind f = .ok y) : ∃ a, x = .ok a ∧ f a = .ok y := by
  cases x with
  | error error => cases h
  | ok a => exact ⟨a, rfl, h⟩

theorem u8Duty_ok {duty : ℚ} {v : ℤ} (h : u8Duty duty = .ok v) : v = scaled duty 255 := by
  rw [u8Duty] at h
  split_ifs at h
  exact (Except.ok.inj h).symm

/-! ### The host -/

structure Pin where
  physicalPin : Option ℤ := none
  deriving DecidableEq, Repr

structure PwmOutput where
  physicalPin : Option ℤ := none
  deriving DecidableEq, Repr

structure AnalogInput where
  physicalPin : Option ℤ := none
  samples : ℤ := 1
  deriving DecidableEq, Repr

structure PulseCounter where
  id : Option ℕ := none
  lastCount : ℤ := 0
  samples : List (ℚ × ℤ) := []
  deriving DecidableEq, Repr

structure QuadratureEncoder where
  id : Option ℕ := none
  lastPosition : ℤ := 0
  deriving DecidableEq, Repr

structure I2cBus where
  bus : Option ℤ := none
  frequency : ℤ := 400000
  deriving DecidableEq, Repr

structure DacOutput (ν : Type) where
  id : Option ℕ := none
  busName : Option ν := none
  address : Option ℤ := none
  channels : ℤ := 1
  resolutionBits : ℤ := 12
  deriving DecidableEq, Repr

abbrev Command := CommandId × List UInt8

/-- A resource that was never asked for by name looks like one that is not configured. The ids
of counters, encoders and DACs are the places of their names. Any hashable value can be a name. -/
structure Resources (ν : Type) where
  pins : ν → Pin := fun _ => {}
  pwms : ν → PwmOutput := fun _ => {}
  analogs : ν → AnalogInput := fun _ => {}
  counters : ν → PulseCounter := fun _ => {}
  encoders : ν → QuadratureEncoder := fun _ => {}
  i2cBuses : ν → I2cBus := fun _ => {}
  dacs : ν → DacOutput ν := fun _ => {}
  counterIds : List ν := []
  encoderIds : List ν := []
  dacIds : List ν := []
  edgeCallbacks : List ((ResourceKind × ℤ) × ℕ) := []
  log : List Command := []

/-- Programs name their resources by strings. -/
abbrev Host := Resources String

/-- What a call returns or raises, and the host it leaves. -/
abbrev Result (α : Type) (ν : Type := String) := Except PyError α × Resources ν

/-- `_counter_id` and its siblings. -/
def idFor {ν : Type} [DecidableEq ν] (names : List ν) (name : ν) : ℕ × List ν :=
  if name ∈ names then (names.idxOf name, names) else (names.length, names ++ [name])

section Operations

variable {ν : Type} [DecidableEq ν] (respond : List Command → Except PyError (List UInt8))
  (h : Resources ν)

/-- `_command`, whose payload argument may raise before the call. -/
def command (id : CommandId) (payload : Except PyError (List UInt8)) : Result (List UInt8) ν :=
  match payload with
  | .error error => (.error error, h)
  | .ok payload =>
    if maxPayloadSize < payload.length + 1 then (.error .protocolError, h)
    else
      let h := { h with log := h.log ++ [(id, payload)] }
      (respond h.log, h)

/-- What follows a call that has returned. -/
def Result.next {α β : Type} (result : Result α ν) (rest : α → Resources ν → Result β ν) :
    Result β ν :=
  match result with
  | (.error error, h) => (.error error, h)
  | (.ok value, h) => rest value h

/-- `_unpack_i32` of a response, which may be too short. -/
def responseI32 (payload : List UInt8) : Except PyError ℤ :=
  if payload.length < 4 then .error .structError else .ok (unpackI32 payload)

def responseU32 (payload : List UInt8) : Except PyError ℕ :=
  if payload.length < 4 then .error .structError else .ok (unpackU32 payload)

/-! ### Pins -/

def configureOutput (name : ν) (physicalPin initial : ℤ) : Result Unit ν :=
  let h := { h with pins := Function.update h.pins name ⟨some physicalPin⟩ }
  (command respond h .configDigitalOutput (pyBytes [physicalPin, initial])).next
    fun _ h => (.ok (), h)

def pullCode : String → Option ℤ :=
  fun pull => [("floating", 0), ("none", 0), ("up", 1), ("pullup", 1), ("down", 2),
    ("pulldown", 2)].lookup pull

def configureInput (name : ν) (physicalPin : ℤ) (pull : String) : Result Unit ν :=
  let h := { h with pins := Function.update h.pins name ⟨some physicalPin⟩ }
  match pullCode pull with
  | none => (.error .keyError, h)
  | some code =>
    (command respond h .configDigitalInput (pyBytes [physicalPin, code])).next
      fun _ h => (.ok (), h)

def pinRead (name : ν) : Result Bool ν :=
  match (h.pins name).physicalPin with
  | none => (.error .runtimeError, h)
  | some pin =>
    (command respond h .digitalRead (pyBytes [pin])).next fun payload h =>
      match payload with
      | [] => (.error .indexError, h)
      | byte :: _ => (.ok (byte != 0), h)

def pinWrite (name : ν) (value : ℤ) : Result Unit ν :=
  match (h.pins name).physicalPin with
  | none => (.error .runtimeError, h)
  | some pin =>
    (command respond h .digitalWrite (pyBytes [pin, value])).next fun _ h => (.ok (), h)

def edgeFlags : String → Option ℕ :=
  fun edge => [("rising", 0x02), ("falling", 0x04), ("both", 0x06)].lookup edge

/-- The callback is registered before the edge is looked up. -/
def onEdge (name : ν) (edge : String) (callback : ℕ) : Result Unit ν :=
  match (h.pins name).physicalPin with
  | none => (.error .runtimeError, h)
  | some pin =>
    let h := { h with edgeCallbacks := h.edgeCallbacks ++ [((.digital, pin), callback)] }
    match edgeFlags edge with
    | none => (.error .keyError, h)
    | some flags =>
      let kind : ℤ := ResourceKind.digital.toByte.toNat
      (command respond h .subscribe
        (pyBytes [kind, pin, 0, 0, ((0x01 ||| flags : ℕ) : ℤ)])).next fun _ h => (.ok (), h)

/-! ### PWM outputs and analog inputs -/

def pwmConfigure (name : ν) (physicalPin frequency : ℤ) (initialDuty : ℚ) : Result Unit ν :=
  let h := { h with pwms := Function.update h.pwms name ⟨some physicalPin⟩ }
  let payload := concat [pyBytes [physicalPin], packU32 frequency,
    (u8Duty initialDuty).bind fun duty => pyBytes [duty]]
  (command respond h .configPwm payload).next fun _ h => (.ok (), h)

def pwmWrite (name : ν) (duty : ℚ) : Result Unit ν :=
  match (h.pwms name).physicalPin with
  | none => (.error .runtimeError, h)
  | some pin =>
    let payload := (u8Duty duty).bind fun duty => pyBytes [pin, duty]
    (command respond h .pwmWrite payload).next fun _ h => (.ok (), h)

def pwmDisable (name : ν) : Result Unit ν :=
  match (h.pwms name).physicalPin with
  | none => (.error .runtimeError, h)
  | some pin => (command respond h .pwmDisable (pyBytes [pin])).next fun _ h => (.ok (), h)

def analogConfigure (name : ν) (physicalPin samples : ℤ) : Result Unit ν :=
  let h := { h with analogs := Function.update h.analogs name ⟨some physicalPin, samples⟩ }
  if samples < 1 ∨ 255 < samples then (.error .valueError, h)
  else
    (command respond h .configAnalog (pyBytes [physicalPin, samples])).next
      fun _ h => (.ok (), h)

/-- `int.from_bytes` of the two halves of a response. -/
def analogPair (payload : List UInt8) : ℕ × ℕ :=
  (value (payload.take 2), value ((payload.drop 2).take 2))

/-- `_read`, behind `read_raw` and `read_normalized`. -/
def analogRead (name : ν) : Result (ℕ × ℕ) ν :=
  match (h.analogs name).physicalPin with
  | none => (.error .runtimeError, h)
  | some pin =>
    (command respond h .analogRead (pyBytes [pin])).next fun payload h =>
      (.ok (analogPair payload), h)

def analogReadRaw (name : ν) : Result ℕ ν :=
  (analogRead respond h name).next fun pair h => (.ok pair.1, h)

def analogReadNormalized (name : ν) : Result ℚ ν :=
  (analogRead respond h name).next fun pair h => (.ok (roundDouble (pair.2 / 10000)), h)

/-! ### Counters and encoders -/

/-- A pin is given by number or by the name of a resource. -/
inductive PinRef (ν : Type := String) where
  | number (pin : ℤ)
  | name (pin : ν)

def resolvePin : PinRef ν → Except PyError ℤ
  | .number pin => .ok pin
  | .name pin =>
    match (h.pins pin).physicalPin with
    | none => .error .runtimeError
    | some pin => .ok pin

def edgeCode : String → Option ℤ :=
  fun edge => [("rising", 0), ("falling", 1), ("both", 2)].lookup edge

def counterAttach (name : ν) (pin : PinRef ν) (edge : String) : Result Unit ν :=
  match resolvePin h pin with
  | .error error => (.error error, h)
  | .ok pin =>
    let (id, ids) := idFor h.counterIds name
    let counter := { h.counters name with id := some id }
    let h := { h with counterIds := ids, counters := Function.update h.counters name counter }
    match edgeCode edge with
    | none => (.error .keyError, h)
    | some code =>
      (command respond h .configCounter (pyBytes [id, pin, code])).next fun _ h => (.ok (), h)

def counterRead (name : ν) : Result ℤ ν :=
  match (h.counters name).id with
  | none => (.error .runtimeError, h)
  | some id =>
    (command respond h .counterRead (pyBytes [id])).next fun payload h =>
      (responseI32 payload, h)

def counterDelta (name : ν) : Result ℤ ν :=
  (counterRead respond h name).next fun count h =>
    let counter := h.counters name
    (.ok (count - counter.lastCount),
      { h with counters := Function.update h.counters name { counter with lastCount := count } })

/-- Old samples leave from the left as long as two are left. -/
def trimSamples (cutoff : ℚ) : List (ℚ × ℤ) → List (ℚ × ℤ)
  | a :: b :: c :: samples =>
    if a.1 < cutoff then trimSamples cutoff (b :: c :: samples) else a :: b :: c :: samples
  | samples => samples

def rate (now : ℚ) (count : ℤ) : List (ℚ × ℤ) → ℚ
  | start :: _ :: _ =>
    if now - start.1 ≤ 0 then 0 else (count - start.2) / (now - start.1)
  | _ => 0

/-- `now` is the reading of the monotonic clock; times are exact here. -/
def counterFrequency (name : ν) (windowMs : ℤ) (now : ℚ) : Result ℚ ν :=
  match (h.counters name).id with
  | none => (.error .runtimeError, h)
  | some id =>
    if windowMs ≤ 0 then
      (command respond h .counterFrequency (pyBytes [id])).next fun payload h =>
        ((responseU32 payload).map fun milliHz => (milliHz : ℚ) / 1000, h)
    else
      (counterRead respond h name).next fun count h =>
        let counter := h.counters name
        let samples := trimSamples (now - windowMs / 1000) (counter.samples ++ [(now, count)])
        (.ok (rate now count samples),
          { h with counters := Function.update h.counters name { counter with samples } })

def counterReset (name : ν) : Result Unit ν :=
  match (h.counters name).id with
  | none => (.error .runtimeError, h)
  | some id =>
    (command respond h .counterReset (pyBytes [id])).next fun _ h =>
      let counter := { h.counters name with lastCount := 0, samples := [] }
      (.ok (), { h with counters := Function.update h.counters name counter })

def modeCode : String → Option ℤ := fun mode => [("x1", 1), ("x2", 2), ("x4", 4)].lookup mode

def encoderAttach (name : ν) (pinA pinB : ℤ) (mode : String) : Result Unit ν :=
  match modeCode mode with
  | none => (.error .keyError, h)
  | some code =>
    let (id, ids) := idFor h.encoderIds name
    let encoder := { h.encoders name with id := some id }
    let h := { h with encoderIds := ids, encoders := Function.update h.encoders name encoder }
    (command respond h .configEncoder (pyBytes [id, pinA, pinB, code])).next
      fun _ h => (.ok (), h)

def encoderRead (name : ν) : Result ℤ ν :=
  match (h.encoders name).id with
  | none => (.error .runtimeError, h)
  | some id =>
    (command respond h .encoderRead (pyBytes [id])).next fun payload h =>
      (responseI32 payload, h)

def encoderDelta (name : ν) : Result ℤ ν :=
  (encoderRead respond h name).next fun position h =>
    let encoder := h.encoders name
    (.ok (position - encoder.lastPosition),
      { h with
        encoders := Function.update h.encoders name { encoder with lastPosition := position } })

def encoderReset (name : ν) : Result Unit ν :=
  match (h.encoders name).id with
  | none => (.error .runtimeError, h)
  | some id =>
    (command respond h .encoderReset (pyBytes [id])).next fun _ h =>
      let encoder := { h.encoders name with lastPosition := 0 }
      (.ok (), { h with encoders := Function.update h.encoders name encoder })

/-! ### I2C buses and DACs -/

def u7Address (address : ℤ) : Except PyError ℤ :=
  if address < 0 ∨ 0x7F < address then .error .valueError else .ok address

theorem u7Address_ok {address v : ℤ} (h : u7Address address = .ok v) : v = address := by
  rw [u7Address] at h
  split_ifs at h
  exact (Except.ok.inj h).symm

def i2cConfigure (name : ν) (bus frequency : ℤ) : Result Unit ν :=
  if bus < 0 ∨ 255 < bus then (.error .valueError, h)
  else if frequency ≤ 0 then (.error .valueError, h)
  else
    let h := { h with i2cBuses := Function.update h.i2cBuses name ⟨some bus, frequency⟩ }
    (command respond h .configI2cBus (concat [pyBytes [bus], packU32 frequency])).next
      fun _ h => (.ok (), h)

def i2cWrite (name : ν) (address : ℤ) (data : List UInt8) : Result Unit ν :=
  match (h.i2cBuses name).bus with
  | none => (.error .runtimeError, h)
  | some bus =>
    let head := (u7Address address).bind fun address => pyBytes [bus, address, data.length]
    (command respond h .i2cWrite (concat [head, .ok data])).next fun _ h => (.ok (), h)

def i2cRead (name : ν) (address length : ℤ) : Result (List UInt8) ν :=
  match (h.i2cBuses name).bus with
  | none => (.error .runtimeError, h)
  | some bus =>
    if length < 0 ∨ 128 < length then (.error .valueError, h)
    else
      command respond h .i2cRead
        ((u7Address address).bind fun address => pyBytes [bus, address, length])

/-- The id and the bus name are set before the address is checked. -/
def dacAttach (name bus : ν) (address channels resolutionBits : ℤ) : Result Unit ν :=
  match (h.i2cBuses bus).bus with
  | none => (.error .runtimeError, h)
  | some busNumber =>
    if channels < 1 ∨ 255 < channels then (.error .valueError, h)
    else if resolutionBits < 1 ∨ 16 < resolutionBits then (.error .valueError, h)
    else
      let (id, ids) := idFor h.dacIds name
      let dac := { h.dacs name with id := some id, busName := some bus }
      let h := { h with dacIds := ids, dacs := Function.update h.dacs name dac }
      match u7Address address with
      | .error error => (.error error, h)
      | .ok address =>
        let dac := { dac with address := some address, channels, resolutionBits }
        let h := { h with dacs := Function.update h.dacs name dac }
        (command respond h .configDac
          (pyBytes [id, busNumber, address, channels, resolutionBits])).next
          fun _ h => (.ok (), h)

def DacOutput.maxValue (dac : DacOutput ν) : ℤ :=
  if dac.resolutionBits < 16 then 2 ^ dac.resolutionBits.toNat - 1 else 0xFFFF

def dacWriteRaw (name : ν) (value channel : ℤ) : Result Unit ν :=
  let dac := h.dacs name
  match dac.id with
  | none => (.error .runtimeError, h)
  | some id =>
    if channel < 0 ∨ dac.channels ≤ channel then (.error .valueError, h)
    else if value < 0 ∨ dac.maxValue < value then (.error .valueError, h)
    else
      (command respond h .dacWriteRaw (concat [pyBytes [id, channel], toBytes16 value])).next
        fun _ h => (.ok (), h)

def dacWriteNormalized (name : ν) (value : ℚ) (channel : ℤ) : Result Unit ν :=
  let dac := h.dacs name
  match dac.id with
  | none => (.error .runtimeError, h)
  | some id =>
    if channel < 0 ∨ dac.channels ≤ channel then (.error .valueError, h)
    else if value < 0 ∨ 1 < value then (.error .valueError, h)
    else
      (command respond h .dacWriteNormalized
        (concat [pyBytes [id, channel], toBytes16 (scaled value 10000)])).next
        fun _ h => (.ok (), h)

/-! ### The client itself -/

def resourceRef (name : ν) : Except PyError (ResourceKind × ℤ) :=
  match (h.pins name).physicalPin, (h.analogs name).physicalPin, (h.counters name).id,
    (h.encoders name).id, (h.dacs name).id with
  | some pin, _, _, _, _ => .ok (.digital, pin)
  | none, some pin, _, _, _ => .ok (.analog, pin)
  | none, none, some id, _, _ => .ok (.counter, id)
  | none, none, none, some id, _ => .ok (.encoder, id)
  | none, none, none, none, some id => .ok (.dac, id)
  | none, none, none, none, none => .error .keyError

def subscribe (name : ν) (rateHz : Option ℚ) (onChange : Bool) : Result Unit ν :=
  match resourceRef h name with
  | .error error => (.error error, h)
  | .ok (kind, id) =>
    let hz := (rateHz.map truncate).getD 0
    let flags := if onChange then 1 else 0
    let payload := concat [pyBytes [kind.toByte.toNat, id], packU16 hz, pyBytes [flags]]
    (command respond h .subscribe payload).next fun _ h => (.ok (), h)

def unsubscribe (name : ν) : Result Unit ν :=
  match resourceRef h name with
  | .error error => (.error error, h)
  | .ok (kind, id) =>
    (command respond h .unsubscribe (pyBytes [kind.toByte.toNat, id])).next
      fun _ h => (.ok (), h)

def ping : Result Bool ν :=
  (command respond h .ping (.ok [])).next fun payload h =>
    (.ok (payload == [0x70, 0x6F, 0x6E, 0x67]), h)

structure Info where
  digitalPins : UInt8
  counters : UInt8
  version : List UInt8
  deriving DecidableEq, Repr

/-- The version is left as bytes. -/
def getInfo : Result Info ν :=
  (command respond h .getInfo (.ok [])).next fun payload h =>
    match payload with
    | digitalPins :: counters :: version =>
      (.ok ⟨digitalPins, counters, version.takeWhile (· != 0)⟩, h)
    | _ => (.error .indexError, h)

def resetConfig : Result Unit ν :=
  (command respond h .resetConfig (.ok [])).next fun _ h => (.ok (), h)

def heartbeat : Result Unit ν :=
  (command respond h .heartbeat (.ok [])).next fun _ h => (.ok (), h)

def emergencyStop : Result Unit ν :=
  (command respond h .emergencyStop (.ok [])).next fun _ h => (.ok (), h)

def clearEmergencyStop : Result Unit ν :=
  (command respond h .clearEmergencyStop (.ok [])).next fun _ h => (.ok (), h)

end Operations

/-! ### Calls that return -/

section Returned

variable {ν : Type} {respond : List Command → Except PyError (List UInt8)}
  {h : Resources ν} {α β : Type}

theorem command_accepted {id : CommandId} {payload : Except PyError (List UInt8)}
    {reply : List UInt8} (hok : (command respond h id payload).1 = .ok reply) :
    ∃ bytes, payload = .ok bytes ∧ bytes.length < maxPayloadSize ∧
      respond (h.log ++ [(id, bytes)]) = .ok reply ∧
      command respond h id payload = (.ok reply, { h with log := h.log ++ [(id, bytes)] }) := by
  cases payload with
  | error error => cases hok
  | ok bytes =>
    by_cases hsize : maxPayloadSize < bytes.length + 1
    · rw [command, if_pos hsize] at hok
      cases hok
    · rw [command, if_neg hsize] at hok ⊢
      exact ⟨bytes, rfl, by omega, hok, Prod.ext hok rfl⟩

theorem next_accepted {result : Result α ν} {rest : α → Resources ν → Result β ν} {v : β}
    (hok : (result.next rest).1 = .ok v) :
    ∃ u, result.1 = .ok u ∧ result.next rest = rest u result.2 := by
  obtain ⟨error | u, h'⟩ := result
  · cases hok
  · exact ⟨u, rfl, rfl⟩

end Returned

end HostResources
