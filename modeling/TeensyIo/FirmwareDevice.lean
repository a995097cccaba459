import TeensyIo.FirmwareOutcomes
import TeensyIo.MachineRuns

/-! # The firmware and its hardware

A device is the handler's state together with what its effects have done to the pins. A run
is a list of calls: packets handled, updates and interrupts in any order, each with whatever
the Arduino core answers. -/
namespace FirmwareDevice

open WireCommands FirmwareState FirmwareCommands FirmwareUpdate FirmwareRequests
open FirmwareOutcomes MachineRuns
open FirmwareProtocol (Packet)

inductive Event where
  | handle (env : Env) (p : Packet)
  | update (env : Env)
  | counterTick (env : Env) (id : UInt8)
  | encoderTick (env : Env) (id : UInt8)

def react (b : Board) (s : State) : Event → Outcome
  | .handle env p => handle b env s p
  | .update env => update b env s
  | .counterTick env id => (counterTick env s id, [])
  | .encoderTick env id => (encoderTick env s id, [])

structure Device where
  state : State := {}
  hardware : Hardware := {}

def Device.step (b : Board) (d : Device) (e : Event) : Device :=
  ⟨(react b d.state e).1, d.hardware.run (react b d.state e).2⟩

/-- The event is the handling of a packet that carries the request. -/
def Carries (r : Request) : Event → Prop
  | .handle _ p => decode p = .ok r
  | _ => False

variable (b : Board) (env : Env) (s : State) (seq : UInt16)

/-- Handling a packet either refuses it or executes its request. -/
theorem handle_cases (p : Packet) :
    (∃ code, decode p = .error code ∧ handle b env s p = refuse s p.seq code) ∨
    (∃ r, decode p = .ok r ∧ handle b env s p = execute b env s p.seq r) := by
  rw [handle_eq]
  cases decode p with
  | error code => exact Or.inl ⟨code, rfl, rfl⟩
  | ok r => exact Or.inr ⟨r, rfl, rfl⟩

/-- What the request of a packet leaves alone, handling the packet leaves alone. -/
theorem handle_view {τ : Type} (view : State → τ) {p : Packet}
    (hkeep : ∀ r out, decode p = .ok r → Executed b env s p.seq r out → view out.1 = view s) :
    view (handle b env s p).1 = view s := by
  rcases handle_cases b env s p with ⟨code, -, hhandle⟩ | ⟨r, hdecode, hhandle⟩
  · rw [hhandle]
    rfl
  · rw [hhandle]
    exact hkeep r _ hdecode (execute_spec b env s p.seq r)

/-! ### The safety state -/

/-- The only requests that touch the safety state. -/
def safetyAfter (env : Env) (safety : SafetyState) : Request → SafetyState
  | .heartbeat => safety.heartbeat (env.millis 0)
  | .emergencyStop => safety.emergencyStop
  | .clearEmergencyStop => safety.clearEmergencyStop (env.millis 0)
  | _ => safety

theorem executed_safety {r : Request} {out : Outcome} (h : Executed b env s seq r out) :
    out.1.safety = s.safety ∨ out.1.safety = safetyAfter env s.safety r := by
  cases h <;> first | exact Or.inl rfl | exact Or.inr rfl

theorem execute_safety (r : Request) :
    (execute b env s seq r).1.safety = safetyAfter env s.safety r := by
  have h := executed_safety b env s seq (execute_spec b env s seq r)
  cases r with
  | heartbeat => rfl
  | emergencyStop => rfl
  | clearEmergencyStop => rfl
  | _ => exact h.elim id id

theorem update_safety : (update b env s).1.safety = s.safety.update (env.millis 0) :=
  (update_undisturbed b env s).safety

/-! ### Concrete runs -/

/-- A board with the pins of a Teensy 4.1; of its PWM pins only the low ones are listed. -/
def sampleBoard : Board where
  numDigitalPins := 55
  pins_le := by decide
  digitalPinHasPwm pin := decide (pin ≤ 15)
  hasWire1 := true
  hasWire2 := true
  firmwareVersion := [0x30, 0x2E, 0x31, 0x2E, 0x30]

/-- Everything reads zero at the given time; the serial buffer has room and I2C works. -/
def envAt (millis : UInt32) : Env where
  millis _ := millis
  micros _ := 0
  digitalRead _ _ := false
  analogRead _ _ _ := 0
  availableForWrite _ := 64
  endTransmission := 0
  requestFrom _ := (0, [])
  requested_le _ := UInt8.zero_le

/-- The packet the parser emits for a command with these payload bytes. -/
def commandPacket (seq : UInt16) (bytes : List UInt8) : Packet :=
  { seq := seq, payload := FirmwareProtocol.padded bytes, length := UInt16.ofNat bytes.length }

theorem commandPacket_bytes (seq : UInt16) {bytes : List UInt8}
    (h : bytes.length ≤ FirmwareProtocol.kMaxPayloadSize) :
    (commandPacket seq bytes).bytes = bytes := by
  have hsize : (UInt16.ofNat bytes.length).toNat = bytes.length := by
    rw [UInt16.toNat_ofNat']
    exact Nat.mod_eq_of_lt (h.trans_lt (by decide))
  rw [Packet.bytes]
  simp only [commandPacket]
  rw [hsize, FirmwareProtocol.take_padded h]

/-- Handling the commands one after the other at time zero. -/
def commands (payloads : List (List UInt8)) : List Event :=
  payloads.map fun bytes => .handle (envAt 0) (commandPacket 1 bytes)

end FirmwareDevice
