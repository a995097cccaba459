import TeensyIo.FirmwareSafeState

/-! # DAC outputs during a stop

A DAC is reached through its typed commands and through raw I2C writes. The typed commands
ask the safety state first; `I2cWrite` does not, and it is the only hole. -/
namespace FirmwareDacStop

open FirmwareState FirmwareCommands FirmwareUpdate FirmwareRequests FirmwareOutcomes
open FirmwareDevice FirmwareSafeState MachineRuns
open FirmwareProtocol (Packet)

/-- The address is that of a DAC slot in use. -/
def AddressesDac (s : State) (bus address : UInt8) : Prop :=
  ∃ id, id < kMaxDacs ∧ (s.dacs id).active = true ∧ (s.dacs id).bus = bus ∧
    (s.dacs id).address = address

/-- Among the effects is a transaction with a DAC in use. -/
def MovesDac (s : State) (effects : List Effect) : Prop :=
  ∃ sender bus address bytes, .transmit sender bus address bytes ∈ effects ∧
    AddressesDac s bus address

/-- A raw write that the handler will carry out, to the address of a DAC in use. -/
def RawDacWrite (b : Board) (s : State) (e : Event) : Prop :=
  ∃ bus address bytes, Carries (.i2cWrite bus address bytes) e ∧ bus < kMaxI2cBuses ∧
    s.i2cConfigured bus = true ∧ wireForBus b bus = true ∧ AddressesDac s bus address

theorem executed_transmit {b : Board} {env : Env} {s : State} {seq : UInt16} {r : Request}
    {out : Outcome} (h : Executed b env s seq r out) (hstop : s.safety.outputsAllowed = false)
    {sender : Sender} {bus address : UInt8} {bytes : List UInt8}
    (hmem : .transmit sender bus address bytes ∈ out.2) :
    r = .i2cWrite bus address bytes ∧ bus < kMaxI2cBuses ∧ s.i2cConfigured bus = true ∧
      wireForBus b bus = true := by
  have hno : s.safety.outputsAllowed ≠ true := by simp [hstop]
  cases h with
  | i2cWrite type code hbus hconf hwire =>
    simp only [List.mem_cons, Effect.transmit.injEq, reduceCtorEq, List.not_mem_nil,
      or_false] at hmem
    obtain ⟨-, rfl, rfl, rfl⟩ := hmem
    exact ⟨rfl, hbus, hconf, hwire⟩
  | dacFailed _ _ hallowed => exact absurd hallowed hno
  | dacWritten _ _ _ hallowed => exact absurd hallowed hno
  | _ =>
    simp [ackTo, nack, data, heartbeat, clearEmergencyStop, emergencyStop, resetConfig,
      mem_applySafeOutputs, detachCounters, detachEncoders, mem_detachCounter,
      mem_detachEncoder] at hmem

/-- From a stopped state a step moves a DAC exactly if it is a raw write to one. -/
theorem moves_iff_raw {b : Board} {d : Device} (hstop : d.state.safety.outputsAllowed = false)
    (e : Event) :
    MovesDac d.state (react b d.state e).2 ↔ RawDacWrite b d.state e := by
  constructor
  · rintro ⟨sender, bus, address, bytes, hmem, haddr⟩
    cases e with
    | handle env p =>
      rcases handle_cases b env d.state p with ⟨code, -, h⟩ | ⟨r, hr, h⟩
      · simp [react, h, refuse, nack] at hmem
      · rw [react, h] at hmem
        obtain ⟨rfl, hbus, hconf, hwire⟩ :=
          executed_transmit (execute_spec b env d.state p.seq r) hstop hmem
        exact ⟨bus, address, bytes, hr, hbus, hconf, hwire, haddr⟩
    | update env =>
      obtain ⟨writes, heffects, hwrites⟩ := update_effects b env d.state
      rw [react, heffects] at hmem
      rcases List.mem_append.mp hmem with hmem | hmem
      · obtain ⟨pin, he⟩ := mem_safeOutputsOnExpiry hmem
        cases he
      · obtain ⟨_, _, _, he⟩ := hwrites _ hmem
        cases he
    | counterTick env id => simp [react] at hmem
    | encoderTick env id => simp [react] at hmem
  · rintro ⟨bus, address, bytes, hcarries, hbus, hconf, hwire, haddr⟩
    cases e with
    | handle env p =>
      refine ⟨.i2cWrite, bus, address, bytes, ?_, haddr⟩
      have hguard : (decide (bus ≥ kMaxI2cBuses) || !d.state.i2cConfigured bus) = false := by
        simp [hconf, UInt8.not_le.mpr hbus]
      rw [Carries] at hcarries
      simp [react, handle_eq, hcarries, answer, execute, i2cWrite, hguard, hwire]
    | update env => exact hcarries.elim
    | counterTick env id => exact hcarries.elim
    | encoderTick env id => exact hcarries.elim

/-- During a stop, whatever the packets, no DAC is moved as long as none of them is a raw
write to a DAC in use; and every such write moves one. -/
theorem dac_still_iff (b : Board) (before during : List Event)
    (hstop : (after (Device.step b) {} before).state.safety.outputsAllowed = false)
    (hclear : ∀ e ∈ during, ¬ Carries .clearEmergencyStop e) :
    EachStep (Device.step b) (fun d e => ¬ MovesDac d.state (react b d.state e).2)
        (after (Device.step b) {} before) during ↔
      EachStep (Device.step b) (fun d e => ¬ RawDacWrite b d.state e)
        (after (Device.step b) {} before) during := by
  have hi : SafeInvariant b (after (Device.step b) {} before) :=
    after_preserves (fun _ e hi => hi.step e) (safe_initial b) before
  refine eachStep_congr
    (I := fun d => SafeInvariant b d ∧ d.state.safety.outputsAllowed = false)
    (fun d e he h => ⟨h.1.step e, (stopped_step h.1 h.2 e he).1⟩)
    (fun d e _ h => not_congr (moves_iff_raw h.2 e)) ⟨hi, hstop⟩ (eachStep_of_forall _ hclear)

/-- I2C bus 0, a DAC in slot 0 at address 96, an emergency stop. -/
def dacThenStop : List Event :=
  commands [[0x70, 0, 0, 0, 0, 0], [0x73, 0, 0, 96, 1, 12], [0xF0]]

/-- The typed command is refused during the stop. -/
theorem typed_dac_still :
    EachStep (Device.step sampleBoard)
      (fun d e => ¬ MovesDac d.state (react sampleBoard d.state e).2)
      (after (Device.step sampleBoard) {} dacThenStop) (commands [[0x74, 0, 0, 0xFF, 0x0F]]) := by
  refine (dac_still_iff sampleBoard dacThenStop _ (by decide +kernel) ?_).mpr ?_
  · simp only [commands, List.map_cons, List.map_nil, List.mem_singleton, forall_eq, Carries]
    decide +kernel
  · refine ⟨?_, trivial⟩
    rintro ⟨bus, address, bytes, hcarries, -⟩
    have hdecode : decode (commandPacket 1 [0x74, 0, 0, 0xFF, 0x0F]) =
        .ok (.dacWriteRaw 0 0 0x0FFF) := by rfl
    rw [Carries, hdecode] at hcarries
    cases hcarries

/-- The same bytes in a raw write reach the DAC: the stop does not hold it. -/
theorem raw_write_moves_dac :
    let stopped := after (Device.step sampleBoard) {} dacThenStop
    let raw : Event := .handle (envAt 0) (commandPacket 1 [0x71, 0, 96, 2, 0x0F, 0xFF])
    stopped.state.safety.outputsAllowed = false ∧ ¬ Carries .clearEmergencyStop raw ∧
      MovesDac stopped.state (react sampleBoard stopped.state raw).2 := by
  intro stopped raw
  refine ⟨by decide +kernel, ?_, .i2cWrite, 0, 96, [0x0F, 0xFF], by decide +kernel, 0, ?_⟩
  · simp only [raw, Carries]
    decide +kernel
  · decide +kernel

end FirmwareDacStop
