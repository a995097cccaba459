import Mathlib.Data.ZMod.Basic
import TeensyIo.ChangeEvents
import TeensyIo.PathSums

/-! # Quadrature decoding

The samples of `encoder_tick` are a path on the cycle of the four states of two inputs; the
position sums the steps of this path, whatever the mode of the encoder is. -/
namespace QuadratureDecoding

open WireCommands FirmwareState FirmwareCommands FirmwareUpdate FirmwareRequests
open FirmwareDevice FirmwareOutcomes MachineRuns PathSums
open ChangeEvents (step)

/-! ### The cycle -/

/-- The states of the inputs A and B in forward order. -/
def cycle : List UInt8 := [0b00, 0b10, 0b11, 0b01]

def next (x : UInt8) : UInt8 :=
  if x = 0b00 then 0b10 else if x = 0b10 then 0b11 else if x = 0b11 then 0b01 else 0b00

def prev (x : UInt8) : UInt8 :=
  if x = 0b00 then 0b01 else if x = 0b01 then 0b11 else if x = 0b11 then 0b10 else 0b00

def phase (x : UInt8) : ZMod 4 := cycle.idxOf x

/-- Both inputs change between the samples. -/
def bothChange (x y : UInt8) : Bool := x ^^^ y == 0b11

def isForward (x y : UInt8) : Bool := y == next x

def isReverse (x y : UInt8) : Bool := y == prev x

/-- What a step adds to the position. -/
def delta (x y : UInt8) : ℤ := (encoderDelta x y).toInt

theorem encoderState_mem (env : Env) (pinA pinB : UInt8) :
    encoderState env pinA pinB ∈ cycle := by
  rw [encoderState]
  cases env.digitalRead 0 pinA <;> cases env.digitalRead 1 pinB <;> decide

theorem mask_mem (x : UInt8) : x &&& 0x03 ∈ [0, 1, 2, 3] := by
  have h : ∀ n : Fin 256, UInt8.ofFin n &&& 0x03 ∈ [0, 1, 2, 3] := by decide +kernel
  exact h x.toFin

theorem delta_mask (x y : UInt8) : delta x y = delta (x &&& 0x03) (y &&& 0x03) := by
  rw [delta, delta, encoderDelta, encoderDelta, UInt8.and_assoc, UInt8.and_assoc, UInt8.and_self]

theorem delta_anti (x y : UInt8) : delta y x = -delta x y := by
  have h : ∀ x ∈ [0, 1, 2, 3], ∀ y ∈ [0, 1, 2, 3], delta y x = -delta x y := by decide +kernel
  rw [delta_mask y, delta_mask x]
  exact h _ (mask_mem x) _ (mask_mem y)

theorem delta_unit (x y : UInt8) : |delta x y| ≤ 1 := by
  have h : ∀ x ∈ [0, 1, 2, 3], ∀ y ∈ [0, 1, 2, 3], |delta x y| ≤ 1 := by decide +kernel
  rw [delta_mask x]
  exact h _ (mask_mem x) _ (mask_mem y)

/-- A step on the cycle on which at most one input changes. -/
def Clean (x y : UInt8) : Prop := x ∈ cycle ∧ y ∈ cycle ∧ bothChange x y = false

theorem delta_clean (x y : UInt8) (h : Clean x y) :
    delta x y = (if isForward x y then 1 else 0) - (if isReverse x y then 1 else 0) := by
  have hall : ∀ x ∈ cycle, ∀ y ∈ cycle, bothChange x y = false →
      delta x y = (if isForward x y then 1 else 0) - (if isReverse x y then 1 else 0) := by
    decide +kernel
  exact hall x h.1 y h.2.1 h.2.2

theorem delta_phase (x y : UInt8) (h : Clean x y) :
    Int.castAddHom (ZMod 4) (delta x y) = phase y - phase x := by
  have hall : ∀ x ∈ cycle, ∀ y ∈ cycle, bothChange x y = false →
      Int.castAddHom (ZMod 4) (delta x y) = phase y - phase x := by decide +kernel
  exact hall x h.1 y h.2.1 h.2.2

theorem delta_still (x y : UInt8) (hx : x ∈ cycle) (hy : y ∈ cycle)
    (h : y = x ∨ bothChange x y = true) : encoderDelta x y = 0 := by
  have hall : ∀ x ∈ cycle, ∀ y ∈ cycle, y = x ∨ bothChange x y = true →
      encoderDelta x y = 0 := by decide +kernel
  exact hall x hx y hy h

theorem chain_clean {x : UInt8} {path : List UInt8} (hx : x ∈ cycle)
    (hpath : ∀ y ∈ path, y ∈ cycle)
    (hsingle : (x :: path).IsChain fun y z => bothChange y z = false) :
    (x :: path).IsChain Clean := by
  induction path generalizing x with
  | nil => exact List.isChain_singleton x
  | cons y ys ih =>
    obtain ⟨hstep, hrest⟩ := List.isChain_cons_cons.mp hsingle
    obtain ⟨hy, hys⟩ := List.forall_mem_cons.mp hpath
    exact List.isChain_cons_cons.mpr ⟨⟨hx, hy, hstep⟩, ih hy hys hrest⟩

/-! ### What `encoder_tick` sees -/

/-- The sample of the encoder in a step. -/
def sample (id : UInt8) (s : State) : Event → List UInt8
  | .encoderTick env tick =>
    if tick = id then [encoderState env (s.encoders id).pinA (s.encoders id).pinB] else []
  | _ => []

/-- The samples of the encoder in a run. -/
def path (b : Board) (id : UInt8) (s : State) : List Event → List UInt8
  | [] => []
  | e :: es => sample id s e ++ path b id (step b s e) es

/-- The encoder is not configured again, and nobody sets its position back. -/
def Kept (id : UInt8) : Event → Prop
  | .handle _ p =>
    decode p ≠ .ok .resetConfig ∧ decode p ≠ .ok (.encoderReset id) ∧
      ∀ pinA pinB mode, decode p ≠ .ok (.configEncoder id pinA pinB mode)
  | _ => True

/-- The slot after some samples. -/
def seen (slot : EncoderSlot) : List UInt8 → EncoderSlot
  | [] => slot
  | y :: ys =>
    seen { slot with position := slot.position + encoderDelta slot.lastState y, lastState := y } ys

section Runs

variable {b : Board} {id : UInt8} {s : State}

theorem executed_encoder {env : Env} {seq : UInt16} {r : Request} {out : Outcome}
    (h : Executed b env s seq r out) (hreset : r ≠ .resetConfig) (hzero : r ≠ .encoderReset id)
    (hconfig : ∀ pinA pinB mode, r ≠ .configEncoder id pinA pinB mode) :
    out.1.encoders id = s.encoders id := by
  cases h with
  | resetConfig => exact absurd rfl hreset
  | @configEncoder id' pinA pinB mode =>
    apply setAt_of_ne
    rintro rfl
    exact hconfig pinA pinB mode rfl
  | @encoderReset id' =>
    apply setAt_of_ne
    rintro rfl
    exact hzero rfl
  | _ => rfl

theorem handle_encoder {env : Env} {p : FirmwareProtocol.Packet} (h : Kept id (.handle env p)) :
    (handle b env s p).1.encoders id = s.encoders id := by
  obtain ⟨hreset, hzero, hconfig⟩ := h
  apply handle_view b env s (fun s => s.encoders id)
  intro r out hdecode hexecuted
  rw [hdecode] at hreset hzero hconfig
  apply executed_encoder hexecuted
  · exact fun hr => hreset (congrArg _ hr)
  · exact fun hr => hzero (congrArg _ hr)
  · exact fun pinA pinB mode hr => hconfig pinA pinB mode (congrArg _ hr)

/-- In a step the slot takes its sample and nothing else happens to it. -/
theorem step_encoder (hid : id < kMaxEncoders) (hactive : (s.encoders id).active = true)
    {e : Event} (hkept : Kept id e) :
    (step b s e).encoders id = seen (s.encoders id) (sample id s e) := by
  cases e with
  | handle env p => exact handle_encoder hkept
  | update env => exact congrFun (update_undisturbed b env s).encoders id
  | counterTick env tick =>
    simp only [step, react, counterTick]
    split_ifs <;> rfl
  | encoderTick env tick =>
    by_cases htick : tick = id
    · subst htick
      have hrun : ¬(decide (tick ≥ kMaxEncoders) || !(s.encoders tick).active) = true := by
        simp [UInt8.not_le.mpr hid, hactive]
      rw [sample, if_pos rfl, step, react, encoderTick]
      dsimp only
      rw [if_neg hrun]
      exact setAt_self _ _ _
    · rw [sample, if_neg htick, step, react, encoderTick]
      dsimp only
      split_ifs
      · rfl
      · exact setAt_of_ne (Ne.symm htick) _ _

theorem seen_append (slot : EncoderSlot) (ys zs : List UInt8) :
    seen slot (ys ++ zs) = seen (seen slot ys) zs := by
  induction ys generalizing slot with
  | nil => rfl
  | cons y ys ih => exact ih _

theorem seen_active (slot : EncoderSlot) (ys : List UInt8) :
    (seen slot ys).active = slot.active := by
  induction ys generalizing slot with
  | nil => rfl
  | cons y ys ih => exact ih _

theorem seen_lastState (slot : EncoderSlot) (ys : List UInt8) :
    (seen slot ys).lastState = pathEnd slot.lastState ys := by
  induction ys generalizing slot with
  | nil => rfl
  | cons y ys ih => exact ih _

theorem seen_pins (slot : EncoderSlot) (ys : List UInt8) :
    (seen slot ys).pinA = slot.pinA ∧ (seen slot ys).pinB = slot.pinB := by
  induction ys generalizing slot with
  | nil => exact ⟨rfl, rfl⟩
  | cons y ys ih => exact ih _

/-- The position has moved by the sum of the path, in 32 bits. -/
theorem seen_position (slot : EncoderSlot) (ys : List UInt8) :
    (seen slot ys).position.toInt =
      (slot.position.toInt + total delta slot.lastState ys).bmod (2 ^ 32) := by
  induction ys generalizing slot with
  | nil =>
    rw [total, add_zero]
    exact (Int32.toInt_bmod slot.position).symm
  | cons y ys ih =>
    rw [seen, ih, total]
    dsimp only
    rw [Int32.toInt_add, Int.bmod_add_bmod, add_assoc]
    rfl

theorem run_encoder (hid : id < kMaxEncoders) (hactive : (s.encoders id).active = true)
    {es : List Event} (hkept : ∀ e ∈ es, Kept id e) :
    (after (step b) s es).encoders id = seen (s.encoders id) (path b id s es) := by
  induction es generalizing s with
  | nil => rfl
  | cons e es ih =>
    obtain ⟨hnow, hlater⟩ := List.forall_mem_cons.mp hkept
    have hstep := step_encoder (b := b) hid hactive hnow
    have hnext : ((step b s e).encoders id).active = true := by
      rw [hstep, seen_active, hactive]
    rw [after_cons, ih hnext hlater, hstep, path, seen_append]

theorem path_mem (b : Board) (id : UInt8) (s : State) (es : List Event) :
    ∀ y ∈ path b id s es, y ∈ cycle := by
  induction es generalizing s with
  | nil => exact nofun
  | cons e es ih =>
    intro y hy
    rcases List.mem_append.mp hy with hy | hy
    · cases e with
      | encoderTick env tick =>
        rw [sample] at hy
        split_ifs at hy
        · rw [List.mem_singleton.mp hy]
          exact encoderState_mem env _ _
        · cases hy
      | _ => cases hy
    · exact ih _ y hy

/-- As long as the sum stays within 32 bits, the position is where the sum says. -/
theorem seen_position_exact {slot : EncoderSlot} {ys : List UInt8}
    (hlow : -2 ^ 31 ≤ slot.position.toInt + total delta slot.lastState ys)
    (hhigh : slot.position.toInt + total delta slot.lastState ys < 2 ^ 31) :
    (seen slot ys).position.toInt = slot.position.toInt + total delta slot.lastState ys := by
  rw [seen_position]
  exact Int.bmod_eq_of_le (by omega) (by omega)

/-- A slot that has just been configured. -/
def configured (pinA pinB mode lastState : UInt8) : EncoderSlot :=
  { active := true, pinA := pinA, pinB := pinB, mode := mode, lastState := lastState }

theorem configEncoder_slot {env : Env} {p : FirmwareProtocol.Packet} {pinA pinB mode : UInt8}
    (hdecode : decode p = .ok (.configEncoder id pinA pinB mode)) (hid : id < kMaxEncoders)
    (hpinA : isValidDigitalPin b pinA = true) (hpinB : isValidDigitalPin b pinB = true) :
    (step b s (.handle env p)).encoders id =
      configured pinA pinB mode (encoderState env pinA pinB) := by
  rw [step, react, handle_eq, hdecode, answer, execute,
    configEncoder_accepted b env s p.seq mode hid hpinA hpinB]
  exact setAt_self _ _ _

/-- A sample that changes both inputs or none is noted, but the position stays. -/
theorem tick_still (hid : id < kMaxEncoders) (hactive : (s.encoders id).active = true)
    (hlast : (s.encoders id).lastState ∈ cycle) {pinA pinB : UInt8}
    (hpins : (s.encoders id).pinA = pinA ∧ (s.encoders id).pinB = pinB) (env : Env) :
    let slot := s.encoders id
    let y := encoderState env pinA pinB
    y = slot.lastState ∨ bothChange slot.lastState y = true →
      ((step b s (.encoderTick env id)).encoders id).position = slot.position ∧
        ((step b s (.encoderTick env id)).encoders id).lastState = y := by
  intro slot y hstill
  have hmove : encoderDelta slot.lastState y = 0 :=
    delta_still slot.lastState y hlast (encoderState_mem env pinA pinB) hstill
  have hstep := step_encoder (b := b) (e := .encoderTick env id) hid hactive trivial
  rw [sample, if_pos rfl, hpins.1, hpins.2] at hstep
  rw [hstep]
  refine ⟨?_, rfl⟩
  change slot.position + encoderDelta slot.lastState y = slot.position
  rw [hmove, Int32.add_zero]

/-- A path and the way back leave the position alone. -/
theorem seen_round_trip (slot : EncoderSlot) (there : List UInt8) :
    (seen slot (there ++ back slot.lastState there)).position = slot.position := by
  apply Int32.toInt_inj.mp
  rw [seen_position, total_round_trip delta_anti, add_zero]
  exact Int32.toInt_bmod slot.position

end Runs

/-! ### Decoding -/

/-- After an encoder has been configured, over fewer than 2^31 samples and whatever else happens:
if no sample changes both inputs, the position is the forward steps less the reverse steps and is
the phase of the last state from the initial one; a path and the way back leave the position
alone; and so does a sample that changes both inputs or none, which is noted nevertheless. -/
theorem decoding_path_exact (b : Board) (s : State) (id pinA pinB mode : UInt8) (env : Env)
    (p : FirmwareProtocol.Packet) (es : List Event)
    (hdecode : decode p = .ok (.configEncoder id pinA pinB mode)) (hid : id < kMaxEncoders)
    (hpinA : isValidDigitalPin b pinA = true) (hpinB : isValidDigitalPin b pinB = true)
    (hkept : ∀ e ∈ es, Kept id e)
    (hfew : (path b id (step b s (.handle env p)) es).length < 2 ^ 31) :
    let start := step b s (.handle env p)
    let initial := encoderState env pinA pinB
    let samples := path b id start es
    let state := after (step b) start es
    let slot := state.encoders id
    ((initial :: samples).IsChain (fun x y => bothChange x y = false) →
      slot.position.toInt = steps isForward initial samples - steps isReverse initial samples ∧
        (slot.position.toInt : ZMod 4) = phase slot.lastState - phase initial) ∧
    (∀ there es', (∀ e ∈ es', Kept id e) →
      path b id state es' = there ++ back slot.lastState there →
        ((after (step b) state es').encoders id).position = slot.position) ∧
    ∀ env', let y := encoderState env' pinA pinB
      y = slot.lastState ∨ bothChange slot.lastState y = true →
        ((step b state (.encoderTick env' id)).encoders id).position = slot.position ∧
          ((step b state (.encoderTick env' id)).encoders id).lastState = y := by
  intro start initial samples state slot
  have hstart : start.encoders id = configured pinA pinB mode initial :=
    configEncoder_slot hdecode hid hpinA hpinB
  have hslot : slot = seen (configured pinA pinB mode initial) samples := by
    rw [← hstart]
    exact run_encoder hid (by rw [hstart]; rfl) hkept
  have hactive : slot.active = true := by
    rw [hslot, seen_active]
    rfl
  have hlast : slot.lastState = pathEnd initial samples := by
    rw [hslot]
    exact seen_lastState _ samples
  refine ⟨fun hsingle => ?_, fun there es' hkept' hround => ?_, ?_⟩
  · have hclean : (initial :: samples).IsChain Clean :=
      chain_clean (encoderState_mem env pinA pinB) (path_mem b id start es) hsingle
    have hposition : slot.position.toInt = total delta initial samples := by
      have hlength : samples.length < 2 ^ 31 := hfew
      have hsum := abs_le.mp (abs_total_le delta_unit initial samples)
      have hzero : (configured pinA pinB mode initial).position.toInt = 0 := rfl
      rw [hslot, seen_position_exact, hzero, zero_add]
      · rfl
      · rw [hzero, zero_add]
        change _ ≤ total delta initial samples
        omega
      · rw [hzero, zero_add]
        change total delta initial samples < _
        omega
    rw [hposition, hlast]
    exact ⟨total_eq_steps delta_clean initial hclean,
      total_potential (Int.castAddHom (ZMod 4)) phase delta_phase initial hclean⟩
  · rw [run_encoder hid hactive hkept', hround]
    exact seen_round_trip slot there
  · have hpins : slot.pinA = pinA ∧ slot.pinB = pinB := by
      rw [hslot]
      exact seen_pins _ samples
    have hmem : slot.lastState ∈ cycle := by
      rw [hlast]
      exact pathEnd_mem (encoderState_mem env pinA pinB) (path_mem b id start es)
    exact tick_still hid hactive hmem hpins

/-- The inputs in this state. -/
def inputsAt (x : UInt8) : Env :=
  { envAt 0 with digitalRead := fun occasion _ => x &&& (if occasion = 0 then 2 else 1) != 0 }

/-- The encoder's interrupt, at each of these states of its inputs. -/
def ticks (id : UInt8) (states : List UInt8) : List Event :=
  states.map fun x => .encoderTick (inputsAt x) id

def configPacket (mode : UInt8) : FirmwareProtocol.Packet :=
  commandPacket 1 [CommandId.configEncoder.toByte, 0, 2, 3, mode]

def bounced : List Event := ticks 0 [2, 3, 2, 3, 2]

/-- Two steps forward, a bounce and a step back. -/
theorem bounces_cancel :
    ((after (step sampleBoard) (step sampleBoard {} (.handle (inputsAt 0) (configPacket 4)))
        bounced).encoders 0).position.toInt = 1 := by
  have hkept : ∀ e ∈ bounced, Kept 0 e := by
    intro e he
    obtain ⟨x, -, rfl⟩ := List.mem_map.mp he
    trivial
  obtain ⟨hsingle, -, -⟩ := decoding_path_exact sampleBoard {} 0 2 3 4 (inputsAt 0)
    (configPacket 4) bounced rfl (by decide) rfl rfl hkept (by decide +kernel)
  rw [(hsingle (by decide +kernel)).1]
  decide +kernel

end QuadratureDecoding
