import TeensyIo.CounterPeriods
import TeensyIo.FirmwareReset
import TeensyIo.QuadratureDecoding

/-! # Pins and their interrupts

The levels of the pins beside the device. Where a pin changes its level the core calls the handler
that is attached to it, if its mode asks for such a change; whatever else reads a pin sees its
level. What the slots hold is then a matter of the levels alone. -/
namespace WiredPins

open WireCommands FirmwareState FirmwareCommands FirmwareUpdate FirmwareRequests FirmwareOutcomes
open FirmwareDevice FirmwareInterrupts FirmwareReset MachineRuns PathSums
open CounterPeriods (ticked)
open QuadratureDecoding (seen cycle phase delta bothChange isForward isReverse)
open FirmwareProtocol (Packet)

inductive Input where
  | level (env : Env) (pin : UInt8) (high : Bool)
  | handle (env : Env) (p : Packet)
  | update (env : Env)

structure Rig where
  device : Device := {}
  levels : UInt8 → Bool := fun _ => false

/-- The changes of a level at which the core calls the handler of a pin. -/
def fires : InterruptMode → Bool → Bool → Bool
  | .rising, before, now => !before && now
  | .falling, before, now => before && !now
  | .change, before, now => before != now

/-- A pin reads as its level. -/
def reading (env : Env) (levels : UInt8 → Bool) : Env :=
  { env with digitalRead := fun _ pin => levels pin }

def tick (env : Env) : Isr → Event
  | .counter id => .counterTick env id
  | .encoder id => .encoderTick env id

def levelsAfter (levels : UInt8 → Bool) : Input → UInt8 → Bool
  | .level _ pin high => setAt levels pin high
  | _ => levels

/-- The call into the firmware, if there is one. -/
def Rig.event (rig : Rig) : Input → Option Event
  | .level env pin high =>
    match rig.device.hardware.handler pin with
    | none => none
    | some (isr, mode) =>
      if fires mode (rig.levels pin) high then
        some (tick (reading env (setAt rig.levels pin high)) isr)
      else none
  | .handle env p => some (.handle (reading env rig.levels) p)
  | .update env => some (.update (reading env rig.levels))

def Rig.step (b : Board) (rig : Rig) (i : Input) : Rig where
  device :=
    match rig.event i with
    | none => rig.device
    | some e => rig.device.step b e
  levels := levelsAfter rig.levels i

/-- No accepted configuration names a pin that another active slot has. -/
def Apart (b : Board) (rig : Rig) : Input → Prop
  | .handle env p => ¬ Collides b rig.device.state (.handle env p)
  | _ => True

/-! ### What can be seen on the pins -/

/-- The marks that the inputs of a run leave, each seen with the levels before it. -/
def along {α : Type} (mark : (UInt8 → Bool) → Input → List α) (levels : UInt8 → Bool) :
    List Input → List α
  | [] => []
  | i :: is => mark levels i ++ along mark (levelsAfter levels i) is

/-- When the pin makes a change of the mode's kind. -/
def edge (pin : UInt8) (mode : InterruptMode) (levels : UInt8 → Bool) : Input → List UInt32
  | .level env p high =>
    if p = pin ∧ fires mode (levels pin) high = true then [env.micros 0] else []
  | _ => []

/-- The state of two inputs. -/
def pair (levels : UInt8 → Bool) (pinA pinB : UInt8) : UInt8 :=
  (if levels pinA then 2 else 0) ||| (if levels pinB then 1 else 0)

/-- The state that two inputs change to. -/
def turn (pinA pinB : UInt8) (levels : UInt8 → Bool) : Input → List UInt8
  | .level _ p high =>
    if (pinA = p ∨ pinB = p) ∧ levels p ≠ high then [pair (setAt levels p high) pinA pinB] else []
  | _ => []

/-! ### What the device keeps to -/

/-- Every active slot has its pins' handlers, no handler is left of any other, and every active
encoder has noted the present state of its inputs. -/
structure Wired (rig : Rig) : Prop where
  owned : Owned rig.device
  attached : Attached rig.device.state rig.device.hardware.handler
  noted : ∀ j, (rig.device.state.encoders j).active = true →
    (rig.device.state.encoders j).lastState =
      pair rig.levels (rig.device.state.encoders j).pinA (rig.device.state.encoders j).pinB

theorem wired_initial (levels : UInt8 → Bool) : Wired { levels := levels } where
  owned := ⟨by simp, by simp⟩
  attached := attached_initial
  noted := by simp

section Steps

variable {b : Board} {rig : Rig} {id : UInt8} {i : Input}

theorem not_takes_tick {env : Env} {owner isr : Isr} {pins : List UInt8} :
    ¬ Takes b (tick env owner) isr pins := by
  intro htakes
  cases owner with
  | counter id | encoder id =>
    cases htakes with
    | counter hcarries => exact hcarries
    | encoder hcarries => exact hcarries

/-- Only packets configure. -/
theorem not_collides (h : Apart b rig i) {e : Event} (he : rig.event i = some e) :
    ¬ Collides b rig.device.state e := by
  rintro ⟨isr, pins, htakes, hshared⟩
  cases i with
  | handle env p =>
    obtain rfl := Option.some.inj he
    apply h
    cases htakes with
    | counter hcarries hid hpin => exact ⟨_, _, .counter hcarries hid hpin, hshared⟩
    | encoder hcarries hid hA hB => exact ⟨_, _, .encoder hcarries hid hA hB, hshared⟩
  | update env =>
    obtain rfl := Option.some.inj he
    cases htakes with
    | counter hcarries => exact hcarries
    | encoder hcarries => exact hcarries
  | level env pin high =>
    rw [Rig.event] at he
    split at he
    · cases he
    · split_ifs at he
      obtain rfl := Option.some.inj he
      exact not_takes_tick htakes

/-- A handler that belongs to a slot is on a pin of the slot. -/
theorem counter_pin (h : Wired rig) {pin : UInt8} {mode : InterruptMode}
    (hhandler : rig.device.hardware.handler pin = some (.counter id, mode)) :
    (rig.device.state.counters id).active = true ∧ (rig.device.state.counters id).pin = pin := by
  rcases h.attached.claimed pin _ hhandler with ⟨k, hactive, hpin, hsame⟩ | ⟨k, -, -, hsame⟩
  · obtain ⟨hid, -⟩ := Prod.mk.inj hsame
    obtain rfl := Isr.counter.inj hid
    exact ⟨hactive, hpin⟩
  · cases hsame

theorem encoder_pin (h : Wired rig) {pin : UInt8} {mode : InterruptMode}
    (hhandler : rig.device.hardware.handler pin = some (.encoder id, mode)) :
    (rig.device.state.encoders id).active = true ∧
      ((rig.device.state.encoders id).pinA = pin ∨ (rig.device.state.encoders id).pinB = pin) := by
  rcases h.attached.claimed pin _ hhandler with ⟨k, -, -, hsame⟩ | ⟨k, hactive, hpins, hsame⟩
  · cases hsame
  · obtain ⟨hid, -⟩ := Prod.mk.inj hsame
    obtain rfl := Isr.encoder.inj hid
    exact ⟨hactive, hpins⟩

/-- The marks of an event, or none. -/
def marks {α : Type} (mark : Event → List α) : Option Event → List α
  | none => []
  | some e => mark e

/-- The interrupt of a counter is raised exactly at the edges that it is to count. -/
theorem marks_counter (h : Wired rig) (hactive : (rig.device.state.counters id).active = true) :
    marks (CounterPeriods.edge id) (rig.event i) =
      edge (rig.device.state.counters id).pin
        (edgeToInterruptMode (rig.device.state.counters id).edge) rig.levels i := by
  cases i with
  | handle env p => rfl
  | update env => rfl
  | level env pin high =>
    have howned := h.owned.counters id hactive
    by_cases hpin : pin = (rig.device.state.counters id).pin
    · rw [← hpin] at howned
      rw [Rig.event, howned, edge]
      by_cases hfires : fires (edgeToInterruptMode (rig.device.state.counters id).edge)
          (rig.levels pin) high = true
      · rw [if_pos ⟨hpin, hpin ▸ hfires⟩]
        dsimp only
        rw [if_pos hfires]
        exact if_pos rfl
      · rw [if_neg fun hedge => hfires (hpin ▸ hedge.2)]
        dsimp only
        rw [if_neg hfires]
        rfl
    · rw [Rig.event, edge, if_neg fun hedge => hpin hedge.1]
      cases hhandler : rig.device.hardware.handler pin with
      | none => rfl
      | some v =>
        obtain ⟨isr, mode⟩ := v
        dsimp only
        split_ifs with hfires
        · cases isr with
          | encoder k => rfl
          | counter k =>
            have hother : k ≠ id := by
              rintro rfl
              exact hpin (counter_pin h hhandler).2.symm
            exact if_neg hother
        · rfl

/-- The interrupt of an encoder is raised exactly when one of its inputs changes, and samples what
they have changed to. -/
theorem marks_encoder (h : Wired rig) (hactive : (rig.device.state.encoders id).active = true) :
    marks (QuadratureDecoding.sample id rig.device.state) (rig.event i) =
      turn (rig.device.state.encoders id).pinA (rig.device.state.encoders id).pinB rig.levels
        i := by
  cases i with
  | handle env p => rfl
  | update env => rfl
  | level env pin high =>
    obtain ⟨hownedA, hownedB⟩ := h.owned.encoders id hactive
    by_cases hpin : (rig.device.state.encoders id).pinA = pin ∨
        (rig.device.state.encoders id).pinB = pin
    · have howned : rig.device.hardware.handler pin = some (.encoder id, .change) := by
        rcases hpin with hpin | hpin
        · rw [← hpin]
          exact hownedA
        · rw [← hpin]
          exact hownedB
      rw [Rig.event, howned, turn]
      by_cases hchange : rig.levels pin = high
      · rw [if_neg fun hturn => hturn.2 hchange]
        dsimp only
        rw [fires, hchange, if_neg (by simp)]
        rfl
      · rw [if_pos ⟨hpin, hchange⟩]
        dsimp only
        rw [fires, if_pos (by simpa using hchange)]
        exact if_pos rfl
    · rw [Rig.event, turn, if_neg fun hturn => hpin hturn.1]
      cases hhandler : rig.device.hardware.handler pin with
      | none => rfl
      | some v =>
        obtain ⟨isr, mode⟩ := v
        dsimp only
        split_ifs with hfires
        · cases isr with
          | counter k => rfl
          | encoder k =>
            have hother : k ≠ id := by
              rintro rfl
              exact hpin (encoder_pin h hhandler).2
            exact if_neg hother
        · rfl

/-- The counter is not configured again or reset. -/
def CounterKept (id : UInt8) : Input → Prop
  | .handle env p => CounterPeriods.Kept id (.handle env p)
  | _ => True

def EncoderKept (id : UInt8) : Input → Prop
  | .handle env p => QuadratureDecoding.Kept id (.handle env p)
  | _ => True

/-- What holds of every tick and of the packets handled holds of what the device is told. -/
theorem event_of {K : Event → Prop}
    (hhandle : ∀ env p, i = .handle env p → ∀ env', K (.handle env' p))
    (hupdate : ∀ env, K (.update env)) (hcounter : ∀ env n, K (.counterTick env n))
    (hencoder : ∀ env n, K (.encoderTick env n)) {e : Event} (he : rig.event i = some e) : K e := by
  cases i with
  | handle env p =>
    obtain rfl := Option.some.inj he
    exact hhandle env p rfl _
  | update env =>
    obtain rfl := Option.some.inj he
    exact hupdate _
  | level env pin high =>
    rw [Rig.event] at he
    split at he
    · cases he
    · rename_i isr mode hhandler
      split_ifs at he
      obtain rfl := Option.some.inj he
      cases isr with
      | counter n => exact hcounter _ n
      | encoder n => exact hencoder _ n

theorem counterKept_event (h : CounterKept id i) {e : Event} (he : rig.event i = some e) :
    CounterPeriods.Kept id e := by
  refine event_of ?_ (fun _ => trivial) (fun _ _ => trivial) (fun _ _ => trivial) he
  rintro env p rfl env'
  exact h

theorem encoderKept_event (h : EncoderKept id i) {e : Event} (he : rig.event i = some e) :
    QuadratureDecoding.Kept id e := by
  refine event_of ?_ (fun _ => trivial) (fun _ _ => trivial) (fun _ _ => trivial) he
  rintro env p rfl env'
  exact h

theorem counter_step (h : Wired rig) (hactive : (rig.device.state.counters id).active = true)
    (hkept : CounterKept id i) :
    (rig.step b i).device.state.counters id =
      (edge (rig.device.state.counters id).pin
        (edgeToInterruptMode (rig.device.state.counters id).edge) rig.levels i).foldl ticked
          (rig.device.state.counters id) := by
  have hid := h.attached.counters id hactive
  rw [← marks_counter h hactive]
  cases he : rig.event i with
  | none =>
    simp only [Rig.step, he]
    rfl
  | some e =>
    simp only [Rig.step, he]
    exact CounterPeriods.step_counter hid hactive (counterKept_event hkept he)

theorem encoder_step (h : Wired rig) (hactive : (rig.device.state.encoders id).active = true)
    (hkept : EncoderKept id i) :
    (rig.step b i).device.state.encoders id =
      seen (rig.device.state.encoders id)
        (turn (rig.device.state.encoders id).pinA (rig.device.state.encoders id).pinB
          rig.levels i) := by
  have hid := h.attached.encoders id hactive
  rw [← marks_encoder h hactive]
  cases he : rig.event i with
  | none =>
    simp only [Rig.step, he]
    rfl
  | some e =>
    simp only [Rig.step, he]
    exact QuadratureDecoding.step_encoder hid hactive (encoderKept_event hkept he)

/-- A turn ends at the present state of the inputs. -/
theorem pathEnd_turn (levels : UInt8 → Bool) (pinA pinB : UInt8) (i : Input) :
    pathEnd (pair levels pinA pinB) (turn pinA pinB levels i) =
      pair (levelsAfter levels i) pinA pinB := by
  cases i with
  | handle env p => rfl
  | update env => rfl
  | level env p high =>
    rw [turn, levelsAfter]
    split_ifs with hturn
    · rfl
    · rw [pathEnd, pair, pair]
      have hsame : ∀ q, q = p → pinA = q ∨ pinB = q → levels q = high := by
        intro q hq hpins
        by_contra hne
        exact hturn ⟨hq ▸ hpins, hq ▸ hne⟩
      by_cases hA : pinA = p
      · by_cases hB : pinB = p
        · rw [hA, hB, setAt_self, hsame p rfl (Or.inl hA)]
        · rw [setAt_of_ne hB, hA, setAt_self, hsame p rfl (Or.inl hA)]
      · by_cases hB : pinB = p
        · rw [setAt_of_ne hA, hB, setAt_self, hsame p rfl (Or.inr hB)]
        · rw [setAt_of_ne hA, setAt_of_ne hB]

/-- Handling a packet leaves an active encoder with the state it had noted, or with the state it
reads. -/
theorem handle_noted (b : Board) (env : Env) (s : State) (p : Packet)
    (hactive : ((handle b env s p).1.encoders id).active = true) :
    let slot := (handle b env s p).1.encoders id
    ((s.encoders id).active = true ∧ slot.pinA = (s.encoders id).pinA ∧
      slot.pinB = (s.encoders id).pinB ∧ slot.lastState = (s.encoders id).lastState) ∨
      slot.lastState = encoderState env slot.pinA slot.pinB := by
  intro slot
  by_cases hkept : QuadratureDecoding.Kept id (.handle env p)
  · have hslot : slot = s.encoders id := QuadratureDecoding.handle_encoder hkept
    exact Or.inl ⟨hslot ▸ hactive, by rw [hslot], by rw [hslot], by rw [hslot]⟩
  · have hdecode : decode p = .ok .resetConfig ∨ decode p = .ok (.encoderReset id) ∨
        ∃ pinA pinB mode, decode p = .ok (.configEncoder id pinA pinB mode) := by
      by_contra hnone
      simp only [not_or, not_exists] at hnone
      exact hkept hnone
    rcases hdecode with hdecode | hdecode | ⟨pinA, pinB, mode, hdecode⟩
    · rw [handle_eq, hdecode] at hactive
      cases hactive
    · simp only [slot]
      rw [handle_eq, hdecode, answer, execute, encoderReset] at hactive ⊢
      split_ifs at hactive ⊢ with hguard
      · exact Or.inl ⟨hactive, rfl, rfl, rfl⟩
      · left
        simpa only [setAt_self, and_true] using hactive
    · simp only [slot]
      rw [handle_eq, hdecode, answer, execute, configEncoder, configureEncoder] at hactive ⊢
      split_ifs at hactive ⊢ with hguard
      · exact Or.inl ⟨hactive, rfl, rfl, rfl⟩
      · right
        simp only [setAt_self]

/-- An interrupt configures nothing. -/
theorem tick_active (b : Board) (env : Env) (s : State) (isr : Isr) :
    ((react b s (tick env isr)).1.encoders id).active = (s.encoders id).active := by
  cases isr with
  | counter k =>
    simp only [tick, react, counterTick]
    split_ifs <;> rfl
  | encoder k =>
    simp only [tick, react, encoderTick]
    split_ifs with hguard
    · rfl
    · by_cases hid : id = k
      · subst id
        simp only [setAt_self]
      · simp only [setAt_of_ne hid]

theorem Wired.noted_step (h : Wired rig) (i : Input)
    (hactive : ((rig.step b i).device.state.encoders id).active = true) :
    ((rig.step b i).device.state.encoders id).lastState =
      pair (rig.step b i).levels ((rig.step b i).device.state.encoders id).pinA
        ((rig.step b i).device.state.encoders id).pinB := by
  cases i with
  | handle env p =>
    rcases handle_noted b (reading env rig.levels) rig.device.state p hactive with
      ⟨hbefore, hA, hB, hlast⟩ | hread
    · have hnoted := h.noted id hbefore
      rw [← hlast, ← hA, ← hB] at hnoted
      exact hnoted
    · exact hread
  | update env =>
    have hsame : (rig.step b (.update env)).device.state.encoders = rig.device.state.encoders :=
      (update_undisturbed b (reading env rig.levels) rig.device.state).encoders
    rw [hsame] at hactive ⊢
    exact h.noted id hactive
  | level env pin high =>
    have hbefore : (rig.device.state.encoders id).active = true := by
      rw [← hactive, Rig.step, Rig.event]
      cases hhandler : rig.device.hardware.handler pin with
      | none => rfl
      | some v =>
        dsimp only
        split_ifs
        · exact (tick_active b _ rig.device.state v.1).symm
        · rfl
    rw [encoder_step (i := .level env pin high) h hbefore trivial,
      QuadratureDecoding.seen_lastState, h.noted id hbefore,
      (QuadratureDecoding.seen_pins _ _).1, (QuadratureDecoding.seen_pins _ _).2]
    exact pathEnd_turn rig.levels _ _ _

theorem Wired.step (h : Wired rig) (hapart : Apart b rig i) : Wired (rig.step b i) where
  owned := by
    cases he : rig.event i with
    | none =>
      simp only [Rig.step, he]
      exact h.owned
    | some e =>
      simp only [Rig.step, he]
      exact h.owned.step (not_collides hapart he)
  attached := by
    cases he : rig.event i with
    | none =>
      simp only [Rig.step, he]
      exact h.attached
    | some e =>
      simp only [Rig.step, he]
      exact h.attached.step e
  noted _ hactive := h.noted_step i hactive

/-! ### Runs -/

theorem ticked_claim (slot : CounterSlot) (stamps : List UInt32) :
    (stamps.foldl ticked slot).pin = slot.pin ∧ (stamps.foldl ticked slot).edge = slot.edge := by
  induction stamps generalizing slot with
  | nil => exact ⟨rfl, rfl⟩
  | cons now stamps ih => exact ih (ticked slot now)

theorem counter_run (h : Wired rig) (hactive : (rig.device.state.counters id).active = true)
    {inputs : List Input} (hapart : EachStep (Rig.step b) (Apart b) rig inputs)
    (hkept : ∀ i ∈ inputs, CounterKept id i) :
    (after (Rig.step b) rig inputs).device.state.counters id =
      (along (edge (rig.device.state.counters id).pin
        (edgeToInterruptMode (rig.device.state.counters id).edge)) rig.levels inputs).foldl ticked
          (rig.device.state.counters id) := by
  induction inputs generalizing rig with
  | nil => rfl
  | cons i inputs ih =>
    obtain ⟨hnow, hlater⟩ := List.forall_mem_cons.mp hkept
    have hstep := counter_step (b := b) h hactive hnow
    have hnext : ((rig.step b i).device.state.counters id).active = true := by
      rw [hstep, CounterPeriods.ticked_active, hactive]
    obtain ⟨hpin, hedge⟩ := ticked_claim (rig.device.state.counters id)
      (edge (rig.device.state.counters id).pin
        (edgeToInterruptMode (rig.device.state.counters id).edge) rig.levels i)
    rw [after_cons, ih (h.step hapart.1) hnext hapart.2 hlater, hstep, hpin, hedge, along,
      List.foldl_append]
    rfl

theorem encoder_run (h : Wired rig) (hactive : (rig.device.state.encoders id).active = true)
    {inputs : List Input} (hapart : EachStep (Rig.step b) (Apart b) rig inputs)
    (hkept : ∀ i ∈ inputs, EncoderKept id i) :
    (after (Rig.step b) rig inputs).device.state.encoders id =
      seen (rig.device.state.encoders id)
        (along (turn (rig.device.state.encoders id).pinA (rig.device.state.encoders id).pinB)
          rig.levels inputs) := by
  induction inputs generalizing rig with
  | nil => rfl
  | cons i inputs ih =>
    obtain ⟨hnow, hlater⟩ := List.forall_mem_cons.mp hkept
    have hstep := encoder_step (b := b) h hactive hnow
    have hnext : ((rig.step b i).device.state.encoders id).active = true := by
      rw [hstep, QuadratureDecoding.seen_active, hactive]
    obtain ⟨hA, hB⟩ := QuadratureDecoding.seen_pins (rig.device.state.encoders id)
      (turn (rig.device.state.encoders id).pinA (rig.device.state.encoders id).pinB rig.levels i)
    rw [after_cons, ih (h.step hapart.1) hnext hapart.2 hlater, hstep, hA, hB, along,
      QuadratureDecoding.seen_append]
    rfl

theorem wired_run (levels : UInt8 → Bool) {inputs : List Input}
    (hapart : EachStep (Rig.step b) (Apart b) { levels := levels } inputs) :
    Wired (after (Rig.step b) { levels := levels } inputs) :=
  eachState_after (eachState_of_eachStep (fun _ _ h hapart => h.step hapart) (fun _ h => h)
    (wired_initial levels) hapart)

end Steps

/-- After any run, for an active counter: as long as it is not configured again or reset, it holds
what the edges on its pin make of it, no more and no fewer, whatever else the device is asked to
do; unless a configuration names a pin that another active slot has. -/
theorem counts_are_edges (b : Board) (levels : UInt8 → Bool) (before later : List Input)
    (id : UInt8)
    (hapart : EachStep (Rig.step b) (Apart b) { levels := levels } (before ++ later))
    (hkept : ∀ i ∈ later, CounterKept id i) :
    let start := after (Rig.step b) { levels := levels } before
    let slot := start.device.state.counters id
    let edges := along (edge slot.pin (edgeToInterruptMode slot.edge)) start.levels later
    let now := (after (Rig.step b) start later).device.state.counters id
    slot.active = true → now = edges.foldl ticked slot ∧
      now.count.toInt = (slot.count.toInt + edges.length).bmod (2 ^ 32) := by
  intro start slot edges now hactive
  obtain ⟨hbefore, hlater⟩ := (eachStep_append _ before later).mp hapart
  have hnow : now = edges.foldl ticked slot :=
    counter_run (wired_run levels hbefore) hactive hlater hkept
  refine ⟨hnow, ?_⟩
  rw [hnow]
  exact CounterPeriods.ticked_count edges

/-- Nothing is claimed at the start. -/
theorem apart_initial (b : Board) (levels : UInt8 → Bool) (i : Input) :
    Apart b { levels := levels } i := by
  cases i with
  | handle env p =>
    rintro ⟨isr, pins, -, pin, -, v, hclaims, -⟩
    rcases hclaims with ⟨k, hk, -⟩ | ⟨k, hk, -⟩
    · cases hk
    · cases hk
  | update env => trivial
  | level env pin high => trivial

def configured (bytes : List UInt8) : Input := .handle (envAt 0) (commandPacket 1 bytes)

def pulses : List Input :=
  [.level (envAt 0) 6 true, .level (envAt 0) 6 false, .update (envAt 0), .level (envAt 0) 6 true]

/-- A counter of rising edges, on whose pin there are two. -/
theorem two_rising_edges :
    let start := after (Rig.step sampleBoard) {} [configured [0x40, 0, 6, 0]]
    ((after (Rig.step sampleBoard) start pulses).device.state.counters 0).count.toInt = 2 := by
  have hapart : EachStep (Rig.step sampleBoard) (Apart sampleBoard) {}
      ([configured [0x40, 0, 6, 0]] ++ pulses) :=
    ⟨apart_initial sampleBoard _ _, trivial, trivial, trivial, trivial, trivial⟩
  have hkept : ∀ i ∈ pulses, CounterKept 0 i := by
    simp [pulses, CounterKept]
  obtain ⟨-, hcount⟩ := counts_are_edges sampleBoard (fun _ => false) _ pulses 0 hapart hkept
    (by decide +kernel)
  exact hcount.trans (by decide +kernel)

section Encoders

variable {b : Board} {rig : Rig} {id : UInt8} {i : Input}

theorem pair_mem (levels : UInt8 → Bool) (pinA pinB : UInt8) : pair levels pinA pinB ∈ cycle := by
  rw [pair]
  cases levels pinA <;> cases levels pinB <;> decide

theorem turn_mem (levels : UInt8 → Bool) (pinA pinB : UInt8) (i : Input) :
    ∀ x ∈ turn pinA pinB levels i, x ∈ cycle := by
  cases i with
  | handle env p => exact nofun
  | update env => exact nofun
  | level env p high =>
    intro x hx
    rw [turn] at hx
    split_ifs at hx
    · rw [List.mem_singleton.mp hx]
      exact pair_mem _ pinA pinB
    · cases hx

theorem along_mem (levels : UInt8 → Bool) (pinA pinB : UInt8) (inputs : List Input) :
    ∀ x ∈ along (turn pinA pinB) levels inputs, x ∈ cycle := by
  induction inputs generalizing levels with
  | nil => exact nofun
  | cons i inputs ih =>
    intro x hx
    rcases List.mem_append.mp hx with hx | hx
    · exact turn_mem levels pinA pinB i x hx
    · exact ih _ x hx

theorem pathEnd_along (levels : UInt8 → Bool) (pinA pinB : UInt8) (inputs : List Input) :
    pathEnd (pair levels pinA pinB) (along (turn pinA pinB) levels inputs) =
      pair (inputs.foldl levelsAfter levels) pinA pinB := by
  induction inputs generalizing levels with
  | nil => rfl
  | cons i inputs ih => rw [along, pathEnd_append, pathEnd_turn, ih, List.foldl_cons]

theorem levels_after (inputs : List Input) :
    (after (Rig.step b) rig inputs).levels = inputs.foldl levelsAfter rig.levels := by
  induction inputs generalizing rig with
  | nil => rfl
  | cons i inputs ih => exact ih

/-- Wrapping at 32 bits leaves the phase alone. -/
theorem phase_bmod (x : ℤ) : ((x.bmod (2 ^ 32) : ℤ) : ZMod 4) = x := by
  apply ((ZMod.intCast_eq_intCast_iff_dvd_sub x _ 4).mpr _).symm
  have hwrap : ((2 ^ 32 : ℕ) : ℤ) ∣ x.bmod (2 ^ 32) - x := Int.dvd_bmod_sub_self
  exact (by decide : ((4 : ℕ) : ℤ) ∣ ((2 ^ 32 : ℕ) : ℤ)).trans hwrap

/-- The direction of a step of the cycle, none for a jump across it. -/
theorem delta_cycle (x y : UInt8) (h : x ∈ cycle ∧ y ∈ cycle) :
    delta x y = (if isForward x y then 1 else 0) - (if isReverse x y then 1 else 0) := by
  have hall : ∀ x ∈ cycle, ∀ y ∈ cycle,
      delta x y = (if isForward x y then 1 else 0) - (if isReverse x y then 1 else 0) := by
    decide +kernel
  exact hall x h.1 y h.2

theorem chain_cycle (levels : UInt8 → Bool) (pinA pinB : UInt8) (inputs : List Input) :
    (pair levels pinA pinB :: along (turn pinA pinB) levels inputs).IsChain
      fun x y => x ∈ cycle ∧ y ∈ cycle := by
  have hmem : ∀ x ∈ pair levels pinA pinB :: along (turn pinA pinB) levels inputs, x ∈ cycle :=
    List.forall_mem_cons.mpr ⟨pair_mem levels pinA pinB, along_mem levels pinA pinB inputs⟩
  exact (List.pairwise_of_forall_mem_list fun x hx y hy => ⟨hmem x hx, hmem y hy⟩).isChain

/-- One pin changes at a time. -/
theorem turn_single {pinA pinB : UInt8} (hdistinct : pinA ≠ pinB) (levels : UInt8 → Bool)
    (p : UInt8) (high : Bool) :
    bothChange (pair levels pinA pinB) (pair (setAt levels p high) pinA pinB) = false := by
  by_cases hA : pinA = p
  · have hB : pinB ≠ p := fun hB => hdistinct (hA.trans hB.symm)
    rw [pair, pair, hA, setAt_self, setAt_of_ne hB]
    cases levels p <;> cases levels pinB <;> cases high <;> decide
  · rw [pair, pair, setAt_of_ne hA]
    cases levels pinA <;> cases levels pinB <;> cases setAt levels p high pinB <;> decide

theorem chain_single {pinA pinB : UInt8} (hdistinct : pinA ≠ pinB) (levels : UInt8 → Bool)
    (inputs : List Input) :
    (pair levels pinA pinB :: along (turn pinA pinB) levels inputs).IsChain
      fun x y => bothChange x y = false := by
  induction inputs generalizing levels with
  | nil => exact List.isChain_singleton _
  | cons i inputs ih =>
    have hend := pathEnd_turn levels pinA pinB i
    rw [along]
    cases i with
    | handle env p => exact ih levels
    | update env => exact ih levels
    | level env p high =>
      rw [turn] at hend ⊢
      split_ifs at hend ⊢
      · exact List.isChain_cons_cons.mpr ⟨turn_single hdistinct levels p high, ih _⟩
      · have hsame : pair levels pinA pinB =
            pair (levelsAfter levels (.level env p high)) pinA pinB := hend
        rw [hsame]
        exact ih _

end Encoders

/-- After any run, for an active encoder: as long as it is not configured again or reset, its
position has moved by the forward turns of its two pins less the reverse turns, and it has not
lost its phase, whatever else the device is asked to do; unless a configuration names a pin that
another active slot has. -/
theorem position_is_rotation (b : Board) (levels : UInt8 → Bool) (before later : List Input)
    (id : UInt8)
    (hapart : EachStep (Rig.step b) (Apart b) { levels := levels } (before ++ later))
    (hkept : ∀ i ∈ later, EncoderKept id i) :
    let start := after (Rig.step b) { levels := levels } before
    let slot := start.device.state.encoders id
    let initial := pair start.levels slot.pinA slot.pinB
    let path := along (turn slot.pinA slot.pinB) start.levels later
    let finish := after (Rig.step b) start later
    let now := finish.device.state.encoders id
    slot.active = true →
      now.position.toInt = (slot.position.toInt +
        (steps isForward initial path - steps isReverse initial path)).bmod (2 ^ 32) ∧
      (slot.pinA ≠ slot.pinB →
        ((now.position.toInt - slot.position.toInt : ℤ) : ZMod 4) =
          phase (pair finish.levels slot.pinA slot.pinB) - phase initial) := by
  intro start slot initial path finish now hactive
  obtain ⟨hbefore, hlater⟩ := (eachStep_append _ before later).mp hapart
  have hwired : Wired start := wired_run levels hbefore
  have hnow : now = seen slot path := encoder_run hwired hactive hlater hkept
  have hlast : slot.lastState = initial := hwired.noted id hactive
  have hposition : now.position.toInt =
      (slot.position.toInt + PathSums.total delta initial path).bmod (2 ^ 32) := by
    rw [hnow, QuadratureDecoding.seen_position, hlast]
  constructor
  · rw [hposition, total_eq_steps delta_cycle initial
      (chain_cycle start.levels slot.pinA slot.pinB later)]
  · intro hdistinct
    have hclean := QuadratureDecoding.chain_clean (pair_mem start.levels slot.pinA slot.pinB)
      (along_mem start.levels slot.pinA slot.pinB later)
      (chain_single hdistinct start.levels later)
    have hphase := total_potential (Int.castAddHom (ZMod 4)) phase
      QuadratureDecoding.delta_phase initial hclean
    rw [pathEnd_along, ← levels_after (b := b)] at hphase
    rw [← hphase, hposition, Int.cast_sub, phase_bmod, Int.cast_add, add_sub_cancel_left]
    rfl

def turns : List Input :=
  [.level (envAt 0) 2 true, .level (envAt 0) 3 true, .update (envAt 0), .level (envAt 0) 2 false]

/-- Three quarters of a turn forward. -/
theorem three_turns_forward :
    let start := after (Rig.step sampleBoard) {} [configured [0x50, 0, 2, 3, 4]]
    ((after (Rig.step sampleBoard) start turns).device.state.encoders 0).position.toInt = 3 := by
  have hapart : EachStep (Rig.step sampleBoard) (Apart sampleBoard) {}
      ([configured [0x50, 0, 2, 3, 4]] ++ turns) :=
    ⟨apart_initial sampleBoard _ _, trivial, trivial, trivial, trivial, trivial⟩
  have hkept : ∀ i ∈ turns, EncoderKept 0 i := by
    simp [turns, EncoderKept]
  obtain ⟨hposition, -⟩ := position_is_rotation sampleBoard (fun _ => false) _ turns 0 hapart
    hkept (by decide +kernel)
  exact hposition.trans (by decide +kernel)

end WiredPins
