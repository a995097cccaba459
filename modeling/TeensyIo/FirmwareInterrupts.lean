import TeensyIo.FirmwareDevice

/-! # Who owns an interrupt

A counter claims one pin and an encoder two. The core keeps one handler for each pin, and
neither configuration looks at the other slots, so ownership survives exactly the
configurations that name no pin another slot has claimed. -/
namespace FirmwareInterrupts

open FirmwareState FirmwareCommands FirmwareUpdate FirmwareRequests FirmwareOutcomes
open FirmwareDevice MachineRuns

abbrev Handler := Isr × InterruptMode

/-- Every active slot has its own handler on its pins. -/
structure Owned (d : Device) : Prop where
  counters : ∀ i, (d.state.counters i).active = true →
    d.hardware.handler (d.state.counters i).pin =
      some (.counter i, edgeToInterruptMode (d.state.counters i).edge)
  encoders : ∀ j, (d.state.encoders j).active = true →
    d.hardware.handler (d.state.encoders j).pinA = some (.encoder j, .change) ∧
      d.hardware.handler (d.state.encoders j).pinB = some (.encoder j, .change)

/-- Slot `i` expects this handler on this pin. -/
def CounterClaims (slot : CounterSlot) (i pin : UInt8) (v : Handler) : Prop :=
  slot.active = true ∧ slot.pin = pin ∧ v = (.counter i, edgeToInterruptMode slot.edge)

def EncoderClaims (slot : EncoderSlot) (j pin : UInt8) (v : Handler) : Prop :=
  slot.active = true ∧ (slot.pinA = pin ∨ slot.pinB = pin) ∧ v = (.encoder j, .change)

def Claims (s : State) (pin : UInt8) (v : Handler) : Prop :=
  (∃ i, CounterClaims (s.counters i) i pin v) ∨ ∃ j, EncoderClaims (s.encoders j) j pin v

def Honoured (s : State) (handler : UInt8 → Option Handler) : Prop :=
  ∀ pin v, Claims s pin v → handler pin = some v

theorem owned_iff (d : Device) : Owned d ↔ Honoured d.state d.hardware.handler := by
  constructor
  · rintro h pin v (⟨i, hi, rfl, rfl⟩ | ⟨j, hj, rfl | rfl, rfl⟩)
    · exact h.counters i hi
    · exact (h.encoders j hj).1
    · exact (h.encoders j hj).2
  · intro h
    exact ⟨fun i hi => h _ _ (Or.inl ⟨i, hi, rfl, rfl⟩),
      fun j hj => ⟨h _ _ (Or.inr ⟨j, hj, Or.inl rfl, rfl⟩),
        h _ _ (Or.inr ⟨j, hj, Or.inr rfl, rfl⟩)⟩⟩

/-- The event is a configuration the handler accepts, for this slot and these pins. -/
inductive Takes (b : Board) (e : Event) : Isr → List UInt8 → Prop where
  | counter {id pin edge} : Carries (.configCounter id pin edge) e → id < kMaxCounters →
      isValidDigitalPin b pin = true → Takes b e (.counter id) [pin]
  | encoder {id pinA pinB mode} : Carries (.configEncoder id pinA pinB mode) e →
      id < kMaxEncoders → isValidDigitalPin b pinA = true → isValidDigitalPin b pinB = true →
      Takes b e (.encoder id) [pinA, pinB]

/-- An accepted configuration names a pin that another active slot has claimed. -/
def Collides (b : Board) (s : State) (e : Event) : Prop :=
  ∃ isr pins, Takes b e isr pins ∧ ∃ pin ∈ pins, ∃ v, Claims s pin v ∧ v.1 ≠ isr

/-! ### Claims after one slot has changed -/

section Slots

variable {s : State} {pin : UInt8} {v : Handler}

theorem claims_setCounter (id : UInt8) (slot : CounterSlot) :
    Claims { s with counters := setAt s.counters id slot } pin v ↔
      CounterClaims slot id pin v ∨ (Claims s pin v ∧ v.1 ≠ .counter id) := by
  constructor
  · rintro (⟨i, hi⟩ | ⟨j, hj⟩)
    · by_cases hid : i = id
      · subst i
        simp only [setAt_self] at hi
        exact Or.inl hi
      · simp only [setAt_of_ne hid] at hi
        exact Or.inr ⟨Or.inl ⟨i, hi⟩, by rw [hi.2.2]; simpa using hid⟩
    · exact Or.inr ⟨Or.inr ⟨j, hj⟩, by rw [hj.2.2]; simp⟩
  · rintro (hslot | ⟨⟨i, hi⟩ | ⟨j, hj⟩, hne⟩)
    · exact Or.inl ⟨id, by simpa using hslot⟩
    · have hid : i ≠ id := by
        rintro rfl
        exact hne (by rw [hi.2.2])
      exact Or.inl ⟨i, by simpa only [setAt_of_ne hid] using hi⟩
    · exact Or.inr ⟨j, hj⟩

theorem claims_setEncoder (id : UInt8) (slot : EncoderSlot) :
    Claims { s with encoders := setAt s.encoders id slot } pin v ↔
      EncoderClaims slot id pin v ∨ (Claims s pin v ∧ v.1 ≠ .encoder id) := by
  constructor
  · rintro (⟨i, hi⟩ | ⟨j, hj⟩)
    · exact Or.inr ⟨Or.inl ⟨i, hi⟩, by rw [hi.2.2]; simp⟩
    · by_cases hid : j = id
      · subst j
        simp only [setAt_self] at hj
        exact Or.inl hj
      · simp only [setAt_of_ne hid] at hj
        exact Or.inr ⟨Or.inr ⟨j, hj⟩, by rw [hj.2.2]; simpa using hid⟩
  · rintro (hslot | ⟨⟨i, hi⟩ | ⟨j, hj⟩, hne⟩)
    · exact Or.inr ⟨id, by simpa using hslot⟩
    · exact Or.inl ⟨i, hi⟩
    · have hid : j ≠ id := by
        rintro rfl
        exact hne (by rw [hj.2.2])
      exact Or.inr ⟨j, by simpa only [setAt_of_ne hid] using hj⟩

/-- A slot whose pins, edge and activity stay makes the same claims. -/
theorem claims_recount {id : UInt8} {slot : CounterSlot}
    (ha : slot.active = (s.counters id).active) (hp : slot.pin = (s.counters id).pin)
    (he : slot.edge = (s.counters id).edge) :
    Claims { s with counters := setAt s.counters id slot } pin v ↔ Claims s pin v := by
  have hsame : CounterClaims slot id pin v ↔ CounterClaims (s.counters id) id pin v := by
    rw [CounterClaims, ha, hp, he, CounterClaims]
  rw [claims_setCounter, hsame]
  constructor
  · rintro (h | ⟨h, -⟩)
    · exact Or.inl ⟨id, h⟩
    · exact h
  · intro h
    by_cases hv : v.1 = .counter id
    · rcases h with ⟨i, hi⟩ | ⟨j, -, -, rfl⟩
      · obtain rfl : i = id := by simpa [hi.2.2] using hv
        exact Or.inl hi
      · cases hv
    · exact Or.inr ⟨h, hv⟩

theorem claims_reposition {id : UInt8} {slot : EncoderSlot}
    (ha : slot.active = (s.encoders id).active) (hA : slot.pinA = (s.encoders id).pinA)
    (hB : slot.pinB = (s.encoders id).pinB) :
    Claims { s with encoders := setAt s.encoders id slot } pin v ↔ Claims s pin v := by
  have hsame : EncoderClaims slot id pin v ↔ EncoderClaims (s.encoders id) id pin v := by
    rw [EncoderClaims, ha, hA, hB, EncoderClaims]
  rw [claims_setEncoder, hsame]
  constructor
  · rintro (h | ⟨h, -⟩)
    · exact Or.inr ⟨id, h⟩
    · exact h
  · intro h
    by_cases hv : v.1 = .encoder id
    · rcases h with ⟨i, -, -, rfl⟩ | ⟨j, hj⟩
      · cases hv
      · obtain rfl : j = id := by simpa [hj.2.2] using hv
        exact Or.inl hj
    · exact Or.inr ⟨h, hv⟩

end Slots

/-! ### Attaching and detaching -/

theorem handler_run_of_none {es : List Effect}
    (ha : ∀ pin isr mode, .attachInterrupt pin isr mode ∉ es)
    (hd : ∀ pin, .detachInterrupt pin ∉ es) (hw : Hardware) :
    (hw.run es).handler = hw.handler := by
  induction es generalizing hw with
  | nil => rfl
  | cons e es ih =>
    have he : (hw.apply e).handler = hw.handler := by
      cases e with
      | attachInterrupt pin isr mode => exact absurd List.mem_cons_self (ha pin isr mode)
      | detachInterrupt pin => exact absurd List.mem_cons_self (hd pin)
      | _ => rfl
    rw [Hardware.run_cons, ih (fun pin isr mode hm => ha pin isr mode (List.mem_cons_of_mem e hm))
      (fun pin hm => hd pin (List.mem_cons_of_mem e hm)), he]

/-- Where every claim is honoured, a pin of the slot carries no other slot's handler. -/
theorem Honoured.unshared {s : State} {handler : UInt8 → Option Handler} (h : Honoured s handler)
    {pin : UInt8} {v w : Handler} (hv : handler pin = some v) (hw : Claims s pin w) : w = v :=
  Option.some.inj ((h pin w hw).symm.trans hv)

/-- Detaching a slot's pins costs no other slot its handler. -/
theorem handler_detachCounter {s : State} {hw : Hardware} (h : Honoured s hw.handler)
    {id pin : UInt8} {v : Handler} (hv : hw.handler pin = some v) (hne : v.1 ≠ .counter id) :
    (hw.run (detachCounter s id)).handler pin = some v := by
  unfold detachCounter
  split_ifs with hactive
  · have hpin : pin ≠ (s.counters id).pin := by
      rintro rfl
      exact hne (by rw [← h.unshared hv (Or.inl ⟨id, hactive, rfl, rfl⟩)])
    simp only [Hardware.run_cons, Hardware.run_nil, Hardware.apply]
    rw [setAt_of_ne hpin, hv]
  · exact hv

theorem handler_detachEncoder {s : State} {hw : Hardware} (h : Honoured s hw.handler)
    {id pin : UInt8} {v : Handler} (hv : hw.handler pin = some v) (hne : v.1 ≠ .encoder id) :
    (hw.run (detachEncoder s id)).handler pin = some v := by
  unfold detachEncoder
  split_ifs with hactive
  · have hA : pin ≠ (s.encoders id).pinA := by
      rintro rfl
      exact hne (by rw [← h.unshared hv (Or.inr ⟨id, hactive, Or.inl rfl, rfl⟩)])
    have hB : pin ≠ (s.encoders id).pinB := by
      rintro rfl
      exact hne (by rw [← h.unshared hv (Or.inr ⟨id, hactive, Or.inr rfl, rfl⟩)])
    simp only [Hardware.run_cons, Hardware.run_nil, Hardware.apply]
    rw [setAt_of_ne hB, setAt_of_ne hA, hv]
  · exact hv

theorem handler_configCounter (s : State) (hw : Hardware) (seq : UInt16) (id pin edge : UInt8) :
    (hw.run (detachCounter s id ++
      [.attachInterrupt pin (some (.counter id)) (edgeToInterruptMode edge), ackTo seq])).handler =
      setAt (hw.run (detachCounter s id)).handler pin
        (some (.counter id, edgeToInterruptMode edge)) := by
  rw [Hardware.run_append]
  rfl

theorem handler_configEncoder (s : State) (hw : Hardware) (seq : UInt16) (id pinA pinB : UInt8) :
    (hw.run ([.pinMode pinA .input, .pinMode pinB .input] ++ detachEncoder s id ++
      [.attachInterrupt pinA (some (.encoder id)) .change,
        .attachInterrupt pinB (some (.encoder id)) .change, ackTo seq])).handler =
      setAt (setAt (hw.run (detachEncoder s id)).handler pinA (some (.encoder id, .change))) pinB
        (some (.encoder id, .change)) := by
  rw [Hardware.run_append, Hardware.run_append]
  rfl

/-! ### One step -/

/-- A configuration that takes no claimed pin honours the new claims and the old. -/
theorem honoured_configCounter {s : State} {hw : Hardware} (h : Honoured s hw.handler)
    {id pin edge : UInt8} (seq : UInt16) (hfree : ∀ v, Claims s pin v → v.1 = .counter id) :
    Honoured
      { s with counters := setAt s.counters id { active := true, pin := pin, edge := edge } }
      (hw.run (detachCounter s id ++
        [.attachInterrupt pin (some (.counter id)) (edgeToInterruptMode edge),
          ackTo seq])).handler := by
  intro p v hclaim
  rw [handler_configCounter]
  rcases (claims_setCounter id _).mp hclaim with ⟨-, rfl, rfl⟩ | ⟨hold, hne⟩
  · exact setAt_self ..
  · have hp : p ≠ pin := by
      rintro rfl
      exact hne (hfree v hold)
    rw [setAt_of_ne hp]
    exact handler_detachCounter h (h p v hold) hne

theorem honoured_configEncoder {s : State} {hw : Hardware} (h : Honoured s hw.handler)
    {id pinA pinB mode lastState : UInt8} (seq : UInt16)
    (hfree : ∀ pin ∈ [pinA, pinB], ∀ v, Claims s pin v → v.1 = .encoder id) :
    Honoured
      { s with
        encoders := setAt s.encoders id
          { active := true, pinA := pinA, pinB := pinB, mode := mode, lastState := lastState } }
      (hw.run ([.pinMode pinA .input, .pinMode pinB .input] ++ detachEncoder s id ++
        [.attachInterrupt pinA (some (.encoder id)) .change,
          .attachInterrupt pinB (some (.encoder id)) .change, ackTo seq])).handler := by
  intro p v hclaim
  rw [handler_configEncoder]
  rcases (claims_setEncoder id _).mp hclaim with ⟨-, hpins, rfl⟩ | ⟨hold, hne⟩
  · by_cases hB : p = pinB
    · rw [hB, setAt_self]
    · have hA : p = pinA := (hpins.resolve_right fun he => hB he.symm).symm
      rw [setAt_of_ne hB, hA, setAt_self]
  · have hA : p ≠ pinA := by
      rintro rfl
      exact hne (hfree p (by simp) v hold)
    have hB : p ≠ pinB := by
      rintro rfl
      exact hne (hfree p (by simp) v hold)
    rw [setAt_of_ne hB, setAt_of_ne hA]
    exact handler_detachEncoder h (h p v hold) hne

/-- Effects that leave the vectors alone, and claims that were made before. -/
theorem Honoured.kept {s s' : State} {hw : Hardware} (h : Honoured s hw.handler)
    {es : List Effect} (hclaims : ∀ pin v, Claims s' pin v → Claims s pin v)
    (hes : (hw.run es).handler = hw.handler) : Honoured s' (hw.run es).handler := by
  intro pin v hc
  rw [hes]
  exact h pin v (hclaims pin v hc)

theorem honoured_executed {b : Board} {env : Env} {s : State} {seq : UInt16} {r : Request}
    {out : Outcome} {hw : Hardware} (he : Executed b env s seq r out)
    (h : Honoured s hw.handler)
    (hcounter : ∀ id pin edge, r = .configCounter id pin edge → id < kMaxCounters →
      isValidDigitalPin b pin = true → ∀ v, Claims s pin v → v.1 = .counter id)
    (hencoder : ∀ id pinA pinB mode, r = .configEncoder id pinA pinB mode → id < kMaxEncoders →
      isValidDigitalPin b pinA = true → isValidDigitalPin b pinB = true →
      ∀ pin ∈ [pinA, pinB], ∀ v, Claims s pin v → v.1 = .encoder id) :
    Honoured out.1 (hw.run out.2).handler := by
  cases he with
  | configCounter hid hpin =>
    exact honoured_configCounter h seq (hcounter _ _ _ rfl hid hpin)
  | configEncoder lastState hid hA hB =>
    exact honoured_configEncoder h seq (hencoder _ _ _ _ rfl hid hA hB)
  | resetConfig =>
    rintro pin v (⟨i, hi, -⟩ | ⟨j, hj, -⟩)
    · simp [resetConfig] at hi
    · simp [resetConfig] at hj
  | counterReset hactive =>
    exact h.kept (fun pin v hc => (claims_recount (by rfl) (by rfl) (by rfl)).mp hc) rfl
  | encoderReset hactive =>
    exact h.kept (fun pin v hc => (claims_reposition (by rfl) (by rfl) (by rfl)).mp hc) rfl
  | emergencyStop =>
    refine h.kept (fun pin v hc => hc) (handler_run_of_none ?_ ?_ hw) <;>
      simp [emergencyStop, mem_applySafeOutputs, ackTo]
  | _ => exact h.kept (fun pin v hc => hc) rfl

/-- Updates and interrupts make no claim and touch no vector. -/
theorem honoured_update (b : Board) (env : Env) {s : State} {hw : Hardware}
    (h : Honoured s hw.handler) :
    Honoured (update b env s).1 (hw.run (update b env s).2).handler := by
  have hund := update_undisturbed b env s
  obtain ⟨writes, heffects, hwrites⟩ := update_effects b env s
  have hclaims : ∀ pin v, Claims (update b env s).1 pin v → Claims s pin v := by
    intro pin v hc
    rw [Claims, hund.counters, hund.encoders] at hc
    exact hc
  refine h.kept hclaims (handler_run_of_none (fun pin isr mode hm => ?_) (fun pin hm => ?_) hw)
  all_goals
    rw [heffects] at hm
    rcases List.mem_append.mp hm with hm | hm
    · obtain ⟨_, he⟩ := mem_safeOutputsOnExpiry hm
      cases he
    · obtain ⟨_, _, _, he⟩ := hwrites _ hm
      cases he

theorem honoured_counterTick (env : Env) {s : State} {handler : UInt8 → Option Handler}
    (h : Honoured s handler) (id : UInt8) : Honoured (counterTick env s id) handler := by
  intro pin v hc
  dsimp only [counterTick] at hc
  split_ifs at hc
  · exact h pin v hc
  all_goals exact h pin v ((claims_recount (by rfl) (by rfl) (by rfl)).mp hc)

theorem honoured_encoderTick (env : Env) {s : State} {handler : UInt8 → Option Handler}
    (h : Honoured s handler) (id : UInt8) : Honoured (encoderTick env s id) handler := by
  intro pin v hc
  dsimp only [encoderTick] at hc
  split_ifs at hc
  · exact h pin v hc
  · exact h pin v ((claims_reposition (by rfl) (by rfl) (by rfl)).mp hc)

/-- Ownership survives every step that does not collide. -/
theorem Owned.step {b : Board} {d : Device} (h : Owned d) {e : Event}
    (hfree : ¬ Collides b d.state e) : Owned (d.step b e) := by
  rw [owned_iff] at h ⊢
  cases e with
  | handle env p =>
    rcases handle_cases b env d.state p with ⟨code, -, hrun⟩ | ⟨r, hr, hrun⟩
    · simp only [Device.step, react, hrun]
      exact h.kept (fun pin v hc => hc) rfl
    · simp only [Device.step, react, hrun]
      refine honoured_executed (execute_spec b env d.state p.seq r) h ?_ ?_
      · rintro id pin edge rfl hid hpin v hv
        by_contra hne
        exact hfree ⟨_, _, .counter hr hid hpin, pin, by simp, v, hv, hne⟩
      · rintro id pinA pinB mode rfl hid hA hB pin hpin v hv
        by_contra hne
        exact hfree ⟨_, _, .encoder hr hid hA hB, pin, hpin, v, hv, hne⟩
  | update env => exact honoured_update b env h
  | counterTick env id => exact honoured_counterTick env h id
  | encoderTick env id => exact honoured_encoderTick env h id

/-- The configuration that collides leaves a claim unhonoured, whatever went before. -/
theorem collision_disowns {b : Board} {d : Device} {e : Event} (hc : Collides b d.state e) :
    ¬ Owned (d.step b e) := by
  obtain ⟨isr, pins, htakes, pin, hpin, v, hv, hne⟩ := hc
  intro h
  rw [owned_iff] at h
  cases htakes with
  | @counter id pin' edge hcarries hid hvalid =>
    obtain rfl := List.mem_singleton.mp hpin
    cases e with
    | handle env p =>
      rw [Carries] at hcarries
      simp only [Device.step, react, handle_eq, hcarries, answer, execute,
        configCounter_accepted b d.state p.seq edge hid hvalid] at h
      have hold := h pin v ((claims_setCounter id _).mpr (Or.inr ⟨hv, hne⟩))
      rw [handler_configCounter, setAt_self] at hold
      exact hne (by rw [← Option.some.inj hold])
    | _ => exact hcarries.elim
  | @encoder id pinA pinB mode hcarries hid hA hB =>
    cases e with
    | handle env p =>
      rw [Carries] at hcarries
      simp only [Device.step, react, handle_eq, hcarries, answer, execute,
        configEncoder_accepted b env d.state p.seq mode hid hA hB] at h
      have hold := h pin v ((claims_setEncoder id _).mpr (Or.inr ⟨hv, hne⟩))
      rw [handler_configEncoder] at hold
      have hmine : setAt (setAt (d.hardware.run (detachEncoder d.state id)).handler pinA
          (some (.encoder id, .change))) pinB (some (.encoder id, .change)) pin =
          some (Isr.encoder id, InterruptMode.change) := by
        by_cases hB : pin = pinB
        · rw [hB, setAt_self]
        · have hA : pin = pinA := by simpa [hB] using hpin
          rw [setAt_of_ne hB, hA, setAt_self]
      rw [hmine] at hold
      exact hne (by rw [← Option.some.inj hold])
    | _ => exact hcarries.elim

/-- Every active slot owns its interrupts in every state of a run exactly if no accepted
configuration of the run names a pin that another active slot lists. -/
theorem ownership_iff (b : Board) (events : List Event) :
    EachState (Device.step b) Owned {} events ↔
      EachStep (Device.step b) (fun d e => ¬ Collides b d.state e) {} events := by
  have hinitial : Owned {} := ⟨by simp, by simp⟩
  constructor
  · exact eachStep_of_eachState (I := fun _ => True) (fun _ _ _ => trivial)
      (fun _ _ _ _ hnext hc => collision_disowns hc hnext) trivial
  · exact eachState_of_eachStep (fun _ _ h hfree => h.step hfree) (fun _ h => h) hinitial

/-- The documented configuration: a counter on pin 6, then an encoder on pins 5 and 6. -/
theorem shared_pin_disowns :
    let events := commands [[0x40, 0, 6, 0], [0x50, 0, 5, 6, 4]]
    let d := after (Device.step sampleBoard) {} events
    (d.state.counters 0).active = true ∧ (d.state.counters 0).pin = 6 ∧
      d.hardware.handler 6 = some (.encoder 0, .change) ∧
      ¬ EachState (Device.step sampleBoard) Owned {} events := by
  refine ⟨by decide +kernel, by decide +kernel, by decide +kernel, ?_⟩
  rintro ⟨-, -, hlast⟩
  have hcounter := hlast.counters 0 (by decide +kernel)
  revert hcounter
  decide +kernel

end FirmwareInterrupts
