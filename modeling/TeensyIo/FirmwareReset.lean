import TeensyIo.FirmwareInterrupts
import TeensyIo.FirmwareResponses
import TeensyIo.FirmwareSafeState

/-! # Resetting the configuration

`ResetConfig` detaches the pins of the active slots only. That this leaves no handler behind is
an invariant: whatever is attached to a pin belongs to an active slot that lists the pin. -/
namespace FirmwareReset

open FirmwareState FirmwareCommands FirmwareUpdate FirmwareRequests FirmwareOutcomes
open FirmwareDevice FirmwareInterrupts FirmwareResponses FirmwareSafeState MachineRuns
open FirmwareProtocol (Packet)

/-- Every handler is claimed, and only slots that exist are active. -/
structure Attached (s : State) (handler : UInt8 → Option Handler) : Prop where
  claimed : ∀ pin v, handler pin = some v → Claims s pin v
  counters : ∀ i, (s.counters i).active = true → i < kMaxCounters
  encoders : ∀ j, (s.encoders j).active = true → j < kMaxEncoders

theorem attached_initial : Attached {} fun _ => none where
  claimed := by simp
  counters := by simp
  encoders := by simp

/-! ### Effects that only detach -/

/-- A pin is free after effects that attach nothing, if it was free or is detached. -/
theorem handler_run_free {es : List Effect}
    (ha : ∀ pin isr mode, .attachInterrupt pin isr mode ∉ es) (hw : Hardware) {pin : UInt8}
    (h : .detachInterrupt pin ∈ es ∨ hw.handler pin = none) :
    (hw.run es).handler pin = none := by
  induction es generalizing hw with
  | nil => exact h.resolve_left (by simp)
  | cons e es ih =>
    refine ih (fun p isr mode hm => ha p isr mode (List.mem_cons_of_mem e hm)) _ ?_
    rcases h with h | h
    · rcases List.mem_cons.mp h with rfl | h
      · exact Or.inr (setAt_self ..)
      · exact Or.inl h
    · refine Or.inr ?_
      cases e with
      | attachInterrupt p isr mode => exact absurd List.mem_cons_self (ha p isr mode)
      | detachInterrupt p =>
        by_cases hp : pin = p
        · rw [hp]
          exact setAt_self ..
        · exact (setAt_of_ne hp ..).trans h
      | _ => exact h

/-- What is still attached afterwards was attached before. -/
theorem handler_run_kept {es : List Effect}
    (ha : ∀ pin isr mode, .attachInterrupt pin isr mode ∉ es) (hw : Hardware)
    {pin : UInt8} {v : Handler} (h : (hw.run es).handler pin = some v) :
    hw.handler pin = some v ∧ .detachInterrupt pin ∉ es := by
  induction es generalizing hw with
  | nil => exact ⟨h, by simp⟩
  | cons e es ih =>
    obtain ⟨hnext, hnot⟩ := ih (fun p isr mode hm => ha p isr mode (List.mem_cons_of_mem e hm)) _ h
    cases e with
    | attachInterrupt p isr mode => exact absurd List.mem_cons_self (ha p isr mode)
    | detachInterrupt p =>
      have hp : pin ≠ p := by
        rintro rfl
        simp only [Hardware.apply, setAt_self] at hnext
        cases hnext
      simp only [Hardware.apply, setAt_of_ne hp] at hnext
      exact ⟨hnext, by simp [hp, hnot]⟩
    | _ => exact ⟨hnext, by simp [hnot]⟩

theorem no_attach_detachCounter (s : State) (id : UInt8) :
    ∀ pin isr mode, .attachInterrupt pin isr mode ∉ detachCounter s id := by
  simp [mem_detachCounter]

theorem no_attach_detachEncoder (s : State) (id : UInt8) :
    ∀ pin isr mode, .attachInterrupt pin isr mode ∉ detachEncoder s id := by
  simp [mem_detachEncoder]

theorem no_attach_resetConfig (b : Board) (s : State) (seq : UInt16) :
    ∀ pin isr mode, .attachInterrupt pin isr mode ∉ (resetConfig b s seq).2 := by
  simp [resetConfig, mem_applySafeOutputs, detachCounters, detachEncoders, mem_detachCounter,
    mem_detachEncoder, ackTo]

/-! ### The invariant -/

section Steps

variable {s s' : State} {hw : Hardware}

/-- Effects that attach nothing, where every old claim is made again. -/
theorem Attached.kept (h : Attached s hw.handler) (es : List Effect)
    (ha : ∀ pin isr mode, .attachInterrupt pin isr mode ∉ es)
    (hclaims : ∀ pin v, Claims s pin v → Claims s' pin v)
    (hcounters : ∀ i, (s'.counters i).active = true → (s.counters i).active = true)
    (hencoders : ∀ j, (s'.encoders j).active = true → (s.encoders j).active = true) :
    Attached s' (hw.run es).handler where
  claimed pin v hv := hclaims pin v (h.claimed pin v (handler_run_kept ha hw hv).1)
  counters i hi := h.counters i (hcounters i hi)
  encoders j hj := h.encoders j (hencoders j hj)

/-- A counter that moves gives its old pin up before it takes the new one. -/
theorem Attached.configCounter (h : Attached s hw.handler) {id : UInt8} (hid : id < kMaxCounters)
    (pin edge : UInt8) (seq : UInt16) :
    Attached
      { s with counters := setAt s.counters id { active := true, pin := pin, edge := edge } }
      (hw.run (detachCounter s id ++
        [.attachInterrupt pin (some (.counter id)) (edgeToInterruptMode edge),
          ackTo seq])).handler where
  claimed p v hv := by
    rw [handler_configCounter] at hv
    refine (claims_setCounter id _).mpr ?_
    by_cases hp : p = pin
    · subst p
      rw [setAt_self] at hv
      exact Or.inl ⟨rfl, rfl, (Option.some.inj hv).symm⟩
    · rw [setAt_of_ne hp] at hv
      obtain ⟨hbefore, hnot⟩ := handler_run_kept (no_attach_detachCounter s id) hw hv
      have hclaim := h.claimed p v hbefore
      refine Or.inr ⟨hclaim, fun hisr => hnot ?_⟩
      rcases hclaim with ⟨i, hactive, hpin, rfl⟩ | ⟨j, -, -, rfl⟩
      · obtain rfl : i = id := by simpa using hisr
        exact mem_detachCounter.mpr ⟨hactive, by rw [hpin]⟩
      · cases hisr
  counters i hi := by
    by_cases hne : i = id
    · exact hne ▸ hid
    · simp only [setAt_of_ne hne] at hi
      exact h.counters i hi
  encoders := h.encoders

theorem Attached.configEncoder (h : Attached s hw.handler) {id : UInt8} (hid : id < kMaxEncoders)
    (pinA pinB mode lastState : UInt8) (seq : UInt16) :
    Attached
      { s with
        encoders := setAt s.encoders id
          { active := true, pinA := pinA, pinB := pinB, mode := mode, lastState := lastState } }
      (hw.run ([.pinMode pinA .input, .pinMode pinB .input] ++ detachEncoder s id ++
        [.attachInterrupt pinA (some (.encoder id)) .change,
          .attachInterrupt pinB (some (.encoder id)) .change, ackTo seq])).handler where
  claimed p v hv := by
    rw [handler_configEncoder] at hv
    refine (claims_setEncoder id _).mpr ?_
    by_cases hB : p = pinB
    · rw [hB, setAt_self] at hv
      exact Or.inl ⟨rfl, Or.inr hB.symm, (Option.some.inj hv).symm⟩
    by_cases hA : p = pinA
    · rw [setAt_of_ne hB, hA, setAt_self] at hv
      exact Or.inl ⟨rfl, Or.inl hA.symm, (Option.some.inj hv).symm⟩
    · rw [setAt_of_ne hB, setAt_of_ne hA] at hv
      obtain ⟨hbefore, hnot⟩ := handler_run_kept (no_attach_detachEncoder s id) hw hv
      have hclaim := h.claimed p v hbefore
      refine Or.inr ⟨hclaim, fun hisr => hnot ?_⟩
      rcases hclaim with ⟨i, -, -, rfl⟩ | ⟨j, hactive, hpins, rfl⟩
      · cases hisr
      · obtain rfl : j = id := by simpa using hisr
        refine mem_detachEncoder.mpr ⟨hactive, ?_⟩
        rcases hpins with hpin | hpin
        · exact Or.inl (by rw [hpin])
        · exact Or.inr (by rw [hpin])
  counters := h.counters
  encoders j hj := by
    by_cases hne : j = id
    · exact hne ▸ hid
    · simp only [setAt_of_ne hne] at hj
      exact h.encoders j hj

/-- The detached pins are all there are. -/
theorem Attached.released (h : Attached s hw.handler) (b : Board) (seq : UInt16) (pin : UInt8) :
    (hw.run (resetConfig b s seq).2).handler pin = none := by
  refine handler_run_free (no_attach_resetConfig b s seq) hw ?_
  cases hv : hw.handler pin with
  | none => exact Or.inr rfl
  | some v =>
    refine Or.inl ?_
    rcases h.claimed pin v hv with ⟨i, hactive, rfl, -⟩ | ⟨j, hactive, hpins, -⟩
    · have hi : i ∈ indices kMaxCounters.toNat :=
        (mem_indices (by decide) i).mpr (UInt8.lt_iff_toNat_lt.mp (h.counters i hactive))
      have hmem : .detachInterrupt (s.counters i).pin ∈ detachCounters s :=
        List.mem_flatMap.mpr ⟨i, hi, mem_detachCounter.mpr ⟨hactive, rfl⟩⟩
      simp [resetConfig, hmem]
    · have hj : j ∈ indices kMaxEncoders.toNat :=
        (mem_indices (by decide) j).mpr (UInt8.lt_iff_toNat_lt.mp (h.encoders j hactive))
      have hmem : .detachInterrupt pin ∈ detachEncoders s := by
        refine List.mem_flatMap.mpr ⟨j, hj, mem_detachEncoder.mpr ⟨hactive, ?_⟩⟩
        rcases hpins with hpin | hpin
        · exact Or.inl (by rw [hpin])
        · exact Or.inr (by rw [hpin])
      simp [resetConfig, hmem]

theorem Attached.executed {b : Board} {env : Env} {seq : UInt16} {r : Request} {out : Outcome}
    (h : Attached s hw.handler) (he : Executed b env s seq r out) :
    Attached out.1 (hw.run out.2).handler := by
  cases he with
  | configCounter hid hpin => exact h.configCounter hid _ _ seq
  | configEncoder lastState hid hA hB => exact h.configEncoder hid _ _ _ lastState seq
  | resetConfig =>
    refine ⟨fun pin v hv => ?_, by simp [resetConfig], by simp [resetConfig]⟩
    rw [h.released b seq pin] at hv
    cases hv
  | @counterReset id hactive =>
    refine h.kept _ (by simp [ackTo])
      (fun pin v => (claims_recount (by rfl) (by rfl) (by rfl)).mpr) ?_ fun j hj => hj
    intro i hi
    by_cases hne : i = id
    · exact hne ▸ hactive
    · simpa only [setAt_of_ne hne] using hi
  | @encoderReset id hactive =>
    refine h.kept _ (by simp [ackTo])
      (fun pin v => (claims_reposition (by rfl) (by rfl) (by rfl)).mpr) (fun i hi => hi) ?_
    intro j hj
    by_cases hne : j = id
    · exact hne ▸ hactive
    · simpa only [setAt_of_ne hne] using hj
  | emergencyStop =>
    exact h.kept _ (by simp [emergencyStop, mem_applySafeOutputs, ackTo]) (fun _ _ => id)
      (fun _ => id) fun _ => id
  | _ =>
    exact h.kept _ (by simp [ackTo, nack, data, heartbeat, clearEmergencyStop]) (fun _ _ => id)
      (fun _ => id) fun _ => id

end Steps

theorem Attached.step {b : Board} {d : Device} (h : Attached d.state d.hardware.handler)
    (e : Event) : Attached (d.step b e).state (d.step b e).hardware.handler := by
  cases e with
  | handle env p =>
    rcases handle_cases b env d.state p with ⟨code, -, hrun⟩ | ⟨r, -, hrun⟩
    · simp only [Device.step, react, hrun]
      exact h
    · simp only [Device.step, react, hrun]
      exact h.executed (execute_spec b env d.state p.seq r)
  | update env =>
    have hund := update_undisturbed b env d.state
    simp only [Device.step, react]
    apply h.kept
    · intro pin isr mode hm
      obtain ⟨writes, heffects, hwrites⟩ := update_effects b env d.state
      rw [heffects] at hm
      rcases List.mem_append.mp hm with hm | hm
      · obtain ⟨_, he⟩ := mem_safeOutputsOnExpiry hm
        cases he
      · obtain ⟨_, _, _, he⟩ := hwrites _ hm
        cases he
    · intro pin v hclaims
      rw [Claims, hund.counters, hund.encoders]
      exact hclaims
    · intro i hi
      rwa [hund.counters] at hi
    · intro j hj
      rwa [hund.encoders] at hj
  | counterTick env id =>
    simp only [Device.step, react, counterTick]
    split_ifs with hslot
    · exact h
    all_goals
      simp only [Bool.or_eq_true, Bool.not_eq_true', not_or, Bool.not_eq_false] at hslot
      refine h.kept [] (by simp)
        (fun pin v => (claims_recount (by rfl) (by rfl) (by rfl)).mpr) ?_ fun j hj => hj
      intro i hi
      by_cases hne : i = id
      · exact hne ▸ hslot.2
      · simpa only [setAt_of_ne hne] using hi
  | encoderTick env id =>
    simp only [Device.step, react, encoderTick]
    split_ifs with hslot
    · exact h
    · simp only [Bool.or_eq_true, Bool.not_eq_true', not_or, Bool.not_eq_false] at hslot
      refine h.kept [] (by simp)
        (fun pin v => (claims_reposition (by rfl) (by rfl) (by rfl)).mpr) (fun i hi => hi) ?_
      intro j hj
      by_cases hne : j = id
      · exact hne ▸ hslot.2
      · simpa only [setAt_of_ne hne] using hj

/-! ### After a reset -/

/-- The frames a device writes during a run. -/
def framesOf (b : Board) (d : Device) : List Event → List Written
  | [] => []
  | e :: es => framesWritten (react b d.state e).2 ++ framesOf b (d.step b e) es

/-- The frames depend on the handler's state alone. -/
theorem framesOf_congr {b : Board} {d d' : Device} (h : d.state = d'.state) (events : List Event) :
    framesOf b d events = framesOf b d' events := by
  induction events generalizing d d' with
  | nil => rfl
  | cons e events ih =>
    have hnext : (d.step b e).state = (d'.step b e).state := by rw [Device.step, h]; rfl
    rw [framesOf, framesOf, ih hnext, h]

/-- From every reachable state `ResetConfig` leads back to the configuration at power-up: only
the safety state survives, no pin has a handler or a duty, and whatever happens later the
device writes what one that has just booted with that safety state would write. -/
theorem reset_returns_to_boot (b : Board) (events : List Event) (e : Event)
    (he : Carries .resetConfig e) :
    let d := after (Device.step b) {} events
    let booted : Device := { state := { safety := d.state.safety } }
    (d.step b e).state = booted.state ∧
      (∀ pin, (d.step b e).hardware.handler pin = none) ∧
      (∀ pin, (d.step b e).hardware.duty pin = 0) ∧
      ∀ later, framesOf b (d.step b e) later = framesOf b booted later := by
  intro d booted
  cases e with
  | handle env p =>
    have hattached : Attached d.state d.hardware.handler :=
      after_preserves (I := fun d : Device => Attached d.state d.hardware.handler)
        (fun _ e h => h.step e) attached_initial events
    have hsafe : SafeInvariant b (d.step b (.handle env p)) :=
      (after_preserves (fun _ e h => h.step e) (safe_initial b) events).step _
    rw [Carries] at he
    have hstep : d.step b (.handle env p) =
        ⟨booted.state, d.hardware.run (resetConfig b d.state p.seq).2⟩ := by
      simp only [Device.step, react, handle_eq, he, answer, execute]
      rfl
    rw [hstep] at hsafe ⊢
    refine ⟨rfl, hattached.released b p.seq, fun pin => ?_, framesOf_congr rfl⟩
    by_contra hne
    have hconfigured := hsafe.duty_configured pin hne
    simp [booted] at hconfigured
  | _ => exact he.elim

/-- A counter, an encoder on the same pin and a PWM output, all gone after the reset. -/
theorem shared_pins_released :
    let d := after (Device.step sampleBoard) {}
      (commands [[0x40, 0, 6, 0], [0x50, 0, 5, 6, 4], [0x20, 3, 0, 1, 0, 0, 128]])
    let e : Event := .handle (envAt 0) (commandPacket 4 [0x04])
    d.hardware.handler 6 = some (.encoder 0, .change) ∧ d.hardware.duty 3 = 128 ∧
      (d.step sampleBoard e).hardware.handler 6 = none ∧
        (d.step sampleBoard e).hardware.duty 3 = 0 := by
  intro d e
  have he : Carries .resetConfig e := by
    rw [Carries]
    decide +kernel
  have hreset := reset_returns_to_boot sampleBoard
    (commands [[0x40, 0, 6, 0], [0x50, 0, 5, 6, 4], [0x20, 3, 0, 1, 0, 0, 128]]) e he
  exact ⟨by decide +kernel, by decide +kernel, hreset.2.1 6, hreset.2.2.1 3⟩

end FirmwareReset
