import TeensyIo.FirmwareDevice

/-! # The safe state

While the outputs are not allowed every pin has duty zero, and no call but the clearing of
the stop changes that. The invariant behind it ties a non-zero duty to the table of
configured pins, which is what `apply_safe_outputs` goes by. -/
namespace FirmwareSafeState

open FirmwareState FirmwareCommands FirmwareUpdate FirmwareRequests FirmwareOutcomes
open FirmwareDevice MachineRuns

/-- The effect energises nothing. -/
def Quiet : Effect → Prop
  | .analogWrite _ duty => duty = 0
  | .digitalWrite _ high => high = false
  | .transmit .writeDacRaw _ _ _ => False
  | _ => True

/-- The effect drives an output, to whatever value. -/
def Drives : Effect → Prop
  | .analogWrite _ _ => True
  | .digitalWrite _ _ => True
  | .transmit _ _ _ _ => True
  | _ => False

/-! ### Duties -/

theorem duty_run_of_none {es : List Effect} (h : ∀ pin duty, .analogWrite pin duty ∉ es)
    (hw : Hardware) : (hw.run es).duty = hw.duty := by
  induction es generalizing hw with
  | nil => rfl
  | cons e es ih =>
    have he : (hw.apply e).duty = hw.duty := by
      cases e with
      | analogWrite pin duty => exact absurd List.mem_cons_self (h pin duty)
      | _ => rfl
    rw [Hardware.run_cons, ih fun pin duty hm => h pin duty (List.mem_cons_of_mem e hm), he]

/-- The pins listed as configured are zero afterwards, the others are as before. -/
theorem duty_run_zeroes (configured : UInt8 → Bool) (pins : List UInt8) (hw : Hardware)
    (pin : UInt8) :
    (hw.run (pins.flatMap fun p => if configured p then [.analogWrite p 0] else [])).duty pin =
      if pin ∈ pins ∧ configured pin = true then 0 else hw.duty pin := by
  induction pins generalizing hw with
  | nil => simp
  | cons p pins ih =>
    rw [List.flatMap_cons, Hardware.run_append, ih]
    by_cases hp : pin = p
    · subst p
      by_cases hc : configured pin = true <;> simp [hc, Hardware.apply]
    · by_cases hc : configured p = true <;> simp [hc, hp, Hardware.apply, setAt_of_ne hp]

theorem duty_applySafeOutputs (b : Board) (s : State) (hw : Hardware) (pin : UInt8) :
    (hw.run (applySafeOutputs b s)).duty pin =
      if isValidDigitalPin b pin = true ∧ s.pwmConfigured pin = true then 0 else hw.duty pin := by
  have hle := b.pins_le
  rw [applySafeOutputs, duty_run_zeroes]
  simp only [mem_indices (show b.numDigitalPins ≤ 256 by omega), isValidDigitalPin,
    decide_eq_true_eq]

/-! ### The invariant -/

structure SafeInvariant (b : Board) (d : Device) : Prop where
  configured_valid : ∀ pin, d.state.pwmConfigured pin = true → isValidDigitalPin b pin = true
  duty_configured : ∀ pin, d.hardware.duty pin ≠ 0 → d.state.pwmConfigured pin = true
  expired_stopped : d.state.safety.watchdogExpired = true →
    d.state.safety.emergencyStopActive = true
  stopped_quiet : d.state.safety.outputsAllowed = false → ∀ pin, d.hardware.duty pin = 0

theorem safe_initial (b : Board) : SafeInvariant b {} where
  configured_valid := by simp
  duty_configured := by simp
  expired_stopped := by simp
  stopped_quiet := by simp

/-- Only these three parts of a device matter. -/
theorem SafeInvariant.congr {b : Board} {d d' : Device} (hi : SafeInvariant b d)
    (hs : d'.state.safety = d.state.safety)
    (hp : d'.state.pwmConfigured = d.state.pwmConfigured)
    (hd : d'.hardware.duty = d.hardware.duty) : SafeInvariant b d' where
  configured_valid := by rw [hp]; exact hi.configured_valid
  duty_configured := by rw [hp, hd]; exact hi.duty_configured
  expired_stopped := by rw [hs]; exact hi.expired_stopped
  stopped_quiet := by rw [hs, hd]; exact hi.stopped_quiet

/-- After the safe outputs have been applied nothing is driven. -/
theorem SafeInvariant.zeroed {b : Board} {d : Device} (hi : SafeInvariant b d) (pin : UInt8) :
    (d.hardware.run (applySafeOutputs b d.state)).duty pin = 0 := by
  rw [duty_applySafeOutputs]
  split_ifs with h
  · rfl
  · by_contra hne
    have hc := hi.duty_configured pin hne
    exact h ⟨hi.configured_valid pin hc, hc⟩

/-- Writing one duty, zero unless outputs are allowed and the pin ends up configured. -/
theorem SafeInvariant.written {b : Board} {d d' : Device} (hi : SafeInvariant b d)
    {pin duty : UInt8} {configured : Bool}
    (hs : d'.state.safety = d.state.safety)
    (hp : d'.state.pwmConfigured = setAt d.state.pwmConfigured pin configured)
    (hd : d'.hardware.duty = setAt d.hardware.duty pin duty)
    (hvalid : isValidDigitalPin b pin = true)
    (hduty : duty ≠ 0 → d.state.safety.outputsAllowed = true ∧ configured = true) :
    SafeInvariant b d' where
  configured_valid p hc := by
    by_cases hpin : p = pin
    · rw [hpin]
      exact hvalid
    · rw [hp, setAt_of_ne hpin] at hc
      exact hi.configured_valid p hc
  duty_configured p hne := by
    by_cases hpin : p = pin
    · subst p
      rw [hd, setAt_self] at hne
      rw [hp, setAt_self]
      exact (hduty hne).2
    · rw [hd, setAt_of_ne hpin] at hne
      rw [hp, setAt_of_ne hpin]
      exact hi.duty_configured p hne
  expired_stopped := by rw [hs]; exact hi.expired_stopped
  stopped_quiet hstop p := by
    rw [hs] at hstop
    rw [hd]
    by_cases hpin : p = pin
    · subst p
      rw [setAt_self]
      by_contra hne
      rw [(hduty hne).1] at hstop
      cases hstop
    · rw [setAt_of_ne hpin]
      exact hi.stopped_quiet hstop p

theorem SafeInvariant.executed {b : Board} {env : Env} {d : Device} {seq : UInt16} {r : Request}
    {out : Outcome} (hi : SafeInvariant b d) (h : Executed b env d.state seq r out) :
    SafeInvariant b ⟨out.1, d.hardware.run out.2⟩ := by
  cases h with
  | heartbeat =>
    exact
      { configured_valid := hi.configured_valid
        duty_configured := hi.duty_configured
        expired_stopped := fun h => absurd h (by simp [heartbeat, SafetyState.heartbeat])
        stopped_quiet := fun h => hi.stopped_quiet (by
          simp only [heartbeat, SafetyState.heartbeat, SafetyState.outputsAllowed] at h ⊢
          simp_all) }
  | emergencyStop =>
    have hzero : ∀ pin,
        (d.hardware.run (applySafeOutputs b d.state ++ [ackTo seq])).duty pin = 0 := by
      intro pin
      rw [Hardware.run_append]
      exact hi.zeroed pin
    exact
      { configured_valid := hi.configured_valid
        duty_configured := fun pin hpin => absurd (hzero pin) hpin
        expired_stopped := fun _ => rfl
        stopped_quiet := fun _ => hzero }
  | clearEmergencyStop =>
    exact
      { configured_valid := hi.configured_valid
        duty_configured := hi.duty_configured
        expired_stopped := fun h => absurd h (by
          simp [clearEmergencyStop, SafetyState.clearEmergencyStop, SafetyState.heartbeat])
        stopped_quiet := fun h => absurd h (by
          simp [clearEmergencyStop, SafetyState.clearEmergencyStop, SafetyState.heartbeat,
            SafetyState.outputsAllowed]) }
  | resetConfig =>
    have hzero : ∀ pin, (d.hardware.run (resetConfig b d.state seq).2).duty pin = 0 := by
      intro pin
      simp only [resetConfig, List.append_assoc]
      rw [Hardware.run_append, duty_run_of_none, hi.zeroed pin]
      intro p duty hmem
      simp [detachCounters, detachEncoders, detachCounter, detachEncoder, ackTo] at hmem
    exact
      { configured_valid := fun pin hpin => absurd hpin (by simp [resetConfig])
        duty_configured := fun pin hpin => absurd (hzero pin) hpin
        expired_stopped := hi.expired_stopped
        stopped_quiet := fun _ => hzero }
  | configPwm hduty hpin =>
    simp only [isValidPwmPin, Bool.and_eq_true] at hpin
    refine hi.written rfl rfl rfl hpin.1 fun hne => ⟨hduty ?_, rfl⟩
    exact UInt8.pos_iff_ne_zero.mpr hne
  | pwmWrite hallowed hpin hconf =>
    simp only [isValidPwmPin, Bool.and_eq_true] at hpin
    exact hi.written rfl (Function.update_eq_self_iff.mpr hconf.symm).symm rfl hpin.1
      fun _ => ⟨hallowed, rfl⟩
  | pwmDisable hpin =>
    simp only [isValidPwmPin, Bool.and_eq_true] at hpin
    exact hi.written rfl rfl rfl hpin.1 fun hne => absurd rfl hne
  | _ =>
    exact hi.congr rfl rfl
      (duty_run_of_none (by simp [ackTo, nack, data, detachCounter, detachEncoder]) _)

theorem SafeInvariant.watched {b : Board} {d : Device} (hi : SafeInvariant b d) (env : Env) :
    SafeInvariant b
      ⟨checkWatchdog env d.state, d.hardware.run (safeOutputsOnExpiry b env d.state)⟩ := by
  by_cases hover : d.state.safety.overdue (env.millis 0) = true
  · have hsafety : (checkWatchdog env d.state).safety =
        { d.state.safety with watchdogExpired := true, emergencyStopActive := true } := by
      simp only [checkWatchdog, SafetyState.update, if_pos hover]
    have hzero : ∀ pin,
        (d.hardware.run (safeOutputsOnExpiry b env d.state)).duty pin = 0 := by
      intro pin
      dsimp only [safeOutputsOnExpiry]
      rw [hsafety]
      cases hbefore : d.state.safety.outputsAllowed with
      | true => exact hi.zeroed pin
      | false => exact hi.stopped_quiet hbefore pin
    exact
      { configured_valid := hi.configured_valid
        duty_configured := fun pin hpin => absurd (hzero pin) hpin
        expired_stopped := fun _ => by rw [hsafety]
        stopped_quiet := fun _ => hzero }
  · have hsafety : (checkWatchdog env d.state).safety = d.state.safety := by
      simp only [checkWatchdog, SafetyState.update, if_neg hover]
    have hnone : safeOutputsOnExpiry b env d.state = [] := by
      simp [safeOutputsOnExpiry, hsafety]
    exact hi.congr hsafety rfl (by rw [hnone]; rfl)

/-- An update that finds the watchdog overdue zeroes what was driven. -/
theorem SafeInvariant.updated {b : Board} {d : Device} (hi : SafeInvariant b d) (env : Env) :
    SafeInvariant b ⟨(update b env d.state).1, d.hardware.run (update b env d.state).2⟩ := by
  obtain ⟨writes, heffects, hwrites⟩ := update_effects b env d.state
  have hund := update_undisturbed b env d.state
  have hquiet : ∀ hw : Hardware, (hw.run writes).duty = hw.duty := by
    refine duty_run_of_none fun pin duty hmem => ?_
    obtain ⟨_, _, _, he⟩ := hwrites _ hmem
    cases he
  refine (hi.watched env).congr hund.safety hund.pwmConfigured ?_
  rw [heffects, Hardware.run_append]
  exact hquiet _

theorem SafeInvariant.step {b : Board} {d : Device} (hi : SafeInvariant b d) (e : Event) :
    SafeInvariant b (d.step b e) := by
  cases e with
  | handle env p =>
    rcases handle_cases b env d.state p with ⟨code, -, h⟩ | ⟨r, -, h⟩
    · simp only [Device.step, react, h]
      exact hi.congr rfl rfl rfl
    · simp only [Device.step, react, h]
      exact hi.executed (execute_spec b env d.state p.seq r)
  | update env => exact hi.updated env
  | counterTick env id =>
    refine hi.congr ?_ ?_ rfl <;>
      (simp only [Device.step, react, counterTick]; split_ifs <;> rfl)
  | encoderTick env id =>
    refine hi.congr ?_ ?_ rfl <;>
      (simp only [Device.step, react, encoderTick]; split_ifs <;> rfl)

/-! ### Steps from a stopped state -/

theorem quiet_applySafeOutputs (b : Board) (s : State) : ∀ e ∈ applySafeOutputs b s, Quiet e := by
  intro e he
  obtain ⟨pin, -, -, rfl⟩ := mem_applySafeOutputs.mp he
  rfl

theorem quiet_detachCounter (s : State) (id : UInt8) : ∀ e ∈ detachCounter s id, Quiet e := by
  intro e he
  obtain ⟨-, rfl⟩ := mem_detachCounter.mp he
  trivial

theorem quiet_detachEncoder (s : State) (id : UInt8) : ∀ e ∈ detachEncoder s id, Quiet e := by
  intro e he
  obtain ⟨-, rfl | rfl⟩ := mem_detachEncoder.mp he <;> trivial

theorem executed_quiet {b : Board} {env : Env} {s : State} {seq : UInt16} {r : Request}
    {out : Outcome} (h : Executed b env s seq r out) (hstop : s.safety.outputsAllowed = false) :
    ∀ e ∈ out.2, Quiet e := by
  have hno : s.safety.outputsAllowed ≠ true := by simp [hstop]
  cases h with
  | emergencyStop =>
    exact List.forall_mem_append.mpr ⟨quiet_applySafeOutputs b s, by simp [Quiet, ackTo]⟩
  | resetConfig =>
    refine List.forall_mem_append.mpr ⟨List.forall_mem_append.mpr
      ⟨List.forall_mem_append.mpr ⟨quiet_applySafeOutputs b s, ?_⟩, ?_⟩, by simp [Quiet, ackTo]⟩
    · exact List.forall_mem_flatMap.mpr fun id _ => quiet_detachCounter s id
    · exact List.forall_mem_flatMap.mpr fun id _ => quiet_detachEncoder s id
  | configDigitalOutput hinitial =>
    have hlow : _ ≠ true := mt hinitial hno
    simpa [Quiet, ackTo] using hlow
  | digitalWrite hallowed => exact absurd hallowed hno
  | @configPwm pin frequency duty hduty =>
    have hzero : duty = 0 := by
      by_contra hne
      exact hno (hduty (UInt8.pos_iff_ne_zero.mpr hne))
    simp [Quiet, ackTo, hzero]
  | pwmWrite hallowed => exact absurd hallowed hno
  | configCounter =>
    exact List.forall_mem_append.mpr ⟨quiet_detachCounter s _, by simp [Quiet, ackTo]⟩
  | configEncoder =>
    exact List.forall_mem_append.mpr ⟨List.forall_mem_append.mpr
      ⟨by simp [Quiet], quiet_detachEncoder s _⟩, by simp [Quiet, ackTo]⟩
  | dacFailed _ _ hallowed => exact absurd hallowed hno
  | dacWritten _ _ _ hallowed => exact absurd hallowed hno
  | _ => simp [Quiet, ackTo, nack, data, heartbeat, clearEmergencyStop]

/-- What a request leaves of the stop, unless it clears it. -/
theorem stopped_after {env : Env} {safety : SafetyState}
    (hexp : safety.watchdogExpired = true → safety.emergencyStopActive = true)
    (hstop : safety.outputsAllowed = false) {r : Request} (hr : r ≠ .clearEmergencyStop) :
    (safetyAfter env safety r).outputsAllowed = false := by
  have hactive : safety.emergencyStopActive = true := by
    cases hactive : safety.emergencyStopActive with
    | true => rfl
    | false =>
      simp only [SafetyState.outputsAllowed, hactive, Bool.not_false, Bool.true_and,
        Bool.not_eq_false'] at hstop
      exact (hexp hstop).symm.trans hactive |>.symm
  cases r with
  | heartbeat => simp [safetyAfter, SafetyState.heartbeat, SafetyState.outputsAllowed, hactive]
  | emergencyStop => simp [safetyAfter, SafetyState.emergencyStop, SafetyState.outputsAllowed]
  | clearEmergencyStop => exact absurd rfl hr
  | _ => exact hstop

/-- A stopped device stays stopped and energises nothing, until the stop is cleared. -/
theorem stopped_step {b : Board} {d : Device} (hi : SafeInvariant b d)
    (hstop : d.state.safety.outputsAllowed = false) (e : Event)
    (he : ¬ Carries .clearEmergencyStop e) :
    (d.step b e).state.safety.outputsAllowed = false ∧
      ∀ f ∈ (react b d.state e).2, Quiet f := by
  cases e with
  | handle env p =>
    rcases handle_cases b env d.state p with ⟨code, -, h⟩ | ⟨r, hr, h⟩
    · simp only [Device.step, react, h]
      exact ⟨hstop, by simp [refuse, nack, Quiet]⟩
    · simp only [Device.step, react, h, execute_safety]
      refine ⟨stopped_after hi.expired_stopped hstop ?_, ?_⟩
      · rintro rfl
        exact he hr
      · exact executed_quiet (execute_spec b env d.state p.seq r) hstop
  | update env =>
    simp only [Device.step, react, update_safety]
    refine ⟨?_, ?_⟩
    · unfold SafetyState.update
      split_ifs
      · rfl
      · exact hstop
    · obtain ⟨writes, heffects, hwrites⟩ := update_effects b env d.state
      rw [heffects]
      refine List.forall_mem_append.mpr ⟨fun f hf => ?_, fun f hf => ?_⟩
      · obtain ⟨pin, rfl⟩ := mem_safeOutputsOnExpiry hf
        rfl
      · obtain ⟨_, _, _, rfl⟩ := hwrites f hf
        trivial
  | counterTick env id =>
    refine ⟨?_, by simp [react]⟩
    simp only [Device.step, react, counterTick]
    split_ifs <;> exact hstop
  | encoderTick env id =>
    refine ⟨?_, by simp [react]⟩
    simp only [Device.step, react, encoderTick]
    split_ifs <;> exact hstop

theorem clear_drives_nothing (b : Board) (s : State) (e : Event)
    (he : Carries .clearEmergencyStop e) : ∀ f ∈ (react b s e).2, ¬ Drives f := by
  cases e with
  | handle env p =>
    rw [Carries] at he
    simp [react, handle_eq, he, answer, execute, clearEmergencyStop, ackTo, Drives]
  | update env => exact absurd he id
  | counterTick env id => simp [react]
  | encoderTick env id => simp [react]

/-- In every state a run from power-up reaches: a stopped device drives no PWM pin; until the
stop is cleared it stays stopped and energises nothing; clearing drives no output. -/
theorem safe_state (b : Board) (events : List Event) :
    let d := after (Device.step b) {} events
    (d.state.safety.outputsAllowed = false → ∀ pin, d.hardware.duty pin = 0) ∧
    (d.state.safety.outputsAllowed = false → ∀ e, ¬ Carries .clearEmergencyStop e →
      (d.step b e).state.safety.outputsAllowed = false ∧
        ∀ f ∈ (react b d.state e).2, Quiet f) ∧
    (∀ e, Carries .clearEmergencyStop e → ∀ f ∈ (react b d.state e).2, ¬ Drives f) := by
  intro d
  have hi : SafeInvariant b d :=
    after_preserves (fun _ e hi => hi.step e) (safe_initial b) events
  exact ⟨hi.stopped_quiet, fun hstop e he => stopped_step hi hstop e he,
    fun e he => clear_drives_nothing b d.state e he⟩

end FirmwareSafeState
