import TeensyIo.HostOperations

/-! # What an operation leaves alone

Most operations of the host assign some fields and then issue one command; the command itself
touches nothing but the log. -/
namespace HostFrames

open WireCommands HostProtocol HostResources HostOperations

/-- The same client, apart from the commands it has issued. -/
def SameFields (h h' : Host) : Prop := ∃ log, h' = { h with log := log }

theorem SameFields.refl (h : Host) : SameFields h h := ⟨h.log, rfl⟩

section Results

variable {respond : List Command → Except PyError (List UInt8)} {h : Host} {α β : Type}

theorem command_same (id : CommandId) (payload : Except PyError (List UInt8)) :
    SameFields h (command respond h id payload).2 := by
  cases payload with
  | error error => exact .refl h
  | ok payload =>
    rw [command]
    split_ifs
    · exact .refl h
    · exact ⟨_, rfl⟩

/-- What holds of a call that ends with an exception and of the rest of one that does not. -/
theorem next_rule {P : Result β → Prop} {result : Result α} {rest : α → Host → Result β}
    (hsame : SameFields h result.2)
    (raised : ∀ error log, P (.error error, { h with log := log }))
    (returned : ∀ v log, result.1 = .ok v → P (rest v { h with log := log })) :
    P (result.next rest) := by
  obtain ⟨value, h'⟩ := result
  obtain ⟨log, rfl⟩ := hsame
  cases value with
  | error error => exact raised error log
  | ok v => exact returned v log rfl

theorem next_same {result : Result α} {rest : α → Host → Result β}
    (hsame : SameFields h result.2) (hrest : ∀ v h', (rest v h').2 = h') :
    SameFields h (result.next rest).2 := by
  apply next_rule (P := fun r => SameFields h r.2) hsame
  · intro error log
    exact ⟨log, rfl⟩
  · intro v log _
    exact ⟨log, hrest v _⟩

/-- A command whose response is not looked at. -/
theorem sent_same (id : CommandId) (payload : Except PyError (List UInt8)) :
    SameFields h ((command respond h id payload).next fun _ h => ((.ok (), h) : Result Unit)).2 :=
  next_same (command_same id payload) fun _ _ => rfl

end Results

/-! ### Assignments -/

/-- The host after what an operation assigns before its command. -/
def assigned (h : Host) : Operation → Host
  | .configureOutput name pin _ | .configureInput name pin _ =>
    { h with pins := Function.update h.pins name ⟨some pin⟩ }
  | .onEdge name _ callback =>
    match (h.pins name).physicalPin with
    | none => h
    | some pin => { h with edgeCallbacks := h.edgeCallbacks ++ [((.digital, pin), callback)] }
  | .pwmConfigure name pin _ _ => { h with pwms := Function.update h.pwms name ⟨some pin⟩ }
  | .analogConfigure name pin samples =>
    { h with analogs := Function.update h.analogs name ⟨some pin, samples⟩ }
  | .counterAttach name pin _ =>
    match resolvePin h pin with
    | .error _ => h
    | .ok _ =>
      let counter := { h.counters name with id := some (idFor h.counterIds name).1 }
      { h with
        counterIds := (idFor h.counterIds name).2
        counters := Function.update h.counters name counter }
  | .encoderAttach name _ _ mode =>
    match modeCode mode with
    | none => h
    | some _ =>
      let encoder := { h.encoders name with id := some (idFor h.encoderIds name).1 }
      { h with
        encoderIds := (idFor h.encoderIds name).2
        encoders := Function.update h.encoders name encoder }
  | .i2cConfigure name bus frequency =>
    if bus < 0 ∨ 255 < bus ∨ frequency ≤ 0 then h
    else { h with i2cBuses := Function.update h.i2cBuses name ⟨some bus, frequency⟩ }
  | .dacAttach name bus address channels resolutionBits =>
    if (h.i2cBuses bus).bus = none ∨ channels < 1 ∨ 255 < channels ∨ resolutionBits < 1 ∨
      16 < resolutionBits then h
    else
      let dac := { h.dacs name with id := some (idFor h.dacIds name).1, busName := some bus }
      let dac := match u7Address address with
        | .error _ => dac
        | .ok address => { dac with address := some address, channels, resolutionBits }
      { h with dacIds := (idFor h.dacIds name).2, dacs := Function.update h.dacs name dac }
  | _ => h

/-- The operations that assign what the device has answered. -/
def keepsAnswer : Operation → Bool
  | .counterDelta _ | .counterFrequency _ _ _ | .counterReset _ | .encoderDelta _
  | .encoderReset _ => true
  | _ => false

variable (respond : List Command → Except PyError (List UInt8)) (h : Host)

theorem configureOutput_same (name : String) (pin initial : ℤ) :
    SameFields (assigned h (.configureOutput name pin initial))
      (configureOutput respond h name pin initial).2 := sent_same _ _

theorem configureInput_same (name : String) (pin : ℤ) (pull : String) :
    SameFields (assigned h (.configureInput name pin pull))
      (configureInput respond h name pin pull).2 := by
  rw [configureInput]
  split
  · exact .refl _
  · exact sent_same _ _

theorem onEdge_same (name edge : String) (callback : ℕ) :
    SameFields (assigned h (.onEdge name edge callback))
      (onEdge respond h name edge callback).2 := by
  rw [onEdge, assigned]
  cases (h.pins name).physicalPin with
  | none => exact .refl h
  | some pin =>
    dsimp only
    split
    · exact .refl _
    · exact sent_same _ _

theorem analogConfigure_same (name : String) (pin samples : ℤ) :
    SameFields (assigned h (.analogConfigure name pin samples))
      (analogConfigure respond h name pin samples).2 := by
  rw [analogConfigure]
  split
  · exact .refl _
  · exact sent_same _ _

theorem counterAttach_same (name : String) (pin : PinRef) (edge : String) :
    SameFields (assigned h (.counterAttach name pin edge))
      (counterAttach respond h name pin edge).2 := by
  rw [counterAttach, assigned]
  cases resolvePin h pin with
  | error error => exact .refl h
  | ok pin =>
    dsimp only
    split
    · exact .refl _
    · exact sent_same _ _

theorem encoderAttach_same (name : String) (pinA pinB : ℤ) (mode : String) :
    SameFields (assigned h (.encoderAttach name pinA pinB mode))
      (encoderAttach respond h name pinA pinB mode).2 := by
  rw [encoderAttach, assigned]
  cases modeCode mode with
  | none => exact .refl h
  | some code => exact sent_same _ _

theorem i2cConfigure_same (name : String) (bus frequency : ℤ) :
    SameFields (assigned h (.i2cConfigure name bus frequency))
      (i2cConfigure respond h name bus frequency).2 := by
  rw [i2cConfigure, assigned]
  by_cases hbus : bus < 0 ∨ 255 < bus
  · rw [if_pos hbus, if_pos (by tauto)]
    exact .refl h
  · rw [if_neg hbus]
    by_cases hfrequency : frequency ≤ 0
    · rw [if_pos hfrequency, if_pos (by tauto)]
      exact .refl h
    · rw [if_neg hfrequency, if_neg (by tauto)]
      exact sent_same _ _

theorem dacAttach_same (name bus : String) (address channels resolutionBits : ℤ) :
    SameFields (assigned h (.dacAttach name bus address channels resolutionBits))
      (dacAttach respond h name bus address channels resolutionBits).2 := by
  rw [dacAttach, assigned]
  cases hbus : (h.i2cBuses bus).bus with
  | none => exact .refl h
  | some busNumber =>
    by_cases hchannels : channels < 1 ∨ 255 < channels
    · dsimp only
      rw [if_pos hchannels, if_pos (by tauto)]
      exact .refl h
    · by_cases hbits : resolutionBits < 1 ∨ 16 < resolutionBits
      · dsimp only
        rw [if_neg hchannels, if_pos hbits, if_pos (by tauto)]
        exact .refl h
      · dsimp only
        rw [if_neg hchannels, if_neg hbits, if_neg (by simp only [reduceCtorEq]; tauto)]
        cases u7Address address with
        | error error => exact .refl _
        | ok address =>
          dsimp only
          rw [Function.update_idem]
          exact sent_same _ _

theorem pinRead_same (name : String) : SameFields h (pinRead respond h name).2 := by
  rw [pinRead]
  split
  · exact .refl h
  · apply next_same (command_same _ _)
    intro payload h'
    cases payload <;> rfl

theorem pinWrite_same (name : String) (value : ℤ) :
    SameFields h (pinWrite respond h name value).2 := by
  rw [pinWrite]
  split
  · exact .refl h
  · exact sent_same _ _

theorem pwmWrite_same (name : String) (duty : ℚ) :
    SameFields h (pwmWrite respond h name duty).2 := by
  rw [pwmWrite]
  split
  · exact .refl h
  · exact sent_same _ _

theorem pwmDisable_same (name : String) : SameFields h (pwmDisable respond h name).2 := by
  rw [pwmDisable]
  split
  · exact .refl h
  · exact sent_same _ _

theorem analogRead_same (name : String) : SameFields h (analogRead respond h name).2 := by
  rw [analogRead]
  split
  · exact .refl h
  · exact next_same (command_same _ _) fun _ _ => rfl

theorem counterRead_same (name : String) : SameFields h (counterRead respond h name).2 := by
  rw [counterRead]
  split
  · exact .refl h
  · exact next_same (command_same _ _) fun _ _ => rfl

theorem encoderRead_same (name : String) : SameFields h (encoderRead respond h name).2 := by
  rw [encoderRead]
  split
  · exact .refl h
  · exact next_same (command_same _ _) fun _ _ => rfl

theorem i2cWrite_same (name : String) (address : ℤ) (data : List UInt8) :
    SameFields h (i2cWrite respond h name address data).2 := by
  rw [i2cWrite]
  split
  · exact .refl h
  · exact sent_same _ _

theorem i2cRead_same (name : String) (address length : ℤ) :
    SameFields h (i2cRead respond h name address length).2 := by
  rw [i2cRead]
  split
  · exact .refl h
  · split_ifs
    · exact .refl h
    · exact command_same _ _

theorem dacWriteRaw_same (name : String) (value channel : ℤ) :
    SameFields h (dacWriteRaw respond h name value channel).2 := by
  rw [dacWriteRaw]
  split
  · exact .refl h
  · split_ifs
    · exact .refl h
    · exact .refl h
    · exact sent_same _ _

theorem dacWriteNormalized_same (name : String) (value : ℚ) (channel : ℤ) :
    SameFields h (dacWriteNormalized respond h name value channel).2 := by
  rw [dacWriteNormalized]
  split
  · exact .refl h
  · split_ifs
    · exact .refl h
    · exact .refl h
    · exact sent_same _ _

theorem subscribe_same (name : String) (rateHz : Option ℚ) (onChange : Bool) :
    SameFields h (subscribe respond h name rateHz onChange).2 := by
  rw [subscribe]
  split
  · exact .refl h
  · exact sent_same _ _

theorem unsubscribe_same (name : String) : SameFields h (unsubscribe respond h name).2 := by
  rw [unsubscribe]
  split
  · exact .refl h
  · exact sent_same _ _

theorem ping_same : SameFields h (ping respond h).2 :=
  next_same (command_same .ping (.ok [])) fun _ _ => rfl

theorem getInfo_same : SameFields h (getInfo respond h).2 := by
  apply next_same (command_same _ _)
  intro payload h'
  split <;> rfl

/-- All that an operation changes in the client it has assigned before its command, unless it
keeps the answer. -/
theorem runOperation_same {op : Operation} (hop : keepsAnswer op = false) :
    SameFields (assigned h op) (runOperation respond h op).2 := by
  cases op with
  | configureOutput name pin initial => exact configureOutput_same respond h name pin initial
  | configureInput name pin pull => exact configureInput_same respond h name pin pull
  | pinRead name => exact pinRead_same respond h name
  | pinWrite name value => exact pinWrite_same respond h name value
  | onEdge name edge callback => exact onEdge_same respond h name edge callback
  | pwmConfigure name pin frequency duty => exact sent_same _ _
  | pwmWrite name duty => exact pwmWrite_same respond h name duty
  | pwmDisable name => exact pwmDisable_same respond h name
  | analogConfigure name pin samples => exact analogConfigure_same respond h name pin samples
  | analogRead name => exact analogRead_same respond h name
  | counterAttach name pin edge => exact counterAttach_same respond h name pin edge
  | counterRead name => exact counterRead_same respond h name
  | counterDelta | counterFrequency | counterReset | encoderDelta | encoderReset => cases hop
  | encoderAttach name pinA pinB mode => exact encoderAttach_same respond h name pinA pinB mode
  | encoderRead name => exact encoderRead_same respond h name
  | i2cConfigure name bus frequency => exact i2cConfigure_same respond h name bus frequency
  | i2cWrite name address data => exact i2cWrite_same respond h name address data
  | i2cRead name address length => exact i2cRead_same respond h name address length
  | dacAttach name bus address channels bits =>
    exact dacAttach_same respond h name bus address channels bits
  | dacWriteRaw name value channel => exact dacWriteRaw_same respond h name value channel
  | dacWriteNormalized name value channel =>
    exact dacWriteNormalized_same respond h name value channel
  | subscribe name rateHz onChange => exact subscribe_same respond h name rateHz onChange
  | unsubscribe name => exact unsubscribe_same respond h name
  | ping => exact ping_same respond h
  | getInfo => exact getInfo_same respond h
  | resetConfig | heartbeat | emergencyStop | clearEmergencyStop => exact sent_same _ _

/-! ### Operations that keep the answer -/

/-- An assignment to one resource that leaves a part of it alone. -/
theorem update_get {β γ : Type} (get : β → γ) {fields : String → β} {asked : String} {v : β}
    (hv : get v = get (fields asked)) (name : String) :
    get (Function.update fields asked v name) = get (fields name) := by
  by_cases hname : name = asked
  · rw [hname, Function.update_self, hv]
  · rw [Function.update_of_ne hname]

theorem counterDelta_rule {P : Result ℤ → Prop} (name : String)
    (raised : ∀ error log, P (.error error, { h with log := log }))
    (returned : ∀ count log, (counterRead respond h name).1 = .ok count →
      P (.ok (count - (h.counters name).lastCount),
        { h with
          log := log
          counters := Function.update h.counters name
            { h.counters name with lastCount := count } })) :
    P (counterDelta respond h name) :=
  next_rule (counterRead_same respond h name) raised returned

theorem encoderDelta_rule {P : Result ℤ → Prop} (name : String)
    (raised : ∀ error log, P (.error error, { h with log := log }))
    (returned : ∀ position log, (encoderRead respond h name).1 = .ok position →
      P (.ok (position - (h.encoders name).lastPosition),
        { h with
          log := log
          encoders := Function.update h.encoders name
            { h.encoders name with lastPosition := position } })) :
    P (encoderDelta respond h name) :=
  next_rule (encoderRead_same respond h name) raised returned

theorem counterFrequency_rule {P : Result ℚ → Prop} (name : String) (windowMs : ℤ) (now : ℚ)
    (raised : ∀ error log, P (.error error, { h with log := log }))
    (device : windowMs ≤ 0 → ∀ value log, P (value, { h with log := log }))
    (returned : 0 < windowMs → ∀ count log, (counterRead respond h name).1 = .ok count →
      let samples := trimSamples (now - windowMs / 1000)
        ((h.counters name).samples ++ [(now, count)])
      P (.ok (rate now count samples),
        { h with
          log := log
          counters := Function.update h.counters name { h.counters name with samples } })) :
    P (counterFrequency respond h name windowMs now) := by
  rw [counterFrequency]
  split
  · exact raised .runtimeError h.log
  · by_cases hwindow : windowMs ≤ 0
    · rw [if_pos hwindow]
      apply next_rule (command_same _ _) raised
      intro _ log _
      exact device hwindow _ log
    · rw [if_neg hwindow]
      exact next_rule (counterRead_same respond h name) raised (returned (not_le.mp hwindow))

theorem counterReset_rule {P : Result Unit → Prop} (name : String)
    (raised : ∀ error log, P (.error error, { h with log := log }))
    (returned : ∀ log, P (.ok (),
      { h with
        log := log
        counters := Function.update h.counters name
          { h.counters name with lastCount := 0, samples := [] } })) :
    P (counterReset respond h name) := by
  rw [counterReset]
  split
  · exact raised .runtimeError h.log
  · apply next_rule (command_same _ _) raised
    intro _ log _
    exact returned log

theorem encoderReset_rule {P : Result Unit → Prop} (name : String)
    (raised : ∀ error log, P (.error error, { h with log := log }))
    (returned : ∀ log, P (.ok (),
      { h with
        log := log
        encoders := Function.update h.encoders name
          { h.encoders name with lastPosition := 0 } })) :
    P (encoderReset respond h name) := by
  rw [encoderReset]
  split
  · exact raised .runtimeError h.log
  · apply next_rule (command_same _ _) raised
    intro _ log _
    exact returned log

/-- The call changes nothing, or it returns and has written to one counter or encoder. -/
def Answered (h : Host) (result : Result Unit) : Prop :=
  SameFields h result.2 ∨ result.1 = .ok () ∧
    ((∃ asked counter log,
      result.2 = { h with
        log := log
        counters := Function.update h.counters asked counter } ∧
      counter.id = (h.counters asked).id) ∨
    ∃ asked encoder log,
      result.2 = { h with
        log := log
        encoders := Function.update h.encoders asked encoder } ∧
      encoder.id = (h.encoders asked).id)

theorem runOperation_answered {op : Operation} (hop : keepsAnswer op = true) :
    Answered h (runOperation respond h op) := by
  cases op with
  | counterDelta asked =>
    apply counterDelta_rule respond h (P := fun r => Answered h (outcome r)) asked
    · intro _ log
      exact Or.inl ⟨log, rfl⟩
    · intro _ log _
      exact Or.inr ⟨rfl, Or.inl ⟨asked, _, log, rfl, rfl⟩⟩
  | counterFrequency asked windowMs now =>
    apply counterFrequency_rule respond h (P := fun r => Answered h (outcome r)) asked windowMs now
    · intro _ log
      exact Or.inl ⟨log, rfl⟩
    · intro _ _ log
      exact Or.inl ⟨log, rfl⟩
    · intro _ _ log _
      exact Or.inr ⟨rfl, Or.inl ⟨asked, _, log, rfl, rfl⟩⟩
  | counterReset asked =>
    apply counterReset_rule respond h (P := fun r => Answered h (outcome r)) asked
    · intro _ log
      exact Or.inl ⟨log, rfl⟩
    · intro log
      exact Or.inr ⟨rfl, Or.inl ⟨asked, _, log, rfl, rfl⟩⟩
  | encoderDelta asked =>
    apply encoderDelta_rule respond h (P := fun r => Answered h (outcome r)) asked
    · intro _ log
      exact Or.inl ⟨log, rfl⟩
    · intro _ log _
      exact Or.inr ⟨rfl, Or.inr ⟨asked, _, log, rfl, rfl⟩⟩
  | encoderReset asked =>
    apply encoderReset_rule respond h (P := fun r => Answered h (outcome r)) asked
    · intro _ log
      exact Or.inl ⟨log, rfl⟩
    · intro log
      exact Or.inr ⟨rfl, Or.inr ⟨asked, _, log, rfl, rfl⟩⟩
  | _ => cases hop

/-- What a reference to a resource is made of. -/
structure SameRefs (h h' : Host) : Prop where
  pins : h'.pins = h.pins
  analogs : h'.analogs = h.analogs
  counters : ∀ name, (h'.counters name).id = (h.counters name).id
  encoders : ∀ name, (h'.encoders name).id = (h.encoders name).id
  dacs : h'.dacs = h.dacs

theorem SameFields.sameRefs {h h' : Host} (hsame : SameFields h h') : SameRefs h h' := by
  obtain ⟨log, rfl⟩ := hsame
  exact ⟨rfl, rfl, fun _ => rfl, fun _ => rfl, rfl⟩

/-- Readings and resets give no resource another reference. -/
theorem Answered.sameRefs {h : Host} {result : Result Unit} (hanswered : Answered h result) :
    SameRefs h result.2 := by
  rcases hanswered with hsame | ⟨-, ⟨asked, counter, log, hafter, hid⟩ |
    ⟨asked, encoder, log, hafter, hid⟩⟩
  · exact hsame.sameRefs
  · rw [hafter]
    exact ⟨rfl, rfl, update_get PulseCounter.id hid, fun _ => rfl, rfl⟩
  · rw [hafter]
    exact ⟨rfl, rfl, fun _ => rfl, update_get QuadratureEncoder.id hid, rfl⟩

end HostFrames
