import TeensyIo.HostFrames

/-! # Calls that raise

A configuring call assigns what it was given before the device has agreed to it. What a call
that raises leaves behind is what it had assigned by then. -/
namespace FailedCalls

open WireCommands HostProtocol HostResources HostOperations HostFrames

/-- The name has an id, and the resource has the same. -/
def Known (names : List String) (id : Option ℕ) (name : String) : Prop :=
  name ∈ names ∧ id = some (names.idxOf name)

/-- The call raises before it assigns anything, or assigns the values that are there. -/
def Settled (h : Host) : Operation → Prop
  | .configureOutput name pin _ | .configureInput name pin _ =>
    (h.pins name).physicalPin = some pin
  | .onEdge name _ _ => (h.pins name).physicalPin = none
  | .pwmConfigure name pin _ _ => (h.pwms name).physicalPin = some pin
  | .analogConfigure name pin samples =>
    (h.analogs name).physicalPin = some pin ∧ (h.analogs name).samples = samples
  | .counterAttach name pin _ =>
    (∃ error, resolvePin h pin = .error error) ∨
      Known h.counterIds (h.counters name).id name
  | .encoderAttach name _ _ mode =>
    modeCode mode = none ∨ Known h.encoderIds (h.encoders name).id name
  | .i2cConfigure name bus frequency =>
    (bus < 0 ∨ 255 < bus ∨ frequency ≤ 0) ∨
      (h.i2cBuses name).bus = some bus ∧ (h.i2cBuses name).frequency = frequency
  | .dacAttach name bus address channels resolutionBits =>
    ((h.i2cBuses bus).bus = none ∨ channels < 1 ∨ 255 < channels ∨ resolutionBits < 1 ∨
      16 < resolutionBits) ∨
    Known h.dacIds (h.dacs name).id name ∧ (h.dacs name).busName = some bus ∧
      ((address < 0 ∨ 0x7F < address) ∨
        (h.dacs name).address = some address ∧ (h.dacs name).channels = channels ∧
          (h.dacs name).resolutionBits = resolutionBits)
  | _ => True

instance (names : List String) (id : Option ℕ) (name : String) : Decidable (Known names id name) :=
  inferInstanceAs (Decidable (_ ∧ _))

theorem idFor_known {names : List String} {id : Option ℕ} {name : String} :
    Known names id name ↔
      (idFor names name).2 = names ∧ some (idFor names name).1 = id := by
  rw [Known, idFor]
  by_cases hmem : name ∈ names
  · rw [if_pos hmem]
    constructor
    · rintro ⟨-, rfl⟩
      exact ⟨rfl, rfl⟩
    · rintro ⟨-, hid⟩
      exact ⟨hmem, hid.symm⟩
  · rw [if_neg hmem]
    constructor
    · rintro ⟨hin, -⟩
      exact absurd hin hmem
    · rintro ⟨hnames, -⟩
      have hlength := congrArg List.length hnames
      rw [List.length_append, List.length_singleton] at hlength
      omega

theorem assigned_log (h : Host) (op : Operation) : (assigned h op).log = h.log := by
  cases op with
  | onEdge _ _ _ | counterAttach _ _ _ | encoderAttach _ _ _ _ | i2cConfigure _ _ _
  | dacAttach _ _ _ _ _ =>
    rw [assigned]
    split
    · rfl
    · rfl
  | _ => rfl

/-! ### What leaves the client as it is -/

section Assignments

variable (h : Host)

theorem pin_settled (name : String) (pin : ℤ) :
    ({ h with pins := Function.update h.pins name ⟨some pin⟩ } : Host) = h ↔
      (h.pins name).physicalPin = some pin := by
  constructor
  · intro hsame
    have hpin := Function.update_eq_self_iff.mp (congrArg Resources.pins hsame)
    exact (congrArg Pin.physicalPin hpin).symm
  · intro hpin
    rw [← hpin, Function.update_eq_self]

theorem pwm_settled (name : String) (pin : ℤ) :
    ({ h with pwms := Function.update h.pwms name ⟨some pin⟩ } : Host) = h ↔
      (h.pwms name).physicalPin = some pin := by
  constructor
  · intro hsame
    have hpwm := Function.update_eq_self_iff.mp (congrArg Resources.pwms hsame)
    exact (congrArg PwmOutput.physicalPin hpwm).symm
  · intro hpwm
    rw [← hpwm, Function.update_eq_self]

theorem analog_settled (name : String) (pin samples : ℤ) :
    assigned h (.analogConfigure name pin samples) = h ↔
      Settled h (.analogConfigure name pin samples) := by
  rw [assigned, Settled]
  constructor
  · intro hsame
    have hanalog := Function.update_eq_self_iff.mp (congrArg Resources.analogs hsame)
    rw [← hanalog]
    exact ⟨rfl, rfl⟩
  · rintro ⟨hpin, hsamples⟩
    rw [← hpin, ← hsamples, Function.update_eq_self]

theorem callback_settled (name edge : String) (callback : ℕ) :
    assigned h (.onEdge name edge callback) = h ↔ Settled h (.onEdge name edge callback) := by
  rw [assigned, Settled]
  cases (h.pins name).physicalPin with
  | none => exact iff_of_true rfl rfl
  | some pin =>
    apply iff_of_false
    · intro hsame
      have hlength := congrArg (fun h : Host => h.edgeCallbacks.length) hsame
      simp only [List.length_append, List.length_singleton] at hlength
      omega
    · intro hnone
      cases hnone

theorem counter_settled (name : String) (pin : PinRef) (edge : String) :
    assigned h (.counterAttach name pin edge) = h ↔ Settled h (.counterAttach name pin edge) := by
  rw [assigned, Settled]
  cases resolvePin h pin with
  | error error => exact iff_of_true rfl (Or.inl ⟨error, rfl⟩)
  | ok pin =>
    constructor
    · intro hsame
      have hcounter := Function.update_eq_self_iff.mp (congrArg Resources.counters hsame)
      exact Or.inr (idFor_known.mpr
        ⟨congrArg Resources.counterIds hsame, congrArg PulseCounter.id hcounter⟩)
    · rintro (⟨error, herror⟩ | hknown)
      · cases herror
      · obtain ⟨hids, hid⟩ := idFor_known.mp hknown
        dsimp only
        rw [hids, hid, Function.update_eq_self]

theorem encoder_settled (name : String) (pinA pinB : ℤ) (mode : String) :
    assigned h (.encoderAttach name pinA pinB mode) = h ↔
      Settled h (.encoderAttach name pinA pinB mode) := by
  rw [assigned, Settled]
  cases modeCode mode with
  | none => exact iff_of_true rfl (Or.inl rfl)
  | some code =>
    constructor
    · intro hsame
      have hencoder := Function.update_eq_self_iff.mp (congrArg Resources.encoders hsame)
      exact Or.inr (idFor_known.mpr
        ⟨congrArg Resources.encoderIds hsame, congrArg QuadratureEncoder.id hencoder⟩)
    · rintro (hmode | hknown)
      · cases hmode
      · obtain ⟨hids, hid⟩ := idFor_known.mp hknown
        dsimp only
        rw [hids, hid, Function.update_eq_self]

theorem bus_settled (name : String) (bus frequency : ℤ) :
    assigned h (.i2cConfigure name bus frequency) = h ↔
      Settled h (.i2cConfigure name bus frequency) := by
  rw [assigned, Settled]
  by_cases hbad : bus < 0 ∨ 255 < bus ∨ frequency ≤ 0
  · rw [if_pos hbad]
    exact iff_of_true rfl (Or.inl hbad)
  · rw [if_neg hbad]
    constructor
    · intro hsame
      have hbus := Function.update_eq_self_iff.mp (congrArg Resources.i2cBuses hsame)
      rw [← hbus]
      exact Or.inr ⟨rfl, rfl⟩
    · rintro (hraised | ⟨hbus, hfrequency⟩)
      · exact absurd hraised hbad
      · rw [← hbus, ← hfrequency, Function.update_eq_self]

theorem dac_settled (name bus : String) (address channels resolutionBits : ℤ) :
    assigned h (.dacAttach name bus address channels resolutionBits) = h ↔
      Settled h (.dacAttach name bus address channels resolutionBits) := by
  rw [assigned, Settled]
  by_cases hbad : (h.i2cBuses bus).bus = none ∨ channels < 1 ∨ 255 < channels ∨
    resolutionBits < 1 ∨ 16 < resolutionBits
  · rw [if_pos hbad]
    exact iff_of_true rfl (Or.inl hbad)
  · rw [if_neg hbad, u7Address]
    by_cases haddress : address < 0 ∨ 0x7F < address
    · rw [if_pos haddress]
      constructor
      · intro hsame
        have hdac := Function.update_eq_self_iff.mp (congrArg Resources.dacs hsame)
        exact Or.inr ⟨idFor_known.mpr
          ⟨congrArg Resources.dacIds hsame, congrArg DacOutput.id hdac⟩,
          (congrArg DacOutput.busName hdac).symm, Or.inl haddress⟩
      · rintro (hraised | ⟨hknown, hbus, -⟩)
        · exact absurd hraised hbad
        · obtain ⟨hids, hid⟩ := idFor_known.mp hknown
          dsimp only
          rw [hids, hid, ← hbus, Function.update_eq_self]
    · rw [if_neg haddress]
      constructor
      · intro hsame
        have hdac := Function.update_eq_self_iff.mp (congrArg Resources.dacs hsame)
        exact Or.inr ⟨idFor_known.mpr
          ⟨congrArg Resources.dacIds hsame, congrArg DacOutput.id hdac⟩,
          (congrArg DacOutput.busName hdac).symm, Or.inr
            ⟨(congrArg DacOutput.address hdac).symm, (congrArg DacOutput.channels hdac).symm,
              (congrArg DacOutput.resolutionBits hdac).symm⟩⟩
      · rintro (hraised | ⟨hknown, hbus, hraised | ⟨hat, hchannels, hbits⟩⟩)
        · exact absurd hraised hbad
        · exact absurd hraised haddress
        · obtain ⟨hids, hid⟩ := idFor_known.mp hknown
          dsimp only
          rw [hids, hid, ← hbus, ← hat, ← hchannels, ← hbits, Function.update_eq_self]

theorem assigned_settled (op : Operation) : assigned h op = h ↔ Settled h op := by
  cases op with
  | configureOutput name pin initial => exact pin_settled h name pin
  | configureInput name pin pull => exact pin_settled h name pin
  | onEdge name edge callback => exact callback_settled h name edge callback
  | pwmConfigure name pin frequency duty => exact pwm_settled h name pin
  | analogConfigure name pin samples => exact analog_settled h name pin samples
  | counterAttach name pin edge => exact counter_settled h name pin edge
  | encoderAttach name pinA pinB mode => exact encoder_settled h name pinA pinB mode
  | i2cConfigure name bus frequency => exact bus_settled h name bus frequency
  | dacAttach name bus address channels bits =>
    exact dac_settled h name bus address channels bits
  | _ => exact iff_of_true rfl trivial

end Assignments

/-! ### Calls that raise -/

variable (respond : List Command → Except PyError (List UInt8)) (h : Host)

/-- An operation that keeps the answer has assigned nothing when it raises. -/
theorem raised_same {op : Operation} {error : PyError}
    (hraised : (runOperation respond h op).1 = .error error) :
    SameFields (assigned h op) (runOperation respond h op).2 := by
  by_cases hkeeps : keepsAnswer op = false
  · exact runOperation_same respond h hkeeps
  · rw [Bool.not_eq_false] at hkeeps
    have hsettled : assigned h op = h := by
      cases op with
      | counterDelta | counterFrequency | counterReset | encoderDelta | encoderReset => rfl
      | _ => cases hkeeps
    rw [hsettled]
    rcases runOperation_answered respond h hkeeps with hsame | ⟨hreturned, -⟩
    · exact hsame
    · rw [hreturned] at hraised
      cases hraised

theorem sameFields_iff {h h₁ h' : Host} (hsame : SameFields h₁ h') (hlog : h₁.log = h.log) :
    SameFields h h' ↔ h₁ = h := by
  obtain ⟨log, rfl⟩ := hsame
  constructor
  · rintro ⟨log', heq⟩
    have hrestored : ({ h₁ with log := h.log } : Host) = h :=
      congrArg (fun k : Host => { k with log := h.log }) heq
    rw [← hlog] at hrestored
    exact hrestored
  · rintro rfl
    exact ⟨log, rfl⟩

/-- A call that raises leaves the client as it was exactly where it had nothing to assign. -/
theorem failed_call_iff {op : Operation} {error : PyError}
    (hraised : (runOperation respond h op).1 = .error error) :
    SameFields h (runOperation respond h op).2 ↔ Settled h op :=
  (sameFields_iff (raised_same respond h hraised) (assigned_log h op)).trans
    (assigned_settled h op)

/-- What `subscribe` and the guards of a pin go by says nothing about the device: a pin that was
refused resolves like one that was accepted. -/
theorem refused_pin_resolves (name : String) (pin initial : ℤ) :
    resourceRef (configureOutput respond h name pin initial).2 name = .ok (.digital, pin) := by
  obtain ⟨log, hafter⟩ := configureOutput_same respond h name pin initial
  have hpin : ((configureOutput respond h name pin initial).2.pins name).physicalPin =
      some pin := by
    rw [hafter]
    exact congrArg Pin.physicalPin (Function.update_self name _ h.pins)
  rw [resourceRef, hpin]

def refusing : List Command → Except PyError (List UInt8) := fun _ => .error .invalidPinError

/-- A second, refused configuration of a pin that was configured in the same way. -/
theorem refused_again :
    SameFields { pins := fun _ => ⟨some 13⟩ }
      (runOperation refusing { pins := fun _ => ⟨some 13⟩ } (.configureOutput "led" 13 1)).2 :=
  (failed_call_iff refusing { pins := fun _ => ⟨some 13⟩ } rfl).mpr rfl

theorem refused_pin_stays :
    ¬ ∀ (respond : List Command → Except PyError (List UInt8)) (h : Host) (name : String)
      (pin initial : ℤ) (error : PyError),
      (configureOutput respond h name pin initial).1 = .error error →
        SameFields h (configureOutput respond h name pin initial).2 := by
  intro hall
  obtain ⟨log, hafter⟩ := hall refusing {} "led" 200 1 .invalidPinError rfl
  have hpin := congrArg (fun h : Host => (h.pins "led").physicalPin) hafter
  cases hpin

end FailedCalls
