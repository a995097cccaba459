import TeensyIo.HostResources
import TeensyIo.RequestLayouts

/-! # Operations of the host

What an operation of a resource or of the client means as a request of the firmware, and that
the bytes it sends are laid out for such a request. -/
namespace HostOperations

open WireCommands LittleEndian HostProtocol HostResources FirmwareRequests RequestLayouts

inductive Operation where
  | configureOutput (name : String) (physicalPin initial : ℤ)
  | configureInput (name : String) (physicalPin : ℤ) (pull : String)
  | pinRead (name : String)
  | pinWrite (name : String) (value : ℤ)
  | onEdge (name edge : String) (callback : ℕ)
  | pwmConfigure (name : String) (physicalPin frequency : ℤ) (initialDuty : ℚ)
  | pwmWrite (name : String) (duty : ℚ)
  | pwmDisable (name : String)
  | analogConfigure (name : String) (physicalPin samples : ℤ)
  | analogRead (name : String)
  | counterAttach (name : String) (pin : PinRef) (edge : String)
  | counterRead (name : String)
  | counterDelta (name : String)
  | counterFrequency (name : String) (windowMs : ℤ) (now : ℚ)
  | counterReset (name : String)
  | encoderAttach (name : String) (pinA pinB : ℤ) (mode : String)
  | encoderRead (name : String)
  | encoderDelta (name : String)
  | encoderReset (name : String)
  | i2cConfigure (name : String) (bus frequency : ℤ)
  | i2cWrite (name : String) (address : ℤ) (data : List UInt8)
  | i2cRead (name : String) (address length : ℤ)
  | dacAttach (name bus : String) (address channels resolutionBits : ℤ)
  | dacWriteRaw (name : String) (value channel : ℤ)
  | dacWriteNormalized (name : String) (value : ℚ) (channel : ℤ)
  | subscribe (name : String) (rateHz : Option ℚ) (onChange : Bool)
  | unsubscribe (name : String)
  | ping | getInfo | resetConfig | heartbeat | emergencyStop | clearEmergencyStop

/-- Only whether a call raises matters here, not what it returns. -/
def outcome {α : Type} (result : Result α) : Result Unit := (result.1.map fun _ => (), result.2)

def runOperation (respond : List Command → Except PyError (List UInt8)) (h : Host) :
    Operation → Result Unit
  | .configureOutput name pin initial => outcome (configureOutput respond h name pin initial)
  | .configureInput name pin pull => outcome (configureInput respond h name pin pull)
  | .pinRead name => outcome (pinRead respond h name)
  | .pinWrite name value => outcome (pinWrite respond h name value)
  | .onEdge name edge callback => outcome (onEdge respond h name edge callback)
  | .pwmConfigure name pin frequency duty =>
    outcome (pwmConfigure respond h name pin frequency duty)
  | .pwmWrite name duty => outcome (pwmWrite respond h name duty)
  | .pwmDisable name => outcome (pwmDisable respond h name)
  | .analogConfigure name pin samples => outcome (analogConfigure respond h name pin samples)
  | .analogRead name => outcome (analogRead respond h name)
  | .counterAttach name pin edge => outcome (counterAttach respond h name pin edge)
  | .counterRead name => outcome (counterRead respond h name)
  | .counterDelta name => outcome (counterDelta respond h name)
  | .counterFrequency name windowMs now => outcome (counterFrequency respond h name windowMs now)
  | .counterReset name => outcome (counterReset respond h name)
  | .encoderAttach name pinA pinB mode => outcome (encoderAttach respond h name pinA pinB mode)
  | .encoderRead name => outcome (encoderRead respond h name)
  | .encoderDelta name => outcome (encoderDelta respond h name)
  | .encoderReset name => outcome (encoderReset respond h name)
  | .i2cConfigure name bus frequency => outcome (i2cConfigure respond h name bus frequency)
  | .i2cWrite name address data => outcome (i2cWrite respond h name address data)
  | .i2cRead name address length => outcome (i2cRead respond h name address length)
  | .dacAttach name bus address channels resolutionBits =>
    outcome (dacAttach respond h name bus address channels resolutionBits)
  | .dacWriteRaw name value channel => outcome (dacWriteRaw respond h name value channel)
  | .dacWriteNormalized name value channel =>
    outcome (dacWriteNormalized respond h name value channel)
  | .subscribe name rateHz onChange => outcome (subscribe respond h name rateHz onChange)
  | .unsubscribe name => outcome (unsubscribe respond h name)
  | .ping => outcome (ping respond h)
  | .getInfo => outcome (getInfo respond h)
  | .resetConfig => outcome (resetConfig respond h)
  | .heartbeat => outcome (heartbeat respond h)
  | .emergencyStop => outcome (emergencyStop respond h)
  | .clearEmergencyStop => outcome (clearEmergencyStop respond h)

/-- Every field of the request is the number the host was given, or the number it keeps for
the resource. -/
inductive Meant (h : Host) : Operation → Request → Prop where
  | configureOutput {name physicalPin initial} {pin : UInt8} {on : Bool} :
    (pin.toNat : ℤ) = physicalPin → (on = true ↔ initial ≠ 0) →
      Meant h (.configureOutput name physicalPin initial) (.configDigitalOutput pin on)
  | configureInput {name physicalPin pull} {pin code : UInt8} :
    (pin.toNat : ℤ) = physicalPin → pullCode pull = some (code.toNat : ℤ) →
      Meant h (.configureInput name physicalPin pull) (.configDigitalInput pin code)
  | pinRead {name} {pin : UInt8} :
    (h.pins name).physicalPin = some (pin.toNat : ℤ) →
      Meant h (.pinRead name) (.digitalRead pin)
  | pinWrite {name value} {pin : UInt8} {on : Bool} :
    (h.pins name).physicalPin = some (pin.toNat : ℤ) → (on = true ↔ value ≠ 0) →
      Meant h (.pinWrite name value) (.digitalWrite pin on)
  | onEdge {name edge callback} {pin flags : UInt8} {wanted : ℕ} :
    (h.pins name).physicalPin = some (pin.toNat : ℤ) → edgeFlags edge = some wanted →
      flags.toNat = 0x01 ||| wanted →
      Meant h (.onEdge name edge callback) (.subscribe ResourceKind.digital.toByte pin 0 flags)
  | pwmConfigure {name physicalPin hertz initialDuty} {pin duty : UInt8} {frequency : UInt32} :
    (pin.toNat : ℤ) = physicalPin → (frequency.toNat : ℤ) = hertz →
      (duty.toNat : ℤ) = scaled initialDuty 255 →
      Meant h (.pwmConfigure name physicalPin hertz initialDuty) (.configPwm pin frequency duty)
  | pwmWrite {name fraction} {pin duty : UInt8} :
    (h.pwms name).physicalPin = some (pin.toNat : ℤ) →
      (duty.toNat : ℤ) = scaled fraction 255 →
      Meant h (.pwmWrite name fraction) (.pwmWrite pin duty)
  | pwmDisable {name} {pin : UInt8} :
    (h.pwms name).physicalPin = some (pin.toNat : ℤ) →
      Meant h (.pwmDisable name) (.pwmDisable pin)
  | analogConfigure {name physicalPin count} {pin samples : UInt8} :
    (pin.toNat : ℤ) = physicalPin → (samples.toNat : ℤ) = count →
      Meant h (.analogConfigure name physicalPin count) (.configAnalog pin samples)
  | analogRead {name} {pin : UInt8} :
    (h.analogs name).physicalPin = some (pin.toNat : ℤ) →
      Meant h (.analogRead name) (.analogRead pin)
  | counterAttach {name pinRef edge} {id pin code : UInt8} :
    id.toNat = (idFor h.counterIds name).1 → resolvePin h pinRef = .ok (pin.toNat : ℤ) →
      edgeCode edge = some (code.toNat : ℤ) →
      Meant h (.counterAttach name pinRef edge) (.configCounter id pin code)
  | counterRead {name} {id : UInt8} :
    (h.counters name).id = some id.toNat → Meant h (.counterRead name) (.counterRead id)
  | counterDelta {name} {id : UInt8} :
    (h.counters name).id = some id.toNat → Meant h (.counterDelta name) (.counterRead id)
  | counterFrequency {name windowMs now} {id : UInt8} :
    (h.counters name).id = some id.toNat → windowMs ≤ 0 →
      Meant h (.counterFrequency name windowMs now) (.counterFrequency id)
  | counterWindow {name windowMs now} {id : UInt8} :
    (h.counters name).id = some id.toNat → 0 < windowMs →
      Meant h (.counterFrequency name windowMs now) (.counterRead id)
  | counterReset {name} {id : UInt8} :
    (h.counters name).id = some id.toNat → Meant h (.counterReset name) (.counterReset id)
  | encoderAttach {name first second mode} {id pinA pinB code : UInt8} :
    id.toNat = (idFor h.encoderIds name).1 → (pinA.toNat : ℤ) = first →
      (pinB.toNat : ℤ) = second → modeCode mode = some (code.toNat : ℤ) →
      Meant h (.encoderAttach name first second mode) (.configEncoder id pinA pinB code)
  | encoderRead {name} {id : UInt8} :
    (h.encoders name).id = some id.toNat → Meant h (.encoderRead name) (.encoderRead id)
  | encoderDelta {name} {id : UInt8} :
    (h.encoders name).id = some id.toNat → Meant h (.encoderDelta name) (.encoderRead id)
  | encoderReset {name} {id : UInt8} :
    (h.encoders name).id = some id.toNat → Meant h (.encoderReset name) (.encoderReset id)
  | i2cConfigure {name number hertz} {bus : UInt8} {frequency : UInt32} :
    (bus.toNat : ℤ) = number → (frequency.toNat : ℤ) = hertz →
      Meant h (.i2cConfigure name number hertz) (.configI2cBus bus frequency)
  | i2cWrite {name target data} {bus address : UInt8} :
    (h.i2cBuses name).bus = some (bus.toNat : ℤ) → (address.toNat : ℤ) = target →
      Meant h (.i2cWrite name target data) (.i2cWrite bus address data)
  | i2cRead {name target count} {bus address length : UInt8} :
    (h.i2cBuses name).bus = some (bus.toNat : ℤ) → (address.toNat : ℤ) = target →
      (length.toNat : ℤ) = count →
      Meant h (.i2cRead name target count) (.i2cRead bus address length)
  | dacAttach {name busName target count bits} {id bus address channels resolution : UInt8} :
    id.toNat = (idFor h.dacIds name).1 → (h.i2cBuses busName).bus = some (bus.toNat : ℤ) →
      (address.toNat : ℤ) = target → (channels.toNat : ℤ) = count →
      (resolution.toNat : ℤ) = bits →
      Meant h (.dacAttach name busName target count bits)
        (.configDac id bus address channels resolution)
  | dacWriteRaw {name number lane} {id channel : UInt8} {value : UInt16} :
    (h.dacs name).id = some id.toNat → (channel.toNat : ℤ) = lane →
      (value.toNat : ℤ) = number →
      Meant h (.dacWriteRaw name number lane) (.dacWriteRaw id channel value)
  | dacWriteNormalized {name fraction lane} {id channel : UInt8} {normalized : UInt16} :
    (h.dacs name).id = some id.toNat → (channel.toNat : ℤ) = lane →
      (normalized.toNat : ℤ) = scaled fraction 10000 →
      Meant h (.dacWriteNormalized name fraction lane) (.dacWriteNormalized id channel normalized)
  | subscribe {name hertz onChange} {kind : ResourceKind} {id : UInt8} {rateHz : UInt16} :
    resourceRef h name = .ok (kind, (id.toNat : ℤ)) →
      (rateHz.toNat : ℤ) = (hertz.map truncate).getD 0 →
      Meant h (.subscribe name hertz onChange)
        (.subscribe kind.toByte id rateHz (if onChange then 1 else 0))
  | unsubscribe {name} {kind : ResourceKind} {id : UInt8} :
    resourceRef h name = .ok (kind, (id.toNat : ℤ)) →
      Meant h (.unsubscribe name) (.unsubscribe kind.toByte id)
  | ping : Meant h .ping .ping
  | getInfo : Meant h .getInfo .getInfo
  | resetConfig : Meant h .resetConfig .resetConfig
  | heartbeat : Meant h .heartbeat .heartbeat
  | emergencyStop : Meant h .emergencyStop .emergencyStop
  | clearEmergencyStop : Meant h .clearEmergencyStop .clearEmergencyStop

/-! ### What an operation sends -/

/-- A call either raises without a command or sends one command, laid out for a request that
is meant. -/
def Sends {α : Type} (h : Host) (meant : Request → Prop) (result : Result α) : Prop :=
  ((∃ error, result.1 = .error error) ∧ result.2.log = h.log) ∨
  ∃ id bytes r, result.2.log = h.log ++ [(id, bytes)] ∧ bytes.length < maxPayloadSize ∧
    Laid r id bytes ∧ meant r

section Sending

variable {respond : List Command → Except PyError (List UInt8)} {h : Host} {α β : Type}
  {meant : Request → Prop}

theorem sends_raise {error : PyError} {h' : Host} (hlog : h'.log = h.log) :
    Sends h meant ((.error error, h') : Result α) := Or.inl ⟨⟨error, rfl⟩, hlog⟩

theorem command_sends {h' : Host} {id : CommandId} {payload : Except PyError (List UInt8)}
    (hlog : h'.log = h.log)
    (hlaid : ∀ bytes, payload = .ok bytes → ∃ r, Laid r id bytes ∧ meant r) :
    Sends h meant (command respond h' id payload) := by
  unfold command
  split
  · exact sends_raise hlog
  · next bytes =>
    split_ifs with hsize
    · exact sends_raise hlog
    · obtain ⟨r, hr, hm⟩ := hlaid bytes rfl
      refine Or.inr ⟨id, bytes, r, ?_, by omega, hr, hm⟩
      rw [← hlog]

/-- The payload of many commands is one byte, a pin or an id. -/
theorem byte_sends {h' : Host} {id : CommandId} {v : ℤ} (hlog : h'.log = h.log)
    (hlaid : ∀ b : UInt8, (b.toNat : ℤ) = v → ∃ r, Laid r id [b] ∧ meant r) :
    Sends h meant (command respond h' id (pyBytes [v])) := by
  refine command_sends hlog fun bytes hb => ?_
  obtain - | ⟨hbyte, ⟨⟩⟩ := pyBytes_ok hb
  exact hlaid _ hbyte

/-- What follows the response touches the fields of the resource only. -/
theorem next_sends {result : Result α} {rest : α → Host → Result β} (hs : Sends h meant result)
    (hrest : ∀ value h', (rest value h').2.log = h'.log) : Sends h meant (result.next rest) := by
  obtain ⟨value | value, h'⟩ := result
  · exact hs.imp_left fun hraised => ⟨⟨_, rfl⟩, hraised.2⟩
  · have hlog := hrest value h'
    rcases hs with ⟨⟨error, he⟩, -⟩ | ⟨id, bytes, r, hsent, hrequest⟩
    · cases he
    · exact Or.inr ⟨id, bytes, r, hlog.trans hsent, hrequest⟩

theorem Sends.mono {result : Result α} {wider : Request → Prop} (hs : Sends h meant result)
    (himp : ∀ r, meant r → wider r) : Sends h wider result := by
  rcases hs with hraised | ⟨id, bytes, r, hsent, hsize, hlaid, hm⟩
  · exact Or.inl hraised
  · exact Or.inr ⟨id, bytes, r, hsent, hsize, hlaid, himp r hm⟩

theorem Sends.outcome {result : Result α} (hs : Sends h meant result) :
    Sends h meant (outcome result) := by
  refine hs.imp_left fun hraised => ⟨?_, hraised.2⟩
  obtain ⟨error, he⟩ := hraised.1
  exact ⟨error, by rw [HostOperations.outcome, he]; rfl⟩

end Sending

/-! ### Operation by operation -/

section Operations

variable (respond : List Command → Except PyError (List UInt8)) (h : Host)

theorem flag_of_byte {b : UInt8} {v : ℤ} (hb : (b.toNat : ℤ) = v) :
    (b != 0) = true ↔ v ≠ 0 := by
  rw [bne_iff_ne, ← hb, Ne, Ne, ← UInt8.toNat_inj]
  simp

theorem byte_eq {b c : UInt8} (hb : (b.toNat : ℤ) = c.toNat) : b = c :=
  UInt8.toNat_inj.mp (by exact_mod_cast hb)

theorem configureOutput_sends (name : String) (physicalPin initial : ℤ) :
    Sends h (Meant h (.configureOutput name physicalPin initial))
      (configureOutput respond h name physicalPin initial) := by
  refine next_sends (command_sends rfl fun bytes hb => ?_) fun _ _ => rfl
  obtain - | ⟨hpin, - | ⟨hinitial, ⟨⟩⟩⟩ := pyBytes_ok hb
  exact ⟨_, .configDigitalOutput _ _, .configureOutput hpin (flag_of_byte hinitial)⟩

theorem configureInput_sends (name : String) (physicalPin : ℤ) (pull : String) :
    Sends h (Meant h (.configureInput name physicalPin pull))
      (configureInput respond h name physicalPin pull) := by
  unfold configureInput
  dsimp only
  split
  · exact sends_raise rfl
  · next code hcode =>
    refine next_sends (command_sends rfl fun bytes hb => ?_) fun _ _ => rfl
    obtain - | ⟨hpin, - | ⟨rfl, ⟨⟩⟩⟩ := pyBytes_ok hb
    exact ⟨_, .configDigitalInput _ _, .configureInput hpin hcode⟩

theorem pinRead_sends (name : String) :
    Sends h (Meant h (.pinRead name)) (pinRead respond h name) := by
  unfold pinRead
  split
  · exact sends_raise rfl
  · next pin hpin =>
    refine next_sends (byte_sends rfl fun b hb => ?_) fun payload _ => ?_
    · subst hb
      exact ⟨_, .digitalRead b, .pinRead hpin⟩
    · cases payload <;> rfl

theorem pinWrite_sends (name : String) (value : ℤ) :
    Sends h (Meant h (.pinWrite name value)) (pinWrite respond h name value) := by
  unfold pinWrite
  split
  · exact sends_raise rfl
  · next pin hpin =>
    refine next_sends (command_sends rfl fun bytes hb => ?_) fun _ _ => rfl
    obtain - | ⟨rfl, - | ⟨hvalue, ⟨⟩⟩⟩ := pyBytes_ok hb
    exact ⟨_, .digitalWrite _ _, .pinWrite hpin (flag_of_byte hvalue)⟩

theorem onEdge_sends (name edge : String) (callback : ℕ) :
    Sends h (Meant h (.onEdge name edge callback)) (onEdge respond h name edge callback) := by
  unfold onEdge
  split
  · exact sends_raise rfl
  · next pin hpin =>
    dsimp only
    split
    · exact sends_raise rfl
    · next flags hflags =>
      refine next_sends (command_sends rfl fun bytes hb => ?_) fun _ _ => rfl
      obtain - | ⟨hkind, - | ⟨rfl, - | ⟨hlow, - | ⟨hhigh, - | ⟨hf, ⟨⟩⟩⟩⟩⟩⟩ := pyBytes_ok hb
      obtain rfl := byte_eq hkind
      obtain rfl := byte_eq (c := 0) hlow
      obtain rfl := byte_eq (c := 0) hhigh
      exact ⟨_, .subscribe _ _ 0 _, .onEdge hpin hflags (by exact_mod_cast hf)⟩

theorem pwmConfigure_sends (name : String) (physicalPin frequency : ℤ) (initialDuty : ℚ) :
    Sends h (Meant h (.pwmConfigure name physicalPin frequency initialDuty))
      (pwmConfigure respond h name physicalPin frequency initialDuty) := by
  refine next_sends (command_sends rfl fun bytes hb => ?_) fun _ _ => rfl
  obtain ⟨_, _, hfirst, htail, rfl⟩ := concat_ok hb
  obtain ⟨_, _, hpacked, hlast, rfl⟩ := concat_ok htail
  obtain ⟨_, _, hlevel, ⟨⟩, rfl⟩ := concat_ok hlast
  obtain ⟨_, hscaled, hbyte⟩ := bind_ok hlevel
  obtain rfl := u8Duty_ok hscaled
  obtain - | ⟨hpin, ⟨⟩⟩ := pyBytes_ok hfirst
  obtain ⟨_, hfrequency, rfl⟩ := packU32_ok hpacked
  obtain - | ⟨hduty, ⟨⟩⟩ := pyBytes_ok hbyte
  exact ⟨_, .configPwm _ _ _, .pwmConfigure hpin hfrequency hduty⟩

theorem pwmWrite_sends (name : String) (duty : ℚ) :
    Sends h (Meant h (.pwmWrite name duty)) (pwmWrite respond h name duty) := by
  unfold pwmWrite
  split
  · exact sends_raise rfl
  · next pin hpin =>
    refine next_sends (command_sends rfl fun bytes hb => ?_) fun _ _ => rfl
    obtain ⟨_, hscaled, hb⟩ := bind_ok hb
    obtain rfl := u8Duty_ok hscaled
    obtain - | ⟨rfl, - | ⟨hduty, ⟨⟩⟩⟩ := pyBytes_ok hb
    exact ⟨_, .pwmWrite _ _, .pwmWrite hpin hduty⟩

theorem pwmDisable_sends (name : String) :
    Sends h (Meant h (.pwmDisable name)) (pwmDisable respond h name) := by
  unfold pwmDisable
  split
  · exact sends_raise rfl
  · next pin hpin =>
    refine next_sends (byte_sends rfl fun b hb => ?_) fun _ _ => rfl
    subst hb
    exact ⟨_, .pwmDisable b, .pwmDisable hpin⟩

theorem analogConfigure_sends (name : String) (physicalPin samples : ℤ) :
    Sends h (Meant h (.analogConfigure name physicalPin samples))
      (analogConfigure respond h name physicalPin samples) := by
  unfold analogConfigure
  dsimp only
  split_ifs
  · exact sends_raise rfl
  · refine next_sends (command_sends rfl fun bytes hb => ?_) fun _ _ => rfl
    obtain - | ⟨hpin, - | ⟨hsamples, ⟨⟩⟩⟩ := pyBytes_ok hb
    exact ⟨_, .configAnalog _ _, .analogConfigure hpin hsamples⟩

theorem analogRead_sends (name : String) :
    Sends h (Meant h (.analogRead name)) (analogRead respond h name) := by
  unfold analogRead
  split
  · exact sends_raise rfl
  · next pin hpin =>
    refine next_sends (byte_sends rfl fun b hb => ?_) fun _ _ => rfl
    subst hb
    exact ⟨_, .analogRead b, .analogRead hpin⟩

theorem counterAttach_sends (name : String) (pin : PinRef) (edge : String) :
    Sends h (Meant h (.counterAttach name pin edge)) (counterAttach respond h name pin edge) := by
  unfold counterAttach
  split
  · exact sends_raise rfl
  · next physicalPin hpin =>
    dsimp only
    split
    · exact sends_raise rfl
    · next code hcode =>
      refine next_sends (command_sends rfl fun bytes hb => ?_) fun _ _ => rfl
      obtain - | ⟨hid, - | ⟨rfl, - | ⟨rfl, ⟨⟩⟩⟩⟩ := pyBytes_ok hb
      exact ⟨_, .configCounter _ _ _, .counterAttach (by exact_mod_cast hid) hpin hcode⟩

/-- A read of a counter, also where it is part of another operation. -/
theorem counterRead_sends (name : String) :
    Sends h (fun r => ∃ id : UInt8, (h.counters name).id = some id.toNat ∧ r = .counterRead id)
      (counterRead respond h name) := by
  unfold counterRead
  split
  · exact sends_raise rfl
  · next id hid =>
    refine next_sends (byte_sends rfl fun b hb => ?_) fun _ _ => rfl
    obtain rfl := Int.ofNat.inj hb
    exact ⟨_, .counterRead b, b, hid, rfl⟩

theorem counterDelta_sends (name : String) :
    Sends h (Meant h (.counterDelta name)) (counterDelta respond h name) := by
  refine next_sends ((counterRead_sends respond h name).mono ?_) fun _ _ => rfl
  rintro r ⟨id, hid, rfl⟩
  exact .counterDelta hid

theorem counterFrequency_sends (name : String) (windowMs : ℤ) (now : ℚ) :
    Sends h (Meant h (.counterFrequency name windowMs now))
      (counterFrequency respond h name windowMs now) := by
  unfold counterFrequency
  split
  · exact sends_raise rfl
  · next id hid =>
    split_ifs with hwindow
    · refine next_sends (byte_sends rfl fun b hb => ?_) fun _ _ => rfl
      obtain rfl := Int.ofNat.inj hb
      exact ⟨_, .counterFrequency b, .counterFrequency hid hwindow⟩
    · refine next_sends ((counterRead_sends respond h name).mono ?_) fun _ _ => rfl
      rintro r ⟨id, hid, rfl⟩
      exact .counterWindow hid (not_le.mp hwindow)

theorem counterReset_sends (name : String) :
    Sends h (Meant h (.counterReset name)) (counterReset respond h name) := by
  unfold counterReset
  split
  · exact sends_raise rfl
  · next id hid =>
    refine next_sends (byte_sends rfl fun b hb => ?_) fun _ _ => rfl
    obtain rfl := Int.ofNat.inj hb
    exact ⟨_, .counterReset b, .counterReset hid⟩

theorem encoderAttach_sends (name : String) (pinA pinB : ℤ) (mode : String) :
    Sends h (Meant h (.encoderAttach name pinA pinB mode))
      (encoderAttach respond h name pinA pinB mode) := by
  unfold encoderAttach
  split
  · exact sends_raise rfl
  · next code hcode =>
    refine next_sends (command_sends rfl fun bytes hb => ?_) fun _ _ => rfl
    obtain - | ⟨hid, - | ⟨hpinA, - | ⟨hpinB, - | ⟨rfl, ⟨⟩⟩⟩⟩⟩ := pyBytes_ok hb
    exact ⟨_, .configEncoder _ _ _ _,
      .encoderAttach (by exact_mod_cast hid) hpinA hpinB hcode⟩

theorem encoderRead_sends (name : String) :
    Sends h (fun r => ∃ id : UInt8, (h.encoders name).id = some id.toNat ∧ r = .encoderRead id)
      (encoderRead respond h name) := by
  unfold encoderRead
  split
  · exact sends_raise rfl
  · next id hid =>
    refine next_sends (byte_sends rfl fun b hb => ?_) fun _ _ => rfl
    obtain rfl := Int.ofNat.inj hb
    exact ⟨_, .encoderRead b, b, hid, rfl⟩

theorem encoderDelta_sends (name : String) :
    Sends h (Meant h (.encoderDelta name)) (encoderDelta respond h name) := by
  refine next_sends ((encoderRead_sends respond h name).mono ?_) fun _ _ => rfl
  rintro r ⟨id, hid, rfl⟩
  exact .encoderDelta hid

theorem encoderReset_sends (name : String) :
    Sends h (Meant h (.encoderReset name)) (encoderReset respond h name) := by
  unfold encoderReset
  split
  · exact sends_raise rfl
  · next id hid =>
    refine next_sends (byte_sends rfl fun b hb => ?_) fun _ _ => rfl
    obtain rfl := Int.ofNat.inj hb
    exact ⟨_, .encoderReset b, .encoderReset hid⟩

theorem i2cConfigure_sends (name : String) (bus frequency : ℤ) :
    Sends h (Meant h (.i2cConfigure name bus frequency))
      (i2cConfigure respond h name bus frequency) := by
  unfold i2cConfigure
  split_ifs
  · exact sends_raise rfl
  · exact sends_raise rfl
  · refine next_sends (command_sends rfl fun bytes hb => ?_) fun _ _ => rfl
    obtain ⟨_, _, hfirst, htail, rfl⟩ := concat_ok hb
    obtain ⟨_, _, hpacked, ⟨⟩, rfl⟩ := concat_ok htail
    obtain - | ⟨hbus, ⟨⟩⟩ := pyBytes_ok hfirst
    obtain ⟨_, hfrequency, rfl⟩ := packU32_ok hpacked
    rw [List.append_nil]
    exact ⟨_, .configI2cBus _ _, .i2cConfigure hbus hfrequency⟩

theorem i2cWrite_sends (name : String) (address : ℤ) (data : List UInt8) :
    Sends h (Meant h (.i2cWrite name address data)) (i2cWrite respond h name address data) := by
  unfold i2cWrite
  split
  · exact sends_raise rfl
  · next bus hbus =>
    refine next_sends (command_sends rfl fun bytes hb => ?_) fun _ _ => rfl
    obtain ⟨_, _, hhead, htail, rfl⟩ := concat_ok hb
    obtain ⟨_, _, ⟨⟩, ⟨⟩, rfl⟩ := concat_ok htail
    obtain ⟨_, hchecked, hbytes⟩ := bind_ok hhead
    obtain rfl := u7Address_ok hchecked
    obtain - | ⟨rfl, - | ⟨haddress, - | ⟨hlength, ⟨⟩⟩⟩⟩ := pyBytes_ok hbytes
    rw [List.append_nil]
    exact ⟨_, .i2cWrite _ _ _ _ (by exact_mod_cast hlength), .i2cWrite hbus haddress⟩

theorem i2cRead_sends (name : String) (address length : ℤ) :
    Sends h (Meant h (.i2cRead name address length)) (i2cRead respond h name address length) := by
  unfold i2cRead
  split
  · exact sends_raise rfl
  · next bus hbus =>
    split_ifs
    · exact sends_raise rfl
    · refine command_sends rfl fun bytes hb => ?_
      obtain ⟨_, hchecked, hbytes⟩ := bind_ok hb
      obtain rfl := u7Address_ok hchecked
      obtain - | ⟨rfl, - | ⟨haddress, - | ⟨hlength, ⟨⟩⟩⟩⟩ := pyBytes_ok hbytes
      exact ⟨_, .i2cRead _ _ _, .i2cRead hbus haddress hlength⟩

theorem dacAttach_sends (name bus : String) (address channels resolutionBits : ℤ) :
    Sends h (Meant h (.dacAttach name bus address channels resolutionBits))
      (dacAttach respond h name bus address channels resolutionBits) := by
  unfold dacAttach
  split
  · exact sends_raise rfl
  · next busNumber hbus =>
    dsimp only
    split_ifs
    · exact sends_raise rfl
    · exact sends_raise rfl
    · split
      · exact sends_raise rfl
      · next checked hchecked =>
        obtain rfl := u7Address_ok hchecked
        refine next_sends (command_sends rfl fun bytes hb => ?_) fun _ _ => rfl
        obtain - | ⟨hid, - | ⟨rfl, - | ⟨haddress, - | ⟨hchannels, - | ⟨hbits, ⟨⟩⟩⟩⟩⟩⟩ :=
          pyBytes_ok hb
        exact ⟨_, .configDac _ _ _ _ _,
          .dacAttach (by exact_mod_cast hid) hbus haddress hchannels hbits⟩

/-- The payload of both DAC writes. -/
theorem dacPayload_ok {id : ℕ} {channel value : ℤ} {bytes : List UInt8}
    (hb : concat [pyBytes [id, channel], toBytes16 value] = .ok bytes) :
    ∃ (i c : UInt8) (v : UInt16), i.toNat = id ∧ (c.toNat : ℤ) = channel ∧
      (v.toNat : ℤ) = value ∧ bytes = [i, c] ++ toBytes 2 v.toNat := by
  obtain ⟨_, _, hhead, htail, rfl⟩ := concat_ok hb
  obtain ⟨_, _, hpacked, ⟨⟩, rfl⟩ := concat_ok htail
  obtain - | ⟨hid, - | ⟨hchannel, ⟨⟩⟩⟩ := pyBytes_ok hhead
  obtain ⟨v, hvalue, rfl⟩ := toBytes_ok hpacked
  exact ⟨_, _, v, Int.ofNat.inj hid, hchannel, hvalue, by rw [List.append_nil]⟩

theorem dacWriteRaw_sends (name : String) (value channel : ℤ) :
    Sends h (Meant h (.dacWriteRaw name value channel))
      (dacWriteRaw respond h name value channel) := by
  unfold dacWriteRaw
  dsimp only
  split
  · exact sends_raise rfl
  · next id hid =>
    split_ifs
    · exact sends_raise rfl
    · exact sends_raise rfl
    · refine next_sends (command_sends rfl fun bytes hb => ?_) fun _ _ => rfl
      obtain ⟨i, c, v, rfl, hchannel, hvalue, rfl⟩ := dacPayload_ok hb
      exact ⟨_, .dacWriteRaw i c v, .dacWriteRaw hid hchannel hvalue⟩

theorem dacWriteNormalized_sends (name : String) (value : ℚ) (channel : ℤ) :
    Sends h (Meant h (.dacWriteNormalized name value channel))
      (dacWriteNormalized respond h name value channel) := by
  unfold dacWriteNormalized
  dsimp only
  split
  · exact sends_raise rfl
  · next id hid =>
    split_ifs
    · exact sends_raise rfl
    · exact sends_raise rfl
    · refine next_sends (command_sends rfl fun bytes hb => ?_) fun _ _ => rfl
      obtain ⟨i, c, v, rfl, hchannel, hvalue, rfl⟩ := dacPayload_ok hb
      exact ⟨_, .dacWriteNormalized i c v, .dacWriteNormalized hid hchannel hvalue⟩

theorem subscribe_sends (name : String) (rateHz : Option ℚ) (onChange : Bool) :
    Sends h (Meant h (.subscribe name rateHz onChange))
      (subscribe respond h name rateHz onChange) := by
  unfold subscribe
  split
  · exact sends_raise rfl
  · next kind id href =>
    refine next_sends (command_sends rfl fun bytes hb => ?_) fun _ _ => rfl
    obtain ⟨_, _, hhead, htail, rfl⟩ := concat_ok hb
    obtain ⟨_, _, hpacked, hlast, rfl⟩ := concat_ok htail
    obtain ⟨_, _, hflag, ⟨⟩, rfl⟩ := concat_ok hlast
    obtain - | ⟨hkind, - | ⟨rfl, ⟨⟩⟩⟩ := pyBytes_ok hhead
    obtain ⟨v, hrate, rfl⟩ := toBytes_ok hpacked
    obtain - | ⟨hflags, ⟨⟩⟩ := pyBytes_ok hflag
    obtain rfl := byte_eq hkind
    obtain rfl := byte_eq (c := if onChange then 1 else 0) (by rw [hflags]; cases onChange <;> rfl)
    exact ⟨_, .subscribe _ _ v _, .subscribe href hrate⟩

theorem unsubscribe_sends (name : String) :
    Sends h (Meant h (.unsubscribe name)) (unsubscribe respond h name) := by
  unfold unsubscribe
  split
  · exact sends_raise rfl
  · next kind id href =>
    refine next_sends (command_sends rfl fun bytes hb => ?_) fun _ _ => rfl
    obtain - | ⟨hkind, - | ⟨rfl, ⟨⟩⟩⟩ := pyBytes_ok hb
    obtain rfl := byte_eq hkind
    exact ⟨_, .unsubscribe _ _, .unsubscribe href⟩

/-- The commands without arguments. -/
theorem bare_sends {r : Request} {id : CommandId} {meant : Request → Prop} (hl : Laid r id [])
    (hm : meant r) : Sends h meant (command respond h id (.ok [])) :=
  command_sends rfl fun _ hb => ⟨r, Except.ok.inj hb ▸ hl, hm⟩

theorem runOperation_sends (op : Operation) : Sends h (Meant h op) (runOperation respond h op) := by
  cases op with
  | configureOutput name pin initial =>
    exact (configureOutput_sends respond h name pin initial).outcome
  | configureInput name pin pull => exact (configureInput_sends respond h name pin pull).outcome
  | pinRead name => exact (pinRead_sends respond h name).outcome
  | pinWrite name value => exact (pinWrite_sends respond h name value).outcome
  | onEdge name edge callback => exact (onEdge_sends respond h name edge callback).outcome
  | pwmConfigure name pin frequency duty =>
    exact (pwmConfigure_sends respond h name pin frequency duty).outcome
  | pwmWrite name duty => exact (pwmWrite_sends respond h name duty).outcome
  | pwmDisable name => exact (pwmDisable_sends respond h name).outcome
  | analogConfigure name pin samples =>
    exact (analogConfigure_sends respond h name pin samples).outcome
  | analogRead name => exact (analogRead_sends respond h name).outcome
  | counterAttach name pin edge => exact (counterAttach_sends respond h name pin edge).outcome
  | counterRead name =>
    refine ((counterRead_sends respond h name).mono ?_).outcome
    rintro r ⟨id, hid, rfl⟩
    exact .counterRead hid
  | counterDelta name => exact (counterDelta_sends respond h name).outcome
  | counterFrequency name windowMs now =>
    exact (counterFrequency_sends respond h name windowMs now).outcome
  | counterReset name => exact (counterReset_sends respond h name).outcome
  | encoderAttach name pinA pinB mode =>
    exact (encoderAttach_sends respond h name pinA pinB mode).outcome
  | encoderRead name =>
    refine ((encoderRead_sends respond h name).mono ?_).outcome
    rintro r ⟨id, hid, rfl⟩
    exact .encoderRead hid
  | encoderDelta name => exact (encoderDelta_sends respond h name).outcome
  | encoderReset name => exact (encoderReset_sends respond h name).outcome
  | i2cConfigure name bus frequency =>
    exact (i2cConfigure_sends respond h name bus frequency).outcome
  | i2cWrite name address data => exact (i2cWrite_sends respond h name address data).outcome
  | i2cRead name address length => exact (i2cRead_sends respond h name address length).outcome
  | dacAttach name bus address channels bits =>
    exact (dacAttach_sends respond h name bus address channels bits).outcome
  | dacWriteRaw name value channel => exact (dacWriteRaw_sends respond h name value channel).outcome
  | dacWriteNormalized name value channel =>
    exact (dacWriteNormalized_sends respond h name value channel).outcome
  | subscribe name rateHz onChange => exact (subscribe_sends respond h name rateHz onChange).outcome
  | unsubscribe name => exact (unsubscribe_sends respond h name).outcome
  | ping => exact (next_sends (bare_sends respond h .ping .ping) fun _ _ => rfl).outcome
  | getInfo =>
    refine (next_sends (bare_sends respond h .getInfo .getInfo) fun payload _ => ?_).outcome
    split <;> rfl
  | resetConfig =>
    exact (next_sends (bare_sends respond h .resetConfig .resetConfig) fun _ _ => rfl).outcome
  | heartbeat =>
    exact (next_sends (bare_sends respond h .heartbeat .heartbeat) fun _ _ => rfl).outcome
  | emergencyStop =>
    exact (next_sends (bare_sends respond h .emergencyStop .emergencyStop) fun _ _ => rfl).outcome
  | clearEmergencyStop =>
    exact (next_sends (bare_sends respond h .clearEmergencyStop .clearEmergencyStop)
      fun _ _ => rfl).outcome

end Operations

end HostOperations
