import TeensyIo.CounterDeltas
import TeensyIo.FirmwareOutcomes

/-! # Requests that are served

Which resources of the firmware are configured, what a request needs of them to be accepted, and
that nothing but a reset and the disabling of a PWM pin takes a configuration back. -/
namespace ServedRequests

open WireCommands HostProtocol HostClient HostResources FirmwareState FirmwareCommands
open FirmwareUpdate FirmwareRequests FirmwareOutcomes FirmwareResponses RequestLayouts
open DeviceLink (hostPacket)
open EdgeCallbacks (respond handled_laid firstFree)

/-! ### Accepted requests -/

/-- What `_command` returns when this is what the firmware has written. -/
def replyTo (out : Outcome) : Except PyError (List UInt8) :=
  match framesWritten out.2 with
  | [] => .error .timeoutError
  | w :: _ => commandResult (hostPacket w)

def Accepts (out : Outcome) : Prop := ∃ reply, replyTo out = .ok reply

section Accepted

variable {b : Board} {env : Env} {s s' : State} {seq : UInt16}

theorem respond_laid {log : List Command} {id : CommandId} {bytes : List UInt8} {r : Request}
    (hsize : bytes.length < maxPayloadSize) (hl : Laid r id bytes) :
    respond b env s (log ++ [(id, bytes)]) =
      replyTo (execute b env s (UInt16.ofNat (log ++ [(id, bytes)]).length) r) := by
  rw [respond, handled_laid b env s log hsize hl]
  rfl

theorem not_accepts_refuse {code : ErrorCode} : ¬ Accepts (refuse s seq code) := by
  rintro ⟨reply, hreply⟩
  exact @DeviceLink.refusal_raises s seq _ _ _ (List.mem_singleton_self _) hreply

/-- A guard that refuses. -/
theorem accepts_guard {c : Prop} [Decidable c] {code : ErrorCode} {out : Outcome} :
    Accepts (if c then refuse s seq code else out) ↔ ¬ c ∧ Accepts out := by
  by_cases hc : c
  · rw [if_pos hc]
    exact iff_of_false not_accepts_refuse fun h => h.1 hc
  · rw [if_neg hc]
    exact (and_iff_right hc).symm

theorem accepts_data (payload : List UInt8) : Accepts (s, [data seq payload]) := ⟨payload, rfl⟩

theorem accepts_ack (effects : List Effect) (hquiet : framesWritten effects = []) :
    Accepts (s, effects ++ [ackTo seq]) := by
  refine ⟨[], ?_⟩
  rw [replyTo, framesWritten_append, hquiet]
  rfl

theorem not_accepts_nack (effects : List Effect) {code : ErrorCode}
    (hquiet : framesWritten effects = []) : ¬ Accepts (s, effects ++ [nack seq code]) := by
  rintro ⟨reply, hreply⟩
  rw [replyTo, framesWritten_append, hquiet] at hreply
  exact @DeviceLink.refusal_raises s seq _ _ _ (List.mem_singleton_self _) hreply

/-- The check of two conditions that must both hold. -/
theorem not_refused {p q : Bool} : ¬ (!p || !q) = true ↔ (p && q) = true := by
  cases p <;> cases q <;> decide

theorem not_refused_slot {id max : UInt8} {active : Bool} :
    ¬ (id ≥ max || !active) = true ↔ (decide (id < max) && active) = true := by
  rw [CounterDeltas.tick_guard, not_not, Bool.and_eq_true, decide_eq_true_iff]

end Accepted

/-! ### Configured resources -/

/-- What a number in a command can refer to. -/
inductive Kind where
  | pin | pwm | analog | counter | encoder | bus | dac
  deriving DecidableEq, Repr

/-- The resource is there and configured. -/
def serves (b : Board) (s : State) : Kind → UInt8 → Bool
  | .pin, i => isValidDigitalPin b i
  | .pwm, i => isValidPwmPin b i && s.pwmConfigured i
  | .analog, i => isValidAnalogPin b i && s.analogConfigured i
  | .counter, i => decide (i < kMaxCounters) && (s.counters i).active
  | .encoder, i => decide (i < kMaxEncoders) && (s.encoders i).active
  | .bus, i => decide (i < kMaxI2cBuses) && s.i2cConfigured i && wireForBus b i
  | .dac, i =>
    decide (i < kMaxDacs) && (s.dacs i).active && wireForBus b (s.dacs i).bus &&
      s.i2cConfigured (s.dacs i).bus

/-- The resource a request configures. -/
def configures : Request → Option (Kind × UInt8)
  | .configDigitalInput pin _ | .configDigitalOutput pin _ => some (.pin, pin)
  | .configPwm pin _ _ => some (.pwm, pin)
  | .configAnalog pin _ => some (.analog, pin)
  | .configCounter id _ _ => some (.counter, id)
  | .configEncoder id _ _ _ => some (.encoder, id)
  | .configI2cBus bus _ => some (.bus, bus)
  | .configDac id _ _ _ _ => some (.dac, id)
  | _ => none

def kindOf : ResourceKind → Kind
  | .digital => .pin
  | .analog => .analog
  | .counter => .counter
  | .encoder => .encoder
  | .dac => .dac

/-- The configured resource a request works on. -/
def uses : Request → Option (Kind × UInt8)
  | .digitalRead pin | .digitalWrite pin _ => some (.pin, pin)
  | .pwmWrite pin _ | .pwmDisable pin => some (.pwm, pin)
  | .analogRead pin => some (.analog, pin)
  | .counterRead id | .counterReset id | .counterFrequency id => some (.counter, id)
  | .encoderRead id | .encoderReset id => some (.encoder, id)
  | .i2cWrite bus _ _ | .i2cRead bus _ _ => some (.bus, bus)
  | .dacWriteRaw id _ _ | .dacWriteNormalized id _ _ => some (.dac, id)
  | .subscribe kind id _ _ | .unsubscribe kind id =>
    (ResourceKind.ofByte kind).map fun kind => (kindOf kind, id)
  | _ => none

/-- What a request needs besides its resource. -/
def permits (env : Env) (s : State) : Request → Prop
  | .digitalWrite _ _ | .pwmWrite _ _ => s.safety.outputsAllowed = true
  | .i2cWrite _ _ _ => env.endTransmission = 0
  | .i2cRead _ _ length => length.toNat ≤ FirmwareProtocol.kMaxPayloadSize
  | .dacWriteRaw id channel _ | .dacWriteNormalized id channel _ =>
    s.safety.outputsAllowed = true ∧ channel < (s.dacs id).channels ∧ env.endTransmission = 0
  | .subscribe _ _ _ _ => (firstFree s).isSome = true
  | _ => True

section Serving

variable {b : Board} {env : Env} {s : State} {seq : UInt16}

theorem subscribe_accepts {kind id : UInt8} {rateHz : UInt16} {flags : UInt8} {value : Int32}
    (hvalue : readResourceValue b env s 0 kind id = some value) :
    Accepts (subscribe b env s seq kind id rateHz flags) ↔ (firstFree s).isSome = true := by
  rw [FirmwareCommands.subscribe, hvalue]
  unfold firstFree
  dsimp only
  cases (indices kMaxSubscriptions.toNat).find? fun i => !(s.subscriptions i).active with
  | none => exact iff_of_false not_accepts_refuse (by simp)
  | some i => exact iff_of_true (accepts_ack [] rfl) rfl

/-- A configured resource has a value. -/
theorem served_value {kind : ResourceKind} {id : UInt8}
    (hs : serves b s (kindOf kind) id = true) (occasion : ℕ) :
    ∃ value, readResourceValue b env s occasion kind.toByte id = some value := by
  rw [readResourceValue, ResourceKind.ofByte_toByte]
  cases kind with
  | digital =>
    dsimp only
    rw [if_neg (by simpa [serves, kindOf] using hs)]
    exact ⟨_, rfl⟩
  | analog =>
    dsimp only
    rw [if_neg (not_refused.mpr hs)]
    exact ⟨_, rfl⟩
  | counter | encoder =>
    dsimp only
    rw [if_neg (not_refused_slot.mpr hs)]
    exact ⟨_, rfl⟩
  | dac =>
    have hslot : (decide (id < kMaxDacs) && (s.dacs id).active) = true := by
      simp only [serves, kindOf, Bool.and_eq_true] at hs ⊢
      exact hs.1.1
    dsimp only
    rw [if_neg (not_refused_slot.mpr hslot)]
    exact ⟨_, rfl⟩

theorem writeDacRaw_accepts {id channel : UInt8} {value : UInt16}
    (hs : serves b s .dac id = true) :
    Accepts (answerDac seq (writeDacRaw b env s id channel value)) ↔
      channel < (s.dacs id).channels ∧ env.endTransmission = 0 := by
  simp only [serves, Bool.and_eq_true, decide_eq_true_eq] at hs
  obtain ⟨⟨⟨hid, hactive⟩, hwire⟩, hconfigured⟩ := hs
  rw [writeDacRaw]
  dsimp only
  by_cases hchannel : channel < (s.dacs id).channels
  · rw [if_neg (by simp [hactive, UInt8.not_le.mpr hid, UInt8.not_le.mpr hchannel]),
      if_neg (by simp [hwire, hconfigured])]
    by_cases hsent : env.endTransmission = 0
    · rw [if_neg (by simpa using hsent)]
      exact iff_of_true (accepts_ack _ rfl) ⟨hchannel, hsent⟩
    · rw [if_pos hsent]
      exact iff_of_false (not_accepts_nack _ rfl) fun h => hsent h.2
  · rw [if_pos (by simp [UInt8.not_lt.mp hchannel])]
    exact iff_of_false (not_accepts_nack [] rfl) fun h => hchannel h.1

/-- A request that works on a configured resource is accepted exactly if it is permitted. -/
theorem served_iff {r : Request} {kind : Kind} {i : UInt8} (hu : uses r = some (kind, i))
    (hs : serves b s kind i = true) :
    Accepts (execute b env s seq r) ↔ permits env s r := by
  cases r with
  | digitalRead pin =>
    obtain ⟨rfl, rfl⟩ := Prod.mk.inj (Option.some.inj hu)
    rw [execute, FirmwareCommands.digitalRead, accepts_guard]
    exact iff_of_true ⟨by simpa [serves] using hs, accepts_data _⟩ trivial
  | digitalWrite pin value =>
    obtain ⟨rfl, rfl⟩ := Prod.mk.inj (Option.some.inj hu)
    rw [execute, FirmwareCommands.digitalWrite, accepts_guard, accepts_guard, permits]
    have hack : Accepts (s, [Effect.digitalWrite pin value, ackTo seq]) :=
      accepts_ack [_] rfl
    have hvalid : ¬ (!isValidDigitalPin b pin) = true := by simpa [serves] using hs
    simp [hack, hvalid]
  | pwmWrite pin duty =>
    obtain ⟨rfl, rfl⟩ := Prod.mk.inj (Option.some.inj hu)
    rw [execute, FirmwareCommands.pwmWrite, accepts_guard, accepts_guard, permits, not_refused]
    have hack : Accepts (s, [Effect.analogWrite pin duty, ackTo seq]) :=
      accepts_ack [_] rfl
    have hserved : (isValidPwmPin b pin && s.pwmConfigured pin) = true := hs
    simp [hack, hserved]
  | pwmDisable pin =>
    obtain ⟨rfl, rfl⟩ := Prod.mk.inj (Option.some.inj hu)
    rw [execute, FirmwareCommands.pwmDisable, accepts_guard]
    have hvalid : isValidPwmPin b pin = true := (Bool.and_eq_true_iff.mp hs).1
    exact iff_of_true ⟨by simpa using hvalid, accepts_ack [_] rfl⟩ trivial
  | analogRead pin =>
    obtain ⟨rfl, rfl⟩ := Prod.mk.inj (Option.some.inj hu)
    rw [execute, FirmwareCommands.analogRead, accepts_guard, not_refused]
    exact iff_of_true ⟨hs, accepts_data _⟩ trivial
  | counterRead id =>
    obtain ⟨rfl, rfl⟩ := Prod.mk.inj (Option.some.inj hu)
    rw [execute, FirmwareCommands.counterRead, accepts_guard, not_refused_slot]
    exact iff_of_true ⟨hs, accepts_data _⟩ trivial
  | counterReset id =>
    obtain ⟨rfl, rfl⟩ := Prod.mk.inj (Option.some.inj hu)
    rw [execute, FirmwareCommands.counterReset, accepts_guard, not_refused_slot]
    exact iff_of_true ⟨hs, accepts_ack [] rfl⟩ trivial
  | counterFrequency id =>
    obtain ⟨rfl, rfl⟩ := Prod.mk.inj (Option.some.inj hu)
    rw [execute, FirmwareCommands.counterFrequency, accepts_guard, not_refused_slot]
    exact iff_of_true ⟨hs, accepts_data _⟩ trivial
  | encoderRead id =>
    obtain ⟨rfl, rfl⟩ := Prod.mk.inj (Option.some.inj hu)
    rw [execute, FirmwareCommands.encoderRead, accepts_guard, not_refused_slot]
    exact iff_of_true ⟨hs, accepts_data _⟩ trivial
  | encoderReset id =>
    obtain ⟨rfl, rfl⟩ := Prod.mk.inj (Option.some.inj hu)
    rw [execute, FirmwareCommands.encoderReset, accepts_guard, not_refused_slot]
    exact iff_of_true ⟨hs, accepts_ack [] rfl⟩ trivial
  | subscribe kind id rateHz flags =>
    obtain ⟨resource, hresource, hpair⟩ := Option.map_eq_some_iff.mp hu
    obtain ⟨rfl, rfl⟩ := Prod.mk.inj hpair
    obtain rfl := memberOf_some hresource
    obtain ⟨value, hvalue⟩ := @served_value b env _ _ _ hs 0
    exact subscribe_accepts hvalue
  | unsubscribe kind id => exact iff_of_true (accepts_ack [] rfl) trivial
  | i2cWrite bus address bytes =>
    obtain ⟨rfl, rfl⟩ := Prod.mk.inj (Option.some.inj hu)
    have hslot := Bool.and_eq_true_iff.mp hs
    rw [execute, FirmwareCommands.i2cWrite, accepts_guard, accepts_guard, not_refused_slot, permits]
    by_cases hsent : env.endTransmission = 0
    · rw [if_neg (by simpa using hsent)]
      exact iff_of_true ⟨hslot.1, by simpa using hslot.2, accepts_ack [_] rfl⟩ hsent
    · rw [if_pos hsent]
      exact iff_of_false (fun h => not_accepts_nack [_] rfl h.2.2) hsent
  | i2cRead bus address length =>
    obtain ⟨rfl, rfl⟩ := Prod.mk.inj (Option.some.inj hu)
    simp only [serves, Bool.and_eq_true, decide_eq_true_eq] at hs
    obtain ⟨⟨hbus, hconfigured⟩, hwire⟩ := hs
    rw [execute, FirmwareCommands.i2cRead, accepts_guard, accepts_guard, permits]
    have hdata (payload : List UInt8) :
        Accepts (s, [Effect.requestFrom bus address length, data seq payload]) := ⟨payload, rfl⟩
    simp [hdata, hwire, hconfigured, UInt8.not_le.mpr hbus]
  | dacWriteRaw id channel value =>
    obtain ⟨rfl, rfl⟩ := Prod.mk.inj (Option.some.inj hu)
    rw [execute, FirmwareCommands.dacWriteRaw, accepts_guard, writeDacRaw_accepts hs, permits]
    simp
  | dacWriteNormalized id channel normalized =>
    obtain ⟨rfl, rfl⟩ := Prod.mk.inj (Option.some.inj hu)
    have hslot : (decide (id < kMaxDacs) && (s.dacs id).active) = true := by
      simp only [serves, Bool.and_eq_true] at hs ⊢
      exact hs.1.1
    rw [execute, FirmwareCommands.dacWriteNormalized, accepts_guard, accepts_guard,
      not_refused_slot, permits]
    dsimp only
    rw [writeDacRaw_accepts hs]
    simp [hslot]
  | _ => cases hu

end Serving

/-! ### Configuring a resource -/

/-- Every configured bus has its wires. -/
def Wired (b : Board) (s : State) : Prop :=
  ∀ bus, bus < kMaxI2cBuses → s.i2cConfigured bus = true → wireForBus b bus = true

theorem wired_initial (b : Board) (safety : SafetyState) : Wired b { safety := safety } := by
  intro bus _ hconfigured
  cases hconfigured

section Configuring

variable {b : Board} {env : Env} {s : State} {seq : UInt16}

theorem configPwm_served {pin duty : UInt8} {frequency : UInt32}
    (hok : Accepts (execute b env s seq (.configPwm pin frequency duty))) :
    serves b (execute b env s seq (.configPwm pin frequency duty)).1 .pwm pin = true := by
  rw [execute, configPwm] at hok ⊢
  obtain ⟨hallowed, hok⟩ := accepts_guard.mp hok
  obtain ⟨hvalid, -⟩ := accepts_guard.mp hok
  rw [if_neg hallowed, if_neg hvalid]
  simpa [serves] using hvalid

theorem configAnalog_served {pin samples : UInt8}
    (hok : Accepts (execute b env s seq (.configAnalog pin samples))) :
    serves b (execute b env s seq (.configAnalog pin samples)).1 .analog pin = true := by
  rw [execute, configAnalog] at hok ⊢
  obtain ⟨hvalid, -⟩ := accepts_guard.mp hok
  rw [if_neg hvalid]
  simpa [serves] using hvalid

theorem configCounter_served {id pin edge : UInt8}
    (hok : Accepts (execute b env s seq (.configCounter id pin edge))) :
    serves b (execute b env s seq (.configCounter id pin edge)).1 .counter id = true := by
  by_cases hguard : (decide (id ≥ kMaxCounters) || !isValidDigitalPin b pin) = true
  · rw [execute, configCounter, configureCounter, if_pos hguard] at hok
    exact absurd hok not_accepts_refuse
  · rw [not_refused_slot, Bool.and_eq_true, decide_eq_true_iff] at hguard
    rw [execute, configCounter_accepted b s seq edge hguard.1 hguard.2]
    simp [serves, hguard.1]

theorem configEncoder_served {id pinA pinB mode : UInt8}
    (hok : Accepts (execute b env s seq (.configEncoder id pinA pinB mode))) :
    serves b (execute b env s seq (.configEncoder id pinA pinB mode)).1 .encoder id = true := by
  by_cases hguard : (decide (id ≥ kMaxEncoders) || !isValidDigitalPin b pinA ||
      !isValidDigitalPin b pinB) = true
  · rw [execute, configEncoder, configureEncoder, if_pos hguard] at hok
    exact absurd hok not_accepts_refuse
  · rw [Bool.or_eq_true, not_or, not_refused_slot, Bool.and_eq_true, decide_eq_true_iff] at hguard
    obtain ⟨⟨hid, hA⟩, hB⟩ := hguard
    rw [execute, configEncoder_accepted b env s seq mode hid hA (by simpa using hB)]
    simp [serves, hid]

theorem configI2cBus_served {bus : UInt8} {frequency : UInt32}
    (hok : Accepts (execute b env s seq (.configI2cBus bus frequency))) :
    serves b (execute b env s seq (.configI2cBus bus frequency)).1 .bus bus = true := by
  rw [execute, configI2cBus] at hok ⊢
  obtain ⟨hguard, -⟩ := accepts_guard.mp hok
  rw [if_neg hguard]
  rw [not_refused_slot, Bool.and_eq_true, decide_eq_true_iff] at hguard
  simp [serves, hguard.1, hguard.2]

theorem configDac_served {id bus address channels resolution : UInt8} (hw : Wired b s)
    (hok : Accepts (execute b env s seq (.configDac id bus address channels resolution))) :
    serves b (execute b env s seq (.configDac id bus address channels resolution)).1 .dac id =
        true ∧
      (execute b env s seq (.configDac id bus address channels resolution)).1.dacs id =
        { active := true, bus := bus, address := address, channels := channels
          resolutionBits := resolution } := by
  rw [execute, configDac] at hok ⊢
  obtain ⟨hguard, -⟩ := accepts_guard.mp hok
  rw [if_neg hguard]
  simp only [Bool.or_eq_true, decide_eq_true_eq, Bool.not_eq_true', not_or, ge_iff_le,
    UInt8.not_le, Bool.not_eq_false] at hguard
  obtain ⟨⟨⟨⟨⟨hid, hbus⟩, hconfigured⟩, -⟩, -⟩, -⟩ := hguard
  exact ⟨by simp [serves, hid, hconfigured, hw bus hbus hconfigured], setAt_self _ _ _⟩

/-- An accepted request configures its resource. -/
theorem configures_serves {r : Request} {kind : Kind} {i : UInt8}
    (hr : configures r = some (kind, i)) (hw : Wired b s)
    (hok : Accepts (execute b env s seq r)) :
    serves b (execute b env s seq r).1 kind i = true := by
  cases r with
  | configDigitalInput pin pull =>
    obtain ⟨rfl, rfl⟩ := Prod.mk.inj (Option.some.inj hr)
    rw [execute, configDigitalInput] at hok
    simpa [serves] using (accepts_guard.mp hok).1
  | configDigitalOutput pin initial =>
    obtain ⟨rfl, rfl⟩ := Prod.mk.inj (Option.some.inj hr)
    rw [execute, configDigitalOutput] at hok
    simpa [serves] using (accepts_guard.mp (accepts_guard.mp hok).2).1
  | configPwm pin frequency duty =>
    obtain ⟨rfl, rfl⟩ := Prod.mk.inj (Option.some.inj hr)
    exact configPwm_served hok
  | configAnalog pin samples =>
    obtain ⟨rfl, rfl⟩ := Prod.mk.inj (Option.some.inj hr)
    exact configAnalog_served hok
  | configCounter id pin edge =>
    obtain ⟨rfl, rfl⟩ := Prod.mk.inj (Option.some.inj hr)
    exact configCounter_served hok
  | configEncoder id pinA pinB mode =>
    obtain ⟨rfl, rfl⟩ := Prod.mk.inj (Option.some.inj hr)
    exact configEncoder_served hok
  | configI2cBus bus frequency =>
    obtain ⟨rfl, rfl⟩ := Prod.mk.inj (Option.some.inj hr)
    exact configI2cBus_served hok
  | configDac id bus address channels resolution =>
    obtain ⟨rfl, rfl⟩ := Prod.mk.inj (Option.some.inj hr)
    exact (configDac_served hw hok).1
  | _ => cases hr

end Configuring

/-! ### What keeps a resource configured -/

theorem setAt_all {ε : Type} {P : ε → Prop} {table : UInt8 → ε} {value : ε} {i j : UInt8}
    (hvalue : P value) (h : P (table j)) : P (setAt table i value j) := by
  by_cases hj : j = i
  · rw [hj, setAt_self]
    exact hvalue
  · rw [setAt_of_ne hj]
    exact h

/-- What is configured in the first state is configured in the second. -/
structure Keeps (s s' : State) : Prop where
  pwm : ∀ i, s.pwmConfigured i = true → s'.pwmConfigured i = true
  analog : ∀ i, s.analogConfigured i = true → s'.analogConfigured i = true
  counter : ∀ i, (s.counters i).active = true → (s'.counters i).active = true
  encoder : ∀ i, (s.encoders i).active = true → (s'.encoders i).active = true
  bus : ∀ i, s.i2cConfigured i = true → s'.i2cConfigured i = true

/-- The configuration of a DAC, which is all of its slot but the last value. -/
structure SameDac (slot slot' : DacSlot) : Prop where
  active : slot'.active = slot.active
  bus : slot'.bus = slot.bus
  address : slot'.address = slot.address
  channels : slot'.channels = slot.channels
  resolutionBits : slot'.resolutionBits = slot.resolutionBits

theorem SameDac.refl (slot : DacSlot) : SameDac slot slot := ⟨rfl, rfl, rfl, rfl, rfl⟩

theorem Keeps.refl (s : State) : Keeps s s :=
  ⟨fun _ h => h, fun _ h => h, fun _ h => h, fun _ h => h, fun _ h => h⟩

theorem Keeps.serves {b : Board} {s s' : State} (h : Keeps s s')
    {kind : Kind} {i : UInt8} (hdac : kind = .dac → SameDac (s.dacs i) (s'.dacs i))
    (hs : serves b s kind i = true) : serves b s' kind i = true := by
  cases kind with
  | pin => exact hs
  | pwm =>
    obtain ⟨hvalid, hconfigured⟩ := Bool.and_eq_true_iff.mp hs
    exact Bool.and_eq_true_iff.mpr ⟨hvalid, h.pwm i hconfigured⟩
  | analog =>
    obtain ⟨hvalid, hconfigured⟩ := Bool.and_eq_true_iff.mp hs
    exact Bool.and_eq_true_iff.mpr ⟨hvalid, h.analog i hconfigured⟩
  | counter =>
    obtain ⟨hvalid, hactive⟩ := Bool.and_eq_true_iff.mp hs
    exact Bool.and_eq_true_iff.mpr ⟨hvalid, h.counter i hactive⟩
  | encoder =>
    obtain ⟨hvalid, hactive⟩ := Bool.and_eq_true_iff.mp hs
    exact Bool.and_eq_true_iff.mpr ⟨hvalid, h.encoder i hactive⟩
  | bus =>
    simp only [ServedRequests.serves, Bool.and_eq_true] at hs ⊢
    exact ⟨⟨hs.1.1, h.bus i hs.1.2⟩, hs.2⟩
  | dac =>
    have hsame := hdac rfl
    simp only [ServedRequests.serves, Bool.and_eq_true] at hs ⊢
    rw [hsame.active, hsame.bus]
    exact ⟨hs.1, h.bus _ hs.2⟩

theorem undisturbed_keeps {s s' : State} (h : Undisturbed s s') : Keeps s s' where
  pwm := by rw [h.pwmConfigured]; exact fun _ hi => hi
  analog := by rw [h.analogConfigured]; exact fun _ hi => hi
  counter := by rw [h.counters]; exact fun _ hi => hi
  encoder := by rw [h.encoders]; exact fun _ hi => hi
  bus := by rw [h.i2cConfigured]; exact fun _ hi => hi

/-- An interrupt writes to an active slot. -/
theorem counterTick_keeps (env : Env) (s : State) (id : UInt8) :
    Keeps s (counterTick env s id) := by
  unfold counterTick
  dsimp only
  by_cases hskip : (id ≥ kMaxCounters || !(s.counters id).active) = true
  · rw [if_pos hskip]
    exact .refl s
  · rw [if_neg hskip]
    have hactive := (Bool.and_eq_true_iff.mp (not_refused_slot.mp hskip)).2
    exact { Keeps.refl s with
      counter := fun i hi => setAt_all (P := fun slot : CounterSlot => slot.active = true)
        hactive hi }

theorem encoderTick_keeps (env : Env) (s : State) (id : UInt8) :
    Keeps s (encoderTick env s id) := by
  unfold encoderTick
  dsimp only
  by_cases hskip : (id ≥ kMaxEncoders || !(s.encoders id).active) = true
  · rw [if_pos hskip]
    exact .refl s
  · rw [if_neg hskip]
    have hactive := (Bool.and_eq_true_iff.mp (not_refused_slot.mp hskip)).2
    exact { Keeps.refl s with
      encoder := fun i hi => setAt_all (P := fun slot : EncoderSlot => slot.active = true)
        hactive hi }

section Executed

variable {b : Board} {env : Env} {s : State} {seq : UInt16} {r : Request} {out : Outcome}

theorem executed_wired (h : Executed b env s seq r out) (hw : Wired b s) : Wired b out.1 := by
  cases h with
  | resetConfig => exact wired_initial b s.safety
  | @configI2cBus bus _ _ _ hwire =>
    intro i hi
    by_cases hown : i = bus
    · rw [hown]
      exact fun _ => hwire
    · dsimp only
      rw [setAt_of_ne hown]
      exact hw i hi
  | _ => exact hw

theorem executed_keeps (h : Executed b env s seq r out) (hreset : r ≠ .resetConfig)
    (hoff : ∀ pin, r ≠ .pwmDisable pin) : Keeps s out.1 := by
  cases h with
  | resetConfig => exact absurd rfl hreset
  | pwmDisable => exact absurd rfl (hoff _)
  | configPwm => exact { Keeps.refl s with pwm := fun i hi => setAt_all (P := (· = true)) rfl hi }
  | configAnalog =>
    exact { Keeps.refl s with analog := fun i hi => setAt_all (P := (· = true)) rfl hi }
  | configI2cBus =>
    exact { Keeps.refl s with bus := fun i hi => setAt_all (P := (· = true)) rfl hi }
  | configCounter =>
    exact { Keeps.refl s with
      counter := fun i hi => setAt_all (P := fun slot : CounterSlot => slot.active = true) rfl hi }
  | counterReset hactive =>
    exact { Keeps.refl s with
      counter := fun i hi =>
        setAt_all (P := fun slot : CounterSlot => slot.active = true) hactive hi }
  | configEncoder =>
    exact { Keeps.refl s with
      encoder := fun i hi => setAt_all (P := fun slot : EncoderSlot => slot.active = true) rfl hi }
  | encoderReset hactive =>
    exact { Keeps.refl s with
      encoder := fun i hi =>
        setAt_all (P := fun slot : EncoderSlot => slot.active = true) hactive hi }
  | _ => exact ⟨fun _ h => h, fun _ h => h, fun _ h => h, fun _ h => h, fun _ h => h⟩

/-- A PWM pin that is disabled is the only resource lost. -/
theorem pwmDisable_serves {pin : UInt8} (h : Executed b env s seq (.pwmDisable pin) out)
    {kind : Kind} {i : UInt8} (hother : (kind, i) ≠ (.pwm, pin))
    (hs : serves b s kind i = true) : serves b out.1 kind i = true := by
  cases h with
  | pwmDisable hvalid =>
    cases kind with
    | pwm =>
      have hi : i ≠ pin := fun hi => hother (by rw [hi])
      have hkept : serves b { s with pwmConfigured := setAt s.pwmConfigured pin false } .pwm i =
          (isValidPwmPin b i && setAt s.pwmConfigured pin false i) := rfl
      rw [hkept, setAt_of_ne hi]
      exact hs
    | _ => exact hs
  | refused | answered | subscribed =>
    cases kind with
    | _ => exact hs
  | dacFailed _ hw | dacWritten _ _ hw => cases hw

/-- A DAC keeps its configuration until it is configured again. -/
theorem executed_dac (h : Executed b env s seq r out) (hreset : r ≠ .resetConfig) {id : UInt8}
    (hother : ∀ bus address channels resolution,
      r ≠ .configDac id bus address channels resolution) :
    SameDac (s.dacs id) (out.1.dacs id) := by
  cases h with
  | resetConfig => exact absurd rfl hreset
  | @configDac asked bus address channels resolution =>
    have hid : id ≠ asked := fun hid => hother bus address channels resolution (by rw [hid])
    dsimp only
    rw [setAt_of_ne hid]
    exact .refl _
  | @dacWritten _ asked bytes value =>
    by_cases hid : id = asked
    · subst hid
      dsimp only
      rw [setAt_self]
      exact ⟨rfl, rfl, rfl, rfl, rfl⟩
    · dsimp only
      rw [setAt_of_ne hid]
      exact .refl _
  | _ => exact .refl _

end Executed

end ServedRequests
