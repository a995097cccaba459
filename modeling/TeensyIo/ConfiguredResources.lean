import TeensyIo.ServedRequests
import TeensyIo.FailedCalls
import TeensyIo.ConfigurationPlans

/-! # Configured resources

The client refers to its resources by numbers that it keeps under their names; the firmware serves
a number once it is configured. The two sides agree on every resource whose last configuring call
has returned, until the configuration is reset. -/
namespace ConfiguredResources

open WireCommands HostProtocol HostClient HostResources HostOperations HostFrames FirmwareState
open FirmwareUpdate FirmwareRequests FirmwareOutcomes ServedRequests RequestLayouts MachineRuns
open EdgeCallbacks (respond handled firstFree)
open FailedCalls (Known)
open ConfigurationPlans (InByte)

/-! ### The client and the device -/

/-- The number that the client keeps under a name. -/
def number (h : Host) : Kind → String → Option ℤ
  | .pin, name => (h.pins name).physicalPin
  | .pwm, name => (h.pwms name).physicalPin
  | .analog, name => (h.analogs name).physicalPin
  | .counter, name => (h.counters name).id.map Int.ofNat
  | .encoder, name => (h.encoders name).id.map Int.ofNat
  | .bus, name => (h.i2cBuses name).bus
  | .dac, name => (h.dacs name).id.map Int.ofNat

/-- The resource that an operation configures. -/
def configured : Operation → Option (Kind × String)
  | .configureOutput name _ _ | .configureInput name _ _ => some (.pin, name)
  | .pwmConfigure name _ _ _ => some (.pwm, name)
  | .analogConfigure name _ _ => some (.analog, name)
  | .counterAttach name _ _ => some (.counter, name)
  | .encoderAttach name _ _ _ => some (.encoder, name)
  | .i2cConfigure name _ _ => some (.bus, name)
  | .dacAttach name _ _ _ _ => some (.dac, name)
  | _ => none

/-- `live` are the resources whose last configuring call has returned. A reset ends them all, and
`PwmOutput.disable` those on its pin. -/
structure Bench where
  host : Host := {}
  device : State := {}
  live : List (Kind × String) := []

inductive Input where
  | call (op : Operation) (env : Env)
  | update (env : Env)
  | counterTick (env : Env) (id : UInt8)
  | encoderTick (env : Env) (id : UInt8)

namespace Bench

variable (b : Board)

def call (k : Bench) (op : Operation) (env : Env) : Result Unit :=
  runOperation (respond b env k.device) k.host op

/-- The device has handled the command of the call if there was one. -/
def deviceAfter (k : Bench) (op : Operation) (env : Env) : State :=
  let log := (k.call b op env).2.log
  if k.host.log.length < log.length then (handled b env k.device log).1 else k.device

/-- Two names may stand for one pin. -/
def samePwm (k : Bench) (name : String) (r : Kind × String) : Bool :=
  r.1 == .pwm && number k.host .pwm r.2 == number k.host .pwm name

def liveAfter (k : Bench) (op : Operation) (returned : Bool) : List (Kind × String) :=
  match configured op with
  | some r => if returned then r :: k.live else k.live.filter (· ≠ r)
  | none =>
    match op with
    | .resetConfig => []
    | .pwmDisable name => k.live.filter fun r => !k.samePwm name r
    | _ => k.live

def step (k : Bench) : Input → Bench
  | .call op env =>
    { host := (k.call b op env).2
      device := k.deviceAfter b op env
      live := k.liveAfter op (k.call b op env).1.isOk }
  | .update env => { k with device := (update b env k.device).1 }
  | .counterTick env id => { k with device := counterTick env k.device id }
  | .encoderTick env id => { k with device := encoderTick env k.device id }

end Bench

/-! ### What the two sides agree on -/

/-- What the client keeps of a DAC stands in its slot. -/
structure Agrees (dac : DacOutput String) (slot : DacSlot) : Prop where
  address : dac.address = some (slot.address.toNat : ℤ)
  channels : dac.channels = (slot.channels.toNat : ℤ)
  resolutionBits : dac.resolutionBits = (slot.resolutionBits.toNat : ℤ)
  resolution_pos : 1 ≤ slot.resolutionBits.toNat
  resolution_le : slot.resolutionBits.toNat ≤ 16

/-- The resource is served under the number that the client has for it. -/
def Served (b : Board) (h : Host) (s : State) (r : Kind × String) : Prop :=
  ∃ i : UInt8, number h r.1 r.2 = some (i.toNat : ℤ) ∧ serves b s r.1 i = true ∧
    (r.1 = .dac → Agrees (h.dacs r.2) (s.dacs i))

/-- The id of a DAC is the place of its name. -/
def Placed (h : Host) : Prop :=
  ∀ name id, (h.dacs name).id = some id → Known h.dacIds (some id) name

structure Mirrored (b : Board) (k : Bench) : Prop where
  wired : Wired b k.device
  placed : Placed k.host
  served : ∀ r ∈ k.live, Served b k.host k.device r

theorem mirrored_initial (b : Board) : Mirrored b {} where
  wired := wired_initial b {}
  placed := by
    intro name id hid
    cases hid
  served := by
    intro r hr
    cases hr

/-! ### What an operation does to the numbers of the client -/

/-- The numbers of all resources but one, and the records of all DACs but one, are kept. -/
structure Others (r : Option (Kind × String)) (h h' : Host) : Prop where
  number : ∀ kind name, r ≠ some (kind, name) → number h' kind name = number h kind name
  dacs : ∀ name, r ≠ some (.dac, name) → h'.dacs name = h.dacs name

theorem Others.of_same {r : Option (Kind × String)} {h h₁ h' : Host} (hsame : SameFields h₁ h')
    (h₁others : Others r h h₁) : Others r h h' := by
  obtain ⟨log, rfl⟩ := hsame
  constructor
  · intro kind name hr
    rw [← h₁others.number kind name hr]
    cases kind <;> rfl
  · exact h₁others.dacs

theorem Others.refl (r : Option (Kind × String)) (h : Host) : Others r h h :=
  ⟨fun _ _ _ => rfl, fun _ _ => rfl⟩

theorem update_other {β γ : Type} {fields : String → β} {asked name : String} {v : β}
    (get : β → γ) (hname : asked ≠ name) :
    get (Function.update fields asked v name) = get (fields name) := by
  rw [Function.update_of_ne hname.symm]

section Host

variable (h : Host)

/-- An assignment to one resource. -/
theorem others_assigned (op : Operation) : Others (configured op) h (assigned h op) := by
  have hne {kind : Kind} {asked name : String}
      (hr : some (kind, asked) ≠ some (kind, name)) : asked ≠ name := fun hname => hr (hname ▸ rfl)
  cases op with
  | configureOutput asked pin initial | configureInput asked pin pull =>
    refine ⟨fun kind name hr => ?_, fun _ _ => rfl⟩
    cases kind with
    | pin => exact update_other Pin.physicalPin (hne hr)
    | _ => rfl
  | pwmConfigure asked pin frequency duty =>
    refine ⟨fun kind name hr => ?_, fun _ _ => rfl⟩
    cases kind with
    | pwm => exact update_other PwmOutput.physicalPin (hne hr)
    | _ => rfl
  | analogConfigure asked pin samples =>
    refine ⟨fun kind name hr => ?_, fun _ _ => rfl⟩
    cases kind with
    | analog => exact update_other AnalogInput.physicalPin (hne hr)
    | _ => rfl
  | counterAttach asked pin edge =>
    rw [assigned]
    split
    · exact .refl _ h
    · refine ⟨fun kind name hr => ?_, fun _ _ => rfl⟩
      cases kind with
      | counter => exact update_other (fun c : PulseCounter => c.id.map Int.ofNat) (hne hr)
      | _ => rfl
  | encoderAttach asked pinA pinB mode =>
    rw [assigned]
    split
    · exact .refl _ h
    · refine ⟨fun kind name hr => ?_, fun _ _ => rfl⟩
      cases kind with
      | encoder => exact update_other (fun e : QuadratureEncoder => e.id.map Int.ofNat) (hne hr)
      | _ => rfl
  | i2cConfigure asked bus frequency =>
    rw [assigned]
    split
    · exact .refl _ h
    · refine ⟨fun kind name hr => ?_, fun _ _ => rfl⟩
      cases kind with
      | bus => exact update_other I2cBus.bus (hne hr)
      | _ => rfl
  | dacAttach asked bus address channels bits =>
    rw [assigned]
    split
    · exact .refl _ h
    · refine ⟨fun kind name hr => ?_, fun name hr => update_other id (hne hr)⟩
      cases kind with
      | dac => exact update_other (fun d : DacOutput String => d.id.map Int.ofNat) (hne hr)
      | _ => rfl
  | onEdge asked edge callback =>
    rw [assigned]
    split
    · exact .refl _ h
    · refine ⟨fun kind name _ => ?_, fun _ _ => rfl⟩
      cases kind <;> rfl
  | _ => exact .refl _ h

theorem others_answered {result : Result Unit} (hanswered : Answered h result) :
    Others none h result.2 := by
  rcases hanswered with hsame | ⟨-, ⟨asked, counter, log, hafter, hid⟩ |
    ⟨asked, encoder, log, hafter, hid⟩⟩
  · exact .of_same hsame (.refl _ h)
  · rw [hafter]
    refine ⟨fun kind name _ => ?_, fun _ _ => rfl⟩
    cases kind with
    | counter => exact congrArg (Option.map Int.ofNat) (update_get PulseCounter.id hid name)
    | _ => rfl
  · rw [hafter]
    refine ⟨fun kind name _ => ?_, fun _ _ => rfl⟩
    cases kind with
    | encoder => exact congrArg (Option.map Int.ofNat) (update_get QuadratureEncoder.id hid name)
    | _ => rfl

/-- An operation changes the number of the resource that it configures, and no other. -/
theorem runOperation_others (respond : List Command → Except PyError (List UInt8))
    (op : Operation) : Others (configured op) h (runOperation respond h op).2 := by
  by_cases hkeeps : keepsAnswer op = true
  · have hnone : configured op = none := by
      cases op with
      | counterDelta | counterFrequency | counterReset | encoderDelta | encoderReset => rfl
      | _ => cases hkeeps
    rw [hnone]
    exact others_answered h (runOperation_answered respond h hkeeps)
  · rw [Bool.not_eq_true] at hkeeps
    exact .of_same (runOperation_same respond h hkeeps) (others_assigned h op)

end Host

/-! ### The places of the DACs -/

theorem known_idFor {names : List String} {id : ℕ} {name : String} (asked : String)
    (h : Known names (some id) name) : Known (idFor names asked).2 (some id) name := by
  refine ⟨CounterDeltas.mem_idFor (Or.inl h.1), ?_⟩
  rw [CounterDeltas.idxOf_idFor h.1]
  exact h.2

theorem known_asked (names : List String) (name : String) :
    Known (idFor names name).2 (some (idFor names name).1) name :=
  ⟨CounterDeltas.mem_idFor (Or.inr rfl), congrArg some (CounterDeltas.idFor_eq names name)⟩

/-- Two DACs have two places. -/
theorem known_inj {names : List String} {id : ℕ} {name other : String}
    (h : Known names (some id) name) (h' : Known names (some id) other) : name = other := by
  have hplaces : names.idxOf name = names.idxOf other := Option.some.inj (h.2.symm.trans h'.2)
  exact (List.idxOf_inj h.1).mp hplaces

theorem placed_assigned {h : Host} (hplaced : Placed h) (op : Operation) :
    Placed (assigned h op) := by
  cases op with
  | dacAttach asked bus address channels bits =>
    rw [assigned]
    split
    · exact hplaced
    · intro name id hid
      by_cases hname : name = asked
      · subst hname
        have hown : some (idFor h.dacIds name).1 = some id := by
          rw [← hid]
          dsimp only
          rw [Function.update_self]
          split <;> rfl
        rw [← hown]
        exact known_asked h.dacIds name
      · dsimp only at hid
        rw [Function.update_of_ne hname] at hid
        exact known_idFor _ (hplaced name id hid)
  | counterAttach _ _ _ | encoderAttach _ _ _ _ | i2cConfigure _ _ _ | onEdge _ _ _ =>
    rw [assigned]
    split
    · exact hplaced
    · exact hplaced
  | _ => exact hplaced

theorem placed_same {h h' : Host} (hsame : SameFields h h') (hplaced : Placed h) : Placed h' := by
  obtain ⟨log, rfl⟩ := hsame
  exact hplaced

theorem runOperation_placed {h : Host} (hplaced : Placed h)
    (respond : List Command → Except PyError (List UInt8)) (op : Operation) :
    Placed (runOperation respond h op).2 := by
  by_cases hkeeps : keepsAnswer op = true
  · rcases runOperation_answered respond h hkeeps with
      hsame | ⟨-, ⟨asked, counter, log, hafter, -⟩ | ⟨asked, encoder, log, hafter, -⟩⟩
    · exact placed_same hsame hplaced
    · rw [hafter]
      exact hplaced
    · rw [hafter]
      exact hplaced
  · rw [Bool.not_eq_true] at hkeeps
    exact placed_same (runOperation_same respond h hkeeps) (placed_assigned hplaced op)

/-! ### What a call makes the device do -/

section Calls

variable {b : Board} {k : Bench} {op : Operation} {env : Env}

/-- The sequence number of the next command. -/
def nextSeq (h : Host) : UInt16 := UInt16.ofNat (h.log.length + 1)

theorem deviceAfter_laid {id : CommandId} {bytes : List UInt8} {r : Request}
    (hlog : (k.call b op env).2.log = k.host.log ++ [(id, bytes)])
    (hsize : bytes.length < maxPayloadSize) (hl : Laid r id bytes) :
    k.deviceAfter b op env = (execute b env k.device (nextSeq k.host) r).1 := by
  rw [Bench.deviceAfter, hlog, if_pos (by simp),
    EdgeCallbacks.handled_laid b env k.device k.host.log hsize hl, List.length_append]
  rfl

/-- A call leaves the device alone, or has it execute what the operation means. -/
theorem deviceAfter_cases (b : Board) (k : Bench) (op : Operation) (env : Env) :
    k.deviceAfter b op env = k.device ∨
      ∃ r, Meant k.host op r ∧
        k.deviceAfter b op env = (execute b env k.device (nextSeq k.host) r).1 := by
  rcases runOperation_sends (respond b env k.device) k.host op with
    ⟨-, hlog⟩ | ⟨id, bytes, r, hlog, hsize, hl, hm⟩
  · have hlog : (k.call b op env).2.log = k.host.log := hlog
    left
    rw [Bench.deviceAfter, hlog, if_neg (lt_irrefl _)]
  · exact Or.inr ⟨r, hm, deviceAfter_laid hlog hsize hl⟩

theorem meant_reset {h : Host} (hm : Meant h op .resetConfig) : op = .resetConfig := by
  cases hm
  rfl

theorem meant_pwmDisable {h : Host} {pin : UInt8} (hm : Meant h op (.pwmDisable pin)) :
    ∃ name, op = .pwmDisable name ∧ number h .pwm name = some (pin.toNat : ℤ) := by
  cases hm with
  | pwmDisable hpin => exact ⟨_, rfl, hpin⟩

end Calls

/-! ### Configuring calls that return -/

section Returned

variable {respond : List Command → Except PyError (List UInt8)} {h h' : Host} {op : Operation}

theorem sent_answered {id : CommandId} {payload : Except PyError (List UInt8)}
    (hok : ((command respond h' id payload).next fun _ h => ((.ok (), h) : Result Unit)).1 =
      .ok ()) :
    ∃ reply, respond ((command respond h' id payload).next
      fun _ h => ((.ok (), h) : Result Unit)).2.log = .ok reply := by
  obtain ⟨reply, hreply, hnext⟩ := next_accepted hok
  obtain ⟨bytes, -, -, hanswer, hcommand⟩ := command_accepted hreply
  rw [hnext, hcommand]
  exact ⟨reply, hanswer⟩

theorem dacAttach_checked {name bus : String} {address channels bits : ℤ}
    (hok : (dacAttach respond h name bus address channels bits).1 = .ok ()) :
    (h.i2cBuses bus).bus ≠ none ∧ ¬ (channels < 1 ∨ 255 < channels) ∧
      ¬ (bits < 1 ∨ 16 < bits) ∧ u7Address address = .ok address := by
  rw [dacAttach] at hok
  cases hbus : (h.i2cBuses bus).bus with
  | none =>
    rw [hbus] at hok
    cases hok
  | some busNumber =>
    rw [hbus] at hok
    dsimp only at hok
    by_cases hchannels : channels < 1 ∨ 255 < channels
    · rw [if_pos hchannels] at hok
      cases hok
    · by_cases hbits : bits < 1 ∨ 16 < bits
      · rw [if_neg hchannels, if_pos hbits] at hok
        cases hok
      · rw [if_neg hchannels, if_neg hbits] at hok
        cases haddress : u7Address address with
        | error error =>
          rw [haddress] at hok
          cases hok
        | ok v =>
          obtain rfl := u7Address_ok haddress
          exact ⟨Option.some_ne_none _, hchannels, hbits, rfl⟩

/-- The response to a configuring call that returns was not a refusal. -/
theorem configured_answered (hc : (configured op).isSome = true)
    (hok : (runOperation respond h op).1 = .ok ()) :
    ∃ reply, respond (runOperation respond h op).2.log = .ok reply := by
  cases op with
  | configureOutput name pin initial => exact sent_answered (EdgeCallbacks.outcome_ok hok)
  | pwmConfigure name pin frequency duty => exact sent_answered (EdgeCallbacks.outcome_ok hok)
  | configureInput name pin pull =>
    have hok := EdgeCallbacks.outcome_ok hok
    change ∃ reply, respond (configureInput respond h name pin pull).2.log = .ok reply
    unfold configureInput at hok ⊢
    cases hpull : pullCode pull with
    | none =>
      rw [hpull] at hok
      cases hok
    | some code =>
      rw [hpull] at hok
      exact sent_answered hok
  | analogConfigure name pin samples =>
    have hok := EdgeCallbacks.outcome_ok hok
    change ∃ reply, respond (analogConfigure respond h name pin samples).2.log = .ok reply
    unfold analogConfigure at hok ⊢
    by_cases hsamples : samples < 1 ∨ 255 < samples
    · rw [if_pos hsamples] at hok
      cases hok
    · rw [if_neg hsamples] at hok ⊢
      exact sent_answered hok
  | counterAttach name pin edge =>
    obtain ⟨i, pin', code, reply, -, hanswer, hhost⟩ :=
      CounterDeltas.counterAttach_accepted (EdgeCallbacks.outcome_ok hok)
    change ∃ reply, respond (counterAttach respond h name pin edge).2.log = .ok reply
    rw [hhost]
    exact ⟨reply, hanswer⟩
  | encoderAttach name pinA pinB mode =>
    have hok := EdgeCallbacks.outcome_ok hok
    change ∃ reply, respond (encoderAttach respond h name pinA pinB mode).2.log = .ok reply
    unfold encoderAttach at hok ⊢
    cases hmode : modeCode mode with
    | none =>
      rw [hmode] at hok
      cases hok
    | some code =>
      rw [hmode] at hok
      exact sent_answered hok
  | i2cConfigure name bus frequency =>
    have hok := EdgeCallbacks.outcome_ok hok
    change ∃ reply, respond (i2cConfigure respond h name bus frequency).2.log = .ok reply
    unfold i2cConfigure at hok ⊢
    by_cases hbus : bus < 0 ∨ 255 < bus
    · rw [if_pos hbus] at hok
      cases hok
    · by_cases hfrequency : frequency ≤ 0
      · rw [if_neg hbus, if_pos hfrequency] at hok
        cases hok
      · rw [if_neg hbus, if_neg hfrequency] at hok ⊢
        exact sent_answered hok
  | dacAttach name bus address channels bits =>
    have hok := EdgeCallbacks.outcome_ok hok
    change ∃ reply, respond (dacAttach respond h name bus address channels bits).2.log = .ok reply
    obtain ⟨hbus, hchannels, hbits, haddress⟩ := dacAttach_checked hok
    obtain ⟨busNumber, hbus⟩ := Option.ne_none_iff_exists'.mp hbus
    rw [dacAttach, hbus] at hok ⊢
    dsimp only at hok ⊢
    rw [if_neg hchannels, if_neg hbits, haddress] at hok ⊢
    exact sent_answered hok
  | _ => cases hc

/-- The client keeps the number that stands in the request, and of a DAC all that stands in it. -/
theorem configured_number {r : Request} {kind : Kind} {name : String}
    (hc : configured op = some (kind, name)) (hm : Meant h op r)
    (hok : (runOperation respond h op).1 = .ok ()) :
    ∃ i, configures r = some (kind, i) ∧
      number (assigned h op) kind name = some (i.toNat : ℤ) ∧
      ∀ bus address channels resolution, r = .configDac i bus address channels resolution →
        Agrees ((assigned h op).dacs name)
          { active := true, bus := bus, address := address, channels := channels
            resolutionBits := resolution } := by
  cases hm with
  | configureOutput hpin hinitial =>
    obtain ⟨rfl, rfl⟩ := Prod.mk.inj (Option.some.inj hc)
    refine ⟨_, rfl, by simp [assigned, number, hpin], ?_⟩
    intro _ _ _ _ hdac
    cases hdac
  | configureInput hpin hpull =>
    obtain ⟨rfl, rfl⟩ := Prod.mk.inj (Option.some.inj hc)
    refine ⟨_, rfl, by simp [assigned, number, hpin], ?_⟩
    intro _ _ _ _ hdac
    cases hdac
  | pwmConfigure hpin hfrequency hduty =>
    obtain ⟨rfl, rfl⟩ := Prod.mk.inj (Option.some.inj hc)
    refine ⟨_, rfl, by simp [assigned, number, hpin], ?_⟩
    intro _ _ _ _ hdac
    cases hdac
  | analogConfigure hpin hsamples =>
    obtain ⟨rfl, rfl⟩ := Prod.mk.inj (Option.some.inj hc)
    refine ⟨_, rfl, by simp [assigned, number, hpin], ?_⟩
    intro _ _ _ _ hdac
    cases hdac
  | counterAttach hid hpin hcode =>
    obtain ⟨rfl, rfl⟩ := Prod.mk.inj (Option.some.inj hc)
    refine ⟨_, rfl, by simp [assigned, number, hpin, hid], ?_⟩
    intro _ _ _ _ hdac
    cases hdac
  | encoderAttach hid hA hB hmode =>
    obtain ⟨rfl, rfl⟩ := Prod.mk.inj (Option.some.inj hc)
    refine ⟨_, rfl, by simp [assigned, number, hmode, hid], ?_⟩
    intro _ _ _ _ hdac
    cases hdac
  | @i2cConfigure _ busNumber hertz bus frequency hbus hfrequency =>
    obtain ⟨rfl, rfl⟩ := Prod.mk.inj (Option.some.inj hc)
    have hpositive : ¬ hertz ≤ 0 := by
      intro hle
      have hraised := EdgeCallbacks.outcome_ok hok
      rw [i2cConfigure, if_pos hle] at hraised
      split at hraised <;> cases hraised
    have hlt : bus.toNat < 256 := bus.toNat_lt
    refine ⟨bus, rfl, ?_, ?_⟩
    · rw [assigned, if_neg (by omega), number]
      simp [hbus]
    · intro _ _ _ _ hdac
      cases hdac
  | @dacAttach asked busName target count bits id bus address channels resolution hid hbus haddress
      hchannels hresolution =>
    obtain ⟨rfl, rfl⟩ := Prod.mk.inj (Option.some.inj hc)
    obtain ⟨hknown, hcount, hbits, hu7⟩ := dacAttach_checked (EdgeCallbacks.outcome_ok hok)
    have hassigned : assigned h (.dacAttach asked busName target count bits) =
        { h with
          dacIds := (idFor h.dacIds asked).2
          dacs := Function.update h.dacs asked
            { id := some (idFor h.dacIds asked).1, busName := some busName
              address := some target, channels := count, resolutionBits := bits } } := by
      rw [assigned, if_neg (by simp only [not_or]; exact ⟨hknown, by tauto⟩), hu7]
    rw [hassigned]
    refine ⟨id, rfl, by simp [number, hid], ?_⟩
    intro bus' address' channels' resolution' heq
    obtain ⟨-, rfl, rfl, rfl, rfl⟩ := Request.configDac.inj heq
    constructor
    · simp [haddress]
    · simp [hchannels]
    · simp [hresolution]
    · dsimp only
      omega
    · dsimp only
      omega
  | _ => cases hc

end Returned

/-! ### Runs -/

section Runs

variable {b : Board} {k : Bench} {op : Operation} {env : Env} {r : Kind × String}

/-- What is live after a call was configured by it, or is left alone by it. -/
theorem mem_liveAfter {returned : Bool} (hr : r ∈ k.liveAfter op returned) :
    configured op = some r ∧ returned = true ∨
      r ∈ k.live ∧ configured op ≠ some r ∧ op ≠ .resetConfig ∧
        ∀ name, op = .pwmDisable name → k.samePwm name r = false := by
  unfold Bench.liveAfter at hr
  cases hc : configured op with
  | some asked =>
    have hreset : op ≠ .resetConfig := by rintro rfl; cases hc
    have hdisable (name : String) : op ≠ .pwmDisable name := by rintro rfl; cases hc
    rw [hc] at hr
    by_cases hown : r = asked
    · subst hown
      cases returned with
      | true => exact Or.inl ⟨rfl, rfl⟩
      | false => simp at hr
    · have hlive : r ∈ k.live := by
        cases returned with
        | true => exact (List.mem_cons.mp hr).resolve_left hown
        | false => exact List.mem_of_mem_filter hr
      refine Or.inr ⟨hlive, ?_, hreset, fun name hop => absurd hop (hdisable name)⟩
      intro heq
      exact hown (Option.some.inj heq).symm
  | none =>
    rw [hc] at hr
    right
    cases op with
    | resetConfig => cases hr
    | pwmDisable asked =>
      obtain ⟨hlive, hkept⟩ := List.mem_filter.mp hr
      refine ⟨hlive, nofun, nofun, ?_⟩
      intro name hop
      obtain rfl := Operation.pwmDisable.inj hop
      simpa using hkept
    | _ => exact ⟨hr, nofun, nofun, nofun⟩

/-- No other name has the place of a DAC that is attached. -/
theorem attached_alone (hplaced : Placed k.host) {name : String} {i : UInt8}
    (hnumber : number k.host .dac name = some (i.toNat : ℤ))
    {bus address channels resolution : UInt8}
    (hm : Meant k.host op (.configDac i bus address channels resolution)) :
    configured op = some (.dac, name) := by
  have hid : (k.host.dacs name).id = some i.toNat := by
    obtain ⟨id, hid, heq⟩ := Option.map_eq_some_iff.mp hnumber
    rw [hid, Int.ofNat.inj heq]
  cases hm with
  | @dacAttach asked busName target count bits _ _ _ _ _ hasked =>
    have hknown := known_idFor asked (hplaced name i.toNat hid)
    have hown := known_asked k.host.dacIds asked
    rw [← hasked] at hown
    rw [known_inj hknown hown]
    rfl

/-- A call leaves the resources alone that it does not configure or end. -/
theorem call_served (h : Mirrored b k) (hr : r ∈ k.live) (hother : configured op ≠ some r)
    (hreset : op ≠ .resetConfig)
    (hdisable : ∀ name, op = .pwmDisable name → k.samePwm name r = false) :
    Served b (k.call b op env).2 (k.deviceAfter b op env) r := by
  obtain ⟨i, hnumber, hserves, hagrees⟩ := h.served r hr
  obtain ⟨kind, name⟩ := r
  have hothers := runOperation_others k.host (respond b env k.device) op
  have hkept : serves b (k.deviceAfter b op env) kind i = true ∧
      (kind = .dac → SameDac (k.device.dacs i) ((k.deviceAfter b op env).dacs i)) := by
    rcases deviceAfter_cases b k op env with hsame | ⟨request, hm, hafter⟩
    · rw [hsame]
      exact ⟨hserves, fun _ => .refl _⟩
    · rw [hafter]
      have hexecuted := execute_spec b env k.device (nextSeq k.host) request
      have hkeeping : request ≠ .resetConfig := by
        rintro rfl
        exact hreset (meant_reset hm)
      have hdac (hkind : kind = .dac) : SameDac (k.device.dacs i)
          ((execute b env k.device (nextSeq k.host) request).1.dacs i) := by
        apply executed_dac hexecuted hkeeping
        rintro bus address channels resolution rfl
        subst hkind
        exact hother (attached_alone h.placed hnumber hm)
      refine ⟨?_, hdac⟩
      by_cases hoff : ∃ pin, request = .pwmDisable pin
      · obtain ⟨pin, rfl⟩ := hoff
        obtain ⟨asked, hop, hasked⟩ := meant_pwmDisable hm
        apply pwmDisable_serves hexecuted _ hserves
        intro heq
        obtain ⟨rfl, rfl⟩ := Prod.mk.inj heq
        have hsame := hdisable asked hop
        rw [Bench.samePwm, hasked, hnumber] at hsame
        simp at hsame
      · apply (executed_keeps hexecuted hkeeping ?_).serves hdac hserves
        intro pin hpin
        exact hoff ⟨pin, hpin⟩
  refine ⟨i, (hothers.number kind name hother).trans hnumber, hkept.1, ?_⟩
  rintro rfl
  have hagreed := hagrees rfl
  have hsame := hkept.2 rfl
  dsimp only at hagreed ⊢
  have hrecord : (k.call b op env).2.dacs name = k.host.dacs name := hothers.dacs name hother
  rw [hrecord]
  constructor
  · rw [hsame.address]
    exact hagreed.address
  · rw [hsame.channels]
    exact hagreed.channels
  · rw [hsame.resolutionBits]
    exact hagreed.resolutionBits
  · rw [hsame.resolutionBits]
    exact hagreed.resolution_pos
  · rw [hsame.resolutionBits]
    exact hagreed.resolution_le

/-- A configuring call that returns has configured its resource on both sides. -/
theorem configured_served (h : Mirrored b k) (hc : configured op = some r)
    (hok : (k.call b op env).1 = .ok ()) :
    Served b (k.call b op env).2 (k.deviceAfter b op env) r := by
  obtain ⟨kind, name⟩ := r
  have hconfigures : (configured op).isSome = true := by
    rw [hc]
    rfl
  obtain ⟨reply, hanswer⟩ := configured_answered hconfigures hok
  rcases runOperation_sends (respond b env k.device) k.host op with
    ⟨⟨error, hraised⟩, -⟩ | ⟨id, bytes, request, hlog, hsize, hl, hm⟩
  · rw [Bench.call, hraised] at hok
    cases hok
  · rw [hlog, respond_laid hsize hl, List.length_append] at hanswer
    have haccepts : Accepts (execute b env k.device (nextSeq k.host) request) := ⟨reply, hanswer⟩
    obtain ⟨i, hrequest, hassigned, hdac⟩ := configured_number hc hm hok
    have hkeeps : keepsAnswer op = false := by
      cases op with
      | counterDelta | counterFrequency | counterReset | encoderDelta | encoderReset => cases hc
      | _ => rfl
    obtain ⟨log, hafter⟩ := runOperation_same (respond b env k.device) k.host hkeeps
    have hhost : (k.call b op env).2 = { assigned k.host op with log := log } := hafter
    rw [deviceAfter_laid hlog hsize hl, hhost]
    refine ⟨i, ?_, configures_serves hrequest h.wired haccepts, ?_⟩
    · rw [← hassigned]
      cases kind <;> rfl
    · rintro rfl
      cases request with
      | configDac id bus address channels resolution =>
        obtain rfl : id = i := (Prod.mk.inj (Option.some.inj hrequest)).2
        rw [(configDac_served h.wired haccepts).2]
        exact hdac bus address channels resolution rfl
      | _ => cases hrequest

theorem call_mirrored (h : Mirrored b k) (op : Operation) (env : Env) :
    Mirrored b (k.step b (.call op env)) where
  wired := by
    change Wired b (k.deviceAfter b op env)
    rcases deviceAfter_cases b k op env with hsame | ⟨request, -, hafter⟩
    · rw [hsame]
      exact h.wired
    · rw [hafter]
      exact executed_wired (execute_spec b env k.device (nextSeq k.host) request) h.wired
  placed := runOperation_placed h.placed _ op
  served := by
    intro r hr
    rcases mem_liveAfter hr with ⟨hc, hreturned⟩ | ⟨hlive, hother, hreset, hdisable⟩
    · apply configured_served h hc
      cases hresult : (k.call b op env).1 with
      | error error =>
        rw [hresult] at hreturned
        cases hreturned
      | ok v => rfl
    · exact call_served h hlive hother hreset hdisable

/-- Between the calls the firmware changes no configuration. -/
theorem device_mirrored (h : Mirrored b k) {s : State} (hkeeps : Keeps k.device s)
    (hbus : s.i2cConfigured = k.device.i2cConfigured) (hdacs : s.dacs = k.device.dacs) :
    Mirrored b { k with device := s } where
  wired := by
    intro bus hlt hconfigured
    rw [hbus] at hconfigured
    exact h.wired bus hlt hconfigured
  placed := h.placed
  served := by
    intro r hr
    obtain ⟨i, hnumber, hserves, hagrees⟩ := h.served r hr
    have hdac (_ : r.1 = .dac) : SameDac (k.device.dacs i) (s.dacs i) := by
      rw [hdacs]
      exact .refl _
    refine ⟨i, hnumber, hkeeps.serves hdac hserves, ?_⟩
    dsimp only
    rw [hdacs]
    exact hagrees

theorem step_mirrored (h : Mirrored b k) (input : Input) : Mirrored b (k.step b input) := by
  cases input with
  | call op env => exact call_mirrored h op env
  | update env =>
    have hundisturbed := update_undisturbed b env k.device
    have hkeeps := undisturbed_keeps hundisturbed
    exact device_mirrored h ⟨hkeeps.pwm, hkeeps.analog, hkeeps.counter, hkeeps.encoder, hkeeps.bus⟩
      hundisturbed.i2cConfigured hundisturbed.dacs
  | counterTick env id =>
    apply device_mirrored h (counterTick_keeps env k.device id)
    · unfold counterTick
      dsimp only
      split_ifs <;> rfl
    · unfold counterTick
      dsimp only
      split_ifs <;> rfl
  | encoderTick env id =>
    apply device_mirrored h (encoderTick_keeps env k.device id)
    · unfold encoderTick
      dsimp only
      split_ifs <;> rfl
    · unfold encoderTick
      dsimp only
      split_ifs <;> rfl

end Runs

end ConfiguredResources
