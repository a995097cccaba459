import TeensyIo.ConfiguredResources
import TeensyIo.FirmwareSafeState

/-! # Driven outputs

What stands at the pins is what the calls that have returned ask for. A call that raises writes to
no pin, and nothing but calls and the watchdog does. -/
namespace DrivenOutputs

open WireCommands HostProtocol HostClient HostResources HostOperations HostFrames FirmwareState
open FirmwareCommands FirmwareUpdate FirmwareRequests FirmwareOutcomes FirmwareDevice
open FirmwareResponses FirmwareSafeState ServedRequests RequestLayouts ConfiguredResources
open MachineRuns
open EdgeCallbacks (respond handled)

/-! ### What stands at the pins -/

/-- The last mode, level, frequency and duty of each pin. -/
@[ext] structure Panel where
  mode : ℤ → Option PinMode := fun _ => none
  level : ℤ → Option Bool := fun _ => none
  frequency : ℤ → Option ℤ := fun _ => none
  duty : ℤ → ℤ := fun _ => 0

namespace Panel

def setMode (p : Panel) (pin : ℤ) (mode : PinMode) : Panel :=
  { p with mode := Function.update p.mode pin (some mode) }

def setLevel (p : Panel) (pin : ℤ) (high : Bool) : Panel :=
  { p with level := Function.update p.level pin (some high) }

def setFrequency (p : Panel) (pin hertz : ℤ) : Panel :=
  { p with frequency := Function.update p.frequency pin (some hertz) }

def setDuty (p : Panel) (pin duty : ℤ) : Panel :=
  { p with duty := Function.update p.duty pin duty }

/-- All duties are zero. The levels stay. -/
def dark (p : Panel) : Panel := { p with duty := fun _ => 0 }

def apply (p : Panel) : Effect → Panel
  | .pinMode pin mode => p.setMode pin.toNat mode
  | .digitalWrite pin high => p.setLevel pin.toNat high
  | .analogWriteFrequency pin frequency => p.setFrequency pin.toNat frequency.toNat
  | .analogWrite pin duty => p.setDuty pin.toNat duty.toNat
  | _ => p

def run (p : Panel) (effects : List Effect) : Panel := effects.foldl apply p

theorem run_append (p : Panel) (first second : List Effect) :
    p.run (first ++ second) = (p.run first).run second := List.foldl_append

end Panel

/-- The mode that `pull` asks for. -/
def inputMode (pull : String) : PinMode :=
  if pull ∈ ["up", "pullup"] then .inputPullup
  else if pull ∈ ["down", "pulldown"] then .inputPulldown
  else .input

/-- What an operation asks of the pins when it returns. -/
def asked (h : Host) (p : Panel) : Operation → Panel
  | .configureOutput _ pin initial => (p.setMode pin .output).setLevel pin (initial != 0)
  | .configureInput _ pin pull => p.setMode pin (inputMode pull)
  | .pinWrite name value =>
    match (h.pins name).physicalPin with
    | some pin => p.setLevel pin (value != 0)
    | none => p
  | .pwmConfigure _ pin frequency duty =>
    ((p.setMode pin .output).setFrequency pin frequency).setDuty pin (scaled duty 255)
  | .pwmWrite name duty =>
    match (h.pwms name).physicalPin with
    | some pin => p.setDuty pin (scaled duty 255)
    | none => p
  | .pwmDisable name =>
    match (h.pwms name).physicalPin with
    | some pin => p.setDuty pin 0
    | none => p
  | .encoderAttach _ pinA pinB _ => (p.setMode pinA .input).setMode pinB .input
  | .resetConfig | .emergencyStop => p.dark
  | _ => p

/-- `panel` is what stands at the pins, `wanted` what the program has asked for. -/
structure Rig where
  bench : Bench := {}
  panel : Panel := {}
  wanted : Panel := {}

/-- What the device does for a call, if it has a command to handle. -/
def effects (b : Board) (k : Bench) (op : Operation) (env : Env) : List Effect :=
  let log := (k.call b op env).2.log
  if k.host.log.length < log.length then (handled b env k.device log).2 else []

def Rig.step (b : Board) (rig : Rig) (i : Input) : Rig :=
  let bench := rig.bench.step b i
  match i with
  | .call op env =>
    { bench := bench
      panel := rig.panel.run (effects b rig.bench op env)
      wanted := if (rig.bench.call b op env).1.isOk then asked rig.bench.host rig.wanted op
        else rig.wanted }
  | .update env =>
    { bench := bench
      panel := rig.panel.run (update b env rig.bench.device).2
      -- a watchdog that has run out takes the duties away
      wanted := if bench.device.safety.outputsAllowed then rig.wanted else rig.wanted.dark }
  | .counterTick _ _ | .encoderTick _ _ => { rig with bench := bench }

/-! ### What a request does to the pins -/

/-- The mode that the firmware takes from the byte of a pull. -/
def pullMode (pull : UInt8) : PinMode :=
  if pull = 1 then .inputPullup else if pull = 2 then .inputPulldown else .input

/-- What a request that is accepted does to the pins. -/
def meaning (p : Panel) : Request → Panel
  | .configDigitalOutput pin initial =>
    (p.setMode pin.toNat .output).setLevel pin.toNat initial
  | .configDigitalInput pin pull => p.setMode pin.toNat (pullMode pull)
  | .digitalWrite pin value => p.setLevel pin.toNat value
  | .configPwm pin frequency duty =>
    ((p.setMode pin.toNat .output).setFrequency pin.toNat frequency.toNat).setDuty pin.toNat
      duty.toNat
  | .pwmWrite pin duty => p.setDuty pin.toNat duty.toNat
  | .pwmDisable pin => p.setDuty pin.toNat 0
  | .configEncoder _ pinA pinB _ => (p.setMode pinA.toNat .input).setMode pinB.toNat .input
  | .resetConfig | .emergencyStop => p.dark
  | _ => p

/-- Wherever the panel shows a duty the hardware has one. -/
def Lit (hw : Hardware) (p : Panel) : Prop :=
  ∀ z, p.duty z ≠ 0 → ∃ pin : UInt8, z = pin.toNat ∧ hw.duty pin ≠ 0

section Effects

variable {b : Board} {env : Env} {s s' : State} {seq : UInt16} {p : Panel} {hw : Hardware}

theorem lit_apply (h : Lit hw p) (e : Effect) : Lit (hw.apply e) (p.apply e) := by
  cases e with
  | analogWrite pin duty =>
    intro z hz
    by_cases hpin : z = pin.toNat
    · refine ⟨pin, hpin, ?_⟩
      simp only [Panel.apply, Panel.setDuty, hpin, Function.update_self] at hz
      simp only [Hardware.apply, setAt_self]
      rintro rfl
      exact hz rfl
    · simp only [Panel.apply, Panel.setDuty, Function.update_of_ne hpin] at hz
      obtain ⟨other, hother, hlit⟩ := h z hz
      refine ⟨other, hother, ?_⟩
      have hne : other ≠ pin := by
        rintro rfl
        exact hpin hother
      simpa only [Hardware.apply, setAt_of_ne hne] using hlit
  | _ => exact h

theorem lit_run (es : List Effect) : ∀ {hw : Hardware} {p : Panel}, Lit hw p →
    Lit (hw.run es) (p.run es) := by
  induction es with
  | nil => exact fun h => h
  | cons e es ih => exact fun h => ih (lit_apply h e)

theorem dark_of_unlit (h : Lit hw p) (hzero : ∀ pin, hw.duty pin = 0) : p.dark = p := by
  apply Panel.ext <;> try rfl
  funext z
  by_contra hne
  obtain ⟨pin, -, hpin⟩ := h z (Ne.symm hne)
  exact hpin (hzero pin)

/-- An effect that is not seen at the pins. -/
def Hidden (e : Effect) : Prop := ∀ p : Panel, p.apply e = p

theorem run_hidden {es : List Effect} (h : ∀ e ∈ es, Hidden e) (p : Panel) : p.run es = p := by
  induction es with
  | nil => rfl
  | cons e es ih =>
    obtain ⟨he, hes⟩ := List.forall_mem_cons.mp h
    change (p.apply e).run es = p
    rw [he, ih hes]

theorem run_dark {es : List Effect}
    (h : ∀ e ∈ es, Hidden e ∨ ∃ pin duty, e = .analogWrite pin duty) :
    ∀ p : Panel, (p.run es).dark = p.dark := by
  induction es with
  | nil => exact fun _ => rfl
  | cons e es ih =>
    intro p
    obtain ⟨he, hes⟩ := List.forall_mem_cons.mp h
    change ((p.apply e).run es).dark = p.dark
    rw [ih hes]
    rcases he with hhidden | ⟨pin, duty, rfl⟩
    · rw [hhidden]
    · rfl

theorem zero_writes : ∀ e ∈ applySafeOutputs b s,
    Hidden e ∨ ∃ pin duty, e = .analogWrite pin duty := by
  intro e he
  obtain ⟨pin, -, -, rfl⟩ := mem_applySafeOutputs.mp he
  exact Or.inr ⟨pin, 0, rfl⟩

theorem run_applySafeOutputs (hsafe : SafeInvariant b ⟨s, hw⟩) (hlit : Lit hw p) :
    p.run (applySafeOutputs b s) = p.dark := by
  rw [← run_dark zero_writes]
  exact (dark_of_unlit (lit_run _ hlit) hsafe.zeroed).symm

theorem hidden_detachCounter (id : UInt8) : ∀ e ∈ detachCounter s id, Hidden e := by
  intro e he
  obtain ⟨-, rfl⟩ := mem_detachCounter.mp he
  exact fun _ => rfl

theorem hidden_detachEncoder (id : UInt8) : ∀ e ∈ detachEncoder s id, Hidden e := by
  intro e he
  obtain ⟨-, rfl | rfl⟩ := mem_detachEncoder.mp he <;> exact fun _ => rfl

/-- The pins change as is meant if the request is accepted, and not at all otherwise. -/
def Shows (p : Panel) (out : Outcome) (meant : Panel) : Prop :=
  p.run out.2 = if (replyTo out).isOk then meant else p

theorem refuse_isOk (code : ErrorCode) : (replyTo (refuse s seq code)).isOk = false := by
  cases hreply : replyTo (refuse s seq code) with
  | error error => rfl
  | ok reply => exact absurd ⟨reply, hreply⟩ not_accepts_refuse

theorem shows_refuse {code : ErrorCode} (meant : Panel) : Shows p (refuse s seq code) meant := by
  rw [Shows, refuse_isOk]
  rfl

theorem shows_ack {es : List Effect} (hquiet : framesWritten es = []) :
    Shows p (s', es ++ [ackTo seq]) (p.run es) := by
  obtain ⟨reply, hreply⟩ := @accepts_ack s' seq es hquiet
  rw [Shows, hreply, Panel.run_append]
  rfl

theorem shows_guard {c : Prop} [Decidable c] {code : ErrorCode} {out : Outcome} {meant : Panel}
    (h : Shows p out meant) : Shows p (if c then refuse s seq code else out) meant := by
  by_cases hc : c
  · rw [if_pos hc]
    exact shows_refuse meant
  · rw [if_neg hc]
    exact h

theorem shows_hidden {out : Outcome} (h : ∀ e ∈ out.2, Hidden e) : Shows p out p := by
  rw [Shows, run_hidden h, ite_self]

theorem configEncoder_shows (id pinA pinB mode : UInt8) :
    Shows p (configEncoder b env s seq id pinA pinB mode)
      (meaning p (.configEncoder id pinA pinB mode)) := by
  unfold configEncoder configureEncoder
  by_cases hbad : (id ≥ kMaxEncoders || !isValidDigitalPin b pinA ||
    !isValidDigitalPin b pinB) = true
  · rw [if_pos hbad]
    exact shows_refuse _
  · rw [if_neg hbad]
    dsimp only
    have hquiet : framesWritten ([.pinMode pinA .input, .pinMode pinB .input] ++
        detachEncoder s id ++ [.attachInterrupt pinA (encoderIsrFor id) .change,
          .attachInterrupt pinB (encoderIsrFor id) .change]) = [] := by
      rw [framesWritten_append, framesWritten_append, framesWritten_detachEncoder]
      rfl
    have hshows := @shows_ack { s with
      encoders := setAt s.encoders id
        { active := true, pinA := pinA, pinB := pinB, mode := mode
          lastState := encoderState env pinA pinB } } seq p _ hquiet
    rw [Panel.run_append, Panel.run_append, run_hidden (hidden_detachEncoder id)] at hshows
    exact hshows

theorem resetConfig_shows (hsafe : SafeInvariant b ⟨s, hw⟩) (hlit : Lit hw p) :
    Shows p (resetConfig b s seq) p.dark := by
  have hquiet : framesWritten (applySafeOutputs b s ++ detachCounters s ++ detachEncoders s) =
      [] := by
    rw [framesWritten_append, framesWritten_append, framesWritten_applySafeOutputs,
      framesWritten_detachCounters, framesWritten_detachEncoders]
    rfl
  have hcounters : ∀ e ∈ detachCounters s, Hidden e :=
    List.forall_mem_flatMap.mpr fun id _ => hidden_detachCounter id
  have hencoders : ∀ e ∈ detachEncoders s, Hidden e :=
    List.forall_mem_flatMap.mpr fun id _ => hidden_detachEncoder id
  have hshows := @shows_ack { safety := s.safety } seq p _ hquiet
  rw [Panel.run_append, Panel.run_append, run_applySafeOutputs hsafe hlit, run_hidden hcounters,
    run_hidden hencoders] at hshows
  exact hshows

theorem emergencyStop_shows (hsafe : SafeInvariant b ⟨s, hw⟩) (hlit : Lit hw p) :
    Shows p (emergencyStop b s seq) p.dark := by
  have hshows := @shows_ack { s with safety := s.safety.emergencyStop } seq p _
    (framesWritten_applySafeOutputs b s)
  rw [run_applySafeOutputs hsafe hlit] at hshows
  exact hshows

/-- The requests that the pins do not show. -/
def Unseen : Request → Bool
  | .configDigitalOutput _ _ | .configDigitalInput _ _ | .digitalWrite _ _ | .configPwm _ _ _
  | .pwmWrite _ _ | .pwmDisable _ | .configEncoder _ _ _ _ | .resetConfig | .emergencyStop => false
  | _ => true

theorem meaning_unseen {r : Request} (hr : Unseen r = true) : meaning p r = p := by
  cases r with
  | configDigitalOutput | configDigitalInput | digitalWrite | configPwm | pwmWrite | pwmDisable
  | configEncoder | resetConfig | emergencyStop => cases hr
  | _ => rfl

theorem executed_hidden {r : Request} {out : Outcome} (h : Executed b env s seq r out)
    (hr : Unseen r = true) : ∀ e ∈ out.2, Hidden e := by
  cases h with
  | configCounter =>
    refine List.forall_mem_append.mpr ⟨hidden_detachCounter _, ?_⟩
    simp [Hidden, Panel.apply, ackTo]
  | resetConfig | emergencyStop | configDigitalInput | configDigitalOutput | digitalWrite
  | configPwm | pwmWrite | pwmDisable | configEncoder => cases hr
  | _ => simp [Hidden, Panel.apply, ackTo, nack, data, FirmwareCommands.heartbeat,
      FirmwareCommands.clearEmergencyStop]

/-- A request does to the pins what it means if it is accepted, and nothing otherwise. -/
theorem execute_shows (hsafe : SafeInvariant b ⟨s, hw⟩) (hlit : Lit hw p) (r : Request) :
    Shows p (execute b env s seq r) (meaning p r) := by
  cases hr : Unseen r with
  | true =>
    rw [meaning_unseen hr]
    exact shows_hidden (executed_hidden (execute_spec b env s seq r) hr)
  | false =>
    cases r with
    | configDigitalOutput pin initial =>
      refine shows_guard (shows_guard ?_)
      exact @shows_ack s seq p [.pinMode pin .output, .digitalWrite pin initial] rfl
    | configDigitalInput pin pull =>
      refine shows_guard ?_
      exact @shows_ack s seq p [.pinMode pin (pullMode pull)] rfl
    | digitalWrite pin value =>
      refine shows_guard (shows_guard ?_)
      exact @shows_ack s seq p [.digitalWrite pin value] rfl
    | configPwm pin frequency duty =>
      refine shows_guard (shows_guard ?_)
      exact @shows_ack _ seq p [.pinMode pin .output, .analogWriteResolution 8,
        .analogWriteFrequency pin frequency, .analogWrite pin duty] rfl
    | pwmWrite pin duty =>
      refine shows_guard (shows_guard ?_)
      exact @shows_ack s seq p [.analogWrite pin duty] rfl
    | pwmDisable pin =>
      refine shows_guard ?_
      exact @shows_ack _ seq p [.analogWrite pin 0] rfl
    | configEncoder id pinA pinB mode => exact configEncoder_shows id pinA pinB mode
    | resetConfig => exact resetConfig_shows hsafe hlit
    | emergencyStop => exact emergencyStop_shows hsafe hlit
    | _ => cases hr

end Effects

/-! ### What a call asks for -/

section Calls

variable {b : Board} {env : Env} {k : Bench} {h : Host} {op : Operation} {r : Request}

theorem inputMode_code {pull : String} {code : UInt8}
    (hcode : pullCode pull = some (code.toNat : ℤ)) : inputMode pull = pullMode code := by
  obtain ⟨before, after, htable, -⟩ := List.lookup_eq_some_iff.mp hcode
  have hmem : (pull, (code.toNat : ℤ)) ∈ before ++ (pull, (code.toNat : ℤ)) :: after :=
    List.mem_append_right before List.mem_cons_self
  rw [← htable] at hmem
  simp only [List.mem_cons, Prod.mk.injEq, List.not_mem_nil, or_false] at hmem
  obtain ⟨rfl, hbyte⟩ | ⟨rfl, hbyte⟩ | ⟨rfl, hbyte⟩ | ⟨rfl, hbyte⟩ | ⟨rfl, hbyte⟩ | ⟨rfl, hbyte⟩ :=
    hmem
  · obtain rfl := @byte_eq code 0 hbyte
    rfl
  · obtain rfl := @byte_eq code 0 hbyte
    rfl
  · obtain rfl := @byte_eq code 1 hbyte
    rfl
  · obtain rfl := @byte_eq code 1 hbyte
    rfl
  · obtain rfl := @byte_eq code 2 hbyte
    rfl
  · obtain rfl := @byte_eq code 2 hbyte
    rfl

theorem flag_eq {on : Bool} {value : ℤ} (h : on = true ↔ value ≠ 0) : (value != 0) = on := by
  rw [Bool.eq_iff_iff, bne_iff_ne]
  exact h.symm

/-- What an operation asks of the pins is what the request that it means does to them. -/
theorem asked_meant (hm : Meant h op r) (p : Panel) : asked h p op = meaning p r := by
  cases hm with
  | configureOutput hpin hon =>
    subst hpin
    rw [asked, flag_eq hon]
    rfl
  | configureInput hpin hcode =>
    subst hpin
    rw [asked, inputMode_code hcode]
    rfl
  | pinWrite hpin hon =>
    rw [asked, hpin, flag_eq hon]
    rfl
  | pwmConfigure hpin hfrequency hduty =>
    subst hpin hfrequency
    rw [asked, ← hduty]
    rfl
  | pwmWrite hpin hduty =>
    rw [asked, hpin, ← hduty]
    rfl
  | pwmDisable hpin =>
    rw [asked, hpin]
    rfl
  | encoderAttach hid hpinA hpinB hcode =>
    subst hpinA hpinB
    rfl
  | _ => rfl

/-- A call raises and does nothing, or the device executes the request that it means. -/
inductive Comes (b : Board) (k : Bench) (op : Operation) (env : Env) : Prop where
  | raised (error : PyError) : (k.call b op env).1 = .error error → effects b k op env = [] →
      k.deviceAfter b op env = k.device → Comes b k op env
  | executed (r : Request) : Meant k.host op r → (k.call b op env).2.log ≠ k.host.log →
      respond b env k.device (k.call b op env).2.log =
        replyTo (execute b env k.device (nextSeq k.host) r) →
      effects b k op env = (execute b env k.device (nextSeq k.host) r).2 →
      k.deviceAfter b op env = (execute b env k.device (nextSeq k.host) r).1 →
      Comes b k op env

theorem call_comes (b : Board) (k : Bench) (op : Operation) (env : Env) : Comes b k op env := by
  rcases runOperation_sends (respond b env k.device) k.host op with
    ⟨⟨error, hraised⟩, hlog⟩ | ⟨id, bytes, r, hlog, hsize, hl, hm⟩
  · have hlog : (k.call b op env).2.log = k.host.log := hlog
    apply Comes.raised error hraised
    · rw [effects, hlog, if_neg (lt_irrefl _)]
    · rw [Bench.deviceAfter, hlog, if_neg (lt_irrefl _)]
  · have hlog : (k.call b op env).2.log = k.host.log ++ [(id, bytes)] := hlog
    have hlength : (k.host.log ++ [(id, bytes)]).length = k.host.log.length + 1 :=
      List.length_append
    apply Comes.executed r hm
    · rw [hlog]
      intro hsame
      exact List.cons_ne_nil _ _ (List.append_right_eq_self.mp hsame)
    · rw [hlog, respond_laid hsize hl, hlength]
      rfl
    · rw [effects, hlog, hlength, if_pos (Nat.lt_succ_self _),
        EdgeCallbacks.handled_laid b env k.device k.host.log hsize hl, hlength]
      rfl
    · exact deviceAfter_laid hlog hsize hl

/-- A call that has sent a command returns exactly if the response is not a refusal. -/
theorem sent_isOk {respond : List Command → Except PyError (List UInt8)} {h' : Host}
    {id : CommandId} {payload : Except PyError (List UInt8)}
    (hsent : ((command respond h' id payload).next
      fun _ h => ((.ok (), h) : Result Unit)).2.log ≠ h'.log) :
    let result := (command respond h' id payload).next fun _ h => ((.ok (), h) : Result Unit)
    (outcome result).1.isOk = (respond result.2.log).isOk := by
  unfold command at hsent ⊢
  cases payload with
  | error error => exact absurd rfl hsent
  | ok bytes =>
    dsimp only at hsent ⊢
    by_cases hsize : maxPayloadSize < bytes.length + 1
    · rw [if_pos hsize] at hsent
      exact absurd rfl hsent
    · rw [if_neg hsize]
      cases hanswer : respond (h'.log ++ [(id, bytes)]) with
      | error error =>
        simp only [hanswer, Result.next]
        rfl
      | ok reply =>
        simp only [hanswer, Result.next]
        rfl

/-- The calls that the pins show return exactly if their request is accepted. -/
theorem returned_isOk {respond : List Command → Except PyError (List UInt8)} (hm : Meant h op r)
    (hr : Unseen r = false) (hsent : (runOperation respond h op).2.log ≠ h.log) :
    (runOperation respond h op).1.isOk = (respond (runOperation respond h op).2.log).isOk := by
  cases hm with
  | configureOutput => exact sent_isOk hsent
  | configureInput hpin hcode =>
    rw [runOperation, HostResources.configureInput, hcode] at hsent ⊢
    exact sent_isOk hsent
  | pinWrite hpin hon =>
    rw [runOperation, HostResources.pinWrite, hpin] at hsent ⊢
    exact sent_isOk hsent
  | pwmConfigure => exact sent_isOk hsent
  | pwmWrite hpin hduty =>
    rw [runOperation, HostResources.pwmWrite, hpin] at hsent ⊢
    exact sent_isOk hsent
  | pwmDisable hpin =>
    rw [runOperation, HostResources.pwmDisable, hpin] at hsent ⊢
    exact sent_isOk hsent
  | encoderAttach hid hpinA hpinB hcode =>
    rw [runOperation, HostResources.encoderAttach, hcode] at hsent ⊢
    exact sent_isOk hsent
  | resetConfig => exact sent_isOk hsent
  | emergencyStop => exact sent_isOk hsent
  | _ => cases hr

end Calls

/-! ### Runs -/

section Runs

variable {b : Board} {rig : Rig} {hw : Hardware}

/-- The pins show what is asked for, and are dark where the hardware is. -/
structure Follows (b : Board) (hw : Hardware) (rig : Rig) : Prop where
  safe : SafeInvariant b ⟨rig.bench.device, hw⟩
  lit : Lit hw rig.panel
  wanted : rig.panel = rig.wanted

theorem follows_initial (b : Board) : Follows b {} {} where
  safe := safe_initial b
  lit _ hz := absurd rfl hz
  wanted := rfl

/-- A call that returns does to the pins what it asks for, and one that raises nothing. -/
theorem call_follows (h : Follows b hw rig) (op : Operation) (env : Env) :
    Follows b (hw.run (effects b rig.bench op env)) (rig.step b (.call op env)) := by
  obtain ⟨k, panel, wanted⟩ := rig
  obtain rfl : panel = wanted := h.wanted
  cases call_comes b k op env with
  | raised error hraised hnone hdevice =>
    constructor
    · change SafeInvariant b ⟨k.deviceAfter b op env, hw.run (effects b k op env)⟩
      rw [hnone, hdevice]
      exact h.safe
    · exact lit_run _ h.lit
    · simp only [Rig.step, hnone, hraised]
      rfl
  | executed r hm hsent hreply heffects hdevice =>
    have hshows : Shows panel (execute b env k.device (nextSeq k.host) r) (meaning panel r) :=
      execute_shows h.safe h.lit r
    constructor
    · change SafeInvariant b ⟨k.deviceAfter b op env, hw.run (effects b k op env)⟩
      rw [hdevice, heffects]
      exact h.safe.executed (execute_spec b env k.device (nextSeq k.host) r)
    · exact lit_run _ h.lit
    · change panel.run (effects b k op env) =
        if (k.call b op env).1.isOk then asked k.host panel op else panel
      rw [heffects, hshows, asked_meant hm]
      cases hr : Unseen r with
      | true => rw [meaning_unseen hr, ite_self, ite_self]
      | false =>
        have hok : (k.call b op env).1.isOk =
            (respond b env k.device (k.call b op env).2.log).isOk := returned_isOk hm hr hsent
        rw [hok, hreply]

/-- An update takes the duties away if the outputs are not allowed, and nothing else. -/
theorem update_follows (h : Follows b hw rig) (env : Env) :
    Follows b (hw.run (update b env rig.bench.device).2) (rig.step b (.update env)) := by
  obtain ⟨k, panel, wanted⟩ := rig
  obtain rfl : panel = wanted := h.wanted
  have hsafe := h.safe.updated env
  have hlit := lit_run (update b env k.device).2 h.lit
  refine ⟨hsafe, hlit, ?_⟩
  change panel.run (update b env k.device).2 =
    if (update b env k.device).1.safety.outputsAllowed then panel else panel.dark
  obtain ⟨writes, heffects, hwrites⟩ := update_effects b env k.device
  have hhidden : ∀ e ∈ writes, Hidden e := by
    intro e he
    obtain ⟨type, seq, payload, rfl⟩ := hwrites e he
    exact fun _ => rfl
  have hsafety : (update b env k.device).1.safety = (checkWatchdog env k.device).safety :=
    (update_undisturbed b env k.device).safety
  cases hallowed : (update b env k.device).1.safety.outputsAllowed with
  | true =>
    rw [hsafety] at hallowed
    have hnone : safeOutputsOnExpiry b env k.device = [] := by
      rw [safeOutputsOnExpiry, hallowed, Bool.not_true, Bool.and_false]
      rfl
    rw [heffects, hnone, List.nil_append, run_hidden hhidden]
    rfl
  | false =>
    have hdark := dark_of_unlit hlit (hsafe.stopped_quiet hallowed)
    have hkinds : ∀ e ∈ (update b env k.device).2,
        Hidden e ∨ ∃ pin duty, e = .analogWrite pin duty := by
      rw [heffects, safeOutputsOnExpiry]
      intro e he
      rcases List.mem_append.mp he with he | he
      · split_ifs at he with hexpired
        · exact zero_writes e he
        · cases he
      · exact Or.inl (hhidden e he)
    change panel.run (update b env k.device).2 = panel.dark
    rw [← hdark, run_dark hkinds]

theorem step_follows (h : Follows b hw rig) (i : Input) :
    ∃ hw', Follows b hw' (rig.step b i) := by
  cases i with
  | call op env => exact ⟨_, call_follows h op env⟩
  | update env => exact ⟨_, update_follows h env⟩
  | counterTick env id => exact ⟨hw, h.safe.step (.counterTick env id), h.lit, h.wanted⟩
  | encoderTick env id => exact ⟨hw, h.safe.step (.encoderTick env id), h.lit, h.wanted⟩

/-- In every state of every run the pins show exactly what the calls that have returned ask for,
and no duty while the outputs are not allowed. -/
theorem outputs_follow_calls (b : Board) (inputs : List Input) :
    EachState (Rig.step b)
      (fun rig => rig.panel = rig.wanted ∧
        (rig.bench.device.safety.outputsAllowed = false → rig.panel = rig.panel.dark)) {}
      inputs := by
  apply eachState_of_eachStep (I := fun rig => ∃ hw, Follows b hw rig) (G := fun _ _ => True)
  · rintro rig i ⟨hw, h⟩ -
    exact step_follows h i
  · rintro rig ⟨hw, h⟩
    refine ⟨h.wanted, ?_⟩
    intro hstopped
    exact (dark_of_unlit h.lit (h.safe.stopped_quiet hstopped)).symm
  · exact ⟨({} : Hardware), follows_initial b⟩
  · exact eachStep_of_forall ({} : Rig) fun _ _ => trivial

/-- A stop takes the duties away and leaves the levels. -/
example :
    let rig := after (Rig.step sampleBoard) {}
      [.call (.configureOutput "valve" 13 0) (envAt 1), .call (.pinWrite "valve" 1) (envAt 2),
        .call (.pwmConfigure "fan" 4 1000 (1 / 2)) (envAt 3), .call .emergencyStop (envAt 4),
        .call (.pinWrite "valve" 0) (envAt 5)]
    rig.panel.level 13 = some true ∧ rig.panel.duty 4 = 0 ∧ rig.panel.frequency 4 = some 1000 := by
  decide +kernel

end Runs

end DrivenOutputs
