import TeensyIo.EdgeCallbacks
import TeensyIo.FirmwareDevice
import TeensyIo.SubscriptionCalls

/-! # Change events

The events queued for a subscription are the changes between one sample of its resource and the
next that it asks for, whatever the other slots hold and however fast its telemetry is. -/
namespace ChangeEvents

open WireCommands FirmwareState FirmwareCommands FirmwareUpdate FirmwareRequests
open FirmwareDevice SubscriptionCalls MachineRuns
open EdgeCallbacks (firstFree slotFor)
open FirmwareRing (flushAsync_subscriptions)

/-! ### The changes that are wanted -/

/-- A reading of the resource and the clock at the moment it is reported. -/
structure Sample where
  value : Int32
  micros : UInt32
  deriving DecidableEq

/-- A change to report: any change, but for a digital pin one in a direction asked for, and in
either direction if none is asked for. -/
def wanted (kind flags : UInt8) (before later : Int32) : Bool :=
  let asksRising := flags &&& 0x02 != 0
  let asksFalling := flags &&& 0x04 != 0
  later != before &&
    (kind != ResourceKind.digital.toByte ||
      ((asksRising && before == 0) || (asksFalling && later == 0) ||
        (!asksRising && !asksFalling)))

/-- The samples that differ from the one before in a way that is asked for. -/
def changes (kind flags : UInt8) (samples : List Sample) : List Sample :=
  (samples.zip samples.tail).filterMap fun pair =>
    if wanted kind flags pair.1.value pair.2.value then some pair.2 else none

/-- The event of a sample: the slot's kind, its id and the new value. -/
def eventCall (i kind id : UInt8) (sample : Sample) : Call :=
  ⟨i, .event, [kind, id] ++ writeI32 sample.value ++ writeU32 sample.micros⟩

/-! ### Runs -/

variable (b : Board)

def step (s : State) (e : Event) : State := (react b s e).1

/-- The calls of `queue_async` in a step; only an update makes any. -/
def calls (s : State) : Event → List Call
  | .update env => updateCalls b env (flushAsync env 0 8 (checkWatchdog env s)).1
  | _ => []

/-- The calls are what the update's pass over the subscriptions hands to `queue_async`. -/
def Handed (s : State) : Event → Prop
  | .update env =>
    Queues b env (flushAsync env 0 8 (checkWatchdog env s)).1 (calls b s (.update env))
  | _ => True

def runCalls (s : State) : List Event → List Call
  | [] => []
  | e :: es => calls b s e ++ runCalls (step b s e) es

/-- The events handed over for a slot. -/
def eventsOf (i : UInt8) (calls : List Call) : List Call :=
  (callsOf i calls).filter fun c => c.type = .event

/-- What the turn of slot `i` reads of a resource. -/
def sampled (i kind id : UInt8) (env : Env) (s : State) : Option Sample :=
  (readResourceValue b env s i.toNat kind id).map fun value => ⟨value, env.micros i.toNat⟩

/-- The samples of a resource in the turns of slot `i`, one for each update. -/
def samples (i kind id : UInt8) (s : State) : List Event → List Sample
  | [] => []
  | .update env :: es =>
    (sampled b i kind id env s).toList ++ samples i kind id (step b s (.update env)) es
  | e :: es => samples i kind id (step b s e) es

def isUpdate : Event → Bool
  | .update _ => true
  | _ => false

/-- The packet subscribes to the resource, which can be read, and slot `i` is the one that is
free. -/
def Subscribes (i kind id : UInt8) (rateHz : UInt16) (flags : UInt8) (s : State) : Event → Prop
  | .handle env p =>
    decode p = .ok (.subscribe kind id rateHz flags) ∧
      (readResourceValue b env s 0 kind id).isSome = true ∧ firstFree s = some i
  | _ => False

/-- The subscription stays: its resource can be read and nobody gives it up. -/
def Stays (i kind id : UInt8) (s : State) : Event → Prop
  | .handle _ p => decode p ≠ .ok (.unsubscribe kind id) ∧ decode p ≠ .ok .resetConfig
  | .update env => (sampled b i kind id env s).isSome = true
  | _ => True

/-- The packet subscribes to something or gives a subscription up. -/
def aboutSubscriptions : Event → Bool
  | .handle _ p =>
    match decode p with
    | .ok (.subscribe ..) | .ok (.unsubscribe ..) => true
    | _ => false
  | _ => false

/-- Two runs that differ in subscriptions alone. -/
def SameOtherwise (es es' : List Event) : Prop :=
  (es.filter fun e => !aboutSubscriptions e) = es'.filter fun e => !aboutSubscriptions e

/-! ### What a command leaves to the subscriptions -/

/-- The subscriptions and the ring. -/
structure Queueing where
  subscriptions : UInt8 → SubscriptionSlot
  outbound : UInt8 → OutboundFrame
  outboundHead : UInt8
  outboundTail : UInt8
  outboundCount : UInt8
  outboundDropped : UInt32

@[reducible] def withQueueing (s : State) (q : Queueing) : State :=
  { s with
    subscriptions := q.subscriptions, outbound := q.outbound, outboundHead := q.outboundHead
    outboundTail := q.outboundTail, outboundCount := q.outboundCount
    outboundDropped := q.outboundDropped }

def queueing (s : State) : Queueing :=
  ⟨s.subscriptions, s.outbound, s.outboundHead, s.outboundTail, s.outboundCount, s.outboundDropped⟩

theorem eq_withQueueing {s t : State} (h : Undisturbed s t) : t = withQueueing s (queueing t) := by
  cases t
  obtain ⟨rfl, rfl, rfl, rfl, rfl, rfl, rfl, rfl⟩ := h
  rfl

theorem undisturbed_withQueueing (s : State) (q : Queueing) : Undisturbed s (withQueueing s q) :=
  ⟨rfl, rfl, rfl, rfl, rfl, rfl, rfl, rfl⟩

theorem undisturbed_symm {s t : State} (h : Undisturbed s t) : Undisturbed t s := by
  obtain ⟨hsafety, hpwm, hanalog, hcount, hi2c, hdacs, hcounters, hencoders⟩ := h
  exact ⟨hsafety.symm, hpwm.symm, hanalog.symm, hcount.symm, hi2c.symm, hdacs.symm,
    hcounters.symm, hencoders.symm⟩

def keepsQueueing : Request → Bool
  | .subscribe .. | .unsubscribe .. | .resetConfig => false
  | _ => true

section Commands

variable (env : Env) (s : State) (q : Queueing) (seq : UInt16)

theorem writeDac_withQueueing (id channel : UInt8) (value : UInt16) :
    (answerDac seq (writeDacRaw b env (withQueueing s q) id channel value)).1 =
      withQueueing (answerDac seq (writeDacRaw b env s id channel value)).1 q := by
  unfold writeDacRaw
  dsimp only
  split_ifs <;> rfl

/-- No other command looks at the subscriptions or the ring, or changes them. -/
theorem execute_withQueueing {r : Request} (hr : keepsQueueing r = true) :
    (execute b env (withQueueing s q) seq r).1 = withQueueing (execute b env s seq r).1 q := by
  cases r with
  | subscribe => cases hr
  | unsubscribe => cases hr
  | resetConfig => cases hr
  | ping | getInfo | heartbeat | emergencyStop | clearEmergencyStop => rfl
  | configCounter id pin edge =>
    simp only [execute, configCounter, configureCounter]
    split_ifs <;> rfl
  | configEncoder id pinA pinB mode =>
    simp only [execute, configEncoder, configureEncoder]
    split_ifs <;> rfl
  | dacWriteRaw id channel value =>
    simp only [execute, dacWriteRaw]
    split_ifs
    · rfl
    · exact writeDac_withQueueing b env s q seq id channel value
  | dacWriteNormalized id channel value =>
    simp only [execute, dacWriteNormalized]
    split_ifs
    · rfl
    · rfl
    · exact writeDac_withQueueing b env s q seq id channel _
  | _ =>
    simp only [execute, configDigitalInput, configDigitalOutput, FirmwareCommands.digitalRead,
      digitalWrite, configPwm, pwmWrite, pwmDisable, configAnalog, analogRead, counterRead,
      counterReset, counterFrequency, encoderRead, encoderReset, configI2cBus, i2cWrite, i2cRead,
      configDac]
    split_ifs <;> rfl

theorem execute_subscriptions {r : Request} (hr : keepsQueueing r = true) :
    (execute b env s seq r).1.subscriptions = s.subscriptions := by
  have h := congrArg State.subscriptions (execute_withQueueing b env s (queueing s) seq hr)
  exact h

theorem subscribe_undisturbed (kind id : UInt8) (rateHz : UInt16) (flags : UInt8) :
    Undisturbed s (subscribe b env s seq kind id rateHz flags).1 := by
  unfold subscribe
  cases readResourceValue b env s 0 kind id with
  | none => exact .refl s
  | some value =>
    dsimp only
    cases (indices kMaxSubscriptions.toNat).find? fun i => !(s.subscriptions i).active with
    | none => exact .refl s
    | some i => exact .subscriptions (.refl s) _

theorem unsubscribe_undisturbed (kind id : UInt8) :
    Undisturbed s (unsubscribe s seq kind id).1 := .subscriptions (.refl s) _

theorem execute_undisturbed {t : State} (h : Undisturbed s t) (r : Request) :
    Undisturbed (execute b env s seq r).1 (execute b env t seq r).1 := by
  by_cases hr : keepsQueueing r = true
  · rw [eq_withQueueing h, execute_withQueueing b env s _ seq hr]
    exact undisturbed_withQueueing _ _
  · cases r with
    | subscribe kind id rateHz flags =>
      have hs := undisturbed_symm (subscribe_undisturbed b env s seq kind id rateHz flags)
      exact (hs.trans h).trans (subscribe_undisturbed b env t seq kind id rateHz flags)
    | unsubscribe kind id =>
      have hs := undisturbed_symm (unsubscribe_undisturbed s seq kind id)
      exact (hs.trans h).trans (unsubscribe_undisturbed t seq kind id)
    | resetConfig => exact ⟨h.safety, rfl, rfl, rfl, rfl, rfl, rfl, rfl⟩
    | _ => exact absurd rfl hr

end Commands

/-! ### What a step leaves to the subscriptions -/

theorem handle_undisturbed (env : Env) {s t : State} (h : Undisturbed s t)
    (p : FirmwareProtocol.Packet) :
    Undisturbed (handle b env s p).1 (handle b env t p).1 := by
  rw [handle_eq, handle_eq]
  cases decode p with
  | error code => exact h
  | ok r => exact execute_undisturbed b env s p.seq h r

theorem checkWatchdog_undisturbed (env : Env) {s t : State} (h : Undisturbed s t) :
    Undisturbed (checkWatchdog env s) (checkWatchdog env t) := by
  rw [eq_withQueueing h]
  exact undisturbed_withQueueing (checkWatchdog env s) (queueing t)

theorem step_undisturbed {s t : State} (h : Undisturbed s t) (e : Event) :
    Undisturbed (step b s e) (step b t e) := by
  cases e with
  | handle env p => exact handle_undisturbed b env h p
  | update env =>
    have hs := undisturbed_symm (update_undisturbed b env s)
    exact (hs.trans (checkWatchdog_undisturbed env h)).trans (update_undisturbed b env t)
  | counterTick env id =>
    rw [eq_withQueueing h]
    simp only [step, react, counterTick]
    split_ifs
    · exact undisturbed_withQueueing s (queueing t)
    · exact undisturbed_withQueueing _ (queueing t)
    · exact undisturbed_withQueueing _ (queueing t)
  | encoderTick env id =>
    rw [eq_withQueueing h]
    simp only [step, react, encoderTick]
    split_ifs
    · exact undisturbed_withQueueing s (queueing t)
    · exact undisturbed_withQueueing _ (queueing t)

theorem about_undisturbed (s : State) {e : Event} (he : aboutSubscriptions e = true) :
    Undisturbed s (step b s e) := by
  cases e with
  | handle env p =>
    rw [step, react, handle_eq]
    rw [aboutSubscriptions] at he
    cases hdecode : decode p with
    | error code => exact .refl s
    | ok r =>
      rw [hdecode] at he
      cases r with
      | subscribe kind id rateHz flags =>
        exact subscribe_undisturbed b env s p.seq kind id rateHz flags
      | unsubscribe kind id => exact unsubscribe_undisturbed s p.seq kind id
      | _ => cases he
  | _ => cases he

/-! ### What is sampled -/

variable {b} in
theorem sampled_undisturbed {s t : State} (h : Undisturbed s t) (i kind id : UInt8) (env : Env) :
    sampled b i kind id env t = sampled b i kind id env s := by
  rw [sampled, sampled, readResourceValue_undisturbed b env h]

theorem samples_undisturbed {s t : State} (h : Undisturbed s t) (i kind id : UInt8)
    (es : List Event) : samples b i kind id t es = samples b i kind id s es := by
  induction es generalizing s t with
  | nil => rfl
  | cons e es ih =>
    have hrest := ih (step_undisturbed b h e)
    cases e with
    | update env => rw [samples, samples, sampled_undisturbed h, hrest]
    | _ => exact hrest

/-- Subscribing elsewhere makes no difference to what is sampled. -/
theorem samples_filter (s : State) (i kind id : UInt8) (es : List Event) :
    samples b i kind id s (es.filter fun e => !aboutSubscriptions e) =
      samples b i kind id s es := by
  induction es generalizing s with
  | nil => rfl
  | cons e es ih =>
    by_cases he : aboutSubscriptions e = true
    · rw [List.filter_cons_of_neg (by simp [he]), ih]
      cases e with
      | handle env p =>
        exact (samples_undisturbed b (about_undisturbed b s he) i kind id es).symm
      | _ => cases he
    · rw [List.filter_cons_of_pos (by simp [he])]
      cases e with
      | update env => rw [samples, samples, ih]
      | _ => exact ih _

theorem samples_otherwise {s t : State} (h : Undisturbed s t) (i kind id : UInt8)
    {es es' : List Event} (hsame : SameOtherwise es es') :
    samples b i kind id t es' = samples b i kind id s es := by
  rw [← samples_filter b t, ← samples_filter b s, hsame]
  exact samples_undisturbed b h i kind id _

/-! ### The slot -/

/-- The slot holds the subscription and the last sample. -/
structure Watches (kind id flags : UInt8) (last : Option Sample) (slot : SubscriptionSlot) :
    Prop where
  active : slot.active = true
  kind : slot.kind = kind
  id : slot.id = id
  flags : slot.flags = flags
  seen : slot.hasLastValue = last.isSome
  noted : ∀ sample ∈ last, slot.lastValue = sample.value

section Slot

variable {b} {i kind id flags : UInt8} {last : Option Sample} {s : State}

theorem eventDue_eq {slot : SubscriptionSlot} (h : Watches kind id flags last slot)
    (hchange : flags &&& 0x01 ≠ 0) (value : Int32) :
    eventDue slot value = last.any fun sample => wanted kind flags sample.value value := by
  have hbit : (flags &&& 0x01 != 0) = true := bne_iff_ne.mpr hchange
  rw [eventDue, shouldEmit, h.kind, h.flags, h.seen, hbit]
  cases last with
  | none => rfl
  | some sample =>
    rw [h.noted sample rfl, Option.any_some, wanted]
    by_cases hsame : value = sample.value
    · simp [hsame]
    · have hdiffer : (value != sample.value) = true := bne_iff_ne.mpr hsame
      by_cases hkind : kind = ResourceKind.digital.toByte
      · rw [if_pos hkind, hdiffer, hkind]
        by_cases hzero : sample.value = 0
        · have hvalue : (value == 0) = false := beq_false_of_ne fun h => hsame (h.trans hzero.symm)
          simp [hzero, hvalue, bne, Bool.and_comm]
        · have hlast : (sample.value == 0) = false := beq_false_of_ne hzero
          simp [hlast, bne, Bool.and_comm]
      · have hother : (kind != ResourceKind.digital.toByte) = true := bne_iff_ne.mpr hkind
        rw [if_neg hkind, hdiffer, hother]
        rfl

/-- One turn of the slot: its event if there is one, and the new sample noted. -/
theorem turn_events {env : Env} (now : UInt32) {sample : Sample}
    (h : Watches kind id flags last (s.subscriptions i)) (hchange : flags &&& 0x01 ≠ 0)
    (hsample : sampled b i kind id env s = some sample) :
    (turnCalls b env now s i).filter (fun c => c.type = .event) =
        (if last.any fun before => wanted kind flags before.value sample.value then
          [eventCall i kind id sample] else []) ∧
      Watches kind id flags (some sample) (slotAfter b env now s i) := by
  obtain ⟨value, hvalue, rfl⟩ := Option.map_eq_some_iff.mp hsample
  have hread : readResourceValue b env s i.toNat (s.subscriptions i).kind (s.subscriptions i).id =
      some value := by rw [h.kind, h.id, hvalue]
  have hactive : ¬(!(s.subscriptions i).active) = true := by simp [h.active]
  unfold turnCalls slotAfter
  dsimp only
  rw [if_neg hactive, if_neg hactive, hread, ← eventDue_eq h hchange]
  dsimp only
  constructor
  · rw [List.filter_append]
    have hevent : eventPayload (s.subscriptions i) value (env.micros i.toNat) =
        [kind, id] ++ writeI32 value ++ writeU32 (env.micros i.toNat) := by
      rw [eventPayload, h.kind, h.id]
    rw [hevent]
    split_ifs <;> rfl
  · constructor
    · exact h.active
    · exact h.kind
    · exact h.id
    · exact h.flags
    · rfl
    · rintro - ⟨⟩
      rfl

end Slot

/-! ### Steps and runs -/

section Runs

variable {b} {i kind id flags : UInt8} {last : Option Sample} {s : State}

theorem sampled_flushed (env : Env) :
    sampled b i kind id env (flushAsync env 0 8 (checkWatchdog env s)).1 =
      sampled b i kind id env s := by
  rw [sampled_undisturbed (flushAsync_undisturbed env 0 8 (checkWatchdog env s))]
  rfl

/-- An update hands over the event of the slot if its sample is a change that is wanted. -/
theorem update_events (hi : i.toNat < kMaxSubscriptions.toNat) {env : Env} {sample : Sample}
    (h : Watches kind id flags last (s.subscriptions i)) (hchange : flags &&& 0x01 ≠ 0)
    (hsample : sampled b i kind id env s = some sample) :
    eventsOf i (calls b s (.update env)) =
        (if last.any fun before => wanted kind flags before.value sample.value then
          [eventCall i kind id sample] else []) ∧
      Watches kind id flags (some sample) ((step b s (.update env)).subscriptions i) := by
  obtain ⟨hcalls, hslot⟩ :=
    update_slot b env (flushAsync env 0 8 (checkWatchdog env s)).1 hi
  have hflushed := flushAsync_subscriptions env 0 8 (checkWatchdog env s)
  have hturn := turn_events (b := b) (env.millis 1) (hflushed ▸ h) hchange
    ((sampled_flushed env).trans hsample)
  constructor
  · rw [eventsOf, calls, hcalls]
    exact hturn.1
  · rw [step, react, update]
    dsimp only
    rw [flushAsync_subscriptions, hslot]
    exact hturn.2

theorem subscribed_slot {env : Env} {seq : UInt16} {kind id : UInt8} {rateHz : UInt16}
    {flags : UInt8} (hread : (readResourceValue b env s 0 kind id).isSome = true)
    (hfree : firstFree s = some i) :
    (subscribe b env s seq kind id rateHz flags).1.subscriptions =
      setAt s.subscriptions i (slotFor env (s.subscriptions i) kind id rateHz flags) := by
  obtain ⟨value, hvalue⟩ := Option.isSome_iff_exists.mp hread
  rw [firstFree] at hfree
  rw [subscribe, hvalue]
  dsimp only
  rw [hfree]
  rfl

/-- A subscription that is taken keeps its slot whatever else is subscribed to. -/
theorem subscribe_keeps (hactive : (s.subscriptions i).active = true) (env : Env) (seq : UInt16)
    (kind id : UInt8) (rateHz : UInt16) (flags : UInt8) :
    (subscribe b env s seq kind id rateHz flags).1.subscriptions i = s.subscriptions i := by
  rw [subscribe]
  cases readResourceValue b env s 0 kind id with
  | none => rfl
  | some value =>
    dsimp only
    cases hfree : (indices kMaxSubscriptions.toNat).find?
        fun i => !(s.subscriptions i).active with
    | none => rfl
    | some j =>
      have hidle := List.find?_some hfree
      have hother : i ≠ j := by
        rintro rfl
        rw [hactive] at hidle
        cases hidle
      exact setAt_of_ne hother _ _

theorem unsubscribe_keeps (h : Watches kind id flags last (s.subscriptions i)) (seq : UInt16)
    {kind' id' : UInt8} (hother : ¬(kind' = kind ∧ id' = id)) :
    (unsubscribe s seq kind' id').1.subscriptions i = s.subscriptions i := by
  rw [unsubscribe]
  dsimp only
  apply if_neg
  rw [h.kind, h.id]
  intro hmatch
  simp only [Bool.and_eq_true, decide_eq_true_eq] at hmatch
  exact hother ⟨hmatch.1.2.symm, hmatch.2.symm⟩

/-- Nothing but an update touches a subscription that stays. -/
theorem step_keeps (h : Watches kind id flags last (s.subscriptions i)) {e : Event}
    (hstays : Stays b i kind id s e) (hother : isUpdate e = false) :
    (step b s e).subscriptions i = s.subscriptions i := by
  cases e with
  | update env => cases hother
  | handle env p =>
    rw [step, react, handle_eq]
    obtain ⟨hkept, hreset⟩ := hstays
    cases hdecode : decode p with
    | error code => rfl
    | ok r =>
      rw [hdecode] at hkept hreset
      rw [answer]
      by_cases hr : keepsQueueing r = true
      · rw [execute_subscriptions b env s p.seq hr]
      · cases r with
        | subscribe kind' id' rateHz flags' => exact subscribe_keeps h.active ..
        | unsubscribe kind' id' =>
          apply unsubscribe_keeps h
          rintro ⟨rfl, rfl⟩
          exact hkept rfl
        | resetConfig => exact absurd rfl hreset
        | _ => exact absurd rfl hr
  | counterTick env id =>
    simp only [step, react, counterTick]
    split_ifs <;> rfl
  | encoderTick env id =>
    simp only [step, react, encoderTick]
    split_ifs <;> rfl

theorem changes_cons (kind flags : UInt8) (last : Option Sample) (sample : Sample)
    (later : List Sample) :
    changes kind flags (last.toList ++ sample :: later) =
      (if last.any fun before => wanted kind flags before.value sample.value then [sample]
        else []) ++ changes kind flags (sample :: later) := by
  cases last with
  | none => rfl
  | some before =>
    change (List.filterMap _ ((before, sample) :: (sample :: later).zip later)) = _
    rw [List.filterMap_cons, Option.any_some]
    by_cases hwanted : wanted kind flags before.value sample.value = true
    · rw [if_pos hwanted, if_pos hwanted]
      rfl
    · rw [if_neg hwanted, if_neg hwanted]
      rfl

theorem samples_cons {e : Event} (hother : isUpdate e = false) (es : List Event) :
    samples b i kind id s (e :: es) = samples b i kind id (step b s e) es := by
  cases e with
  | update env => cases hother
  | _ => rfl

theorem calls_other {e : Event} (hother : isUpdate e = false) : calls b s e = [] := by
  cases e with
  | update env => cases hother
  | _ => rfl

theorem eventsOf_append (i : UInt8) (before later : List Call) :
    eventsOf i (before ++ later) = eventsOf i before ++ eventsOf i later := by
  rw [eventsOf, callsOf, List.filter_append, List.filter_append]
  rfl

/-- Along a run, by induction: the slot always holds the last sample. -/
theorem run_events (hi : i.toNat < kMaxSubscriptions.toNat) (hchange : flags &&& 0x01 ≠ 0)
    (h : Watches kind id flags last (s.subscriptions i)) {es : List Event}
    (hstays : EachStep (step b) (Stays b i kind id) s es) :
    eventsOf i (runCalls b s es) =
        (changes kind flags (last.toList ++ samples b i kind id s es)).map
          (eventCall i kind id) ∧
      (samples b i kind id s es).length = es.countP isUpdate := by
  induction es generalizing s last with
  | nil =>
    refine ⟨?_, rfl⟩
    cases last <;> rfl
  | cons e es ih =>
    obtain ⟨hnow, hlater⟩ := hstays
    by_cases hupdate : isUpdate e = true
    · cases e with
      | update env =>
        obtain ⟨sample, hsample⟩ := Option.isSome_iff_exists.mp hnow
        obtain ⟨hevents, hnext⟩ := update_events hi h hchange hsample
        obtain ⟨hrest, hcount⟩ := ih hnext hlater
        have hsamples : samples b i kind id s (.update env :: es) =
            sample :: samples b i kind id (step b s (.update env)) es := by
          rw [samples, hsample]
          rfl
        rw [runCalls, eventsOf_append, hevents, hrest, hsamples, changes_cons, List.map_append,
          List.length_cons, hcount, List.countP_cons_of_pos hupdate]
        refine ⟨?_, rfl⟩
        split_ifs <;> rfl
      | _ => cases hupdate
    · rw [Bool.not_eq_true] at hupdate
      have hslot := step_keeps h hnow hupdate
      obtain ⟨hrest, hcount⟩ := ih (hslot.symm ▸ h) hlater
      rw [runCalls, calls_other hupdate, List.nil_append, samples_cons hupdate, hcount]
      exact ⟨hrest, (List.countP_cons_of_neg (by simp [hupdate])).symm⟩

theorem subscribes_watches {rateHz : UInt16} {e : Event}
    (h : Subscribes b i kind id rateHz flags s e) :
    i.toNat < kMaxSubscriptions.toNat ∧
      Watches kind id flags none ((step b s e).subscriptions i) := by
  cases e with
  | handle env p =>
    obtain ⟨hdecode, hread, hfree⟩ := h
    refine ⟨(mem_indices (by decide) i).mp (List.mem_of_find?_eq_some hfree), ?_⟩
    rw [step, react, handle_eq, hdecode, answer, execute, subscribed_slot hread hfree, setAt_self]
    constructor
    · rfl
    · rfl
    · rfl
    · rfl
    · rfl
    · rintro - ⟨⟩
  | _ => cases h

theorem subscribes_undisturbed {rateHz : UInt16} {e : Event}
    (h : Subscribes b i kind id rateHz flags s e) : Undisturbed s (step b s e) := by
  apply about_undisturbed
  cases e with
  | handle env p => rw [aboutSubscriptions, h.1]
  | _ => cases h

end Runs

theorem run_handed (b : Board) (s : State) (es : List Event) :
    EachStep (step b) (Handed b) s es := by
  induction es generalizing s with
  | nil => trivial
  | cons e es ih =>
    refine ⟨?_, ih (step b s e)⟩
    cases e with
    | update env => exact updateSubscriptions_calls b env _
    | _ => trivial

/-- From any state: once a subscription made for changes is in its slot and as long as it stays
there, every update samples its resource once, and of what the updates hand to `queue_async` the
events for the slot are the changes between these samples that are wanted. Another run in which
the slot is taken at another rate, among other subscriptions, hands over the same. -/
theorem change_events_exact (b : Board) (s : State) (i kind id : UInt8) (rateHz : UInt16)
    (flags : UInt8) (e : Event) (es : List Event)
    (htaken : Subscribes b i kind id rateHz flags s e) (hchange : flags &&& 0x01 ≠ 0)
    (hstays : EachStep (step b) (Stays b i kind id) (step b s e) es) :
    EachStep (step b) (Handed b) (step b s e) es ∧
      (samples b i kind id (step b s e) es).length = es.countP isUpdate ∧
      eventsOf i (runCalls b (step b s e) es) =
        (changes kind flags (samples b i kind id (step b s e) es)).map (eventCall i kind id) ∧
      ∀ s' rateHz' e' es', Undisturbed s s' → Subscribes b i kind id rateHz' flags s' e' →
        SameOtherwise es es' → EachStep (step b) (Stays b i kind id) (step b s' e') es' →
        eventsOf i (runCalls b (step b s' e') es') =
          eventsOf i (runCalls b (step b s e) es) := by
  obtain ⟨hi, hwatches⟩ := subscribes_watches htaken
  obtain ⟨hevents, hcount⟩ := run_events hi hchange hwatches hstays
  refine ⟨run_handed b (step b s e) es, hcount, hevents, ?_⟩
  intro s' rateHz' e' es' hsame htaken' hotherwise hstays'
  obtain ⟨-, hwatches'⟩ := subscribes_watches htaken'
  obtain ⟨hevents', -⟩ := run_events hi hchange hwatches' hstays'
  have hstart : Undisturbed (step b s e) (step b s' e') :=
    ((undisturbed_symm (subscribes_undisturbed htaken)).trans hsame).trans
      (subscribes_undisturbed htaken')
  rw [hevents', hevents, Option.toList_none, List.nil_append, List.nil_append,
    samples_otherwise b hstart i kind id hotherwise]

/-- An update that finds every pin at this level. -/
def updateAt (high : Bool) : Event := .update { envAt 0 with digitalRead := fun _ _ => high }

def subscribePin (pin rateHz flags : UInt8) : Event :=
  .handle (envAt 0) (commandPacket 1 [0x60, 1, pin, rateHz, 0, flags])

def bounces : List Event := [updateAt false, updateAt true, updateAt false, updateAt true]

/-- The rising edges of pin 5 are reported, at 100 Hz and next to the subscription of another pin
just as well. -/
theorem rising_edges_reported :
    let reported := [eventCall 0 1 5 ⟨1, 0⟩, eventCall 0 1 5 ⟨1, 0⟩]
    let first := step sampleBoard {} (subscribePin 5 0 3)
    let second := step sampleBoard {} (subscribePin 5 100 3)
    eventsOf 0 (runCalls sampleBoard first bounces) = reported ∧
      eventsOf 0 (runCalls sampleBoard second (subscribePin 6 50 1 :: bounces)) = reported := by
  intro reported first second
  have hstays : EachStep (step sampleBoard) (Stays sampleBoard 0 1 5) first bounces :=
    ⟨rfl, rfl, rfl, rfl, trivial⟩
  have hstays' : EachStep (step sampleBoard) (Stays sampleBoard 0 1 5) second
      (subscribePin 6 50 1 :: bounces) :=
    ⟨⟨nofun, nofun⟩, rfl, rfl, rfl, rfl, trivial⟩
  obtain ⟨-, -, hevents, hother⟩ := change_events_exact sampleBoard {} 0 1 5 0 3
    (subscribePin 5 0 3) bounces ⟨rfl, rfl, rfl⟩ (by decide) hstays
  have hreported : eventsOf 0 (runCalls sampleBoard first bounces) = reported :=
    hevents.trans (by decide +kernel)
  refine ⟨hreported, Eq.trans ?_ hreported⟩
  exact hother {} 100 (subscribePin 5 100 3) (subscribePin 6 50 1 :: bounces) (.refl {})
    ⟨rfl, rfl, rfl⟩ rfl hstays'

end ChangeEvents
