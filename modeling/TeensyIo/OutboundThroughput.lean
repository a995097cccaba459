import TeensyIo.ArrivalCurves
import TeensyIo.OutboundQueue
import TeensyIo.SubscriptionTable

/-! # How much the firmware can report

An update writes sixteen frames if the serial buffer takes them. Subscriptions that queue no more
than this, apart from bursts the ring has room for, lose nothing. -/
namespace OutboundThroughput

open WireCommands FirmwareState FirmwareCommands FirmwareUpdate FirmwareRequests
open FirmwareOutcomes FirmwareDevice FirmwareResponses FirmwareRing SubscriptionCalls
open OutboundQueue MachineRuns ArrivalCurves
open FirmwareProtocol (Packet PacketWriter.encodedSize kMaxPayloadSize)

/-- Telemetry has a payload of six bytes and an event one of ten. -/
def largestPayload : ℕ := 10

/-- Whenever it is asked, the serial buffer has room for any frame of the ring. -/
def Roomy (env : Env) : Prop := ∀ call, 1 + 6 + largestPayload + 2 ≤ env.availableForWrite call

/-- The calls of `queue_async` in an update. -/
def queuedBy (b : Board) (env : Env) (s : State) : List Call :=
  updateCalls b env (flushAsync env 0 8 (checkWatchdog env s)).1

/-! ### The ring -/

structure RingOk (s : State) : Prop where
  sound : RingSound s
  small : ∀ w ∈ held s, w.payload.length ≤ largestPayload

theorem ringOk_initial : RingOk {} := by
  constructor
  · exact ringSound_initial
  · intro w hw
    cases hw

theorem held_length (s : State) : (held s).length = s.outboundCount.toNat := by
  rw [held, List.length_map, queued_length]

section Ring

variable {s : State}

theorem held_pop (hs : RingSound s) (hsome : 0 < s.outboundCount.toNat) :
    held s = written (s.outbound s.outboundHead) :: held (popOldest s) := by
  rw [held, popOldest_queued hs hsome, List.map_cons]
  rfl

theorem RingOk.pop (hs : RingOk s) (hsome : 0 < s.outboundCount.toNat) :
    RingOk (popOldest s) := by
  constructor
  · exact popOldest_sound hs.sound hsome
  · intro w hw
    apply hs.small
    rw [held_pop hs.sound hsome]
    exact List.mem_cons_of_mem _ hw

/-- With room, a flush writes as many frames as it may, the oldest first. -/
theorem flushAsync_roomy {env : Env} (hroomy : Roomy env) (call n : ℕ) (hs : RingOk s) :
    framesWritten (flushAsync env call n s).2 = (held s).take n ∧
      held (flushAsync env call n s).1 = (held s).drop n ∧ RingOk (flushAsync env call n s).1 := by
  induction n generalizing call s with
  | zero => exact ⟨rfl, rfl, hs⟩
  | succ n ih =>
    by_cases hempty : s.outboundCount = 0
    · have hnone : held s = [] := by
        rw [← List.length_eq_zero_iff, held_length, hempty]
        rfl
      rw [flushAsync, if_pos hempty, hnone]
      exact ⟨rfl, rfl, hs⟩
    · have hsome : 0 < s.outboundCount.toNat := Nat.pos_of_ne_zero fun hzero =>
        hempty (UInt8.toNat_inj.mp hzero)
      have hheld := held_pop hs.sound hsome
      have hsmall : (s.outbound s.outboundHead).payload.length ≤ largestPayload := by
        apply hs.small (written (s.outbound s.outboundHead))
        rw [hheld]
        exact List.mem_cons_self
      have hspace : ¬ env.availableForWrite call < (PacketWriter.encodedSize
          (UInt16.ofNat (s.outbound s.outboundHead).payload.length)).toNat := by
        rw [encodedSize_eq (hsmall.trans (by decide))]
        have hroom := hroomy call
        omega
      obtain ⟨hwritten, hleft, hring⟩ := ih (call + 1) (hs.pop hsome)
      rw [flushAsync, if_neg hempty]
      dsimp only
      rw [if_neg hspace, hheld]
      refine ⟨?_, hleft, hring⟩
      rw [List.take_succ_cons, ← hwritten]
      rfl

/-- With room in the ring, the calls queue their frames behind the others. -/
theorem enqueue_held (hs : RingOk s) {calls : List Call}
    (hsmall : ∀ c ∈ calls, c.payload.length ≤ largestPayload)
    (hroom : (held s).length + calls.length ≤ kAsyncOutboundFrames.toNat) :
    held (calls.foldl enqueue s) = held s ++ calls.map callFrame ∧
      RingOk (calls.foldl enqueue s) ∧
      (calls.foldl enqueue s).outboundDropped = s.outboundDropped := by
  induction calls generalizing s with
  | nil => exact ⟨(List.append_nil _).symm, hs, rfl⟩
  | cons c calls ih =>
    have hc := hsmall c List.mem_cons_self
    have hfits : c.payload.length ≤ kMaxPayloadSize := hc.trans (by decide)
    rw [List.length_cons, held_length] at hroom
    have hfree : ¬ s.outboundCount ≥ kAsyncOutboundFrames := by
      intro hfull
      have hle := UInt8.le_iff_toNat_le.mp hfull
      omega
    have hnext : held (enqueue s c) = held s ++ [callFrame c] := by
      rw [enqueue, held_queueAsync hs.sound c.type hfits, withRoom, if_neg hfree]
      rfl
    have hok : RingOk (enqueue s c) := by
      constructor
      · exact queueAsync_sound hs.sound c.type c.payload
      · intro w hw
        rw [hnext] at hw
        rcases List.mem_append.mp hw with hw | hw
        · exact hs.small w hw
        · obtain rfl := List.mem_singleton.mp hw
          exact hc
    have hdropped : (enqueue s c).outboundDropped = s.outboundDropped := by
      rw [enqueue, dropped_queueAsync c.type hfits, evicted, if_neg hfree]
      exact UInt32.add_zero _
    obtain ⟨hheld, hring, hcount⟩ := ih hok (fun c hc => hsmall c (List.mem_cons_of_mem _ hc))
      (by rw [hnext, List.length_append, held_length, List.length_singleton]; omega)
    rw [List.foldl_cons, hheld, hnext, List.append_assoc]
    exact ⟨rfl, hring, hcount.trans hdropped⟩

end Ring

/-! ### An update -/

section Update

variable (b : Board) (env : Env)

theorem turnCalls_small (now : UInt32) (s : State) (i : UInt8) :
    ∀ c ∈ turnCalls b env now s i, c.payload.length ≤ largestPayload := by
  intro c hc
  obtain ⟨value, -, rfl | rfl⟩ := mem_turnCalls b env now hc
  · exact Nat.le_refl _
  · exact (by decide : 6 ≤ 10)

/-- Where the ring has room for what is queued, an update loses nothing. -/
theorem update_flow {s : State} (hroomy : Roomy env) (hs : RingOk s)
    (hroom : ((held s).drop 8).length + (queuedBy b env s).length ≤ kAsyncOutboundFrames.toNat) :
    held (update b env s).1 =
        ((held s).drop 8 ++ (queuedBy b env s).map callFrame).drop 8 ∧
      framesWritten (update b env s).2 = (held s).take 8 ++
        ((held s).drop 8 ++ (queuedBy b env s).map callFrame).take 8 ∧
      RingOk (update b env s).1 ∧
      (update b env s).1.outboundDropped = s.outboundDropped := by
  have hchecked : RingOk (checkWatchdog env s) := ⟨hs.sound, hs.small⟩
  obtain ⟨hwritten, hleft, hring⟩ := flushAsync_roomy hroomy 0 8 hchecked
  have hdropped := dropped_flushAsync env 0 8 (checkWatchdog env s)
  generalize hfirst : flushAsync env 0 8 (checkWatchdog env s) = first at *
  have hqueued : queuedBy b env s = updateCalls b env first.1 := by rw [queuedBy, hfirst]
  rw [hqueued] at hroom ⊢
  obtain ⟨slots, hslots⟩ := updateSubscriptions_calls b env first.1
  obtain ⟨hheld, hok, hcount⟩ := enqueue_held hring
    (forall_passCalls b env _ (turnCalls_small b env _) first.1 _) (by rw [hleft]; exact hroom)
  have hlater : RingOk (updateSubscriptions b env first.1) := by
    rw [hslots]
    exact ⟨hok.sound, hok.small⟩
  obtain ⟨hwritten', hleft', hring'⟩ := flushAsync_roomy hroomy 8 8 hlater
  have hsame : held (updateSubscriptions b env first.1) =
      (held s).drop 8 ++ (updateCalls b env first.1).map callFrame := by
    rw [hslots]
    exact hheld.trans (congrArg (· ++ _) hleft)
  rw [hsame] at hwritten' hleft'
  rw [update, hfirst]
  refine ⟨hleft', ?_, hring', ?_⟩
  · dsimp only
    rw [framesWritten_append, framesWritten_safeOutputsOnExpiry, List.nil_append,
      framesWritten_append, hwritten, hwritten']
    rfl
  · dsimp only
    rw [dropped_flushAsync, hslots]
    exact hcount.trans hdropped

end Update

/-! ### Everything else -/

/-- What an event other than an update can do to the ring: nothing, or empty it. -/
inductive RingAfter (s t : State) : Prop where
  | same : held t = held s → (RingSound s → RingSound t) →
      t.outboundDropped = s.outboundDropped → RingAfter s t
  | emptied : held t = [] → RingSound t → t.outboundDropped = 0 → RingAfter s t

def ring (s : State) : (UInt8 → OutboundFrame) × UInt8 × UInt8 × UInt8 × UInt32 :=
  (s.outbound, s.outboundHead, s.outboundTail, s.outboundCount, s.outboundDropped)

theorem held_of_ring {s t : State} (h : ring t = ring s) : held t = held s := by
  obtain ⟨hframes, hhead, -, hcount, -⟩ : _ ∧ _ ∧ _ ∧ _ ∧ _ := by
    simpa only [ring, Prod.mk.injEq] using h
  rw [held, held, queued, queued, hframes, hhead, hcount]

theorem ringAfter_of_ring {s t : State} (h : ring t = ring s) : RingAfter s t := by
  have hheld := held_of_ring h
  obtain ⟨-, hhead, htail, hcount, hdropped⟩ : _ ∧ _ ∧ _ ∧ _ ∧ _ := by
    simpa only [ring, Prod.mk.injEq] using h
  refine .same hheld (fun hs => ?_) hdropped
  rw [RingSound, hhead, htail, hcount]
  exact hs

/-- The request of a packet empties the ring only if it is `ResetConfig`. -/
theorem handle_ring (b : Board) (env : Env) (s : State) (p : Packet)
    (hreset : decode p ≠ .ok .resetConfig) : ring (handle b env s p).1 = ring s := by
  refine handle_view b env s ring ?_
  intro r out hdecode hexecuted
  cases hexecuted with
  | resetConfig => exact absurd hdecode hreset
  | _ => rfl

theorem react_ring_same (b : Board) (s : State) {e : Event}
    (hother : ChangeEvents.isUpdate e = false) (hreset : ¬ Carries .resetConfig e) :
    ring (react b s e).1 = ring s := by
  cases e with
  | update env => cases hother
  | handle env p => exact handle_ring b env s p hreset
  | counterTick env id =>
    change ring (counterTick env s id) = ring s
    rw [counterTick]
    split_ifs <;> rfl
  | encoderTick env id =>
    change ring (encoderTick env s id) = ring s
    rw [encoderTick]
    split_ifs <;> rfl

theorem react_ring (b : Board) (s : State) {e : Event}
    (hother : ChangeEvents.isUpdate e = false) : RingAfter s (react b s e).1 := by
  by_cases hreset : Carries .resetConfig e
  · cases e with
    | handle env p =>
      have hhandle : (react b s (.handle env p)).1 = (resetConfig b s p.seq).1 := by
        change (handle b env s p).1 = _
        rw [handle_eq, show decode p = _ from hreset]
        rfl
      rw [hhandle]
      exact .emptied rfl ringSound_initial rfl
    | _ => exact hreset.elim
  · exact ringAfter_of_ring (react_ring_same b s hother hreset)

/-! ### Runs -/

/-- The firmware and how many frames each of its updates has queued. -/
structure Load where
  device : State := {}
  counts : List ℕ := []

def queuedNow (b : Board) (s : State) : Event → List ℕ
  | .update env => [(queuedBy b env s).length]
  | _ => []

def step (b : Board) (r : Load) (e : Event) : Load :=
  { device := (react b r.device e).1, counts := r.counts ++ queuedNow b r.device e }

def RoomyUpdate : Event → Prop
  | .update env => Roomy env
  | _ => True

/-- What was held and what an update queues is written, in order, or still held behind it. -/
def Lossless (b : Board) (burst : ℕ) (r : Load) : Event → Prop
  | .update env =>
    held r.device ++ (queuedBy b env r.device).map callFrame =
        framesWritten (update b env r.device).2 ++ held (update b env r.device).1 ∧
      (held (update b env r.device).1).length ≤ burst + 8 ∧
      (update b env r.device).1.outboundDropped = 0
  | _ => True

/-- The frames of the ring that are written in a run. -/
def sent (b : Board) : State → List Event → List Written
  | _, [] => []
  | s, .update env :: events =>
    framesWritten (update b env s).2 ++ sent b (update b env s).1 events
  | s, e :: events => sent b (react b s e).1 events

def updates (events : List Event) : ℕ := events.countP ChangeEvents.isUpdate

/-- What is left in the ring after a first flush is bounded by the arrivals alone. -/
structure Within (r : Load) : Prop where
  ring : RingOk r.device
  waiting : ((held r.device).drop 8).length ≤ carried 16 0 r.counts
  dropped : r.device.outboundDropped = 0

theorem within_initial : Within {} := by
  constructor
  · exact ringOk_initial
  · exact Nat.le_refl _
  · rfl

section Runs

variable {b : Board} {burst : ℕ}

theorem counts_after (r : Load) (events : List Event) :
    r.counts <+: (after (step b) r events).counts := by
  induction events generalizing r with
  | nil => exact List.prefix_refl r.counts
  | cons e events ih => exact (List.prefix_append _ _).trans (ih (step b r e))

theorem Within.backlog {r : Load} (h : Within r) (hcurve : Constrained 16 burst r.counts) :
    (held r.device).length ≤ burst + 8 := by
  have hwaiting := h.waiting.trans (carried_le hcurve)
  rw [List.length_drop] at hwaiting
  omega

/-- The ring has room for what an update queues. -/
theorem Within.room {r : Load} (h : Within r) (hburst : burst ≤ 48) {env : Env}
    (hcurve : Constrained 16 burst (step b r (.update env)).counts) :
    ((held r.device).drop 8).length + (queuedBy b env r.device).length ≤
      kAsyncOutboundFrames.toNat := by
  have hpeak : carried 16 0 r.counts + (queuedBy b env r.device).length ≤ 16 + burst :=
    peak_le hcurve
  have hwaiting := h.waiting
  change _ ≤ 64
  omega

theorem Within.step {r : Load} (h : Within r) (hburst : burst ≤ 48) {e : Event}
    (hroomy : RoomyUpdate e) (hcurve : Constrained 16 burst (step b r e).counts) :
    Within (step b r e) := by
  cases hupdate : ChangeEvents.isUpdate e with
  | true =>
    cases e with
    | update env =>
      obtain ⟨hheld, -, hring, hdropped⟩ := update_flow b env hroomy h.ring (h.room hburst hcurve)
      constructor
      · exact hring
      · have hwaiting := h.waiting
        change ((held (update b env r.device).1).drop 8).length ≤
          carried 16 0 (r.counts ++ [(queuedBy b env r.device).length])
        rw [hheld, List.drop_drop, List.length_drop, List.length_append, List.length_map,
          carried_append, carried, carried]
        omega
      · exact hdropped.trans h.dropped
    | _ => cases hupdate
  | false =>
    have hcounts : (OutboundThroughput.step b r e).counts = r.counts := by
      cases e with
      | update env => cases hupdate
      | _ => exact List.append_nil r.counts
    cases react_ring b r.device hupdate with
    | same hheld hring hdropped =>
      constructor
      · exact ⟨hring h.ring.sound, hheld ▸ h.ring.small⟩
      · rw [hcounts]
        exact (congrArg (fun frames => (frames.drop 8).length) hheld).trans_le h.waiting
      · exact hdropped.trans h.dropped
    | emptied hheld hring hdropped =>
      constructor
      · exact ⟨hring, hheld ▸ fun w hw => absurd hw List.not_mem_nil⟩
      · exact (congrArg (fun frames => (frames.drop 8).length) hheld).trans_le (Nat.zero_le _)
      · exact hdropped

theorem Within.lossless {r : Load} (h : Within r) (hburst : burst ≤ 48) {e : Event}
    (hroomy : RoomyUpdate e)
    (hcurve : Constrained 16 burst (OutboundThroughput.step b r e).counts) :
    Lossless b burst r e := by
  cases e with
  | update env =>
    have hnext := h.step hburst hroomy hcurve
    obtain ⟨hheld, hwritten, -, -⟩ := update_flow b env hroomy h.ring (h.room hburst hcurve)
    refine ⟨?_, hnext.backlog hcurve, hnext.dropped⟩
    rw [hheld, hwritten, List.append_assoc, List.take_append_drop, ← List.append_assoc,
      List.take_append_drop]
  | _ => trivial

theorem Within.along (hburst : burst ≤ 48) {events : List Event} {r : Load} (h : Within r)
    (hroomy : ∀ e ∈ events, RoomyUpdate e)
    (hcurve : Constrained 16 burst (after (OutboundThroughput.step b) r events).counts) :
    EachStep (OutboundThroughput.step b) (Lossless b burst) r events ∧
      Within (after (OutboundThroughput.step b) r events) := by
  induction events generalizing r with
  | nil => exact ⟨trivial, h⟩
  | cons e events ih =>
    have he := hroomy e List.mem_cons_self
    have hnext : Constrained 16 burst (OutboundThroughput.step b r e).counts :=
      hcurve.part (counts_after _ events).isInfix
    obtain ⟨hlossless, hwithin⟩ := ih (h.step hburst he hnext)
      (fun e he => hroomy e (List.mem_cons_of_mem _ he)) hcurve
    exact ⟨⟨h.lossless hburst he hnext, hlossless⟩, hwithin⟩

/-- An update writes sixteen frames of those that were there, or all of them. -/
theorem take_written {frames queued : List Written} {n : ℕ} {later : List Written}
    (hlater : ((frames.drop 8 ++ queued).drop 8).take (16 * n) <+: later) :
    frames.take (16 * (n + 1)) <+: frames.take 8 ++ (frames.drop 8 ++ queued).take 8 ++ later := by
  refine List.IsPrefix.trans ?_ ((List.prefix_append_right_inj _).mpr hlater)
  have hwhole : frames.take 8 ++ (frames.drop 8 ++ queued).take 8 ++
      (frames.drop 8 ++ queued).drop 8 = frames ++ queued := by
    rw [List.append_assoc, List.take_append_drop, ← List.append_assoc, List.take_append_drop]
  refine @List.prefix_of_prefix_length_le _ _ _ (frames ++ queued) ?_ ?_ ?_
  · exact (List.take_prefix _ _).trans (List.prefix_append _ _)
  · rw [← hwhole]
    exact (List.prefix_append_right_inj _).mpr (List.take_prefix _ _)
  · simp only [List.length_append, List.length_take, List.length_drop]
    omega

theorem Within.sent_prefix (hburst : burst ≤ 48) {events : List Event} {r : Load} (h : Within r)
    (hroomy : ∀ e ∈ events, RoomyUpdate e)
    (hcurve : Constrained 16 burst (after (OutboundThroughput.step b) r events).counts)
    (hreset : ∀ e ∈ events, ¬ Carries .resetConfig e) :
    (held r.device).take (16 * updates events) <+: sent b r.device events := by
  induction events generalizing r with
  | nil => exact List.prefix_refl []
  | cons e events ih =>
    have he := hroomy e List.mem_cons_self
    have hnext : Constrained 16 burst (OutboundThroughput.step b r e).counts :=
      hcurve.part (counts_after _ events).isInfix
    have hlater := ih (h.step hburst he hnext)
      (fun e he => hroomy e (List.mem_cons_of_mem _ he)) hcurve
      (fun e he => hreset e (List.mem_cons_of_mem _ he))
    cases hupdate : ChangeEvents.isUpdate e with
    | true =>
      cases e with
      | update env =>
        obtain ⟨hheld, hwritten, -, -⟩ := update_flow b env he h.ring (h.room hburst hnext)
        change (held (update b env r.device).1).take _ <+: sent b (update b env r.device).1 events
          at hlater
        rw [hheld] at hlater
        rw [sent, hwritten, updates, List.countP_cons_of_pos hupdate]
        exact take_written hlater
      | _ => cases hupdate
    | false =>
      have hsame := react_ring_same b r.device hupdate (hreset e List.mem_cons_self)
      have hwritten : sent b r.device (e :: events) = sent b (react b r.device e).1 events := by
        cases e with
        | update env => cases hupdate
        | _ => rfl
      change (held (react b r.device e).1).take _ <+: _ at hlater
      rw [held_of_ring hsame] at hlater
      rw [hwritten, updates, List.countP_cons_of_neg (by rw [hupdate]; exact Bool.false_ne_true)]
      exact hlater

end Runs

/-- Where no updates in a row queue more than sixteen frames for each of them and a burst of at
most 48 on top, no frame is ever given up and no more than the burst and eight frames wait. -/
theorem nothing_lost_within_curve (b : Board) {burst : ℕ} (hburst : burst ≤ 48)
    (events : List Event) (hroomy : ∀ e ∈ events, RoomyUpdate e)
    (hcurve : Constrained 16 burst (after (step b) {} events).counts) :
    EachStep (step b) (Lossless b burst) {} events :=
  (within_initial.along hburst hroomy hcurve).1

/-- Ten pins with telemetry at 100 Hz. -/
def tenPins : List Event :=
  (indices 10).map fun pin => ChangeEvents.subscribePin pin 100 0

theorem updateAt_roomy (high : Bool) : RoomyUpdate (ChangeEvents.updateAt high) :=
  fun _ => (by decide : ((1 + 6 + largestPayload + 2 : ℕ) : ℤ) ≤ 64)

theorem tenPins_roomy (updates : List Bool) :
    ∀ e ∈ tenPins ++ updates.map ChangeEvents.updateAt, RoomyUpdate e := by
  intro e he
  rcases List.mem_append.mp he with he | he
  · obtain ⟨pin, -, rfl⟩ := List.mem_map.mp he
    trivial
  · obtain ⟨high, -, rfl⟩ := List.mem_map.mp he
    exact updateAt_roomy high

theorem ten_frames_kept :
    let events := tenPins ++ [ChangeEvents.updateAt true]
    (after (step sampleBoard) {} events).counts = [10] ∧
      EachStep (step sampleBoard) (Lossless sampleBoard 0) {} events := by
  intro events
  have hcounts : (after (step sampleBoard) {} events).counts = [10] := by decide +kernel
  refine ⟨hcounts, ?_⟩
  apply nothing_lost_within_curve sampleBoard (by decide) events (tenPins_roomy [true])
  rw [hcounts]
  exact constrained_of_le (by decide)

/-- Every frame that waits is written within as many updates as it takes to write the burst. -/
theorem reported_in_time (b : Board) {burst : ℕ} (hburst : burst ≤ 48) (before later : List Event)
    (hroomy : ∀ e ∈ before ++ later, RoomyUpdate e)
    (hcurve : Constrained 16 burst (after (step b) {} (before ++ later)).counts)
    (hreset : ∀ e ∈ later, ¬ Carries .resetConfig e)
    (henough : burst + 8 ≤ 16 * updates later) :
    let r := after (step b) {} before
    held r.device <+: sent b r.device later := by
  intro r
  rw [after_append] at hcurve
  have hbefore : Constrained 16 burst r.counts := hcurve.part (counts_after r later).isInfix
  have hr := (within_initial.along hburst
    (fun e he => hroomy e (List.mem_append_left _ he)) hbefore).2
  have hbacklog := hr.backlog hbefore
  have hsent := hr.sent_prefix hburst (fun e he => hroomy e (List.mem_append_right _ he)) hcurve
    hreset
  rw [List.take_of_length_le (by omega)] at hsent
  exact hsent

/-- Two of the ten frames wait for the next update. -/
theorem two_frames_follow :
    let r := after (step sampleBoard) {} (tenPins ++ [ChangeEvents.updateAt true])
    (held r.device).length = 2 ∧
      held r.device <+: sent sampleBoard r.device [ChangeEvents.updateAt true] := by
  refine ⟨by decide +kernel, ?_⟩
  refine @reported_in_time sampleBoard 0 (by decide) _ _ ?_ ?_ ?_ (by decide)
  · rw [List.append_assoc]
    exact tenPins_roomy [true, true]
  · exact constrained_of_le (by decide +kernel)
  · intro e he
    obtain rfl := List.mem_singleton.mp he
    exact id

/-! ### One frame for each subscription -/

/-- Telemetry or events, but not both. -/
def OneKind (rateHz : UInt16) (flags : UInt8) : Prop := rateHz = 0 ∨ flags &&& 0x01 = 0

/-- Every subscription asked for is to either telemetry or events. -/
def AsksForOne (e : Event) : Prop :=
  ∀ kind id rateHz flags, Carries (.subscribe kind id rateHz flags) e → OneKind rateHz flags

def AllOneKind (s : State) : Prop :=
  ∀ c ∈ SubscriptionTable.held s, OneKind c.rateHz c.flags

section OneKind

variable {b : Board} {env : Env} {s : State}

theorem turnCalls_le (now : UInt32) {i : UInt8} (hone : (s.subscriptions i).active = true →
      OneKind (s.subscriptions i).rateHz (s.subscriptions i).flags) :
    (turnCalls b env now s i).length ≤ 1 := by
  rcases turnCalls_cases b env now s i with hnone | ⟨hactive, value, -, hcalls⟩
  · rw [hnone]
    exact Nat.zero_le 1
  · rw [hcalls, List.length_append]
    rcases hone hactive with hrate | hflags
    · rw [if_pos (Or.inl hrate)]
      split_ifs <;> simp
    · have hquiet : eventDue (s.subscriptions i) value = false := by
        rw [eventDue, hflags]
        rfl
      rw [hquiet, if_neg Bool.false_ne_true]
      split_ifs <;> simp

theorem passCalls_le (now : UInt32) {is : List UInt8} (hnodup : is.Nodup)
    (hone : ∀ i ∈ is, (turnCalls b env now s i).length ≤ 1) :
    (passCalls b env now s is).length ≤ is.length := by
  induction is generalizing s with
  | nil => exact Nat.zero_le 0
  | cons i is ih =>
    obtain ⟨hi, hnodup⟩ := List.nodup_cons.mp hnodup
    have hfirst := hone i List.mem_cons_self
    have hlater := ih (s := updateSubscription b env now s i) hnodup (by
      intro j hj
      have hne : j ≠ i := by
        rintro rfl
        exact hi hj
      rw [(updateSubscription_sameTurn hne s).turnCalls]
      exact hone j (List.mem_cons_of_mem i hj))
    rw [passCalls, List.length_append, List.length_cons]
    omega

theorem queuedBy_le (h : AllOneKind s) : (queuedBy b env s).length ≤ 16 := by
  have hslots : (flushAsync env 0 8 (checkWatchdog env s)).1.subscriptions = s.subscriptions :=
    flushAsync_subscriptions env 0 8 _
  refine passCalls_le (env.millis 1) nodup_indices ?_
  intro i hi
  apply turnCalls_le
  rw [hslots]
  intro hactive
  exact h _ (SlotTables.mem_bag.mpr ⟨i, hi, SubscriptionTable.subscriptionOf_active hactive⟩)

/-- The table holds only what has been asked for. -/
theorem allOneKind_react (h : AllOneKind s) {e : Event} (hasks : AsksForOne e) :
    AllOneKind (react b s e).1 := by
  intro c hc
  have hheld : SubscriptionTable.held (react b s e).1 =
      (SubscriptionTable.change b s e).apply (SubscriptionTable.held s) :=
    (SubscriptionTable.step_refines b ⟨s, {}⟩ e).held
  rw [hheld] at hc
  cases e with
  | update env => exact h c (Multiset.mem_filter.mp hc).1
  | counterTick env id => exact h c hc
  | encoderTick env id => exact h c hc
  | handle env p =>
    rw [SubscriptionTable.change] at hc
    cases hdecode : decode p with
    | error code =>
      rw [hdecode] at hc
      exact h c hc
    | ok r =>
      rw [hdecode] at hc
      cases r with
      | subscribe kind id rateHz flags =>
        dsimp only at hc
        split_ifs at hc with hadded
        · rw [SubscriptionTable.Change.apply] at hc
          rcases Multiset.mem_cons.mp hc with rfl | hc
          · exact hasks kind id rateHz flags hdecode
          · exact h c hc
        · exact h c hc
      | unsubscribe kind id => exact h c (Multiset.mem_filter.mp hc).1
      | resetConfig => cases hc
      | _ => exact h c hc

theorem counts_le {events : List Event} {r : Load} (h : AllOneKind r.device)
    (hcounts : ∀ n ∈ r.counts, n ≤ 16) (hasks : ∀ e ∈ events, AsksForOne e) :
    ∀ n ∈ (after (step b) r events).counts, n ≤ 16 := by
  induction events generalizing r with
  | nil => exact hcounts
  | cons e events ih =>
    refine ih (allOneKind_react h (hasks e List.mem_cons_self)) ?_
      (fun e he => hasks e (List.mem_cons_of_mem _ he))
    intro n hn
    rcases List.mem_append.mp hn with hn | hn
    · exact hcounts n hn
    · cases e with
      | update env =>
        obtain rfl := List.mem_singleton.mp hn
        exact queuedBy_le h
      | _ => cases hn

end OneKind

/-- Sixteen subscriptions to either telemetry or events never fill the ring, whatever their rates
and however often their resources change: nothing is lost and at most eight frames wait. -/
theorem one_kind_never_lost (b : Board) (events : List Event)
    (hroomy : ∀ e ∈ events, RoomyUpdate e) (hasks : ∀ e ∈ events, AsksForOne e) :
    EachStep (step b) (Lossless b 0) {} events := by
  have hempty : AllOneKind {} := by
    intro c hc
    cases hc
  have hcounts := counts_le (b := b) (r := {}) hempty (fun n hn => nomatch hn) hasks
  exact (within_initial.along (by decide) hroomy (constrained_of_le hcounts)).1

/-- Telemetry of ten pins, whose levels change from one update to the next. -/
theorem ten_pins_never_lost :
    EachStep (step sampleBoard) (Lossless sampleBoard 0) {} (tenPins ++ ChangeEvents.bounces) := by
  apply one_kind_never_lost sampleBoard _ (tenPins_roomy [false, true, false, true])
  intro e he kind id rateHz flags hcarries
  have hdecode : ∀ pin ∈ indices 10, decode (commandPacket 1 [0x60, 1, pin, 100, 0, 0]) =
      .ok (.subscribe 1 pin 100 0) := by
    decide +kernel
  rcases List.mem_append.mp he with he | he
  · obtain ⟨pin, hpin, rfl⟩ := List.mem_map.mp he
    injection (show decode _ = _ from hcarries).symm.trans (hdecode pin hpin) with hrequest
    injection hrequest with _ _ _ hflags
    right
    rw [hflags]
    rfl
  · obtain ⟨high, -, rfl⟩ := List.mem_map.mp (show e ∈ [false, true, false, true].map _ from he)
    exact hcarries.elim

end OutboundThroughput
