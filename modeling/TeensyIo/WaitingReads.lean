import TeensyIo.PollBudgets
import TeensyIo.HostDelivery
import Mathlib.Data.Rat.Floor

/-! # Waiting for a frame

`read_telemetry` and `read_event` take the oldest frame that waits, or poll until there is one or
their time is up. The times are exact here. -/
namespace WaitingReads

open WireCommands HostProtocol HostClient PassLoops PollBudgets
open FirmwareProtocol (crc16Ccitt)
open WireCompatibility (Known feedAll feed_eq)
open FramingRecovery (framesIn)

/-! ### The two functions -/

/-- In what the two functions differ. -/
structure Inbox (ε : Type) where
  queue : Client → List ε
  withQueue : Client → List ε → Client

def telemetryInbox : Inbox TelemetryFrame where
  queue := Client.telemetryQueue
  withQueue c queue := { c with telemetryQueue := queue }

def eventInbox : Inbox EdgeEvent where
  queue := Client.eventQueue
  withQueue c queue := { c with eventQueue := queue }

/-- The timeout of the polls of a read. -/
def pollTimeout : ℚ := 1 / 100

/-- A read is at its look into the queue or within a poll, which has a deadline of its own. -/
inductive Stage (ω : Type) where
  | looking (p : Poll ω)
  | polling (pollDeadline : ℚ) (p : Poll ω)

def Stage.state {ω : Type} : Stage ω → ω
  | .looking p => p.state
  | .polling _ p => p.state

/-- What a read returns or raises, and what it leaves. -/
abbrev Ended (ε ω : Type) := Except PyError ε × Poll ω

section Reads

variable {ε ω : Type} (inbox : Inbox ε) (o : Options) (w : Surroundings ω)

/-- A new poll has read and fed nothing yet. -/
def beginPoll (p : Poll ω) : Stage ω :=
  let (now, p) := p.monotonic w
  .polling (now + pollTimeout) { p with drained := 0, reads := [], fed := [] }

/-- What follows a poll. -/
def look (deadline : Option ℚ) (p : Poll ω) : Pass (Stage ω) (Ended ε ω) :=
  match deadline with
  | none => .again (.looking p)
  | some deadline =>
    let (now, p) := p.monotonic w
    if deadline ≤ now then .leave (.error .timeoutError, p) else .again (.looking p)

/-- A pass of `while True`, or one of the poll within. -/
def readPass (deadline : Option ℚ) : Stage ω → Pass (Stage ω) (Ended ε ω)
  | .looking p =>
    match inbox.queue p.client with
    | item :: queue => .leave (.ok item, { p with client := inbox.withQueue p.client queue })
    | [] => .again (beginPoll w p)
  | .polling pollDeadline p =>
    match p.pass w o pollTimeout pollDeadline (drainBudget o none) with
    | .again p => .again (.polling pollDeadline p)
    | .leave (.error error, p) => .leave (.error error, p)
    | .leave (.ok _, p) => look w deadline p

/-- The deadline, which is computed at the beginning. -/
def deadlineOf (timeout : Option ℚ) (p : Poll ω) : Option ℚ × Poll ω :=
  match timeout with
  | none => (none, p)
  | some timeout =>
    let (now, p) := p.monotonic w
    (some (now + timeout), p)

/-- A read with a bound on the passes of its loops. -/
def readFor (timeout : Option ℚ) (p : Poll ω) (passes : ℕ) : Option (Ended ε ω) :=
  let (deadline, p) := deadlineOf w timeout p
  runFor (readPass inbox o w deadline) passes (.looking p)

def readTelemetry (timeout : Option ℚ) (p : Poll ω) (passes : ℕ) :
    Option (Ended TelemetryFrame ω) :=
  readFor telemetryInbox o w timeout p passes

def readEvent (timeout : Option ℚ) (p : Poll ω) (passes : ℕ) : Option (Ended EdgeEvent ω) :=
  readFor eventInbox o w timeout p passes

end Reads

/-! ### What has become of the frames -/

/-- What has been returned and what waits has arrived, in this order; the rest of what has arrived
was dropped and counted. -/
structure HandedOut {ε : Type} (arrived queue returned : List ε) (before dropped : ℕ) : Prop where
  in_order : (returned ++ queue).Sublist arrived
  accounted : ∃ more, dropped = before + more ∧
    HostDelivery.Accounted arrived queue returned.length more

section HandedOut

variable {ε : Type} {arrived queue returned : List ε} {before dropped : ℕ}

theorem putBounded_counts (maxsize : ℤ) (more : ℕ) (item : ε) :
    putBounded maxsize queue (before + more) item =
      ((putBounded maxsize queue more item).1,
        before + (putBounded maxsize queue more item).2) := by
  unfold putBounded
  split_ifs <;> rfl

theorem HandedOut.put (h : HandedOut arrived queue returned before dropped) (maxsize : ℤ)
    (item : ε) :
    HandedOut (arrived ++ [item]) (putBounded maxsize queue dropped item).1 returned before
      (putBounded maxsize queue dropped item).2 := by
  obtain ⟨more, rfl, haccounted⟩ := h.accounted
  refine ⟨HostDelivery.ordered_put h.in_order maxsize _ item,
    (putBounded maxsize queue more item).2, ?_, ?_⟩
  · rw [putBounded_counts]
  · rw [putBounded_counts]
    exact HostDelivery.accounted_put haccounted maxsize item

theorem HandedOut.take {item : ε} {rest : List ε}
    (h : HandedOut arrived (item :: rest) returned before dropped) :
    HandedOut arrived rest (returned ++ [item]) before dropped := by
  obtain ⟨more, hdropped, haccounted⟩ := h.accounted
  refine ⟨?_, more, hdropped, HostDelivery.accounted_take haccounted⟩
  rw [List.append_assoc]
  exact h.in_order

end HandedOut

/-- What reads have returned so far. -/
structure Returned where
  telemetry : List TelemetryFrame := []
  events : List EdgeEvent := []
  deriving DecidableEq, Repr

/-- The two queues of a client that has handled these packets since it was `c₀`. -/
structure Inboxes (c₀ : Client) (packets : List Packet) (r : Returned) (c : Client) : Prop where
  telemetry : HandedOut (c₀.telemetryQueue ++ packets.filterMap telemetryFrame) c.telemetryQueue
    r.telemetry c₀.telemetryDropped c.telemetryDropped
  events : HandedOut (c₀.eventQueue ++ packets.filterMap edgeEvent) c.eventQueue r.events
    c₀.eventsDropped c.eventsDropped

section Handling

variable {c₀ c : Client} {packets : List Packet} {r : Returned}

theorem Inboxes.handle (h : Inboxes c₀ packets r c) (o : Options)
    (packet : Packet) :
    Inboxes c₀ (packets ++ [packet]) r (handleAsyncPacket o c packet) := by
  obtain ⟨htelemetry, hevents⟩ := h
  unfold handleAsyncPacket
  cases hframe : telemetryFrame packet with
  | some frame =>
    have hnone := HostDelivery.edgeEvent_of_telemetryFrame hframe
    constructor
    · have hput := htelemetry.put o.telemetryMaxFrames frame
      simpa [List.filterMap_append, hframe] using hput
    · simpa [List.filterMap_append, hnone] using hevents
  | none =>
    cases hevent : edgeEvent packet with
    | some event =>
      constructor
      · simpa [List.filterMap_append, hframe] using htelemetry
      · have hput := hevents.put o.eventMaxFrames event
        simpa [List.filterMap_append, hevent] using hput
    | none =>
      constructor
      · simpa [List.filterMap_append, hframe] using htelemetry
      · simpa [List.filterMap_append, hevent] using hevents

variable {ω : Type} {o : Options} {w : Surroundings ω}

/-- The callbacks leave the client alone. -/
structure Aloof (w : Surroundings ω) : Prop where
  client : ∀ s c packet, (w.callbacks s c packet).client = c
  polled : ∀ s c packet, (w.callbacks s c packet).polled = []

/-- The packets of a feed are handled one after the other. -/
theorem Inboxes.handled (haloof : Aloof w) (more : List Packet) {p : Poll ω}
    (h : Inboxes c₀ packets r p.client) :
    let q := more.foldl (Poll.handleAsyncPacket w o) p
    Inboxes c₀ (packets ++ more) r q.client ∧
      q.client.decoder = p.client.decoder ∧ q.taken = p.taken ∧ q.decoded = p.decoded := by
  induction more generalizing packets p with
  | nil =>
    rw [List.append_nil]
    exact ⟨h, rfl, rfl, rfl⟩
  | cons packet more ih =>
    have hone : (p.handleAsyncPacket w o packet).client = handleAsyncPacket o p.client packet ∧
        (p.handleAsyncPacket w o packet).taken = p.taken ∧
          (p.handleAsyncPacket w o packet).decoded = p.decoded := by
      unfold Poll.handleAsyncPacket
      dsimp only
      split_ifs
      · refine ⟨haloof.client _ _ _, ?_, ?_⟩
        · dsimp only
          rw [haloof.polled, List.flatten_nil, List.append_nil]
        · dsimp only
          rw [haloof.polled, List.append_nil]
      · exact ⟨rfl, rfl, rfl⟩
    obtain ⟨hclient, htaken, hdecoded⟩ := hone
    have hnext : Inboxes c₀ (packets ++ [packet]) r
        (p.handleAsyncPacket w o packet).client := by
      rw [hclient]
      exact h.handle o packet
    obtain ⟨hlater, hdecoder, htaken', hdecoded'⟩ := ih hnext
    rw [List.append_assoc, List.singleton_append] at hlater
    refine ⟨hlater, ?_, htaken'.trans htaken, hdecoded'.trans hdecoded⟩
    rw [List.foldl_cons, hdecoder, hclient, handleAsyncPacket_decoder]

end Handling

/-! ### A poll within a read -/

section Polls

variable {ω : Type} {o : Options} {w : Surroundings ω} {c₀ : Client} {r : Returned}
  {p q : Poll ω}

/-- Everything taken from the transport has been decoded in order, and the packets were handled. -/
structure Settled (c₀ : Client) (r : Returned) (p : Poll ω) : Prop where
  order : p.decoded.flatten = p.taken
  handled : ∃ packets, feedAll c₀.decoder p.decoded = some (packets, p.client.decoder) ∧
    Inboxes c₀ packets r p.client

/-- Among the frames that the decoder has met is one of a type that the client does not know. -/
def Foreign (c₀ : Client) (p : Poll ω) : Prop :=
  ∃ f ∈ framesIn (c₀.decoder.buffer ++ p.taken), ¬ Known f

def Kept (c₀ : Client) (r : Returned) : Pass (Poll ω) (Poll.End ω) → Prop
  | .again q => Settled c₀ r q
  | .leave (.ok _, q) => Settled c₀ r q
  | .leave (.error error, q) => error = .valueError ∧ Foreign c₀ q

/-- Looks at the clock and reads that find nothing settle nothing. -/
theorem Settled.reads (h : Settled c₀ r p) (hreads : Reads p q []) :
    Settled c₀ r q := by
  constructor
  · rw [hreads.decoded, hreads.taken, List.append_nil]
    exact h.order
  · rw [hreads.decoded, hreads.client]
    exact h.handled

theorem drain_kept (haloof : Aloof w) {budget : ℤ} {data : List UInt8}
    (h : Settled c₀ r p) (hreads : Reads p q data) :
    Kept c₀ r (q.drain w o budget data) := by
  obtain ⟨packets, hpackets, hinboxes⟩ := h.handled
  unfold Poll.drain Poll.feed
  dsimp only
  cases hresult : (q.client.decoder.feed data).1 with
  | error error =>
    rw [hreads.client] at hresult
    have hmet : ∃ f ∈ framesIn (p.client.decoder.buffer ++ data), ¬ Known f := by
      by_contra hnone
      push Not at hnone
      rw [feed_eq p.client.decoder data hnone] at hresult
      cases hresult
    have hraises := (WireCompatibility.feedLoop_raises _ [] hmet).1
    refine ⟨Except.error.inj (hresult.symm.trans hraises), ?_⟩
    by_contra hnone
    unfold Foreign at hnone
    push Not at hnone
    obtain ⟨f, hf, hforeign⟩ := hmet
    refine hforeign (feedAll_known hpackets ?_ f hf)
    rw [h.order, ← hreads.taken]
    exact hnone
  | ok more =>
    dsimp only
    have hfeed : p.client.decoder.feed data = (.ok more, (q.client.decoder.feed data).2) := by
      rw [← hreads.client]
      exact Prod.ext hresult rfl
    have hdecoded := feedAll_append hpackets (feedAll_singleton hfeed)
    have hbefore : Inboxes c₀ packets r
        { q.client with decoder := (q.client.decoder.feed data).2 } := by
      rw [hreads.client]
      exact ⟨hinboxes.telemetry, hinboxes.events⟩
    obtain ⟨hlater, hdecoder, htaken, hmore⟩ := Inboxes.handled (o := o) haloof more
      (p := { q with
        client := { q.client with decoder := (q.client.decoder.feed data).2 }
        drained := q.drained + data.length
        fed := q.fed ++ [data]
        decoded := q.decoded ++ [data] }) hbefore
    have hsettled : Settled c₀ r (more.foldl (Poll.handleAsyncPacket w o)
        { q with
          client := { q.client with decoder := (q.client.decoder.feed data).2 }
          drained := q.drained + data.length
          fed := q.fed ++ [data]
          decoded := q.decoded ++ [data] }) := by
      constructor
      · rw [hmore, htaken]
        dsimp only
        rw [hreads.decoded, hreads.taken, List.flatten_append, List.flatten_singleton, h.order]
      · refine ⟨packets ++ more, ?_, hlater⟩
        rw [hmore, hdecoder]
        dsimp only
        rw [hreads.decoded]
        exact hdecoded
    split_ifs
    · exact hsettled
    · exact hsettled

theorem pass_kept (haloof : Aloof w) (timeout deadline : ℚ) {budget : ℤ}
    (h : Settled c₀ r p) (hlimit : 1 ≤ p.limit o budget) :
    Kept c₀ r (p.pass w o timeout deadline budget) := by
  have hturns := pass_turns o w timeout deadline budget p hlimit
  generalize p.pass w o timeout deadline budget = ended at hturns
  cases hturns with
  | drains hreads hdata hlength => exact drain_kept haloof h hreads
  | quits hreads => exact h.reads hreads
  | waits htimeout hreads => exact h.reads hreads

end Polls

/-! ### A read -/

section Read

variable {ε ω : Type} {inbox : Inbox ε} {o : Options} {w : Surroundings ω} {c₀ : Client}
  {r : Returned} {r' : ε → Returned} {deadline : Option ℚ}

def Returned.withTelemetry (r : Returned) (frame : TelemetryFrame) : Returned :=
  { r with telemetry := r.telemetry ++ [frame] }

def Returned.withEvent (r : Returned) (event : EdgeEvent) : Returned :=
  { r with events := r.events ++ [event] }

/-- The inbox gives its oldest frame, and `r'` is what has been returned then. -/
structure Pops (inbox : Inbox ε) (r : Returned) (r' : ε → Returned) : Prop where
  decoder : ∀ c queue, (inbox.withQueue c queue).decoder = c.decoder
  pop : ∀ c₀ packets c item queue, inbox.queue c = item :: queue → Inboxes c₀ packets r c →
    Inboxes c₀ packets (r' item) (inbox.withQueue c queue)

theorem telemetry_pops (r : Returned) : Pops telemetryInbox r r.withTelemetry where
  decoder _ _ := rfl
  pop c₀ packets c item queue hqueue h := by
    have hwaiting := h.telemetry
    rw [show c.telemetryQueue = item :: queue from hqueue] at hwaiting
    exact ⟨hwaiting.take, h.events⟩

theorem event_pops (r : Returned) : Pops eventInbox r r.withEvent where
  decoder _ _ := rfl
  pop c₀ packets c item queue hqueue h := by
    have hwaiting := h.events
    rw [show c.eventQueue = item :: queue from hqueue] at hwaiting
    exact ⟨h.telemetry, hwaiting.take⟩

/-- What holds before every pass of a read. -/
def Going (o : Options) (c₀ : Client) (r : Returned) : Stage ω → Prop
  | .looking p => Settled c₀ r p
  | .polling _ p => Settled c₀ r p ∧ Head (drainBudget o none) c₀ p

def AtLook (c₀ : Client) (r : Returned) (stage : Stage ω) : Prop :=
  ∃ p, stage = .looking p ∧ Settled c₀ r p

/-- The last look at the clock was past the deadline. -/
def Expired (w : Surroundings ω) (deadline : Option ℚ) (p : Poll ω) : Prop :=
  ∃ time s, deadline = some time ∧ time ≤ (w.monotonic s).1 ∧ p.state = (w.monotonic s).2

/-- The ways in which a read ends. -/
inductive Ends (w : Surroundings ω) (c₀ : Client) (r : Returned) (r' : ε → Returned)
    (deadline : Option ℚ) : Ended ε ω → Prop where
  | returned {item p} : Settled c₀ (r' item) p → Ends w c₀ r r' deadline (.ok item, p)
  | expired {p} : Settled c₀ r p → Expired w deadline p →
      Ends w c₀ r r' deadline (.error .timeoutError, p)
  | raised {p} : Foreign c₀ p → Ends w c₀ r r' deadline (.error .valueError, p)

def Passed (o : Options) (w : Surroundings ω) (c₀ : Client) (r : Returned) (r' : ε → Returned)
    (deadline : Option ℚ) : Pass (Stage ω) (Ended ε ω) → Prop
  | .again stage => Going o c₀ r stage
  | .leave ended => Ends w c₀ r r' deadline ended

theorem beginPoll_going (hbudget : 1 ≤ o.readDrainMaxBytes) {p : Poll ω} (h : Settled c₀ r p) :
    Going o c₀ r (beginPoll w p) := by
  have hclock := h.reads (monotonic_reads p w)
  obtain ⟨packets, hpackets, hinboxes⟩ := hclock.handled
  refine ⟨⟨hclock.order, packets, hpackets, hinboxes⟩, ⟨rfl, ?_, rfl, packets, hpackets⟩, hbudget⟩
  rw [List.append_nil]
  exact hclock.order.symm

theorem look_passed {p : Poll ω} (h : Settled c₀ r p) :
    Passed o w c₀ r r' deadline (look w deadline p) := by
  cases deadline with
  | none => exact h
  | some time =>
    have hclock := h.reads (monotonic_reads p w)
    unfold look
    dsimp only
    split_ifs with hexpired
    · exact .expired hclock ⟨time, p.state, rfl, hexpired, rfl⟩
    · exact hclock

theorem readPass_passed (hpops : Pops inbox r r') (haloof : Aloof w)
    (hbudget : 1 ≤ o.readDrainMaxBytes) (hchunk : 1 ≤ o.readChunkSize) (deadline : Option ℚ)
    {stage : Stage ω} (h : Going o c₀ r stage) :
    Passed o w c₀ r r' deadline (readPass inbox o w deadline stage) := by
  cases stage with
  | looking p =>
    rw [readPass]
    cases hqueue : inbox.queue p.client with
    | nil => exact beginPoll_going hbudget h
    | cons item queue =>
      obtain ⟨packets, hpackets, hinboxes⟩ := h.handled
      refine .returned ⟨h.order, packets, ?_, hpops.pop _ _ _ _ _ hqueue hinboxes⟩
      dsimp only
      rw [hpops.decoder]
      exact hpackets
  | polling pollDeadline p =>
    obtain ⟨hsettled, hhead⟩ := h
    have hkept := pass_kept haloof pollTimeout pollDeadline hsettled
      (limit_bounds p hchunk hhead.below).1
    have hgood : Good (drainBudget o none) c₀
        (p.pass w o pollTimeout pollDeadline (drainBudget o none)) := pass_good hchunk hhead
    rw [readPass]
    cases hpass : p.pass w o pollTimeout pollDeadline (drainBudget o none) with
    | again q =>
      rw [hpass] at hkept hgood
      exact ⟨hkept, hgood⟩
    | leave result =>
      obtain ⟨error | n, q⟩ := result
      · rw [hpass] at hkept
        obtain ⟨rfl, hforeign⟩ := hkept
        exact .raised hforeign
      · rw [hpass] at hkept
        exact look_passed hkept

end Read

/-! ### A read ends -/

section Time

variable {ε ω : Type} {inbox : Inbox ε} {o : Options} {w : Surroundings ω} {c₀ : Client}
  {r : Returned} {r' : ε → Returned} {time : ℚ} {left : ω → ℕ}

/-- The clock reaches the time after so many more looks at most, and does not go back. -/
structure Reaching (w : Surroundings ω) (time : ℚ) (left : ω → ℕ) : Prop
    extends Ticking w time left where
  later : ∀ s, left (w.monotonic s).2 ≤ left s

/-- The clock reaches every time. -/
def Clock (w : Surroundings ω) : Prop := ∀ time, ∃ left, Reaching w time left

/-- Where a pass of a poll gets to. -/
def stateAfter : Pass (Poll ω) (Poll.End ω) → ω
  | .again q => q.state
  | .leave result => result.2.state

theorem Reaching.drain (h : Reaching w time left) (budget : ℤ) (p : Poll ω) (data : List UInt8) :
    left (stateAfter (p.drain w o budget data)) ≤ left p.state := by
  unfold Poll.drain Poll.feed
  dsimp only
  split
  · exact le_rfl
  · split_ifs
    · exact h.handled _ _
    · exact h.handled _ _

theorem Reaching.pass (h : Reaching w time left) (timeout deadline : ℚ) (budget : ℤ)
    (p : Poll ω) : left (stateAfter (p.pass w o timeout deadline budget)) ≤ left p.state := by
  have havailable := h.readAvailable p.state (p.limit o budget)
  unfold Poll.pass
  dsimp only
  split_ifs with hdata htimeout hexpired hmore
  · exact (h.drain _ _ _).trans havailable
  · exact havailable
  · exact (h.later _).trans havailable
  · refine (h.drain _ _ _).trans ?_
    exact ((h.readSome _ _).trans (h.later _)).trans havailable
  · exact ((h.readSome _ _).trans (h.later _)).trans havailable

theorem look_expired {q : Poll ω} (h : time ≤ (q.monotonic w).1) :
    look (ε := ε) w (some time) q = .leave (.error .timeoutError, (q.monotonic w).2) := if_pos h

theorem look_on {q : Poll ω} (h : ¬ time ≤ (q.monotonic w).1) :
    look (ε := ε) w (some time) q = .again (.looking (q.monotonic w).2) := if_neg h

/-- A poll within a read ends, and the read with it or with less time left. -/
theorem poll_ends (inbox : Inbox ε) (hclock : Clock w) (h : Reaching w time left)
    (hchunk : 1 ≤ o.readChunkSize) {pollDeadline : ℚ} {p : Poll ω}
    (hhead : Head (drainBudget o none) c₀ p) :
    (∃ ended, Leaves (readPass inbox o w (some time)) (.polling pollDeadline p) ended) ∨
      ∃ q, Reaches (readPass inbox o w (some time)) (.polling pollDeadline p) (.looking q) ∧
        left q.state < left p.state := by
  obtain ⟨left', hreaching⟩ := hclock pollDeadline
  obtain ⟨result, hresult⟩ := hreaching.leaves pollTimeout hchunk hhead
  obtain ⟨t, hreaches, hleave⟩ := leaves_of_runFor hresult
  have hstate : left t.state ≤ left p.state := by
    refine hreaches.keeps (I := fun q => left q.state ≤ left p.state) ?_ le_rfl
    intro q q' hq hpass
    have hafter := h.pass (o := o) pollTimeout pollDeadline (drainBudget o none) q
    rw [hpass] at hafter
    exact hafter.trans hq
  have hinside : Reaches (readPass inbox o w (some time)) (.polling pollDeadline p)
      (.polling pollDeadline t) := by
    apply hreaches.inside
    intro q q' hpass
    rw [readPass, hpass]
  have hafter := h.pass (o := o) pollTimeout pollDeadline (drainBudget o none) t
  rw [hleave] at hafter
  obtain ⟨error | n, q⟩ := result
  · left
    refine ⟨(.error error, q), _, hinside, ?_⟩
    rw [readPass, hleave]
  · by_cases hexpired : time ≤ (q.monotonic w).1
    · left
      refine ⟨(.error .timeoutError, (q.monotonic w).2), _, hinside, ?_⟩
      rw [readPass, hleave]
      exact look_expired hexpired
    · right
      refine ⟨(q.monotonic w).2, .again hinside ?_, ?_⟩
      · rw [readPass, hleave]
        exact look_on hexpired
      · have hsooner := h.monotonic q.state (not_le.mp hexpired)
        exact (hsooner.trans_le hafter).trans_le hstate

variable (hpops : Pops inbox r r') (haloof : Aloof w) (hbudget : 1 ≤ o.readDrainMaxBytes)
  (hchunk : 1 ≤ o.readChunkSize)

include hpops haloof hbudget hchunk

theorem going_kept {deadline : Option ℚ} (s t : Stage ω) (h : Going o c₀ r s)
    (hpass : readPass inbox o w deadline s = .again t) : Going o c₀ r t := by
  have hpassed := readPass_passed hpops haloof hbudget hchunk deadline h
  rw [hpass] at hpassed
  exact hpassed

/-- From its look into the queue a read ends or comes to the next look, with less time left. -/
theorem look_ends (hclock : Clock w) (h : Reaching w time left) {p : Poll ω}
    (hp : Settled c₀ r p) :
    (∃ ended, Leaves (readPass inbox o w (some time)) (.looking p) ended) ∨
      ∃ q, Reaches (readPass inbox o w (some time)) (.looking p) (.looking q) ∧
        Settled c₀ r q ∧ left q.state < left p.state := by
  cases hqueue : inbox.queue p.client with
  | cons item queue =>
    left
    refine ⟨(.ok item, { p with client := inbox.withQueue p.client queue }), .looking p, .start, ?_⟩
    rw [readPass, hqueue]
  | nil =>
    have hbegin : readPass inbox o w (some time) (.looking p) = .again (beginPoll w p) := by
      rw [readPass, hqueue]
    have hfirst := Reaches.again .start hbegin
    have hhead := (beginPoll_going (w := w) hbudget hp).2
    have hlater := h.later p.state
    rcases poll_ends inbox hclock h hchunk hhead with
      ⟨ended, hleaves⟩ | ⟨q, hreaches, hsooner⟩
    · exact Or.inl ⟨ended, hfirst.leaves hleaves⟩
    · have hnext := hfirst.trans hreaches
      have hgoing : Going o c₀ r (.looking q) :=
        hnext.keeps (going_kept hpops haloof hbudget hchunk) hp
      exact Or.inr ⟨q, hnext, hgoing, hsooner.trans_le hlater⟩

/-- A read with a deadline ends. -/
theorem read_leaves (hclock : Clock w) (time : ℚ) {p : Poll ω} (hp : Settled c₀ r p) :
    ∃ ended, Leaves (readPass inbox o w (some time)) (.looking p) ended := by
  obtain ⟨left, hreaching⟩ := hclock time
  have hdescend : ∀ stage, AtLook c₀ r stage →
      (∃ ended, Leaves (readPass inbox o w (some time)) stage ended) ∨
        ∃ next, Reaches (readPass inbox o w (some time)) stage next ∧ AtLook c₀ r next ∧
          left next.state < left stage.state := by
    rintro _ ⟨q, rfl, hq⟩
    refine (look_ends hpops haloof hbudget hchunk hclock hreaching hq).imp_right ?_
    rintro ⟨q', hreaches, hq', hsooner⟩
    exact ⟨.looking q', hreaches, ⟨q', rfl, hq'⟩, hsooner⟩
  exact leaves_of_descent hdescend ⟨p, rfl, hp⟩

end Time

/-! ### Programs that wait -/

section Programs

variable {ω : Type} (o : Options) (w : Surroundings ω)

/-- A client and what its reads have returned. -/
structure Program (ω : Type) where
  poll : Poll ω
  returned : Returned := {}

/-- What a program does with its client. -/
inductive Move : Program ω → Program ω → Prop where
  | telemetry {P : Program ω} {timeout passes frame q} :
      readTelemetry o w timeout P.poll passes = some (.ok frame, q) →
        Move P ⟨q, P.returned.withTelemetry frame⟩
  | noTelemetry {P : Program ω} {timeout passes q} :
      readTelemetry o w timeout P.poll passes = some (.error .timeoutError, q) →
        Move P ⟨q, P.returned⟩
  | event {P : Program ω} {timeout passes event q} :
      readEvent o w timeout P.poll passes = some (.ok event, q) →
        Move P ⟨q, P.returned.withEvent event⟩
  | noEvent {P : Program ω} {timeout passes q} :
      readEvent o w timeout P.poll passes = some (.error .timeoutError, q) →
        Move P ⟨q, P.returned⟩

/-- The states after any reads, none of which has raised anything but a timeout. -/
inductive Ran (P : Program ω) : Program ω → Prop where
  | start : Ran P P
  | step {Q R} : Ran P Q → Move o w Q R → Ran P R

variable {o w} {c₀ : Client} {s : ω} {P Q : Program ω}

def initial (s : ω) (c₀ : Client) : Program ω where
  poll := { state := s, client := c₀ }

theorem initial_settled : Settled c₀ {} (initial s c₀).poll where
  order := rfl
  handled := by
    refine ⟨[], rfl, ?_, ?_⟩
    · exact ⟨by simp [initial], 0, rfl, [], by simp [initial], rfl⟩
    · exact ⟨by simp [initial], 0, rfl, [], by simp [initial], rfl⟩

theorem readFor_ends {ε : Type} {inbox : Inbox ε} {r : Returned} {r' : ε → Returned}
    (hpops : Pops inbox r r') (haloof : Aloof w) (hbudget : 1 ≤ o.readDrainMaxBytes)
    (hchunk : 1 ≤ o.readChunkSize) {timeout : Option ℚ} {p : Poll ω} {passes : ℕ}
    {ended : Ended ε ω} (hp : Settled c₀ r p)
    (hended : readFor inbox o w timeout p passes = some ended) :
    Ends w c₀ r r' (deadlineOf w timeout p).1 ended := by
  have hstart : Settled c₀ r (deadlineOf w timeout p).2 := by
    cases timeout with
    | none => exact hp
    | some time => exact hp.reads (monotonic_reads p w)
  have hleaves : Leaves (readPass inbox o w (deadlineOf w timeout p).1)
      (.looking (deadlineOf w timeout p).2) ended := leaves_of_runFor hended
  apply hleaves.ensures (I := Going o c₀ r) (going_kept hpops haloof hbudget hchunk) _ hstart
  intro stage ended hgoing hleave
  have hpassed := readPass_passed hpops haloof hbudget hchunk (deadlineOf w timeout p).1 hgoing
  rw [hleave] at hpassed
  exact hpassed

theorem ran_settled (haloof : Aloof w) (hbudget : 1 ≤ o.readDrainMaxBytes)
    (hchunk : 1 ≤ o.readChunkSize) (hran : Ran o w (initial s c₀) P) :
    Settled c₀ P.returned P.poll := by
  induction hran with
  | start => exact initial_settled
  | step _ hmove ih =>
    cases hmove with
    | telemetry hended =>
      cases readFor_ends (telemetry_pops _) haloof hbudget hchunk ih hended with
      | returned hsettled => exact hsettled
    | noTelemetry hended =>
      cases readFor_ends (telemetry_pops _) haloof hbudget hchunk ih hended with
      | expired hsettled => exact hsettled
    | event hended =>
      cases readFor_ends (event_pops _) haloof hbudget hchunk ih hended with
      | returned hsettled => exact hsettled
    | noEvent hended =>
      cases readFor_ends (event_pops _) haloof hbudget hchunk ih hended with
      | expired hsettled => exact hsettled

theorem HandedOut.all {ε : Type} {arrived queue returned : List ε} {before : ℕ}
    (h : HandedOut arrived queue returned before before) : arrived = returned ++ queue := by
  obtain ⟨more, hmore, gone, hgone, hlength⟩ := h.accounted
  refine (h.in_order.eq_of_length ?_).symm
  rw [hgone, List.length_append, List.length_append]
  omega

/-- Of the frames of a kind that have arrived, reads have returned some in their order, the newest
wait, and the others were dropped and counted. -/
structure InOrder {ε : Type} (arrived queue returned : List ε) (before dropped : ℕ) : Prop
    extends HandedOut arrived queue returned before dropped where
  all : dropped = before → arrived = returned ++ queue

/-- How a read of an inbox goes in a state. -/
structure Timely {ε : Type} (inbox : Inbox ε) (o : Options) (w : Surroundings ω) (c₀ : Client)
    (p : Poll ω) : Prop where
  /-- A frame that waits is returned at once, and nothing is read for it. -/
  at_once : ∀ timeout item queue, inbox.queue p.client = item :: queue →
    ∃ q, readFor inbox o w timeout p 1 = some (.ok item, q) ∧ q.taken = p.taken ∧
      q.client = inbox.withQueue p.client queue
  /-- A read with a timeout ends. -/
  ends : ∀ time, ∃ passes ended, readFor inbox o w (some time) p passes = some ended
  /-- It raises if its time is up and nothing waited when it began, or over a foreign frame. -/
  raises : ∀ timeout passes error q, readFor inbox o w timeout p passes = some (.error error, q) →
    error = .timeoutError ∧ inbox.queue p.client = [] ∧ Expired w (deadlineOf w timeout p).1 q ∨
      error = .valueError ∧ Foreign c₀ q

theorem deadlineOf_taken (timeout : Option ℚ) (p : Poll ω) :
    (deadlineOf w timeout p).2.taken = p.taken ∧ (deadlineOf w timeout p).2.client = p.client := by
  cases timeout with
  | none => exact ⟨rfl, rfl⟩
  | some time => exact ⟨rfl, rfl⟩

theorem readFor_waiting {ε : Type} {inbox : Inbox ε} {p : Poll ω} {item : ε} {queue : List ε}
    (hqueue : inbox.queue p.client = item :: queue) (timeout : Option ℚ) (passes : ℕ) :
    readFor inbox o w timeout p (passes + 1) = some (.ok item,
      { (deadlineOf w timeout p).2 with client := inbox.withQueue p.client queue }) := by
  have hclient := (deadlineOf_taken (w := w) timeout p).2
  have hpass : readPass inbox o w (deadlineOf w timeout p).1
      (.looking (deadlineOf w timeout p).2) = .leave (.ok item,
        { (deadlineOf w timeout p).2 with client := inbox.withQueue p.client queue }) := by
    rw [readPass, hclient, hqueue]
  exact runFor_leave hpass passes

theorem settled_timely {ε : Type} {inbox : Inbox ε} {r : Returned} {r' : ε → Returned}
    (hpops : Pops inbox r r') (haloof : Aloof w) (hbudget : 1 ≤ o.readDrainMaxBytes)
    (hchunk : 1 ≤ o.readChunkSize) (hclock : Clock w) {p : Poll ω} (hp : Settled c₀ r p) :
    Timely inbox o w c₀ p where
  at_once timeout item queue hqueue :=
    ⟨_, readFor_waiting hqueue timeout 0, (deadlineOf_taken timeout p).1, rfl⟩
  ends time := by
    have hstart := hp.reads (monotonic_reads p w)
    obtain ⟨ended, hleaves⟩ :=
      read_leaves hpops haloof hbudget hchunk hclock ((p.monotonic w).1 + time) hstart
    obtain ⟨passes, hended⟩ := leaves_iff.mp hleaves
    exact ⟨passes, ended, hended⟩
  raises timeout passes error q hended := by
    cases readFor_ends hpops haloof hbudget hchunk hp hended with
    | expired hsettled hexpired =>
      left
      refine ⟨rfl, ?_, hexpired⟩
      cases hqueue : inbox.queue p.client with
      | nil => rfl
      | cons item queue =>
        have hwaiting := readFor_waiting (o := o) (w := w) hqueue timeout passes
        have hlater := runFor_le hended (Nat.le_succ passes)
        have hsame := hlater.symm.trans hwaiting
        cases hsame
    | raised hforeign => exact Or.inr ⟨rfl, hforeign⟩

/-- In every state that reads lead to, a read with a timeout ends: at once if a frame waits, and
with an exception only when its time is up or a frame of a foreign type was met. -/
theorem reads_in_time (haloof : Aloof w) (hclock : Clock w) (hbudget : 1 ≤ o.readDrainMaxBytes)
    (hchunk : 1 ≤ o.readChunkSize) (hran : Ran o w (initial s c₀) P) :
    Timely telemetryInbox o w c₀ P.poll ∧ Timely eventInbox o w c₀ P.poll := by
  have hsettled := ran_settled haloof hbudget hchunk hran
  constructor
  · exact settled_timely (telemetry_pops _) haloof hbudget hchunk hclock hsettled
  · exact settled_timely (event_pops _) haloof hbudget hchunk hclock hsettled

end Programs

/-! ### Two frames on the line -/

/-- The bytes that wait, and how often the clock was looked at: it shows just that. -/
structure Desk where
  waiting : List UInt8
  looks : ℕ := 0
  deriving DecidableEq, Repr

def Desk.next (d : Desk) (size : ℤ) : List UInt8 × Desk :=
  (d.waiting.take size.toNat, { d with waiting := d.waiting.drop size.toNat })

theorem Desk.next_le (d : Desk) (size : ℤ) (hsize : 1 ≤ size) :
    ((d.next size).1.length : ℤ) ≤ size := by
  change ((d.waiting.take size.toNat).length : ℤ) ≤ size
  rw [List.length_take]
  omega

def desk : Surroundings Desk where
  read := Desk.next
  readAvailable := Desk.next
  monotonic d := (d.looks, { d with looks := d.looks + 1 })
  callbacks d c _ := { state := d, client := c }
  read_le := Desk.next_le
  readAvailable_le := Desk.next_le
  callbacks_feed _ _ _ := ⟨[], rfl⟩

theorem desk_aloof : Aloof desk := ⟨fun _ _ _ => rfl, fun _ _ _ => rfl⟩

theorem desk_clock : Clock desk := by
  intro time
  refine ⟨fun d => ⌈time⌉₊ - d.looks, ⟨?_, ?_, ?_, ?_⟩, ?_⟩
  · intro d size
    exact le_rfl
  · intro d size
    exact le_rfl
  · intro d c packet
    exact le_rfl
  · intro d hbefore
    have hlt : d.looks < ⌈time⌉₊ := Nat.lt_ceil.mpr hbefore
    change ⌈time⌉₊ - (d.looks + 1) < ⌈time⌉₊ - d.looks
    omega
  · intro d
    change ⌈time⌉₊ - (d.looks + 1) ≤ ⌈time⌉₊ - d.looks
    omega

def reading (seq : ℕ) (value : UInt8) : Packet := ⟨.telemetry, seq, [1, 5, value, 0, 0, 0]⟩

/-- Where nothing arrives the time runs out. -/
theorem silence_times_out :
    ∃ q, readTelemetry {} desk (some 2) (initial { waiting := [] } {}).poll 8 =
      some (.error .timeoutError, q) ∧ Expired desk (some 2) q := by
  have hread : (readTelemetry {} desk (some 2) (initial { waiting := [] } {}).poll 8).map
      Prod.fst = some (.error .timeoutError) := by
    decide +kernel
  obtain ⟨⟨result, q⟩, hended, rfl⟩ := Option.map_eq_some_iff.mp hread
  have htimely := (reads_in_time desk_aloof desk_clock (by decide) (by decide)
    (Ran.start : Ran {} desk (initial { waiting := [] } {}) _)).1
  rcases htimely.raises _ _ _ _ hended with ⟨-, -, hexpired⟩ | ⟨hraised, -⟩
  · refine ⟨q, hended, ?_⟩
    rw [show (some 2 : Option ℚ) = (deadlineOf desk (some 2)
      (initial { waiting := [] } {}).poll).1 by decide +kernel]
    exact hexpired
  · cases hraised

end WaitingReads
