import TeensyIo.ArgumentAgreement
import TeensyIo.DeviceLink
import TeensyIo.HostDelivery
import TeensyIo.OutboundThroughput

/-! # From the pin to the program

A frame that a subscription queues passes through the firmware's ring, the line and the client's
loops and queue. The book of the ring is kept beside the host and the device on their line. -/
namespace TelemetryPipeline

open WireCommands HostProtocol HostClient HostSession HostDelivery DeviceLink WireCompatibility
open FirmwareState FirmwareCommands FirmwareUpdate FirmwareResponses FirmwareRing
open SubscriptionCalls BoundedQueues MachineRuns OutboundThroughput
open OutboundQueue (Recorded held evicted withRoom)

/-! ### The book of an update -/

def bookCall (r : Recorded) (c : SubscriptionCalls.Call) : Recorded :=
  { device := enqueue r.device c
    book := (r.book.depart .lost (evicted r.device)).offer (callFrame c) }

def bookFlush (env : Env) (call : ℕ) (r : Recorded) : Recorded :=
  { device := (flushAsync env call 8 r.device).1
    book := r.book.depart .sent (framesWritten (flushAsync env call 8 r.device).2) }

def updateBook (b : Board) (env : Env) (s : State) (book : Book Written) : Book Written :=
  let first := bookFlush env 0 ⟨checkWatchdog env s, book⟩
  let queued := (updateCalls b env first.device).foldl bookCall first
  (bookFlush env 8 queued).book

structure Sound (r : Recorded) : Prop where
  ring : RingSound r.device
  balanced : r.book.Balanced (held r.device)

section Update

variable {r : Recorded}

theorem Sound.call (h : Sound r) {c : SubscriptionCalls.Call}
    (hsmall : c.payload.length ≤ largestPayload) : Sound (bookCall r c) := by
  have hfits : c.payload.length ≤ FirmwareProtocol.kMaxPayloadSize := hsmall.trans (by decide)
  constructor
  · exact queueAsync_sound h.ring c.type c.payload
  · have hheld := OutboundQueue.held_evicted h.ring
    have hroom : (r.book.depart .lost (evicted r.device)).Balanced (held (withRoom r.device)) :=
      Book.Balanced.depart (hheld ▸ h.balanced) .lost
    change Book.Balanced _ (held (queueAsync r.device c.type c.payload))
    rw [OutboundQueue.held_queueAsync h.ring c.type hfits]
    exact hroom.offer _

theorem Sound.flush (h : Sound r) (env : Env) (call : ℕ) : Sound (bookFlush env call r) := by
  constructor
  · exact flushAsync_sound env call 8 h.ring
  · have hheld := flushAsync_queued env call 8 h.ring
    exact Book.Balanced.depart (hheld ▸ h.balanced) .sent

theorem Sound.calls {calls : List SubscriptionCalls.Call} (h : Sound r)
    (hsmall : ∀ c ∈ calls, c.payload.length ≤ largestPayload) :
    Sound (calls.foldl bookCall r) ∧
      (calls.foldl bookCall r).device = calls.foldl enqueue r.device ∧
      (calls.foldl bookCall r).book.withFate .sent = r.book.withFate .sent ∧
      (calls.foldl bookCall r).book.offered = r.book.offered ++ calls.map callFrame := by
  induction calls generalizing r with
  | nil => exact ⟨h, rfl, rfl, (List.append_nil _).symm⟩
  | cons c calls ih =>
    obtain ⟨hsound, hdevice, hsent, hoffered⟩ := ih (h.call (hsmall c List.mem_cons_self))
      fun c hc => hsmall c (List.mem_cons_of_mem _ hc)
    rw [List.foldl_cons, hsent, hoffered]
    refine ⟨hsound, hdevice, ?_, ?_⟩
    · exact Book.withFate_depart_of_ne (by decide) _
    · change (r.book.offered ++ [callFrame c]) ++ calls.map callFrame = _
      rw [List.append_assoc]
      rfl

/-- What the subscriptions are makes no difference to a flush. -/
theorem flushAsync_withSlots (env : Env) (call n : ℕ) (s : State)
    (slots : UInt8 → SubscriptionSlot) :
    flushAsync env call n (withSlots s slots) =
      (withSlots (flushAsync env call n s).1 slots, (flushAsync env call n s).2) := by
  induction n generalizing call s with
  | zero => rfl
  | succ n ih =>
    have hstep : flushAsync env call (n + 1) (withSlots s slots) =
        if s.outboundCount = 0 then (withSlots s slots, [])
        else if env.availableForWrite call < (FirmwareProtocol.PacketWriter.encodedSize
          (UInt16.ofNat (s.outbound s.outboundHead).payload.length)).toNat then
          (withSlots s slots, [])
        else
          let later := flushAsync env (call + 1) n (withSlots (popOldest s) slots)
          (later.1, .write (s.outbound s.outboundHead).type (s.outbound s.outboundHead).seq
            (s.outbound s.outboundHead).payload :: later.2) := rfl
    rw [hstep, ih, flushAsync]
    dsimp only
    split_ifs <;> rfl

/-- The book goes along with the ring, gains what the subscriptions queue and notes what is
written. -/
theorem update_book (b : Board) (env : Env) {s : State} {book : Book Written}
    (hring : RingSound s) (hbalanced : book.Balanced (held s)) :
    RingSound (update b env s).1 ∧
      (updateBook b env s book).Balanced (held (update b env s).1) ∧
      (updateBook b env s book).withFate .sent =
        book.withFate .sent ++ framesWritten (update b env s).2 ∧
      (updateBook b env s book).offered =
        book.offered ++ (queuedBy b env s).map callFrame := by
  have hstart : Sound ⟨checkWatchdog env s, book⟩ := ⟨hring, hbalanced⟩
  have hfirst := hstart.flush env 0
  obtain ⟨hqueued, hdevice, hsent, hoffered⟩ := hfirst.calls
    (forall_passCalls b env _ (turnCalls_small b env _) (bookFlush env 0 ⟨checkWatchdog env s,
      book⟩).device (indices kMaxSubscriptions.toNat))
  obtain ⟨slots, hslots⟩ := updateSubscriptions_calls b env
    (flushAsync env 0 8 (checkWatchdog env s)).1
  have hsame : updateSubscriptions b env (flushAsync env 0 8 (checkWatchdog env s)).1 =
      withSlots ((updateCalls b env (flushAsync env 0 8 (checkWatchdog env s)).1).foldl bookCall
        (bookFlush env 0 ⟨checkWatchdog env s, book⟩)).device slots := by
    rw [hslots]
    exact congrArg (withSlots · slots) hdevice.symm
  have hlast := hqueued.flush env 8
  rw [update]
  dsimp only
  rw [hsame, flushAsync_withSlots]
  refine ⟨hlast.ring, hlast.balanced, ?_, hoffered⟩
  rw [framesWritten_append, framesWritten_safeOutputsOnExpiry, List.nil_append,
    framesWritten_append, ← List.append_assoc]
  have hfinal : (updateBook b env s book).withFate .sent = _ := Book.withFate_depart_self .sent _
  rw [hfinal]
  refine congrArg₂ (· ++ ·) (hsent.trans ?_) rfl
  exact Book.withFate_depart_self .sent _

end Update

/-! ### What is in a frame -/

/-- The client reads from the frame of a call the value that its slot has read in the update. -/
def Reads (b : Board) (env : Env) (s : State) (c : SubscriptionCalls.Call) : Prop :=
  let slot := s.subscriptions c.slot
  ∃ kind value, ResourceKind.ofByte slot.kind = some kind ∧
    readResourceValue b env s c.slot.toNat slot.kind slot.id = some value ∧
    (telemetryFrame (hostPacket (callFrame c)) = some ⟨kind, slot.id, value.toInt⟩ ∨
      edgeEvent (hostPacket (callFrame c)) =
        some ⟨kind, slot.id, value.toInt, (env.micros c.slot.toNat).toNat⟩)

theorem Reads.wanted {b : Board} {env : Env} {s : State} {c : SubscriptionCalls.Call}
    (h : Reads b env s c) : HostClient.wanted (hostPacket (callFrame c)) = true := by
  obtain ⟨kind, value, -, -, htelemetry | hevent⟩ := h
  · rw [HostClient.wanted, htelemetry]
    rfl
  · rw [HostClient.wanted, hevent]
    exact Bool.or_true _

theorem turnCalls_reads {b : Board} {env : Env} {now : UInt32} {s : State} {i : UInt8}
    {c : SubscriptionCalls.Call} (h : c ∈ turnCalls b env now s i) : Reads b env s c := by
  obtain ⟨value, hread, rfl | rfl⟩ := mem_turnCalls b env now h
  · obtain ⟨kind, hkind, hevent⟩ := ArgumentAgreement.numbersAgree.event b env s i.toNat
      (s.subscriptions i) value (env.micros i.toNat) 0 hread
    exact ⟨kind, value, hkind, hread, Or.inr hevent⟩
  · obtain ⟨kind, hkind, htelemetry⟩ := ArgumentAgreement.numbersAgree.telemetry b env s i.toNat
      (s.subscriptions i) value 0 hread
    exact ⟨kind, value, hkind, hread, Or.inl htelemetry⟩

theorem queuedBy_reads {b : Board} {env : Env} {s : State} :
    ∀ c ∈ queuedBy b env s, Reads b env s c := by
  intro c hc
  have hflushed := flushAsync_undisturbed env 0 8 (checkWatchdog env s)
  have hslots : (flushAsync env 0 8 (checkWatchdog env s)).1.subscriptions = s.subscriptions :=
    flushAsync_subscriptions env 0 8 _
  have hturn := mem_updateCalls b env hc
  obtain ⟨kind, value, hkind, hread, hframe⟩ := turnCalls_reads hturn
  rw [readResourceValue_undisturbed b env hflushed] at hread
  rw [hslots] at hkind hread hframe
  exact ⟨kind, value, hkind, hread, hframe⟩

/-! ### Host, device and book -/

structure Pipeline where
  link : Link := {}
  book : Book Written := {}

/-- A ring that is empty after something other than an update has been emptied by it. -/
def emptied (s t : State) : List Written := if held t = [] then held s else []

def step (b : Board) (o : Options) (p : Pipeline) (i : Input) : Pipeline :=
  { link := p.link.step b o i
    book :=
      match i with
      | .update env => updateBook b env p.link.device p.book
      | _ => p.book.depart .lost (emptied p.link.device (p.link.step b o i).device) }

/-- What the program has taken and what its queue holds have been handed on, in this order. -/
structure Ordered (s : Session) : Prop where
  telemetry : (s.telemetryTaken ++ s.client.telemetryQueue).Sublist
    (s.handed.filterMap fun a => telemetryFrame a.1)
  events : (s.eventsTaken ++ s.client.eventQueue).Sublist
    (s.handed.filterMap fun a => edgeEvent a.1)

theorem hand_ordered {s : Session} (h : Ordered s) (o : Options) (call : HostSession.Call)
    (below : List Activity) (arrival : Arrival) (rest : List Arrival) :
    Ordered (s.hand o call below arrival rest) := by
  obtain ⟨htelemetry, hevents⟩ := h
  unfold Session.hand handleAsyncPacket
  cases hframe : telemetryFrame arrival.1 with
  | some frame =>
    have hnone := edgeEvent_of_telemetryFrame hframe
    constructor
    · simpa [hframe] using ordered_put htelemetry o.telemetryMaxFrames
        s.client.telemetryDropped frame
    · simpa [hnone] using hevents
  | none =>
    cases hevent : edgeEvent arrival.1 with
    | some event =>
      constructor
      · simpa [hframe, hevent] using htelemetry
      · simpa [hevent] using ordered_put hevents o.eventMaxFrames s.client.eventsDropped event
    | none =>
      constructor
      · simpa [hframe, hevent] using htelemetry
      · simpa [hevent] using hevents

theorem stepped_ordered {o : Options} {s t : Session} {move : Move}
    (hstep : Stepped o s move t) (hstream : s.OnStream) (h : Ordered s) : Ordered t := by
  obtain ⟨htelemetry, hevents⟩ := h
  cases hstep with
  | quiet q =>
    constructor
    · rw [q.handed, q.inbox.telemetryQueue, q.telemetryTaken]
      exact htelemetry
    · rw [q.handed, q.inbox.eventQueue, q.eventsTaken]
      exact hevents
  | sent packet => exact ⟨htelemetry, hevents⟩
  | taken hmove =>
    rcases hmove with rfl | rfl
    · refine ⟨?_, hevents⟩
      rw [← take_one_tail] at htelemetry
      exact htelemetry
    · refine ⟨htelemetry, ?_⟩
      rw [← take_one_tail] at hevents
      exact hevents
  | @read _ call below data hstack hne hdata =>
    obtain ⟨packets, hread⟩ := ingest_readIn hstream call below hne hdata
    constructor
    · rw [hread.handed, hread.client, hread.telemetryTaken]
      exact htelemetry
    · rw [hread.handed, hread.client, hread.eventsTaken]
      exact hevents
  | @answered call below arrival rest inCallback hstack hreturns =>
    cases call <;> exact ⟨htelemetry, hevents⟩
  | handed hstack hreturns => exact hand_ordered ⟨htelemetry, hevents⟩ o _ _ _ _

/-- The host itself sends nothing on the device's side. -/
theorem host_sent {o : Options} {s t : Session} {move : HostMove}
    (hstep : Stepped o s (.host move) t) (hstream : s.OnStream) : t.sent = s.sent := by
  cases hstep with
  | quiet q => exact q.sent
  | taken hmove => rcases hmove with rfl | rfl <;> rfl
  | @read _ call below data hstack hne hdata =>
    obtain ⟨packets, hread⟩ := ingest_readIn hstream call below hne hdata
    exact hread.sent
  | @answered call below arrival rest inCallback hstack hreturns => cases call <;> rfl
  | handed hstack hreturns => rfl

/-- What every run keeps as long as the client's loops spare the frames. -/
structure Flows (p : Pipeline) : Prop where
  linked : Linked p.link
  ring : RingSound p.link.device
  balanced : p.book.Balanced (held p.link.device)
  wired : p.link.session.sent.filter wanted = (p.book.withFate .sent).map hostPacket
  wanted : ∀ w ∈ p.book.offered, HostClient.wanted (hostPacket w) = true
  delivered : Delivered p.link.session
  ordered : Ordered p.link.session

/-- The condition under which the client's loops hand every frame on. -/
def SparesFrames (p : Pipeline) : Input → Prop
  | .host move => Spares p.link.session (.host move)
  | _ => True

theorem flows_initial : Flows {} := by
  constructor
  · exact linked_initial
  · exact ringSound_initial
  · rfl
  · rfl
  · intro w hw
    cases hw
  · exact ⟨⟨⟨[], rfl, rfl⟩, ⟨[], rfl, rfl⟩⟩, rfl⟩
  · exact ⟨List.Sublist.refl [], List.Sublist.refl []⟩

/-! ### One input -/

section Inputs

theorem transmit_device (l : Link) (origin : Origin) (frames : List Written) :
    (l.transmit origin frames).device = l.device := by
  induction frames generalizing l with
  | nil => rfl
  | cons w frames ih => exact ih (l.write origin w)

theorem transmit_sent (l : Link) (origin : Origin) (frames : List Written) :
    (l.transmit origin frames).session.sent = l.session.sent ++ frames.map hostPacket := by
  induction frames generalizing l with
  | nil => exact (List.append_nil _).symm
  | cons w frames ih =>
    change ((l.write origin w).transmit origin frames).session.sent = _
    rw [ih, List.map_cons]
    exact List.append_assoc _ [hostPacket w] _

/-- The frames of the device are on their way only. -/
theorem transmit_delivered {l : Link} (o : Options) (origin : Origin) {frames : List Written}
    (hstream : l.session.OnStream) (hdelivered : Delivered l.session)
    (hordered : Ordered l.session)
    (hfits : ∀ w ∈ frames, w.payload.length ≤ FirmwareProtocol.kMaxPayloadSize) :
    Delivered (l.transmit origin frames).session ∧ Ordered (l.transmit origin frames).session := by
  induction frames generalizing l with
  | nil => exact ⟨hdelivered, hordered⟩
  | cons w frames ih =>
    let packet : {p : Packet // Sendable p} :=
      ⟨hostPacket w, hostPacket_sendable (hfits w List.mem_cons_self)⟩
    have hstep : Stepped o l.session (.send packet) (l.session.send packet) := .sent packet
    exact ih (l := l.write origin w) (send_onStream hstream packet)
      (stepped_delivered hstep hstream hdelivered trivial)
      (stepped_ordered hstep hstream hordered) fun v hv => hfits v (List.mem_cons_of_mem w hv)

/-- What the host's part of the session looks at. -/
structure SameView (s t : Session) : Prop where
  client : t.client = s.client
  stack : t.stack = s.stack
  waiting : t.waiting = s.waiting
  decoded : t.decoded = s.decoded
  sent : t.sent = s.sent
  consumed : t.consumed = s.consumed
  handed : t.handed = s.handed
  telemetryTaken : t.telemetryTaken = s.telemetryTaken
  eventsTaken : t.eventsTaken = s.eventsTaken

theorem SameView.delivered {s t : Session} (h : SameView s t) (hs : Delivered s) :
    Delivered t := by
  refine ⟨⟨?_, ?_⟩, ?_⟩
  · rw [h.handed, h.client, h.telemetryTaken]
    exact hs.telemetry
  · rw [h.handed, h.client, h.eventsTaken]
    exact hs.events
  · rw [Session.outstanding, Session.arrived, h.handed, h.stack, h.sent, h.consumed]
    exact hs.in_order

theorem SameView.onStream {s t : Session} (h : SameView s t) (hs : s.OnStream) : t.OnStream := by
  rw [Session.OnStream, h.sent, h.decoded, h.consumed, h.client, h.waiting]
  exact hs

theorem SameView.ordered {s t : Session} (h : SameView s t) (hs : Ordered s) : Ordered t := by
  constructor
  · rw [h.handed, h.client, h.telemetryTaken]
    exact hs.telemetry
  · rw [h.handed, h.client, h.eventsTaken]
    exact hs.events

/-- A response is not one of the frames that the client hands on. -/
theorem answer_unwanted {seq : UInt16} {w : Written} (h : Answers seq w) :
    wanted (hostPacket w) = false := by
  obtain ⟨type, seq', payload⟩ := w
  rcases h.type_ok with rfl | rfl | rfl <;> rfl

theorem depart_nil (book : Book Written) (fate : Fate) : book.depart fate [] = book := by
  rw [Book.depart, List.map_nil, List.append_nil]

theorem emptied_same {s t : State} (h : held t = held s) : emptied s t = [] := by
  rw [emptied, h]
  split_ifs with hempty
  · exact hempty
  · rfl

/-- Where no update happens the ring stays or is emptied, and so does the book. -/
theorem ringAfter_book {s t : State} {book : Book Written} (hring : RingSound s)
    (hbalanced : book.Balanced (held s)) (h : RingAfter s t) :
    RingSound t ∧ (book.depart .lost (emptied s t)).Balanced (held t) := by
  cases h with
  | same hheld hsound hdropped =>
    refine ⟨hsound hring, ?_⟩
    rw [emptied_same hheld, depart_nil, hheld]
    exact hbalanced
  | emptied hheld hsound hdropped =>
    refine ⟨hsound, ?_⟩
    rw [emptied, if_pos hheld, hheld]
    rw [← List.append_nil (held s)] at hbalanced
    exact hbalanced.depart .lost

/-- An input that writes no frame of the ring and leaves the client's view as it is. -/
theorem flows_quiet {p : Pipeline} (h : Flows p) {l : Link} (hlinked : Linked l)
    (hring : RingAfter p.link.device l.device)
    (hsent : l.session.sent.filter HostClient.wanted =
      p.link.session.sent.filter HostClient.wanted)
    (hdelivered : Delivered l.session) (hordered : Ordered l.session) :
    Flows ⟨l, p.book.depart .lost (emptied p.link.device l.device)⟩ := by
  obtain ⟨hsound, hbalanced⟩ := ringAfter_book h.ring h.balanced hring
  refine ⟨hlinked, hsound, hbalanced, ?_, h.wanted, hdelivered, hordered⟩
  rw [hsent, h.wired]
  exact congrArg (List.map hostPacket) (Book.withFate_depart_of_ne (by decide) _).symm

/-- A byte is consumed, or it completes a command, which is handled and answered. -/
theorem byte_cases (b : Board) (o : Options) (l : Link) (env : Env) :
    (SameView l.session (l.step b o (.byte env)).session ∧
      (l.step b o (.byte env)).device = l.device) ∨
    ∃ (l' : Link) (origin : Origin) (p : FirmwareProtocol.Packet) (w : Written),
      l.step b o (.byte env) = l'.transmit origin [w] ∧ SameView l.session l'.session ∧
        l'.device = (handle b env l.device p).1 ∧ Answers p.seq w := by
  simp only [Link.step]
  split
  · exact Or.inl ⟨⟨rfl, rfl, rfl, rfl, rfl, rfl, rfl, rfl, rfl⟩, rfl⟩
  · split
    · exact Or.inl ⟨⟨rfl, rfl, rfl, rfl, rfl, rfl, rfl, rfl, rfl⟩, rfl⟩
    · rename_i p hsome
      obtain ⟨w, hframes, hanswers⟩ := handle_answers b env l.device p
      right
      simp only [Link.handle, hframes]
      exact ⟨_, _, p, w, rfl, ⟨rfl, rfl, rfl, rfl, rfl, rfl, rfl, rfl, rfl⟩, rfl, hanswers⟩

theorem step_flows {b : Board} {o : Options} {p : Pipeline} (h : Flows p) {i : Input}
    (hspares : SparesFrames p i) : Flows (step b o p i) := by
  have hlinked : Linked (p.link.step b o i) := step_linked b h.linked i
  have hstream := h.linked.onStream
  cases i with
  | host move =>
    have hstep := step_stepped o p.link.session (.host move)
    exact flows_quiet h hlinked (ringAfter_of_ring rfl)
      (congrArg (List.filter HostClient.wanted) (host_sent hstep hstream))
      (stepped_delivered hstep hstream h.delivered hspares)
      (stepped_ordered hstep hstream h.ordered)
  | counterTick env id =>
    exact flows_quiet h hlinked (react_ring b p.link.device (e := .counterTick env id) rfl) rfl
      h.delivered h.ordered
  | encoderTick env id =>
    exact flows_quiet h hlinked (react_ring b p.link.device (e := .encoderTick env id) rfl) rfl
      h.delivered h.ordered
  | byte env =>
    rcases byte_cases b o p.link env with
      ⟨hview, hdevice⟩ | ⟨l', origin, q, w, hl', hview, hdevice, hanswers⟩
    · exact flows_quiet h hlinked (ringAfter_of_ring (congrArg ring hdevice))
        (congrArg (List.filter HostClient.wanted) hview.sent) (hview.delivered h.delivered)
        (hview.ordered h.ordered)
    · obtain ⟨hdelivered, hordered⟩ := transmit_delivered o origin
        (hview.onStream hstream) (hview.delivered h.delivered) (hview.ordered h.ordered) (by
          intro v (hv : v ∈ [w])
          obtain rfl := List.mem_singleton.mp hv
          exact hanswers.fits)
      rw [← hl'] at hdelivered hordered
      refine flows_quiet h hlinked ?_ ?_ hdelivered hordered
      · rw [hl', transmit_device, hdevice]
        exact react_ring b p.link.device (e := .handle env q) rfl
      · rw [hl', transmit_sent, List.filter_append, hview.sent, List.map_singleton,
          List.filter_singleton, answer_unwanted hanswers]
        exact List.append_nil _
  | update env =>
    obtain ⟨hring, hbalanced, hsent, hoffered⟩ := update_book b env h.ring h.balanced
    have hwanted : ∀ w ∈ (updateBook b env p.link.device p.book).offered,
        HostClient.wanted (hostPacket w) = true := by
      intro w hw
      rw [hoffered] at hw
      rcases List.mem_append.mp hw with hw | hw
      · exact h.wanted w hw
      · obtain ⟨c, hc, rfl⟩ := List.mem_map.mp hw
        exact (queuedBy_reads c hc).wanted
    have hframes : ∀ w ∈ framesWritten (update b env p.link.device).2,
        HostClient.wanted (hostPacket w) = true := by
      intro w hw
      apply hwanted w
      apply (hbalanced.sent_sublist .sent).subset
      rw [hsent]
      exact List.mem_append_right _ hw
    have hview : SameView p.link.session
        { p.link with device := (update b env p.link.device).1 }.session :=
      ⟨rfl, rfl, rfl, rfl, rfl, rfl, rfl, rfl, rfl⟩
    obtain ⟨hdelivered, hordered⟩ := transmit_delivered o .unsolicited
      (hview.onStream hstream) (hview.delivered h.delivered) (hview.ordered h.ordered)
      fun w hw => (update_unsolicited b env p.link.device h.linked.ring w hw).fits
    refine ⟨hlinked, ?_, ?_, ?_, hwanted, hdelivered, hordered⟩
    · rw [step, Link.step, transmit_device]
      exact hring
    · rw [step, Link.step, transmit_device]
      exact hbalanced
    · rw [step, Link.step, transmit_sent, List.filter_append, h.wired]
      dsimp only
      rw [hsent, List.map_append]
      congr 1
      rw [List.filter_eq_self]
      intro packet hpacket
      obtain ⟨w, hw, rfl⟩ := List.mem_map.mp hpacket
      exact hframes w hw

end Inputs

/-! ### Runs -/

/-- Sent by the device and not decoded yet. -/
def unread (s : Session) : List Packet := s.sent.drop s.decoded

/-- What the program takes and what waits for it are frames that were queued, in their order; and
each other frame of the kind has been dropped from the client's queue, is in a loop of the client,
on the line or in the ring, or was lost from the ring. -/
structure Conveyed {ε : Type} (decode : Packet → Option ε) (p : Pipeline) (taken queue : List ε)
    (dropped : ℕ) : Prop where
  ordered : (taken ++ queue).Sublist (p.book.offered.filterMap (decode ∘ hostPacket))
  counted : (p.book.offered.filterMap (decode ∘ hostPacket)).length =
    taken.length + queue.length + dropped +
      (p.link.session.outstanding.filterMap (decode ∘ Prod.fst)).length +
      ((unread p.link.session).filterMap decode).length +
      ((held p.link.device).filterMap (decode ∘ hostPacket)).length +
      ((p.book.withFate .lost).filterMap (decode ∘ hostPacket)).length

/-- An update queues what the subscribed resources read then. -/
def QueuesReadings (b : Board) (p : Pipeline) : Input → Prop
  | .update env => ∀ c ∈ queuedBy b env p.link.device, Reads b env p.link.device c
  | _ => True

section Runs

variable {ε : Type} {decode : Packet → Option ε}

theorem filterMap_filter_wanted {α : Type} (packet : α → Packet)
    (hdecode : ∀ p, (decode p).isSome → wanted p = true) (as : List α) :
    (as.filter fun a => wanted (packet a)).filterMap (decode ∘ packet) =
      as.filterMap (decode ∘ packet) := by
  induction as with
  | nil => rfl
  | cons a as ih =>
    by_cases hwanted : wanted (packet a) = true
    · rw [List.filter_cons_of_pos (p := fun a => wanted (packet a)) hwanted, List.filterMap_cons,
        List.filterMap_cons, ih]
    · have hnone : (decode ∘ packet) a = none := by
        rw [Function.comp, ← Option.not_isSome_iff_eq_none]
        exact fun hsome => hwanted (hdecode _ hsome)
      rw [List.filter_cons_of_neg (p := fun a => wanted (packet a)) hwanted, ih,
        List.filterMap_cons_none hnone]

/-- What has been handed on, what the loops hold and what is unread are the frames on the line. -/
theorem sent_split {s : Session} (hdecode : ∀ p, (decode p).isSome → wanted p = true)
    (hstream : s.OnStream) (hdelivered : Delivered s) :
    s.sent.filterMap decode =
      s.handed.filterMap (decode ∘ Prod.fst) ++ s.outstanding.filterMap (decode ∘ Prod.fst) ++
        (unread s).filterMap decode := by
  have hin := congrArg (List.filterMap (decode ∘ Prod.fst)) hdelivered.in_order
  rw [List.filterMap_append, wantedOf, wantedOf, wantedOf,
    filterMap_filter_wanted Prod.fst hdecode, filterMap_filter_wanted Prod.fst hdecode,
    filterMap_filter_wanted Prod.fst hdecode] at hin
  have harrived : s.arrived.map Prod.fst = s.sent.take s.decoded := by
    rw [Session.arrived, List.zipIdx_map_fst, complete_eq hstream]
  rw [hin, ← List.filterMap_map, harrived, ← List.filterMap_append, unread, List.take_append_drop]

theorem conveyed {p : Pipeline} (h : Flows p) {taken queue : List ε} {dropped : ℕ}
    (hdecode : ∀ p, (decode p).isSome → wanted p = true)
    (haccounted : Accounted (p.link.session.handed.filterMap (decode ∘ Prod.fst)) queue
      taken.length dropped)
    (hordered : (taken ++ queue).Sublist
      (p.link.session.handed.filterMap (decode ∘ Prod.fst))) :
    Conveyed decode p taken queue dropped := by
  have hwired := congrArg (List.filterMap decode) h.wired
  have hfilter : (p.link.session.sent.filter wanted).filterMap decode =
      p.link.session.sent.filterMap decode :=
    filterMap_filter_wanted id hdecode p.link.session.sent
  have hsplit := sent_split hdecode h.linked.onStream h.delivered
  rw [hfilter, List.filterMap_map] at hwired
  rw [hwired] at hsplit
  constructor
  · have hline : (p.link.session.handed.filterMap (decode ∘ Prod.fst)).Sublist
        ((p.book.withFate .sent).filterMap (decode ∘ hostPacket)) := by
      rw [hsplit, List.append_assoc]
      exact List.sublist_append_left _ _
    exact (hordered.trans hline).trans ((h.balanced.sent_sublist .sent).filterMap _)
  · obtain ⟨gone, hgone, hlength⟩ := haccounted
    rw [h.balanced.count_filterMap, hsplit, List.length_append, List.length_append, hgone,
      List.length_append, hlength]
    omega

end Runs

/-- As long as the client's loops spare the frames: from boot, whatever host and device do, every
frame that a subscription queues holds the value read for it, and what the program takes are such
frames in their order, all others being accounted for. -/
theorem readings_reach_program (b : Board) (o : Options) (inputs : List Input)
    (hspares : EachStep (step b o) SparesFrames {} inputs) :
    let p := after (step b o) {} inputs
    let s := p.link.session
    EachStep (step b o) (QueuesReadings b) {} inputs ∧
      (∀ w ∈ p.book.offered, wanted (hostPacket w) = true) ∧
      Conveyed telemetryFrame p s.telemetryTaken s.client.telemetryQueue
        s.client.telemetryDropped ∧
      Conveyed edgeEvent p s.eventsTaken s.client.eventQueue s.client.eventsDropped := by
  intro p s
  have h : Flows p := eachState_after (eachState_of_eachStep (P := Flows)
    (fun _ _ hp hi => step_flows hp hi) (fun _ hp => hp) flows_initial hspares)
  refine ⟨?_, h.wanted, ?_, ?_⟩
  · rw [eachStep_iff]
    intro before i later _
    cases i with
    | update env => exact queuedBy_reads
    | _ => trivial
  · refine conveyed h ?_ h.delivered.telemetry h.ordered.telemetry
    intro packet hsome
    rw [wanted, hsome]
    rfl
  · refine conveyed h ?_ h.delivered.events h.ordered.events
    intro packet hsome
    rw [wanted, hsome]
    exact Bool.or_true _

/-! ### One reading -/

instance decidableSpares (s : Session) : ∀ move, Decidable (Spares s move)
  | .host .next =>
    match h : s.stack with
    | [] => isTrue (by simp [Spares, h])
    | ⟨call, .looking⟩ :: below => isTrue (by simp [Spares, h])
    | ⟨call, .delivering [] inCallback⟩ :: below => isTrue (by simp [Spares, h])
    | ⟨call, .delivering (arrival :: rest) inCallback⟩ :: below =>
      decidable_of_iff (if call.returns arrival.1 then wantedOf (arrival :: rest) = []
        else wanted arrival.1 = true → wantedOf (pendingOf below) = []) (by simp [Spares, h])
  | .host (.command ..) | .host (.pollAsyncPackets ..) | .host .beginBatch | .host .endBatch
  | .host .flush | .host .getTelemetry | .host .getEvent | .host (.read ..) => isTrue trivial
  | .send _ => isTrue trivial

instance decidableSparesFrames (p : Pipeline) : ∀ i, Decidable (SparesFrames p i)
  | .host move => decidableSpares p.link.session (.host move)
  | .byte _ | .update _ | .counterTick .. | .encoderTick .. => isTrue trivial

/-- The host subscribes to pin 5, which is high, and polls after an update. -/
def readPin : List Input :=
  [.host (.command .subscribe [1, 5, 100, 0, 0] true)] ++
    List.replicate 15 (.byte (FirmwareDevice.envAt 0)) ++
    [.host (.read false 64 (1, 4096)), .host .next,
      .update { FirmwareDevice.envAt 0 with digitalRead := fun _ _ => true },
      .host (.pollAsyncPackets false none), .host (.read false 64 (1, 4096)), .host .next,
      .host .next, .host (.read false 0 (1, 4096)), .host .getTelemetry]

theorem pin_reading_taken :
    let p := after (step FirmwareDevice.sampleBoard {}) {} readPin
    p.link.session.telemetryTaken = [⟨.digital, 5, 1⟩] ∧
      Conveyed telemetryFrame p p.link.session.telemetryTaken
        p.link.session.client.telemetryQueue p.link.session.client.telemetryDropped := by
  have hspares : EachStep (step FirmwareDevice.sampleBoard {}) SparesFrames {} readPin := by
    decide +kernel
  have hconveyed := readings_reach_program FirmwareDevice.sampleBoard {} readPin hspares
  refine ⟨by decide +kernel, ?_⟩
  generalize after (step FirmwareDevice.sampleBoard {}) {} readPin = p at hconveyed ⊢
  exact hconveyed.2.2.1

end TelemetryPipeline
