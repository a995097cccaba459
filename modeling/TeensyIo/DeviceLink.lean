import TeensyIo.FirmwareResponses
import TeensyIo.HostSession

/-! # Host and device on one line

A client session whose bytes are pushed into the firmware's parser one at a time, and whose
incoming stream is what the firmware writes. The numbers of the commands and the writer of
each frame are observed beside the two programs. -/
namespace DeviceLink

open WireCommands HostProtocol HostClient HostSession WireCompatibility
open FirmwareState FirmwareUpdate FirmwareResponses
open FirmwareProtocol (PacketParser)

/-- Why the firmware wrote a frame: it was handling the command with this number, or no
command at all. -/
inductive Origin where
  | response (number : ℕ)
  | unsolicited
  deriving DecidableEq, Repr

/-- `origins` runs along `session.sent`. -/
structure Link where
  session : Session := {}
  parser : PacketParser := {}
  device : State := {}
  origins : List Origin := []

inductive Input where
  | host (move : HostMove)
  | byte (env : Env)
  | update (env : Env)
  | counterTick (env : Env) (id : UInt8)
  | encoderTick (env : Env) (id : UInt8)

/-- A frame of the firmware as the host reads it. -/
def hostPacket (w : Written) : Packet := ⟨w.type, w.seq.toNat, w.payload⟩

theorem refusal_raises {s : State} {seq : UInt16} {code : ErrorCode} {w : Written}
    {reply : List UInt8} (hw : w ∈ framesWritten (FirmwareCommands.refuse s seq code).2) :
    commandResult (hostPacket w) ≠ .ok reply := by
  obtain rfl := List.mem_singleton.mp hw
  simp [hostPacket, commandResult, ErrorCode.ofByte_toByte]

namespace Link

def write (l : Link) (origin : Origin) (w : Written) : Link :=
  { l with session := l.session.send (hostPacket w), origins := l.origins ++ [origin] }

def transmit (l : Link) (origin : Origin) (frames : List Written) : Link :=
  frames.foldl (fun l w => l.write origin w) l

/-- The parser has emitted the oldest command that is still on its way. -/
def handle (b : Board) (l : Link) (env : Env) (p : FirmwareProtocol.Packet) : Link :=
  let out := FirmwareCommands.handle b env l.device p
  let number := (l.session.writtenCommands.map Prod.fst).headD 0
  let session := { l.session with writtenCommands := l.session.writtenCommands.tail }
  { l with device := out.1, session := session }.transmit (.response number) (framesWritten out.2)

def step (b : Board) (o : Options) (l : Link) : Input → Link
  | .host move => { l with session := l.session.host o move }
  | .byte env =>
    match l.session.written with
    | [] => l
    | x :: rest =>
      let pushed := l.parser.push x
      let l := { l with parser := pushed.1, session := { l.session with written := rest } }
      match pushed.2 with
      | none => l
      | some p => l.handle b env p
  | .update env =>
    let out := update b env l.device
    { l with device := out.1 }.transmit .unsolicited (framesWritten out.2)
  | .counterTick env id => { l with device := counterTick env l.device id }
  | .encoderTick env id => { l with device := encoderTick env l.device id }

end Link

/-! ### From the host to the device -/

/-- The bytes on their way to the device, behind what the parser has consumed already, are the
frames of these commands. -/
structure InTransit (parser : PacketParser) (written : List UInt8) (commands : List (ℕ × Packet)) :
    Prop where
  emitted : (parser.pushAll written).2.map hostView = commands.map fun c => some c.2
  closed : (parser.pushAll written).1.state = .start

theorem InTransit.append {parser : PacketParser} {written : List UInt8}
    {commands : List (ℕ × Packet)} (h : InTransit parser written commands)
    (more : List (ℕ × Packet)) (hs : ∀ c ∈ more, Sendable c.2) :
    InTransit parser (written ++ (more.map Prod.snd).flatMap firmwareBytes) (commands ++ more) := by
  have hsendable : ∀ p ∈ more.map Prod.snd, Sendable p := by
    intro p hp
    obtain ⟨c, hc, rfl⟩ := List.mem_map.mp hp
    exact hs c hc
  obtain ⟨hview, hclosed⟩ := parser_stream hsendable h.closed
  constructor
  · rw [FirmwareProtocol.PacketParser.pushAll_append, List.map_append, List.map_append, hview,
      h.emitted, List.map_map]
    rfl
  · rw [FirmwareProtocol.PacketParser.pushAll_append]
    exact hclosed

theorem InTransit.push {parser : PacketParser} {x : UInt8} {rest : List UInt8}
    {commands : List (ℕ × Packet)} (h : InTransit parser (x :: rest) commands) :
    match (parser.push x).2 with
    | none => InTransit (parser.push x).1 rest commands
    | some p => ∃ c more, commands = c :: more ∧ hostView p = some c.2 ∧
        InTransit (parser.push x).1 rest more := by
  obtain ⟨hemitted, hclosed⟩ := h
  simp only [FirmwareProtocol.PacketParser.pushAll] at hemitted hclosed
  cases hpush : (parser.push x).2 with
  | none =>
    rw [hpush] at hemitted
    exact ⟨hemitted, hclosed⟩
  | some p =>
    rw [hpush] at hemitted
    obtain ⟨c, more, rfl, hview, hmore⟩ := List.map_eq_cons_iff.mp hemitted.symm
    exact ⟨c, more, rfl, hview.symm, hmore.symm, hclosed⟩

/-- A command that has been issued carries its number modulo 2^16. -/
structure Numbered (issued : ℕ) (c : ℕ × Packet) : Prop where
  issued : c.1 ≤ issued
  seq : c.2.seq = sequence c.1
  sendable : Sendable c.2

/-- The queue and the line hold the frames of the commands they should. -/
structure Outgoing (parser : PacketParser) (s : Session) : Prop where
  queued : ∀ c ∈ s.queuedCommands, Numbered s.client.issued c
  written : ∀ c ∈ s.writtenCommands, Numbered s.client.issued c
  queue : s.client.queued.flatten = (s.queuedCommands.map Prod.snd).flatMap firmwareBytes
  transit : InTransit parser s.written s.writtenCommands

theorem outgoing_initial : Outgoing {} {} where
  queued := by simp
  written := by simp
  queue := rfl
  transit := ⟨rfl, rfl⟩

variable {parser : PacketParser} {s t : Session} {o : Options}

theorem Numbered.mono {m n : ℕ} {c : ℕ × Packet} (hle : m ≤ n) (h : Numbered m c) :
    Numbered n c := ⟨h.issued.trans hle, h.seq, h.sendable⟩

theorem outgoing_of_outbox (same : SameOutbox s t) (h : Outgoing parser s) :
    Outgoing parser t := by
  obtain ⟨hissued, hqueued, hwritten, hqc, hwc⟩ := same
  constructor
  · rw [hqc, hissued]
    exact h.queued
  · rw [hwc, hissued]
    exact h.written
  · rw [hqueued, hqc]
    exact h.queue
  · rw [hwritten, hwc]
    exact h.transit

/-- Flushing moves the queue to the line. -/
theorem flushed_outgoing (h : Outgoing parser s) {client : Client} {writes : List (List UInt8)}
    (hissued : s.client.issued ≤ client.issued) (hempty : client.queued = [])
    (hwrites : writes.flatten = s.client.queued.flatten) :
    Outgoing parser (s.flushed client writes) where
  queued := by simp [Session.flushed]
  written := by
    intro c hc
    rcases List.mem_append.mp hc with hc | hc
    · exact (h.written c hc).mono hissued
    · exact (h.queued c hc).mono hissued
  queue := by simp [Session.flushed, hempty]
  transit := by
    simp only [Session.flushed]
    rw [hwrites, h.queue]
    exact h.transit.append _ fun c hc => (h.queued c hc).sendable

theorem encodePacket_fits {p : Packet} {encoded : List UInt8} (h : encodePacket p = .ok encoded) :
    p.payload.length ≤ WireFrame.maxPayload := by
  by_contra hl
  have hbig : p.payload.length > maxPayloadSize := Nat.lt_of_not_le hl
  rw [encodePacket, if_pos hbig] at h
  cases h

/-- A command that can be encoded is sent as the firmware would write it. -/
theorem command_sendable {number : ℕ} {command : CommandId} {payload encoded : List UInt8}
    (h : encodePacket (commandPacket number command payload) = .ok encoded) :
    Sendable (commandPacket number command payload) ∧
      encoded = firmwareBytes (commandPacket number command payload) := by
  have hs : Sendable (commandPacket number command payload) :=
    ⟨sequence_lt number, encodePacket_fits h⟩
  rw [encodePacket_sendable hs] at h
  exact ⟨hs, (Except.ok.inj h).symm⟩

theorem mem_snoc {P : ℕ × Packet → Prop} {commands : List (ℕ × Packet)} {command : ℕ × Packet}
    (h : ∀ c ∈ commands, P c) (hnew : P command) : ∀ c ∈ commands ++ [command], P c := by
  intro c hc
  rcases List.mem_append.mp hc with hc | hc
  · exact h c hc
  · obtain rfl := List.mem_singleton.mp hc
    exact hnew

theorem command_outgoing (h : Outgoing parser s) (command : CommandId) (payload : List UInt8)
    (expectResponse : Bool) : Outgoing parser (s.command o command payload expectResponse) := by
  have hspec := issue_spec o s.client command payload expectResponse
  have hcount := hspec.issued_eq
  have hle := hspec.inbox.issued
  unfold Session.command
  dsimp only
  generalize (issue o s.client command payload expectResponse).1 = client at *
  generalize (issue o s.client command payload expectResponse).2 = out at *
  let frame := (s.client.issued + 1, commandPacket (s.client.issued + 1) command payload)
  have hqueued : ∀ c ∈ s.queuedCommands, Numbered client.issued c :=
    fun c hc => (h.queued c hc).mono hle
  have hwritten : ∀ c ∈ s.writtenCommands, Numbered client.issued c :=
    fun c hc => (h.written c hc).mono hle
  have hnew : ∀ {encoded}, encodePacket frame.2 = .ok encoded → Numbered client.issued frame :=
    fun he => ⟨hcount.ge, rfl, (command_sendable he).1⟩
  have hsent : ∀ {encoded}, encodePacket frame.2 = .ok encoded →
      InTransit parser (s.written ++ encoded) (s.writtenCommands ++ [frame]) := by
    intro encoded he
    have htransit := h.transit.append [frame] (by simpa using (hnew he).sendable)
    rw [(command_sendable he).2]
    simpa using htransit
  have hflatten : ∀ {encoded}, encodePacket frame.2 = .ok encoded →
      s.client.queued.flatten ++ encoded =
        ((s.queuedCommands ++ [frame]).map Prod.snd).flatMap firmwareBytes := by
    intro encoded he
    rw [h.queue, (command_sendable he).2, List.map_append, List.flatMap_append]
    simp [frame]
  cases hspec with
  | raised error hinbox _ hq =>
    exact ⟨hqueued, hwritten, (congrArg List.flatten hq).trans h.queue, h.transit⟩
  | queued encoded he hinbox _ hq =>
    refine ⟨mem_snoc hqueued (hnew he), hwritten, ?_, h.transit⟩
    change client.queued.flatten = _
    rw [hq, List.flatten_append, List.flatten_singleton]
    exact hflatten he
  | flushed encoded writes he hinbox _ hq hwrites =>
    refine ⟨by simp [Session.settle, Session.flushed, Session.finish], ?_, ?_, ?_⟩
    · intro c hc
      rcases List.mem_append.mp hc with hc | hc
      · exact hwritten c hc
      · exact mem_snoc hqueued (hnew he) c hc
    · change client.queued.flatten = _
      rw [hq]
      rfl
    · change InTransit parser (s.written ++ writes.flatten) _
      rw [hwrites, hflatten he]
      exact h.transit.append _ fun c hc => (mem_snoc hqueued (hnew he) c hc).sendable
  | sent encoded he hinbox _ hq =>
    exact ⟨hqueued, mem_snoc hwritten (hnew he), (congrArg List.flatten hq).trans h.queue,
      hsent he⟩
  | awaiting encoded he hinbox _ hq =>
    exact ⟨hqueued, mem_snoc hwritten (hnew he), (congrArg List.flatten hq).trans h.queue,
      hsent he⟩

theorem endBatch_outgoing (h : Outgoing parser s) : Outgoing parser (s.act o .endBatch) := by
  simp only [Session.act, endBatch]
  split_ifs
  · exact flushed_outgoing h le_rfl rfl (flushWrites_flatten _ _)
  · exact ⟨h.queued, h.written, h.queue, h.transit⟩

theorem act_outgoing (h : Outgoing parser s) (move : HostMove) :
    Outgoing parser (s.act o move) := by
  cases move with
  | command command payload expectResponse => exact command_outgoing h _ _ _
  | endBatch => exact endBatch_outgoing h
  | flush => exact flushed_outgoing h le_rfl rfl (flushWrites_flatten _ _)
  | _ => exact ⟨h.queued, h.written, h.queue, h.transit⟩

theorem host_outgoing (h : Outgoing parser s) (move : HostMove) :
    Outgoing parser (s.host o move) := by
  unfold Session.host
  split
  · exact outgoing_of_outbox (look_outbox o s _ _ _ _ _) h
  · exact outgoing_of_outbox (deliver_outbox o s _ _ _) h
  · split_ifs
    · exact act_outgoing h _
    · exact h

/-! ### From the device to the host -/

/-- What the origin of a frame says about it. -/
def Labelled (issued : ℕ) (p : Packet) : Origin → Prop
  | .response number =>
    number ≤ issued ∧ p.seq = sequence number ∧ (p.type = .ack ∨ p.type = .nack ∨ p.type = .data)
  | .unsolicited => p.seq = 0 ∧ (p.type = .event ∨ p.type = .telemetry)

/-- Every frame in the stream is labelled, and every packet in a loop has its right place. -/
structure Incoming (l : Link) : Prop where
  onStream : l.session.OnStream
  places : l.origins.length = l.session.sent.length
  labelled : ∀ (place : ℕ) origin p, l.origins[place]? = some origin →
    l.session.sent[place]? = some p → Labelled l.session.client.issued p origin
  held : ∀ a ∈ l.session.outstanding, l.session.sent[a.2]? = some a.1
  ring : AsyncRing l.device

structure Linked (l : Link) : Prop extends Incoming l where
  outgoing : Outgoing l.parser l.session

theorem linked_initial : Linked {} where
  onStream := onStream_initial
  places := rfl
  labelled := by simp
  held := by simp [Session.outstanding, pendingOf]
  ring := fun _ => asyncFrame_empty
  outgoing := outgoing_initial

theorem Labelled.mono {m n : ℕ} {p : Packet} {origin : Origin} (hle : m ≤ n)
    (h : Labelled m p origin) : Labelled n p origin := by
  cases origin with
  | response number => exact ⟨h.1.trans hle, h.2⟩
  | unsolicited => exact h

theorem hostPacket_sendable {w : Written}
    (h : w.payload.length ≤ FirmwareProtocol.kMaxPayloadSize) : Sendable (hostPacket w) :=
  ⟨w.seq.toNat_lt, h⟩

theorem write_linked {l : Link} (h : Linked l) {origin : Origin} {w : Written}
    (hfits : w.payload.length ≤ FirmwareProtocol.kMaxPayloadSize)
    (hlabel : Labelled l.session.client.issued (hostPacket w) origin) :
    Linked (l.write origin w) where
  onStream := send_onStream h.onStream ⟨hostPacket w, hostPacket_sendable hfits⟩
  places := by simp [Link.write, Session.send, h.places]
  labelled := by
    intro place other p hother hp
    simp only [Link.write, Session.send] at hother hp
    rw [List.getElem?_append] at hother hp
    rw [h.places] at hother
    split_ifs at hother hp
    · exact h.labelled place other p hother hp
    · obtain rfl := List.mem_singleton.mp (List.mem_of_getElem? hother)
      obtain rfl := List.mem_singleton.mp (List.mem_of_getElem? hp)
      exact hlabel
  held := by
    intro a ha
    have hold := h.held a ha
    exact (List.getElem?_append_left (List.getElem?_eq_some_iff.mp hold).1).trans hold
  ring := h.ring
  outgoing := ⟨h.outgoing.queued, h.outgoing.written, h.outgoing.queue, h.outgoing.transit⟩

theorem transmit_linked {l : Link} (h : Linked l) {origin : Origin} {frames : List Written}
    (hframes : ∀ w ∈ frames, w.payload.length ≤ FirmwareProtocol.kMaxPayloadSize ∧
      Labelled l.session.client.issued (hostPacket w) origin) :
    Linked (l.transmit origin frames) := by
  induction frames generalizing l with
  | nil => exact h
  | cons w frames ih =>
    obtain ⟨hfits, hlabel⟩ := hframes w List.mem_cons_self
    exact ih (write_linked h hfits hlabel) fun v hv => hframes v (List.mem_cons_of_mem w hv)

/-- The outgoing half aside, what a move of the host keeps. -/
theorem stepped_incoming {l : Link} {move : HostMove} (h : Incoming l)
    (hstep : Stepped o l.session (.host move) t) : Incoming { l with session := t } := by
  have hstream := stepped_onStream hstep h.onStream
  cases hstep with
  | quiet q =>
    refine ⟨hstream, ?_, ?_, ?_, h.ring⟩
    · rw [q.sent]; exact h.places
    · intro place origin p horigin hp
      rw [q.sent] at hp
      exact (h.labelled place origin p horigin hp).mono q.inbox.issued
    · rw [q.outstanding, q.sent]; exact h.held
  | taken hmove =>
    rcases hmove with rfl | rfl <;> exact ⟨hstream, h.places, h.labelled, h.held, h.ring⟩
  | @read _ call below data hstack hne hdata =>
    obtain ⟨packets, hread⟩ := ingest_readIn h.onStream call below hne hdata
    obtain ⟨n, hloop⟩ := hread.stack
    refine ⟨hstream, ?_, ?_, ?_, h.ring⟩
    · rw [hread.sent]; exact h.places
    · rw [hread.sent, hread.client]; exact h.labelled
    · intro a ha
      rw [outstanding_cons hloop] at ha
      rcases List.mem_append.mp ha with ha | ha
      · rw [hread.sent]
        exact h.held a ((outstanding_idle hstack rfl) ▸ ha)
      · exact hread.held a ha
  | @answered call below arrival rest inCallback hstack hreturns =>
    have hheld : ∀ a ∈ pendingOf below, l.session.sent[a.2]? = some a.1 := fun a ha =>
      h.held a ((outstanding_cons hstack) ▸ List.mem_append_left _ ha)
    cases call <;> exact ⟨hstream, h.places, h.labelled, hheld, h.ring⟩
  | @handed call below arrival rest inCallback hstack hreturns =>
    have hsame := hand_outbox o l.session call below arrival rest
    refine ⟨hstream, h.places, ?_, ?_, h.ring⟩
    · rw [hsame.issued]
      exact h.labelled
    · intro a ha
      rw [(hand_handed o l.session call below arrival rest).2.2] at ha
      refine h.held a ((outstanding_cons hstack) ▸ ?_)
      rcases List.mem_append.mp ha with ha | ha
      · exact List.mem_append_left _ ha
      · exact List.mem_append_right _ (List.mem_cons_of_mem arrival ha)

theorem host_linked {l : Link} (h : Linked l) (move : HostMove) :
    Linked { l with session := l.session.host o move } where
  toIncoming := stepped_incoming h.toIncoming (step_stepped o l.session (.host move))
  outgoing := host_outgoing h.outgoing move

variable (b : Board)

/-- Handling the oldest command on its way, once its frame has been parsed. -/
theorem handle_linked {l : Link} (h : Incoming l) (env : Env) {p : FirmwareProtocol.Packet}
    {c : ℕ × Packet} {more : List (ℕ × Packet)} (hcommands : l.session.writtenCommands = c :: more)
    (hview : hostView p = some c.2) (hnumbered : Numbered l.session.client.issued c)
    (hout : Outgoing l.parser { l.session with writtenCommands := more }) :
    Linked (l.handle b env p) := by
  obtain ⟨w, hframes, hanswers⟩ := handle_answers b env l.device p
  have hseq : p.seq.toNat = c.2.seq := by
    obtain ⟨t, -, ht⟩ := Option.map_eq_some_iff.mp hview
    exact congrArg Packet.seq ht
  have hready : Linked
      { l with
        device := (FirmwareCommands.handle b env l.device p).1
        session := { l.session with writtenCommands := more } } :=
    ⟨⟨h.onStream, h.places, h.labelled, h.held, handle_ring b env l.device p h.ring⟩, hout⟩
  simp only [Link.handle, hframes, hcommands, List.map_cons, List.headD_cons, List.tail_cons]
  refine transmit_linked hready fun v hv => ?_
  obtain rfl := List.mem_singleton.mp hv
  refine ⟨hanswers.fits, hnumbered.issued, ?_, hanswers.type_ok⟩
  rw [← hnumbered.seq, ← hseq, ← hanswers.seq_eq]
  rfl

theorem byte_linked {l : Link} (h : Linked l) (env : Env) : Linked (l.step b o (.byte env)) := by
  simp only [Link.step]
  split
  · exact h
  · rename_i x rest hwritten
    have htransit := h.outgoing.transit
    rw [hwritten] at htransit
    have hpush := htransit.push
    split
    · rename_i hnone
      rw [hnone] at hpush
      exact ⟨⟨h.onStream, h.places, h.labelled, h.held, h.ring⟩,
        ⟨h.outgoing.queued, h.outgoing.written, h.outgoing.queue, hpush⟩⟩
    · rename_i p hsome
      rw [hsome] at hpush
      obtain ⟨c, more, hcommands, hview, hrest⟩ := hpush
      have hnumbered := h.outgoing.written
      rw [hcommands] at hnumbered
      exact handle_linked b
        (l := { l with
          parser := (l.parser.push x).1
          session := { l.session with written := rest } })
        ⟨h.onStream, h.places, h.labelled, h.held, h.ring⟩ env hcommands hview
        (hnumbered c List.mem_cons_self)
        ⟨h.outgoing.queued, fun d hd => hnumbered d (List.mem_cons_of_mem c hd),
          h.outgoing.queue, hrest⟩

theorem step_linked {l : Link} (h : Linked l) (i : Input) : Linked (l.step b o i) := by
  cases i with
  | host move => exact host_linked h move
  | byte env => exact byte_linked b h env
  | update env =>
    have hready : Linked { l with device := (update b env l.device).1 } :=
      ⟨⟨h.onStream, h.places, h.labelled, h.held, (update_ring b env h.ring).1⟩, h.outgoing⟩
    refine transmit_linked hready fun w hw => ?_
    have hsent := update_unsolicited b env l.device h.ring w hw
    refine ⟨hsent.fits, ?_, hsent.type_ok⟩
    rw [hostPacket, hsent.seq_eq]
    rfl
  | counterTick env id =>
    exact ⟨⟨h.onStream, h.places, h.labelled, h.held, counterTick_ring env l.device id h.ring⟩,
      h.outgoing⟩
  | encoderTick env id =>
    exact ⟨⟨h.onStream, h.places, h.labelled, h.held, encoderTick_ring env l.device id h.ring⟩,
      h.outgoing⟩

end DeviceLink
