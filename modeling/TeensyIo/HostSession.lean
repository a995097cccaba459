import TeensyIo.HostClient
import TeensyIo.MachineRuns
import TeensyIo.WireCompatibility

/-! # A session on one thread

The loops of `_read_response` and `_poll_async_packets` packet by packet. A callback may call
the client again while a loop hands packets on, so the loops form a stack. What the device
has sent, how far it has been read and what has been handed on are observed beside the
client's own state, and every packet is known by its place in the device's stream. -/
namespace HostSession

open WireCommands HostProtocol HostClient WireCompatibility

/-- The function a loop belongs to. `_read_response` waits for the given command; `timed` says
that the poll's timeout is positive. -/
inductive Call where
  | readResponse (number : ℕ)
  | pollAsyncPackets (timed : Bool) (budget drained : ℤ)
  deriving DecidableEq, Repr

/-- A poll counts what it has read. -/
def Call.drain : Call → ℕ → Call
  | .readResponse number, _ => .readResponse number
  | .pollAsyncPackets timed budget drained, n => .pollAsyncPackets timed budget (drained + n)

/-- `packet.seq == seq` in the loop of `_read_response`. -/
def Call.returns : Call → Packet → Bool
  | .readResponse number, packet => packet.seq == sequence number
  | .pollAsyncPackets .., _ => false

/-- A packet and its place in the stream. -/
abbrev Arrival := Packet × ℕ

/-- Between two reads, or inside the `for` loop over the packets of one `feed`. `inCallback`
says that the callbacks of the packet just handed on are still running. -/
inductive Phase where
  | looking
  | delivering (packets : List Arrival) (inCallback : Bool)
  deriving DecidableEq, Repr

structure Activity where
  call : Call
  phase : Phase := .looking
  deriving DecidableEq, Repr

structure Session where
  client : Client := {}
  stack : List Activity := []
  /-- Sent by the device and not read yet. -/
  waiting : List UInt8 := []
  /-- Written to the transport and not yet taken by the device. -/
  written : List UInt8 := []
  /-- The commands whose frames are in the client's queue, and those in `written`. -/
  queuedCommands : List (ℕ × Packet) := []
  writtenCommands : List (ℕ × Packet) := []
  /-- What the calls of `_command` have returned or raised. -/
  finished : List (ℕ × Except PyError (List UInt8)) := []
  sent : List Packet := []
  consumed : ℕ := 0
  decoded : ℕ := 0
  handed : List Arrival := []
  telemetryTaken : List TelemetryFrame := []
  eventsTaken : List EdgeEvent := []

/-- What the program, the clock and the transport choose. `read` gives the answers of one pass
of a loop: whether the deadline has passed, and how many bytes each read finds. -/
inductive HostMove where
  | command (command : CommandId) (payload : List UInt8) (expectResponse : Bool)
  | pollAsyncPackets (timed : Bool) (maxBytes : Option ℤ)
  | beginBatch
  | endBatch
  | flush
  | getTelemetry
  | getEvent
  | read (expired : Bool) (available : ℕ) (blocking : ℕ × ℕ)
  | next

inductive Move where
  | send (packet : {p : Packet // Sendable p})
  | host (move : HostMove)

def Activity.pending (a : Activity) : List Arrival :=
  match a.phase with
  | .looking => []
  | .delivering packets _ => packets

def pendingOf (stack : List Activity) : List Arrival := stack.reverse.flatMap Activity.pending

/-- The packets read but not yet handed on, in the order they arrived: the loop at the bottom
of the stack is the oldest. -/
def Session.outstanding (s : Session) : List Arrival := pendingOf s.stack

/-- The program runs, or a callback does. -/
def Session.free (s : Session) : Bool :=
  match s.stack with
  | [] => true
  | ⟨_, .delivering _ inCallback⟩ :: _ => inCallback
  | _ => false

namespace Session

def send (s : Session) (packet : Packet) : Session :=
  { s with waiting := s.waiting ++ firmwareBytes packet, sent := s.sent ++ [packet] }

def flushed (s : Session) (client : Client) (writes : List (List UInt8)) : Session :=
  { s with
    client := client
    written := s.written ++ writes.flatten
    writtenCommands := s.writtenCommands ++ s.queuedCommands
    queuedCommands := [] }

def finish (s : Session) (number : ℕ) (result : Except PyError (List UInt8)) : Session :=
  { s with finished := s.finished ++ [(number, result)] }

/-- What becomes of a command's number and frame. -/
def settle (s : Session) (command : ℕ × Packet) (client : Client) : Issue → Session
  | .raised error => { s with client := client }.finish command.1 (.error error)
  | .queued none =>
    { s with client := client, queuedCommands := s.queuedCommands ++ [command] }.finish
      command.1 (.ok [])
  | .queued (some writes) =>
    ({ s with queuedCommands := s.queuedCommands ++ [command] }.flushed client writes).finish
      command.1 (.ok [])
  | .sent encoded =>
    { s with
      client := client
      written := s.written ++ encoded
      writtenCommands := s.writtenCommands ++ [command] }.finish command.1 (.ok [])
  | .awaiting encoded =>
    { s with
      client := client
      written := s.written ++ encoded
      writtenCommands := s.writtenCommands ++ [command]
      stack := { call := .readResponse command.1 } :: s.stack }

/-- `_command` as far as it gets without reading. -/
def command (o : Options) (s : Session) (command : CommandId) (payload : List UInt8)
    (expectResponse : Bool) : Session :=
  let number := s.client.issued + 1
  let out := issue o s.client command payload expectResponse
  s.settle (number, commandPacket number command payload) out.1 out.2

/-- An exception leaves the loop at the top of the stack. -/
def raise (s : Session) (call : Call) (below : List Activity) (error : PyError) : Session :=
  match call with
  | .readResponse number => { s with stack := below }.finish number (.error error)
  | .pollAsyncPackets .. => { s with stack := below }

/-- `data` has been read: unless it is empty it is fed to the decoder. -/
def ingest (s : Session) (call : Call) (below : List Activity) (data : List UInt8) : Session :=
  if data = [] then s
  else
    let fed := s.client.decoder.feed data
    let read :=
      { s with
        client := { s.client with decoder := fed.2 }
        waiting := s.waiting.drop data.length
        consumed := s.consumed + data.length }
    match fed.1 with
    | .error error => read.raise call below error
    | .ok packets =>
      { read with
        decoded := s.decoded + packets.length
        stack := ⟨call.drain data.length,
          .delivering (packets.zipIdx s.decoded) false⟩ :: below }

/-- One pass of a loop up to its `for`. -/
def look (o : Options) (s : Session) (call : Call) (below : List Activity) (expired : Bool)
    (available : ℕ) (blocking : ℕ × ℕ) : Session :=
  match call with
  | .readResponse _ =>
    if expired then s.raise call below .timeoutError
    else s.ingest call below (readSome s.waiting o.readChunkSize blocking)
  | .pollAsyncPackets timed budget drained =>
    let limit := min o.readChunkSize (max 1 (budget - drained))
    let data := transportRead s.waiting limit available
    if data ≠ [] then s.ingest call below data
    else if ¬ timed ∨ expired then { s with stack := below }
    else s.ingest call below (readSome s.waiting limit blocking)

/-- The packet is handed to `_handle_async_packet`. -/
def hand (o : Options) (s : Session) (call : Call) (below : List Activity) (arrival : Arrival)
    (rest : List Arrival) : Session :=
  { s with
    client := handleAsyncPacket o s.client arrival.1
    handed := s.handed ++ [arrival]
    stack := ⟨call, .delivering rest (wanted arrival.1)⟩ :: below }

/-- The early `return packet`: the rest of the list goes with it. -/
def answer (s : Session) (call : Call) (below : List Activity) (packet : Packet) : Session :=
  match call with
  | .readResponse number => { s with stack := below }.finish number (commandResult packet)
  | .pollAsyncPackets .. => { s with stack := below }

/-- The `for` loop has run out of packets. -/
def exhaust (s : Session) (call : Call) (below : List Activity) : Session :=
  match call with
  | .readResponse _ => { s with stack := ⟨call, .looking⟩ :: below }
  | .pollAsyncPackets _ budget drained =>
    if budget ≤ drained then { s with stack := below }
    else { s with stack := ⟨call, .looking⟩ :: below }

/-- One turn of the `for` loop. -/
def deliver (o : Options) (s : Session) (call : Call) (below : List Activity) :
    List Arrival → Session
  | [] => s.exhaust call below
  | arrival :: rest =>
    if call.returns arrival.1 then s.answer call below arrival.1
    else s.hand o call below arrival rest

/-- What the program does where no loop has to go on first. -/
def act (o : Options) (s : Session) : HostMove → Session
  | .command command payload expectResponse => s.command o command payload expectResponse
  | .pollAsyncPackets timed maxBytes =>
    let budget := maxBytes.getD o.readDrainMaxBytes
    { s with stack := { call := .pollAsyncPackets timed budget 0 } :: s.stack }
  | .beginBatch => { s with client := beginBatch s.client }
  | .endBatch =>
    match endBatch o s.client with
    | (client, none) => { s with client := client }
    | (client, some writes) => s.flushed client writes
  | .flush => s.flushed (HostClient.flush o s.client).1 (HostClient.flush o s.client).2
  | .getTelemetry =>
    { s with
      client := { s.client with telemetryQueue := s.client.telemetryQueue.tail }
      telemetryTaken := s.telemetryTaken ++ s.client.telemetryQueue.take 1 }
  | .getEvent =>
    { s with
      client := { s.client with eventQueue := s.client.eventQueue.tail }
      eventsTaken := s.eventsTaken ++ s.client.eventQueue.take 1 }
  | _ => s

/-- A move that is not possible changes nothing. -/
def host (o : Options) (s : Session) (move : HostMove) : Session :=
  match move, s.stack with
  | .read expired available blocking, ⟨call, .looking⟩ :: below =>
    s.look o call below expired available blocking
  | .next, ⟨call, .delivering packets _⟩ :: below => s.deliver o call below packets
  | move, _ => if s.free then s.act o move else s

def step (o : Options) (s : Session) : Move → Session
  | .send packet => s.send packet
  | .host move => s.host o move

end Session

/-! ### What a step can do -/

/-- A loop that holds no packet; if it waits for a response, then for that of the newest
command or of one that was waited for before. -/
structure Fresh (s t : Session) (a : Activity) : Prop where
  idle : a.pending = []
  call : ∀ number, a.call = .readResponse number →
    number = t.client.issued ∨ ∃ old ∈ s.stack, old.call = .readResponse number

/-- Nothing was read, handed on or taken, and the loops hold the packets they held. -/
structure Quiet (s t : Session) : Prop where
  inbox : SameInbox s.client t.client
  waiting : t.waiting = s.waiting
  sent : t.sent = s.sent
  consumed : t.consumed = s.consumed
  decoded : t.decoded = s.decoded
  handed : t.handed = s.handed
  telemetryTaken : t.telemetryTaken = s.telemetryTaken
  eventsTaken : t.eventsTaken = s.eventsTaken
  outstanding : t.outstanding = s.outstanding
  stack : ∀ a ∈ t.stack, a ∈ s.stack ∨ Fresh s t a

/-- Every step is one of these. -/
inductive Stepped (o : Options) (s : Session) : Move → Session → Prop where
  | quiet {move t} : Quiet s t → Stepped o s move t
  | sent (packet : {p : Packet // Sendable p}) : Stepped o s (.send packet) (s.send packet)
  | taken {move} : move = .getTelemetry ∨ move = .getEvent →
      Stepped o s (.host move) (s.act o move)
  | read {move call below data} : s.stack = ⟨call, .looking⟩ :: below → data ≠ [] →
      data <+: s.waiting → Stepped o s move (s.ingest call below data)
  | answered {call below arrival rest inCallback} :
      s.stack = ⟨call, .delivering (arrival :: rest) inCallback⟩ :: below →
      call.returns arrival.1 = true → Stepped o s (.host .next) (s.answer call below arrival.1)
  | handed {call below arrival rest inCallback} :
      s.stack = ⟨call, .delivering (arrival :: rest) inCallback⟩ :: below →
      call.returns arrival.1 = false →
      Stepped o s (.host .next) (s.hand o call below arrival rest)

theorem pendingOf_cons (a : Activity) (below : List Activity) :
    pendingOf (a :: below) = pendingOf below ++ a.pending := by
  simp [pendingOf]

theorem Quiet.refl (s : Session) : Quiet s s :=
  ⟨.refl _, rfl, rfl, rfl, rfl, rfl, rfl, rfl, rfl, fun _ => Or.inl⟩

variable (o : Options) (s : Session)

theorem settle_quiet {number : ℕ} {packet : Packet} {client : Client} {out : Issue}
    (hspec : Issued s.client packet client out) (hnumber : client.issued = number) :
    Quiet s (s.settle (number, packet) client out) := by
  have hinbox := hspec.inbox
  cases hspec with
  | awaiting =>
    refine ⟨hinbox, rfl, rfl, rfl, rfl, rfl, rfl, rfl, ?_, ?_⟩
    · exact (pendingOf_cons _ _).trans (List.append_nil _)
    · intro a ha
      rcases List.mem_cons.mp ha with rfl | ha
      · exact Or.inr ⟨rfl, fun _ hcall => Or.inl (by cases hcall; exact hnumber.symm)⟩
      · exact Or.inl ha
  | _ => exact ⟨hinbox, rfl, rfl, rfl, rfl, rfl, rfl, rfl, rfl, fun _ => Or.inl⟩

theorem command_quiet (command : CommandId) (payload : List UInt8) (expectResponse : Bool) :
    Quiet s (s.command o command payload expectResponse) := by
  have hspec := issue_spec o s.client command payload expectResponse
  exact settle_quiet s hspec hspec.issued_eq

variable {o s} {call : Call} {phase : Phase} {below : List Activity}

theorem outstanding_cons (hstack : s.stack = ⟨call, phase⟩ :: below) :
    s.outstanding = pendingOf below ++ (Activity.mk call phase).pending := by
  rw [Session.outstanding, hstack, pendingOf_cons]

theorem outstanding_idle (hstack : s.stack = ⟨call, phase⟩ :: below)
    (hphase : (Activity.mk call phase).pending = []) : pendingOf below = s.outstanding := by
  rw [outstanding_cons hstack, hphase, List.append_nil]

theorem below_known {t : Session} (hstack : s.stack = ⟨call, phase⟩ :: below) :
    ∀ a ∈ below, a ∈ s.stack ∨ Fresh s t a :=
  fun _ ha => Or.inl (hstack ▸ List.mem_cons_of_mem _ ha)

theorem looking_known {t : Session} (hstack : s.stack = ⟨call, phase⟩ :: below) :
    ∀ a ∈ (⟨call, .looking⟩ :: below : List Activity), a ∈ s.stack ∨ Fresh s t a := by
  intro a ha
  rcases List.mem_cons.mp ha with rfl | ha
  · refine Or.inr ⟨rfl, fun _ hcall => Or.inr ⟨⟨call, phase⟩, ?_, hcall⟩⟩
    rw [hstack]
    exact List.mem_cons_self
  · exact below_known hstack a ha

theorem raise_quiet (error : PyError) (hstack : s.stack = ⟨call, .looking⟩ :: below) :
    Quiet s (s.raise call below error) := by
  have hout := outstanding_idle hstack rfl
  cases call with
  | readResponse number =>
    exact ⟨.refl _, rfl, rfl, rfl, rfl, rfl, rfl, rfl, hout, below_known hstack⟩
  | pollAsyncPackets timed budget drained =>
    exact ⟨.refl _, rfl, rfl, rfl, rfl, rfl, rfl, rfl, hout, below_known hstack⟩

theorem ingest_stepped (move : Move) {data : List UInt8}
    (hstack : s.stack = ⟨call, .looking⟩ :: below) (hdata : data <+: s.waiting) :
    Stepped o s move (s.ingest call below data) := by
  by_cases hempty : data = []
  · rw [Session.ingest, if_pos hempty]
    exact .quiet (.refl s)
  · exact .read hstack hempty hdata

theorem look_stepped (move : Move) (expired : Bool) (available : ℕ) (blocking : ℕ × ℕ)
    (hstack : s.stack = ⟨call, .looking⟩ :: below) :
    Stepped o s move (s.look o call below expired available blocking) := by
  cases call with
  | readResponse number =>
    simp only [Session.look]
    split_ifs
    · exact .quiet (raise_quiet _ hstack)
    · exact ingest_stepped move hstack (readSome_taken ..)
  | pollAsyncPackets timed budget drained =>
    simp only [Session.look]
    split_ifs
    · exact ingest_stepped move hstack (transportRead_taken ..)
    · exact .quiet ⟨.refl _, rfl, rfl, rfl, rfl, rfl, rfl, rfl, outstanding_idle hstack rfl,
        below_known hstack⟩
    · exact ingest_stepped move hstack (readSome_taken ..)

theorem exhaust_quiet {inCallback : Bool}
    (hstack : s.stack = ⟨call, .delivering [] inCallback⟩ :: below) :
    Quiet s (s.exhaust call below) := by
  have hout := outstanding_idle hstack rfl
  have hlook : pendingOf (⟨call, .looking⟩ :: below) = s.outstanding := by
    rw [pendingOf_cons, hout]
    exact List.append_nil _
  cases call with
  | readResponse number =>
    exact ⟨.refl _, rfl, rfl, rfl, rfl, rfl, rfl, rfl, hlook, looking_known hstack⟩
  | pollAsyncPackets timed budget drained =>
    unfold Session.exhaust
    dsimp only
    split_ifs
    · exact ⟨.refl _, rfl, rfl, rfl, rfl, rfl, rfl, rfl, hout, below_known hstack⟩
    · exact ⟨.refl _, rfl, rfl, rfl, rfl, rfl, rfl, rfl, hlook, looking_known hstack⟩

theorem deliver_stepped {packets : List Arrival} {inCallback : Bool}
    (hstack : s.stack = ⟨call, .delivering packets inCallback⟩ :: below) :
    Stepped o s (.host .next) (s.deliver o call below packets) := by
  cases packets with
  | nil => exact .quiet (exhaust_quiet hstack)
  | cons arrival rest =>
    cases hreturns : call.returns arrival.1 with
    | true =>
      rw [Session.deliver, if_pos hreturns]
      exact .answered hstack hreturns
    | false =>
      rw [Session.deliver, if_neg (by simp [hreturns])]
      exact .handed hstack hreturns

variable (o s)

theorem act_stepped (move : HostMove) : Stepped o s (.host move) (s.act o move) := by
  cases move with
  | command command payload expectResponse =>
    exact .quiet (command_quiet o s command payload expectResponse)
  | pollAsyncPackets timed maxBytes =>
    refine .quiet ⟨.refl _, rfl, rfl, rfl, rfl, rfl, rfl, rfl, ?_, ?_⟩
    · exact (pendingOf_cons _ _).trans (List.append_nil _)
    · intro a ha
      rcases List.mem_cons.mp ha with rfl | ha
      · exact Or.inr ⟨rfl, fun _ hcall => by cases hcall⟩
      · exact Or.inl ha
  | beginBatch =>
    exact .quiet ⟨⟨le_rfl, rfl, rfl, rfl, rfl, rfl⟩, rfl, rfl, rfl, rfl, rfl, rfl, rfl, rfl,
      fun _ => Or.inl⟩
  | endBatch =>
    have hinbox := endBatch_inbox o s.client
    refine .quiet ?_
    simp only [Session.act]
    split <;> rename_i hend <;> rw [hend] at hinbox <;>
      exact ⟨hinbox, rfl, rfl, rfl, rfl, rfl, rfl, rfl, rfl, fun _ => Or.inl⟩
  | flush =>
    exact .quiet ⟨flush_inbox o s.client, rfl, rfl, rfl, rfl, rfl, rfl, rfl, rfl,
      fun _ => Or.inl⟩
  | getTelemetry => exact .taken (Or.inl rfl)
  | getEvent => exact .taken (Or.inr rfl)
  | read expired available blocking => exact .quiet (.refl s)
  | next => exact .quiet (.refl s)

theorem step_stepped (move : Move) : Stepped o s move (s.step o move) := by
  cases move with
  | send packet => exact .sent packet
  | host move =>
    simp only [Session.step, Session.host]
    split
    · rename_i hstack
      exact look_stepped _ _ _ _ hstack
    · rename_i hstack
      exact deliver_stepped hstack
    · split_ifs
      · exact act_stepped o s _
      · exact .quiet (.refl s)

/-! ### What the host has sent -/

/-- The frames a session has queued and written, and how far it has counted. -/
structure SameOutbox (s t : Session) : Prop where
  issued : t.client.issued = s.client.issued
  queued : t.client.queued = s.client.queued
  written : t.written = s.written
  queuedCommands : t.queuedCommands = s.queuedCommands
  writtenCommands : t.writtenCommands = s.writtenCommands

theorem SameOutbox.refl (s : Session) : SameOutbox s s := ⟨rfl, rfl, rfl, rfl, rfl⟩

variable {o s}

theorem raise_outbox (s : Session) (call : Call) (below : List Activity) (error : PyError) :
    SameOutbox s (s.raise call below error) := by
  cases call <;> exact ⟨rfl, rfl, rfl, rfl, rfl⟩

theorem ingest_outbox (s : Session) (call : Call) (below : List Activity) (data : List UInt8) :
    SameOutbox s (s.ingest call below data) := by
  unfold Session.ingest
  dsimp only
  split_ifs
  · exact .refl s
  · split
    · cases call <;> exact ⟨rfl, rfl, rfl, rfl, rfl⟩
    · exact ⟨rfl, rfl, rfl, rfl, rfl⟩

theorem look_outbox (o : Options) (s : Session) (call : Call) (below : List Activity)
    (expired : Bool) (available : ℕ) (blocking : ℕ × ℕ) :
    SameOutbox s (s.look o call below expired available blocking) := by
  cases call with
  | readResponse number =>
    simp only [Session.look]
    split_ifs
    · exact raise_outbox s _ below _
    · exact ingest_outbox s _ below _
  | pollAsyncPackets timed budget drained =>
    simp only [Session.look]
    split_ifs
    · exact ingest_outbox s _ below _
    · exact ⟨rfl, rfl, rfl, rfl, rfl⟩
    · exact ingest_outbox s _ below _

theorem hand_outbox (o : Options) (s : Session) (call : Call) (below : List Activity)
    (arrival : Arrival) (rest : List Arrival) :
    SameOutbox s (s.hand o call below arrival rest) := by
  obtain ⟨hissued, hqueued⟩ := handleAsyncPacket_outbox o s.client arrival.1
  exact ⟨hissued, hqueued, rfl, rfl, rfl⟩

theorem deliver_outbox (o : Options) (s : Session) (call : Call) (below : List Activity)
    (packets : List Arrival) : SameOutbox s (s.deliver o call below packets) := by
  cases packets with
  | nil =>
    rw [Session.deliver]
    cases call with
    | readResponse number => exact ⟨rfl, rfl, rfl, rfl, rfl⟩
    | pollAsyncPackets timed budget drained =>
      simp only [Session.exhaust]
      split_ifs <;> exact ⟨rfl, rfl, rfl, rfl, rfl⟩
  | cons arrival rest =>
    rw [Session.deliver]
    split_ifs
    · cases call <;> exact ⟨rfl, rfl, rfl, rfl, rfl⟩
    · exact hand_outbox o s call below arrival rest

theorem stepped_issued {move : Move} {t : Session} (hstep : Stepped o s move t) :
    s.client.issued ≤ t.client.issued := by
  cases hstep with
  | quiet q => exact q.inbox.issued
  | sent packet => exact le_rfl
  | taken hmove => rcases hmove with rfl | rfl <;> exact le_rfl
  | read => exact (ingest_outbox s _ _ _).issued.ge
  | @answered call => cases call <;> exact le_rfl
  | handed => exact (hand_outbox o s _ _ _ _).issued.ge

/-! ### The device's stream -/

/-- The frames whose last byte is among the first `n` bytes of the stream. -/
def complete : List Packet → ℕ → List Packet
  | [], _ => []
  | packet :: packets, n =>
    if (firmwareBytes packet).length ≤ n then
      packet :: complete packets (n - (firmwareBytes packet).length)
    else []

/-- The frames whose bytes have been read from the transport, with their places. -/
def Session.arrived (s : Session) : List Arrival := (complete s.sent s.consumed).zipIdx

/-- Reading keeps its place: what the decoder holds back is the beginning of the first frame
it has not returned yet. -/
structure KeepsPlace (sent : List Packet) (decoded consumed : ℕ) (buffer waiting : List UInt8) :
    Prop where
  sendable : ∀ p ∈ sent, Sendable p
  decoded_le : decoded ≤ sent.length
  stream : buffer ++ waiting = (sent.drop decoded).flatMap firmwareBytes
  short : ∀ p ∈ (sent.drop decoded).head?, buffer.length < (firmwareBytes p).length
  consumed_eq : consumed = ((sent.take decoded).flatMap firmwareBytes).length + buffer.length

def Session.OnStream (s : Session) : Prop :=
  KeepsPlace s.sent s.decoded s.consumed s.client.decoder.buffer s.waiting

theorem complete_append (done left : List Packet) (n : ℕ)
    (hshort : ∀ p ∈ left.head?, n < (firmwareBytes p).length) :
    complete (done ++ left) ((done.flatMap firmwareBytes).length + n) = done := by
  induction done with
  | nil =>
    cases left with
    | nil => rfl
    | cons p left =>
      have hp := hshort p rfl
      simp only [List.nil_append, List.flatMap_nil, List.length_nil, Nat.zero_add, complete]
      rw [if_neg (by omega)]
  | cons p done ih =>
    simp only [List.cons_append, complete, List.flatMap_cons, List.length_append]
    rw [if_pos (by omega), show (firmwareBytes p).length + (done.flatMap firmwareBytes).length + n -
      (firmwareBytes p).length = (done.flatMap firmwareBytes).length + n by omega, ih]

/-- What has been read is what has been decoded. -/
theorem complete_eq {sent : List Packet} {decoded consumed : ℕ} {buffer waiting : List UInt8}
    (h : KeepsPlace sent decoded consumed buffer waiting) :
    complete sent consumed = sent.take decoded := by
  have hcomplete := complete_append (sent.take decoded) (sent.drop decoded) _ h.short
  rwa [List.take_append_drop, ← h.consumed_eq] at hcomplete

theorem onStream_initial : Session.OnStream {} where
  sendable := by simp
  decoded_le := le_rfl
  stream := rfl
  short := by simp
  consumed_eq := rfl

theorem Quiet.onStream {t : Session} (q : Quiet s t) (h : s.OnStream) : t.OnStream := by
  rw [Session.OnStream, q.sent, q.decoded, q.consumed, q.inbox.decoder, q.waiting]
  exact h

theorem answer_handed (s : Session) (call : Call) (below : List Activity) (p : Packet) :
    (s.answer call below p).handed = s.handed ∧ (s.answer call below p).arrived = s.arrived ∧
      (s.answer call below p).outstanding = pendingOf below := by
  cases call <;> exact ⟨rfl, rfl, rfl⟩

theorem hand_handed (o : Options) (s : Session) (call : Call) (below : List Activity)
    (arrival : Arrival) (rest : List Arrival) :
    (s.hand o call below arrival rest).handed = s.handed ++ [arrival] ∧
      (s.hand o call below arrival rest).arrived = s.arrived ∧
      (s.hand o call below arrival rest).outstanding = pendingOf below ++ rest :=
  ⟨rfl, rfl, pendingOf_cons _ _⟩

theorem Quiet.arrived {t : Session} (q : Quiet s t) : t.arrived = s.arrived := by
  rw [Session.arrived, q.sent, q.consumed, Session.arrived]

theorem send_onStream (h : s.OnStream) (packet : {p : Packet // Sendable p}) :
    (s.send packet).OnStream where
  sendable := by
    intro p hp
    rcases List.mem_append.mp hp with hp | hp
    · exact h.sendable p hp
    · obtain rfl := List.mem_singleton.mp hp
      exact packet.2
  decoded_le := h.decoded_le.trans (by simp [Session.send])
  stream := by
    simp only [Session.send]
    rw [← List.append_assoc, h.stream, List.drop_append_of_le_length h.decoded_le]
    simp
  short := by
    simp only [Session.send]
    rw [List.drop_append_of_le_length h.decoded_le]
    cases hleft : s.sent.drop s.decoded with
    | cons q left =>
      have hshort := h.short
      rw [hleft] at hshort
      exact hshort
    | nil =>
      have hempty := h.stream
      rw [hleft, List.flatMap_nil, List.append_eq_nil_iff] at hempty
      rintro q hq
      obtain rfl : packet.1 = q := by simpa using hq
      rw [hempty.1]
      exact firmwareBytes_pos packet.1
  consumed_eq := by
    simp only [Session.send]
    rw [List.take_append_of_le_length h.decoded_le]
    exact h.consumed_eq

/-- A frame that has only been sent has not arrived. -/
theorem send_arrived (h : s.OnStream) (packet : {p : Packet // Sendable p}) :
    (s.send packet).arrived = s.arrived := by
  rw [Session.arrived, complete_eq (send_onStream h packet), Session.arrived, complete_eq h]
  simp only [Session.send]
  rw [List.take_append_of_le_length h.decoded_le]

/-- Feeding a piece of the stream returns the frames it completes. -/
theorem feed_onStream (h : s.OnStream) {data : List UInt8} (hdata : data <+: s.waiting) :
    ∃ packets buffer, s.client.decoder.feed data = (.ok packets, ⟨buffer⟩) ∧
      s.sent.take (s.decoded + packets.length) = s.sent.take s.decoded ++ packets ∧
      KeepsPlace s.sent (s.decoded + packets.length) (s.consumed + data.length) buffer
        (s.waiting.drop data.length) := by
  obtain ⟨later, hlater⟩ := hdata
  have hsendable : ∀ p ∈ s.sent.drop s.decoded, Sendable p :=
    fun p hp => h.sendable p (List.mem_of_mem_drop hp)
  have hcut : s.client.decoder.buffer ++ data ++ later =
      (s.sent.drop s.decoded).flatMap firmwareBytes := by
    rw [List.append_assoc, hlater]
    exact h.stream
  obtain ⟨packets, left, buffer, hsplit, hfeed, hrest, hshort⟩ := feed_cut hsendable hcut
  have hdrop : s.sent.drop (s.decoded + packets.length) = left := by
    rw [← List.drop_drop, hsplit, List.drop_left]
  have htake : s.sent.take (s.decoded + packets.length) = s.sent.take s.decoded ++ packets := by
    rw [List.take_add, hsplit, List.take_left]
  have hlength := congrArg List.length hsplit
  rw [List.length_drop, List.length_append] at hlength
  have hle := h.decoded_le
  have hcount := h.consumed_eq
  refine ⟨packets, buffer, hfeed, htake, h.sendable, by omega, ?_, ?_, ?_⟩
  · rw [hdrop, ← hrest, ← hlater, List.drop_left]
  · rw [hdrop]
    exact hshort
  · have hbytes := congrArg List.length hcut
    rw [hsplit, List.flatMap_append, ← hrest] at hbytes
    simp only [List.length_append] at hbytes
    rw [htake, List.flatMap_append, List.length_append]
    omega

/-- Whatever has arrived is known by its place. -/
theorem arrived_place (h : s.OnStream) : ∀ a ∈ s.arrived, s.sent[a.2]? = some a.1 := by
  rintro ⟨p, place⟩ ha
  rw [Session.arrived, complete_eq h] at ha
  have hplace := List.mem_zipIdx_iff_getElem?.mp ha
  rw [List.getElem?_take] at hplace
  split_ifs at hplace
  exact hplace

/-- What a non-empty read changes. -/
structure ReadIn (s t : Session) (call : Call) (below : List Activity) (new : List Arrival) :
    Prop where
  onStream : t.OnStream
  sent : t.sent = s.sent
  new_places : ∀ a ∈ new, s.decoded ≤ a.2 ∧ a.2 < t.decoded
  arrived : t.arrived = s.arrived ++ new
  stack : ∃ n, t.stack = ⟨call.drain n, .delivering new false⟩ :: below
  handed : t.handed = s.handed
  client : t.client = { s.client with decoder := t.client.decoder }
  telemetryTaken : t.telemetryTaken = s.telemetryTaken
  eventsTaken : t.eventsTaken = s.eventsTaken

theorem ingest_readIn (h : s.OnStream) (call : Call) (below : List Activity) {data : List UInt8}
    (hne : data ≠ []) (hdata : data <+: s.waiting) :
    ∃ packets : List Packet,
      ReadIn s (s.ingest call below data) call below (packets.zipIdx s.decoded) := by
  obtain ⟨packets, buffer, hfeed, htake, hplace⟩ := feed_onStream h hdata
  have hlength : (s.sent.take s.decoded).length = s.decoded :=
    List.length_take_of_le h.decoded_le
  refine ⟨packets, ?_⟩
  unfold Session.ingest
  rw [if_neg hne, hfeed]
  exact
    { onStream := hplace
      sent := rfl
      new_places := by
        rintro ⟨p, place⟩ ha
        obtain ⟨hge, hlt, -⟩ := List.mem_zipIdx ha
        exact ⟨hge, hlt⟩
      arrived := by
        change (complete s.sent (s.consumed + data.length)).zipIdx = s.arrived ++ _
        rw [Session.arrived, complete_eq h, complete_eq hplace, htake, List.zipIdx_append, hlength,
          Nat.zero_add]
      stack := ⟨data.length, rfl⟩
      handed := rfl
      client := rfl
      telemetryTaken := rfl
      eventsTaken := rfl }

theorem ReadIn.held {t : Session} {new : List Arrival} (h : ReadIn s t call below new) :
    ∀ a ∈ new, t.sent[a.2]? = some a.1 := by
  intro a ha
  apply arrived_place h.onStream
  rw [h.arrived]
  exact List.mem_append_right _ ha

/-- Every frame that the read has decoded is in the loop's hands. -/
theorem ReadIn.covers (hs : s.OnStream) {t : Session} {new : List Arrival}
    (h : ReadIn s t call below new) {place : ℕ} (hle : s.decoded ≤ place)
    (hlt : place < t.decoded) : ∃ a ∈ new, a.2 = place := by
  have hsent : place < t.sent.length := hlt.trans_le h.onStream.decoded_le
  have harrived : (t.sent[place], place) ∈ t.arrived := by
    rw [Session.arrived, complete_eq h.onStream, List.mem_zipIdx_iff_getElem?,
      List.getElem?_take, if_pos hlt]
    exact List.getElem?_eq_getElem hsent
  rw [h.arrived] at harrived
  rcases List.mem_append.mp harrived with hold | hnew
  · rw [Session.arrived, complete_eq hs, List.mem_zipIdx_iff_getElem?, List.getElem?_take,
      if_neg (Nat.not_lt.mpr hle)] at hold
    cases hold
  · exact ⟨_, hnew, rfl⟩

theorem stepped_onStream {move : Move} {t : Session} (hstep : Stepped o s move t)
    (h : s.OnStream) : t.OnStream := by
  cases hstep with
  | quiet q => exact q.onStream h
  | sent packet => exact send_onStream h packet
  | taken hmove => rcases hmove with rfl | rfl <;> exact h
  | @read _ call below data hstack hne hdata =>
    obtain ⟨packets, hread⟩ := ingest_readIn h call below hne hdata
    exact hread.onStream
  | @answered call below arrival rest inCallback hstack hreturns =>
    cases call <;> exact h
  | @handed call below arrival rest inCallback hstack hreturns =>
    simp only [Session.OnStream, Session.hand, handleAsyncPacket_decoder]
    exact h

end HostSession
