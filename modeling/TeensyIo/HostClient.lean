import TeensyIo.HostProtocol
import Mathlib.Data.Rat.Defs

/-! # The host client

The parts of `client.py` that touch the connection: what `_command` writes, queues or waits
for, how asynchronous frames reach the two queues, and how a response is turned into a
result. -/
namespace HostClient

open WireCommands HostProtocol LittleEndian

/-- The arguments of the constructor. Sizes are Python integers and a queue size that is not
positive means an unbounded queue. -/
structure Options where
  autoFlush : Bool := true
  flushRateHz : Option ℚ := none
  queueMaxBytes : Option ℤ := none
  flushChunkSize : ℤ := 65536
  readChunkSize : ℤ := 4096
  readDrainMaxBytes : ℤ := 262144
  telemetryMaxFrames : ℤ := 4096
  eventMaxFrames : ℤ := 4096

structure TelemetryFrame where
  kind : ResourceKind
  resourceId : UInt8
  value : ℤ
  deriving DecidableEq, Repr

structure EdgeEvent where
  kind : ResourceKind
  resourceId : UInt8
  value : ℤ
  timestampUs : ℕ
  deriving DecidableEq, Repr

/-- `issued` counts the numbers taken from `_seq`. -/
structure Client where
  issued : ℕ := 0
  decoder : PacketDecoder := {}
  batchDepth : ℤ := 0
  queued : List (List UInt8) := []
  queuedBytes : ℤ := 0
  telemetryQueue : List TelemetryFrame := []
  eventQueue : List EdgeEvent := []
  telemetryDropped : ℕ := 0
  eventsDropped : ℕ := 0
  deriving DecidableEq, Repr

/-! ### Asynchronous frames -/

def unpackI32 (payload : List UInt8) : ℤ := signed32 (value (payload.take 4))

def unpackU32 (payload : List UInt8) : ℕ := value (payload.take 4)

def telemetryFrame (packet : Packet) : Option TelemetryFrame :=
  if packet.type = .telemetry ∧ 6 ≤ packet.payload.length then
    (ResourceKind.ofByte (packet.payload.getD 0 0)).map fun kind =>
      ⟨kind, packet.payload.getD 1 0, unpackI32 (packet.payload.drop 2)⟩
  else none

def edgeEvent (packet : Packet) : Option EdgeEvent :=
  if packet.type = .event ∧ 10 ≤ packet.payload.length then
    (ResourceKind.ofByte (packet.payload.getD 0 0)).map fun kind =>
      ⟨kind, packet.payload.getD 1 0, unpackI32 (packet.payload.drop 2),
        unpackU32 (packet.payload.drop 6)⟩
  else none

/-- The frames `_handle_async_packet` does not ignore. -/
def wanted (packet : Packet) : Bool :=
  (telemetryFrame packet).isSome || (edgeEvent packet).isSome

/-- `put_nowait` raises `Full`. -/
def IsFull {ε : Type} (maxsize : ℤ) (target : List ε) : Prop :=
  0 < maxsize ∧ maxsize ≤ target.length

instance {ε : Type} (maxsize : ℤ) (target : List ε) : Decidable (IsFull maxsize target) :=
  inferInstanceAs (Decidable (_ ∧ _))

/-- The queue and its drop counter afterwards. -/
def putBounded {ε : Type} (maxsize : ℤ) (target : List ε) (dropped : ℕ) (item : ε) :
    List ε × ℕ :=
  if IsFull maxsize target then (target.tail ++ [item], dropped + 1)
  else (target ++ [item], dropped)

def handleAsyncPacket (o : Options) (c : Client) (packet : Packet) : Client :=
  match telemetryFrame packet with
  | some frame =>
    let put := putBounded o.telemetryMaxFrames c.telemetryQueue c.telemetryDropped frame
    { c with telemetryQueue := put.1, telemetryDropped := put.2 }
  | none =>
    match edgeEvent packet with
    | some event =>
      let put := putBounded o.eventMaxFrames c.eventQueue c.eventsDropped event
      { c with eventQueue := put.1, eventsDropped := put.2 }
    | none => c

@[simp] theorem handleAsyncPacket_decoder (o : Options) (c : Client) (packet : Packet) :
    (handleAsyncPacket o c packet).decoder = c.decoder := by
  unfold handleAsyncPacket
  split
  · rfl
  · split <;> rfl

theorem handleAsyncPacket_outbox (o : Options) (c : Client) (packet : Packet) :
    (handleAsyncPacket o c packet).issued = c.issued ∧
      (handleAsyncPacket o c packet).queued = c.queued := by
  unfold handleAsyncPacket
  split
  · exact ⟨rfl, rfl⟩
  · split <;> exact ⟨rfl, rfl⟩

/-! ### The command queue -/

def queuePacket (o : Options) (c : Client) (encoded : List UInt8) : Except PyError Client :=
  let nextSize := c.queuedBytes + encoded.length
  if o.queueMaxBytes.any (· < nextSize) then .error .queueFullError
  else .ok { c with queued := c.queued ++ [encoded], queuedBytes := nextSize }

/-- The inner loop of `flush`: packets are added as long as the chunk stays within its size. -/
def fillChunk (size : ℤ) (chunk : List UInt8) :
    List (List UInt8) → List UInt8 × List (List UInt8)
  | [] => (chunk, [])
  | item :: queued =>
    if (chunk.length + item.length : ℤ) ≤ size then fillChunk size (chunk ++ item) queued
    else (chunk, item :: queued)

/-- One chunk and the queue it leaves; a packet longer than a chunk goes out by itself. -/
def takeChunk (size : ℤ) (queued : List (List UInt8)) : List UInt8 × List (List UInt8) :=
  match fillChunk size [] queued with
  | ([], item :: queued) => (item, queued)
  | filled => filled

/-- What is taken out of the queue is what the chunk gains. -/
theorem fillChunk_flatten (size : ℤ) (chunk : List UInt8) (queued : List (List UInt8)) :
    (fillChunk size chunk queued).1 ++ (fillChunk size chunk queued).2.flatten =
      chunk ++ queued.flatten := by
  induction queued generalizing chunk with
  | nil => rfl
  | cons item queued ih =>
    unfold fillChunk
    split_ifs
    · rw [ih, List.flatten_cons, List.append_assoc]
    · rfl

theorem takeChunk_flatten (size : ℤ) (queued : List (List UInt8)) :
    (takeChunk size queued).1 ++ (takeChunk size queued).2.flatten = queued.flatten := by
  have h := fillChunk_flatten size [] queued
  unfold takeChunk
  split
  · rename_i item rest hfill
    rw [hfill] at h
    simpa using h
  · exact h

theorem fillChunk_le (size : ℤ) (chunk : List UInt8) (queued : List (List UInt8)) :
    (fillChunk size chunk queued).2.length ≤ queued.length := by
  induction queued generalizing chunk with
  | nil => exact le_rfl
  | cons item queued ih =>
    unfold fillChunk
    split_ifs
    · exact (ih _).trans (Nat.le_succ _)
    · exact le_rfl

/-- Every pass of `flush` takes at least one packet. -/
theorem takeChunk_shortens (size : ℤ) (item : List UInt8) (queued : List (List UInt8)) :
    (takeChunk size (item :: queued)).2.length < (item :: queued).length := by
  have hle := fillChunk_le size [] (item :: queued)
  unfold takeChunk
  split
  · rename_i next rest hfill
    rw [hfill] at hle
    exact hle
  · rename_i hnot
    by_cases hfits : ((([] : List UInt8).length + item.length : ℕ) : ℤ) ≤ size
    · have hstep : fillChunk size [] (item :: queued) = fillChunk size item queued := by
        rw [fillChunk, if_pos (by exact_mod_cast hfits), List.nil_append]
      rw [hstep]
      exact Nat.lt_succ_of_le (fillChunk_le size item queued)
    · have hstop : fillChunk size [] (item :: queued) = ([], item :: queued) := by
        rw [fillChunk, if_neg (by exact_mod_cast hfits)]
      exact absurd hstop (hnot item queued)

/-- The arguments of the calls of `transport.write`. -/
def flushWrites (size : ℤ) (queued : List (List UInt8)) : List (List UInt8) :=
  match queued with
  | [] => []
  | item :: rest =>
    let taken := takeChunk size (item :: rest)
    taken.1 :: flushWrites size taken.2
termination_by queued.length
decreasing_by exact takeChunk_shortens size item rest

/-- Flushing sends what was queued, in order and without a gap. -/
theorem flushWrites_flatten (size : ℤ) (queued : List (List UInt8)) :
    (flushWrites size queued).flatten = queued.flatten := by
  induction queued using flushWrites.induct size with
  | case1 => simp [flushWrites]
  | case2 item rest taken ih =>
    rw [flushWrites, List.flatten_cons, ih]
    exact takeChunk_flatten size (item :: rest)

def flush (o : Options) (c : Client) : Client × List (List UInt8) :=
  ({ c with queued := [], queuedBytes := c.queuedBytes - c.queued.flatten.length },
    flushWrites o.flushChunkSize c.queued)

def beginBatch (c : Client) : Client := { c with batchDepth := c.batchDepth + 1 }

/-- Leaving `batch()`, with what is written if that flushes. -/
def endBatch (o : Options) (c : Client) : Client × Option (List (List UInt8)) :=
  let c := { c with batchDepth := c.batchDepth - 1 }
  if c.batchDepth = 0 then ((flush o c).1, some (flush o c).2) else (c, none)

/-! ### Commands -/

/-- The number of a command as it goes over the wire. -/
def sequence (number : ℕ) : ℕ := number &&& 0xFFFF

theorem sequence_eq (number : ℕ) : sequence number = number % 65536 :=
  Nat.and_two_pow_sub_one_eq_mod number 16

theorem sequence_lt (number : ℕ) : sequence number < 65536 := by
  rw [sequence_eq]
  omega

def commandPacket (number : ℕ) (command : CommandId) (payload : List UInt8) : Packet :=
  ⟨.command, sequence number, command.toByte :: payload⟩

/-- How `_command` leaves the caller: with an exception, with `b""` after queuing (and
perhaps flushing) or writing its frame, or waiting in `_read_response`. -/
inductive Issue where
  | raised (error : PyError)
  | queued (flushed : Option (List (List UInt8)))
  | sent (encoded : List UInt8)
  | awaiting (encoded : List UInt8)
  deriving DecidableEq, Repr

/-- `if self.flush_rate_hz` and `self.flush_rate_hz is not None` differ at zero. -/
def Options.flushes (o : Options) : Bool := o.flushRateHz.any (· ≠ 0)

/-- `_command` up to `_read_response`. -/
def issue (o : Options) (c : Client) (command : CommandId) (payload : List UInt8)
    (expectResponse : Bool) : Client × Issue :=
  let number := c.issued + 1
  let c := { c with issued := number }
  match encodePacket (commandPacket number command payload) with
  | .error error => (c, .raised error)
  | .ok encoded =>
    if 0 < c.batchDepth ∨ (o.flushRateHz.isSome ∧ ¬ expectResponse) then
      match queuePacket o c encoded with
      | .error error => (c, .raised error)
      | .ok c =>
        if o.autoFlush ∧ ¬ o.flushes ∧ c.batchDepth = 0 then
          ((flush o c).1, .queued (some (flush o c).2))
        else (c, .queued none)
    else (c, if expectResponse then .awaiting encoded else .sent encoded)

/-- The receiving half of two clients is the same, and no number was given back. -/
structure SameInbox (c d : Client) : Prop where
  issued : c.issued ≤ d.issued
  decoder : d.decoder = c.decoder
  telemetryQueue : d.telemetryQueue = c.telemetryQueue
  eventQueue : d.eventQueue = c.eventQueue
  telemetryDropped : d.telemetryDropped = c.telemetryDropped
  eventsDropped : d.eventsDropped = c.eventsDropped

theorem SameInbox.refl (c : Client) : SameInbox c c := ⟨le_rfl, rfl, rfl, rfl, rfl, rfl⟩

/-- The outcomes of `_command` before it waits for anything. -/
inductive Issued (c : Client) (packet : Packet) : Client → Issue → Prop where
  | raised {d} (error : PyError) : SameInbox c d → d.issued = c.issued + 1 →
      d.queued = c.queued → Issued c packet d (.raised error)
  | queued {d} (encoded : List UInt8) : encodePacket packet = .ok encoded → SameInbox c d →
      d.issued = c.issued + 1 → d.queued = c.queued ++ [encoded] →
      Issued c packet d (.queued none)
  | flushed {d} (encoded : List UInt8) (writes : List (List UInt8)) :
      encodePacket packet = .ok encoded → SameInbox c d → d.issued = c.issued + 1 →
      d.queued = [] → writes.flatten = c.queued.flatten ++ encoded →
      Issued c packet d (.queued (some writes))
  | sent {d} (encoded : List UInt8) : encodePacket packet = .ok encoded → SameInbox c d →
      d.issued = c.issued + 1 → d.queued = c.queued → Issued c packet d (.sent encoded)
  | awaiting {d} (encoded : List UInt8) : encodePacket packet = .ok encoded → SameInbox c d →
      d.issued = c.issued + 1 → d.queued = c.queued → Issued c packet d (.awaiting encoded)

theorem queuePacket_ok {o : Options} {c d : Client} {encoded : List UInt8}
    (h : queuePacket o c encoded = .ok d) :
    d = { c with
      queued := c.queued ++ [encoded], queuedBytes := c.queuedBytes + encoded.length } := by
  unfold queuePacket at h
  dsimp only at h
  split_ifs at h
  exact (Except.ok.inj h).symm

theorem issue_spec (o : Options) (c : Client) (command : CommandId) (payload : List UInt8)
    (expectResponse : Bool) :
    Issued c (commandPacket (c.issued + 1) command payload)
      (issue o c command payload expectResponse).1
      (issue o c command payload expectResponse).2 := by
  have hinbox : ∀ queued bytes,
      SameInbox c { c with issued := c.issued + 1, queued := queued, queuedBytes := bytes } :=
    fun _ _ => ⟨Nat.le_succ _, rfl, rfl, rfl, rfl, rfl⟩
  unfold issue
  dsimp only
  split
  · exact .raised _ (hinbox _ _) rfl rfl
  · rename_i encoded hencoded
    split_ifs
    · split
      · exact .raised _ (hinbox _ _) rfl rfl
      · rename_i d hqueue
        obtain rfl := queuePacket_ok hqueue
        split_ifs
        · refine .flushed encoded _ hencoded (hinbox _ _) rfl rfl ?_
          simp [flush, flushWrites_flatten]
        · exact .queued encoded hencoded (hinbox _ _) rfl rfl
    · exact .awaiting encoded hencoded (hinbox _ _) rfl rfl
    · exact .sent encoded hencoded (hinbox _ _) rfl rfl

theorem Issued.inbox {c d : Client} {packet : Packet} {out : Issue} (h : Issued c packet d out) :
    SameInbox c d := by
  cases h <;> assumption

theorem Issued.issued_eq {c d : Client} {packet : Packet} {out : Issue}
    (h : Issued c packet d out) : d.issued = c.issued + 1 := by
  cases h <;> assumption

theorem flush_inbox (o : Options) (c : Client) : SameInbox c (flush o c).1 :=
  ⟨le_rfl, rfl, rfl, rfl, rfl, rfl⟩

theorem endBatch_inbox (o : Options) (c : Client) : SameInbox c (endBatch o c).1 := by
  unfold endBatch
  dsimp only
  split_ifs
  · exact ⟨le_rfl, rfl, rfl, rfl, rfl, rfl⟩
  · exact ⟨le_rfl, rfl, rfl, rfl, rfl, rfl⟩

def raiseForError : ErrorCode → PyError
  | .invalidPin => .invalidPinError
  | .invalidMode => .invalidModeError
  | .emergencyStopActive => .emergencyStopActiveError
  | _ => .commandRejectedError

/-- `_command` from the packet `_read_response` returned to its own result. -/
def commandResult (response : Packet) : Except PyError (List UInt8) :=
  match response.type with
  | .ack => .ok []
  | .data => .ok response.payload
  | .nack =>
    match response.payload with
    | [] => .error (raiseForError .invalidPayload)
    | byte :: _ =>
      match ErrorCode.ofByte byte with
      | none => .error .valueError
      | some code => .error (raiseForError code)
  | _ => .error .protocolError

/-! ### Reading -/

/-- What `read(size)` and `read_available(size)` return when `arrived` of the waiting bytes
have come in. -/
def transportRead (waiting : List UInt8) (size : ℤ) (arrived : ℕ) : List UInt8 :=
  waiting.take (min size.toNat arrived)

def readSome (waiting : List UInt8) (limit : ℤ) (arrived : ℕ × ℕ) : List UInt8 :=
  let first := transportRead waiting 1 arrived.1
  if first = [] ∨ limit ≤ first.length then first
  else first ++ transportRead (waiting.drop first.length) (limit - first.length) arrived.2

theorem transportRead_taken (waiting : List UInt8) (size : ℤ) (arrived : ℕ) :
    transportRead waiting size arrived <+: waiting := List.take_prefix _ _

theorem readSome_taken (waiting : List UInt8) (limit : ℤ) (arrived : ℕ × ℕ) :
    readSome waiting limit arrived <+: waiting := by
  have hfirst := transportRead_taken waiting 1 arrived.1
  unfold readSome
  dsimp only
  split_ifs
  · exact hfirst
  · obtain ⟨later, hlater⟩ := hfirst
    have hdrop : waiting.drop (transportRead waiting 1 arrived.1).length = later := by
      rw [← hlater, List.drop_left' (by rw [hlater])]
    obtain ⟨rest, hrest⟩ := transportRead_taken later
      (limit - (transportRead waiting 1 arrived.1).length) arrived.2
    exact ⟨rest, by rw [hdrop, List.append_assoc, hrest, hlater]⟩

end HostClient
