import TeensyIo.BatchTransparency
import TeensyIo.Handoffs
import TeensyIo.MachineRuns

/-! # Flushes that fail

`flush` over a transport whose `write` may raise at any call. A chunk leaves the queue under
the lock of the queue and is written after that. -/
namespace FailedFlushes

open HostClient hiding flush
open HostProtocol MachineRuns Handoffs BatchTransparency

/-- Whether `write` raises, by all the chunks it was given so far, the last of them included. -/
abbrev Transport := List (List UInt8) → Bool

/-- A client and the calls of `transport.write`, each with the packets of its chunk. -/
structure Line where
  client : Client := {}
  attempts : List (Attempt (List UInt8)) := []

def Line.ledger (l : Line) : Ledger (List UInt8) := ⟨l.client.queued, l.attempts⟩

/-- The packets that were part of a successful write. -/
def Line.sent (l : Line) : List (List UInt8) := l.ledger.delivered

/-- The chunks handed to the transport. -/
def Line.tried (l : Line) : List (List UInt8) := l.attempts.map fun a => a.batch.flatten

/-- How many packets the next chunk takes. -/
def chunkCount (size : ℤ) (queued : List (List UInt8)) : ℕ :=
  queued.length - (takeChunk size queued).2.length

/-- The loop of `flush`, and whether it is left by an exception. -/
def flush (raises : Transport) (o : Options) (l : Line) : Line × Bool :=
  match hqueued : l.client.queued with
  | [] => (l, false)
  | item :: rest =>
    let queued := item :: rest
    let taken := takeChunk o.flushChunkSize queued
    let raised := raises (l.tried ++ [taken.1])
    let client := { l.client with
      queued := taken.2, queuedBytes := l.client.queuedBytes - taken.1.length }
    let packets := queued.take (chunkCount o.flushChunkSize queued)
    let l' : Line := ⟨client, l.attempts ++ [⟨packets, raised⟩]⟩
    if raised then (l', true) else flush raises o l'
termination_by l.client.queued.length
decreasing_by
  rw [hqueued]
  exact takeChunk_shortens o.flushChunkSize item rest

/-! ### The packets of a chunk -/

/-- A chunk is the packets that it takes from the front of the queue. -/
theorem takeChunk_packets (size : ℤ) (queued : List (List UInt8)) :
    (takeChunk size queued).2 = queued.drop (chunkCount size queued) ∧
      (takeChunk size queued).1 = (queued.take (chunkCount size queued)).flatten := by
  have hsplit : ∃ packets, queued = packets ++ (takeChunk size queued).2 := by
    obtain ⟨packets, hqueued, -⟩ := fillChunk_frames size [] queued
    unfold takeChunk
    split
    · next item rest hfill =>
      rw [hfill] at hqueued
      exact ⟨packets ++ [item], by rw [List.append_assoc]; exact hqueued⟩
    · exact ⟨packets, hqueued⟩
  obtain ⟨packets, hqueued⟩ := hsplit
  have hcount : chunkCount size queued = packets.length := by
    have hlength := congrArg List.length hqueued
    rw [List.length_append] at hlength
    rw [chunkCount]
    omega
  have htake : queued.take packets.length = packets := by
    conv_lhs => rw [hqueued, List.take_left]
  have hdrop : queued.drop packets.length = (takeChunk size queued).2 := by
    conv_lhs => rw [hqueued, List.drop_left]
  rw [hcount, htake, hdrop]
  refine ⟨rfl, ?_⟩
  have hbytes := takeChunk_flatten size queued
  conv_rhs at hbytes => rw [hqueued, List.flatten_append]
  exact List.append_cancel_right hbytes

theorem chunkCount_pos (size : ℤ) {queued : List (List UInt8)} (hqueued : queued ≠ []) :
    0 < chunkCount size queued := by
  obtain ⟨item, rest, rfl⟩ := List.exists_cons_of_ne_nil hqueued
  have hshort := takeChunk_shortens size item rest
  rw [chunkCount]
  omega

/-! ### A flush as a drain -/

/-- One round of the loop, on a queue that is not empty. -/
def round (raised : Bool) (o : Options) (l : Line) : Line :=
  let size := chunkCount o.flushChunkSize l.client.queued
  let client := { l.client with
    queued := l.client.queued.drop size
    queuedBytes := l.client.queuedBytes - (l.client.queued.take size).flatten.length }
  ⟨client, l.attempts ++ [⟨l.client.queued.take size, raised⟩]⟩

def chunk (o : Options) (l : Line) : List UInt8 := (takeChunk o.flushChunkSize l.client.queued).1

variable (raises : Transport) (o : Options)

theorem flush_empty {l : Line} (hqueued : l.client.queued = []) :
    flush raises o l = (l, false) := by
  rw [flush]
  split
  · rfl
  · next item rest hsome => exact absurd (hqueued.symm.trans hsome) (List.cons_ne_nil _ _).symm

theorem flush_round {l : Line} (hqueued : l.client.queued ≠ []) :
    flush raises o l =
      if raises (l.tried ++ [chunk o l]) then (round true o l, true)
      else flush raises o (round false o l) := by
  rw [flush]
  split
  · next hnone => exact absurd hnone hqueued
  · next item rest hsome =>
    obtain ⟨hrest, hchunk⟩ := takeChunk_packets o.flushChunkSize (item :: rest)
    simp only [chunk, round, hsome]
    rw [hrest, ← hchunk]
    by_cases hraised : raises (l.tried ++ [(takeChunk o.flushChunkSize (item :: rest)).1]) = true
    · rw [if_pos hraised, if_pos hraised, hraised]
    · rw [if_neg hraised, if_neg hraised, (Bool.not_eq_true _).mp hraised]

/-- What the rounds of the loop keep, a flush keeps. -/
theorem flush_rule {P : Line → Line × Bool → Prop}
    (empty : ∀ l : Line, l.client.queued = [] → P l (l, false))
    (failed : ∀ l : Line, l.client.queued ≠ [] → P l (round true o l, true))
    (taken : ∀ (l : Line) r, l.client.queued ≠ [] → P (round false o l) r → P l r) (l : Line) :
    P l (flush raises o l) := by
  by_cases hqueued : l.client.queued = []
  · rw [flush_empty raises o hqueued]
    exact empty l hqueued
  · rw [flush_round raises o hqueued]
    by_cases hraised : raises (l.tried ++ [chunk o l]) = true
    · rw [if_pos hraised]
      exact failed l hqueued
    · rw [if_neg hraised]
      have hpos : 0 < chunkCount o.flushChunkSize l.client.queued := chunkCount_pos _ hqueued
      have hlength : 0 < l.client.queued.length := List.length_pos_of_ne_nil hqueued
      have hrest : (l.client.queued.drop (chunkCount o.flushChunkSize l.client.queued)).length <
          l.client.queued.length := by
        rw [List.length_drop]
        omega
      exact taken l _ hqueued (flush_rule empty failed taken (round false o l))
termination_by l.client.queued.length

/-- Every flush is a drain, whatever the transport does. -/
theorem flush_drains (l : Line) :
    Drains l.ledger (flush raises o l).1.ledger (flush raises o l).2 := by
  apply flush_rule (P := fun l r => Drains l.ledger r.1.ledger r.2)
  · intro l hqueued
    exact .empty hqueued
  · intro l hqueued
    apply Drains.failed
    intro hnone
    have hpos := chunkCount_pos o.flushChunkSize hqueued
    rcases List.take_eq_nil_iff.mp hnone with hzero | hnil
    · omega
    · exact hqueued hnil
  · intro l r _ hrest
    exact .taken hrest

/-- By how much `_queued_bytes` is more than the packets in the queue. -/
def surplus (c : Client) : ℤ := c.queuedBytes - c.queued.flatten.length

theorem round_surplus (raised : Bool) (l : Line) :
    surplus (round raised o l).client = surplus l.client := by
  have hsplit := congrArg (fun packets : List (List UInt8) => packets.flatten.length)
    (List.take_append_drop (chunkCount o.flushChunkSize l.client.queued) l.client.queued)
  simp only [List.flatten_append, List.length_append] at hsplit
  simp only [surplus, round]
  omega

theorem queuePacket_surplus {c d : Client} {encoded : List UInt8}
    (hput : queuePacket o c encoded = .ok d) : surplus d = surplus c := by
  obtain rfl := queuePacket_ok hput
  simp only [surplus, List.flatten_append, List.flatten_singleton, List.length_append]
  omega

/-- The sum of the lengths is kept right, also by a flush that raises. -/
theorem flush_surplus (l : Line) : surplus (flush raises o l).1.client = surplus l.client := by
  apply flush_rule (P := fun l r => surplus r.1.client = surplus l.client)
  · intro l _
    rfl
  · intro l _
    exact round_surplus o true l
  · intro l r _ hrest
    exact hrest.trans (round_surplus o false l)

/-- Over a transport that does not raise this is the flush of the client. -/
theorem flush_returns (l : Line) (hreturned : (flush raises o l).2 = false) :
    (flush raises o l).1.client = (HostClient.flush o l.client).1 ∧
      (flush raises o l).1.tried = l.tried ++ (HostClient.flush o l.client).2 := by
  revert hreturned
  apply flush_rule (P := fun l r => r.2 = false → r.1.client = (HostClient.flush o l.client).1 ∧
    r.1.tried = l.tried ++ (HostClient.flush o l.client).2)
  · intro l hqueued _
    rw [HostClient.flush, hqueued, flushWrites, List.append_nil]
    refine ⟨?_, rfl⟩
    show l.client = { l.client with queued := [], queuedBytes := l.client.queuedBytes - 0 }
    rw [← hqueued, sub_zero]
  · intro l _ hraised
    cases hraised
  · intro l r hqueued hrest hreturned
    obtain ⟨hclient, htried⟩ := hrest hreturned
    obtain ⟨item, rest, hsome⟩ := List.exists_cons_of_ne_nil hqueued
    obtain ⟨hleft, hchunk⟩ := takeChunk_packets o.flushChunkSize l.client.queued
    have hsurplus := round_surplus o false l
    constructor
    · rw [hclient]
      simp only [HostClient.flush, round, surplus] at hsurplus ⊢
      rw [hsurplus]
    · rw [htried]
      simp only [Line.tried, round, HostClient.flush, List.map_append, List.append_assoc]
      rw [hsome, flushWrites, ← hsome, hleft, hchunk]
      rfl

/-! ### What a flush loses -/

/-- The packets that were sent or queued before and were not part of a successful write. -/
def unsent (l l' : Line) : List (List UInt8) :=
  (l.sent ++ l.client.queued).drop l'.sent.length

/-- The last part is what a flush over any transport sends later, when no write raises. -/
structure Lossless (l l' : Line) : Prop where
  kept : l'.client.queued = unsent l l'
  bytes : l'.client.queuedBytes = (unsent l l').flatten.length
  resumes : ∀ raises o, (flush raises o l').2 = false →
    (flush raises o l').1.sent = l.sent ++ l.client.queued

theorem flush_sends {raises : Transport} {o : Options} {l : Line}
    (hreturned : (flush raises o l).2 = false) :
    (flush raises o l).1.client.queued = [] ∧
      (flush raises o l).1.sent = l.sent ++ l.client.queued := by
  have hdrains := flush_drains raises o l
  rw [hreturned] at hdrains
  exact hdrains.complete

theorem flush_lossless {raises : Transport} {o : Options} {l : Line}
    (hcounted : surplus l.client = 0) (hreturned : (flush raises o l).2 = false) :
    Lossless l (flush raises o l).1 := by
  obtain ⟨hnone, hsent⟩ := flush_sends hreturned
  have hunsent : unsent l (flush raises o l).1 = [] := by
    rw [unsent, hsent, List.drop_length]
  have hsurplus := (flush_surplus raises o l).trans hcounted
  refine ⟨hnone.trans hunsent.symm, ?_, ?_⟩
  · rw [surplus, hnone] at hsurplus
    rw [hunsent]
    exact sub_eq_zero.mp hsurplus
  · intro raises' o' hlater
    rw [(flush_sends hlater).2, hnone, List.append_nil, hsent]

/-- The chunk whose write raises has left the queue for good; nothing else is lost. -/
theorem failed_flush_loses (raises : Transport) (o : Options) (l : Line)
    (hraised : (flush raises o l).2 = true) :
    (∃ sent lost, lost ≠ [] ∧
      l.client.queued = sent ++ lost ++ (flush raises o l).1.client.queued ∧
      (flush raises o l).1.sent = l.sent ++ sent ∧
      (flush raises o l).1.attempts.getLast? = some ⟨lost, true⟩) ∧
    ¬ Lossless l (flush raises o l).1 := by
  have hdrains := flush_drains raises o l
  rw [hraised] at hdrains
  obtain ⟨sent, lost, hlost, hqueued, hsent, hlast⟩ := hdrains.loses
  refine ⟨⟨sent, lost, hlost, hqueued, hsent, hlast⟩, ?_⟩
  intro hlossless
  have hkept := congrArg List.length hlossless.kept
  have hlength := congrArg List.length hqueued
  have hpos : 0 < lost.length := List.length_pos_of_ne_nil hlost
  have hcount : (flush raises o l).1.sent.length = l.sent.length + sent.length :=
    (congrArg List.length hsent).trans List.length_append
  simp only [unsent, List.length_drop, List.length_append, Line.ledger] at hkept hlength
  omega

/-! ### Runs -/

inductive Action where
  | queue (encoded : List UInt8)
  | flush

/-- The packet an action adds to the queue, which may be full. -/
def accepted (l : Line) : Action → List (List UInt8)
  | .queue encoded =>
    match queuePacket o l.client encoded with
    | .ok _ => [encoded]
    | .error _ => []
  | .flush => []

def step (l : Line) : Action → Line
  | .queue encoded =>
    match queuePacket o l.client encoded with
    | .ok client => { l with client }
    | .error _ => l
  | .flush => (flush raises o l).1

def acceptedAll (l : Line) : List Action → List (List UInt8)
  | [] => []
  | a :: as => accepted o l a ++ acceptedAll (step raises o l a) as

/-- The packets that were accepted have left the queue or are in it, in order, and the bytes
of the queue are counted. -/
structure Accounted (l : Line) (packets : List (List UInt8)) : Prop where
  order : l.ledger.gone ++ l.client.queued = packets
  bytes : surplus l.client = 0

theorem step_accounted {l : Line} {packets : List (List UInt8)} (h : Accounted l packets)
    (a : Action) : Accounted (step raises o l a) (packets ++ accepted o l a) := by
  cases a with
  | queue encoded =>
    rw [step, accepted]
    cases hput : queuePacket o l.client encoded with
    | error error =>
      dsimp only
      rw [List.append_nil]
      exact h
    | ok client =>
      constructor
      · obtain rfl := queuePacket_ok hput
        rw [← h.order, List.append_assoc]
        rfl
      · exact (queuePacket_surplus o hput).trans h.bytes
  | flush =>
    rw [accepted, List.append_nil]
    constructor
    · exact (flush_drains raises o l).conserves.trans h.order
    · exact (flush_surplus raises o l).trans h.bytes

/-- A run of flushes that raise or return neither reorders nor repeats what was queued. -/
theorem run_accounted {l : Line} {packets : List (List UInt8)} (h : Accounted l packets)
    (actions : List Action) :
    Accounted (after (step raises o) l actions) (packets ++ acceptedAll raises o l actions) := by
  induction actions generalizing l packets with
  | nil =>
    rw [acceptedAll, List.append_nil]
    exact h
  | cons a actions ih =>
    rw [acceptedAll, ← List.append_assoc]
    exact ih (step_accounted raises o h a)

/-- What the device is sent is a part of what was queued, in order. -/
theorem run_sends_in_order (actions : List Action) :
    (after (step raises o) {} actions).sent.Sublist (acceptedAll raises o {} actions) := by
  have haccounted := @run_accounted raises o {} [] ⟨rfl, rfl⟩ actions
  have horder := haccounted.order
  rw [List.nil_append] at horder
  rw [← horder]
  exact (delivered_sublist _).trans (List.sublist_append_left _ _)

/-! ### A chunk that is lost in the middle -/

def heartbeatFrame (number : ℕ) : List UInt8 :=
  match encodePacket (commandPacket number .heartbeat []) with
  | .ok encoded => encoded
  | .error _ => []

/-- Three heartbeats that were queued without a flush. -/
def heartbeats : Line :=
  { client := { issued := 3, queued := [1, 2, 3].map heartbeatFrame, queuedBytes := 30 } }

/-- A chunk has room for one of them. -/
def shortChunks : Options := { autoFlush := false, flushChunkSize := 16 }

def secondRaises : Transport := fun chunks => chunks.length == 2

theorem second_heartbeat_lost :
    (flush secondRaises shortChunks heartbeats).1.sent = [heartbeatFrame 1] ∧
      (flush secondRaises shortChunks heartbeats).1.client.queued = [heartbeatFrame 3] ∧
      ¬ Lossless heartbeats (flush secondRaises shortChunks heartbeats).1 :=
  ⟨by decide +kernel, by decide +kernel,
    (failed_flush_loses secondRaises shortChunks heartbeats (by decide +kernel)).2⟩

theorem raising_flush_loses :
    ¬ ∀ (raises : Transport) (o : Options) (l : Line), surplus l.client = 0 →
      (flush raises o l).2 = true → Lossless l (flush raises o l).1 := by
  intro hall
  have hlossless := hall secondRaises shortChunks heartbeats (by decide +kernel) (by decide +kernel)
  have hkept : (flush secondRaises shortChunks heartbeats).1.client.queued ≠
      unsent heartbeats (flush secondRaises shortChunks heartbeats).1 := by decide +kernel
  exact hkept hlossless.kept

end FailedFlushes
