import TeensyIo.ClientThreads
import TeensyIo.FailedFlushes
import TeensyIo.WeighedQueues

/-! # The command queue under its lock

`_queue_packet`, `flush`, `begin_batch` and the end of a `batch` as sequences of sections under
`_lock`, on any number of threads and in any order. `flush` holds the reentrant
`_transport_lock` from one section to the next and calls `transport.write`, which may raise,
between two. A thread is the stack of the places at which its calls stand. -/
namespace QueueSections

open HostProtocol MachineRuns WeighedQueues
open HostClient hiding flush

/-! ### The section of `flush` -/

/-- `item = self._queued.popleft()`, `chunk.extend(item)` and `self._queued_bytes -= len(item)`,
where `rest` is the queue behind the item. -/
def popInto (chunk : List UInt8) (c : Client) (item : List UInt8) (rest : List (List UInt8)) :
    List UInt8 × Client :=
  (chunk ++ item, { c with queued := rest, queuedBytes := c.queuedBytes - item.length })

/-- The inner loop. -/
def fill (size : ℤ) (chunk : List UInt8) (c : Client) : List UInt8 × Client :=
  match _hqueued : c.queued with
  | [] => (chunk, c)
  | item :: rest =>
    if (chunk.length + item.length : ℤ) ≤ size then
      fill size (popInto chunk c item rest).1 (popInto chunk c item rest).2
    else (chunk, c)
termination_by c.queued.length
decreasing_by
  rw [_hqueued]
  exact Nat.lt_succ_self rest.length

/-- One pass up to `transport.write`, or none where `flush` returns. -/
def takeSection (size : ℤ) (c : Client) : Option (List UInt8 × Client) :=
  if c.queued = [] then none
  else
    let filled := fill size [] c
    match filled.1, filled.2.queued with
    | [], item :: rest => some (popInto [] filled.2 item rest)
    | _, _ => some filled

/-! ### Threads -/

inductive Call where
  | queuePacket (encoded : List UInt8)
  | beginBatch
  | endBatch
  | flush
  deriving DecidableEq

/-- The section a call comes to next. `_transport_lock` is held from `flushing` on, and in
`holding`: there `_command` waits for a response, and a callback may call the client again. -/
inductive Point where
  | entering (call : Call)
  | flushing (call : Call)
  | writing (call : Call) (chunk : List UInt8)
  | holding
  deriving DecidableEq

/-- The end of a call. -/
structure Ended where
  thread : ℕ
  call : Call
  result : Except PyError Unit
  deriving DecidableEq

/-- `lock` holds one entry for each time the owner of `_transport_lock` has entered it. -/
structure Bench where
  client : Client := {}
  lock : List ℕ := []
  threads : ℕ → List Point := fun _ => []
  /-- The arguments of `transport.write`. -/
  written : List (List UInt8) := []
  ended : List Ended := []

/-- `proceed` says how `transport.write` ends, where that is what the thread comes to. -/
inductive Move where
  | call (t : ℕ) (call : Call)
  | hold (t : ℕ)
  | release (t : ℕ)
  | proceed (t : ℕ) (write : Except PyError Unit)

/-- The thread is in the program's own code or in a callback. -/
def Free : List Point → Prop
  | [] => True
  | .holding :: _ => True
  | _ => False

instance (stack : List Point) : Decidable (Free stack) := by
  unfold Free
  split <;> infer_instance

namespace Bench

def put (s : Bench) (t : ℕ) (stack : List Point) : Bench :=
  { s with threads := Function.update s.threads t stack }

/-- The lock is free or the thread's own. -/
def MayEnter (s : Bench) (t : ℕ) : Prop := ∀ u ∈ s.lock, u = t

instance (s : Bench) (t : ℕ) : Decidable (s.MayEnter t) := inferInstanceAs (Decidable (∀ _ ∈ _, _))

def enter (s : Bench) (t : ℕ) : Bench := { s with lock := t :: s.lock }

def leave (s : Bench) : Bench := { s with lock := s.lock.tail }

def finish (s : Bench) (t : ℕ) (call : Call) (result : Except PyError Unit) : Bench :=
  { s with ended := s.ended ++ [⟨t, call, result⟩] }

/-- A call as far as its first section, which is its last but for a `flush`. -/
def start (o : Options) (s : Bench) (t : ℕ) : Call → Bench
  | .queuePacket encoded =>
    match queuePacket o s.client encoded with
    | .error error => s.finish t (.queuePacket encoded) (.error error)
    | .ok client => { s with client }.finish t (.queuePacket encoded) (.ok ())
  | .beginBatch => { s with client := beginBatch s.client }.finish t .beginBatch (.ok ())
  | .endBatch =>
    let client : Client := { s.client with batchDepth := s.client.batchDepth - 1 }
    if client.batchDepth = 0 then
      { s with client }.put t (.entering .endBatch :: s.threads t)
    else { s with client }.finish t .endBatch (.ok ())
  | .flush => s.put t (.entering .flush :: s.threads t)

/-- The next section of the call at the top of the stack; none while the lock is another's. -/
def proceed (o : Options) (s : Bench) (t : ℕ) (write : Except PyError Unit) :
    List Point → Bench
  | .entering call :: below =>
    if s.MayEnter t then (s.enter t).put t (.flushing call :: below) else s
  | .flushing call :: below =>
    match takeSection o.flushChunkSize s.client with
    | none => (s.leave.put t below).finish t call (.ok ())
    | some (chunk, client) => { s with client }.put t (.writing call chunk :: below)
  | .writing call chunk :: below =>
    let s := { s with written := s.written ++ [chunk] }
    match write with
    | .ok _ => s.put t (.flushing call :: below)
    | .error error => (s.leave.put t below).finish t call (.error error)
  | _ => s

/-- A move that is not possible changes nothing. -/
def step (o : Options) (s : Bench) : Move → Bench
  | .call t call => if Free (s.threads t) then s.start o t call else s
  | .hold t =>
    if Free (s.threads t) ∧ s.MayEnter t then (s.enter t).put t (.holding :: s.threads t) else s
  | .release t =>
    match s.threads t with
    | .holding :: below => s.leave.put t below
    | _ => s
  | .proceed t write => s.proceed o t write (s.threads t)

end Bench

/-! ### What a section does to the queue -/

def held (c : Client) : Kept (List UInt8) := ⟨c.queued, c.queuedBytes⟩

/-- The test of `_queue_packet`. -/
theorem over_iff (limit : Option ℤ) (n : ℤ) : Over limit n ↔ limit.any (· < n) = true := by
  simp [Over, Option.any_eq_true]

theorem queuePacket_eq (o : Options) (c : Client) (encoded : List UInt8) :
    queuePacket o c encoded =
      match (held c).offer List.length o.queueMaxBytes encoded with
      | none => .error .queueFullError
      | some k => .ok { c with queued := k.items, queuedBytes := k.count } := by
  by_cases hover : Over o.queueMaxBytes (c.queuedBytes + encoded.length)
  · have hnone : (held c).offer List.length o.queueMaxBytes encoded = none := if_pos hover
    rw [hnone]
    exact if_pos ((over_iff _ _).mp hover)
  · have hsome : (held c).offer List.length o.queueMaxBytes encoded =
        some ⟨c.queued ++ [encoded], c.queuedBytes + encoded.length⟩ := if_neg hover
    rw [hsome]
    exact if_neg (mt (over_iff _ _).mpr hover)

theorem fill_pops (size : ℤ) (chunk : List UInt8) (c : Client) :
    ∃ taken, Kept.Pops List.length (held c) taken (held (fill size chunk c).2) ∧
      (fill size chunk c).1 = chunk ++ taken.flatten := by
  fun_induction fill size chunk c with
  | case1 chunk c hqueued =>
    refine ⟨[], .none _, ?_⟩
    rw [List.flatten_nil, List.append_nil]
  | case2 chunk c item rest hqueued hfits ih =>
    obtain ⟨taken, hpops, hchunk⟩ := ih
    refine ⟨item :: taken, ?_, ?_⟩
    · rw [held, hqueued]
      exact .more hpops
    · rw [hchunk, popInto, List.flatten_cons, List.append_assoc]
  | case3 chunk c item rest hqueued hfits =>
    refine ⟨[], .none _, ?_⟩
    rw [List.flatten_nil, List.append_nil]

theorem takeSection_pops {size : ℤ} {c c' : Client} {chunk : List UInt8}
    (h : takeSection size c = some (chunk, c')) :
    ∃ taken, Kept.Pops List.length (held c) taken (held c') ∧ chunk = taken.flatten := by
  obtain ⟨taken, hpops, hchunk⟩ := fill_pops size [] c
  rw [List.nil_append] at hchunk
  unfold takeSection at h
  split_ifs at h
  dsimp only at h
  split at h
  · next item rest hnone hrest =>
    -- The oversized packet: the loop has taken nothing that counts.
    obtain ⟨rfl, rfl⟩ := Prod.mk.inj (Option.some.inj h)
    refine ⟨taken ++ [item], hpops.trans ?_, ?_⟩
    · rw [held, hrest]
      exact .more (.none _)
    · rw [List.flatten_append, ← hchunk, hnone, List.flatten_singleton]
  · obtain ⟨rfl, rfl⟩ := Prod.mk.inj (Option.some.inj h)
    exact ⟨taken, hpops, hchunk⟩

/-! ### The section and the flush of one thread -/

/-- What the inner loop takes it adds to the chunk, and it lowers the count by as much. -/
theorem fill_eq (size : ℤ) (chunk : List UInt8) (c : Client) :
    fill size chunk c =
      ((fillChunk size chunk c.queued).1,
        { c with
          queued := (fillChunk size chunk c.queued).2
          queuedBytes :=
            c.queuedBytes + chunk.length - (fillChunk size chunk c.queued).1.length }) := by
  fun_induction fill size chunk c with
  | case1 chunk c hqueued =>
    rw [hqueued, fillChunk, add_sub_cancel_right, ← hqueued]
  | case2 chunk c item rest hqueued hfits ih =>
    rw [ih, hqueued, fillChunk, if_pos hfits]
    simp only [popInto, List.length_append, Nat.cast_add]
    congr 2
    omega
  | case3 chunk c item rest hqueued hlong =>
    rw [hqueued, fillChunk, if_neg hlong, add_sub_cancel_right, ← hqueued]

theorem takeSection_eq (size : ℤ) {c : Client} (hqueued : c.queued ≠ []) :
    takeSection size c =
      some ((takeChunk size c.queued).1,
        { c with
          queued := (takeChunk size c.queued).2
          queuedBytes := c.queuedBytes - (takeChunk size c.queued).1.length }) := by
  rw [takeSection, if_neg hqueued, fill_eq, takeChunk]
  rcases fillChunk size [] c.queued with ⟨chunk, rest⟩
  rcases chunk with - | ⟨byte, chunk⟩
  · rcases rest with - | ⟨item, rest⟩
    · simp
    · simp [popInto]
  · simp

/-- The section is one round of the flush of a single thread, which the transport then answers. -/
theorem takeSection_round (o : Options) (l : FailedFlushes.Line) (raised : Bool)
    (hqueued : l.client.queued ≠ []) :
    takeSection o.flushChunkSize l.client =
      some (FailedFlushes.chunk o l, (FailedFlushes.round raised o l).client) := by
  obtain ⟨hrest, hchunk⟩ := FailedFlushes.takeChunk_packets o.flushChunkSize l.client.queued
  rw [takeSection_eq o.flushChunkSize hqueued, FailedFlushes.chunk, FailedFlushes.round, hrest,
    hchunk]

/-! ### What a step does -/

/-- Everything a step can do to the queue and to the calls that have ended. -/
inductive Effect (o : Options) (s s' : Bench) : Prop where
  | kept : held s'.client = held s.client → Effect o s s'
  | accepted {t encoded k} : (held s.client).offer List.length o.queueMaxBytes encoded = some k →
      held s'.client = k → s'.ended = s.ended ++ [⟨t, .queuePacket encoded, .ok ()⟩] →
      Effect o s s'
  | taken {taken} : Kept.Pops List.length (held s.client) taken (held s'.client) →
      s'.ended = s.ended → Effect o s s'

section Steps

variable (o : Options) (s : Bench)

theorem start_effect (t : ℕ) (call : Call) : Effect o s (s.start o t call) := by
  cases call with
  | queuePacket encoded =>
    rw [Bench.start, queuePacket_eq]
    cases hoffer : (held s.client).offer List.length o.queueMaxBytes encoded with
    | none => exact .kept rfl
    | some k => exact .accepted hoffer rfl rfl
  | beginBatch => exact .kept rfl
  | endBatch =>
    unfold Bench.start
    dsimp only
    split_ifs
    · exact .kept rfl
    · exact .kept rfl
  | flush => exact .kept rfl

theorem proceed_effect (t : ℕ) (write : Except PyError Unit) (stack : List Point) :
    Effect o s (s.proceed o t write stack) := by
  unfold Bench.proceed
  split
  · split_ifs
    · exact .kept rfl
    · exact .kept rfl
  · split
    · exact .kept rfl
    · next chunk client hsection =>
      obtain ⟨taken, hpops, -⟩ := takeSection_pops hsection
      exact .taken hpops rfl
  · dsimp only
    split
    · exact .kept rfl
    · exact .kept rfl
  · exact .kept rfl

theorem step_effect (move : Move) : Effect o s (s.step o move) := by
  cases move with
  | call t call =>
    rw [Bench.step]
    split_ifs
    · exact start_effect o s t call
    · exact .kept rfl
  | hold t =>
    rw [Bench.step]
    split_ifs
    · exact .kept rfl
    · exact .kept rfl
  | release t =>
    rw [Bench.step]
    split
    · exact .kept rfl
    · exact .kept rfl
  | proceed t write => exact proceed_effect o s t write (s.threads t)

end Steps

/-! ### Runs -/

/-- The queue and its count stand for a queue that holds no more than it may. -/
def Sound (o : Options) (k : Kept (List UInt8)) : Prop :=
  ∃ q : Bounded List.length o.queueMaxBytes, k.Represents q

theorem sound_empty (o : Options) : Sound o {} := ⟨Bounded.empty, Kept.represents_empty⟩

theorem Sound.change {o : Options} {k k' : Kept (List UInt8)} (h : Sound o k)
    (hchange : Kept.Change List.length o.queueMaxBytes k k') : Sound o k' := by
  obtain ⟨q, hq⟩ := h
  exact hq.change hchange

theorem Effect.change {o : Options} {s s' : Bench} (h : Effect o s s') :
    Kept.Change List.length o.queueMaxBytes (held s.client) (held s'.client) := by
  cases h with
  | kept hkept => exact .kept hkept
  | accepted hoffer hk hended =>
    rw [hk]
    exact .offered hoffer
  | taken hpops hended => exact .popped hpops

theorem step_sound (o : Options) (s : Bench) (move : Move) (h : Sound o (held s.client)) :
    Sound o (held (s.step o move).client) :=
  h.change (step_effect o s move).change

/-- The total length of the packets in the queue. -/
def queuedLength (c : Client) : ℕ := (c.queued.map List.length).sum

structure Counted (o : Options) (c : Client) : Prop where
  exact : c.queuedBytes = queuedLength c
  within : ∀ m, o.queueMaxBytes = some m → 0 ≤ m → c.queuedBytes ≤ m

theorem total_eq_length (packets : List (List UInt8)) :
    total List.length packets = packets.flatten.length := by
  induction packets with
  | nil => rfl
  | cons packet packets ih => rw [total_cons, List.flatten_cons, List.length_append, ih]

theorem counted_of_sound {o : Options} {c : Client} (h : Sound o (held c)) : Counted o c := by
  obtain ⟨q, hq⟩ := h
  constructor
  · rw [queuedLength, ← List.length_flatten, ← total_eq_length]
    exact hq.exact
  · exact hq.within

/-- The step is the end of a call that raises `QueueFullError`. -/
def Refuses (o : Options) (s : Bench) (move : Move) (t : ℕ) (encoded : List UInt8) : Prop :=
  (s.step o move).ended = s.ended ++ [⟨t, .queuePacket encoded, .error .queueFullError⟩]

/-- A refusal changes nothing, and a packet is refused exactly if it would go past the limit. -/
structure Backpressure (o : Options) (s : Bench) (move : Move) : Prop where
  unchanged : ∀ t encoded, Refuses o s move t encoded →
    (s.step o move).client.queued = s.client.queued ∧
      (s.step o move).client.queuedBytes = s.client.queuedBytes
  full : ∀ t encoded, move = .call t (.queuePacket encoded) → Free (s.threads t) →
    (Refuses o s move t encoded ↔
      ∃ m, o.queueMaxBytes = some m ∧ m < queuedLength s.client + encoded.length)

theorem refuses_unchanged {o : Options} {s : Bench} {move : Move} {t : ℕ} {encoded : List UInt8}
    (h : Refuses o s move t encoded) : held (s.step o move).client = held s.client := by
  cases step_effect o s move with
  | kept hkept => exact hkept
  | accepted hoffer hk hended =>
    have hend := List.append_cancel_left (hended.symm.trans h)
    cases hend
  | taken hpops hended =>
    cases List.self_eq_append_right.mp (hended.symm.trans h)

theorem refuses_iff {o : Options} {s : Bench} (h : Counted o s.client) {t : ℕ}
    (hfree : Free (s.threads t)) (encoded : List UInt8) :
    Refuses o s (.call t (.queuePacket encoded)) t encoded ↔
      Over o.queueMaxBytes (queuedLength s.client + encoded.length) := by
  have hstep : s.step o (.call t (.queuePacket encoded)) = s.start o t (.queuePacket encoded) :=
    if_pos hfree
  rw [Refuses, hstep, Bench.start, queuePacket_eq, Kept.offer, held, h.exact]
  by_cases hover : Over o.queueMaxBytes (queuedLength s.client + encoded.length)
  · rw [if_pos hover]
    exact iff_of_true rfl hover
  · rw [if_neg hover]
    refine iff_of_false ?_ hover
    intro hended
    cases List.append_cancel_left hended

theorem step_backpressure {o : Options} {s : Bench} (h : Sound o (held s.client)) (move : Move) :
    Backpressure o s move := by
  constructor
  · intro t encoded hrefuses
    have hheld := refuses_unchanged hrefuses
    exact ⟨congrArg Kept.items hheld, congrArg Kept.count hheld⟩
  · rintro t encoded rfl hfree
    exact refuses_iff (counted_of_sound h) hfree encoded

/-- Whatever the threads do and in whatever order. -/
theorem queue_count_exact (o : Options) (moves : List Move) :
    EachState (Bench.step o) (fun s => Counted o s.client) {} moves ∧
      EachStep (Bench.step o) (Backpressure o) {} moves := by
  have hinitial : Sound o (held ({} : Bench).client) := sound_empty o
  have hstates : EachState (Bench.step o) (fun s => Counted o s.client) {} moves := by
    apply eachState_of_eachStep (fun s move h _ => step_sound o s move h)
      (fun s => counted_of_sound) hinitial
    exact eachStep_of_forall _ fun _ _ => trivial
  refine ⟨hstates, ?_⟩
  exact eachStep_of_eachState (step_sound o) (fun s move h _ _ => step_backpressure h move)
    hinitial hstates

/-! ### The whole client -/

section Crew

open ClientThreads (Crew)

variable (b : FirmwareState.Board) (o : Options) (s : Crew)

/-- The queue of a client whose calls carry their frames. -/
def crewHeld (s : Crew) : Kept (List UInt8) :=
  ⟨s.queued.map ClientThreads.Call.encoded, s.queuedBytes⟩

def CrewChange (s s' : Crew) : Prop :=
  Kept.Change List.length o.queueMaxBytes (crewHeld s) (crewHeld s')

theorem flushChunk_change : CrewChange o s (s.flushChunk o) := by
  have hpops := @Kept.pops_take (List UInt8) List.length
    (s.queued.map ClientThreads.Call.encoded) s.queuedBytes (Crew.chunkCount o s.queued)
  rw [← List.map_take, ← List.map_drop, total_eq_length] at hpops
  exact .popped hpops

theorem crew_proceed_change (t : ℕ) (stack : List ClientThreads.Point) :
    CrewChange o s (s.proceed o t stack) := by
  rcases stack with - | ⟨point, below⟩
  · exact .kept rfl
  cases point with
  | deciding c => exact .kept rfl
  | queueing c =>
    simp only [Crew.proceed]
    by_cases hover : Over o.queueMaxBytes (s.queuedBytes + c.encoded.length)
    · rw [if_pos ((over_iff _ _).mp hover)]
      exact .kept rfl
    · rw [if_neg (mt (over_iff _ _).mpr hover)]
      refine .offered (a := c.encoded) ?_
      rw [Kept.offer, crewHeld, if_neg hover, ← List.map_singleton, ← List.map_append]
      rfl
  | queued c =>
    rw [Crew.proceed]
    split_ifs
    · exact .kept rfl
    · exact .kept rfl
  | writing c =>
    rw [Crew.proceed]
    split_ifs
    · exact .kept rfl
    · exact .kept rfl
    · exact .kept rfl
  | awaiting c inCallback => exact .kept rfl
  | entering cause =>
    rw [Crew.proceed]
    split_ifs
    · exact .kept rfl
    · exact .kept rfl
  | flushing cause =>
    simp only [Crew.proceed]
    split_ifs
    · exact flushChunk_change o s
    · cases cause with
      | none => exact .kept rfl
      | some c => exact .kept rfl

theorem crew_step_change (move : ClientThreads.Move) : CrewChange o s (s.step b o move) := by
  cases move with
  | act t action =>
    rw [Crew.step]
    split_ifs
    · cases action with
      | invoke command payload expectResponse =>
        rw [Crew.act, Crew.invoke]
        split
        · exact .kept rfl
        · exact .kept rfl
      | beginBatch => exact .kept rfl
      | endBatch =>
        rw [Crew.act]
        dsimp only
        split_ifs
        · exact .kept rfl
        · exact .kept rfl
      | flush => exact .kept rfl
    · exact .kept rfl
  | proceed t => exact crew_proceed_change o s t (s.threads t)
  | receive t =>
    rw [Crew.step]
    unfold Crew.receive
    split
    · dsimp only
      split_ifs
      · exact .kept rfl
      · exact .kept rfl
    · exact .kept rfl
  | fail t error =>
    rw [Crew.step]
    unfold Crew.fail
    split
    · exact .kept rfl
    · exact .kept rfl
  | takeCommand env =>
    rw [Crew.step]
    split
    · exact .kept rfl
    · exact .kept rfl
  | update env => exact .kept rfl
  | counterTick env id => exact .kept rfl
  | encoderTick env id => exact .kept rfl
  | lose => exact .kept rfl
  | garble packet => exact .kept rfl

/-- The count is right and the limit is kept also between the threads of the whole client. -/
theorem crew_counted (moves : List ClientThreads.Move) :
    EachState (Crew.step b o)
      (fun s => s.queuedBytes = total List.length (s.queued.map ClientThreads.Call.encoded) ∧
        Within o.queueMaxBytes s.queuedBytes) {} moves := by
  have hinitial : Sound o (crewHeld {}) := sound_empty o
  apply eachState_of_eachStep (I := fun s : Crew => Sound o (crewHeld s))
    (fun s move h _ => h.change (crew_step_change b o s move)) ?_ hinitial
  · exact eachStep_of_forall _ fun _ _ => trivial
  · rintro s ⟨q, hq⟩
    exact ⟨hq.exact, hq.within⟩

end Crew

end QueueSections
