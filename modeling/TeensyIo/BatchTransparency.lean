import TeensyIo.HostClient
import TeensyIo.BracketedPrograms

/-! # Batching leaves the byte stream alone

A program of commands, flushes and batches on one thread, seen at `transport.write`, next to the
same program without its batches. -/
namespace BatchTransparency

open WireCommands HostProtocol HostClient BracketedPrograms

/-! ### The writes of a flush -/

section Flush

variable (size : ℤ)

/-- Some frames, together no longer than a chunk unless there is only one. -/
def FitsChunk (frames : List (List UInt8)) : Prop :=
  frames ≠ [] ∧ ((frames.flatten.length : ℤ) ≤ size ∨ frames.length = 1)

theorem fillChunk_frames (chunk : List UInt8) (queued : List (List UInt8)) :
    ∃ taken, queued = taken ++ (fillChunk size chunk queued).2 ∧
      (fillChunk size chunk queued).1 = chunk ++ taken.flatten ∧
      (taken ≠ [] → ((chunk ++ taken.flatten).length : ℤ) ≤ size) := by
  induction queued generalizing chunk with
  | nil =>
    refine ⟨[], rfl, (List.append_nil chunk).symm, ?_⟩
    intro hne
    exact absurd rfl hne
  | cons item queued ih =>
    rw [fillChunk]
    by_cases hfits : (chunk.length + item.length : ℤ) ≤ size
    · rw [if_pos hfits]
      obtain ⟨taken, hqueued, hchunk, hle⟩ := ih (chunk ++ item)
      refine ⟨item :: taken, ?_, ?_, ?_⟩
      · rw [List.cons_append, ← hqueued]
      · rw [hchunk, List.flatten_cons, List.append_assoc]
      · intro _
        rw [List.flatten_cons, ← List.append_assoc]
        by_cases hnone : taken = []
        · rw [hnone, List.flatten_nil, List.append_nil, List.length_append]
          exact_mod_cast hfits
        · exact hle hnone
    · rw [if_neg hfits]
      refine ⟨[], rfl, (List.append_nil chunk).symm, ?_⟩
      intro hne
      exact absurd rfl hne

/-- One write takes whole frames from the front of the queue. -/
theorem takeChunk_frames {item : List UInt8} {queued : List (List UInt8)}
    (hne : ∀ f ∈ item :: queued, f ≠ []) :
    ∃ frames, item :: queued = frames ++ (takeChunk size (item :: queued)).2 ∧
      (takeChunk size (item :: queued)).1 = frames.flatten ∧ FitsChunk size frames := by
  obtain ⟨taken, hqueued, hchunk, hle⟩ := fillChunk_frames size [] (item :: queued)
  rw [List.nil_append] at hchunk hle
  unfold takeChunk
  split
  · rename_i next rest hfill
    rw [hfill] at hqueued hchunk
    -- Frames are not empty, so an empty chunk has taken none of them.
    have hnone : taken = [] := by
      cases taken with
      | nil => rfl
      | cons f taken =>
        have hf : f ≠ [] := hne f (by rw [hqueued]; exact List.mem_cons_self)
        rw [List.flatten_cons] at hchunk
        exact absurd (List.append_eq_nil_iff.mp hchunk.symm).1 hf
    rw [hnone, List.nil_append] at hqueued
    refine ⟨[next], hqueued, (List.append_nil next).symm, List.cons_ne_nil _ _, Or.inr rfl⟩
  · rename_i hnot
    refine ⟨taken, hqueued, hchunk, ?_, ?_⟩
    · rintro rfl
      rw [List.nil_append] at hqueued
      exact hnot item queued (Prod.ext hchunk hqueued.symm)
    · by_cases hnone : taken = []
      · subst hnone
        rw [List.nil_append] at hqueued
        exact absurd (Prod.ext hchunk hqueued.symm) (hnot item queued)
      · exact Or.inl (hle hnone)

theorem flushWrites_frames {queued : List (List UInt8)} (hne : ∀ f ∈ queued, f ≠ []) :
    ∃ groups : List (List (List UInt8)), queued = groups.flatten ∧
      flushWrites size queued = groups.map List.flatten ∧ ∀ g ∈ groups, FitsChunk size g := by
  induction queued using flushWrites.induct size with
  | case1 =>
    refine ⟨[], rfl, ?_, ?_⟩
    · rw [flushWrites, List.map_nil]
    · intro g hg
      cases hg
  | case2 item rest taken ih =>
    obtain ⟨frames, hqueued, hchunk, hfits⟩ := takeChunk_frames size hne
    have hleft : ∀ f ∈ taken.2, f ≠ [] := by
      intro f hf
      apply hne f
      rw [hqueued]
      exact List.mem_append_right frames hf
    obtain ⟨groups, hrest, hwrites, hall⟩ := ih hleft
    refine ⟨frames :: groups, ?_, ?_, ?_⟩
    · rw [List.flatten_cons, ← hrest]
      exact hqueued
    · rw [flushWrites, List.map_cons, hwrites, hchunk]
    · intro g hg
      rcases List.mem_cons.mp hg with rfl | hg
      · exact hfits
      · exact hall g hg

end Flush

/-! ### A client on one thread -/

inductive Action where
  | command (command : CommandId) (payload : List UInt8) (expectResponse : Bool)
  | flush

/-- An argument of `transport.write`, with the function that called it. -/
inductive Write where
  | command (bytes : List UInt8)
  | flush (bytes : List UInt8)
  deriving DecidableEq

def Write.bytes : Write → List UInt8
  | command bytes => bytes
  | flush bytes => bytes

/-- The client and what it has written. `unanswered` lists the commands whose call raised although
their frame was written. -/
structure World where
  client : Client := {}
  writes : List Write := []
  unanswered : List ℕ := []

/-- The bytes on the wire. -/
def World.stream (w : World) : List UInt8 := (w.writes.map Write.bytes).flatten

/-- The loop of `_read_response` over the packets of one chunk. -/
def handPackets (o : Options) (number : ℕ) (c : Client) : List Packet → Client × Option Packet
  | [] => (c, none)
  | packet :: packets =>
    if packet.seq = sequence number then (c, some packet)
    else handPackets o number (handleAsyncPacket o c packet) packets

/-- `_read_response`, given what each read returns before the deadline. -/
def readResponse (o : Options) (number : ℕ) (c : Client) :
    List (List UInt8) → Client × Except PyError Packet
  | [] => (c, .error .timeoutError)
  | data :: chunks =>
    if data = [] then readResponse o number c chunks
    else
      let fed := c.decoder.feed data
      let c := { c with decoder := fed.2 }
      match fed.1 with
      | .error error => (c, .error error)
      | .ok packets =>
        match handPackets o number c packets with
        | (c, some packet) => (c, .ok packet)
        | (c, none) => readResponse o number c chunks

section Machine

variable {ε : Type} (raised : PyError → ε) (o : Options) (incoming : ℕ → List (List UInt8))

namespace World

def flushed (w : World) (client : Client) (writes : List (List UInt8)) : World :=
  { w with client := client, writes := w.writes ++ writes.map .flush }

/-- The rest of `_command` once its frame has been written. -/
def await (w : World) : Ending World ε :=
  let number := w.client.issued
  let read := readResponse o number w.client (incoming number)
  match read.2.bind commandResult with
  | .ok _ => (.ok (), { w with client := read.1 })
  | .error error =>
    (.error (raised error), { w with client := read.1, unanswered := w.unanswered ++ [number] })

def command (w : World) (command : CommandId) (payload : List UInt8) (expectResponse : Bool) :
    Ending World ε :=
  match issue o w.client command payload expectResponse with
  | (c, .raised error) => (.error (raised error), { w with client := c })
  | (c, .queued none) => (.ok (), { w with client := c })
  | (c, .queued (some writes)) => (.ok (), w.flushed c writes)
  | (c, .sent encoded) => (.ok (), { w with client := c, writes := w.writes ++ [.command encoded] })
  | (c, .awaiting encoded) =>
    await raised o incoming { w with client := c, writes := w.writes ++ [.command encoded] }

def act (w : World) : Action → Ending World ε
  | .command command payload expectResponse =>
    w.command raised o incoming command payload expectResponse
  | .flush => (.ok (), w.flushed (HostClient.flush o w.client).1 (HostClient.flush o w.client).2)

def endBatch (w : World) : World :=
  match HostClient.endBatch o w.client with
  | (c, none) => { w with client := c }
  | (c, some writes) => w.flushed c writes

end World

/-- Programs on the client. A bracket is a `with io.batch():` block, `raised` an exception of the
client as the program sees it, and `incoming` what the reads of each command return. -/
def machine : Machine World Action ε where
  act w a := w.act raised o incoming a
  enter w := { w with client := beginBatch w.client }
  leave w := w.endBatch o

end Machine

/-! ### Reading leaves the outgoing half alone -/

structure SameOutbox (c d : Client) : Prop where
  issued : d.issued = c.issued
  batchDepth : d.batchDepth = c.batchDepth
  queued : d.queued = c.queued

theorem SameOutbox.trans {c d e : Client} (h : SameOutbox c d) (k : SameOutbox d e) :
    SameOutbox c e :=
  ⟨k.issued.trans h.issued, k.batchDepth.trans h.batchDepth, k.queued.trans h.queued⟩

theorem handleAsyncPacket_same (o : Options) (c : Client) (packet : Packet) :
    SameOutbox c (handleAsyncPacket o c packet) := by
  unfold handleAsyncPacket
  split
  · exact ⟨rfl, rfl, rfl⟩
  · split
    · exact ⟨rfl, rfl, rfl⟩
    · exact ⟨rfl, rfl, rfl⟩

theorem handPackets_same (o : Options) (number : ℕ) (c : Client) (packets : List Packet) :
    SameOutbox c (handPackets o number c packets).1 := by
  induction packets generalizing c with
  | nil => exact ⟨rfl, rfl, rfl⟩
  | cons packet packets ih =>
    rw [handPackets]
    split_ifs
    · exact ⟨rfl, rfl, rfl⟩
    · exact (handleAsyncPacket_same o c packet).trans (ih (handleAsyncPacket o c packet))

theorem readResponse_same (o : Options) (number : ℕ) (c : Client) (chunks : List (List UInt8)) :
    SameOutbox c (readResponse o number c chunks).1 := by
  induction chunks generalizing c with
  | nil => exact ⟨rfl, rfl, rfl⟩
  | cons data chunks ih =>
    rw [readResponse]
    split_ifs
    · exact ih c
    · dsimp only
      have hfed : SameOutbox c { c with decoder := (c.decoder.feed data).2 } := ⟨rfl, rfl, rfl⟩
      split
      · exact hfed
      · rename_i packets _
        have hhanded := hfed.trans (handPackets_same o number _ packets)
        split
        · rename_i d packet hd
          rw [hd] at hhanded
          exact hhanded
        · rename_i d hd
          rw [hd] at hhanded
          exact hhanded.trans (ih d)

/-! ### Direct and batched commands -/

section Issue

variable {o : Options} {c : Client} {command : CommandId} {payload encoded : List UInt8}
  {expectResponse : Bool}

theorem issue_raised {error : PyError}
    (h : encodePacket (commandPacket (c.issued + 1) command payload) = .error error) :
    issue o c command payload expectResponse =
      ({ c with issued := c.issued + 1 }, .raised error) := by
  rw [issue, h]

theorem issue_direct (hrate : o.flushRateHz = none) (hdepth : c.batchDepth = 0)
    (h : encodePacket (commandPacket (c.issued + 1) command payload) = .ok encoded) :
    issue o c command payload expectResponse =
      ({ c with issued := c.issued + 1 },
        if expectResponse then .awaiting encoded else .sent encoded) := by
  rw [issue, h]
  dsimp only
  rw [if_neg]
  rw [hdepth, hrate]
  rintro (hpos | ⟨hsome, -⟩)
  · exact absurd hpos (lt_irrefl 0)
  · cases hsome

theorem issue_batched (hmax : o.queueMaxBytes = none) (hdepth : 0 < c.batchDepth)
    (h : encodePacket (commandPacket (c.issued + 1) command payload) = .ok encoded) :
    issue o c command payload expectResponse =
      ({ c with
          issued := c.issued + 1
          queued := c.queued ++ [encoded]
          queuedBytes := c.queuedBytes + encoded.length }, .queued none) := by
  have hqueue : queuePacket o { c with issued := c.issued + 1 } encoded = .ok
      { c with
        issued := c.issued + 1
        queued := c.queued ++ [encoded]
        queuedBytes := c.queuedBytes + encoded.length } := by
    rw [queuePacket, hmax]
    rfl
  rw [issue, h]
  dsimp only
  rw [if_pos (Or.inl hdepth), hqueue]
  dsimp only
  rw [if_neg]
  rintro ⟨-, -, hzero⟩
  omega

end Issue

/-! ### The two runs -/

/-- The frame of a command. -/
def IsFrame (bytes : List UInt8) : Prop :=
  ∃ number command payload, encodePacket (commandPacket number command payload) = .ok bytes

/-- The bytes are whole frames, and no more than a chunk unless they are a single frame. -/
def WholeFrames (size : ℤ) (bytes : List UInt8) : Prop :=
  ∃ frames, (∀ f ∈ frames, IsFrame f) ∧ FitsChunk size frames ∧ bytes = frames.flatten

/-- The program with its batches, `n` of them open, next to the program without. -/
structure Coupled (size : ℤ) (n : ℕ) (s t : World) : Prop where
  issued : s.client.issued = t.client.issued
  depth : s.client.batchDepth = n
  direct : t.client.batchDepth = 0
  unqueued : t.client.queued = []
  drained : n = 0 → s.client.queued = []
  stream : s.stream ++ s.client.queued.flatten = t.stream
  frames : ∀ f ∈ s.client.queued, IsFrame f
  whole : ∀ bytes, Write.flush bytes ∈ s.writes → WholeFrames size bytes

theorem IsFrame.ne_nil {bytes : List UInt8} (h : IsFrame bytes) : bytes ≠ [] := by
  obtain ⟨number, command, payload, hencoded⟩ := h
  rintro rfl
  unfold encodePacket at hencoded
  dsimp only at hencoded
  split_ifs at hencoded
  cases Except.ok.inj hencoded

section World

variable {size : ℤ} {w s t : World} {client : Client}

theorem flushed_stream (writes : List (List UInt8)) :
    (w.flushed client writes).stream = w.stream ++ writes.flatten := by
  simp only [World.flushed, World.stream, List.map_append, List.map_map, List.flatten_append]
  congr 2
  exact List.map_id writes

/-- Flushing sends what is queued in whole frames. -/
theorem flush_whole {queued : List (List UInt8)} (hframes : ∀ f ∈ queued, IsFrame f)
    (hwhole : ∀ bytes, Write.flush bytes ∈ w.writes → WholeFrames size bytes) (bytes : List UInt8)
    (h : Write.flush bytes ∈ (w.flushed client (flushWrites size queued)).writes) :
    WholeFrames size bytes := by
  rcases List.mem_append.mp h with h | h
  · exact hwhole bytes h
  · obtain ⟨groups, hqueued, hwrites, hfits⟩ :=
      flushWrites_frames size fun f hf => (hframes f hf).ne_nil
    rw [hwrites, List.map_map] at h
    obtain ⟨g, hg, hbytes⟩ := List.mem_map.mp h
    refine ⟨g, ?_, hfits g hg, (Write.flush.inj hbytes).symm⟩
    intro f hf
    apply hframes
    rw [hqueued]
    exact List.mem_flatten.mpr ⟨g, hg, hf⟩

end World

section Coupled

variable {ε : Type} {raised : PyError → ε} {o : Options} {incoming : ℕ → List (List UInt8)} {n : ℕ}
  {s t w : World}

/-- A command that has been answered has done nothing but read. -/
theorem await_spec (h : (w.await raised o incoming).2.unanswered = []) :
    (w.await raised o incoming).1 = .ok () ∧ (w.await raised o incoming).2.writes = w.writes ∧
      SameOutbox w.client (w.await raised o incoming).2.client := by
  have hsame := readResponse_same o w.client.issued w.client (incoming w.client.issued)
  unfold World.await at h ⊢
  dsimp only at h ⊢
  split at h
  · exact ⟨rfl, rfl, hsame⟩
  · exact absurd h (List.append_ne_nil_of_right_ne_nil w.unanswered (List.cons_ne_nil _ _))

/-- Outside of every batch a command that is answered has written its frame. -/
theorem command_direct (hrate : o.flushRateHz = none) (hdepth : w.client.batchDepth = 0)
    {command : CommandId} {payload encoded : List UInt8} {expectResponse : Bool}
    (hencoded : encodePacket (commandPacket (w.client.issued + 1) command payload) = .ok encoded)
    (h : (w.command raised o incoming command payload expectResponse).2.unanswered = []) :
    let out := w.command raised o incoming command payload expectResponse
    out.1 = .ok () ∧ out.2.writes = w.writes ++ [.command encoded] ∧
      SameOutbox { w.client with issued := w.client.issued + 1 } out.2.client := by
  intro out
  rw [World.command, issue_direct hrate hdepth hencoded] at h
  have hout : out = w.command raised o incoming command payload expectResponse := rfl
  rw [World.command, issue_direct hrate hdepth hencoded] at hout
  cases expectResponse with
  | false =>
    rw [hout]
    exact ⟨rfl, rfl, rfl, rfl, rfl⟩
  | true =>
    rw [hout]
    exact await_spec h

/-- The queued packets have gone out in whole frames. -/
theorem Coupled.flush (h : Coupled o.flushChunkSize n s t) {m : ℕ} {client : Client}
    (hissued : client.issued = s.client.issued) (hdepth : client.batchDepth = m)
    (hqueued : client.queued = []) :
    Coupled o.flushChunkSize m
      (s.flushed client (flushWrites o.flushChunkSize s.client.queued)) t := by
  constructor
  · exact hissued.trans h.issued
  · exact hdepth
  · exact h.direct
  · exact h.unqueued
  · intro _
    exact hqueued
  · have hsent : (s.flushed client (flushWrites o.flushChunkSize s.client.queued)).client.queued =
        [] := hqueued
    rw [flushed_stream, flushWrites_flatten, hsent, List.flatten_nil, List.append_nil]
    exact h.stream
  · intro f hf
    rw [World.flushed, hqueued] at hf
    cases hf
  · exact flush_whole h.frames h.whole

theorem Coupled.leave (h : Coupled o.flushChunkSize (n + 1) s t) :
    Coupled o.flushChunkSize n (s.endBatch o) t := by
  have hdepth : s.client.batchDepth - 1 = n := by
    rw [h.depth]
    push_cast
    omega
  unfold World.endBatch HostClient.endBatch
  dsimp only
  by_cases hzero : s.client.batchDepth - 1 = 0
  · rw [if_pos hzero]
    exact h.flush rfl hdepth rfl
  · rw [if_neg hzero]
    constructor
    · exact h.issued
    · exact hdepth
    · exact h.direct
    · exact h.unqueued
    · intro hn
      exact absurd (by rw [hdepth, hn]; rfl) hzero
    · exact h.stream
    · exact h.frames
    · exact h.whole

theorem Coupled.moved {size : ℤ} (h : Coupled size n s t) {s' t' : World}
    (hs : SameOutbox s.client s'.client) (hs' : s'.writes = s.writes)
    (ht : SameOutbox t.client t'.client) (ht' : t'.writes = t.writes) : Coupled size n s' t' := by
  constructor
  · rw [hs.issued, ht.issued, h.issued]
  · rw [hs.batchDepth, h.depth]
  · rw [ht.batchDepth, h.direct]
  · rw [ht.queued, h.unqueued]
  · intro hn
    rw [hs.queued, h.drained hn]
  · rw [World.stream, World.stream, hs', ht', hs.queued]
    exact h.stream
  · rw [hs.queued]
    exact h.frames
  · rw [hs']
    exact h.whole

/-- A number is taken in both runs. -/
theorem Coupled.numbered {size : ℤ} (h : Coupled size n s t) :
    Coupled size n { s with client := { s.client with issued := s.client.issued + 1 } }
      { t with client := { t.client with issued := t.client.issued + 1 } } :=
  { h with issued := congrArg (· + 1) h.issued }

/-- Outside of every batch both runs write the frame. -/
theorem Coupled.written {size : ℤ} (h : Coupled size 0 s t) (encoded : List UInt8) :
    Coupled size 0 { s with writes := s.writes ++ [.command encoded] }
      { t with writes := t.writes ++ [.command encoded] } := by
  have hstream : ∀ w : World, World.stream { w with writes := w.writes ++ [.command encoded] } =
      w.stream ++ encoded := by
    intro w
    simp [World.stream, Write.bytes]
  have hlevel : s.stream = t.stream := by
    rw [← h.stream, h.drained rfl, List.flatten_nil, List.append_nil]
  refine { h with stream := ?_, whole := ?_ }
  · rw [hstream, hstream, h.drained rfl, hlevel, List.flatten_nil, List.append_nil]
  · intro bytes hbytes
    rcases List.mem_append.mp hbytes with hbytes | hbytes
    · exact h.whole bytes hbytes
    · cases List.mem_singleton.mp hbytes

/-- In a batch the frame joins the queue and goes out in the run without batches. -/
theorem Coupled.queued {size : ℤ} (h : Coupled size n s t) (hn : n ≠ 0) {encoded : List UInt8}
    (hframe : IsFrame encoded) (queuedBytes : ℤ) :
    Coupled size n
      { s with client :=
        { s.client with queued := s.client.queued ++ [encoded], queuedBytes := queuedBytes } }
      { t with writes := t.writes ++ [.command encoded] } := by
  refine { h with drained := fun hzero => absurd hzero hn, stream := ?_, frames := ?_ }
  · have hstream : World.stream { t with writes := t.writes ++ [.command encoded] } =
        t.stream ++ encoded := by
      simp [World.stream, Write.bytes]
    rw [hstream, ← h.stream]
    simp [World.stream]
  · intro f hf
    rcases List.mem_append.mp hf with hf | hf
    · exact h.frames f hf
    · rw [List.mem_singleton.mp hf]
      exact hframe

/-- A command does the same in both runs. -/
theorem Coupled.command (h : Coupled o.flushChunkSize n s t) {incoming' : ℕ → List (List UInt8)}
    (hrate : o.flushRateHz = none) (hmax : o.queueMaxBytes = none) {command : CommandId}
    {payload : List UInt8} {expectResponse : Bool}
    (hs : (s.command raised o incoming command payload expectResponse).2.unanswered = [])
    (ht : (t.command raised o incoming' command payload expectResponse).2.unanswered = []) :
    Alike (Coupled o.flushChunkSize n) (s.command raised o incoming command payload expectResponse)
      (t.command raised o incoming' command payload expectResponse) := by
  have hnumber := h.issued
  cases hencoded : encodePacket (commandPacket (s.client.issued + 1) command payload) with
  | error error =>
    have hencoded' := hencoded
    rw [hnumber] at hencoded'
    rw [World.command, World.command, issue_raised hencoded, issue_raised hencoded']
    exact ⟨rfl, h.numbered⟩
  | ok encoded =>
    have hencoded' := hencoded
    rw [hnumber] at hencoded'
    obtain ⟨hend', hwrites', hsame'⟩ := command_direct hrate h.direct hencoded' ht
    by_cases hn : n = 0
    · subst hn
      obtain ⟨hend, hwrites, hsame⟩ := command_direct hrate h.depth hencoded hs
      exact ⟨hend.trans hend'.symm,
        (h.numbered.written encoded).moved hsame hwrites hsame' hwrites'⟩
    · have hdepth : 0 < s.client.batchDepth := by
        rw [h.depth]
        exact_mod_cast Nat.pos_of_ne_zero hn
      rw [World.command, issue_batched hmax hdepth hencoded]
      refine ⟨hend'.symm, ?_⟩
      have hqueued := h.numbered.queued hn ⟨_, _, _, hencoded⟩
        (s.client.queuedBytes + encoded.length)
      exact hqueued.moved ⟨rfl, rfl, rfl⟩ rfl hsame' hwrites'

end Coupled

/-! ### Whole programs -/

section Programs

variable {ε : Type} (raised : PyError → ε) (o : Options)

/-- A call once unanswered stays so. -/
theorem unanswered_lasting (incoming : ℕ → List (List UInt8)) :
    (machine raised o incoming).Lasting fun w => w.unanswered = [] := by
  have hawait : ∀ w : World, (w.await raised o incoming).2.unanswered = [] → w.unanswered = [] := by
    intro w h
    unfold World.await at h
    dsimp only at h
    split at h
    · exact h
    · exact (List.append_eq_nil_iff.mp h).1
  constructor
  · intro w a h
    cases a with
    | flush => exact h
    | command command payload expectResponse =>
      change (w.command raised o incoming command payload expectResponse).2.unanswered = [] at h
      unfold World.command at h
      split at h
      · exact h
      · exact h
      · exact h
      · exact h
      · have hbefore := hawait _ h
        exact hbefore
  · intro w h
    exact h
  · intro w h
    change (w.endBatch o).unanswered = [] at h
    unfold World.endBatch at h
    split at h
    · exact h
    · exact h

theorem batching_coupled (incoming incoming' : ℕ → List (List UInt8))
    (hrate : o.flushRateHz = none) (hmax : o.queueMaxBytes = none) :
    Coupling (machine raised o incoming) (machine raised o incoming')
      (fun w => w.unanswered = []) (fun w => w.unanswered = []) (Coupled o.flushChunkSize) := by
  constructor
  · exact unanswered_lasting raised o incoming
  · exact unanswered_lasting raised o incoming'
  · intro n s t a h hs ht
    cases a with
    | command command payload expectResponse => exact h.command hrate hmax hs ht
    | flush =>
      refine ⟨rfl, ?_⟩
      have hflushed : Coupled o.flushChunkSize n (s.flushed (flush o s.client).1
          (flushWrites o.flushChunkSize s.client.queued)) t := h.flush rfl h.depth rfl
      have hnothing : (t.flushed (flush o t.client).1 (flush o t.client).2).writes = t.writes := by
        have hempty : (flush o t.client).2 = [] := by
          rw [flush, h.unqueued, flushWrites]
        rw [World.flushed, hempty, List.map_nil, List.append_nil]
      have hsame : SameOutbox t.client (flush o t.client).1 := ⟨rfl, rfl, h.unqueued.symm⟩
      exact hflushed.moved ⟨rfl, rfl, rfl⟩ rfl hsame hnothing
  · intro n s t h
    have hdepth : (beginBatch s.client).batchDepth = ((n + 1 : ℕ) : ℤ) := by
      rw [beginBatch, h.depth]
      rfl
    have hopen : n + 1 = 0 → s.client.queued = [] := by
      intro hzero
      cases hzero
    exact { h with depth := hdepth, drained := hopen }
  · intro n s t h
    exact h.leave

/-- Batching is transparent on the wire. A program and the same program without its batches, each
with every call answered, end alike and write the same bytes; the batches leave nothing in the
queue, and what they flush are whole frames in chunks of the size asked for. -/
theorem batching_transparent (incoming incoming' : ℕ → List (List UInt8))
    (p : Program Action ε) (c : Client) (hrate : o.flushRateHz = none)
    (hmax : o.queueMaxBytes = none) (hdepth : c.batchDepth = 0) (hqueue : c.queued = []) :
    let batched := (machine raised o incoming).run p { client := c }
    let plain := (machine raised o incoming').run p.unbracketed { client := c }
    batched.2.unanswered = [] → plain.2.unanswered = [] →
      batched.1 = plain.1 ∧ batched.2.stream = plain.2.stream ∧
        batched.2.client.batchDepth = 0 ∧ batched.2.client.queued = [] ∧
          ∀ bytes, Write.flush bytes ∈ batched.2.writes → WholeFrames o.flushChunkSize bytes := by
  intro batched plain hbatched hplain
  have hstart : Coupled o.flushChunkSize 0 { client := c } { client := c } := by
    constructor
    · rfl
    · exact hdepth
    · exact hdepth
    · exact hqueue
    · intro _
      exact hqueue
    · rw [hqueue, List.flatten_nil, List.append_nil]
    · intro f hf
      rw [hqueue] at hf
      cases hf
    · intro bytes hbytes
      cases hbytes
  obtain ⟨hend, h⟩ := (batching_coupled raised o incoming incoming' hrate hmax).run p hstart
    hbatched hplain
  refine ⟨hend, ?_, h.depth, h.drained rfl, h.whole⟩
  rw [← h.stream, h.drained rfl, List.flatten_nil, List.append_nil]

end Programs

/-! ### A concrete program -/

/-- Two batches, one in the other, left by an exception that is handled outside. -/
def interrupted : Program Action PyError :=
  .attempt
    (.bracket (.seq (.act (.command .digitalWrite [13, 1] true))
      (.bracket (.seq (.act (.command .pwmWrite [3, 0, 16] true)) (.raise .valueError)))))
    fun _ => .act (.command .heartbeat [] true)

def ackOf (number : ℕ) : List UInt8 :=
  match encodePacket ⟨.ack, sequence number, [0]⟩ with
  | .ok bytes => bytes
  | .error _ => []

/-- The batch goes out in one write, and the command after it finds three answers waiting. -/
theorem interrupted_transparent :
    let batched := (machine id {} fun n => [(List.range (n + 1)).flatMap ackOf]).run interrupted {}
    let plain := (machine id {} fun n => [ackOf n]).run interrupted.unbracketed {}
    batched.1 = plain.1 ∧ batched.2.stream = plain.2.stream ∧
      batched.2.client.queued = [] ∧ batched.2.writes.length = 2 ∧ plain.2.writes.length = 3 := by
  obtain ⟨hend, hstream, -, hqueue, -⟩ :=
    batching_transparent id {} (fun n => [(List.range (n + 1)).flatMap ackOf])
      (fun n => [ackOf n]) interrupted {} rfl rfl rfl rfl (by decide +kernel) (by decide +kernel)
  exact ⟨hend, hstream, hqueue, by decide +kernel, by decide +kernel⟩

end BatchTransparency
