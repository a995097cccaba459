import TeensyIo.DeviceLink
import TeensyIo.MachineRuns

/-! # Commands issued from callbacks

A session with a device that answers every command in the order in which it was sent and sends
other frames whenever it likes. A callback that issues a synchronous command runs a loop of its
own on the same stream, and this loop may take the bytes the loop below it waits for. -/
namespace CallbackCommands

open WireCommands HostProtocol HostClient WireCompatibility HostSession MachineRuns
open DeviceLink (Origin)

/-- The commands for whose responses the loops of the stack wait. -/
def waiters (stack : List Activity) : List ℕ :=
  stack.filterMap fun a =>
    match a.call with
    | .readResponse number => some number
    | .pollAsyncPackets .. => none

/-- `origins` runs along `session.sent`; `awaited` are the commands whose calls have come to wait,
and `taken` the packets these have returned. -/
structure Rig where
  session : Session := {}
  origins : List Origin := []
  awaited : List ℕ := []
  taken : List (ℕ × Arrival) := []

inductive Input where
  | host (move : HostMove)
  /-- The device answers the oldest command it has not answered. -/
  | answer (type : PacketType) (payload : {bytes : List UInt8 // bytes.length ≤ maxPayloadSize})
  | volunteer (packet : {p : Packet // Sendable p})

/-- The packet `_read_response` returns in this step, with the command it is returned for. -/
def taking (s : Session) : Input → Option (ℕ × Arrival)
  | .host .next =>
    match s.stack with
    | ⟨.readResponse number, .delivering (arrival :: _) _⟩ :: _ =>
      if (Call.readResponse number).returns arrival.1 then some (number, arrival) else none
    | _ => none
  | _ => none

namespace Rig

def host (o : Options) (r : Rig) (move : HostMove) : Rig :=
  let session := r.session.host o move
  let begun := session.stack.take (session.stack.length - r.session.stack.length)
  { r with
    session := session
    awaited := r.awaited ++ waiters begun
    taken := r.taken ++ (taking r.session (.host move)).toList }

def step (o : Options) (r : Rig) : Input → Rig
  | .host move => r.host o move
  | .answer type payload =>
    match r.session.writtenCommands with
    | [] => r
    | command :: rest =>
      { r with
        session := { r.session with writtenCommands := rest }.send ⟨type, command.2.seq, payload⟩
        origins := r.origins ++ [.response command.1] }
  | .volunteer packet =>
    { r with session := r.session.send packet, origins := r.origins ++ [.unsolicited] }

end Rig

/-! ### What is asked of a run, and what it gives -/

/-- No deadline of a waiting call passes. -/
def Patient (r : Rig) : Input → Prop
  | .host (.read expired _ _) => waiters (r.session.stack.take 1) ≠ [] → expired = false
  | _ => True

/-- The bytes that a pass of the loop takes from the transport. -/
def chunk (o : Options) (s : Session) : Call → Bool → ℕ → ℕ × ℕ → List UInt8
  | .readResponse _, expired, _, blocking =>
    if expired then [] else readSome s.waiting o.readChunkSize blocking
  | .pollAsyncPackets timed budget drained, expired, available, blocking =>
    let limit := min o.readChunkSize (max 1 (budget - drained))
    let data := transportRead s.waiting limit available
    if data ≠ [] then data
    else if ¬ timed ∨ expired then []
    else readSome s.waiting limit blocking

/-- How many bytes of the device's stream have been read when the step has read its chunk. -/
def frontier (o : Options) (s : Session) : Input → ℕ
  | .host (.read expired available blocking) =>
    match s.stack with
    | ⟨call, .looking⟩ :: _ => s.consumed + (chunk o s call expired available blocking).length
    | _ => s.consumed
  | _ => s.consumed

/-- How many of the device's frames end within these bytes. -/
def reach (o : Options) (s : Session) (i : Input) : ℕ := (complete s.sent (frontier o s i)).length

/-- The frame carries the number of the command and is no response to it. -/
def Mistaken (r : Rig) (number : ℕ) (arrival : Arrival) : Prop :=
  match r.origins[arrival.2]? with
  | some (.response other) => other ≠ number ∧ other % 65536 = number % 65536
  | some .unsolicited => arrival.1.seq = sequence number
  | none => False

/-- The chunk a loop reads completes no response to a call that the loop has interrupted; and no
call is about to take a frame that it mistakes for its response. -/
structure Undisturbed (o : Options) (r : Rig) (i : Input) : Prop where
  spares : ∀ number ∈ waiters r.session.stack.tail, ∀ place < reach o r.session i,
    r.session.decoded ≤ place → r.origins[place]? ≠ some (.response number)
  unmistaken : ∀ t ∈ taking r.session i, ¬ Mistaken r t.1 t.2

instance (r : Rig) (i : Input) : Decidable (Patient r i) := by
  unfold Patient
  split <;> infer_instance

instance (r : Rig) (number : ℕ) (arrival : Arrival) : Decidable (Mistaken r number arrival) := by
  unfold Mistaken
  split <;> infer_instance

instance (o : Options) (r : Rig) (i : Input) : Decidable (Undisturbed o r i) :=
  decidable_of_iff ((∀ number ∈ waiters r.session.stack.tail, ∀ place < reach o r.session i,
      r.session.decoded ≤ place → r.origins[place]? ≠ some (.response number)) ∧
    ∀ t ∈ taking r.session i, ¬ Mistaken r t.1 t.2)
    ⟨fun h => ⟨h.1, h.2⟩, fun h => ⟨h.spares, h.unmistaken⟩⟩

/-- The response has not been written, or not been decoded, or is among these packets. -/
def Ahead (r : Rig) (number : ℕ) (pending : List Arrival) : Prop :=
  (∃ c ∈ r.session.writtenCommands, c.1 = number) ∨
    ∃ place, r.origins[place]? = some (.response number) ∧
      (r.session.decoded ≤ place ∨ ∃ a ∈ pending, a.2 = place)

/-- The call has returned what the response to its own command says. -/
def Returned (r : Rig) (number : ℕ) : Prop :=
  ∃ a, (number, a) ∈ r.taken ∧ r.origins[a.2]? = some (.response number) ∧
    (number, commandResult a.1) ∈ r.session.finished

/-- All commands have been answered, all bytes read, and all that is left to the loops is to wait
for their deadlines. -/
structure Settled (r : Rig) : Prop where
  answered : r.session.writtenCommands = []
  read : r.session.waiting = []
  waiting : ∀ a ∈ r.session.stack.head?, a.phase = .looking ∧ waiters [a] ≠ []

/-- Every call that waits has its response ahead of it, every call that has waited has returned
its own response, and when nothing is left to come, none waits any more. -/
structure Served (r : Rig) : Prop where
  coming : ∀ a ∈ r.session.stack, ∀ number, a.call = .readResponse number →
    Ahead r number a.pending
  returned : ∀ number ∈ r.awaited, number ∈ waiters r.session.stack ∨ Returned r number
  settled : Settled r → ∀ number ∈ r.awaited, Returned r number

/-! ### What a run keeps -/

structure Steady (r : Rig) : Prop where
  onStream : r.session.OnStream
  places : r.origins.length = r.session.sent.length
  numbered : ∀ c ∈ r.session.queuedCommands ++ r.session.writtenCommands, c.2.seq = sequence c.1
  labelled : ∀ (place : ℕ) number p, r.origins[place]? = some (.response number) →
    r.session.sent[place]? = some p → p.seq = sequence number
  held : ∀ a ∈ r.session.stack, ∀ x ∈ a.pending, r.session.sent[x.2]? = some x.1
  coming : ∀ a ∈ r.session.stack, ∀ number, a.call = .readResponse number →
    Ahead r number a.pending
  returned : ∀ number ∈ r.awaited, number ∈ waiters r.session.stack ∨ Returned r number

theorem steady_initial : Steady {} where
  onStream := onStream_initial
  places := rfl
  numbered := by simp
  labelled := by simp
  held := by simp
  coming := by simp
  returned := by simp

theorem mem_waiters {stack : List Activity} {number : ℕ} :
    number ∈ waiters stack ↔ ∃ a ∈ stack, a.call = .readResponse number := by
  rw [waiters, List.mem_filterMap]
  constructor
  · rintro ⟨⟨call, phase⟩, ha, hcall⟩
    cases call with
    | readResponse m => exact ⟨_, ha, congrArg _ (Option.some.inj hcall)⟩
    | pollAsyncPackets timed budget drained => cases hcall
  · rintro ⟨⟨call, phase⟩, ha, rfl⟩
    exact ⟨_, ha, rfl⟩

section Device

variable {r : Rig} {o : Options}

theorem Steady.decoded_le (h : Steady r) : r.session.decoded ≤ r.origins.length := by
  rw [h.places]
  exact h.onStream.decoded_le

/-- A frame of the device stands behind all that has been decoded. -/
theorem Steady.send (h : Steady r) {p : Packet} (hp : Sendable p) {origin : Origin}
    {rest : List (ℕ × Packet)} (hrest : rest ⊆ r.session.writtenCommands)
    (hlabel : ∀ number, origin = .response number → p.seq = sequence number)
    (hanswered : ∀ c ∈ r.session.writtenCommands, c ∈ rest ∨ origin = .response c.1) :
    Steady { r with
      session := { r.session with writtenCommands := rest }.send p
      origins := r.origins ++ [origin] } where
  onStream := send_onStream (s := { r.session with writtenCommands := rest }) h.onStream ⟨p, hp⟩
  places := by simp [Session.send, h.places]
  numbered c hc := by
    refine h.numbered c ?_
    rcases List.mem_append.mp hc with hc | hc
    · exact List.mem_append_left _ hc
    · exact List.mem_append_right _ (hrest hc)
  labelled place number q hq hp := by
    simp only [Session.send] at hq hp
    rw [List.getElem?_append] at hq hp
    rw [h.places] at hq
    split_ifs at hq hp
    · exact h.labelled place number q hq hp
    · obtain rfl := List.mem_singleton.mp (List.mem_of_getElem? hp)
      exact hlabel number (List.mem_singleton.mp (List.mem_of_getElem? hq)).symm
  held a ha x hx := by
    have hold := h.held a ha x hx
    exact (List.getElem?_append_left (List.getElem?_eq_some_iff.mp hold).1).trans hold
  coming a ha number hcall := by
    rcases h.coming a ha number hcall with ⟨c, hc, rfl⟩ | ⟨place, hplace, hahead⟩
    · rcases hanswered c hc with hc | rfl
      · exact Or.inl ⟨c, hc, rfl⟩
      · exact Or.inr ⟨r.origins.length, by simp, Or.inl h.decoded_le⟩
    · refine Or.inr ⟨place, ?_, hahead⟩
      exact (List.getElem?_append_left (List.getElem?_eq_some_iff.mp hplace).1).trans hplace
  returned number hnumber := by
    refine (h.returned number hnumber).imp_right ?_
    rintro ⟨a, ha, horigin, hfinished⟩
    refine ⟨a, ha, ?_, hfinished⟩
    exact (List.getElem?_append_left (List.getElem?_eq_some_iff.mp horigin).1).trans horigin

end Device

section Host

variable {s t : Session} {o : Options} {call : Call} {below : List Activity}

/-- A loop of `t` is one of `s` with the packets it held, or holds none; then it belongs to a poll
or to a command that has just been written. -/
def Known (s t : Session) (b : Activity) : Prop :=
  (∃ a ∈ s.stack, a.call = b.call ∧ a.pending = b.pending) ∨
    b.pending = [] ∧ ∀ number, b.call = .readResponse number →
      ∃ c ∈ t.writtenCommands, c.1 = number

/-- Nothing is read or handed on, and no call stops waiting. -/
structure Keeps (s t : Session) : Prop where
  sent : t.sent = s.sent
  decoded : t.decoded = s.decoded
  numbered : (∀ c ∈ s.queuedCommands ++ s.writtenCommands, c.2.seq = sequence c.1) →
    ∀ c ∈ t.queuedCommands ++ t.writtenCommands, c.2.seq = sequence c.1
  written : s.writtenCommands ⊆ t.writtenCommands
  finished : s.finished ⊆ t.finished
  waiters : waiters s.stack ⊆ waiters t.stack
  stack : ∀ b ∈ t.stack, Known s t b

theorem keeps_stack (hstack : ∀ b ∈ t.stack, b ∈ s.stack) : ∀ b ∈ t.stack, Known s t b :=
  fun b hb => Or.inl ⟨b, hstack b hb, rfl, rfl⟩

theorem Keeps.refl (s : Session) : Keeps s s :=
  ⟨rfl, rfl, id, List.Subset.refl _, List.Subset.refl _, List.Subset.refl _,
    keeps_stack fun _ => id⟩

/-- A poll ends. -/
theorem keeps_drop {timed : Bool} {budget drained : ℤ} {phase : Phase}
    (hstack : s.stack = ⟨.pollAsyncPackets timed budget drained, phase⟩ :: below) :
    Keeps s { s with stack := below } := by
  refine ⟨rfl, rfl, id, List.Subset.refl _, List.Subset.refl _, ?_, keeps_stack fun b hb => ?_⟩
  · rw [hstack]
    exact List.Subset.refl _
  · rw [hstack]
    exact List.mem_cons_of_mem _ hb

/-- The queue moves to the line. -/
theorem flushed_keeps (s : Session) (client : Client) (writes : List (List UInt8)) :
    Keeps s (s.flushed client writes) where
  sent := rfl
  decoded := rfl
  numbered h c hc := by
    refine h c ?_
    rcases List.mem_append.mp hc with hc | hc
    · cases hc
    · exact List.mem_append.mpr (List.mem_append.mp hc).symm
  written := List.subset_append_left _ _
  finished := List.Subset.refl _
  waiters := List.Subset.refl _
  stack := keeps_stack fun _ => id

theorem settle_keeps {number : ℕ} {packet : Packet} (hseq : packet.seq = sequence number)
    (client : Client) (out : Issue) : Keeps s (s.settle (number, packet) client out) := by
  have hnew : (∀ c ∈ s.queuedCommands ++ s.writtenCommands, c.2.seq = sequence c.1) →
      ∀ c, c ∈ s.queuedCommands ∨ c ∈ s.writtenCommands ∨ c = (number, packet) →
        c.2.seq = sequence c.1 := by
    rintro h c (hc | hc | rfl)
    · exact h c (List.mem_append_left _ hc)
    · exact h c (List.mem_append_right _ hc)
    · exact hseq
  have hfinished : ∀ result, s.finished ⊆ s.finished ++ [(number, result)] :=
    fun _ => List.subset_append_left _ _
  cases out with
  | raised error =>
    exact ⟨rfl, rfl, id, List.Subset.refl _, hfinished _, List.Subset.refl _,
      keeps_stack fun _ => id⟩
  | queued writes =>
    cases writes with
    | none =>
      refine ⟨rfl, rfl, fun h c hc => hnew h c ?_, List.Subset.refl _, hfinished _,
        List.Subset.refl _, keeps_stack fun _ => id⟩
      simp only [Session.settle, Session.finish, List.mem_append, List.mem_singleton] at hc
      tauto
    | some writes =>
      refine ⟨rfl, rfl, fun h c hc => hnew h c ?_, List.subset_append_left _ _, hfinished _,
        List.Subset.refl _, keeps_stack fun _ => id⟩
      simp only [Session.settle, Session.finish, Session.flushed, List.mem_append,
        List.mem_singleton, List.nil_append] at hc
      tauto
  | sent encoded =>
    refine ⟨rfl, rfl, fun h c hc => hnew h c ?_, List.subset_append_left _ _, hfinished _,
      List.Subset.refl _, keeps_stack fun _ => id⟩
    simp only [Session.settle, Session.finish, List.mem_append, List.mem_singleton] at hc
    tauto
  | awaiting encoded =>
    refine ⟨rfl, rfl, fun h c hc => hnew h c ?_, List.subset_append_left _ _, List.Subset.refl _,
      List.subset_cons_self _ _, ?_⟩
    · simp only [Session.settle, List.mem_append, List.mem_singleton] at hc
      tauto
    · intro b hb
      rcases List.mem_cons.mp hb with rfl | hb
      · refine Or.inr ⟨rfl, fun m hm => ⟨(number, packet), ?_, ?_⟩⟩
        · exact List.mem_append_right _ (List.mem_singleton_self _)
        · exact Call.readResponse.inj hm
      · exact Or.inl ⟨b, hb, rfl, rfl⟩

theorem act_keeps (o : Options) (s : Session) (move : HostMove) : Keeps s (s.act o move) := by
  cases move with
  | command command payload expectResponse => exact settle_keeps rfl _ _
  | pollAsyncPackets timed maxBytes =>
    refine ⟨rfl, rfl, id, List.Subset.refl _, List.Subset.refl _, List.Subset.refl _, ?_⟩
    intro b hb
    rcases List.mem_cons.mp hb with rfl | hb
    · exact Or.inr ⟨rfl, nofun⟩
    · exact Or.inl ⟨b, hb, rfl, rfl⟩
  | endBatch =>
    simp only [Session.act]
    split
    · exact ⟨rfl, rfl, id, List.Subset.refl _, List.Subset.refl _, List.Subset.refl _,
        keeps_stack fun _ => id⟩
    · exact flushed_keeps s _ _
  | flush => exact flushed_keeps s _ _
  | _ =>
    exact ⟨rfl, rfl, id, List.Subset.refl _, List.Subset.refl _, List.Subset.refl _,
      keeps_stack fun _ => id⟩

theorem exhaust_keeps {inCallback : Bool}
    (hstack : s.stack = ⟨call, .delivering [] inCallback⟩ :: below) :
    Keeps s (s.exhaust call below) := by
  have hlook : Keeps s { s with stack := ⟨call, .looking⟩ :: below } := by
    refine ⟨rfl, rfl, id, List.Subset.refl _, List.Subset.refl _, ?_, ?_⟩
    · rw [hstack]
      exact List.Subset.refl _
    · intro b hb
      rcases List.mem_cons.mp hb with rfl | hb
      · exact Or.inl ⟨⟨call, .delivering [] inCallback⟩, hstack ▸ List.mem_cons_self, rfl, rfl⟩
      · exact Or.inl ⟨b, by rw [hstack]; exact List.mem_cons_of_mem _ hb, rfl, rfl⟩
  cases call with
  | readResponse number => exact hlook
  | pollAsyncPackets timed budget drained =>
    simp only [Session.exhaust]
    split_ifs
    · exact keeps_drop hstack
    · exact hlook

/-- The loop at the top reads a chunk; the packets it completes are in the loop's hands. -/
structure Reads (s : Session) (call : Call) (below : List Activity) (data : List UInt8)
    (t : Session) : Prop where
  consumed : t.consumed = s.consumed + data.length
  sent : t.sent = s.sent
  queued : t.queuedCommands = s.queuedCommands
  written : t.writtenCommands = s.writtenCommands
  finished : t.finished = s.finished
  stack : ∃ n new, t.stack = ⟨call.drain n, .delivering new false⟩ :: below ∧
    (∀ a ∈ new, s.sent[a.2]? = some a.1) ∧
    ∀ place, s.decoded ≤ place → place < t.decoded → ∃ a ∈ new, a.2 = place

theorem ingest_cases (h : s.OnStream) (call : Call) (below : List Activity) {data : List UInt8}
    (hdata : data <+: s.waiting) :
    Keeps s (s.ingest call below data) ∨ Reads s call below data (s.ingest call below data) := by
  by_cases hempty : data = []
  · rw [Session.ingest, if_pos hempty]
    exact Or.inl (.refl s)
  · obtain ⟨packets, hread⟩ := ingest_readIn h call below hempty hdata
    obtain ⟨hissued, hqueue, hline, hqueued, hwritten⟩ := ingest_outbox s call below data
    obtain ⟨fed, buffer, hfeed, -, -⟩ := feed_onStream h hdata
    have hquiet : (s.ingest call below data).consumed = s.consumed + data.length ∧
        (s.ingest call below data).finished = s.finished := by
      rw [Session.ingest, if_neg hempty, hfeed]
      exact ⟨rfl, rfl⟩
    obtain ⟨n, hloop⟩ := hread.stack
    refine Or.inr ⟨hquiet.1, hread.sent, hqueued, hwritten, hquiet.2, n, _, hloop, ?_, ?_⟩
    · rw [← hread.sent]
      exact hread.held
    · intro place hle hlt
      exact hread.covers h hle hlt

theorem look_cases (h : s.OnStream) (hstack : s.stack = ⟨call, .looking⟩ :: below)
    {expired : Bool} (hpatient : ∀ number, call = .readResponse number → expired = false)
    (available : ℕ) (blocking : ℕ × ℕ) :
    Keeps s (s.look o call below expired available blocking) ∨
      Reads s call below (chunk o s call expired available blocking)
        (s.look o call below expired available blocking) := by
  cases call with
  | readResponse number =>
    have hwaits : ¬ expired = true := by simp [hpatient number rfl]
    rw [Session.look, chunk, if_neg hwaits, if_neg hwaits]
    exact ingest_cases h _ below (readSome_taken ..)
  | pollAsyncPackets timed budget drained =>
    simp only [Session.look, chunk]
    split_ifs
    · exact ingest_cases h _ below (transportRead_taken ..)
    · exact Or.inl (keeps_drop hstack)
    · exact ingest_cases h _ below (readSome_taken ..)

/-- What a move of the host can be. -/
inductive Hosted (o : Options) (s : Session) (move : HostMove) : Session → Prop where
  | keeps {t : Session} : Keeps s t → Hosted o s move t
  | reads {call : Call} {below : List Activity} {data : List UInt8} {t : Session} :
      s.stack = ⟨call, .looking⟩ :: below → Reads s call below data t →
      frontier o s (.host move) = s.consumed + data.length → Hosted o s move t
  | answered {number : ℕ} {below : List Activity} {a : Arrival} {rest : List Arrival}
      {inCallback : Bool} :
      s.stack = ⟨.readResponse number, .delivering (a :: rest) inCallback⟩ :: below →
      taking s (.host move) = some (number, a) →
      Hosted o s move (s.answer (.readResponse number) below a.1)
  | handed {call : Call} {below : List Activity} {a : Arrival} {rest : List Arrival}
      {inCallback : Bool} : s.stack = ⟨call, .delivering (a :: rest) inCallback⟩ :: below →
      call.returns a.1 = false → Hosted o s move (s.hand o call below a rest)

theorem taking_seq {i : Input} {number : ℕ} {a : Arrival} (h : taking s i = some (number, a)) :
    a.1.seq = sequence number := by
  unfold taking at h
  split at h
  · split at h
    · split_ifs at h with hreturns
      obtain ⟨rfl, rfl⟩ := Prod.mk.inj (Option.some.inj h)
      exact eq_of_beq hreturns
    · cases h
  · cases h

theorem deliver_hosted {packets : List Arrival} {inCallback : Bool}
    (hstack : s.stack = ⟨call, .delivering packets inCallback⟩ :: below) :
    Hosted o s .next (s.deliver o call below packets) := by
  cases packets with
  | nil => exact .keeps (exhaust_keeps hstack)
  | cons a rest =>
    cases hreturns : call.returns a.1 with
    | true =>
      rw [Session.deliver, if_pos hreturns]
      cases call with
      | readResponse number =>
        refine .answered hstack ?_
        simp only [taking, hstack, if_pos hreturns]
      | pollAsyncPackets timed budget drained => cases hreturns
    | false =>
      rw [Session.deliver, if_neg (by simp [hreturns])]
      exact .handed hstack hreturns

theorem host_hosted {r : Rig} (h : r.session.OnStream) (move : HostMove)
    (hpatient : Patient r (.host move)) : Hosted o r.session move (r.session.host o move) := by
  unfold Session.host
  split
  · rename_i expired available blocking call below hstack
    have hcalm : ∀ number, call = .readResponse number → expired = false := by
      rintro number rfl
      refine hpatient ?_
      rw [hstack]
      exact List.cons_ne_nil _ _
    rcases look_cases h hstack hcalm available blocking with hkeeps | hreads
    · exact .keeps hkeeps
    · exact .reads hstack hreads (by simp only [frontier, hstack])
  · rename_i call packets inCallback below hstack
    exact deliver_hosted hstack
  · split_ifs
    · exact .keeps (act_keeps o _ _)
    · exact .keeps (.refl _)

end Host

section Run

variable {r : Rig} {o : Options} {move : HostMove} {call : Call} {below : List Activity} {n : ℕ}

theorem Ahead.mono {r' : Rig} {pending : List Arrival} (h : Ahead r n pending)
    (hwritten : r.session.writtenCommands ⊆ r'.session.writtenCommands)
    (horigins : r'.origins = r.origins) (hdecoded : r'.session.decoded = r.session.decoded) :
    Ahead r' n pending := by
  rcases h with ⟨c, hc, hnumber⟩ | ⟨place, hplace, hahead⟩
  · exact Or.inl ⟨c, hwritten hc, hnumber⟩
  · exact Or.inr ⟨place, horigins ▸ hplace, hdecoded ▸ hahead⟩

theorem Returned.mono {r' : Rig} (h : Returned r n) (htaken : r.taken ⊆ r'.taken)
    (horigins : r'.origins = r.origins)
    (hfinished : r.session.finished ⊆ r'.session.finished) : Returned r' n := by
  obtain ⟨a, ha, horigin, hresult⟩ := h
  exact ⟨a, htaken ha, horigins ▸ horigin, hfinished hresult⟩

theorem waiters_take (stack : List Activity) (n : ℕ) : waiters (stack.take n) ⊆ waiters stack := by
  intro m hm
  obtain ⟨a, ha, hcall⟩ := mem_waiters.mp hm
  exact mem_waiters.mpr ⟨a, List.mem_of_mem_take ha, hcall⟩

theorem Steady.keeps (h : Steady r) (hkeeps : Keeps r.session (r.session.host o move))
    (hstream : (r.session.host o move).OnStream) : Steady (r.host o move) where
  onStream := hstream
  places := h.places.trans (congrArg List.length hkeeps.sent).symm
  numbered := hkeeps.numbered h.numbered
  labelled place number p hplace hp := by
    refine h.labelled place number p hplace ?_
    rw [← hkeeps.sent]
    exact hp
  held b hb x hx := by
    change (r.session.host o move).sent[x.2]? = some x.1
    rw [hkeeps.sent]
    rcases hkeeps.stack b hb with ⟨a, ha, -, hpending⟩ | ⟨hempty, -⟩
    · exact h.held a ha x (hpending ▸ hx)
    · rw [hempty] at hx
      cases hx
  coming b hb number hcall := by
    rcases hkeeps.stack b hb with ⟨a, ha, hsame, hpending⟩ | ⟨-, hwritten⟩
    · rw [← hpending]
      exact (h.coming a ha number (hsame.trans hcall)).mono hkeeps.written rfl hkeeps.decoded
    · exact Or.inl (hwritten number hcall)
  returned number hnumber := by
    rcases List.mem_append.mp hnumber with hnumber | hnumber
    · refine (h.returned number hnumber).imp (fun hwaits => hkeeps.waiters hwaits) ?_
      intro hreturned
      exact hreturned.mono (List.subset_append_left _ _) rfl hkeeps.finished
    · exact Or.inl (waiters_take _ _ hnumber)

/-- A move after which the stack is no longer starts no call. -/
theorem begun_nil {t : Session} (hlength : t.stack.length ≤ r.session.stack.length) :
    waiters (t.stack.take (t.stack.length - r.session.stack.length)) = [] := by
  rw [Nat.sub_eq_zero_of_le hlength]
  rfl

theorem waiters_drain (call : Call) (k : ℕ) (phase other : Phase) (below : List Activity) :
    waiters (⟨call.drain k, phase⟩ :: below) = waiters (⟨call, other⟩ :: below) := by
  cases call <;> rfl

theorem Steady.reads (h : Steady r) (hstack : r.session.stack = ⟨call, .looking⟩ :: below)
    {data : List UInt8} (hreads : Reads r.session call below data (r.session.host o move))
    (hfrontier : frontier o r.session (.host move) = r.session.consumed + data.length)
    (hstream : (r.session.host o move).OnStream)
    (hcalm : Undisturbed o r (.host move)) : Steady (r.host o move) := by
  obtain ⟨k, new, hloop, hheld, hnew⟩ := hreads.stack
  have hspares : ∀ number ∈ waiters below, ∀ place < (r.session.host o move).decoded,
      r.session.decoded ≤ place → r.origins[place]? ≠ some (.response number) := by
    have hreach : reach o r.session (.host move) = (r.session.host o move).decoded := by
      rw [reach, hfrontier, ← hreads.consumed, ← hreads.sent, complete_eq hstream,
        List.length_take_of_le hstream.decoded_le]
    have hall := hcalm.spares
    rw [hstack, hreach] at hall
    exact hall
  have hlength : (r.session.host o move).stack.length = r.session.stack.length := by
    rw [hloop, hstack]
    rfl
  have hwaiters : waiters (r.session.host o move).stack = waiters r.session.stack := by
    rw [hloop, hstack]
    exact waiters_drain call k _ _ below
  have hbelow : ∀ a ∈ below, a ∈ r.session.stack := fun a ha => hstack ▸ List.mem_cons_of_mem _ ha
  constructor
  · exact hstream
  · exact h.places.trans (congrArg List.length hreads.sent).symm
  · intro c hc
    change c ∈ (r.session.host o move).queuedCommands ++ _ at hc
    refine h.numbered c ?_
    rw [← hreads.queued, ← hreads.written]
    exact hc
  · intro place number p hplace hp
    refine h.labelled place number p hplace ?_
    rw [← hreads.sent]
    exact hp
  · intro b hb x hx
    change b ∈ (r.session.host o move).stack at hb
    change (r.session.host o move).sent[x.2]? = some x.1
    rw [hloop] at hb
    rw [hreads.sent]
    rcases List.mem_cons.mp hb with rfl | hb
    · exact hheld x hx
    · exact h.held b (hbelow b hb) x hx
  · intro b hb number hcall
    change b ∈ (r.session.host o move).stack at hb
    rw [hloop] at hb
    rcases List.mem_cons.mp hb with rfl | hb
    · have hsame : call = .readResponse number := by
        cases call with
        | readResponse m => exact hcall
        | pollAsyncPackets timed budget drained => cases hcall
      rcases h.coming ⟨call, .looking⟩ (hstack ▸ List.mem_cons_self) number hsame with
        ⟨c, hc, hnumber⟩ | ⟨place, hplace, hahead⟩
      · exact Or.inl ⟨c, hreads.written.symm ▸ hc, hnumber⟩
      · refine Or.inr ⟨place, hplace, ?_⟩
        have hle : r.session.decoded ≤ place := hahead.resolve_right (by simp [Activity.pending])
        rcases Nat.lt_or_ge place (r.session.host o move).decoded with hlt | hge
        · exact Or.inr (hnew place hle hlt)
        · exact Or.inl hge
    · rcases h.coming b (hbelow b hb) number hcall with ⟨c, hc, hnumber⟩ | ⟨place, hplace, hahead⟩
      · exact Or.inl ⟨c, hreads.written.symm ▸ hc, hnumber⟩
      · refine Or.inr ⟨place, hplace, hahead.imp_left fun hle => ?_⟩
        refine Nat.le_of_not_lt fun hlt => ?_
        exact hspares number (mem_waiters.mpr ⟨b, hb, hcall⟩) place hlt hle hplace
  · intro number hnumber
    have hsubset : r.session.finished ⊆ (r.session.host o move).finished := by
      rw [hreads.finished]
      exact List.Subset.refl _
    change number ∈ r.awaited ++ _ at hnumber
    rw [begun_nil hlength.le, List.append_nil] at hnumber
    refine (h.returned number hnumber).imp (fun hwaits => hwaiters.symm ▸ hwaits) ?_
    intro hreturned
    exact hreturned.mono (List.subset_append_left _ _) rfl hsubset

/-- A frame that carries the number of a call is the response to it, if it is none that the call
mistakes for it. -/
theorem Steady.own_origin (h : Steady r) {a : Arrival} {rest : List Arrival} {inCallback : Bool}
    (hstack : r.session.stack = ⟨.readResponse n, .delivering (a :: rest) inCallback⟩ :: below)
    (htaking : taking r.session (.host move) = some (n, a))
    (hcalm : Undisturbed o r (.host move)) : r.origins[a.2]? = some (.response n) := by
  have hclear : ¬ Mistaken r n a := hcalm.unmistaken (n, a) htaking
  have hsent : r.session.sent[a.2]? = some a.1 := h.held _ (hstack ▸ List.mem_cons_self) a
    List.mem_cons_self
  have hseq : a.1.seq = sequence n := taking_seq htaking
  have hplace : a.2 < r.origins.length := h.places ▸ (List.getElem?_eq_some_iff.mp hsent).1
  cases horigin : r.origins[a.2]? with
  | none => exact absurd horigin (by simpa using hplace)
  | some origin =>
    rw [Mistaken, horigin] at hclear
    cases origin with
    | unsolicited => exact absurd hseq hclear
    | response other =>
      have hsame : other % 65536 = n % 65536 := by
        rw [← sequence_eq, ← sequence_eq, ← h.labelled a.2 other a.1 horigin hsent]
        exact hseq
      obtain rfl : other = n := by
        by_contra hne
        exact hclear ⟨hne, hsame⟩
      rfl

theorem Steady.answered (h : Steady r) {a : Arrival} {rest : List Arrival} {inCallback : Bool}
    (hstack : r.session.stack = ⟨.readResponse n, .delivering (a :: rest) inCallback⟩ :: below)
    (htaking : taking r.session (.host move) = some (n, a))
    (hhost : r.session.host o move = r.session.answer (.readResponse n) below a.1)
    (hcalm : Undisturbed o r (.host move)) : Steady (r.host o move) := by
  have horigin := h.own_origin hstack htaking hcalm
  have hbelow : ∀ b ∈ below, b ∈ r.session.stack := fun b hb => hstack ▸ List.mem_cons_of_mem _ hb
  have hsession : (r.host o move).session = r.session.answer (.readResponse n) below a.1 := hhost
  have hfinished : r.session.finished ⊆ (r.host o move).session.finished := by
    rw [hsession]
    exact List.subset_append_left _ _
  constructor
  · rw [hsession]
    exact h.onStream
  · rw [hsession]
    exact h.places
  · rw [hsession]
    exact h.numbered
  · rw [hsession]
    exact h.labelled
  · rw [hsession]
    exact fun b hb => h.held b (hbelow b hb)
  · intro b hb number hcall
    rw [hsession] at hb
    refine (h.coming b (hbelow b hb) number hcall).mono ?_ rfl ?_
    · rw [hsession]
      exact List.Subset.refl _
    · rw [hsession]
      rfl
  · intro number hnumber
    have hlength : (r.session.host o move).stack.length ≤ r.session.stack.length := by
      rw [hhost, hstack]
      exact Nat.le_succ _
    change number ∈ r.awaited ++ _ at hnumber
    rw [begun_nil hlength, List.append_nil] at hnumber
    rcases h.returned number hnumber with hwaits | hreturned
    · rw [hstack] at hwaits
      rcases List.mem_cons.mp hwaits with rfl | hwaits
      · refine Or.inr ⟨a, ?_, horigin, ?_⟩
        · change _ ∈ r.taken ++ _
          rw [htaking]
          exact List.mem_append_right _ (List.mem_singleton_self _)
        · rw [hsession]
          exact List.mem_append_right _ (List.mem_singleton_self _)
      · rw [hsession]
        exact Or.inl hwaits
    · exact Or.inr (hreturned.mono (List.subset_append_left _ _) rfl hfinished)

theorem Steady.handed (h : Steady r) {a : Arrival} {rest : List Arrival} {inCallback : Bool}
    (hstack : r.session.stack = ⟨call, .delivering (a :: rest) inCallback⟩ :: below)
    (hreturns : call.returns a.1 = false)
    (hhost : r.session.host o move = r.session.hand o call below a rest)
    (hstream : (r.session.host o move).OnStream) : Steady (r.host o move) := by
  have hbelow : ∀ b ∈ below, b ∈ r.session.stack := fun b hb => hstack ▸ List.mem_cons_of_mem _ hb
  have htop : ⟨call, .delivering (a :: rest) inCallback⟩ ∈ r.session.stack :=
    hstack ▸ List.mem_cons_self
  have hsession : (r.host o move).session = r.session.hand o call below a rest := hhost
  have hdecoded : (r.host o move).session.decoded = r.session.decoded := by
    rw [hsession]
    rfl
  have hwritten : (r.host o move).session.writtenCommands = r.session.writtenCommands := by
    rw [hsession]
    rfl
  have hloops : (r.host o move).session.stack =
      ⟨call, .delivering rest (wanted a.1)⟩ :: below := by
    rw [hsession]
    rfl
  constructor
  · exact hstream
  · rw [hsession]
    exact h.places
  · rw [hsession]
    exact h.numbered
  · rw [hsession]
    exact h.labelled
  · intro b hb x hx
    rw [hloops] at hb
    rw [hsession]
    rcases List.mem_cons.mp hb with rfl | hb
    · exact h.held _ htop x (List.mem_cons_of_mem a hx)
    · exact h.held b (hbelow b hb) x hx
  · intro b hb number hcall
    rw [hloops] at hb
    rcases List.mem_cons.mp hb with rfl | hb
    · have hold := h.coming _ htop number hcall
      have hshorter : Ahead r number rest := by
        refine hold.imp_right ?_
        rintro ⟨place, hplace, hahead⟩
        refine ⟨place, hplace, hahead.imp_right ?_⟩
        rintro ⟨x, hx, rfl⟩
        rcases List.mem_cons.mp hx with rfl | hx
        · -- the packet handed on carries another number, so it is not the response
          obtain rfl : call = .readResponse number := hcall
          have hseq := h.labelled x.2 number x.1 hplace (h.held _ htop x List.mem_cons_self)
          simp [Call.returns, hseq] at hreturns
        · exact ⟨x, hx, rfl⟩
      exact hshorter.mono (hwritten ▸ List.Subset.refl _) rfl hdecoded
    · exact (h.coming b (hbelow b hb) number hcall).mono (hwritten ▸ List.Subset.refl _) rfl
        hdecoded
  · intro number hnumber
    have hlength : (r.session.host o move).stack.length ≤ r.session.stack.length := by
      rw [hhost, hstack]
      exact le_rfl
    change number ∈ r.awaited ++ _ at hnumber
    rw [begun_nil hlength, List.append_nil] at hnumber
    refine (h.returned number hnumber).imp (fun hwaits => ?_) fun hreturned => ?_
    · rw [hloops]
      rw [hstack] at hwaits
      exact hwaits
    · refine hreturned.mono (List.subset_append_left _ _) rfl ?_
      rw [hsession]
      exact List.Subset.refl _

theorem Steady.host (h : Steady r) (hpatient : Patient r (.host move))
    (hcalm : Undisturbed o r (.host move)) : Steady (r.host o move) := by
  have hstream : (r.session.host o move).OnStream :=
    stepped_onStream (step_stepped o r.session (.host move)) h.onStream
  have hhosted := host_hosted (o := o) h.onStream move hpatient
  generalize htarget : r.session.host o move = t at hhosted
  cases hhosted with
  | keeps hkeeps => exact h.keeps (htarget ▸ hkeeps) hstream
  | reads hstack hreads hfrontier =>
    exact h.reads hstack (htarget ▸ hreads) hfrontier hstream hcalm
  | answered hstack htaking => exact h.answered hstack htaking htarget hcalm
  | handed hstack hreturns => exact h.handed hstack hreturns htarget hstream

theorem Steady.step (h : Steady r) {i : Input} (hpatient : Patient r i)
    (hcalm : Undisturbed o r i) : Steady (r.step o i) := by
  cases i with
  | host move => exact h.host hpatient hcalm
  | answer type payload =>
    simp only [Rig.step]
    split
    · exact h
    · rename_i c rest hwritten
      have hseq : c.2.seq = sequence c.1 :=
        h.numbered c (List.mem_append_right _ (hwritten ▸ List.mem_cons_self))
      refine h.send ⟨?_, payload.2⟩ ?_ ?_ ?_
      · rw [hseq]
        exact sequence_lt c.1
      · rw [hwritten]
        exact List.subset_cons_self c rest
      · intro number hnumber
        rw [hseq, Origin.response.inj hnumber]
      · intro d hd
        rw [hwritten] at hd
        rcases List.mem_cons.mp hd with rfl | hd
        · exact Or.inr rfl
        · exact Or.inl hd
  | volunteer packet =>
    exact h.send packet.2 (List.Subset.refl _) nofun fun c hc => Or.inl hc

/-- A reader that has been given all bytes has decoded all frames. -/
theorem read_all {s : Session} (h : s.OnStream) (hempty : s.waiting = []) :
    s.decoded = s.sent.length := by
  refine Nat.le_antisymm h.decoded_le (Nat.le_of_not_lt fun hlt => ?_)
  have hstream := h.stream
  have hshort := h.short
  rw [hempty, List.append_nil] at hstream
  rw [List.drop_eq_getElem_cons hlt] at hstream hshort
  have hless := hshort _ rfl
  rw [hstream, List.flatMap_cons, List.length_append] at hless
  omega

theorem Steady.served (h : Steady r) : Served r where
  coming := h.coming
  returned := h.returned
  settled hsettled number hnumber := by
    refine (h.returned number hnumber).resolve_left fun hwaits => ?_
    cases hstack : r.session.stack with
    | nil =>
      rw [hstack] at hwaits
      cases hwaits
    | cons a below =>
      have htop : a ∈ r.session.stack := hstack ▸ List.mem_cons_self
      obtain ⟨hlooking, hwaiting⟩ := hsettled.waiting a (by rw [hstack]; rfl)
      obtain ⟨m, hm⟩ := List.exists_mem_of_ne_nil _ hwaiting
      obtain ⟨b, hb, hcall⟩ := mem_waiters.mp hm
      obtain rfl := List.mem_singleton.mp hb
      rcases h.coming b htop m hcall with ⟨c, hc, -⟩ | ⟨place, hplace, hle | ⟨x, hx, -⟩⟩
      · rw [hsettled.answered] at hc
        cases hc
      · have hlt := (List.getElem?_eq_some_iff.mp hplace).1
        rw [h.places, ← read_all h.onStream hsettled.read] at hlt
        omega
      · rw [Activity.pending, hlooking] at hx
        cases hx

end Run

/-- Given enough time every call returns its own response: in every run in which no deadline
passes, no loop run from a callback reads away the response to a call it has interrupted, and no
call meets another frame of its number. -/
theorem callbacks_served (o : Options) (inputs : List Input)
    (hpatient : EachStep (Rig.step o) Patient {} inputs)
    (hcalm : EachStep (Rig.step o) (Undisturbed o) {} inputs) :
    EachState (Rig.step o) Served {} inputs := by
  have hboth : EachStep (Rig.step o) (fun r i => Patient r i ∧ Undisturbed o r i) {} inputs :=
    eachStep_and.mpr ⟨hpatient, hcalm⟩
  exact eachState_of_eachStep (I := Steady) (fun _ _ h hg => h.step hg.1 hg.2)
    (fun _ h => h.served) steady_initial hboth

def sampleTelemetry : {p : Packet // Sendable p} :=
  ⟨⟨.telemetry, 0, [1, 5, 1, 0, 0, 0]⟩, by decide, by decide⟩

/-- The response to the heartbeat comes in one chunk with the telemetry frame whose callback
writes a pin. -/
def sameChunk : List Input :=
  [.host (.command .heartbeat [] true), .volunteer sampleTelemetry,
    .answer .ack ⟨[0], by decide⟩, .host (.read false 0 (1, 4096)), .host .next,
    .host (.command .digitalWrite [13, 1] true), .answer .ack ⟨[0], by decide⟩,
    .host (.read false 0 (1, 4096)), .host .next, .host .next]

theorem same_chunk_served :
    let r := after (Rig.step {}) {} sameChunk
    r.awaited = [1, 2] ∧ r.session.finished = [(2, .ok []), (1, .ok [])] ∧
      ∀ number ∈ r.awaited, Returned r number := by
  intro r
  have hserved : Served r :=
    eachState_after (callbacks_served {} sameChunk (by decide +kernel) (by decide +kernel))
  refine ⟨by decide +kernel, by decide +kernel, hserved.settled ⟨?_, ?_, ?_⟩⟩
  · decide +kernel
  · decide +kernel
  · have hstack : r.session.stack = [] := by decide +kernel
    rw [hstack]
    exact nofun

/-- The telemetry frame comes alone: its callback writes a pin before the response to the
heartbeat has been read. -/
def laterChunk : List Input :=
  [.host (.command .heartbeat [] true), .volunteer sampleTelemetry,
    .host (.read false 0 (1, 4096)), .host .next, .host (.command .digitalWrite [13, 1] true),
    .answer .ack ⟨[0], by decide⟩, .answer .ack ⟨[0], by decide⟩,
    .host (.read false 0 (1, 4096)), .host .next, .host .next, .host .next]

/-- Both commands have been answered and all bytes read, and the heartbeat waits for a response
that will not come. -/
theorem later_chunk_starves :
    let r := after (Rig.step {}) {} laterChunk
    Settled r ∧ r.awaited = [1, 2] ∧ r.session.stack = [⟨.readResponse 1, .looking⟩] ∧
      r.session.finished = [(2, .ok [])] ∧ EachStep (Rig.step {}) Patient {} laterChunk ∧
      ¬ EachState (Rig.step {}) Served {} laterChunk := by
  intro r
  have hstack : r.session.stack = [⟨.readResponse 1, .looking⟩] := by decide +kernel
  have hawaited : r.awaited = [1, 2] := by decide +kernel
  have hfinished : r.session.finished = [(2, .ok [])] := by decide +kernel
  have hsettled : Settled r := by
    refine ⟨by decide +kernel, by decide +kernel, ?_⟩
    rw [hstack]
    intro a ha
    obtain rfl := Option.some.inj ha
    exact ⟨rfl, List.cons_ne_nil _ _⟩
  refine ⟨hsettled, hawaited, hstack, hfinished, by decide +kernel, fun hstates => ?_⟩
  obtain ⟨a, -, -, hresult⟩ := (eachState_after hstates).settled hsettled 1 (by
    change 1 ∈ r.awaited
    rw [hawaited]
    exact List.mem_cons_self)
  change _ ∈ r.session.finished at hresult
  rw [hfinished] at hresult
  cases List.mem_singleton.mp hresult

end CallbackCommands
