import TeensyIo.DeviceLink
import TeensyIo.RequestLayouts

/-! # The client on many threads

`_command`, `begin_batch`, `flush`, `batch` and `_read_response` as sequences of sections, each
under `_lock`, under `_transport_lock` or under none. A thread is the stack of the places at
which its calls stand; a callback calls the client again from within a wait. The frames go to
the firmware one by one, and whatever it writes comes back frame by frame. What other threads
do to the incoming bytes appears as frames that are lost or pieced together wrongly. -/
namespace ClientThreads

open WireCommands HostProtocol HostClient FirmwareState FirmwareUpdate FirmwareResponses
open FirmwareRequests RequestLayouts DeviceLink MachineRuns

/-- A call of `_command`. `older` are the calls that had returned normally when it began, and
`depth` is the batch depth it finds when it chooses its route. -/
structure Call where
  number : ℕ
  command : CommandId
  payload : List UInt8
  expectResponse : Bool
  encoded : List UInt8
  older : List ℕ
  depth : ℤ := 0
  deriving DecidableEq

/-- `should_queue`. -/
def Call.Queues (o : Options) (c : Call) : Prop :=
  0 < c.depth ∨ (o.flushRateHz.isSome ∧ ¬ c.expectResponse)

instance (o : Options) (c : Call) : Decidable (c.Queues o) := inferInstanceAs (Decidable (_ ∨ _))

/-- The packet the firmware's parser emits for the frame. -/
def Call.packet (c : Call) : FirmwareProtocol.Packet :=
  FirmwareDevice.commandPacket (UInt16.ofNat (sequence c.number)) (c.command.toByte :: c.payload)

/-- Where an incoming frame comes from. -/
inductive Source where
  | response (call : Call)
  | unsolicited
  | garbled
  deriving DecidableEq

/-- The end of a call: what it returns or raises, and the frame it took for its response. -/
structure Return where
  call : Call
  result : Except PyError (List UInt8)
  taken : Option (Packet × Source) := none
  deriving DecidableEq

/-- The section a call comes to next. The transport lock is held in `awaiting` and `flushing`;
a flush is made for a call that has queued its frame, or for none. -/
inductive Point where
  | deciding (c : Call)
  | queueing (c : Call)
  | queued (c : Call)
  | writing (c : Call)
  | awaiting (c : Call) (inCallback : Bool)
  | entering (cause : Option Call)
  | flushing (cause : Option Call)
  deriving DecidableEq

/-- `lock` holds one entry for each time the owner of `_transport_lock` has entered it. -/
structure Crew where
  issued : ℕ := 0
  batchDepth : ℤ := 0
  queued : List Call := []
  queuedBytes : ℤ := 0
  lock : List ℕ := []
  threads : ℕ → List Point := fun _ => []
  /-- The frames in the order in which the transport was given them. -/
  written : List Call := []
  /-- Those the device has not taken yet. -/
  wire : List Call := []
  device : State := {}
  incoming : List (Packet × Source) := []
  returns : List Return := []

/-- What a program starts on a free thread. The thread of `_start_auto_flush` flushes. -/
inductive Action where
  | invoke (command : CommandId) (payload : List UInt8) (expectResponse : Bool)
  | beginBatch
  | endBatch
  | flush
  deriving DecidableEq

inductive Move where
  | act (t : ℕ) (action : Action)
  | proceed (t : ℕ)
  | receive (t : ℕ)
  | fail (t : ℕ) (error : PyError)
  | takeCommand (env : Env)
  | update (env : Env)
  | counterTick (env : Env) (id : UInt8)
  | encoderTick (env : Env) (id : UInt8)
  | lose
  | garble (packet : Packet)

/-- The thread is in the program's own code or in a callback. -/
def Free : List Point → Prop
  | [] => True
  | .awaiting _ inCallback :: _ => inCallback = true
  | _ => False

instance (stack : List Point) : Decidable (Free stack) := by
  unfold Free
  split <;> infer_instance

namespace Crew

def put (s : Crew) (t : ℕ) (stack : List Point) : Crew :=
  { s with threads := Function.update s.threads t stack }

/-- The lock is free or the thread's own. -/
def MayEnter (s : Crew) (t : ℕ) : Prop := ∀ u ∈ s.lock, u = t

instance (s : Crew) (t : ℕ) : Decidable (s.MayEnter t) := inferInstanceAs (Decidable (∀ _ ∈ _, _))

def enter (s : Crew) (t : ℕ) : Crew := { s with lock := t :: s.lock }

def leave (s : Crew) : Crew := { s with lock := s.lock.tail }

def finish (s : Crew) (t : ℕ) (below : List Point) (r : Return) : Crew :=
  { s.put t below with returns := s.returns ++ [r] }

/-- The numbers of the calls that have returned without an exception. -/
def returned (s : Crew) : List ℕ :=
  (s.returns.filter fun r => r.result.isOk).map fun r => r.call.number

def transmit (s : Crew) (calls : List Call) : Crew :=
  { s with written := s.written ++ calls, wire := s.wire ++ calls }

/-- How many packets the next chunk of `flush` takes. -/
def chunkCount (o : Options) (queued : List Call) : ℕ :=
  queued.length - (takeChunk o.flushChunkSize (queued.map Call.encoded)).2.length

def flushChunk (o : Options) (s : Crew) : Crew :=
  let chunk := s.queued.take (chunkCount o s.queued)
  { s with
    queued := s.queued.drop (chunkCount o s.queued)
    queuedBytes := s.queuedBytes - (chunk.flatMap Call.encoded).length }.transmit chunk

def invoke (s : Crew) (t : ℕ) (command : CommandId) (payload : List UInt8)
    (expectResponse : Bool) : Crew :=
  let number := s.issued + 1
  let stack := s.threads t
  let older := s.returned
  let s := { s with issued := number }
  match encodePacket (commandPacket number command payload) with
  | .error error =>
    s.finish t stack ⟨⟨number, command, payload, expectResponse, [], older, 0⟩, .error error, none⟩
  | .ok encoded =>
    s.put t (.deciding ⟨number, command, payload, expectResponse, encoded, older, 0⟩ :: stack)

/-- The next section of the call at the top of the stack; none while the lock is another's. -/
def proceed (o : Options) (s : Crew) (t : ℕ) : List Point → Crew
  | .deciding c :: below =>
    let c := { c with depth := s.batchDepth }
    s.put t ((if c.Queues o then .queueing c else .writing c) :: below)
  | .queueing c :: below =>
    let nextSize := s.queuedBytes + c.encoded.length
    if o.queueMaxBytes.any (· < nextSize) then s.finish t below ⟨c, .error .queueFullError, none⟩
    else { s with queued := s.queued ++ [c], queuedBytes := nextSize }.put t (.queued c :: below)
  | .queued c :: below =>
    if o.autoFlush ∧ ¬ o.flushes ∧ s.batchDepth = 0 then s.put t (.entering (some c) :: below)
    else s.finish t below ⟨c, .ok [], none⟩
  | .writing c :: below =>
    if s.MayEnter t then
      if c.expectResponse then ((s.transmit [c]).enter t).put t (.awaiting c false :: below)
      else (s.transmit [c]).finish t below ⟨c, .ok [], none⟩
    else s
  | .entering cause :: below =>
    if s.MayEnter t then (s.enter t).put t (.flushing cause :: below) else s
  | .flushing cause :: below =>
    if s.queued ≠ [] then s.flushChunk o
    else
      match cause with
      | some c => s.leave.finish t below ⟨c, .ok [], none⟩
      | none => s.leave.put t below
  | _ => s

/-- One packet of the loop in `_read_response`. -/
def receive (s : Crew) (t : ℕ) : List Point → List (Packet × Source) → Crew
  | .awaiting c _ :: below, arrival :: rest =>
    let s := { s with incoming := rest }
    if arrival.1.seq = sequence c.number then
      s.leave.finish t below ⟨c, commandResult arrival.1, some arrival⟩
    else s.put t (.awaiting c (wanted arrival.1) :: below)
  | _, _ => s

/-- An exception ends the wait: the deadline has passed, or a callback or `feed` has raised. -/
def fail (s : Crew) (t : ℕ) (error : PyError) : List Point → Crew
  | .awaiting c _ :: below => s.leave.finish t below ⟨c, .error error, none⟩
  | _ => s

/-- The frames of one call into the firmware. -/
def respond (s : Crew) (source : Source) (out : Outcome) : Crew :=
  { s with
    device := out.1
    incoming := s.incoming ++ (framesWritten out.2).map fun w => (hostPacket w, source) }

def act (s : Crew) (t : ℕ) : Action → Crew
  | .invoke command payload expectResponse => s.invoke t command payload expectResponse
  | .beginBatch => { s with batchDepth := s.batchDepth + 1 }
  | .endBatch =>
    let s := { s with batchDepth := s.batchDepth - 1 }
    if s.batchDepth = 0 then s.put t (.entering none :: s.threads t) else s
  | .flush => s.put t (.entering none :: s.threads t)

/-- A move that is not possible changes nothing. -/
def step (b : Board) (o : Options) (s : Crew) : Move → Crew
  | .act t action => if Free (s.threads t) then s.act t action else s
  | .proceed t => s.proceed o t (s.threads t)
  | .receive t => s.receive t (s.threads t) s.incoming
  | .fail t error => s.fail t error (s.threads t)
  | .takeCommand env =>
    match s.wire with
    | [] => s
    | c :: rest =>
      { s with wire := rest }.respond (.response c)
        (FirmwareCommands.handle b env s.device c.packet)
  | .update env => s.respond .unsolicited (update b env s.device)
  | .counterTick env id => { s with device := counterTick env s.device id }
  | .encoderTick env id => { s with device := encoderTick env s.device id }
  | .lose => { s with incoming := s.incoming.tail }
  | .garble packet => { s with incoming := (packet, .garbled) :: s.incoming }

end Crew

@[simp] theorem put_threads_self (s : Crew) (t : ℕ) (stack : List Point) :
    (s.put t stack).threads t = stack := Function.update_self ..

theorem put_threads_of_ne (s : Crew) {t u : ℕ} (hu : u ≠ t) (stack : List Point) :
    (s.put t stack).threads u = s.threads u := Function.update_of_ne hu ..

/-! ### What a run keeps -/

/-- The firmware writes the frame when it handles the call's command. -/
inductive Answered (b : Board) (c : Call) : Packet → Prop where
  | handled {env : Env} {device : State} {w : Written} :
      w ∈ framesWritten (FirmwareCommands.handle b env device c.packet).2 →
      Answered b c (hostPacket w)

/-- A response answers a command that has been sent. -/
def Genuine (b : Board) (written : List Call) (arrival : Packet × Source) : Prop :=
  ∀ c, arrival.2 = .response c → c ∈ written ∧ Answered b c arrival.1

/-- What a place in the code says about the call that stands there. -/
def Point.Sound (o : Options) (written : List Call) : Point → Prop
  | .deciding _ => True
  | .queueing c => c.Queues o
  | .queued c => c.Queues o
  | .writing c => ¬ c.Queues o
  | .awaiting c _ => ¬ c.Queues o ∧ c.expectResponse = true ∧ c ∈ written
  | .entering cause => ∀ c ∈ cause, c.Queues o
  | .flushing cause => ∀ c ∈ cause, c.Queues o

/-- The ways in which a call ends. -/
inductive Ended (b : Board) (o : Options) (written : List Call) : Return → Prop where
  | raised {c : Call} (error : PyError) : Ended b o written ⟨c, .error error, none⟩
  | queued {c : Call} : c.Queues o → Ended b o written ⟨c, .ok [], none⟩
  | sent {c : Call} : ¬ c.Queues o → c.expectResponse = false → c ∈ written →
      Ended b o written ⟨c, .ok [], none⟩
  | answered {c : Call} {arrival : Packet × Source} : ¬ c.Queues o → c.expectResponse = true →
      c ∈ written → arrival.1.seq = sequence c.number → Genuine b written arrival →
      Ended b o written ⟨c, commandResult arrival.1, some arrival⟩

structure Traced (b : Board) (o : Options) (s : Crew) : Prop where
  wire : ∀ c ∈ s.wire, c ∈ s.written
  incoming : ∀ arrival ∈ s.incoming, Genuine b s.written arrival
  points : ∀ t, ∀ x ∈ s.threads t, x.Sound o s.written
  returns : ∀ r ∈ s.returns, Ended b o s.written r

theorem traced_initial (b : Board) (o : Options) : Traced b o {} where
  wire := by simp
  incoming := by simp
  points := by simp
  returns := by simp

theorem Call.packet_bytes {c : Call} (hlength : c.payload.length < maxPayloadSize) :
    c.packet.bytes = c.command.toByte :: c.payload :=
  FirmwareDevice.commandPacket_bytes _ hlength

/-- The firmware executes the request a frame is laid out for. -/
theorem Call.handle_laid (c : Call) {r : Request} (hl : Laid r c.command c.payload)
    (hlength : c.payload.length < maxPayloadSize) (b : Board) (env : Env) (device : State) :
    FirmwareCommands.handle b env device c.packet = execute b env device c.packet.seq r := by
  rw [handle_eq, decode_laid hl rfl (Call.packet_bytes hlength), answer]

section Steps

variable {b : Board} {o : Options} {s : Crew} {written more : List Call}

theorem Genuine.mono (hsub : written ⊆ more) {arrival : Packet × Source}
    (h : Genuine b written arrival) : Genuine b more arrival :=
  fun c hc => ⟨hsub (h c hc).1, (h c hc).2⟩

theorem Point.Sound.mono (hsub : written ⊆ more) {x : Point} (h : x.Sound o written) :
    x.Sound o more := by
  cases x with
  | awaiting c inCallback => exact ⟨h.1, h.2.1, hsub h.2.2⟩
  | _ => exact h

theorem Ended.mono (hsub : written ⊆ more) {r : Return} (h : Ended b o written r) :
    Ended b o more r := by
  cases h with
  | raised error => exact .raised error
  | queued hq => exact .queued hq
  | sent hq he hc => exact .sent hq he (hsub hc)
  | answered hq he hc hseq hgenuine => exact .answered hq he (hsub hc) hseq (hgenuine.mono hsub)

theorem Traced.put (h : Traced b o s) (t : ℕ) {stack : List Point}
    (hstack : ∀ x ∈ stack, x.Sound o s.written) : Traced b o (s.put t stack) where
  wire := h.wire
  incoming := h.incoming
  points u x hx := by
    by_cases hu : u = t
    · subst u
      rw [put_threads_self] at hx
      exact hstack x hx
    · rw [put_threads_of_ne s hu] at hx
      exact h.points u x hx
  returns := h.returns

theorem Traced.finish (h : Traced b o s) (t : ℕ) {below : List Point}
    (hbelow : ∀ x ∈ below, x.Sound o s.written) {r : Return} (hr : Ended b o s.written r) :
    Traced b o (s.finish t below r) where
  wire := h.wire
  incoming := h.incoming
  points := (h.put t hbelow).points
  returns q hq := by
    rcases List.mem_append.mp hq with hq | hq
    · exact h.returns q hq
    · obtain rfl := List.mem_singleton.mp hq
      exact hr

theorem Traced.transmit (h : Traced b o s) (calls : List Call) :
    Traced b o (s.transmit calls) := by
  have hsub : s.written ⊆ s.written ++ calls := List.subset_append_left _ _
  constructor
  · intro c hc
    rcases List.mem_append.mp hc with hc | hc
    · exact hsub (h.wire c hc)
    · exact List.mem_append_right _ hc
  · exact fun arrival ha => (h.incoming arrival ha).mono hsub
  · exact fun t x hx => (h.points t x hx).mono hsub
  · exact fun r hr => (h.returns r hr).mono hsub

theorem Traced.enter (h : Traced b o s) (t : ℕ) : Traced b o (s.enter t) :=
  ⟨h.wire, h.incoming, h.points, h.returns⟩

theorem Traced.leave (h : Traced b o s) : Traced b o s.leave :=
  ⟨h.wire, h.incoming, h.points, h.returns⟩

theorem Traced.respond (h : Traced b o s) {source : Source} {out : Outcome}
    (hsource : ∀ w ∈ framesWritten out.2, Genuine b s.written (hostPacket w, source)) :
    Traced b o (s.respond source out) where
  wire := h.wire
  incoming arrival ha := by
    rcases List.mem_append.mp ha with ha | ha
    · exact h.incoming arrival ha
    · obtain ⟨w, hw, rfl⟩ := List.mem_map.mp ha
      exact hsource w hw
  points := h.points
  returns := h.returns

theorem Traced.flushChunk (h : Traced b o s) : Traced b o (s.flushChunk o) :=
  Traced.transmit (s := { s with
    queued := s.queued.drop (Crew.chunkCount o s.queued)
    queuedBytes := _ }) ⟨h.wire, h.incoming, h.points, h.returns⟩ _

theorem Traced.invoke (h : Traced b o s) (t : ℕ) (command : CommandId) (payload : List UInt8)
    (expectResponse : Bool) : Traced b o (s.invoke t command payload expectResponse) := by
  have hcounted : Traced b o { s with issued := s.issued + 1 } :=
    ⟨h.wire, h.incoming, h.points, h.returns⟩
  unfold Crew.invoke
  dsimp only
  split
  · exact hcounted.finish t (h.points t) (.raised _)
  · refine hcounted.put t fun x hx => ?_
    rcases List.mem_cons.mp hx with rfl | hx
    · trivial
    · exact h.points t x hx

theorem Traced.act (h : Traced b o s) (t : ℕ) (action : Action) : Traced b o (s.act t action) := by
  have hflush : ∀ x ∈ Point.entering none :: s.threads t, x.Sound o s.written := by
    intro x hx
    rcases List.mem_cons.mp hx with rfl | hx
    · simp [Point.Sound]
    · exact h.points t x hx
  cases action with
  | invoke command payload expectResponse => exact h.invoke t command payload expectResponse
  | beginBatch => exact ⟨h.wire, h.incoming, h.points, h.returns⟩
  | endBatch =>
    have hdepth : Traced b o { s with batchDepth := s.batchDepth - 1 } :=
      ⟨h.wire, h.incoming, h.points, h.returns⟩
    simp only [Crew.act]
    split_ifs
    · exact hdepth.put t hflush
    · exact hdepth
  | flush => exact h.put t hflush

theorem Traced.proceed (h : Traced b o s) (t : ℕ) {stack : List Point}
    (hstack : s.threads t = stack) : Traced b o (s.proceed o t stack) := by
  have hsound : ∀ x ∈ stack, x.Sound o s.written := hstack ▸ h.points t
  cases stack with
  | nil => exact h
  | cons x below =>
    have hx := hsound x List.mem_cons_self
    have hbelow : ∀ y ∈ below, y.Sound o s.written :=
      fun y hy => hsound y (List.mem_cons_of_mem x hy)
    cases x with
    | deciding c =>
      refine h.put t fun y hy => ?_
      rcases List.mem_cons.mp hy with rfl | hy
      · split_ifs with hq
        · exact hq
        · exact hq
      · exact hbelow y hy
    | queueing c =>
      simp only [Crew.proceed]
      split_ifs
      · exact h.finish t hbelow (.raised _)
      · have hqueued : Traced b o { s with
            queued := s.queued ++ [c], queuedBytes := s.queuedBytes + c.encoded.length } :=
          ⟨h.wire, h.incoming, h.points, h.returns⟩
        exact hqueued.put t (List.forall_mem_cons.mpr ⟨hx, hbelow⟩)
    | queued c =>
      simp only [Crew.proceed]
      split_ifs
      · refine h.put t (List.forall_mem_cons.mpr ⟨?_, hbelow⟩)
        rintro d hd
        obtain rfl := Option.some.inj hd
        exact hx
      · exact h.finish t hbelow (.queued hx)
    | writing c =>
      have hsent := h.transmit [c]
      have hc : c ∈ (s.transmit [c]).written := List.mem_append_right _ (List.mem_singleton_self c)
      have hbelow' : ∀ y ∈ below, y.Sound o (s.transmit [c]).written :=
        fun y hy => (hbelow y hy).mono (List.subset_append_left _ _)
      simp only [Crew.proceed]
      split_ifs with _ hexpect
      · exact (hsent.enter t).put t (List.forall_mem_cons.mpr ⟨⟨hx, hexpect, hc⟩, hbelow'⟩)
      · exact hsent.finish t hbelow' (.sent hx (by simpa using hexpect) hc)
      · exact h
    | awaiting c inCallback => exact h
    | entering cause =>
      simp only [Crew.proceed]
      split_ifs
      · exact (h.enter t).put t (List.forall_mem_cons.mpr ⟨hx, hbelow⟩)
      · exact h
    | flushing cause =>
      simp only [Crew.proceed]
      split_ifs
      · exact h.flushChunk
      · cases cause with
        | none => exact h.leave.put t hbelow
        | some c => exact h.leave.finish t hbelow (.queued (hx c rfl))

theorem Traced.receive (h : Traced b o s) (t : ℕ) {stack : List Point}
    (hstack : s.threads t = stack) {incoming : List (Packet × Source)}
    (hincoming : s.incoming = incoming) : Traced b o (s.receive t stack incoming) := by
  have hsound : ∀ x ∈ stack, x.Sound o s.written := hstack ▸ h.points t
  unfold Crew.receive
  split
  · rename_i c inCallback below arrival rest
    have hwait := hsound _ List.mem_cons_self
    have hbelow : ∀ y ∈ below, y.Sound o s.written :=
      fun y hy => hsound y (List.mem_cons_of_mem _ hy)
    have hgenuine := h.incoming arrival (by rw [hincoming]; exact List.mem_cons_self)
    have hrest : Traced b o { s with incoming := rest } :=
      ⟨h.wire, fun a ha => h.incoming a (by rw [hincoming]; exact List.mem_cons_of_mem _ ha),
        h.points, h.returns⟩
    dsimp only
    split_ifs with hseq
    · exact hrest.leave.finish t hbelow (.answered hwait.1 hwait.2.1 hwait.2.2 hseq hgenuine)
    · exact hrest.put t (List.forall_mem_cons.mpr ⟨hwait, hbelow⟩)
  · exact h

theorem Traced.fail (h : Traced b o s) (t : ℕ) (error : PyError) {stack : List Point}
    (hstack : s.threads t = stack) : Traced b o (s.fail t error stack) := by
  have hsound : ∀ x ∈ stack, x.Sound o s.written := hstack ▸ h.points t
  unfold Crew.fail
  split
  · exact h.leave.finish t (fun y hy => hsound y (List.mem_cons_of_mem _ hy)) (.raised error)
  · exact h

theorem Traced.takeCommand (h : Traced b o s) (env : Env) :
    Traced b o (s.step b o (.takeCommand env)) := by
  simp only [Crew.step]
  split
  · exact h
  · rename_i c rest hwire
    have hc : c ∈ s.written := h.wire c (by rw [hwire]; exact List.mem_cons_self)
    have hrest : Traced b o { s with wire := rest } :=
      ⟨fun d hd => h.wire d (by rw [hwire]; exact List.mem_cons_of_mem _ hd), h.incoming, h.points,
        h.returns⟩
    refine hrest.respond fun w hw d hd => ?_
    obtain rfl := Source.response.inj hd
    exact ⟨hc, .handled hw⟩

theorem Traced.step (h : Traced b o s) (move : Move) : Traced b o (s.step b o move) := by
  cases move with
  | act t action =>
    simp only [Crew.step]
    split_ifs
    · exact h.act t action
    · exact h
  | proceed t => exact h.proceed t rfl
  | receive t => exact h.receive t rfl rfl
  | fail t error => exact h.fail t error rfl
  | takeCommand env => exact h.takeCommand env
  | update env => exact h.respond fun w hw c hc => by cases hc
  | counterTick env id => exact ⟨h.wire, h.incoming, h.points, h.returns⟩
  | encoderTick env id => exact ⟨h.wire, h.incoming, h.points, h.returns⟩
  | lose => exact ⟨h.wire, fun a ha => h.incoming a (List.mem_of_mem_tail ha), h.points, h.returns⟩
  | garble packet =>
    refine ⟨h.wire, fun a ha => ?_, h.points, h.returns⟩
    rcases List.mem_cons.mp ha with rfl | ha
    · intro c hc
      cases hc
    · exact h.incoming a ha

end Steps

theorem traced_run (b : Board) (o : Options) (moves : List Move) :
    Traced b o (after (Crew.step b o) {} moves) :=
  after_preserves (fun _ move h => h.step move) (traced_initial b o) moves

end ClientThreads
