import TeensyIo.WriteOrder
import Mathlib.Data.List.Nodup

/-! # Where the response to a call comes from

A call takes the first frame that carries its number modulo 65536. Apart from its own response
that may be the response to a call so many numbers away, or a frame that was pieced together
wrongly. -/
namespace ResponseOrigins

open WireCommands HostProtocol HostClient FirmwareState FirmwareUpdate FirmwareResponses
open DeviceLink ClientThreads WriteOrder MachineRuns

/-! ### What a call makes of a frame -/

/-- `_command` returns the payload of the frame as long as its caller needs it. -/
def Readable (least : ℕ) (p : Packet) : Prop :=
  (p.type = .data ∧ least ≤ p.payload.length) ∨ (p.type = .ack ∧ least = 0)

theorem commandResult_readable {least : ℕ} {p : Packet} :
    (∃ payload, commandResult p = .ok payload ∧ least ≤ payload.length) ↔ Readable least p := by
  obtain ⟨type, seq, payload⟩ := p
  constructor
  · rintro ⟨bytes, hbytes, hleast⟩
    cases type with
    | ack =>
      obtain rfl : [] = bytes := Except.ok.inj hbytes
      exact Or.inr ⟨rfl, Nat.le_zero.mp hleast⟩
    | data =>
      obtain rfl : payload = bytes := Except.ok.inj hbytes
      exact Or.inl ⟨rfl, hleast⟩
    | nack =>
      simp only [commandResult] at hbytes
      split at hbytes
      · cases hbytes
      · split at hbytes <;> cases hbytes
    | command => cases hbytes
    | event => cases hbytes
    | telemetry => cases hbytes
    | error => cases hbytes
  · rintro (⟨rfl, hleast⟩ | ⟨rfl, rfl⟩)
    · exact ⟨payload, rfl, hleast⟩
    · exact ⟨[], rfl, le_rfl⟩

theorem commandResult_ok {p : Packet} : (commandResult p).isOk = true ↔ Readable 0 p := by
  rw [← commandResult_readable]
  cases commandResult p with
  | ok payload => exact iff_of_true rfl ⟨payload, rfl, Nat.zero_le _⟩
  | error error => exact iff_of_false Bool.false_ne_true (by simp)

/-! ### The calls that a move ends -/

/-- The call that the move brings to an end of its own, and the frame the call takes there. -/
def ending (o : Options) (s : Crew) : Move → Option (Call × Option (Packet × Source))
  | .proceed t =>
    match s.threads t with
    | .queued c :: _ =>
      if o.autoFlush ∧ ¬ o.flushes ∧ s.batchDepth = 0 then none else some (c, none)
    | .writing c :: _ => if s.MayEnter t ∧ ¬ c.expectResponse then some (c, none) else none
    | .flushing (some c) :: _ => if s.queued ≠ [] then none else some (c, none)
    | _ => none
  | .receive t =>
    match s.threads t, s.incoming with
    | .awaiting c _ :: _, arrival :: _ =>
      if arrival.1.seq = sequence c.number then some (c, some arrival) else none
    | _, _ => none
  | _ => none

/-- What `_command` makes of the frame, or of having none. -/
def outcome : Option (Packet × Source) → Except PyError (List UInt8)
  | none => .ok []
  | some arrival => commandResult arrival.1

/-- What a move adds to the returns. -/
inductive Adds (o : Options) (s : Crew) (move : Move) (t : Crew) : Prop where
  | nothing : ending o s move = none → t.returns = s.returns → Adds o s move t
  | raised {c : Call} {error : PyError} : ending o s move = none →
      t.returns = s.returns ++ [⟨c, .error error, none⟩] → Adds o s move t
  | ended {c : Call} {met : Option (Packet × Source)} : ending o s move = some (c, met) →
      t.returns = s.returns ++ [⟨c, outcome met, met⟩] → Adds o s move t

section Steps

variable {b : Board} {o : Options} {s : Crew}

theorem proceed_adds (t : ℕ) : Adds o s (.proceed t) (s.proceed o t (s.threads t)) := by
  cases hstack : s.threads t with
  | nil => exact .nothing (by simp [ending, hstack]) rfl
  | cons x below =>
    cases x with
    | deciding c => exact .nothing (by simp [ending, hstack]) rfl
    | queueing c =>
      simp only [Crew.proceed]
      split_ifs
      · exact .raised (by simp [ending, hstack]) rfl
      · exact .nothing (by simp [ending, hstack]) rfl
    | queued c =>
      simp only [Crew.proceed]
      split_ifs with hflush
      · exact .nothing (by simp [ending, hstack, hflush]) rfl
      · have hending : ending o s (.proceed t) = some (c, none) := by
          simp only [ending, hstack, if_neg hflush]
        exact .ended hending rfl
    | writing c =>
      simp only [Crew.proceed]
      split_ifs with hmay hexpects
      · exact .nothing (by simp [ending, hstack, hexpects]) rfl
      · have hending : ending o s (.proceed t) = some (c, none) := by
          simp only [ending, hstack, if_pos (And.intro hmay hexpects)]
        exact .ended hending rfl
      · exact .nothing (by simp [ending, hstack, hmay]) rfl
    | awaiting c inCallback => exact .nothing (by simp [ending, hstack]) rfl
    | entering cause =>
      simp only [Crew.proceed]
      split_ifs
      · exact .nothing (by simp [ending, hstack]) rfl
      · exact .nothing (by simp [ending, hstack]) rfl
    | flushing cause =>
      cases cause with
      | none =>
        simp only [Crew.proceed]
        split_ifs
        · exact .nothing (by simp [ending, hstack]) rfl
        · exact .nothing (by simp [ending, hstack]) rfl
      | some c =>
        simp only [Crew.proceed]
        split_ifs with hleft
        · exact .nothing (by simp [ending, hstack, hleft]) rfl
        · have hending : ending o s (.proceed t) = some (c, none) := by
            simp only [ending, hstack, if_neg hleft]
          exact .ended hending rfl

theorem receive_adds (t : ℕ) : Adds o s (.receive t) (s.receive t (s.threads t) s.incoming) := by
  simp only [Crew.receive]
  split
  · rename_i c inCallback below arrival rest hstack hincoming
    split_ifs with hseq
    · have hending : ending o s (.receive t) = some (c, some arrival) := by
        simp only [ending, hstack, hincoming, if_pos hseq]
      exact .ended hending rfl
    · exact .nothing (by simp only [ending, hstack, hincoming, if_neg hseq]) rfl
  · rename_i hnone
    have hending : ending o s (.receive t) = none := by
      simp only [ending]
    exact .nothing hending rfl

theorem step_adds (b : Board) (move : Move) : Adds o s move (s.step b o move) := by
  cases move with
  | act t action =>
    simp only [Crew.step]
    split_ifs
    · cases action with
      | invoke command payload expectResponse =>
        simp only [Crew.act, Crew.invoke]
        split
        · exact .raised rfl rfl
        · exact .nothing rfl rfl
      | endBatch =>
        simp only [Crew.act]
        split_ifs
        · exact .nothing rfl rfl
        · exact .nothing rfl rfl
      | _ => exact .nothing rfl rfl
    · exact .nothing rfl rfl
  | proceed t => exact proceed_adds t
  | receive t => exact receive_adds t
  | fail t error =>
    simp only [Crew.step, Crew.fail]
    split
    · exact .raised rfl rfl
    · exact .nothing rfl rfl
  | takeCommand env =>
    simp only [Crew.step]
    split
    · exact .nothing rfl rfl
    · exact .nothing rfl rfl
  | _ => exact .nothing rfl rfl

/-- What holds of every return, and of the exceptions anyway, holds of the calls that end. -/
theorem returns_step {R : Return → Prop} (hraised : ∀ c error, R ⟨c, .error error, none⟩)
    (hs : ∀ r ∈ s.returns, R r) (move : Move) :
    (∀ r ∈ (s.step b o move).returns, R r) ↔
      ∀ c met, ending o s move = some (c, met) → R ⟨c, outcome met, met⟩ := by
  cases step_adds (o := o) b move with
  | nothing hending hreturns =>
    rw [hending, hreturns]
    exact iff_of_true hs fun c met h => absurd h (Option.some_ne_none _).symm
  | raised hending hreturns =>
    rw [hending, hreturns]
    refine iff_of_true (fun r hr => ?_) fun c met h => absurd h (Option.some_ne_none _).symm
    rcases List.mem_append.mp hr with hr | hr
    · exact hs r hr
    · obtain rfl := List.mem_singleton.mp hr
      exact hraised _ _
  | @ended c met hending hreturns =>
    rw [hending, hreturns]
    constructor
    · intro hall d taken hd
      obtain ⟨rfl, rfl⟩ := Prod.mk.inj (Option.some.inj hd)
      exact hall _ (List.mem_append_right _ (List.mem_singleton_self _))
    · intro hended r hr
      rcases List.mem_append.mp hr with hr | hr
      · exact hs r hr
      · obtain rfl := List.mem_singleton.mp hr
        exact hended c met rfl

end Steps

/-! ### Where the frames come from -/

/-- A response carries the number of its call, and what the firmware sends of its own accord is
no response. -/
def Labelled (arrival : Packet × Source) : Prop :=
  match arrival.2 with
  | .response c => arrival.1.seq = sequence c.number
  | .unsolicited => arrival.1.type = .event ∨ arrival.1.type = .telemetry
  | .garbled => True

/-- The frame carries the number of the call and is no response to it. -/
def Mistaken (c : Call) (arrival : Packet × Source) : Prop :=
  match arrival.2 with
  | .response other => other.number ≠ c.number ∧ other.number % 65536 = c.number % 65536
  | .unsolicited => False
  | .garbled => arrival.1.seq = sequence c.number

structure Sorted (b : Board) (o : Options) (s : Crew) : Prop where
  traced : Traced b o s
  filed : Filed s none
  ring : AsyncRing s.device
  labelled : ∀ arrival ∈ s.incoming, Labelled arrival

theorem sorted_initial (b : Board) (o : Options) : Sorted b o {} where
  traced := traced_initial b o
  filed := filed_initial
  ring _ := asyncFrame_empty
  labelled := by simp

theorem answered_seq {b : Board} {c : Call} {p : Packet} (h : Answered b c p) :
    p.seq = sequence c.number := by
  cases h with
  | @handled env device w hw =>
    obtain ⟨v, hframes, hanswers⟩ := handle_answers b env device c.packet
    rw [hframes] at hw
    obtain rfl := List.mem_singleton.mp hw
    change w.seq.toNat = sequence c.number
    rw [hanswers.seq_eq]
    exact UInt16.toNat_ofNat_of_lt (sequence_lt c.number)

section Steps

variable {b : Board} {o : Options} {s : Crew}

/-- The sections of a thread leave the device alone, and the incoming frames but for those they
take. -/
structure Untouched (s t : Crew) : Prop where
  device : t.device = s.device
  incoming : t.incoming ⊆ s.incoming

theorem Untouched.of_eq {t : Crew} (hdevice : t.device = s.device)
    (hincoming : t.incoming = s.incoming) : Untouched s t :=
  ⟨hdevice, fun _ ha => hincoming ▸ ha⟩

theorem act_untouched (t : ℕ) (action : Action) : Untouched s (s.act t action) := by
  cases action with
  | invoke command payload expectResponse =>
    simp only [Crew.act, Crew.invoke]
    split
    · exact .of_eq rfl rfl
    · exact .of_eq rfl rfl
  | endBatch =>
    simp only [Crew.act]
    split_ifs
    · exact .of_eq rfl rfl
    · exact .of_eq rfl rfl
  | _ => exact .of_eq rfl rfl

theorem proceed_untouched (t : ℕ) (stack : List Point) : Untouched s (s.proceed o t stack) := by
  cases stack with
  | nil => exact .of_eq rfl rfl
  | cons x below =>
    cases x with
    | deciding c => exact .of_eq rfl rfl
    | awaiting c inCallback => exact .of_eq rfl rfl
    | flushing cause =>
      simp only [Crew.proceed]
      split_ifs
      · exact .of_eq rfl rfl
      · cases cause with
        | none => exact .of_eq rfl rfl
        | some c => exact .of_eq rfl rfl
    | _ =>
      simp only [Crew.proceed]
      split_ifs <;> exact .of_eq rfl rfl

theorem receive_untouched (t : ℕ) : Untouched s (s.receive t (s.threads t) s.incoming) := by
  simp only [Crew.receive]
  split
  · rename_i c inCallback below arrival rest hstack hincoming
    have hsub : rest ⊆ s.incoming := by
      rw [hincoming]
      exact List.subset_cons_self arrival rest
    split_ifs
    · exact ⟨rfl, hsub⟩
    · exact ⟨rfl, hsub⟩
  · exact .of_eq rfl rfl

theorem fail_untouched (t : ℕ) (error : PyError) (stack : List Point) :
    Untouched s (s.fail t error stack) := by
  rw [Crew.fail.eq_def]
  split
  · exact .of_eq rfl rfl
  · exact .of_eq rfl rfl

theorem Sorted.untouched (h : Sorted b o s) {t : Crew} (hu : Untouched s t)
    (htraced : Traced b o t) (hfiled : Filed t none) : Sorted b o t where
  traced := htraced
  filed := hfiled
  ring := by
    rw [hu.device]
    exact h.ring
  labelled arrival ha := h.labelled arrival (hu.incoming ha)

/-- Frames of the firmware join those on their way. -/
theorem labelled_respond (h : ∀ arrival ∈ s.incoming, Labelled arrival) {source : Source}
    {out : Outcome} (hout : ∀ w ∈ framesWritten out.2, Labelled (hostPacket w, source)) :
    ∀ arrival ∈ (s.respond source out).incoming, Labelled arrival := by
  intro arrival ha
  rcases List.mem_append.mp ha with ha | ha
  · exact h arrival ha
  · obtain ⟨w, hw, rfl⟩ := List.mem_map.mp ha
    exact hout w hw

theorem Sorted.step (h : Sorted b o s) (move : Move) : Sorted b o (s.step b o move) := by
  have htraced := h.traced.step move
  have hfiled := h.filed.step b o move
  cases move with
  | act t action =>
    refine h.untouched ?_ htraced hfiled
    simp only [Crew.step]
    split_ifs
    · exact act_untouched t action
    · exact .of_eq rfl rfl
  | proceed t => exact h.untouched (proceed_untouched t _) htraced hfiled
  | receive t => exact h.untouched (receive_untouched t) htraced hfiled
  | fail t error => exact h.untouched (fail_untouched t error _) htraced hfiled
  | lose => exact h.untouched ⟨rfl, fun _ ha => List.mem_of_mem_tail ha⟩ htraced hfiled
  | takeCommand env =>
    cases hwire : s.wire with
    | nil =>
      simp only [Crew.step, hwire]
      exact h
    | cons c rest =>
      simp only [Crew.step, hwire] at htraced hfiled ⊢
      refine ⟨htraced, hfiled, handle_ring b env s.device c.packet h.ring, ?_⟩
      exact labelled_respond h.labelled fun w hw => answered_seq (.handled hw)
  | update env =>
    refine ⟨htraced, hfiled, (update_ring b env h.ring).1, ?_⟩
    exact labelled_respond h.labelled fun w hw =>
      (update_unsolicited b env s.device h.ring w hw).type_ok
  | counterTick env id =>
    exact ⟨htraced, hfiled, counterTick_ring env s.device id h.ring, h.labelled⟩
  | encoderTick env id =>
    exact ⟨htraced, hfiled, encoderTick_ring env s.device id h.ring, h.labelled⟩
  | garble packet =>
    refine ⟨htraced, hfiled, h.ring, fun arrival ha => ?_⟩
    rcases List.mem_cons.mp ha with rfl | ha
    · trivial
    · exact h.labelled arrival ha

/-- Calls whose frames are in the line are told apart by their numbers. -/
theorem Sorted.same_call (h : Sorted b o s) {c d : Call} (hc : c ∈ s.written)
    (hd : d ∈ s.written) (hnumber : c.number = d.number) : c = d :=
  List.inj_on_of_nodup_map h.filed.distinct (List.mem_append_left _ hc) (List.mem_append_left _ hd)
    hnumber

/-- A call that ends without a frame has queued its own, or wants no response. -/
theorem Sorted.unanswered (h : Sorted b o s) {move : Move} {c : Call}
    (hending : ending o s move = some (c, none)) : c.Queues o ∨ c.expectResponse = false := by
  cases move with
  | proceed t =>
    have hsound := h.traced.points t
    simp only [ending] at hending
    split at hending
    · rename_i d below hstack
      split_ifs at hending
      obtain ⟨rfl, -⟩ := Prod.mk.inj (Option.some.inj hending)
      rw [hstack] at hsound
      exact Or.inl (hsound _ List.mem_cons_self)
    · split_ifs at hending with hfree
      obtain ⟨rfl, -⟩ := Prod.mk.inj (Option.some.inj hending)
      exact Or.inr (by simpa using hfree.2)
    · rename_i d below hstack
      split_ifs at hending
      obtain ⟨rfl, -⟩ := Prod.mk.inj (Option.some.inj hending)
      rw [hstack] at hsound
      exact Or.inl (hsound _ List.mem_cons_self d rfl)
    · cases hending
  | receive t =>
    simp only [ending] at hending
    split at hending
    · split_ifs at hending
      simp at hending
    · cases hending
  | _ => cases hending

/-- The call that takes a frame has been written, and the frame carries its number. -/
theorem Sorted.taken (h : Sorted b o s) {move : Move} {c : Call} {arrival : Packet × Source}
    (hending : ending o s move = some (c, some arrival)) :
    (¬ c.Queues o ∧ c.expectResponse = true ∧ c ∈ s.written) ∧ arrival ∈ s.incoming ∧
      arrival.1.seq = sequence c.number := by
  cases move with
  | proceed t =>
    simp only [ending] at hending
    split at hending
    · split_ifs at hending
      simp at hending
    · split_ifs at hending
      simp at hending
    · split_ifs at hending
      simp at hending
    · cases hending
  | receive t =>
    simp only [ending] at hending
    split at hending
    · rename_i d inCallback below arrived rest hstack hincoming
      split_ifs at hending with hseq
      obtain ⟨rfl, hmet⟩ := Prod.mk.inj (Option.some.inj hending)
      obtain rfl := Option.some.inj hmet
      have hsound := h.traced.points t (.awaiting d inCallback) (by
        rw [hstack]
        exact List.mem_cons_self)
      refine ⟨hsound, ?_, hseq⟩
      rw [hincoming]
      exact List.mem_cons_self
    · cases hending
  | _ => cases hending

/-- A frame that a call takes and can read is the response to it, if it is none that the call
mistakes for it. -/
theorem Sorted.own_iff (h : Sorted b o s) {move : Move} {c : Call} {arrival : Packet × Source}
    (hending : ending o s move = some (c, some arrival))
    {least : ℕ} (hreadable : Readable least arrival.1) :
    arrival.2 = .response c ↔ ¬ Mistaken c arrival := by
  obtain ⟨⟨-, -, hwritten⟩, harrival, hseq⟩ := h.taken hending
  have hlabelled := h.labelled arrival harrival
  obtain ⟨p, source⟩ := arrival
  cases source with
  | response other =>
    constructor
    · intro hown hmistaken
      obtain rfl := Source.response.inj hown
      exact hmistaken.1 rfl
    · intro hclear
      have hsame : other.number = c.number := by
        by_contra hne
        refine hclear ⟨hne, ?_⟩
        rw [← sequence_eq, ← sequence_eq]
        exact hlabelled.symm.trans hseq
      obtain ⟨hother, -⟩ := h.traced.incoming _ harrival other rfl
      exact congrArg Source.response (h.same_call hother hwritten hsame)
  | unsolicited =>
    have hunsolicited : p.type = .event ∨ p.type = .telemetry := hlabelled
    rcases hunsolicited with heq | heq
    · simp [Readable, heq] at hreadable
    · simp [Readable, heq] at hreadable
  | garbled => exact iff_of_false (fun hown => Source.noConfusion hown) (not_not_intro hseq)

end Steps

/-- Every return of every state has a property, exactly if the calls that the steps end have it
by a condition on the state before the step. -/
theorem returned_iff {b : Board} {o : Options} {R : Return → Prop} {G : Crew → Move → Prop}
    (hraised : ∀ c error, R ⟨c, .error error, none⟩)
    (same : ∀ s move, Sorted b o s →
      ((∀ c met, ending o s move = some (c, met) → R ⟨c, outcome met, met⟩) ↔ G s move))
    (moves : List Move) :
    EachState (Crew.step b o) (fun s => ∀ r ∈ s.returns, R r) {} moves ↔
      EachStep (Crew.step b o) G {} moves :=
  eachState_iff_eachStep (fun _ move h => Sorted.step h move)
    (fun s move h hs => (returns_step hraised hs move).trans (same s move h))
    (sorted_initial b o) (by simp) moves

end ResponseOrigins
