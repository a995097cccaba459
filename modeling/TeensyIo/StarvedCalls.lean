import TeensyIo.CallbackCommands
import Mathlib.Data.List.Nodup

/-! # Calls whose response is lost

The device answers a command once, and a call takes packets only from its own hands. A response
that another loop has read never comes back, and a call that has returned a frame it mistook for
its response does not wait any more. -/
namespace StarvedCalls

open HostProtocol HostClient HostSession MachineRuns CallbackCommands
open DeviceLink (Origin)

/-! ### What a move does to the commands and to the loops -/

/-- The numbers of the commands the device has not answered. -/
def unanswered (s : Session) : List ℕ :=
  (s.writtenCommands ++ s.queuedCommands).map Prod.fst

/-- A move issues no command, or the next one. -/
inductive Issuing (s t : Session) : Prop where
  | none : (unanswered t).Perm (unanswered s) → s.client.issued ≤ t.client.issued → Issuing s t
  | next : (unanswered t).Perm (unanswered s ++ [s.client.issued + 1]) →
      t.client.issued = s.client.issued + 1 → Issuing s t

section Issuing

variable {s t : Session} {o : Options}

theorem issuing_of_outbox (h : SameOutbox s t) : Issuing s t := by
  apply Issuing.none
  · rw [unanswered, h.writtenCommands, h.queuedCommands, unanswered]
  · exact h.issued.ge

/-- Flushing moves the queue behind what has been written. -/
theorem unanswered_flushed (s : Session) (client : Client) (writes : List (List UInt8)) :
    unanswered (s.flushed client writes) = unanswered s := by
  simp [unanswered, Session.flushed]

theorem unanswered_written (s : Session) (n : ℕ) (p : Packet) :
    ((s.writtenCommands ++ [(n, p)] ++ s.queuedCommands).map Prod.fst).Perm
      (unanswered s ++ [n]) := by
  rw [unanswered, List.map_append, List.map_append, List.map_append, List.append_assoc,
    List.append_assoc]
  exact List.perm_append_comm.append_left _

theorem command_issuing (command : WireCommands.CommandId) (payload : List UInt8)
    (expectResponse : Bool) : Issuing s (s.command o command payload expectResponse) := by
  have hspec := issue_spec o s.client command payload expectResponse
  have hcount := hspec.issued_eq
  unfold Session.command
  dsimp only
  generalize (issue o s.client command payload expectResponse).1 = client at hcount ⊢
  generalize (issue o s.client command payload expectResponse).2 = out
  cases out with
  | raised error =>
    apply Issuing.none
    · exact List.Perm.refl _
    · exact hcount.ge.trans' (Nat.le_succ _)
  | queued writes =>
    cases writes with
    | none =>
      apply Issuing.next
      · simp [unanswered, Session.settle, Session.finish]
      · exact hcount
    | some writes =>
      apply Issuing.next
      · simp [unanswered, Session.settle, Session.finish, Session.flushed]
      · exact hcount
  | sent encoded =>
    apply Issuing.next
    · exact unanswered_written s _ _
    · exact hcount
  | awaiting encoded =>
    apply Issuing.next
    · exact unanswered_written s _ _
    · exact hcount

theorem act_issuing (move : HostMove) : Issuing s (s.act o move) := by
  cases move with
  | command command payload expectResponse => exact command_issuing _ _ _
  | endBatch =>
    simp only [Session.act, endBatch]
    split_ifs
    · exact .none (by rw [unanswered_flushed]) le_rfl
    · exact .none (List.Perm.refl _) le_rfl
  | flush => exact .none (by rw [Session.act, unanswered_flushed]) (flush_inbox o s.client).issued
  | _ => exact .none (List.Perm.refl _) le_rfl

theorem host_issuing (move : HostMove) : Issuing s (s.host o move) := by
  unfold Session.host
  split
  · exact issuing_of_outbox (look_outbox o s _ _ _ _ _)
  · exact issuing_of_outbox (deliver_outbox o s _ _ _)
  · split_ifs
    · exact act_issuing _
    · exact .none (List.Perm.refl _) le_rfl

end Issuing

/-- What a move makes of the loops, with the packet that a call returns in it. -/
inductive Moved (s t : Session) : Option (ℕ × Arrival) → Prop where
  /-- No loop is new, and none holds a packet it did not hold. -/
  | held : t.sent = s.sent → t.decoded = s.decoded → (waiters t.stack).Sublist (waiters s.stack) →
      (∀ b ∈ t.stack, ∃ a ∈ s.stack, a.call = b.call ∧ b.pending ⊆ a.pending) → Moved s t none
  | pushed {x : Activity} : t.sent = s.sent → t.decoded = s.decoded → t.stack = x :: s.stack →
      x.pending = [] →
      (∀ n, x.call = .readResponse n → n = s.client.issued + 1 ∧ t.client.issued = n) →
      Moved s t none
  | read {call : Call} {below : List Activity} {k : ℕ} {new : List Arrival} : t.sent = s.sent →
      s.stack = ⟨call, .looking⟩ :: below →
      t.stack = ⟨call.drain k, .delivering new false⟩ :: below → s.decoded ≤ t.decoded →
      (∀ a ∈ new, s.decoded ≤ a.2 ∧ a.2 < t.decoded) → Moved s t none
  | answered {n : ℕ} {below : List Activity} {a : Arrival} {rest : List Arrival}
      {inCallback : Bool} : t.sent = s.sent → t.decoded = s.decoded →
      s.stack = ⟨.readResponse n, .delivering (a :: rest) inCallback⟩ :: below →
      t.stack = below → Moved s t (some (n, a))

section Moved

variable {s t : Session} {o : Options} {call : Call} {below : List Activity}

theorem moved_same (hsent : t.sent = s.sent) (hdecoded : t.decoded = s.decoded)
    (hstack : t.stack = s.stack) : Moved s t none := by
  refine .held hsent hdecoded ?_ ?_
  · rw [hstack]
  · intro b hb
    exact ⟨b, hstack ▸ hb, rfl, List.Subset.refl _⟩

theorem waiters_below (a : Activity) (below : List Activity) :
    (waiters below).Sublist (waiters (a :: below)) :=
  (List.sublist_cons_self a below).filterMap _

/-- The loop at the top ends. -/
theorem moved_drop {a : Activity} (hstack : s.stack = a :: below) (hsent : t.sent = s.sent)
    (hdecoded : t.decoded = s.decoded) (hbelow : t.stack = below) : Moved s t none := by
  refine .held hsent hdecoded ?_ ?_
  · rw [hbelow, hstack]
    exact waiters_below a below
  · intro b hb
    rw [hbelow] at hb
    exact ⟨b, hstack ▸ List.mem_cons_of_mem a hb, rfl, List.Subset.refl _⟩

/-- The loop at the top goes on with no more than it held. -/
theorem moved_on {phase phase' : Phase} (hstack : s.stack = ⟨call, phase⟩ :: below)
    (hsent : t.sent = s.sent) (hdecoded : t.decoded = s.decoded)
    (htop : t.stack = ⟨call, phase'⟩ :: below)
    (hpending : (Activity.mk call phase').pending ⊆ (Activity.mk call phase).pending) :
    Moved s t none := by
  refine .held hsent hdecoded ?_ ?_
  · rw [htop, hstack]
    cases call <;> exact List.Sublist.refl _
  · intro b hb
    rw [htop] at hb
    rw [hstack]
    rcases List.mem_cons.mp hb with rfl | hb
    · exact ⟨_, List.mem_cons_self, rfl, hpending⟩
    · exact ⟨b, List.mem_cons_of_mem _ hb, rfl, List.Subset.refl _⟩

theorem raise_moved (error : PyError) (hstack : s.stack = ⟨call, .looking⟩ :: below) :
    Moved s (s.raise call below error) none := by
  cases call with
  | readResponse n => exact moved_drop hstack rfl rfl rfl
  | pollAsyncPackets timed budget drained => exact moved_drop hstack rfl rfl rfl

theorem ingest_moved (h : s.OnStream) (hstack : s.stack = ⟨call, .looking⟩ :: below)
    {data : List UInt8} (hdata : data <+: s.waiting) :
    Moved s (s.ingest call below data) none := by
  by_cases hempty : data = []
  · rw [Session.ingest, if_pos hempty]
    exact moved_same rfl rfl rfl
  · obtain ⟨packets, hread⟩ := ingest_readIn h call below hempty hdata
    obtain ⟨k, htop⟩ := hread.stack
    refine .read hread.sent hstack htop ?_ hread.new_places
    obtain ⟨fed, buffer, hfeed, -, -⟩ := feed_onStream h hdata
    rw [Session.ingest, if_neg hempty, hfeed]
    exact Nat.le_add_right _ _

theorem look_moved (h : s.OnStream) (hstack : s.stack = ⟨call, .looking⟩ :: below)
    (expired : Bool) (available : ℕ) (blocking : ℕ × ℕ) :
    Moved s (s.look o call below expired available blocking) none := by
  cases call with
  | readResponse n =>
    simp only [Session.look]
    split_ifs
    · exact raise_moved _ hstack
    · exact ingest_moved h hstack (readSome_taken ..)
  | pollAsyncPackets timed budget drained =>
    simp only [Session.look]
    split_ifs
    · exact ingest_moved h hstack (transportRead_taken ..)
    · exact moved_drop hstack rfl rfl rfl
    · exact ingest_moved h hstack (readSome_taken ..)

theorem exhaust_moved {inCallback : Bool}
    (hstack : s.stack = ⟨call, .delivering [] inCallback⟩ :: below) :
    Moved s (s.exhaust call below) none := by
  cases call with
  | readResponse n => exact moved_on hstack rfl rfl rfl (List.Subset.refl _)
  | pollAsyncPackets timed budget drained =>
    simp only [Session.exhaust]
    split_ifs
    · exact moved_drop hstack rfl rfl rfl
    · exact moved_on hstack rfl rfl rfl (List.Subset.refl _)

theorem deliver_moved {packets : List Arrival} {inCallback : Bool}
    (hstack : s.stack = ⟨call, .delivering packets inCallback⟩ :: below) :
    Moved s (s.deliver o call below packets) (taking s (.host .next)) := by
  cases packets with
  | nil =>
    have hnone : taking s (.host .next) = none := by
      simp only [taking, hstack]
    rw [hnone]
    exact exhaust_moved hstack
  | cons a rest =>
    cases call with
    | readResponse n =>
      by_cases hreturns : (Call.readResponse n).returns a.1 = true
      · have htaking : taking s (.host .next) = some (n, a) := by
          simp only [taking, hstack, if_pos hreturns]
        rw [htaking, Session.deliver, if_pos hreturns]
        exact .answered rfl rfl hstack rfl
      · have htaking : taking s (.host .next) = none := by
          simp only [taking, hstack, if_neg hreturns]
        rw [htaking, Session.deliver, if_neg hreturns]
        exact moved_on hstack rfl rfl rfl (List.subset_cons_self a rest)
    | pollAsyncPackets timed budget drained =>
      have htaking : taking s (.host .next) = none := by
        simp only [taking, hstack]
      rw [htaking]
      exact moved_on hstack rfl rfl rfl (List.subset_cons_self a rest)

theorem settle_moved {n : ℕ} {packet : Packet} {client : Client} (out : Issue)
    (hn : n = s.client.issued + 1) (hclient : client.issued = n) :
    Moved s (s.settle (n, packet) client out) none := by
  cases out with
  | awaiting encoded =>
    refine .pushed rfl rfl rfl rfl ?_
    intro m hm
    obtain rfl := Call.readResponse.inj hm
    exact ⟨hn, hclient⟩
  | queued writes =>
    cases writes with
    | none => exact moved_same rfl rfl rfl
    | some writes => exact moved_same rfl rfl rfl
  | _ => exact moved_same rfl rfl rfl

theorem act_moved (move : HostMove) : Moved s (s.act o move) none := by
  cases move with
  | command command payload expectResponse =>
    exact settle_moved _ rfl (issue_spec o s.client command payload expectResponse).issued_eq
  | pollAsyncPackets timed maxBytes => exact .pushed rfl rfl rfl rfl nofun
  | endBatch =>
    simp only [Session.act]
    split
    · exact moved_same rfl rfl rfl
    · exact moved_same rfl rfl rfl
  | _ => exact moved_same rfl rfl rfl

theorem free_moved (move : HostMove) :
    Moved s (if s.free then s.act o move else s) none := by
  split_ifs
  · exact act_moved _
  · exact moved_same rfl rfl rfl

theorem host_moved (h : s.OnStream) (move : HostMove) :
    Moved s (s.host o move) (taking s (.host move)) := by
  cases move with
  | read expired available blocking =>
    change Moved s _ none
    unfold Session.host
    split
    · rename_i hmove hstack
      obtain ⟨rfl, rfl, rfl⟩ := HostMove.read.inj hmove
      exact look_moved h hstack _ _ _
    · rename_i hmove hstack
      cases hmove
    · exact free_moved _
  | next =>
    unfold Session.host
    split
    · rename_i hmove hstack
      cases hmove
    · rename_i hstack
      exact deliver_moved hstack
    · rename_i hnext
      have hnone : taking s (.host .next) = none := by
        unfold taking
        dsimp only
        split
        · rename_i hstack
          exact absurd hstack (hnext _ _ _ _ rfl)
        · rfl
      rw [hnone]
      exact free_moved _
  | _ => exact free_moved _

end Moved

/-! ### What a move reads -/

section Reading

variable {s : Session} {o : Options}

theorem ingest_consumed (s : Session) (call : Call) (below : List Activity) (data : List UInt8) :
    (s.ingest call below data).consumed = s.consumed + data.length := by
  unfold Session.ingest
  dsimp only
  split_ifs with hempty
  · rw [hempty, List.length_nil, Nat.add_zero]
  · split
    · cases call <;> rfl
    · rfl

theorem look_consumed (call : Call) (below : List Activity) (expired : Bool) (available : ℕ)
    (blocking : ℕ × ℕ) :
    (s.look o call below expired available blocking).consumed =
      s.consumed + (chunk o s call expired available blocking).length := by
  cases call with
  | readResponse n =>
    simp only [Session.look, chunk]
    split_ifs
    · rfl
    · exact ingest_consumed ..
  | pollAsyncPackets timed budget drained =>
    simp only [Session.look, chunk]
    split_ifs
    · exact ingest_consumed ..
    · rfl
    · exact ingest_consumed ..

theorem frontier_cases (move : HostMove) :
    CallbackCommands.frontier o s (.host move) = (s.host o move).consumed ∨
      CallbackCommands.frontier o s (.host move) = s.consumed := by
  cases move with
  | read expired available blocking =>
    unfold CallbackCommands.frontier
    dsimp only
    split
    · rename_i hstack
      left
      simp only [Session.host, hstack]
      exact (look_consumed ..).symm
    · exact Or.inr rfl
  | _ => exact Or.inr rfl

theorem complete_length (h : s.OnStream) : (complete s.sent s.consumed).length = s.decoded := by
  rw [complete_eq h, List.length_take_of_le h.decoded_le]

theorem Moved.sent {t : Session} {taken : Option (ℕ × Arrival)} (h : Moved s t taken) :
    t.sent = s.sent ∧ s.decoded ≤ t.decoded := by
  cases h with
  | held hsent hdecoded => exact ⟨hsent, hdecoded.ge⟩
  | pushed hsent hdecoded => exact ⟨hsent, hdecoded.ge⟩
  | read hsent _ _ hle => exact ⟨hsent, hle⟩
  | answered hsent hdecoded => exact ⟨hsent, hdecoded.ge⟩

/-- The frames that end where the move has read to are decoded after it. -/
theorem reach_le (h : s.OnStream) (move : HostMove) :
    reach o s (.host move) ≤ (s.host o move).decoded := by
  have hafter : (s.host o move).OnStream := stepped_onStream (step_stepped o s (.host move)) h
  obtain ⟨hsent, hle⟩ := (host_moved (o := o) h move).sent
  rcases frontier_cases (s := s) (o := o) move with hfrontier | hfrontier
  · rw [reach, hfrontier, ← hsent, complete_length hafter]
  · rw [reach, hfrontier, complete_length h]
    exact hle

end Reading

/-! ### What every run keeps -/

/-- The commands the device has answered, in the order of its frames. -/
def answered (origins : List Origin) : List ℕ :=
  origins.filterMap fun
    | .response n => some n
    | .unsolicited => none

theorem mem_answered {origins : List Origin} {n : ℕ} :
    n ∈ answered origins ↔ ∃ place : ℕ, origins[place]? = some (Origin.response n) := by
  rw [answered, List.mem_filterMap]
  constructor
  · rintro ⟨origin, horigin, hn⟩
    cases origin with
    | response m =>
      obtain rfl := Option.some.inj hn
      exact List.mem_iff_getElem?.mp horigin
    | unsolicited => cases hn
  · rintro ⟨place, hplace⟩
    exact ⟨_, List.mem_of_getElem? hplace, rfl⟩

/-- A command answered once has one place in the stream. -/
theorem place_unique {origins : List Origin} {n : ℕ} (honce : (answered origins).Nodup) :
    ∀ {p q : ℕ}, origins[p]? = some (Origin.response n) →
      origins[q]? = some (Origin.response n) → p = q := by
  induction origins with
  | nil => intro p q hp; cases hp
  | cons origin origins ih =>
    have htail : (answered origins).Nodup :=
      honce.sublist ((List.sublist_cons_self origin origins).filterMap _)
    have hfirst : ∀ q : ℕ, origin = .response n →
        origins[q]? ≠ some (Origin.response n) := by
      rintro q rfl hq
      exact (List.nodup_cons.mp honce).1 (mem_answered.mpr ⟨q, hq⟩)
    intro p q hp hq
    cases p with
    | zero =>
      cases q with
      | zero => rfl
      | succ q => exact absurd hq (hfirst q (Option.some.inj hp))
    | succ p =>
      cases q with
      | zero => exact absurd hp (hfirst p (Option.some.inj hq))
      | succ q => exact congrArg (· + 1) (ih htail hp hq)

/-- No number is given to two commands, and the device answers none twice. -/
structure Numbers (origins : List Origin) (s : Session) : Prop where
  once : (answered origins ++ unanswered s).Nodup
  issued : ∀ n ∈ answered origins ++ unanswered s, n ≤ s.client.issued

/-- Every call that waits is the only one for its command and has returned nothing yet; the
packets in the loops and those returned have been decoded. -/
structure Loops (taken : List (ℕ × Arrival)) (s : Session) : Prop where
  waits_once : (waiters s.stack).Nodup
  waits_issued : ∀ n ∈ waiters s.stack, n ≤ s.client.issued
  untaken : ∀ n ∈ waiters s.stack, ∀ a, (n, a) ∉ taken
  pending_lt : ∀ b ∈ s.stack, ∀ x ∈ b.pending, x.2 < s.decoded
  taken_lt : ∀ t ∈ taken, t.1 ≤ s.client.issued ∧ t.2.2 < s.decoded

structure Sound (r : Rig) : Prop where
  onStream : r.session.OnStream
  places : r.origins.length = r.session.sent.length
  numbered : ∀ c ∈ r.session.queuedCommands ++ r.session.writtenCommands, c.2.seq = sequence c.1
  numbers : Numbers r.origins r.session
  loops : Loops r.taken r.session

theorem sound_initial : Sound {} where
  onStream := onStream_initial
  places := rfl
  numbered := nofun
  numbers := ⟨List.nodup_nil, nofun⟩
  loops := ⟨List.nodup_nil, nofun, nofun, nofun, nofun⟩

section Keeping

variable {s t : Session} {origins : List Origin} {taken : List (ℕ × Arrival)}
  {got : Option (ℕ × Arrival)}

theorem Issuing.issued_le (h : Issuing s t) : s.client.issued ≤ t.client.issued := by
  cases h with
  | none _ hle => exact hle
  | next _ heq => exact heq.ge.trans' (Nat.le_succ _)

theorem Issuing.old (h : Issuing s t) {n : ℕ} (hn : n ≤ s.client.issued)
    (hmem : n ∈ unanswered t) : n ∈ unanswered s := by
  cases h with
  | none hperm => exact hperm.mem_iff.mp hmem
  | next hperm =>
    refine (List.mem_append.mp (hperm.mem_iff.mp hmem)).resolve_right fun hnew => ?_
    have := List.mem_singleton.mp hnew
    omega

theorem Numbers.issuing (h : Numbers origins s) (hissuing : Issuing s t) : Numbers origins t := by
  cases hissuing with
  | none hperm hle =>
    have hall := hperm.append_left (answered origins)
    constructor
    · exact hall.nodup_iff.mpr h.once
    · intro n hn
      exact (h.issued n (hall.mem_iff.mp hn)).trans hle
  | next hperm heq =>
    have hall := hperm.append_left (answered origins)
    rw [← List.append_assoc] at hall
    constructor
    · rw [hall.nodup_iff, List.nodup_append]
      refine ⟨h.once, List.nodup_singleton _, ?_⟩
      intro n hn m hm
      have hle := h.issued n hn
      have := List.mem_singleton.mp hm
      omega
    · intro n hn
      rcases List.mem_append.mp (hall.mem_iff.mp hn) with hn | hn
      · have hle := h.issued n hn
        omega
      · have := List.mem_singleton.mp hn
        omega

theorem waiters_cons_mem {a : Activity} {below : List Activity} {n : ℕ}
    (h : n ∈ waiters (a :: below)) : a.call = .readResponse n ∨ n ∈ waiters below := by
  obtain ⟨b, hb, hcall⟩ := mem_waiters.mp h
  rcases List.mem_cons.mp hb with rfl | hb
  · exact Or.inl hcall
  · exact Or.inr (mem_waiters.mpr ⟨b, hb, hcall⟩)

theorem waiters_cons_of_call {a : Activity} {below : List Activity} {n : ℕ}
    (h : a.call = .readResponse n) : waiters (a :: below) = n :: waiters below := by
  obtain ⟨call, phase⟩ := a
  obtain rfl : call = .readResponse n := h
  rfl

theorem Loops.moved (h : Loops taken s) (hmoved : Moved s t got)
    (hissued : s.client.issued ≤ t.client.issued) : Loops (taken ++ got.toList) t := by
  cases hmoved with
  | held hsent hdecoded hsublist hstack =>
    rw [Option.toList_none, List.append_nil]
    constructor
    · exact h.waits_once.sublist hsublist
    · intro n hn
      exact (h.waits_issued n (hsublist.subset hn)).trans hissued
    · intro n hn
      exact h.untaken n (hsublist.subset hn)
    · intro b hb x hx
      obtain ⟨a, ha, -, hpending⟩ := hstack b hb
      rw [hdecoded]
      exact h.pending_lt a ha x (hpending hx)
    · intro u hu
      rw [hdecoded]
      exact ⟨(h.taken_lt u hu).1.trans hissued, (h.taken_lt u hu).2⟩
  | @pushed x hsent hdecoded hstack hpending hnew =>
    rw [Option.toList_none, List.append_nil]
    have hwaits : ∀ n ∈ waiters t.stack,
        (n = s.client.issued + 1 ∧ t.client.issued = n) ∨ n ∈ waiters s.stack := by
      intro n hn
      rw [hstack] at hn
      exact (waiters_cons_mem hn).imp_left (hnew n)
    constructor
    · obtain ⟨call, phase⟩ := x
      rw [hstack]
      cases call with
      | readResponse n =>
        rw [waiters_cons_of_call rfl, List.nodup_cons]
        refine ⟨fun hn => ?_, h.waits_once⟩
        have hle := h.waits_issued n hn
        have heq := (hnew n rfl).1
        omega
      | pollAsyncPackets timed budget drained => exact h.waits_once
    · intro n hn
      rcases hwaits n hn with ⟨-, heq⟩ | hn
      · exact heq.ge
      · exact (h.waits_issued n hn).trans hissued
    · intro n hn a ha
      rcases hwaits n hn with ⟨heq, -⟩ | hn
      · have hle : n ≤ s.client.issued := (h.taken_lt _ ha).1
        omega
      · exact h.untaken n hn a ha
    · intro b hb y hy
      rw [hdecoded]
      rw [hstack] at hb
      rcases List.mem_cons.mp hb with rfl | hb
      · rw [hpending] at hy
        cases hy
      · exact h.pending_lt b hb y hy
    · intro u hu
      rw [hdecoded]
      exact ⟨(h.taken_lt u hu).1.trans hissued, (h.taken_lt u hu).2⟩
  | @read call below k new hsent hstack htop hle hnew =>
    rw [Option.toList_none, List.append_nil]
    have hwaiters : waiters t.stack = waiters s.stack := by
      rw [htop, hstack]
      exact waiters_drain call k _ _ below
    constructor
    · rw [hwaiters]
      exact h.waits_once
    · intro n hn
      rw [hwaiters] at hn
      exact (h.waits_issued n hn).trans hissued
    · rw [hwaiters]
      exact h.untaken
    · intro b hb x hx
      rw [htop] at hb
      rcases List.mem_cons.mp hb with rfl | hb
      · exact (hnew x hx).2
      · exact (h.pending_lt b (hstack ▸ List.mem_cons_of_mem _ hb) x hx).trans_le hle
    · intro u hu
      exact ⟨(h.taken_lt u hu).1.trans hissued, (h.taken_lt u hu).2.trans_le hle⟩
  | @answered n below a rest inCallback hsent hdecoded hstack hbelow =>
    have honce := h.waits_once
    rw [hstack, waiters_cons_of_call rfl, List.nodup_cons] at honce
    have hwaits : ∀ m ∈ waiters below, m ∈ waiters s.stack := by
      intro m hm
      rw [hstack]
      exact List.mem_cons_of_mem n hm
    have htop : ⟨.readResponse n, .delivering (a :: rest) inCallback⟩ ∈ s.stack := by
      rw [hstack]
      exact List.mem_cons_self
    constructor
    · rw [hbelow]
      exact honce.2
    · intro m hm
      rw [hbelow] at hm
      exact (h.waits_issued m (hwaits m hm)).trans hissued
    · intro m hm b hb
      rw [hbelow] at hm
      rcases List.mem_append.mp hb with hb | hb
      · exact h.untaken m (hwaits m hm) b hb
      · obtain ⟨rfl, -⟩ := Prod.mk.inj (List.mem_singleton.mp hb)
        exact honce.1 hm
    · intro b hb x hx
      rw [hbelow] at hb
      rw [hdecoded]
      exact h.pending_lt b (hstack ▸ List.mem_cons_of_mem _ hb) x hx
    · intro u hu
      rw [hdecoded]
      rcases List.mem_append.mp hu with hu | hu
      · exact ⟨(h.taken_lt u hu).1.trans hissued, (h.taken_lt u hu).2⟩
      · obtain rfl := List.mem_singleton.mp hu
        refine ⟨(h.waits_issued n ?_).trans hissued, h.pending_lt _ htop a List.mem_cons_self⟩
        rw [hstack]
        exact List.mem_cons_self

end Keeping

section Sound

variable {r : Rig} {o : Options}

theorem host_numbered {s : Session} (o : Options)
    (h : ∀ c ∈ s.queuedCommands ++ s.writtenCommands, c.2.seq = sequence c.1) (move : HostMove) :
    ∀ c ∈ (s.host o move).queuedCommands ++ (s.host o move).writtenCommands,
      c.2.seq = sequence c.1 := by
  have hsame : ∀ {t : Session}, SameOutbox s t →
      ∀ c ∈ t.queuedCommands ++ t.writtenCommands, c.2.seq = sequence c.1 := by
    intro t ht
    rw [ht.queuedCommands, ht.writtenCommands]
    exact h
  unfold Session.host
  split
  · exact hsame (look_outbox o s _ _ _ _ _)
  · exact hsame (deliver_outbox o s _ _ _)
  · split_ifs
    · exact (act_keeps o s _).numbered h
    · exact h

theorem Sound.host (h : Sound r) (move : HostMove) : Sound (r.host o move) := by
  have hissuing := host_issuing (s := r.session) (o := o) move
  have hmoved := host_moved (o := o) h.onStream move
  constructor
  · exact stepped_onStream (step_stepped o r.session (.host move)) h.onStream
  · change r.origins.length = (r.session.host o move).sent.length
    rw [hmoved.sent.1]
    exact h.places
  · exact host_numbered o h.numbered move
  · exact h.numbers.issuing hissuing
  · exact h.loops.moved hmoved hissuing.issued_le

theorem Sound.send (h : Sound r) {p : Packet} (hp : WireCompatibility.Sendable p) {origin : Origin}
    {rest : List (ℕ × Packet)} (hrest : rest ⊆ r.session.writtenCommands)
    (hperm : (answered [origin] ++ rest.map Prod.fst).Perm
      (r.session.writtenCommands.map Prod.fst)) :
    Sound { r with
      session := { r.session with writtenCommands := rest }.send p
      origins := r.origins ++ [origin] } where
  onStream := send_onStream (s := { r.session with writtenCommands := rest }) h.onStream ⟨p, hp⟩
  places := by simp [Session.send, h.places]
  numbered c hc := by
    refine h.numbered c ?_
    rcases List.mem_append.mp hc with hc | hc
    · exact List.mem_append_left _ hc
    · exact List.mem_append_right _ (hrest hc)
  numbers := by
    have hall : (answered (r.origins ++ [origin]) ++
        (rest ++ r.session.queuedCommands).map Prod.fst).Perm
          (answered r.origins ++ unanswered r.session) := by
      rw [answered, List.filterMap_append, List.append_assoc, List.map_append, unanswered,
        List.map_append, ← List.append_assoc (List.filterMap _ [origin])]
      exact (hperm.append_right _).append_left _
    exact ⟨hall.nodup_iff.mpr h.numbers.once, fun n hn => h.numbers.issued n (hall.mem_iff.mp hn)⟩
  loops := ⟨h.loops.waits_once, h.loops.waits_issued, h.loops.untaken, h.loops.pending_lt,
    h.loops.taken_lt⟩

theorem Sound.step (h : Sound r) (i : Input) : Sound (r.step o i) := by
  cases i with
  | host move => exact h.host move
  | answer type payload =>
    simp only [Rig.step]
    split
    · exact h
    · rename_i c rest hwritten
      have hseq : c.2.seq = sequence c.1 :=
        h.numbered c (List.mem_append_right _ (hwritten ▸ List.mem_cons_self))
      refine h.send ⟨?_, payload.2⟩ ?_ ?_
      · rw [hseq]
        exact sequence_lt c.1
      · rw [hwritten]
        exact List.subset_cons_self c rest
      · rw [hwritten]
        exact List.Perm.refl _
  | volunteer packet => exact h.send packet.2 (List.Subset.refl _) (List.Perm.refl _)

end Sound

/-! ### Responses that are lost -/

/-- The device has answered the command, and the answer has been decoded and is in the hands of
no call that waits for it. -/
structure Gone (n : ℕ) (r : Rig) : Prop where
  answered : n ∉ unanswered r.session
  decoded : ∀ place, r.origins[place]? = some (.response n) → place < r.session.decoded
  held : ∀ b ∈ r.session.stack, b.call = .readResponse n → ∀ x ∈ b.pending,
    r.origins[x.2]? ≠ some (.response n)

/-- Nothing has been returned for the command that is its response, and nothing can be. -/
structure Lost (n : ℕ) (r : Rig) : Prop where
  issued : n ≤ r.session.client.issued
  taken : ∀ a, (n, a) ∈ r.taken → r.origins[a.2]? ≠ some (.response n)
  hopeless : n ∉ waiters r.session.stack ∨ Gone n r

section Lost

variable {r : Rig} {o : Options} {n : ℕ}

theorem Lost.not_returned (h : Lost n r) : ¬ Returned r n := by
  rintro ⟨a, ha, horigin, -⟩
  exact h.taken a ha horigin

theorem Gone.host (h : Gone n r) (hissued : n ≤ r.session.client.issued) {move : HostMove}
    (hissuing : Issuing r.session (r.session.host o move))
    {got : Option (ℕ × Arrival)} (hmoved : Moved r.session (r.session.host o move) got) :
    Gone n (r.host o move) where
  answered hmem := h.answered (hissuing.old hissued hmem)
  decoded place hplace := (h.decoded place hplace).trans_le hmoved.sent.2
  held b hb hcall x hx horigin := by
    change b ∈ (r.session.host o move).stack at hb
    cases hmoved with
    | held _ _ _ hstack =>
      obtain ⟨a, ha, hsame, hpending⟩ := hstack b hb
      exact h.held a ha (hsame.trans hcall) x (hpending hx) horigin
    | pushed _ _ hstack hpending _ =>
      rw [hstack] at hb
      rcases List.mem_cons.mp hb with rfl | hb
      · rw [hpending] at hx
        cases hx
      · exact h.held b hb hcall x hx horigin
    | read _ hstack htop _ hnew =>
      rw [htop] at hb
      rcases List.mem_cons.mp hb with rfl | hb
      · -- what has just been read stands behind the response
        exact absurd (h.decoded x.2 horigin) (Nat.not_lt.mpr (hnew x hx).1)
      · exact h.held b (hstack ▸ List.mem_cons_of_mem _ hb) hcall x hx horigin
    | answered _ _ hstack hbelow =>
      rw [hbelow] at hb
      exact h.held b (hstack ▸ List.mem_cons_of_mem _ hb) hcall x hx horigin

theorem Lost.host (h : Lost n r) (hsound : Sound r) (move : HostMove) :
    Lost n (r.host o move) := by
  have hissuing := host_issuing (s := r.session) (o := o) move
  have hmoved := host_moved (o := o) hsound.onStream move
  constructor
  · exact h.issued.trans hissuing.issued_le
  · intro a ha horigin
    change _ ∈ r.taken ++ (taking r.session (.host move)).toList at ha
    rcases List.mem_append.mp ha with ha | ha
    · exact h.taken a ha horigin
    · have htaking : taking r.session (.host move) = some (n, a) := Option.mem_toList.mp ha
      rw [htaking] at hmoved
      cases hmoved with
      | answered _ _ hstack _ =>
        rcases h.hopeless with hwaits | hgone
        · apply hwaits
          rw [hstack]
          exact List.mem_cons_self
        · exact hgone.held _ (hstack ▸ List.mem_cons_self) rfl a List.mem_cons_self horigin
  · refine h.hopeless.imp (fun hwaits hmem => ?_) fun hgone => hgone.host h.issued hissuing hmoved
    change n ∈ waiters (r.session.host o move).stack at hmem
    generalize taking r.session (.host move) = got at hmoved
    cases hmoved with
    | held _ _ hsublist _ => exact hwaits (hsublist.subset hmem)
    | pushed _ _ hstack _ hnew =>
      rw [hstack] at hmem
      rcases waiters_cons_mem hmem with hcall | hmem
      · have hnumber := (hnew n hcall).1
        have hle := h.issued
        omega
      · exact hwaits hmem
    | @read call below k new _ hstack htop _ _ =>
      rw [htop, waiters_drain call k _ .looking below, ← hstack] at hmem
      exact hwaits hmem
    | answered _ _ hstack hbelow =>
      rw [hbelow] at hmem
      apply hwaits
      rw [hstack]
      exact List.mem_cons_of_mem _ hmem

/-- A frame the device sends later is no response to a command it has answered. -/
theorem Lost.send (h : Lost n r) (hsound : Sound r) {p : Packet} {origin : Origin}
    {rest : List (ℕ × Packet)} (hrest : rest ⊆ r.session.writtenCommands)
    (horigin : ∀ m, origin = .response m → m ∈ unanswered r.session) :
    Lost n { r with
      session := { r.session with writtenCommands := rest }.send p
      origins := r.origins ++ [origin] } := by
  have hold : ∀ place < r.session.decoded, (r.origins ++ [origin])[place]? = r.origins[place]? := by
    intro place hplace
    apply List.getElem?_append_left
    rw [hsound.places]
    exact hplace.trans_le hsound.onStream.decoded_le
  refine ⟨h.issued, ?_, h.hopeless.imp_right fun hgone => ⟨?_, ?_, ?_⟩⟩
  · intro a ha
    dsimp only
    rw [hold a.2 (hsound.loops.taken_lt _ ha).2]
    exact h.taken a ha
  · intro hmem
    apply hgone.answered
    obtain ⟨c, hc, rfl⟩ := List.mem_map.mp hmem
    refine List.mem_map.mpr ⟨c, ?_, rfl⟩
    rcases List.mem_append.mp hc with hc | hc
    · exact List.mem_append_left _ (hrest hc)
    · exact List.mem_append_right _ hc
  · intro place hplace
    dsimp only at hplace
    rw [List.getElem?_append] at hplace
    split_ifs at hplace
    · exact hgone.decoded place hplace
    · have hlast := List.mem_singleton.mp (List.mem_of_getElem? hplace)
      exact absurd (horigin n hlast.symm) hgone.answered
  · intro b hb hcall x hx
    dsimp only
    rw [hold x.2 (hsound.loops.pending_lt b hb x hx)]
    exact hgone.held b hb hcall x hx

theorem Lost.step (h : Lost n r) (hsound : Sound r) (i : Input) : Lost n (r.step o i) := by
  cases i with
  | host move => exact h.host hsound move
  | answer type payload =>
    simp only [Rig.step]
    split
    · exact h
    · rename_i c rest hwritten
      refine h.send hsound ?_ ?_
      · rw [hwritten]
        exact List.subset_cons_self c rest
      · intro m hm
        obtain rfl := Origin.response.inj hm
        rw [unanswered, hwritten]
        exact List.mem_cons_self
  | volunteer packet =>
    refine h.send hsound (List.Subset.refl _) ?_
    intro m hm
    cases hm

/-! ### Steps that lose one -/

/-- A loop reads the response to a call it has interrupted. -/
theorem lost_of_read (h : Sound r) {move : HostMove} (hn : n ∈ waiters r.session.stack.tail)
    {place : ℕ} (hreach : place < reach o r.session (.host move))
    (hnew : r.session.decoded ≤ place) (horigin : r.origins[place]? = some (.response n)) :
    Lost n (r.host o move) := by
  have hissuing := host_issuing (s := r.session) (o := o) move
  have hmoved := host_moved (o := o) h.onStream move
  have hlt : place < (r.session.host o move).decoded := hreach.trans_le (reach_le h.onStream move)
  have honce := List.nodup_append.mp h.numbers.once
  have hunique : ∀ other : ℕ, r.origins[other]? = some (.response n) → other = place :=
    fun other hother => place_unique honce.1 hother horigin
  have hwaits : n ∈ waiters r.session.stack := (List.tail_sublist _).filterMap _ |>.subset hn
  have hissued := h.loops.waits_issued n hwaits
  have hanswered : n ∉ unanswered r.session :=
    fun hmem => honce.2.2 n (mem_answered.mpr ⟨place, horigin⟩) n hmem rfl
  generalize htaking : taking r.session (.host move) = got at hmoved
  cases hmoved with
  | read hsent hstack htop hle hplaces =>
    refine ⟨hissued.trans hissuing.issued_le, ?_, Or.inr ⟨?_, ?_, ?_⟩⟩
    · intro a ha
      change _ ∈ r.taken ++ (taking r.session (.host move)).toList at ha
      rw [htaking, Option.toList_none, List.append_nil] at ha
      exact absurd ha (h.loops.untaken n hwaits a)
    · exact fun hmem => hanswered (hissuing.old hissued hmem)
    · intro other hother
      rw [hunique other hother]
      exact hlt
    · intro b hb hcall x hx hx'
      change b ∈ (r.session.host o move).stack at hb
      rw [htop] at hb
      have hx'' := hunique x.2 hx'
      rw [hstack, List.tail_cons] at hn
      rcases List.mem_cons.mp hb with rfl | hb
      · -- only one call waits for the command, and it is below
        have hwaiting := h.loops.waits_once
        rw [hstack, ← waiters_drain _ _ (.delivering _ false), waiters_cons_of_call hcall,
          List.nodup_cons] at hwaiting
        exact absurd hn hwaiting.1
      · have hbefore := h.loops.pending_lt b (hstack ▸ List.mem_cons_of_mem _ hb) x hx
        omega
  | held _ hdecoded => omega
  | pushed _ hdecoded => omega
  | answered _ hdecoded => omega

/-- A call returns a frame that it mistakes for its response. -/
theorem lost_of_mistaken (h : Sound r) {move : HostMove} {a : Arrival}
    (htaking : taking r.session (.host move) = some (n, a)) (hmistaken : Mistaken r n a) :
    Lost n (r.host o move) := by
  have hissuing := host_issuing (s := r.session) (o := o) move
  have hmoved := host_moved (o := o) h.onStream move
  rw [htaking] at hmoved
  cases hmoved with
  | answered _ _ hstack hbelow =>
    have honce := h.loops.waits_once
    have hwaits : n ∈ waiters r.session.stack := by
      rw [hstack]
      exact List.mem_cons_self
    rw [hstack, waiters_cons_of_call rfl, List.nodup_cons] at honce
    refine ⟨(h.loops.waits_issued n hwaits).trans hissuing.issued_le, ?_, Or.inl ?_⟩
    · intro b hb horigin
      change _ ∈ r.taken ++ (taking r.session (.host move)).toList at hb
      rw [htaking] at hb
      rcases List.mem_append.mp hb with hb | hb
      · exact h.loops.untaken n hwaits b hb
      · obtain ⟨-, rfl⟩ := Prod.mk.inj (List.mem_singleton.mp hb)
        have horigin : r.origins[b.2]? = some (.response n) := horigin
        rw [Mistaken, horigin] at hmistaken
        exact hmistaken.1 rfl
    · change n ∉ waiters (r.session.host o move).stack
      rw [hbelow]
      exact honce.1

/-- Nothing is read between the moves of the host. -/
theorem undisturbed_still (h : Sound r) {i : Input} (htaking : taking r.session i = none)
    (hfrontier : CallbackCommands.frontier o r.session i = r.session.consumed) :
    Undisturbed o r i where
  spares m _ place hreach hnew := by
    rw [reach, hfrontier, complete_length h.onStream] at hreach
    exact absurd hreach (Nat.not_lt.mpr hnew)
  unmistaken t ht := by
    rw [htaking] at ht
    cases ht

theorem lost_of_disturbed (h : Sound r) {i : Input} (hdisturbed : ¬ Undisturbed o r i) :
    ∃ n ∈ waiters r.session.stack, Lost n (r.step o i) := by
  cases i with
  | host move =>
    by_cases hspares : ∀ m ∈ waiters r.session.stack.tail,
        ∀ place < reach o r.session (.host move), r.session.decoded ≤ place →
          r.origins[place]? ≠ some (.response m)
    · have hmistaken : ¬ ∀ t ∈ taking r.session (.host move), ¬ Mistaken r t.1 t.2 :=
        fun hall => hdisturbed ⟨hspares, hall⟩
      push Not at hmistaken
      obtain ⟨⟨m, a⟩, htaking, hm⟩ := hmistaken
      have hmoved := host_moved (o := o) h.onStream move
      rw [htaking] at hmoved
      refine ⟨m, ?_, lost_of_mistaken h htaking hm⟩
      cases hmoved with
      | answered _ _ hstack _ =>
        rw [hstack]
        exact List.mem_cons_self
    · push Not at hspares
      obtain ⟨m, hm, place, hreach, hnew, horigin⟩ := hspares
      exact ⟨m, ((List.tail_sublist _).filterMap _).subset hm,
        lost_of_read h hm hreach hnew horigin⟩
  | answer type payload => exact absurd (undisturbed_still h rfl rfl) hdisturbed
  | volunteer packet => exact absurd (undisturbed_still h rfl rfl) hdisturbed

end Lost

/-- Whatever happens before it and afterwards: a step that reads away the response to an
interrupted call, or returns a frame mistaken for the response, leaves a call that never returns
what the response to its own command says. -/
theorem disturbed_never_returns (o : Options) (before : List Input) (i : Input)
    (later : List Input) (hdisturbed : ¬ Undisturbed o (after (Rig.step o) {} before) i) :
    ∃ n ∈ waiters (after (Rig.step o) {} before).session.stack,
      EachState (Rig.step o) (fun r => ¬ Returned r n) (after (Rig.step o) {} (before ++ [i]))
        later := by
  have hsound : Sound (after (Rig.step o) {} before) :=
    after_preserves (fun _ i hr => hr.step i) sound_initial before
  obtain ⟨n, hwaits, hlost⟩ := lost_of_disturbed hsound hdisturbed
  refine ⟨n, hwaits, ?_⟩
  rw [after_append]
  apply eachState_of_eachStep (I := fun r => Sound r ∧ Lost n r) (G := fun _ _ => True)
  · rintro r i ⟨hr, hn⟩ -
    exact ⟨hr.step i, hn.step hr i⟩
  · exact fun r hr => hr.2.not_returned
  · exact ⟨hsound.step i, hlost⟩
  · exact eachStep_of_forall _ fun _ _ => trivial

/-- Up to the read by which the loop of the pin's command takes both responses. -/
def interrupted : List Input := laterChunk.take 7

/-- The pin's command returns its response, and so it is the heartbeat that never does. -/
theorem heartbeat_never_returns :
    EachState (Rig.step {}) (fun r => ¬ Returned r 1)
      (after (Rig.step {}) {} (interrupted ++ [.host (.read false 0 (1, 4096))]))
      (laterChunk.drop 8) := by
  have hdisturbed : ¬ Undisturbed {} (after (Rig.step {}) {} interrupted)
      (.host (.read false 0 (1, 4096))) := by decide +kernel
  obtain ⟨n, hwaits, hnever⟩ :=
    disturbed_never_returns {} interrupted _ (laterChunk.drop 8) hdisturbed
  have hwaiters : waiters (after (Rig.step {}) {} interrupted).session.stack = [2, 1] := by
    decide +kernel
  rw [hwaiters] at hwaits
  rcases List.mem_cons.mp hwaits with rfl | hwaits
  · refine absurd ?_ (eachState_after (P := fun r => ¬ Returned r 2) hnever)
    exact ⟨(⟨.ack, 2, [0]⟩, 2), by decide +kernel, by decide +kernel, by decide +kernel⟩
  · obtain rfl := List.mem_singleton.mp hwaits
    exact hnever

end StarvedCalls
