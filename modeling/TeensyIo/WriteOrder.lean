import TeensyIo.ClientThreads
import TeensyIo.OrderedLogs

/-! # The order of commands on the wire

Frames reach the transport by the queue or directly. A call whose frame is still in neither is
at the top of its thread; a call that has returned has its frame in one of them. -/
namespace WriteOrder

open WireCommands HostProtocol HostClient FirmwareState FirmwareResponses ClientThreads
open MachineRuns OrderedLogs

/-- The frames given to the transport, and behind them those in the queue. -/
def line (s : Crew) : List Call := s.written ++ s.queued

def numbers (calls : List Call) : List ℕ := calls.map Call.number

/-- The call stands before the section that would file its frame. -/
def unfiled : Point → Option Call
  | .deciding c | .queueing c | .writing c => some c
  | .queued _ | .awaiting _ _ | .entering _ | .flushing _ => none

/-- The call stands behind it. -/
def filed : Point → Option Call
  | .queued c | .awaiting c _ => some c
  | .entering cause | .flushing cause => cause
  | .deciding _ | .queueing _ | .writing _ => none

def pending (stack : List Point) : Option Call := stack.head?.bind unfiled

/-- The frame is not filed, and the frames of the calls before it are. -/
structure Due (issued : ℕ) (calls : List Call) (c : Call) : Prop where
  issued : c.number ≤ issued
  fresh : c.number ∉ numbers calls
  preceded : c.older ⊆ numbers calls

/-- What the threads hold against the line, but for one that may be left out. -/
structure Filed (s : Crew) (out : Option ℕ) : Prop where
  distinct : (numbers (line s)).Nodup
  issued : ∀ c ∈ line s, c.number ≤ s.issued
  settled : ∀ t, out ≠ some t → ∀ x ∈ (s.threads t).tail, unfiled x = none
  due : ∀ t, out ≠ some t → ∀ c, pending (s.threads t) = some c → Due s.issued (line s) c
  apart : ∀ t u, out ≠ some t → out ≠ some u → t ≠ u → ∀ c d, pending (s.threads t) = some c →
    pending (s.threads u) = some d → c.number ≠ d.number
  filed : ∀ t, out ≠ some t → ∀ x ∈ s.threads t, ∀ c, filed x = some c → c ∈ line s
  returned : s.returned ⊆ numbers (line s)

/-- The stack may be given to the thread. -/
structure Fits (s : Crew) (t : ℕ) (stack : List Point) : Prop where
  settled : ∀ x ∈ stack.tail, unfiled x = none
  due : ∀ c, pending stack = some c → Due s.issued (line s) c
  apart : ∀ u, u ≠ t → ∀ c d, pending stack = some c → pending (s.threads u) = some d →
    c.number ≠ d.number
  filed : ∀ x ∈ stack, ∀ c, filed x = some c → c ∈ line s

theorem filed_initial : Filed {} none where
  distinct := List.nodup_nil
  issued := by simp [line]
  settled := by simp
  due := by simp [pending]
  apart := by simp [pending]
  filed := by simp
  returned := by simp [Crew.returned]

section Steps

variable {s s' : Crew} {t : ℕ} {out : Option ℕ} {c : Call} {x y : Point} {below stack : List Point}

theorem Filed.off (h : Filed s none) (t : ℕ) : Filed s (some t) where
  distinct := h.distinct
  issued := h.issued
  settled u _ := h.settled u nofun
  due u _ := h.due u nofun
  apart u v _ _ := h.apart u v nofun nofun
  filed u _ := h.filed u nofun
  returned := h.returned

theorem Filed.fits (h : Filed s none) (t : ℕ) : Fits s t (s.threads t) where
  settled := h.settled t nofun
  due := h.due t nofun
  apart u hu := h.apart t u nofun nofun hu.symm
  filed := h.filed t nofun

/-- What the order of frames does not rest on may change. -/
theorem Filed.same (h : Filed s out) (hline : line s' = line s) (hissued : s'.issued = s.issued)
    (hthreads : s'.threads = s.threads) (hreturns : s'.returned = s.returned) : Filed s' out where
  distinct := hline ▸ h.distinct
  issued := hline ▸ hissued ▸ h.issued
  settled := hthreads ▸ h.settled
  due := hthreads ▸ hline ▸ hissued ▸ h.due
  apart := hthreads ▸ h.apart
  filed := hthreads ▸ hline ▸ h.filed
  returned := hreturns ▸ hline ▸ h.returned

theorem Filed.put (h : Filed s (some t)) (hfits : Fits s t stack) : Filed (s.put t stack) none where
  distinct := h.distinct
  issued := h.issued
  settled u _ x hx := by
    by_cases hu : u = t
    · subst u
      rw [put_threads_self] at hx
      exact hfits.settled x hx
    · rw [put_threads_of_ne s hu] at hx
      exact h.settled u (by simpa using Ne.symm hu) x hx
  due u _ c hc := by
    by_cases hu : u = t
    · subst u
      rw [put_threads_self] at hc
      exact hfits.due c hc
    · rw [put_threads_of_ne s hu] at hc
      exact h.due u (by simpa using Ne.symm hu) c hc
  apart u v _ _ huv c d hc hd := by
    by_cases hu : u = t
    · subst u
      rw [put_threads_self] at hc
      rw [put_threads_of_ne s huv.symm] at hd
      exact hfits.apart v huv.symm c d hc hd
    · rw [put_threads_of_ne s hu] at hc
      by_cases hv : v = t
      · subst v
        rw [put_threads_self] at hd
        exact (hfits.apart u hu d c hd hc).symm
      · rw [put_threads_of_ne s hv] at hd
        exact h.apart u v (by simpa using Ne.symm hu) (by simpa using Ne.symm hv) huv c d hc hd
  filed u _ x hx := by
    by_cases hu : u = t
    · subst u
      rw [put_threads_self] at hx
      exact hfits.filed x hx
    · rw [put_threads_of_ne s hu] at hx
      exact h.filed u (by simpa using Ne.symm hu) x hx
  returned := h.returned

theorem returned_finish (r : Return) :
    (s.finish t below r).returned =
      s.returned ++ if r.result.isOk then [r.call.number] else [] := by
  simp only [Crew.finish, Crew.returned, Crew.put, List.filter_append, List.map_append]
  cases hr : r.result.isOk <;> simp [hr]

theorem Filed.finish (h : Filed s (some t)) (hfits : Fits s t below) {r : Return}
    (hr : r.result.isOk = true → r.call ∈ line s) : Filed (s.finish t below r) none := by
  obtain ⟨hdistinct, hissued, hsettled, hdue, hapart, hfiled, hreturned⟩ := h.put hfits
  refine ⟨hdistinct, hissued, hsettled, hdue, hapart, hfiled, ?_⟩
  rw [returned_finish]
  refine List.append_subset.mpr ⟨h.returned, ?_⟩
  split_ifs with hok
  · intro n hn
    obtain rfl := List.mem_singleton.mp hn
    exact List.mem_map_of_mem (hr hok)
  · exact List.nil_subset _

/-- The frame of the call that stood at the top of the thread left out joins the line. -/
theorem Filed.grow (h : Filed s (some t)) (hdue : Due s.issued (line s) c)
    (hapart : ∀ u, u ≠ t → ∀ d, pending (s.threads u) = some d → c.number ≠ d.number)
    (hline : (line s').Perm (line s ++ [c])) (hissued : s'.issued = s.issued)
    (hthreads : s'.threads = s.threads) (hreturns : s'.returned = s.returned) :
    Filed s' (some t) := by
  have hnumbers : (numbers (line s')).Perm (numbers (line s) ++ [c.number]) := by
    have hmap := hline.map Call.number
    rwa [List.map_append] at hmap
  have hsub : numbers (line s) ⊆ numbers (line s') :=
    fun n hn => hnumbers.mem_iff.mpr (List.mem_append_left _ hn)
  constructor
  · refine hnumbers.nodup_iff.mpr (List.nodup_append.mpr ⟨h.distinct, by simp, ?_⟩)
    rintro n hn m hm rfl
    obtain rfl := List.mem_singleton.mp hm
    exact hdue.fresh hn
  · intro d hd
    rw [hissued]
    rcases List.mem_append.mp (hline.mem_iff.mp hd) with hd | hd
    · exact h.issued d hd
    · obtain rfl := List.mem_singleton.mp hd
      exact hdue.issued
  · exact hthreads ▸ h.settled
  · intro u hu d hd
    rw [hthreads] at hd
    obtain ⟨hissued', hfresh, hpreceded⟩ := h.due u hu d hd
    refine ⟨hissued ▸ hissued', fun hmem => ?_, List.Subset.trans hpreceded hsub⟩
    rcases List.mem_append.mp (hnumbers.mem_iff.mp hmem) with hmem | hmem
    · exact hfresh hmem
    · exact hapart u (by simpa using Ne.symm hu) d hd (List.mem_singleton.mp hmem).symm
  · exact hthreads ▸ h.apart
  · intro u hu x hx d hd
    rw [hthreads] at hx
    exact hline.mem_iff.mpr (List.mem_append_left _ (h.filed u hu x hx d hd))
  · exact hreturns ▸ List.Subset.trans h.returned hsub

theorem pending_none (hstack : ∀ x ∈ stack, unfiled x = none) : pending stack = none := by
  cases stack with
  | nil => rfl
  | cons x below => exact hstack x List.mem_cons_self

theorem fits_of_none (hnone : ∀ x ∈ stack, unfiled x = none)
    (hfiled : ∀ x ∈ stack, ∀ c, filed x = some c → c ∈ line s) : Fits s t stack where
  settled x hx := hnone x (List.mem_of_mem_tail hx)
  due c hc := by
    rw [pending_none hnone] at hc
    cases hc
  apart u hu c d hc := by
    rw [pending_none hnone] at hc
    cases hc
  filed := hfiled

theorem Filed.beneath (h : Filed s none) (hstack : s.threads t = x :: below) :
    (∀ z ∈ below, unfiled z = none) ∧
      ∀ z ∈ below, ∀ c, WriteOrder.filed z = some c → c ∈ line s := by
  have hsettled := h.settled t nofun
  have hfiled := h.filed t nofun
  rw [hstack] at hsettled hfiled
  exact ⟨hsettled, fun z hz => hfiled z (List.mem_cons_of_mem x hz)⟩

/-- The thread goes on to a place behind the filing of its frame. -/
theorem Filed.go (h : Filed s none) (hstack : s.threads t = x :: below) (hy : unfiled y = none)
    (hfiled : ∀ c, WriteOrder.filed y = some c → c ∈ line s) :
    Filed (s.put t (y :: below)) none := by
  obtain ⟨hnone, hbelow⟩ := h.beneath hstack
  refine (h.off t).put (fits_of_none ?_ ?_)
  · exact List.forall_mem_cons.mpr ⟨hy, hnone⟩
  · exact List.forall_mem_cons.mpr ⟨hfiled, hbelow⟩

theorem Filed.return (h : Filed s none) (hstack : s.threads t = x :: below) {r : Return}
    (hr : r.result.isOk = true → r.call ∈ line s) : Filed (s.finish t below r) none := by
  obtain ⟨hnone, hbelow⟩ := h.beneath hstack
  exact (h.off t).finish (fits_of_none hnone hbelow) hr

/-- The frame of the call at the top joins the line. -/
theorem Filed.join (h : Filed s none) (hstack : s.threads t = x :: below) (hx : unfiled x = some c)
    (hline : (line s').Perm (line s ++ [c])) (hissued : s'.issued = s.issued)
    (hthreads : s'.threads = s.threads) (hreturns : s'.returned = s.returned) :
    Filed s' (some t) ∧ c ∈ line s' ∧ Fits s' t below ∧
      ∀ y, unfiled y = none → WriteOrder.filed y = some c → Fits s' t (y :: below) := by
  have hpending : pending (s.threads t) = some c := by
    rw [hstack]
    exact hx
  have hc : c ∈ line s' := hline.mem_iff.mpr (List.mem_append_right _ (List.mem_singleton_self c))
  obtain ⟨hnone, hbelow⟩ := h.beneath hstack
  have hbelow' : ∀ z ∈ below, ∀ d, WriteOrder.filed z = some d → d ∈ line s' :=
    fun z hz d hd => hline.mem_iff.mpr (List.mem_append_left _ (hbelow z hz d hd))
  refine ⟨?_, hc, fits_of_none hnone hbelow', fun y hy hfiled => fits_of_none ?_ ?_⟩
  · refine (h.off t).grow (h.due t nofun c hpending) ?_ hline hissued hthreads hreturns
    exact fun u hu d hd => h.apart t u nofun nofun hu.symm c d hpending hd
  · exact List.forall_mem_cons.mpr ⟨hy, hnone⟩
  · refine List.forall_mem_cons.mpr ⟨fun d hd => ?_, hbelow'⟩
    obtain rfl := Option.some.inj (hfiled.symm.trans hd)
    exact hc

theorem line_flushChunk (o : Options) (s : Crew) : line (s.flushChunk o) = line s := by
  simp only [line, Crew.flushChunk, Crew.transmit]
  rw [List.append_assoc, List.take_append_drop]

theorem line_transmit (s : Crew) (c : Call) :
    (line (s.transmit [c])).Perm (line s ++ [c]) := by
  simp only [line, Crew.transmit]
  rw [List.append_assoc, List.append_assoc]
  exact List.perm_append_comm.append_left s.written

theorem Filed.free (h : Filed s none) (hfree : Free (s.threads t)) :
    ∀ x ∈ s.threads t, unfiled x = none := by
  intro x hx
  have hsettled := h.settled t nofun
  cases hstack : s.threads t with
  | nil =>
    rw [hstack] at hx
    cases hx
  | cons y below =>
    rw [hstack] at hx hfree hsettled
    rcases List.mem_cons.mp hx with rfl | hx
    · cases x with
      | awaiting c inCallback => rfl
      | _ => exact hfree.elim
    · exact hsettled x hx

theorem Filed.invoke (h : Filed s none) (hfree : Free (s.threads t)) (command : CommandId)
    (payload : List UInt8) (expectResponse : Bool) :
    Filed (s.invoke t command payload expectResponse) none := by
  have hbump : Filed { s with issued := s.issued + 1 } none := by
    refine ⟨h.distinct, fun c hc => (h.issued c hc).trans (Nat.le_succ _), h.settled, ?_, h.apart,
      h.filed, h.returned⟩
    intro u hu c hc
    obtain ⟨hissued, hfresh, hpreceded⟩ := h.due u hu c hc
    exact ⟨hissued.trans (Nat.le_succ _), hfresh, hpreceded⟩
  unfold Crew.invoke
  dsimp only
  split
  · exact (hbump.off t).finish (hbump.fits t) fun hok => nomatch hok
  · refine (hbump.off t).put ⟨h.free hfree, ?_, ?_, ?_⟩
    · intro c hc
      obtain rfl := Option.some.inj hc
      refine ⟨le_rfl, fun hmem => ?_, h.returned⟩
      obtain ⟨d, hd, hnumber⟩ := List.mem_map.mp hmem
      exact absurd (h.issued d hd) (by simp only at hnumber; omega)
    · intro u hu c d hc hd
      obtain rfl := Option.some.inj hc
      have hd := (h.due u nofun d hd).issued
      simp only
      omega
    · exact List.forall_mem_cons.mpr ⟨nofun, h.filed t nofun⟩

theorem Filed.act (h : Filed s none) (hfree : Free (s.threads t)) (action : Action) :
    Filed (s.act t action) none := by
  have hnone := h.free hfree
  have hflush : ∀ x ∈ Point.entering none :: s.threads t, unfiled x = none :=
    List.forall_mem_cons.mpr ⟨rfl, hnone⟩
  have hheld : ∀ x ∈ Point.entering none :: s.threads t, ∀ c, WriteOrder.filed x = some c →
      c ∈ line s := List.forall_mem_cons.mpr ⟨nofun, h.filed t nofun⟩
  cases action with
  | invoke command payload expectResponse => exact h.invoke hfree command payload expectResponse
  | beginBatch => exact h.same rfl rfl rfl rfl
  | endBatch =>
    have hdepth : Filed { s with batchDepth := s.batchDepth - 1 } none := h.same rfl rfl rfl rfl
    simp only [Crew.act]
    split_ifs
    · exact (hdepth.off t).put (fits_of_none hflush hheld)
    · exact hdepth
  | flush => exact (h.off t).put (fits_of_none hflush hheld)

theorem Filed.decide (h : Filed s none) (o : Options)
    (hstack : s.threads t = .deciding c :: below) :
    Filed (s.proceed o t (.deciding c :: below)) none := by
  obtain ⟨hnone, hbelow⟩ := h.beneath hstack
  have hpending : pending (s.threads t) = some c := by
    rw [hstack]
    rfl
  have hdue := h.due t nofun c hpending
  have hchosen : ∀ d : Call, d.number = c.number → d.older = c.older → ∀ y, unfiled y = some d →
      WriteOrder.filed y = none → Fits s t (y :: below) := by
    intro d hnumber holder y hy hfiled
    refine ⟨hnone, ?_, ?_, List.forall_mem_cons.mpr ⟨by simp [hfiled], hbelow⟩⟩
    · intro e he
      obtain rfl := Option.some.inj (hy.symm.trans he)
      exact ⟨hnumber ▸ hdue.issued, hnumber ▸ hdue.fresh, holder ▸ hdue.preceded⟩
    · intro u hu e f he hf
      obtain rfl := Option.some.inj (hy.symm.trans he)
      exact hnumber ▸ h.apart t u nofun nofun hu.symm c f hpending hf
  refine (h.off t).put ?_
  split_ifs
  · exact hchosen { c with depth := s.batchDepth } rfl rfl _ rfl rfl
  · exact hchosen { c with depth := s.batchDepth } rfl rfl _ rfl rfl

theorem Filed.proceed (h : Filed s none) (o : Options) (hstack : s.threads t = stack) :
    Filed (s.proceed o t stack) none := by
  cases stack with
  | nil => exact h
  | cons x below =>
    obtain ⟨hnone, hbelow⟩ := h.beneath hstack
    have hx : ∀ c, WriteOrder.filed x = some c → c ∈ line s := by
      have hfiled := h.filed t nofun
      rw [hstack] at hfiled
      exact hfiled x List.mem_cons_self
    cases x with
    | deciding c => exact h.decide o hstack
    | queueing c =>
      simp only [Crew.proceed]
      split_ifs
      · refine h.return hstack fun hok => ?_
        cases hok
      · have hline : (line { s with
            queued := s.queued ++ [c], queuedBytes := s.queuedBytes + c.encoded.length }).Perm
            (line s ++ [c]) := by
          simp only [line]
          rw [List.append_assoc]
        obtain ⟨hjoined, -, -, hfits⟩ := h.join hstack rfl hline rfl rfl rfl
        exact hjoined.put (hfits _ rfl rfl)
    | queued c =>
      simp only [Crew.proceed]
      split_ifs
      · exact h.go hstack rfl hx
      · exact h.return hstack fun _ => hx c rfl
    | writing c =>
      obtain ⟨hjoined, hc, hbare, hfits⟩ := h.join hstack rfl (line_transmit s c) rfl rfl rfl
      simp only [Crew.proceed]
      split_ifs
      · refine Filed.put (hjoined.same rfl rfl rfl rfl) ?_
        obtain ⟨hsettled, hdue, hapart, hfiled⟩ := hfits (.awaiting c false) rfl rfl
        exact ⟨hsettled, hdue, hapart, hfiled⟩
      · exact hjoined.finish hbare fun _ => hc
      · exact h
    | awaiting c inCallback => exact h
    | entering cause =>
      simp only [Crew.proceed]
      split_ifs
      · exact Filed.go (h.same rfl rfl rfl rfl) hstack rfl hx
      · exact h
    | flushing cause =>
      simp only [Crew.proceed]
      split_ifs
      · exact h.same (line_flushChunk o s) rfl rfl rfl
      · cases cause with
        | none =>
          have hleft : Filed s.leave none := h.same rfl rfl rfl rfl
          exact (hleft.off t).put (fits_of_none hnone hbelow)
        | some c =>
          have hleft : Filed s.leave none := h.same rfl rfl rfl rfl
          exact hleft.return hstack fun _ => hx c rfl

theorem Filed.receive (h : Filed s none) (hstack : s.threads t = stack)
    (incoming : List (Packet × Source)) : Filed (s.receive t stack incoming) none := by
  unfold Crew.receive
  split
  · rename_i c inCallback below arrival rest
    have hc : c ∈ line s := by
      have hfiled := h.filed t nofun
      rw [hstack] at hfiled
      exact hfiled _ List.mem_cons_self c rfl
    have hrest : Filed { s with incoming := rest } none := h.same rfl rfl rfl rfl
    have hleft : Filed (Crew.leave { s with incoming := rest }) none := h.same rfl rfl rfl rfl
    dsimp only
    split_ifs
    · exact hleft.return hstack fun _ => hc
    · refine hrest.go hstack rfl fun d hd => ?_
      obtain rfl := Option.some.inj hd
      exact hc
  · exact h

theorem Filed.fail (h : Filed s none) (hstack : s.threads t = stack) (error : PyError) :
    Filed (s.fail t error stack) none := by
  unfold Crew.fail
  split
  · have hleft : Filed s.leave none := h.same rfl rfl rfl rfl
    exact hleft.return hstack fun hok => nomatch hok
  · exact h

theorem Filed.step (h : Filed s none) (b : Board) (o : Options) (move : Move) :
    Filed (s.step b o move) none := by
  cases move with
  | act t action =>
    simp only [Crew.step]
    split_ifs with hfree
    · exact h.act hfree action
    · exact h
  | proceed t => exact h.proceed o rfl
  | receive t => exact h.receive rfl _
  | fail t error => exact h.fail rfl error
  | takeCommand env =>
    simp only [Crew.step]
    split
    · exact h
    · exact h.same rfl rfl rfl rfl
  | update env => exact h.same rfl rfl rfl rfl
  | counterTick env id => exact h.same rfl rfl rfl rfl
  | encoderTick env id => exact h.same rfl rfl rfl rfl
  | lose => exact h.same rfl rfl rfl rfl
  | garble packet => exact h.same rfl rfl rfl rfl

end Steps

/-! ### The order -/

/-- The call whose frame the move writes past the queue. -/
def direct (s : Crew) : Move → Option Call
  | .proceed t =>
    match s.threads t with
    | .writing c :: _ => if s.MayEnter t then some c else none
    | _ => none
  | _ => none

/-- No frame of a call that had returned before it began waits in the queue. -/
def Unhurried (s : Crew) (move : Move) : Prop :=
  ∀ c ∈ direct s move, ∀ d ∈ s.queued, d.number ∉ c.older

/-- A frame is written when the frames of all calls that had returned before its call began have
been; so none of these is written after it. -/
structure InOrder (s : Crew) : Prop where
  preceded : Preceded Call.number Call.older [] s.written
  not_overtaken : s.written.Pairwise fun earlier later => later.number ∉ earlier.older

section Order

variable {s : Crew} {c : Call} {move : Move}

/-- A move writes one frame directly, or moves frames along the line, or adds one at its end. -/
theorem step_direct (b : Board) (o : Options) (hdirect : direct s move = some c) :
    (s.step b o move).written = s.written ++ [c] ∧ (s.step b o move).queued = s.queued ∧
      ∃ t, pending (s.threads t) = some c := by
  cases move with
  | proceed t =>
    simp only [direct] at hdirect
    split at hdirect
    · rename_i d below hstack
      split_ifs at hdirect with hmay
      obtain rfl := Option.some.inj hdirect
      simp only [Crew.step, hstack, Crew.proceed, if_pos hmay]
      split_ifs
      · exact ⟨rfl, rfl, t, by rw [hstack]; rfl⟩
      · exact ⟨rfl, rfl, t, by rw [hstack]; rfl⟩
    · cases hdirect
  | _ => cases hdirect

theorem proceed_line (o : Options) (t : ℕ) (hdirect : direct s (.proceed t) = none) :
    line (s.proceed o t (s.threads t)) = line s ∨
      ∃ c, pending (s.threads t) = some c ∧
        line (s.proceed o t (s.threads t)) = line s ++ [c] := by
  simp only [direct] at hdirect
  cases hstack : s.threads t with
  | nil => exact Or.inl rfl
  | cons x below =>
    rw [hstack] at hdirect
    cases x with
    | deciding c => exact Or.inl rfl
    | queueing c =>
      simp only [Crew.proceed]
      split_ifs
      · exact Or.inl rfl
      · refine Or.inr ⟨c, rfl, ?_⟩
        exact (List.append_assoc s.written s.queued [c]).symm
    | queued c =>
      simp only [Crew.proceed]
      split_ifs
      · exact Or.inl rfl
      · exact Or.inl rfl
    | writing c =>
      have hblocked : ¬ s.MayEnter t := by
        intro hmay
        simp [hmay] at hdirect
      rw [Crew.proceed, if_neg hblocked]
      exact Or.inl rfl
    | awaiting c inCallback => exact Or.inl rfl
    | entering cause =>
      simp only [Crew.proceed]
      split_ifs
      · exact Or.inl rfl
      · exact Or.inl rfl
    | flushing cause =>
      simp only [Crew.proceed]
      split_ifs
      · exact Or.inl (line_flushChunk o s)
      · cases cause with
        | none => exact Or.inl rfl
        | some c => exact Or.inl rfl

theorem act_line (t : ℕ) (action : Action) : line (s.act t action) = line s := by
  cases action with
  | invoke command payload expectResponse =>
    simp only [Crew.act, Crew.invoke]
    split <;> rfl
  | endBatch =>
    simp only [Crew.act]
    split_ifs <;> rfl
  | _ => rfl

theorem step_line (b : Board) (o : Options) (hdirect : direct s move = none) :
    line (s.step b o move) = line s ∨
      ∃ t c, pending (s.threads t) = some c ∧ line (s.step b o move) = line s ++ [c] := by
  cases move with
  | act t action =>
    simp only [Crew.step]
    split_ifs
    · exact Or.inl (act_line t action)
    · exact Or.inl rfl
  | proceed t => exact (proceed_line o t hdirect).imp_right fun h => ⟨t, h⟩
  | receive t =>
    simp only [Crew.step, Crew.receive]
    split
    · split_ifs
      · exact Or.inl rfl
      · exact Or.inl rfl
    · exact Or.inl rfl
  | fail t error =>
    simp only [Crew.step, Crew.fail]
    split
    · exact Or.inl rfl
    · exact Or.inl rfl
  | takeCommand env =>
    simp only [Crew.step]
    split
    · exact Or.inl rfl
    · exact Or.inl rfl
  | _ => exact Or.inl rfl

/-- The line is in order as long as no frame is written past one that it must follow. -/
theorem preceded_step (hfiled : Filed s none) (b : Board) (o : Options)
    (h : Preceded Call.number Call.older [] (line s)) (hcalm : Unhurried s move) :
    Preceded Call.number Call.older [] (line (s.step b o move)) := by
  cases hdirect : direct s move with
  | some c =>
    obtain ⟨hwritten, hqueued, t, hpending⟩ := step_direct b o hdirect
    have holder := (hfiled.due t nofun c hpending).preceded
    rw [line, hwritten, hqueued]
    refine Preceded.insert h fun n hn => ?_
    rw [numbers, line, List.map_append] at holder
    refine (List.mem_append.mp (holder hn)).resolve_right fun hmem => ?_
    obtain ⟨d, hd, rfl⟩ := List.mem_map.mp hmem
    exact hcalm c hdirect d hd hn
  | none =>
    rcases step_line b o hdirect with hsame | ⟨t, c, hpending, hlonger⟩
    · rwa [hsame]
    · rw [hlonger]
      exact preceded_append.mpr ⟨h, (hfiled.due t nofun c hpending).preceded, trivial⟩

theorem in_order (hfiled : Filed s none) (h : Preceded Call.number Call.older [] (line s)) :
    InOrder s := by
  have hwritten := (preceded_append.mp h).1
  have hdistinct : (numbers s.written ++ numbers s.queued).Nodup := by
    have hline := hfiled.distinct
    rwa [numbers, line, List.map_append] at hline
  exact ⟨hwritten, hwritten.pairwise (List.nodup_append.mp hdistinct).1⟩

/-- If the frame written directly has all it needs before it, none of that is in the queue. -/
theorem unhurried_of_in_order (hfiled : Filed s none) (b : Board) (o : Options)
    (h : InOrder (s.step b o move)) : Unhurried s move := by
  intro c hc d hd hneeded
  obtain ⟨hwritten, -, -⟩ := step_direct b o hc
  have hpreceded := h.preceded
  rw [hwritten] at hpreceded
  have hplaced : d.number ∈ numbers s.written := preceded_last hpreceded hneeded
  have hdistinct := hfiled.distinct
  rw [numbers, line, List.map_append] at hdistinct
  exact (List.nodup_append.mp hdistinct).2.2 _ hplaced _ (List.mem_map_of_mem hd) rfl

end Order

/-- For every run of the threads, the flushers, the device and the line: the order of issue is
kept in every state, exactly if no frame is written past the frame of an older call that waits
in the queue. -/
theorem order_iff (b : Board) (o : Options) (moves : List Move) :
    EachState (Crew.step b o) InOrder {} moves ↔ EachStep (Crew.step b o) Unhurried {} moves := by
  constructor
  · exact eachStep_of_eachState (I := fun s : Crew => Filed s none)
      (fun _ move h => h.step b o move)
      (fun _ _ hfiled _ hnext => unhurried_of_in_order hfiled b o hnext) filed_initial
  · exact eachState_of_eachStep
      (I := fun s : Crew => Filed s none ∧ Preceded Call.number Call.older [] (line s))
      (fun _ move h hcalm => ⟨h.1.step b o move, preceded_step h.1 b o h.2 hcalm⟩)
      (fun _ h => in_order h.1 h.2) ⟨filed_initial, trivial⟩

/-- A fire-and-forget write waits for the flusher; the stop after it is written directly, and
then the flusher writes the older frame. -/
theorem stop_overtakes_write :
    let s := after (Crew.step FirmwareDevice.sampleBoard { flushRateHz := some 50 }) {}
      [.act 0 (.invoke .digitalWrite [13, 1] false), .proceed 0, .proceed 0, .proceed 0,
        .act 0 (.invoke .emergencyStop [] true), .proceed 0, .proceed 0,
        .takeCommand (FirmwareDevice.envAt 0), .receive 0,
        .act 1 .flush, .proceed 1, .proceed 1]
    s.returned = [1, 2] ∧
      s.written.map (fun c => (c.number, c.command, c.older)) =
        [(2, .emergencyStop, [1]), (1, .digitalWrite, [])] ∧ ¬ InOrder s := by
  intro s
  have hovertaken : ¬ s.written.Pairwise fun earlier later => later.number ∉ earlier.older := by
    decide +kernel
  exact ⟨by decide +kernel, by decide +kernel, fun h => hovertaken h.not_overtaken⟩

end WriteOrder
