import TeensyIo.ArrivalCurves
import TeensyIo.DropOldestQueues

/-! # Queues that are served in turns

A consumer takes up to `rate` entries whenever it has its turn. Between the turns entries arrive,
and as long as they stay within a curve the queue has room for, none is dropped. -/
namespace ServedQueues

open BoundedQueues DropOldestQueues MachineRuns ArrivalCurves

universe u v

variable {ε : Type u} {κ : Type v} {S : Setting ε κ} {rate burst : ℕ}

inductive Turn (ε : Type u) where
  | arrive (item : ε)
  | serve

/-- How many entries arrive before each turn of the consumer, and after the last one. -/
def rounds : ℕ → List (Turn ε) → List ℕ
  | pending, [] => [pending]
  | pending, .arrive _ :: turns => rounds (pending + 1) turns
  | pending, .serve :: turns => pending :: rounds 0 turns

def serves (turns : List (Turn ε)) : ℕ :=
  turns.countP fun
    | .serve => true
    | .arrive _ => false

def turnActions (rate : ℕ) : Turn ε → List (Action ε)
  | .arrive item => [.arrive item]
  | .serve => List.replicate rate .take

/-- The queue, how much arrived before each turn so far, and since then. -/
structure Served (ε : Type u) where
  queue : Queue ε := {}
  closed : List ℕ := []
  pending : ℕ := 0

def turn (S : Setting ε κ) (rate : ℕ) (q : Served ε) (t : Turn ε) : Served ε :=
  let queue := after (DropOldestQueues.step S) q.queue (turnActions rate t)
  match t with
  | .arrive _ => { q with queue := queue, pending := q.pending + 1 }
  | .serve => { queue := queue, closed := q.closed ++ [q.pending], pending := 0 }

/-! ### One turn -/

/-- Taking from an empty queue changes nothing, so that a turn may stop there. -/
theorem after_takes (q : Queue ε) (n : ℕ) :
    after (DropOldestQueues.step S) q (List.replicate n .take) =
      { q with held := q.held.drop n, book := q.book.depart .sent (q.held.take n) } := by
  induction n generalizing q with
  | zero =>
    rw [List.take_zero, Book.depart, List.map_nil, List.append_nil]
    rfl
  | succ n ih =>
    rw [List.replicate_succ, after_cons, ih]
    cases q with
    | mk held dropped book called =>
      cases held with
      | nil =>
        simp only [DropOldestQueues.step, Book.depart, List.tail_nil, List.drop_nil, List.take_nil,
          List.map_nil, List.append_nil]
      | cons oldest held =>
        simp only [DropOldestQueues.step, Book.depart, List.tail_cons, List.drop_succ_cons,
          List.take_succ_cons, List.take_zero, List.map_cons, List.map_nil, List.append_assoc,
          List.singleton_append]

/-- Nothing has been lost, and what waits has arrived within the curve. -/
structure Ahead (S : Setting ε κ) (rate : ℕ) (q : Served ε) : Prop where
  sound : Sound S q.queue
  lossless : q.queue.book.withFate .lost = []
  waiting : q.queue.held.length ≤ carried rate 0 q.closed + q.pending

theorem ahead_empty : Ahead S rate {} := ⟨sound_empty S, rfl, Nat.le_refl 0⟩

theorem arrive_room {q : Queue ε} (hroom : q.held.length < S.size) (item : ε) :
    DropOldestQueues.step S q (.arrive item) =
      { q with
        held := q.held ++ [item], book := q.book.offer item
        called := q.called ++ calls (S.listeners (S.topic item)) item } := by
  have hnone : evicted S.size q.held = [] := if_neg (Nat.not_le_of_lt hroom)
  rw [DropOldestQueues.step, hnone, Book.depart, List.map_nil, List.append_nil]
  rfl

theorem rounds_head (pending : ℕ) (turns : List (Turn ε)) :
    ∃ n later, rounds pending turns = n :: later ∧ pending ≤ n := by
  induction turns generalizing pending with
  | nil => exact ⟨pending, [], rfl, Nat.le_refl _⟩
  | cons t turns ih =>
    cases t with
    | arrive item =>
      obtain ⟨n, later, hrounds, hle⟩ := ih (pending + 1)
      exact ⟨n, later, hrounds, by omega⟩
    | serve => exact ⟨pending, rounds 0 turns, rfl, Nat.le_refl _⟩

/-- The curve bounds the queue at every moment before the run has ended. -/
theorem peak_of_rounds {q : Served ε} {turns : List (Turn ε)}
    (hcurve : Constrained rate burst (q.closed ++ rounds q.pending turns)) :
    carried rate 0 q.closed + q.pending ≤ rate + burst := by
  obtain ⟨n, later, hrounds, hle⟩ := rounds_head q.pending turns
  rw [hrounds] at hcurve
  have hpart : q.closed ++ [n] <:+: q.closed ++ n :: later :=
    ⟨[], later, by rw [List.nil_append, List.append_assoc, List.singleton_append]⟩
  have hpeak := peak_le (hcurve.part hpart)
  omega

theorem Ahead.arrive {q : Served ε} (h : Ahead S rate q)
    (hroom : carried rate 0 q.closed + q.pending < S.size) (item : ε) :
    Ahead S rate (turn S rate q (.arrive item)) := by
  have hwaiting := h.waiting
  have hstep := arrive_room (S := S) (q := q.queue) (by omega) item
  constructor
  · exact sound_step h.sound (by omega) (.arrive item)
  · change (DropOldestQueues.step S q.queue (.arrive item)).book.withFate .lost = []
    rw [hstep]
    exact h.lossless
  · change (DropOldestQueues.step S q.queue (.arrive item)).held.length ≤ _
    rw [hstep, List.length_append, List.length_singleton]
    change _ ≤ carried rate 0 q.closed + (q.pending + 1)
    omega

theorem Ahead.serve {q : Served ε} (h : Ahead S rate q) (hsize : 1 ≤ S.size) :
    Ahead S rate (turn S rate q .serve) := by
  have hqueue : (turn S rate q .serve).queue = _ := after_takes (S := S) q.queue rate
  constructor
  · exact sound_run hsize h.sound (List.replicate rate .take)
  · rw [hqueue]
    exact (Book.withFate_depart_of_ne (by decide) _).trans h.lossless
  · have hwaiting := h.waiting
    rw [hqueue]
    change (q.queue.held.drop rate).length ≤ carried rate 0 (q.closed ++ [q.pending]) + 0
    rw [List.length_drop, carried_append, carried, carried]
    omega

/-! ### Runs -/

theorem Ahead.along (hsize : rate + burst ≤ S.size) (hpos : 1 ≤ S.size) {turns : List (Turn ε)}
    {q : Served ε} (h : Ahead S rate q)
    (hcurve : Constrained rate burst (q.closed ++ rounds q.pending turns)) :
    EachState (turn S rate)
        (fun q => Ahead S rate q ∧ carried rate 0 q.closed + q.pending ≤ rate + burst ∧
          carried rate 0 q.closed ≤ burst) q turns := by
  have hclosed : carried rate 0 q.closed ≤ burst :=
    carried_le (hcurve.part (List.prefix_append _ _).isInfix)
  have hpeak := peak_of_rounds hcurve
  induction turns generalizing q with
  | nil => exact ⟨h, hpeak, hclosed⟩
  | cons t turns ih =>
    refine ⟨⟨h, hpeak, hclosed⟩, ?_⟩
    cases t with
    | arrive item =>
      have hnext := @peak_of_rounds _ rate burst (turn S rate q (.arrive item)) turns hcurve
      have hroom : carried rate 0 q.closed + q.pending < S.size := by
        change carried rate 0 q.closed + (q.pending + 1) ≤ _ at hnext
        omega
      exact ih (h.arrive hroom item) hcurve hclosed hnext
    | serve =>
      have hcurve' : Constrained rate burst
          ((q.closed ++ [q.pending]) ++ rounds 0 turns) := by
        rw [List.append_assoc]
        exact hcurve
      have hlater : carried rate 0 (q.closed ++ [q.pending]) ≤ burst :=
        carried_le (hcurve'.part (List.prefix_append _ _).isInfix)
      exact ih (h.serve hpos) hcurve' hlater (peak_of_rounds (q := turn S rate q .serve) hcurve')

/-- A queue with room for the curve drops nothing; what waits after a turn is the burst at most. -/
theorem never_drops (hsize : rate + burst ≤ S.size) (hpos : 1 ≤ S.size) {turns : List (Turn ε)}
    (hcurve : Constrained rate burst (rounds 0 turns)) :
    EachState (turn S rate)
      (fun q => q.queue.dropped = 0 ∧ q.queue.held.length ≤ burst + q.pending) {} turns := by
  have hahead := ahead_empty.along (S := S) hsize hpos hcurve
  refine eachState_mono ?_ hahead
  rintro q ⟨h, -, hclosed⟩
  have hwaiting := h.waiting
  refine ⟨?_, by omega⟩
  rw [h.sound.dropped, h.lossless]
  rfl

/-- Each turn takes `rate` of the entries that have not been taken, or the rest of them. -/
theorem lag_le {q : Served ε} {turns : List (Turn ε)} {n : ℕ}
    (h : EachState (turn S rate) (Ahead S rate) q turns) (hn : n ≤ q.queue.book.offered.length) :
    n - ((after (turn S rate) q turns).queue.book.withFate .sent).length ≤
      n - (q.queue.book.withFate .sent).length - rate * serves turns := by
  induction turns generalizing q with
  | nil => exact Nat.le_refl _
  | cons t turns ih =>
    obtain ⟨hahead, hlater⟩ := h
    cases t with
    | arrive item =>
      have hsent : (turn S rate q (.arrive item)).queue.book.withFate .sent =
          q.queue.book.withFate .sent := Book.withFate_depart_of_ne (by decide) _
      have hoffered : (turn S rate q (.arrive item)).queue.book.offered =
          q.queue.book.offered ++ [item] := rfl
      have hrest := ih hlater (by rw [hoffered, List.length_append]; omega)
      rw [hsent] at hrest
      exact hrest
    | serve =>
      have hqueue : (turn S rate q .serve).queue = _ := after_takes (S := S) q.queue rate
      have hcount := hahead.sound.balanced.count
      rw [hahead.lossless, List.length_nil] at hcount
      have hsent : ((turn S rate q .serve).queue.book.withFate .sent).length =
          (q.queue.book.withFate .sent).length + min rate q.queue.held.length := by
        rw [hqueue, Book.withFate_depart_self, List.length_append, List.length_take]
      have hrest := ih hlater (by rw [hqueue]; exact hn)
      have hserves : serves (.serve :: turns) = serves turns + 1 := List.countP_cons_of_pos rfl
      rw [hserves, Nat.mul_succ]
      rw [hsent] at hrest
      exact hrest.trans (by omega)

theorem turn_queue (q : Served ε) (turns : List (Turn ε)) :
    (after (turn S rate) q turns).queue =
      after (DropOldestQueues.step S) q.queue (turns.flatMap (turnActions rate)) := by
  induction turns generalizing q with
  | nil => rfl
  | cons t turns ih =>
    rw [after_cons, ih, List.flatMap_cons, after_append]
    cases t <;> rfl

/-- Where nothing has been lost, what has departed has been sent. -/
theorem departed_sent {book : Book ε} (h : book.withFate .lost = []) :
    book.departed.map Prod.snd = book.withFate .sent := by
  have hsent : ∀ e ∈ book.departed, e.1 = .sent := by
    rintro ⟨fate, item⟩ he
    cases fate with
    | sent => rfl
    | lost =>
      have hlost : item ∈ book.withFate .lost :=
        List.mem_map.mpr ⟨(.lost, item), List.mem_filter.mpr ⟨he, by simp⟩, rfl⟩
      rw [h] at hlost
      cases hlost
  rw [Book.withFate, List.filter_eq_self.mpr (by simpa using hsent)]

/-- What has arrived has been taken, in order, when the consumer has had the turns that it takes to
take the burst. -/
theorem taken_in_time (hsize : rate + burst ≤ S.size) (hpos : 1 ≤ S.size)
    {before later : List (Turn ε)}
    (hcurve : Constrained rate burst (rounds 0 (before ++ later)))
    (henough : rate + burst ≤ rate * serves later) :
    (after (turn S rate) {} before).queue.book.offered <+:
      (after (turn S rate) {} (before ++ later)).queue.book.withFate .sent := by
  have hstates := ahead_empty.along (S := S) hsize hpos hcurve
  have hlater := eachState_later hstates
  have hends := (eachState_after hstates).1
  rw [after_append] at hends ⊢
  generalize after (turn S rate) {} before = q at hlater hends ⊢
  obtain ⟨hq, hpeak, -⟩ := eachState_first hlater
  have hlag := lag_le (eachState_mono (fun _ h => h.1) hlater) (Nat.le_refl _)
  have hoffered : q.queue.book.offered <+: (after (turn S rate) q later).queue.book.offered := by
    rw [turn_queue, offered_after]
    exact List.prefix_append _ _
  have hsent : (after (turn S rate) q later).queue.book.withFate .sent <+:
      (after (turn S rate) q later).queue.book.offered := by
    rw [hends.sound.balanced, departed_sent hends.lossless]
    exact List.prefix_append _ _
  have hcount := hq.sound.balanced.count
  have hwaiting := hq.waiting
  rw [hq.lossless, List.length_nil] at hcount
  exact List.prefix_of_prefix_length_le hoffered hsent (by omega)

end ServedQueues
