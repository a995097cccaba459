import TeensyIo.BoundedQueues
import TeensyIo.MachineRuns

/-! # Queues that drop their oldest entry

A queue of limited size into which everything is put, to the loss of the oldest entry where it is
full, and from which a consumer takes. Listeners are told of every arrival. -/
namespace DropOldestQueues

open BoundedQueues MachineRuns

universe u v

variable {ε : Type u} {κ : Type v}

/-- A call of the listener in this place of its list. -/
structure Call (ε : Type u) where
  listener : ℕ
  place : ℕ
  item : ε
  deriving DecidableEq

/-- The listeners of a list, one after the other. -/
def calls (listeners : List ℕ) (item : ε) : List (Call ε) :=
  listeners.zipIdx.map fun c => ⟨c.1, c.2, item⟩

/-- The size of the queue, and who listens to an arrival. -/
structure Setting (ε : Type u) (κ : Type v) where
  size : ℕ
  topic : ε → κ
  listeners : κ → List ℕ

/-- `dropped` is the counter of the queue, `book` what has become of its entries. -/
structure Queue (ε : Type u) where
  held : List ε := []
  dropped : ℕ := 0
  book : Book ε := {}
  called : List (Call ε) := []

inductive Action (ε : Type u) where
  | arrive (item : ε)
  | take

/-- What has to go before the next arrival. -/
def evicted (size : ℕ) (held : List ε) : List ε := if size ≤ held.length then held.take 1 else []

def step (S : Setting ε κ) (q : Queue ε) : Action ε → Queue ε
  | .arrive item =>
    { held := q.held.drop (evicted S.size q.held).length ++ [item]
      dropped := q.dropped + (evicted S.size q.held).length
      book := (q.book.depart .lost (evicted S.size q.held)).offer item
      called := q.called ++ calls (S.listeners (S.topic item)) item }
  | .take => { q with held := q.held.tail, book := q.book.depart .sent (q.held.take 1) }

def arrivals (as : List (Action ε)) : List ε :=
  as.filterMap fun
    | .arrive item => some item
    | .take => none

/-- The arrivals of a topic that the listener in a place has been told of. -/
def told [DecidableEq κ] (S : Setting ε κ) (topic : κ) (place : ℕ) (called : List (Call ε)) :
    List ε :=
  (called.filter fun c => S.topic c.item = topic ∧ c.place = place).map Call.item

/-- From one book to the next one entry leaves at most, the oldest, and none is lost unless the
queue is full. -/
def OldestLeaves (size : ℕ) (held : List ε) (book book' : Book ε) : Prop :=
  book'.departed = book.departed ∨
    ∃ fate oldest, held.head? = some oldest ∧
      book'.departed = book.departed ++ [(fate, oldest)] ∧ (fate = .lost → held.length = size)

def LosesOldest (S : Setting ε κ) (q : Queue ε) (a : Action ε) : Prop :=
  OldestLeaves S.size q.held q.book (step S q a).book

/-! ### One step -/

section Steps

variable {S : Setting ε κ} {q : Queue ε}

structure Sound (S : Setting ε κ) (q : Queue ε) : Prop where
  room : q.held.length ≤ S.size
  balanced : q.book.Balanced q.held
  dropped : q.dropped = (q.book.withFate .lost).length

theorem sound_empty (S : Setting ε κ) : Sound S {} := ⟨Nat.zero_le _, Book.balanced_empty, rfl⟩

theorem evicted_append (size : ℕ) (held : List ε) :
    held = evicted size held ++ held.drop (evicted size held).length := by
  rw [evicted]
  split_ifs
  · cases held <;> rfl
  · rfl

theorem length_after_eviction {size : ℕ} (hsize : 1 ≤ size) {held : List ε}
    (hroom : held.length ≤ size) : (held.drop (evicted size held).length).length < size := by
  rw [evicted]
  split_ifs with hfull
  · cases held with
    | nil => exact hsize
    | cons oldest held =>
      rw [List.length_cons] at hroom
      change held.length < size
      omega
  · change held.length < size
    omega

theorem sound_step (h : Sound S q) (hsize : 1 ≤ S.size) (a : Action ε) : Sound S (step S q a) := by
  cases a with
  | arrive item =>
    constructor
    · have hlength := length_after_eviction hsize h.room
      rw [step, List.length_append]
      exact hlength
    · have hheld : (q.book.depart .lost (evicted S.size q.held)).Balanced
          (q.held.drop (evicted S.size q.held).length) := by
        apply Book.Balanced.depart
        rw [← evicted_append]
        exact h.balanced
      exact hheld.offer item
    · rw [step, Book.withFate_offer, Book.withFate_depart_self,
        List.length_append, h.dropped]
  | take =>
    have hheld : q.held.take 1 ++ q.held.tail = q.held := by cases q.held <;> rfl
    constructor
    · have hlength := h.room
      rw [step, List.length_tail]
      omega
    · apply Book.Balanced.depart
      change q.book.Balanced (q.held.take 1 ++ q.held.tail)
      rw [hheld]
      exact h.balanced
    · rw [step, Book.withFate_depart_of_ne (by decide)]
      exact h.dropped

theorem losesOldest (h : Sound S q) (a : Action ε) : LosesOldest S q a := by
  have hroom := h.room
  cases hheld : q.held with
  | nil =>
    left
    cases a with
    | arrive item =>
      have hnone : evicted S.size q.held = [] := by
        rw [evicted, hheld]
        split_ifs <;> rfl
      rw [step, hnone]
      exact List.append_nil _
    | take =>
      rw [step, hheld]
      exact List.append_nil _
  | cons oldest held =>
    cases a with
    | arrive item =>
      by_cases hfull : S.size ≤ q.held.length
      · right
        refine ⟨.lost, oldest, by rw [hheld]; rfl, ?_, fun _ => Nat.le_antisymm hroom hfull⟩
        rw [step, evicted, if_pos hfull, hheld]
        rfl
      · left
        rw [step, evicted, if_neg hfull]
        exact List.append_nil _
    | take =>
      right
      refine ⟨.sent, oldest, by rw [hheld]; rfl, ?_, nofun⟩
      rw [step, hheld]
      rfl

end Steps

/-! ### Listeners -/

section Listeners

variable [DecidableEq κ] {S : Setting ε κ} {topic : κ} {place : ℕ}

theorem told_append (before later : List (Call ε)) :
    told S topic place (before ++ later) =
      told S topic place before ++ told S topic place later := by
  rw [told, List.filter_append, List.map_append]
  rfl

theorem filter_zipIdx (listeners : List ℕ) {start place : ℕ} (hlow : start ≤ place)
    (hhigh : place < start + listeners.length) :
    ((listeners.zipIdx start).filter fun c => c.2 = place).length = 1 := by
  induction listeners generalizing start with
  | nil =>
    rw [List.length_nil] at hhigh
    omega
  | cons listener listeners ih =>
    rw [List.zipIdx_cons, List.filter_cons]
    by_cases hhere : start = place
    · have hnone : (listeners.zipIdx (start + 1)).filter (fun c => c.2 = place) = [] := by
        rw [List.filter_eq_nil_iff]
        intro c hc
        have := List.le_snd_of_mem_zipIdx hc
        simp only [decide_eq_true_eq]
        omega
      rw [if_pos (by simpa using hhere), hnone]
      rfl
    · rw [if_neg (by simpa using hhere)]
      rw [List.length_cons] at hhigh
      exact ih (by omega) (by omega)

/-- A listener of the topic is told of an arrival once, the others are not. -/
theorem told_calls (hplace : place < (S.listeners topic).length) (item : ε) :
    told S topic place (calls (S.listeners (S.topic item)) item) =
      if S.topic item = topic then [item] else [] := by
  rw [told, calls, List.filter_map]
  by_cases htopic : S.topic item = topic
  · have hone := filter_zipIdx (S.listeners topic) (Nat.zero_le place) (by omega)
    obtain ⟨c, hc⟩ := List.length_eq_one_iff.mp hone
    have hfilter : (S.listeners (S.topic item)).zipIdx.filter
        ((fun c : Call ε => decide (S.topic c.item = topic ∧ c.place = place)) ∘
          fun c => ⟨c.1, c.2, item⟩) = [c] := by
      rw [← hc, htopic]
      simp [Function.comp_def, htopic]
    rw [hfilter, if_pos htopic]
    rfl
  · rw [if_neg htopic, List.map_eq_nil_iff, List.map_eq_nil_iff, List.filter_eq_nil_iff]
    intro c _
    simp [htopic]

end Listeners

/-! ### Runs -/

section Runs

variable {S : Setting ε κ}

theorem sound_run (hsize : 1 ≤ S.size) {q : Queue ε} (h : Sound S q) (as : List (Action ε)) :
    Sound S (after (step S) q as) :=
  @after_preserves (Queue ε) (Action ε) (step S) (Sound S) (fun _ a h => sound_step h hsize a) q h
    as

theorem sound_after (hsize : 1 ≤ S.size) (as : List (Action ε)) : Sound S (after (step S) {} as) :=
  sound_run hsize (sound_empty S) as

theorem offered_after (q : Queue ε) (as : List (Action ε)) :
    (after (step S) q as).book.offered = q.book.offered ++ arrivals as := by
  induction as generalizing q with
  | nil => exact (List.append_nil _).symm
  | cons a as ih =>
    rw [after_cons, ih]
    cases a with
    | arrive item =>
      change (q.book.offered ++ [item]) ++ _ = _
      rw [List.append_assoc]
      rfl
    | take => rfl

theorem told_after [DecidableEq κ] {topic : κ} {place : ℕ}
    (hplace : place < (S.listeners topic).length) (q : Queue ε) (as : List (Action ε)) :
    told S topic place (after (step S) q as).called =
      told S topic place q.called ++ (arrivals as).filter fun item => S.topic item = topic := by
  induction as generalizing q with
  | nil => exact (List.append_nil _).symm
  | cons a as ih =>
    rw [after_cons, ih]
    cases a with
    | arrive item =>
      change told S topic place (q.called ++ calls (S.listeners (S.topic item)) item) ++ _ =
        _ ++ (item :: arrivals as).filter _
      rw [told_append, told_calls hplace, List.append_assoc, List.filter_cons]
      by_cases htopic : S.topic item = topic
      · rw [if_pos htopic, if_pos (decide_eq_true htopic)]
        rfl
      · rw [if_neg htopic, if_neg (by simpa using htopic)]
        rfl
    | take => rfl

/-- Over every run a queue of at least one place stays within its size, hands out its arrivals in
order but for those that are lost, loses the oldest only where it is full, counts what it loses
and tells every listener of every arrival of its topic once. -/
theorem run_sound (hsize : 1 ≤ S.size) (as : List (Action ε)) :
    let q := after (step S) {} as
    q.held.length ≤ S.size ∧
      q.book.offered = arrivals as ∧ q.book.offered = q.book.departed.map Prod.snd ++ q.held ∧
      EachStep (step S) (LosesOldest S) {} as ∧
      q.dropped = (q.book.withFate .lost).length ∧
      (arrivals as).length = (q.book.withFate .sent).length + q.held.length + q.dropped := by
  intro q
  have h : Sound S q := sound_after hsize as
  have hoffered : q.book.offered = arrivals as := offered_after {} as
  refine ⟨h.room, hoffered, h.balanced, ?_, h.dropped, ?_⟩
  · rw [eachStep_iff]
    intro before a later _
    exact losesOldest (sound_after hsize before) a
  · rw [← hoffered, h.balanced.count, h.dropped]

end Runs

end DropOldestQueues
