import Mathlib.Algebra.Order.Group.Int
import Mathlib.Tactic.Common
import Mathlib.Tactic.Push

/-! # Queues with their weight kept beside them

A program that limits what its queue may hold keeps a number beside the queue and changes it
with every item that comes or goes. The queue it means has no such number, and cannot hold more
than it may. -/
namespace WeighedQueues

universe u

variable {α : Type u} (weight : α → ℕ)

def total : List α → ℕ
  | [] => 0
  | a :: items => weight a + total items

@[simp] theorem total_nil : total weight [] = 0 := rfl

@[simp] theorem total_cons (a : α) (items : List α) :
    total weight (a :: items) = weight a + total weight items := rfl

@[simp] theorem total_append (items more : List α) :
    total weight (items ++ more) = total weight items + total weight more := by
  induction items with
  | nil => exact (Nat.zero_add _).symm
  | cons a items ih => rw [List.cons_append, total_cons, total_cons, ih, Nat.add_assoc]

/-- A limit below zero limits nothing that could be held. -/
def Within (limit : Option ℤ) (n : ℤ) : Prop := ∀ m, limit = some m → 0 ≤ m → n ≤ m

theorem Within.mono {limit : Option ℤ} {k n : ℤ} (h : Within limit n) (hle : k ≤ n) :
    Within limit k := by
  intro m hm hpos
  have hn := h m hm hpos
  omega

theorem within_zero (limit : Option ℤ) : Within limit 0 := by
  intro m _ hpos
  exact hpos

/-- There is no room for `n`. -/
def Over (limit : Option ℤ) (n : ℤ) : Prop := ∃ m, limit = some m ∧ m < n

instance (limit : Option ℤ) (n : ℤ) : Decidable (Over limit n) :=
  match limit with
  | none => isFalse (by rintro ⟨m, hm, -⟩; cases hm)
  | some m => decidable_of_iff (m < n) (by simp [Over])

theorem within_of_not_over {limit : Option ℤ} {n : ℤ} (h : ¬ Over limit n) : Within limit n := by
  intro m hm _
  by_contra hlt
  exact h ⟨m, hm, by omega⟩

/-- The queue as it is meant. -/
structure Bounded (limit : Option ℤ) where
  items : List α
  within : Within limit (total weight items)

/-- The queue as a program keeps it. -/
structure Kept (α : Type u) where
  items : List α := []
  count : ℤ := 0

variable {weight} {limit : Option ℤ}

namespace Bounded

def empty : Bounded weight limit := ⟨[], within_zero limit⟩

def offer (q : Bounded weight limit) (a : α) : Option (Bounded weight limit) :=
  if h : Over limit (total weight (q.items ++ [a])) then none
  else some ⟨q.items ++ [a], within_of_not_over h⟩

/-- What is left when the oldest items, as many as given, are gone. -/
def remove (q : Bounded weight limit) (n : ℕ) : Bounded weight limit :=
  ⟨q.items.drop n, by
    have hsplit := total_append weight (q.items.take n) (q.items.drop n)
    rw [List.take_append_drop] at hsplit
    exact q.within.mono (by omega)⟩

end Bounded

namespace Kept

variable (weight limit) in
def offer (k : Kept α) (a : α) : Option (Kept α) :=
  if Over limit (k.count + weight a) then none
  else some ⟨k.items ++ [a], k.count + weight a⟩

variable (weight) in
/-- The program takes items one by one and lowers its number by each. -/
inductive Pops : Kept α → List α → Kept α → Prop where
  | none (k) : Pops k [] k
  | more {a items count taken k} : Pops ⟨items, count - weight a⟩ taken k →
      Pops ⟨a :: items, count⟩ (a :: taken) k

/-- The program's queue is the one that is meant, and its number is right. -/
structure Represents (k : Kept α) (q : Bounded weight limit) : Prop where
  items : k.items = q.items
  count : k.count = total weight q.items

variable {k : Kept α} {q : Bounded weight limit}

theorem represents_empty : Represents {} (Bounded.empty : Bounded weight limit) := ⟨rfl, rfl⟩

theorem Represents.exact (h : Represents k q) : k.count = total weight k.items := by
  rw [h.items]
  exact h.count

theorem Represents.within (h : Represents k q) : Within limit k.count := by
  rw [h.count]
  exact q.within

/-- The program refuses an item exactly if the queue that is meant does. -/
theorem Represents.offer (h : Represents k q) (a : α) :
    Option.Rel Represents (k.offer weight limit a) (q.offer a) := by
  have hcount : k.count + weight a = total weight (q.items ++ [a]) := by
    rw [h.count, total_append]
    simp
  unfold Kept.offer Bounded.offer
  by_cases hover : Over limit (total weight (q.items ++ [a]))
  · rw [hcount, if_pos hover, dif_pos hover]
    constructor
  · rw [hcount, if_neg hover, dif_neg hover]
    constructor
    constructor
    · show k.items ++ [a] = q.items ++ [a]
      rw [h.items]
    · rfl

theorem Represents.offered (h : Represents k q) {a : α} {k' : Kept α}
    (hoffer : k.offer weight limit a = some k') :
    ∃ q' : Bounded weight limit, Represents k' q' := by
  have hrel := h.offer a
  rw [hoffer] at hrel
  generalize q.offer a = offered at hrel
  cases hrel with
  | some hrel => exact ⟨_, hrel⟩

theorem Pops.items {taken : List α} {k' : Kept α} (h : Pops weight k taken k') :
    k.items = taken ++ k'.items := by
  induction h with
  | none k => rfl
  | more _ ih => exact congrArg (_ :: ·) ih

theorem Pops.count {taken : List α} {k' : Kept α} (h : Pops weight k taken k') :
    k'.count = k.count - total weight taken := by
  induction h with
  | none k => simp
  | more _ ih =>
    rw [ih, total_cons]
    push_cast
    omega

theorem Pops.trans {taken more : List α} {k' k'' : Kept α} (h : Pops weight k taken k')
    (hmore : Pops weight k' more k'') : Pops weight k (taken ++ more) k'' := by
  induction h with
  | none k => exact hmore
  | more _ ih => exact .more (ih hmore)

/-- Taking many items at once is no different. -/
theorem pops_take (items : List α) (count : ℤ) (n : ℕ) :
    Pops weight ⟨items, count⟩ (items.take n)
      ⟨items.drop n, count - total weight (items.take n)⟩ := by
  induction items generalizing count n with
  | nil =>
    rw [List.take_nil, List.drop_nil, total_nil, Int.natCast_zero, sub_zero]
    exact .none _
  | cons a items ih =>
    rcases n with - | n
    · rw [List.take_zero, List.drop_zero, total_nil, Int.natCast_zero, sub_zero]
      exact .none _
    · have hrest := ih (count - weight a) n
      rw [sub_sub, ← Int.natCast_add, ← total_cons] at hrest
      exact .more hrest

/-- Taking items one by one is removing them from the queue that is meant. -/
theorem Represents.pops {taken : List α} {k' : Kept α} (h : Represents k q)
    (hpops : Pops weight k taken k') : Represents k' (q.remove taken.length) := by
  have hitems : q.items = taken ++ k'.items := by
    rw [← h.items]
    exact hpops.items
  have hrest : (q.remove taken.length).items = k'.items := by
    show q.items.drop taken.length = k'.items
    rw [hitems, List.drop_left]
  constructor
  · exact hrest.symm
  · rw [hpops.count, h.count, hrest, hitems, total_append]
    push_cast
    omega

variable (weight limit) in
/-- Everything a program that keeps such a queue may do to it. -/
inductive Change (k k' : Kept α) : Prop where
  | kept : k' = k → Change k k'
  | offered {a} : k.offer weight limit a = some k' → Change k k'
  | popped {taken} : Pops weight k taken k' → Change k k'

theorem Represents.change {k' : Kept α} (h : Represents k q) (hchange : Change weight limit k k') :
    ∃ q' : Bounded weight limit, Represents k' q' := by
  cases hchange with
  | kept hkept =>
    rw [hkept]
    exact ⟨q, h⟩
  | offered hoffer => exact h.offered hoffer
  | popped hpops => exact ⟨_, h.pops hpops⟩

end Kept

end WeighedQueues
