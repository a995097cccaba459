import Mathlib.Data.List.Basic
import Mathlib.Tactic.Common

/-! # Queues that lose their oldest entries

What goes into a queue with limited room, what is sent from it and what is lost to make room,
as a book that can be balanced against the entries it holds. -/
namespace BoundedQueues

universe u v

variable {α : Type u}

/-- How an entry left. -/
inductive Fate where
  | sent | lost
  deriving DecidableEq, Repr

/-- What has been offered and what has departed, each in the order in which it happened. -/
structure Book (α : Type u) where
  offered : List α := []
  departed : List (Fate × α) := []

namespace Book

def offer (book : Book α) (a : α) : Book α := { book with offered := book.offered ++ [a] }

def depart (book : Book α) (fate : Fate) (as : List α) : Book α :=
  { book with departed := book.departed ++ as.map fun a => (fate, a) }

/-- The entries with one fate, in the order in which they left. -/
def withFate (book : Book α) (fate : Fate) : List α :=
  (book.departed.filter fun e => e.1 = fate).map Prod.snd

/-- What has been offered has departed, in the same order, or is still held behind it. -/
def Balanced (book : Book α) (held : List α) : Prop :=
  book.offered = book.departed.map Prod.snd ++ held

variable {book : Book α} {held as : List α}

theorem balanced_empty : Balanced ({} : Book α) [] := rfl

theorem Balanced.offer (h : book.Balanced held) (a : α) :
    (book.offer a).Balanced (held ++ [a]) := by
  rw [Balanced, Book.offer, h, List.append_assoc]

/-- Only the oldest entries may leave. -/
theorem Balanced.depart (h : book.Balanced (as ++ held)) (fate : Fate) :
    (book.depart fate as).Balanced held := by
  have hsame : (as.map fun a => (fate, a)).map Prod.snd = as := by
    rw [List.map_map]
    exact List.map_id as
  rw [Balanced, Book.depart, h, List.map_append, hsame, List.append_assoc]

/-- What was sent was offered, in this order and no more often. -/
theorem Balanced.sent_sublist (h : book.Balanced held) (fate : Fate) :
    (book.withFate fate).Sublist book.offered := by
  rw [h]
  exact (List.filter_sublist.map Prod.snd).trans (List.sublist_append_left _ _)

theorem Balanced.count (h : book.Balanced held) :
    book.offered.length =
      (book.withFate .sent).length + held.length + (book.withFate .lost).length := by
  have hfates : ∀ departed : List (Fate × α), departed.length =
      (departed.filter fun e => e.1 = .sent).length +
        (departed.filter fun e => e.1 = .lost).length := by
    intro departed
    induction departed with
    | nil => rfl
    | cons e departed ih =>
      obtain ⟨fate, a⟩ := e
      cases fate <;> simp [ih] <;> omega
  rw [h, List.length_append, List.length_map, hfates, withFate, withFate, List.length_map,
    List.length_map]
  omega

/-- The count holds of any kind of entry. -/
theorem Balanced.count_filterMap {β : Type v} (h : book.Balanced held) (f : α → Option β) :
    (book.offered.filterMap f).length =
      ((book.withFate .sent).filterMap f).length + (held.filterMap f).length +
        ((book.withFate .lost).filterMap f).length := by
  have hfates : ∀ (g : Fate × α → Option β) (departed : List (Fate × α)),
      (departed.filterMap g).length =
        ((departed.filter fun e => e.1 = .sent).filterMap g).length +
          ((departed.filter fun e => e.1 = .lost).filterMap g).length := by
    intro g departed
    induction departed with
    | nil => rfl
    | cons e departed ih =>
      obtain ⟨fate, a⟩ := e
      cases fate with
      | sent => cases hg : g (.sent, a) <;> simp [hg, ih, Nat.add_right_comm]
      | lost => cases hg : g (.lost, a) <;> simp [hg, ih, Nat.add_assoc]
  rw [h, List.filterMap_append, List.length_append, withFate, withFate, List.filterMap_map,
    List.filterMap_map, List.filterMap_map, hfates]
  omega

theorem withFate_offer (a : α) (fate : Fate) :
    (book.offer a).withFate fate = book.withFate fate := rfl

theorem withFate_depart_self (fate : Fate) (as : List α) :
    (book.depart fate as).withFate fate = book.withFate fate ++ as := by
  simp [withFate, depart, List.filter_map, Function.comp_def]

theorem withFate_depart_of_ne {fate fate' : Fate} (h : fate ≠ fate') (as : List α) :
    (book.depart fate as).withFate fate' = book.withFate fate' := by
  simp [withFate, depart, List.filter_map, Function.comp_def, h]

end Book

end BoundedQueues
