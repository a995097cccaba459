import Mathlib.Data.List.Flatten
import Mathlib.Tactic.Common

/-! # Hand-offs to a sink that may fail

A queue is emptied in batches. A batch leaves the queue before the sink is asked to take it,
and a drain ends with the first batch the sink refuses. -/
namespace Handoffs

universe u

variable {α : Type u}

/-- One batch that left the queue. -/
structure Attempt (α : Type u) where
  batch : List α
  failed : Bool
  deriving DecidableEq, Repr

structure Ledger (α : Type u) where
  held : List α := []
  attempts : List (Attempt α) := []
  deriving DecidableEq, Repr

/-- What the sink has taken, in order. -/
def Ledger.delivered (l : Ledger α) : List α :=
  (l.attempts.filter fun attempt => !attempt.failed).flatMap Attempt.batch

/-- What has left the queue, in order. -/
def Ledger.gone (l : Ledger α) : List α := l.attempts.flatMap Attempt.batch

def Ledger.handOff (l : Ledger α) (size : ℕ) (failed : Bool) : Ledger α :=
  ⟨l.held.drop size, l.attempts ++ [⟨l.held.take size, failed⟩]⟩

/-- Drains of every batch size and outcome; the last argument says whether the sink failed. -/
inductive Drains : Ledger α → Ledger α → Bool → Prop where
  | empty {l} : l.held = [] → Drains l l false
  | failed {l} {size : ℕ} : l.held.take size ≠ [] → Drains l (l.handOff size true) true
  | taken {l l' size raised} : Drains (l.handOff size false) l' raised → Drains l l' raised

theorem handOff_gone (l : Ledger α) (size : ℕ) (failed : Bool) :
    (l.handOff size failed).gone = l.gone ++ l.held.take size := by
  simp [Ledger.gone, Ledger.handOff]

theorem handOff_delivered (l : Ledger α) (size : ℕ) (failed : Bool) :
    (l.handOff size failed).delivered =
      l.delivered ++ if failed then [] else l.held.take size := by
  cases failed <;> simp [Ledger.delivered, Ledger.handOff]

theorem handOff_conserves (l : Ledger α) (size : ℕ) (failed : Bool) :
    (l.handOff size failed).gone ++ (l.handOff size failed).held = l.gone ++ l.held := by
  rw [handOff_gone, List.append_assoc]
  exact congrArg (l.gone ++ ·) (List.take_append_drop size l.held)

/-- What was delivered is what has left, without the batches that were refused. -/
theorem delivered_sublist (l : Ledger α) : l.delivered.Sublist l.gone :=
  List.filter_sublist.flatMap Attempt.batch

/-- A drain neither reorders nor repeats anything. -/
theorem Drains.conserves {l l' : Ledger α} {raised : Bool} (h : Drains l l' raised) :
    l'.gone ++ l'.held = l.gone ++ l.held := by
  induction h with
  | empty _ => rfl
  | failed _ => exact handOff_conserves _ _ _
  | taken _ ih => exact ih.trans (handOff_conserves _ _ _)

/-- A drain that ends without a failure has delivered everything. -/
theorem Drains.complete {l l' : Ledger α} (h : Drains l l' false) :
    l'.held = [] ∧ l'.delivered = l.delivered ++ l.held := by
  generalize hraised : false = raised at h
  induction h with
  | empty hnone => exact ⟨hnone, by rw [hnone, List.append_nil]⟩
  | failed _ => cases hraised
  | @taken l l' size raised _ ih =>
    obtain ⟨hnone, hdelivered⟩ := ih hraised
    refine ⟨hnone, ?_⟩
    rw [hdelivered, handOff_delivered, if_neg Bool.false_ne_true, List.append_assoc]
    exact congrArg (l.delivered ++ ·) (List.take_append_drop size l.held)

/-- A drain that fails loses the batch that was refused, and that batch only. -/
theorem Drains.loses {l l' : Ledger α} (h : Drains l l' true) :
    ∃ sent lost, lost ≠ [] ∧ l.held = sent ++ lost ++ l'.held ∧
      l'.delivered = l.delivered ++ sent ∧ l'.attempts.getLast? = some ⟨lost, true⟩ := by
  generalize hraised : true = raised at h
  induction h with
  | empty _ => cases hraised
  | @failed l size hsome =>
    refine ⟨[], l.held.take size, hsome, ?_, ?_, ?_⟩
    · exact (List.take_append_drop size l.held).symm
    · rw [handOff_delivered, if_pos rfl]
    · rw [Ledger.handOff, List.getLast?_concat]
  | @taken l l' size raised _ ih =>
    obtain ⟨sent, lost, hlost, hheld, hdelivered, hlast⟩ := ih hraised
    refine ⟨l.held.take size ++ sent, lost, hlost, ?_, ?_, hlast⟩
    · rw [List.append_assoc, List.append_assoc, ← List.append_assoc sent, ← hheld]
      exact (List.take_append_drop size l.held).symm
    · rw [hdelivered, handOff_delivered, if_neg Bool.false_ne_true, List.append_assoc]

end Handoffs
