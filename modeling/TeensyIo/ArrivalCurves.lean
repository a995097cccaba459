import Mathlib.Algebra.GroupWithZero.Nat
import Mathlib.Data.List.Infix
import Mathlib.Tactic.Common

/-! # Arrivals within a curve

A server takes up to `rate` items in each round. Where the arrivals of any rounds in a row exceed
what the server could take in them by a limited burst only, that burst bounds the queue. -/
namespace ArrivalCurves

variable {rate burst : ℕ}

/-- No rounds in a row bring more than `rate` for each of them and `burst` on top. -/
def Constrained (rate burst : ℕ) (arrivals : List ℕ) : Prop :=
  ∀ window, window <:+: arrivals → window.sum ≤ rate * window.length + burst

theorem Constrained.part {arrivals window : List ℕ} (h : Constrained rate burst arrivals)
    (hwindow : window <:+: arrivals) : Constrained rate burst window :=
  fun part hpart => h part (hpart.trans hwindow)

theorem constrained_of_le {arrivals : List ℕ} (h : ∀ n ∈ arrivals, n ≤ rate) :
    Constrained rate 0 arrivals := by
  rintro window ⟨before, later, rfl⟩
  have hwindow : ∀ n ∈ window, n ≤ rate := by
    intro n hn
    exact h n (List.mem_append_left _ (List.mem_append_right _ hn))
  clear h
  induction window with
  | nil => exact Nat.zero_le _
  | cons n window ih =>
    have hn := hwindow n List.mem_cons_self
    have hrest := ih fun m hm => hwindow m (List.mem_cons_of_mem n hm)
    rw [List.sum_cons, List.length_cons, Nat.mul_succ]
    omega

/-! ### How much is left -/

/-- What is left of so many items after rounds with these arrivals. -/
def carried (rate : ℕ) : ℕ → List ℕ → ℕ
  | queued, [] => queued
  | queued, n :: arrivals => carried rate (queued + n - rate) arrivals

theorem carried_append (queued : ℕ) (arrivals more : List ℕ) :
    carried rate queued (arrivals ++ more) = carried rate (carried rate queued arrivals) more := by
  induction arrivals generalizing queued with
  | nil => rfl
  | cons n arrivals ih => exact ih _

variable (rate) in
/-- Either the server was never idle, or what is left has arrived since it was. -/
theorem carried_busy (queued : ℕ) (arrivals : List ℕ) :
    carried rate queued arrivals + rate * arrivals.length ≤ queued + arrivals.sum ∨
      ∃ since, since <:+ arrivals ∧
        carried rate queued arrivals + rate * since.length ≤ since.sum := by
  induction arrivals generalizing queued with
  | nil => exact Or.inl (Nat.le_refl _)
  | cons n arrivals ih =>
    rw [carried, List.length_cons, List.sum_cons]
    rcases ih (queued + n - rate) with hbusy | ⟨since, hsince, hleft⟩
    · by_cases hidle : queued + n < rate
      · refine Or.inr ⟨arrivals, List.suffix_cons n arrivals, ?_⟩
        omega
      · left
        rw [Nat.mul_succ]
        omega
    · exact Or.inr ⟨since, hsince.trans (List.suffix_cons n arrivals), hleft⟩

/-- What is in the queue before the server takes its share of the last round. -/
theorem peak_le {arrivals : List ℕ} {n : ℕ} (h : Constrained rate burst (arrivals ++ [n])) :
    carried rate 0 arrivals + n ≤ rate + burst := by
  have hwindow : ∀ window, window <:+ arrivals →
      window.sum + n ≤ rate * window.length + rate + burst := by
    rintro window ⟨before, rfl⟩
    have hsum := h (window ++ [n]) ⟨before, [], by rw [List.append_nil, List.append_assoc]⟩
    rw [List.sum_append, List.sum_singleton, List.length_append, List.length_singleton,
      Nat.mul_succ] at hsum
    exact hsum
  rcases carried_busy rate 0 arrivals with hbusy | ⟨since, hsince, hleft⟩
  · have hall := hwindow arrivals (List.suffix_refl arrivals)
    omega
  · have hsome := hwindow since hsince
    omega

theorem carried_le {arrivals : List ℕ} (h : Constrained rate burst arrivals) :
    carried rate 0 arrivals ≤ burst := by
  cases arrivals using List.reverseRecOn with
  | nil => exact Nat.zero_le burst
  | append_singleton arrivals n =>
    have hpeak := peak_le h
    rw [carried_append, carried, carried]
    omega

end ArrivalCurves
