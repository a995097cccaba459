import Mathlib.Algebra.Group.Hom.Defs
import Mathlib.Algebra.Order.Group.Int
import Mathlib.Algebra.Order.Group.Unbundled.Abs
import Mathlib.Data.List.Chain

/-! # Sums along a path

A path is a starting point and the points visited after it. Every step contributes a weight that
depends on its two ends. -/
namespace PathSums

variable {α G H : Type*}

/-- The point at which a path ends. -/
def pathEnd (x : α) : List α → α
  | [] => x
  | y :: ys => pathEnd y ys

/-- The points visited on the way back from the end of a path to its start. -/
def back (x : α) (path : List α) : List α := (x :: path).dropLast.reverse

/-- How many steps of a path are of a kind. -/
def steps (kind : α → α → Bool) (x : α) (path : List α) : ℕ :=
  ((x :: path).zip path).countP fun step => kind step.1 step.2

theorem pathEnd_append (x : α) (path later : List α) :
    pathEnd x (path ++ later) = pathEnd (pathEnd x path) later := by
  induction path generalizing x with
  | nil => rfl
  | cons y ys ih => exact ih y

theorem pathEnd_mem {points : List α} {x : α} {path : List α} (hx : x ∈ points)
    (hpath : ∀ y ∈ path, y ∈ points) : pathEnd x path ∈ points := by
  induction path generalizing x with
  | nil => exact hx
  | cons y ys ih =>
    obtain ⟨hy, hys⟩ := List.forall_mem_cons.mp hpath
    exact ih hy hys

theorem back_cons (x y : α) (ys : List α) : back x (y :: ys) = back y ys ++ [x] := by
  rw [back, List.dropLast_cons_cons, List.reverse_cons]
  rfl

theorem pathEnd_back (x : α) (path : List α) : pathEnd (pathEnd x path) (back x path) = x := by
  induction path generalizing x with
  | nil => rfl
  | cons y ys ih =>
    rw [back_cons, pathEnd_append]
    rfl

theorem steps_cons (kind : α → α → Bool) (x y : α) (ys : List α) :
    steps kind x (y :: ys) = (if kind x y then 1 else 0) + steps kind y ys := by
  rw [steps, List.zip_cons_cons, List.countP_cons, Nat.add_comm]
  rfl

section Group

variable [AddCommGroup G]

def total (weight : α → α → G) (x : α) : List α → G
  | [] => 0
  | y :: ys => weight x y + total weight y ys

theorem total_append (weight : α → α → G) (x : α) (path later : List α) :
    total weight x (path ++ later) =
      total weight x path + total weight (pathEnd x path) later := by
  induction path generalizing x with
  | nil => exact (zero_add _).symm
  | cons y ys ih =>
    rw [List.cons_append, total, ih, total, add_assoc]
    rfl

/-- The way back takes off what the way there has added. -/
theorem total_back {weight : α → α → G} (anti : ∀ x y, weight y x = -weight x y) (x : α)
    (path : List α) : total weight (pathEnd x path) (back x path) = -total weight x path := by
  induction path generalizing x with
  | nil => exact neg_zero.symm
  | cons y ys ih =>
    have hlast : total weight (pathEnd (pathEnd y ys) (back y ys)) [x] = weight y x := by
      rw [pathEnd_back, total, total, add_zero]
    rw [back_cons, total_append, pathEnd, ih, hlast, total, anti, neg_add, add_comm]

theorem total_round_trip {weight : α → α → G} (anti : ∀ x y, weight y x = -weight x y) (x : α)
    (path : List α) : total weight x (path ++ back x path) = 0 := by
  rw [total_append, total_back anti, add_neg_cancel]

/-- Where every step contributes the difference of a potential, the sum depends on the ends of
the path alone. -/
theorem total_potential [AddCommGroup H] {weight : α → α → G} (f : G →+ H) (potential : α → H)
    {R : α → α → Prop} (step : ∀ x y, R x y → f (weight x y) = potential y - potential x) (x : α)
    {path : List α} (h : (x :: path).IsChain R) :
    f (total weight x path) = potential (pathEnd x path) - potential x := by
  induction path generalizing x with
  | nil => rw [total, map_zero, pathEnd, sub_self]
  | cons y ys ih =>
    obtain ⟨hstep, hrest⟩ := List.isChain_cons_cons.mp h
    rw [total, map_add, step x y hstep, ih y hrest, pathEnd]
    exact (sub_add_sub_cancel' _ _ _)

end Group

/-- Unit steps in two directions. -/
theorem total_eq_steps {weight : α → α → ℤ} {up down : α → α → Bool} {R : α → α → Prop}
    (step : ∀ x y, R x y →
      weight x y = (if up x y then 1 else 0) - (if down x y then 1 else 0)) (x : α)
    {path : List α} (h : (x :: path).IsChain R) :
    total weight x path = steps up x path - steps down x path := by
  induction path generalizing x with
  | nil => rfl
  | cons y ys ih =>
    obtain ⟨hstep, hrest⟩ := List.isChain_cons_cons.mp h
    rw [total, steps_cons, steps_cons, step x y hstep, ih y hrest]
    push_cast
    split_ifs <;> omega

theorem abs_total_le {weight : α → α → ℤ} (unit : ∀ x y, |weight x y| ≤ 1) (x : α)
    (path : List α) : |total weight x path| ≤ path.length := by
  induction path generalizing x with
  | nil => exact le_of_eq abs_zero
  | cons y ys ih =>
    have hsum := abs_add_le (weight x y) (total weight y ys)
    have hstep := unit x y
    have hrest := ih y
    rw [total, List.length_cons]
    push_cast
    omega

end PathSums
