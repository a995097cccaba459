import Mathlib.Data.List.Basic
import Mathlib.Tactic.Common

/-! # Runs of a deterministic machine

A machine is its next-state function. A run is the list of actions it is given, so "every
run" is "every list of actions" and a property of each step is a recursion along the list. -/
namespace MachineRuns

universe u v w x

variable {σ : Type u} {α : Type v} {step : σ → α → σ} {I P : σ → Prop} {G H : σ → α → Prop}

/-- The state at the end of a run. -/
def after (step : σ → α → σ) (s : σ) : List α → σ
  | [] => s
  | a :: as => after step (step s a) as

/-- `G` holds of every step, seen with the state before it. -/
def EachStep (step : σ → α → σ) (G : σ → α → Prop) (s : σ) : List α → Prop
  | [] => True
  | a :: as => G s a ∧ EachStep step G (step s a) as

/-- `P` holds of every state the run passes through, its first and last included. -/
def EachState (step : σ → α → σ) (P : σ → Prop) (s : σ) : List α → Prop
  | [] => P s
  | a :: as => P s ∧ EachState step P (step s a) as

instance decidableEachStep [∀ s a, Decidable (G s a)] :
    ∀ (s : σ) (as : List α), Decidable (EachStep step G s as)
  | _, [] => isTrue trivial
  | s, a :: as =>
    have : Decidable (EachStep step G (step s a) as) := decidableEachStep (step s a) as
    inferInstanceAs (Decidable (G s a ∧ EachStep step G (step s a) as))

@[simp] theorem after_nil (s : σ) : after step s [] = s := rfl

@[simp] theorem after_cons (s : σ) (a : α) (as : List α) :
    after step s (a :: as) = after step (step s a) as := rfl

theorem after_append (s : σ) (as bs : List α) :
    after step s (as ++ bs) = after step (after step s as) bs := by
  induction as generalizing s with
  | nil => rfl
  | cons a as ih => exact ih (step s a)

theorem after_preserves (keep : ∀ s a, I s → I (step s a)) {s : σ} (hs : I s) (as : List α) :
    I (after step s as) := by
  induction as generalizing s with
  | nil => exact hs
  | cons a as ih => exact ih (keep s a hs)

theorem eachStep_of_forall {A : α → Prop} (s : σ) {as : List α} (ha : ∀ a ∈ as, A a) :
    EachStep step (fun _ => A) s as := by
  induction as generalizing s with
  | nil => trivial
  | cons a as ih =>
    exact ⟨ha a List.mem_cons_self, ih (step s a) fun c hc => ha c (List.mem_cons_of_mem a hc)⟩

theorem eachStep_mono (weaker : ∀ s a, G s a → H s a) {s : σ} {as : List α}
    (h : EachStep step G s as) : EachStep step H s as := by
  induction as generalizing s with
  | nil => trivial
  | cons a as ih => exact ⟨weaker s a h.1, ih h.2⟩

theorem eachStep_and {s : σ} {as : List α} :
    EachStep step (fun s a => G s a ∧ H s a) s as ↔
      EachStep step G s as ∧ EachStep step H s as := by
  induction as generalizing s with
  | nil => simp [EachStep]
  | cons a as ih =>
    simp only [EachStep, ih]
    exact and_and_and_comm

theorem eachStep_append (s : σ) (as bs : List α) :
    EachStep step G s (as ++ bs) ↔
      EachStep step G s as ∧ EachStep step G (after step s as) bs := by
  induction as generalizing s with
  | nil => simp [EachStep]
  | cons a as ih => simp [EachStep, ih, and_assoc]

/-- Two conditions that agree under the invariant hold along the same runs; `T` is a promise
about the steps of the run. -/
theorem eachStep_congr {T : σ → α → Prop} (keep : ∀ s a, T s a → I s → I (step s a))
    (same : ∀ s a, T s a → I s → (G s a ↔ H s a)) {s : σ} (hs : I s) {as : List α}
    (ht : EachStep step T s as) : EachStep step G s as ↔ EachStep step H s as := by
  induction as generalizing s with
  | nil => exact Iff.rfl
  | cons a as ih =>
    exact and_congr (same s a ht.1 hs) (ih (keep s a ht.1 hs) ht.2)

/-- A measure that never falls is bounded along a run by its last value. -/
theorem eachStep_le_after {f : σ → ℕ} (grow : ∀ s a, f s ≤ f (step s a)) (s : σ) (as : List α) :
    EachStep step (fun t _ => f t ≤ f (after step s as)) s as ∧ f s ≤ f (after step s as) := by
  induction as generalizing s with
  | nil => exact ⟨trivial, Nat.le_refl _⟩
  | cons a as ih =>
    obtain ⟨hsteps, hle⟩ := ih (step s a)
    exact ⟨⟨Nat.le_trans (grow s a) hle, hsteps⟩, Nat.le_trans (grow s a) hle⟩

/-- A condition on a part of the state that stands still. -/
theorem eachStep_still {τ : Type w} {view : σ → τ} {G' : τ → α → Prop}
    (still : ∀ s a, view (step s a) = view s) {s : σ} {as : List α} :
    EachStep step (fun s a => G' (view s) a) s as ↔ ∀ a ∈ as, G' (view s) a := by
  induction as generalizing s with
  | nil => exact iff_of_true trivial nofun
  | cons a as ih => rw [List.forall_mem_cons, EachStep, ih, still]

theorem eachStep_const {A : α → Prop} {s : σ} {as : List α} :
    EachStep step (fun _ => A) s as ↔ ∀ a ∈ as, A a :=
  @eachStep_still σ α step Unit (fun _ => ()) (fun _ => A) (fun _ _ => rfl) s as

theorem after_still {τ : Type w} (view : σ → τ) (still : ∀ s a, view (step s a) = view s)
    (s : σ) (as : List α) : view (after step s as) = view s := by
  induction as generalizing s with
  | nil => rfl
  | cons a as ih => rw [after_cons, ih, still]

/-- A condition on a part of the state that moves by itself. -/
theorem eachStep_image {τ : Type w} {β : Type x} {step' : τ → β → τ} {G' : τ → β → Prop}
    {view : σ → τ} {name : α → β} (moves : ∀ s a, view (step s a) = step' (view s) (name a))
    {s : σ} {as : List α} :
    EachStep step (fun s a => G' (view s) (name a)) s as ↔
      EachStep step' G' (view s) (as.map name) := by
  induction as generalizing s with
  | nil => exact Iff.rfl
  | cons a as ih =>
    rw [List.map_cons, EachStep, EachStep, ih, moves]

theorem eachState_image {τ : Type w} {β : Type x} {step' : τ → β → τ} {P' : τ → Prop}
    {view : σ → τ} {name : α → β} (moves : ∀ s a, view (step s a) = step' (view s) (name a))
    {s : σ} {as : List α} :
    EachState step (fun s => P' (view s)) s as ↔ EachState step' P' (view s) (as.map name) := by
  induction as generalizing s with
  | nil => exact Iff.rfl
  | cons a as ih =>
    rw [List.map_cons, EachState, EachState, ih, moves]

/-- The recursion says what it should: `G` at every place a run can be split. -/
theorem eachStep_iff (s : σ) (as : List α) :
    EachStep step G s as ↔
      ∀ before a later, as = before ++ a :: later → G (after step s before) a := by
  induction as generalizing s with
  | nil => simp [EachStep]
  | cons a as ih =>
    constructor
    · rintro ⟨ha, hs⟩ before b later hsplit
      cases before with
      | nil =>
        obtain ⟨rfl, -⟩ := List.cons.inj hsplit
        exact ha
      | cons c before =>
        obtain ⟨rfl, htail⟩ := List.cons.inj hsplit
        exact (ih (step s a)).mp hs before b later htail
    · intro h
      refine ⟨h [] a as rfl, (ih (step s a)).mpr ?_⟩
      intro before b later hsplit
      exact h (a :: before) b later (by rw [hsplit]; rfl)

theorem eachState_after {s : σ} {as : List α} (h : EachState step P s as) :
    P (after step s as) := by
  induction as generalizing s with
  | nil => exact h
  | cons a as ih => exact ih h.2

theorem eachState_mono {Q : σ → Prop} (weaker : ∀ s, P s → Q s) {s : σ} {as : List α}
    (h : EachState step P s as) : EachState step Q s as := by
  induction as generalizing s with
  | nil => exact weaker s h
  | cons a as ih => exact ⟨weaker s h.1, ih h.2⟩

theorem eachState_first {s : σ} {as : List α} (h : EachState step P s as) : P s := by
  cases as with
  | nil => exact h
  | cons a as => exact h.1

theorem eachState_later {s : σ} {as bs : List α} (h : EachState step P s (as ++ bs)) :
    EachState step P (after step s as) bs := by
  induction as generalizing s with
  | nil => exact h
  | cons a as ih => exact ih h.2

theorem eachState_of_eachStep (keep : ∀ s a, I s → G s a → I (step s a))
    (holds : ∀ s, I s → P s) {s : σ} (hs : I s) {as : List α} (hg : EachStep step G s as) :
    EachState step P s as := by
  induction as generalizing s with
  | nil => exact holds s hs
  | cons a as ih => exact ⟨holds s hs, ih (keep s a hs hg.1) hg.2⟩

/-- A condition that every pair of neighbouring good states forces holds along good runs; the
invariant need only be kept among good states. -/
theorem eachStep_of_goodStates (keep : ∀ s a, I s → P s → P (step s a) → I (step s a))
    (force : ∀ s a, I s → P s → P (step s a) → G s a) {s : σ} (hs : I s) {as : List α}
    (hp : EachState step P s as) : EachStep step G s as := by
  induction as generalizing s with
  | nil => trivial
  | cons a as ih =>
    have hnext : P (step s a) := by
      cases as with
      | nil => exact hp.2
      | cons b bs => exact hp.2.1
    exact ⟨force s a hs hp.1 hnext, ih (keep s a hs hp.1 hnext) hp.2⟩

theorem eachStep_of_eachState (keep : ∀ s a, I s → I (step s a))
    (force : ∀ s a, I s → P s → P (step s a) → G s a) {s : σ} (hs : I s) {as : List α}
    (hp : EachState step P s as) : EachStep step G s as :=
  eachStep_of_goodStates (fun s a hi _ _ => keep s a hi) force hs hp

theorem eachState_congr {Q : σ → Prop} (keep : ∀ s a, I s → I (step s a))
    (same : ∀ s, I s → (P s ↔ Q s)) {s : σ} (hs : I s) (as : List α) :
    EachState step P s as ↔ EachState step Q s as := by
  induction as generalizing s with
  | nil => exact same s hs
  | cons a as ih => exact and_congr (same s hs) (ih (keep s a hs))

/-- If a step leads from a good state to a good state exactly under a condition on the step, a
run passes through good states only exactly under this condition on its steps. -/
theorem eachState_iff_eachStep (keep : ∀ s a, I s → I (step s a))
    (same : ∀ s a, I s → P s → (P (step s a) ↔ G s a)) {s : σ} (hi : I s) (hp : P s)
    (as : List α) : EachState step P s as ↔ EachStep step G s as := by
  induction as generalizing s with
  | nil => exact iff_of_true hp trivial
  | cons a as ih =>
    constructor
    · rintro ⟨-, hstates⟩
      have hnext : P (step s a) := by
        cases as with
        | nil => exact hstates
        | cons b bs => exact hstates.1
      exact ⟨(same s a hi hp).mp hnext, (ih (keep s a hi) hnext).mp hstates⟩
    · rintro ⟨hg, hsteps⟩
      exact ⟨hp, (ih (keep s a hi) ((same s a hi hp).mpr hg)).mpr hsteps⟩

/-! ### Steps that may fail -/

/-- A run of a machine whose steps may fail, up to the first that does. -/
def attempt (tryStep : σ → α → Option σ) (s : σ) (as : List α) : Option σ := as.foldlM tryStep s

/-- Where an invariant keeps every step from failing, the run is that of the machine. -/
theorem attempt_eq {tryStep : σ → α → Option σ}
    (succeed : ∀ s a, I s → tryStep s a = some (step s a) ∧ I (step s a)) {s : σ} (hs : I s)
    (as : List α) :
    attempt tryStep s as = some (after step s as) ∧ I (after step s as) := by
  induction as generalizing s with
  | nil => exact ⟨rfl, hs⟩
  | cons a as ih =>
    obtain ⟨hstep, hnext⟩ := succeed s a hs
    rw [attempt, List.foldlM_cons, hstep]
    exact ih hnext

end MachineRuns
