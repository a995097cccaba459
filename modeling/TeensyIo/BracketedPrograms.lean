import Mathlib.Tactic.Common

/-! # Programs with brackets

Programs act on a machine, raise and handle exceptions, and put brackets around parts of
themselves. A bracket is left whichever way its body ends. Two machines that stay coupled through
each action, the one seeing the brackets and the other not, run every program alike. -/
namespace BracketedPrograms

universe u v w x

/-- A handler gets the exception; to let it pass it raises it again. -/
inductive Program (α : Type u) (ε : Type v) where
  | skip
  | act (a : α)
  | raise (e : ε)
  | seq (first second : Program α ε)
  | attempt (body : Program α ε) (handler : ε → Program α ε)
  | bracket (body : Program α ε)

variable {α : Type u} {ε : Type v} {σ : Type w} {τ : Type x}

namespace Program

/-- The program without its brackets. -/
def unbracketed : Program α ε → Program α ε
  | skip => skip
  | act a => act a
  | raise e => raise e
  | seq first second => seq first.unbracketed second.unbracketed
  | attempt body handler => attempt body.unbracketed fun e => (handler e).unbracketed
  | bracket body => body.unbracketed

end Program

/-- What an action and the two ends of a bracket do. -/
structure Machine (σ : Type w) (α : Type u) (ε : Type v) where
  act : σ → α → Except ε Unit × σ
  enter : σ → σ
  leave : σ → σ

/-- How a part of a program ends, and the state it leaves. -/
abbrev Ending (σ : Type w) (ε : Type v) := Except ε Unit × σ

/-- Going on after a normal end. -/
def Ending.andThen (out : Ending σ ε) (next : σ → Ending σ ε) : Ending σ ε :=
  match out.1 with
  | .ok () => next out.2
  | .error _ => out

/-- Going on after an exception. -/
def Ending.orElse (out : Ending σ ε) (handler : ε → σ → Ending σ ε) : Ending σ ε :=
  match out.1 with
  | .ok () => out
  | .error e => handler e out.2

def Machine.run (M : Machine σ α ε) : Program α ε → σ → Ending σ ε
  | .skip, s => (.ok (), s)
  | .act a, s => M.act s a
  | .raise e, s => (.error e, s)
  | .seq first second, s => (M.run first s).andThen fun t => M.run second t
  | .attempt body handler, s => (M.run body s).orElse fun e t => M.run (handler e) t
  | .bracket body, s =>
    let out := M.run body (M.enter s)
    (out.1, M.leave out.2)

/-! ### What is lost for good -/

section Lasting

variable {P : σ → Prop} {out : Ending σ ε}

theorem Ending.of_andThen {next : σ → Ending σ ε} (lasting : ∀ s, P (next s).2 → P s)
    (h : P (out.andThen next).2) : P out.2 ∧ (out.1 = .ok () → P (next out.2).2) := by
  obtain ⟨e | _, s⟩ := out
  · refine ⟨h, ?_⟩
    rintro ⟨⟩
  · exact ⟨lasting s h, fun _ => h⟩

theorem Ending.of_orElse {handler : ε → σ → Ending σ ε} (lasting : ∀ e s, P (handler e s).2 → P s)
    (h : P (out.orElse handler).2) :
    P out.2 ∧ ∀ e, out.1 = .error e → P (handler e out.2).2 := by
  obtain ⟨e | _, s⟩ := out
  · refine ⟨lasting e s h, ?_⟩
    rintro _ ⟨⟩
    exact h
  · refine ⟨h, ?_⟩
    rintro e ⟨⟩

end Lasting

/-- What does not come back once it is lost. -/
structure Machine.Lasting (M : Machine σ α ε) (P : σ → Prop) : Prop where
  act : ∀ s a, P (M.act s a).2 → P s
  enter : ∀ s, P (M.enter s) → P s
  leave : ∀ s, P (M.leave s) → P s

/-- What holds at the end of a run and does not come back once it is lost held at its start. -/
theorem Machine.Lasting.start {M : Machine σ α ε} {P : σ → Prop} (h : M.Lasting P)
    (p : Program α ε) {s : σ} (hend : P (M.run p s).2) : P s := by
  induction p generalizing s with
  | skip => exact hend
  | act a => exact h.act s a hend
  | raise e => exact hend
  | seq first second ihfirst ihsecond =>
    rw [Machine.run] at hend
    apply ihfirst
    exact (Ending.of_andThen (P := P) (fun _ => ihsecond) hend).1
  | attempt body handler ihbody ihhandler =>
    rw [Machine.run] at hend
    apply ihbody
    exact (Ending.of_orElse (P := P) (fun e _ => ihhandler e) hend).1
  | bracket body ih => exact h.enter s (ih (h.leave _ hend))

/-! ### Coupled machines -/

/-- Two machines end in the same way and in related states. -/
structure Alike (R : σ → τ → Prop) (out : Ending σ ε) (out' : Ending τ ε) : Prop where
  ending : out.1 = out'.1
  states : R out.2 out'.2

section Alike

variable {R : σ → τ → Prop} {out : Ending σ ε} {out' : Ending τ ε}

theorem Alike.andThen {next : σ → Ending σ ε} {next' : τ → Ending τ ε} (h : Alike R out out')
    (hnext : out.1 = .ok () → Alike R (next out.2) (next' out'.2)) :
    Alike R (out.andThen next) (out'.andThen next') := by
  obtain ⟨e | _, s⟩ := out
  · obtain ⟨_, t⟩ := out'
    obtain ⟨rfl, hst⟩ := h
    exact ⟨rfl, hst⟩
  · obtain ⟨_, t⟩ := out'
    obtain ⟨rfl, hst⟩ := h
    exact hnext rfl

theorem Alike.orElse {handler : ε → σ → Ending σ ε} {handler' : ε → τ → Ending τ ε}
    (h : Alike R out out')
    (hhandler : ∀ e, out.1 = .error e → Alike R (handler e out.2) (handler' e out'.2)) :
    Alike R (out.orElse handler) (out'.orElse handler') := by
  obtain ⟨e | _, s⟩ := out
  · obtain ⟨_, t⟩ := out'
    obtain ⟨rfl, hst⟩ := h
    exact hhandler e rfl
  · obtain ⟨_, t⟩ := out'
    obtain ⟨rfl, hst⟩ := h
    exact ⟨rfl, hst⟩

end Alike

/-- The coupling `R` of two machines, for each number of open brackets, of which the second knows
nothing. Actions need be alike only where `P` and `Q` are not lost. -/
structure Coupling (M : Machine σ α ε) (N : Machine τ α ε) (P : σ → Prop) (Q : τ → Prop)
    (R : ℕ → σ → τ → Prop) : Prop where
  left : M.Lasting P
  right : N.Lasting Q
  act : ∀ n s t a, R n s t → P (M.act s a).2 → Q (N.act t a).2 →
    Alike (R n) (M.act s a) (N.act t a)
  enter : ∀ n s t, R n s t → R (n + 1) (M.enter s) t
  leave : ∀ n s t, R (n + 1) s t → R n (M.leave s) t

/-- Coupled machines run a program, and the program without its brackets, to the same end. -/
theorem Coupling.run {M : Machine σ α ε} {N : Machine τ α ε} {P : σ → Prop} {Q : τ → Prop}
    {R : ℕ → σ → τ → Prop} (h : Coupling M N P Q R) (p : Program α ε) {n : ℕ} {s : σ} {t : τ}
    (hst : R n s t) (hP : P (M.run p s).2) (hQ : Q (N.run p.unbracketed t).2) :
    Alike (R n) (M.run p s) (N.run p.unbracketed t) := by
  induction p generalizing n s t with
  | skip => exact ⟨rfl, hst⟩
  | act a => exact h.act n s t a hst hP hQ
  | raise e => exact ⟨rfl, hst⟩
  | seq first second ihfirst ihsecond =>
    obtain ⟨hP, hPnext⟩ := Ending.of_andThen (fun _ => h.left.start second) hP
    obtain ⟨hQ, hQnext⟩ := Ending.of_andThen (fun _ => h.right.start second.unbracketed) hQ
    have hfirst := ihfirst hst hP hQ
    apply hfirst.andThen
    intro hok
    exact ihsecond hfirst.states (hPnext hok) (hQnext (hfirst.ending ▸ hok))
  | attempt body handler ihbody ihhandler =>
    obtain ⟨hP, hPnext⟩ := Ending.of_orElse (fun e _ => h.left.start (handler e)) hP
    obtain ⟨hQ, hQnext⟩ :=
      Ending.of_orElse (fun e _ => h.right.start (handler e).unbracketed) hQ
    have hbody := ihbody hst hP hQ
    apply hbody.orElse
    intro e hraised
    exact ihhandler e hbody.states (hPnext e hraised) (hQnext e (hbody.ending ▸ hraised))
  | bracket body ih =>
    have hbody := ih (h.enter n s t hst) (h.left.leave _ hP) hQ
    exact ⟨hbody.ending, h.leave n _ _ hbody.states⟩

end BracketedPrograms
