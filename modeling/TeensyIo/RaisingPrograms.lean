import TeensyIo.MachineRuns

/-! # Programs that raise, and plans for them

A program returns or raises, and leaves a state either way. A plan says of such a program, in
terms of what is known of the state, when it returns and what is known afterwards. Plans for the
parts of a sequence and of a loop make one for the whole. -/
namespace RaisingPrograms

open MachineRuns

universe u v w x y

variable {σ : Type u} {ε : Type v} {κ : Type w} {α : Type x}

/-- Going on after a part that returned. -/
def andThen (first second : σ → Except ε Unit × σ) (s : σ) : Except ε Unit × σ :=
  match first s with
  | (.ok (), s) => second s
  | (.error e, s) => (.error e, s)

/-- `for a in as: body(a)`, left by the first exception. -/
def loop (body : α → σ → Except ε Unit × σ) : List α → σ → Except ε Unit × σ
  | [] => fun s => (.ok (), s)
  | a :: as => andThen (body a) (loop body as)

theorem loop_map {β : Type y} (body : β → σ → Except ε Unit × σ) (f : α → β) (as : List α) :
    loop body (as.map f) = loop (fun a => body (f a)) as := by
  induction as with
  | nil => rfl
  | cons a as ih => rw [List.map_cons, loop, loop, ih]

/-- The program returns exactly where the plan has its condition, and then leaves a state of
which the plan's outcome is known. -/
structure Follows (knows : κ → σ → Prop) (run : σ → Except ε Unit × σ) (may : κ → Prop)
    (learn : κ → κ) : Prop where
  returns_iff : ∀ k s, knows k s → ((run s).1 = .ok () ↔ may k)
  keeps : ∀ k s, knows k s → (run s).1 = .ok () → knows (learn k) (run s).2

variable {knows : κ → σ → Prop} {may may' : κ → Prop} {learn learn' : κ → κ}
  {first second : σ → Except ε Unit × σ}

theorem andThen_returns {s : σ} :
    (andThen first second s).1 = .ok () ↔
      (first s).1 = .ok () ∧ (second (first s).2).1 = .ok () := by
  unfold andThen
  split
  · next t heq => rw [heq, and_iff_right rfl]
  · next e t heq =>
    rw [heq]
    constructor
    · intro h
      cases h
    · rintro ⟨h, -⟩
      cases h

theorem andThen_state {s : σ} (h : (first s).1 = .ok ()) :
    (andThen first second s).2 = (second (first s).2).2 := by
  unfold andThen
  split
  · next t heq => rw [heq]
  · next e t heq =>
    rw [heq] at h
    cases h

theorem Follows.intro
    (h : ∀ k s, knows k s →
      ((first s).1 = .ok () ↔ may k) ∧ (may k → knows (learn k) (first s).2)) :
    Follows knows first may learn where
  returns_iff := fun k s hknows => (h k s hknows).1
  keeps := fun k s hknows hreturned =>
    (h k s hknows).2 ((h k s hknows).1.mp hreturned)

theorem Follows.congr (h : Follows knows first may learn) (same : ∀ k, may k ↔ may' k) :
    Follows knows first may' learn where
  returns_iff := fun k s hknows => (h.returns_iff k s hknows).trans (same k)
  keeps := h.keeps

theorem Follows.andThen (hfirst : Follows knows first may learn)
    (hsecond : Follows knows second may' learn') :
    Follows knows (andThen first second) (fun k => may k ∧ may' (learn k))
      (fun k => learn' (learn k)) where
  returns_iff := by
    intro k s hknows
    rw [andThen_returns]
    constructor
    · rintro ⟨hreturned, hrest⟩
      have hnext := hfirst.keeps k s hknows hreturned
      exact ⟨(hfirst.returns_iff k s hknows).mp hreturned,
        (hsecond.returns_iff _ _ hnext).mp hrest⟩
    · rintro ⟨hmay, hrest⟩
      have hreturned := (hfirst.returns_iff k s hknows).mpr hmay
      have hnext := hfirst.keeps k s hknows hreturned
      exact ⟨hreturned, (hsecond.returns_iff _ _ hnext).mpr hrest⟩
  keeps := by
    intro k s hknows hreturned
    obtain ⟨hfirst', hrest⟩ := andThen_returns.mp hreturned
    rw [andThen_state hfirst']
    exact hsecond.keeps _ _ (hfirst.keeps k s hknows hfirst') hrest

/-- A loop is planned by the conditions of its turns, each with what the turns before it taught. -/
theorem Follows.loop {body : α → σ → Except ε Unit × σ} {turn : κ → α → Prop}
    {teach : κ → α → κ} {as : List α}
    (h : ∀ a ∈ as, Follows knows (body a) (turn · a) (teach · a)) :
    Follows knows (loop body as) (EachStep teach turn · as) (after teach · as) := by
  induction as with
  | nil => exact ⟨fun _ _ _ => iff_of_true rfl trivial, fun _ _ hknows _ => hknows⟩
  | cons a as ih =>
    have htail := ih fun b hb => h b (List.mem_cons_of_mem a hb)
    exact (h a List.mem_cons_self).andThen htail

end RaisingPrograms
