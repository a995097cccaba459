import Mathlib.Data.List.Basic
import Mathlib.Logic.Function.Basic
import Mathlib.Tactic.Common

/-! # Memory that may fault

A computation is an `Option`. It is `none` where a program would read or write outside an array,
divide by zero or never leave a loop. -/
namespace CheckedMemory

universe u v w

variable {ι : Type u} {ε : Type v} {σ : Type w}

/-! ### Arrays -/

/-- An element of an array of `size` elements, which is a function of its index. -/
def load (place : ι → ℕ) (size : ℕ) (table : ι → ε) (i : ι) : Option ε :=
  if place i < size then some (table i) else none

def store [DecidableEq ι] (place : ι → ℕ) (size : ℕ) (table : ι → ε) (i : ι) (value : ε) :
    Option (ι → ε) :=
  if place i < size then some (Function.update table i value) else none

theorem load_of_lt {place : ι → ℕ} {size : ℕ} {i : ι} (h : place i < size) (table : ι → ε) :
    load place size table i = some (table i) := if_pos h

theorem store_of_lt [DecidableEq ι] {place : ι → ℕ} {size : ℕ} {i : ι} (h : place i < size)
    (table : ι → ε) (value : ε) :
    store place size table i value = some (Function.update table i value) := if_pos h

/-! ### Buffers -/

/-- A buffer is the list of its elements. -/
def storeAt (buffer : List ε) (i : ℕ) (value : ε) : Option (List ε) :=
  if i < buffer.length then some (buffer.set i value) else none

/-- Writing several elements one after the other. -/
def storeAll (buffer : List ε) (i : ℕ) : List ε → Option (List ε)
  | [] => some buffer
  | value :: values => (storeAt buffer i value).bind fun buffer => storeAll buffer (i + 1) values

theorem storeAt_append {written rest : List ε} (old value : ε) :
    storeAt (written ++ old :: rest) written.length value = some (written ++ value :: rest) := by
  rw [storeAt, if_pos (by simp)]
  simp

/-- The elements behind the first ones are replaced as far as there are values. -/
theorem storeAll_append (written : List ε) {old values : List ε} (rest : List ε)
    (h : old.length = values.length) :
    storeAll (written ++ (old ++ rest)) written.length values =
      some (written ++ (values ++ rest)) := by
  induction values generalizing written old with
  | nil =>
    obtain rfl := List.length_eq_zero_iff.mp h
    rfl
  | cons value values ih =>
    cases old with
    | nil => cases h
    | cons first old =>
      rw [storeAll, List.cons_append, storeAt_append]
      have hrest := ih (written ++ [value]) (Nat.succ.inj h)
      rw [List.length_append, List.length_singleton, List.append_assoc] at hrest
      rw [Option.bind_some, List.cons_append]
      simpa using hrest

/-- The first elements of a buffer. -/
def loadFirst (buffer : List ε) (count : ℕ) : Option (List ε) :=
  if count ≤ buffer.length then some (buffer.take count) else none

theorem loadFirst_of_le {buffer : List ε} {count : ℕ} (h : count ≤ buffer.length) :
    loadFirst buffer count = some (buffer.take count) := if_pos h

/-! ### Division -/

def divide [Div ε] [OfNat ε 0] [DecidableEq ε] (a b : ε) : Option ε :=
  if b = 0 then none else some (a / b)

def remainder [Mod ε] [OfNat ε 0] [DecidableEq ε] (a b : ε) : Option ε :=
  if b = 0 then none else some (a % b)

theorem divide_of_ne [Div ε] [OfNat ε 0] [DecidableEq ε] {b : ε} (h : b ≠ 0) (a : ε) :
    divide a b = some (a / b) := if_neg h

theorem remainder_of_ne [Mod ε] [OfNat ε 0] [DecidableEq ε] {b : ε} (h : b ≠ 0) (a : ε) :
    remainder a b = some (a % b) := if_neg h

/-! ### Loops -/

/-- A turn of a loop leaves the loop or goes on to the next. -/
inductive Turn (σ : Type w) where
  | leave (s : σ)
  | again (s : σ)

/-- As many turns as there is fuel for. -/
def loop (body : σ → Option (Turn σ)) : ℕ → σ → Option σ
  | 0, _ => none
  | fuel + 1, s =>
    match body s with
    | none => none
    | some (.leave s) => some s
    | some (.again s) => loop body fuel s

/-- A turn of a loop whose counter goes up to `bound`; it is a machine word, so that it wraps
around at `modulus`. -/
def countTurn (modulus bound : ℕ) (body : ℕ → σ → Option σ) (c : ℕ × σ) : Option (Turn (ℕ × σ)) :=
  if c.1 < bound then (body c.1 c.2).map fun s => .again ((c.1 + 1) % modulus, s)
  else some (.leave c)

/-- A loop that has not ended after `bound` turns has wrapped around and does not end. -/
def countTo (modulus bound : ℕ) (body : ℕ → σ → Option σ) (s : σ) : Option σ :=
  (loop (countTurn modulus bound body) (bound + 1) (0, s)).map Prod.snd

/-- The rule of the loop: an invariant that every turn keeps holds when the counter has reached
its bound. -/
theorem countTo_rule {modulus bound : ℕ} (body : ℕ → σ → Option σ) (I : ℕ → σ → Prop)
    (hbound : bound < modulus)
    (hbody : ∀ i < bound, ∀ s, I i s → ∃ t, body i s = some t ∧ I (i + 1) t) {s : σ}
    (hs : I 0 s) : ∃ t, countTo modulus bound body s = some t ∧ I bound t := by
  have hloop : ∀ left i s, i + left = bound → I i s →
      ∃ t, loop (countTurn modulus bound body) (left + 1) (i, s) = some (bound, t) ∧
        I bound t := by
    intro left
    induction left with
    | zero =>
      intro i s hi hs
      obtain rfl : i = bound := hi
      rw [loop, countTurn, if_neg (Nat.lt_irrefl _)]
      exact ⟨s, rfl, hs⟩
    | succ left ih =>
      intro i s hi hs
      obtain ⟨t, hturn, hnext⟩ := hbody i (by omega) s hs
      rw [loop, countTurn, if_pos (by omega : i < bound), hturn, Option.map_some,
        Nat.mod_eq_of_lt (by omega)]
      exact ih (i + 1) t (by omega) hnext
  obtain ⟨t, hrun, hlast⟩ := hloop bound 0 s (Nat.zero_add bound) hs
  exact ⟨t, by rw [countTo, hrun, Option.map_some], hlast⟩

/-- A body that does not fault, under an invariant that it keeps, is run once for every number
below the bound. -/
theorem countTo_eq {modulus bound : ℕ} {body : ℕ → σ → Option σ} {f : σ → ℕ → σ}
    (I : ℕ → σ → Prop) (hbound : bound < modulus)
    (hbody : ∀ i < bound, ∀ s, I i s → body i s = some (f s i) ∧ I (i + 1) (f s i)) {s : σ}
    (hs : I 0 s) :
    countTo modulus bound body s = some ((List.range bound).foldl f s) ∧
      I bound ((List.range bound).foldl f s) := by
  obtain ⟨t, hrun, rfl, hlast⟩ := countTo_rule body
    (fun i t => t = (List.range i).foldl f s ∧ I i t) hbound
    (fun i hi t ht => by
      obtain ⟨hturn, hnext⟩ := hbody i hi t ht.2
      refine ⟨f t i, hturn, ?_, hnext⟩
      rw [List.range_succ, List.foldl_append, ← ht.1]
      rfl) ⟨rfl, hs⟩
  exact ⟨hrun, hlast⟩

/-- The loop over a body that cannot fault. -/
theorem countTo_pure {modulus bound : ℕ} (hbound : bound < modulus) (f : σ → ℕ → σ) (s : σ) :
    countTo modulus bound (fun i s => some (f s i)) s = some ((List.range bound).foldl f s) :=
  (countTo_eq (fun _ _ => True) hbound (fun _ _ _ _ => ⟨rfl, trivial⟩) trivial).1

/-- A turn of a search for the first number that passes a test. -/
def searchTurn (modulus bound : ℕ) (test : ℕ → Option Bool) (c : ℕ × Option ℕ) :
    Option (Turn (ℕ × Option ℕ)) :=
  if c.1 < bound then
    (test c.1).map fun found =>
      if found then .leave (c.1, some c.1) else .again ((c.1 + 1) % modulus, none)
  else some (.leave c)

def searchTo (modulus bound : ℕ) (test : ℕ → Option Bool) : Option (Option ℕ) :=
  (loop (searchTurn modulus bound test) (bound + 1) (0, none)).map Prod.snd

theorem searchTo_eq {modulus bound : ℕ} {test : ℕ → Option Bool} {p : ℕ → Bool}
    (hbound : bound < modulus) (htest : ∀ i < bound, test i = some (p i)) :
    searchTo modulus bound test = some ((List.range bound).find? p) := by
  have hloop : ∀ left i, i + left = bound →
      (loop (searchTurn modulus bound test) (left + 1) (i, none)).map Prod.snd =
        some ((List.range' i left).find? p) := by
    intro left
    induction left with
    | zero =>
      intro i hi
      obtain rfl : i = bound := hi
      rw [loop, searchTurn, if_neg (Nat.lt_irrefl _)]
      rfl
    | succ left ih =>
      intro i hi
      rw [loop, searchTurn, if_pos (by omega : i < bound), htest i (by omega), Option.map_some,
        List.range'_succ]
      cases hp : p i with
      | true => simp [hp]
      | false =>
        rw [Nat.mod_eq_of_lt (by omega : i + 1 < modulus), List.find?_cons, hp]
        exact ih (i + 1) (by omega)
  rw [searchTo, List.range_eq_range']
  exact hloop bound 0 (Nat.zero_add bound)

/-- One turn of a copying loop. -/
def copyTurn (source : List ε) (offset i : ℕ) (buffer : List ε) : Option (List ε) :=
  source[i]?.bind fun value => storeAt buffer (offset + i) value

theorem countTo_copy {modulus bound : ℕ} (hbound : bound < modulus) {source : List ε}
    (hsource : bound ≤ source.length) (head : List ε) {old : List ε} (rest : List ε)
    (hold : old.length = bound) :
    countTo modulus bound (copyTurn source head.length) (head ++ (old ++ rest)) =
      some (head ++ (source.take bound ++ rest)) := by
  obtain ⟨t, hrun, rfl⟩ := countTo_rule (s := head ++ (old ++ rest))
    (copyTurn source head.length)
    (fun i t => t = head ++ (source.take i ++ (old.drop i ++ rest))) hbound
    (fun i hi t ht => by
      subst ht
      have hi' : i < old.length := by omega
      have hlength : head.length + i = (head ++ source.take i).length := by
        rw [List.length_append, List.length_take]
        omega
      refine ⟨_, ?_, rfl⟩
      rw [copyTurn, List.getElem?_eq_getElem (by omega : i < source.length), Option.bind_some,
        List.drop_eq_getElem_cons hi', List.cons_append, ← List.append_assoc head, hlength,
        storeAt_append, List.append_assoc, List.take_succ_eq_append_getElem (by omega),
        List.append_assoc]
      rfl) (by simp)
  rw [hrun, ← hold, List.drop_length, List.nil_append]

end CheckedMemory
