import Mathlib.Data.List.Basic
import Mathlib.Tactic.Common

/-! # Resynchronising scanners

A receiver that looks for frames in an unreliable symbol stream tries the front of its
buffer over and over: it waits for more input, throws some symbols away, or takes a frame.
Nothing here depends on what a frame is. -/
namespace StreamScanner

universe u v

/-- The outcome of one attempt at a nonempty buffer. The count leaves out the first symbol:
`reject k` throws `k + 1` symbols away and `accept b k` takes `k + 1`. -/
inductive Verdict (β : Type v) where
  | wait
  | reject (extra : ℕ)
  | accept (found : β) (extra : ℕ)
  deriving DecidableEq, Repr

abbrev Attempt (α : Type u) (β : Type v) := α → List α → Verdict β

variable {α : Type u} {β : Type v}

/-- Everything the attempts find in a buffer, with the part that still waits.
The counter is the number of symbols the last verdict has yet to remove. -/
def scan (attempt : Attempt α β) : ℕ → List α → List β × List α
  | _, [] => ([], [])
  | k + 1, _ :: xs => scan attempt k xs
  | 0, x :: xs =>
    match attempt x xs with
    | .wait => ([], x :: xs)
    | .reject k => scan attempt k xs
    | .accept b k => (b :: (scan attempt k xs).1, (scan attempt k xs).2)

/-- A verdict removes only symbols that are there and is not revised by later input. -/
structure Lawful (attempt : Attempt α β) : Prop where
  reject_within : ∀ x xs k, attempt x xs = .reject k → k ≤ xs.length
  accept_within : ∀ x xs b k, attempt x xs = .accept b k → k ≤ xs.length
  stable : ∀ x xs ys, attempt x xs ≠ .wait → attempt x (xs ++ ys) = attempt x xs

@[simp] theorem scan_nil (attempt : Attempt α β) (k : ℕ) : scan attempt k [] = ([], []) := by
  cases k <;> rfl

@[simp] theorem scan_succ (attempt : Attempt α β) (k : ℕ) (x : α) (xs : List α) :
    scan attempt (k + 1) (x :: xs) = scan attempt k xs := rfl

theorem scan_wait {attempt : Attempt α β} {x : α} {xs : List α}
    (h : attempt x xs = .wait) : scan attempt 0 (x :: xs) = ([], x :: xs) := by
  simp [scan, h]

theorem scan_reject {attempt : Attempt α β} {x : α} {xs : List α} {k : ℕ}
    (h : attempt x xs = .reject k) : scan attempt 0 (x :: xs) = scan attempt k xs := by
  simp [scan, h]

theorem scan_accept {attempt : Attempt α β} {x : α} {xs : List α} {b : β} {k : ℕ}
    (h : attempt x xs = .accept b k) :
    scan attempt 0 (x :: xs) = (b :: (scan attempt k xs).1, (scan attempt k xs).2) := by
  simp [scan, h]

theorem scan_drop (attempt : Attempt α β) (k : ℕ) (xs : List α) :
    scan attempt k xs = scan attempt 0 (xs.drop k) := by
  induction xs generalizing k with
  | nil => simp
  | cons x xs ih =>
    cases k with
    | zero => rfl
    | succ k => simpa using ih k

/-- What is left over is empty or an attempt that asks for more. -/
theorem scan_rest (attempt : Attempt α β) (k : ℕ) (xs : List α) :
    (scan attempt k xs).2 = [] ∨
      ∃ y ys, (scan attempt k xs).2 = y :: ys ∧ attempt y ys = .wait := by
  induction xs generalizing k with
  | nil => simp
  | cons x xs ih =>
    cases k with
    | succ k => exact ih k
    | zero =>
      cases h : attempt x xs with
      | wait => exact Or.inr ⟨x, xs, by simp [scan_wait h], h⟩
      | reject k => simpa [scan_reject h] using ih k
      | accept b k => simpa [scan_accept h] using ih k

/-- What is left over is the end of the buffer. -/
theorem scan_suffix (attempt : Attempt α β) (k : ℕ) (xs : List α) :
    (scan attempt k xs).2 <:+ xs := by
  induction xs generalizing k with
  | nil => simp
  | cons x xs ih =>
    have hlater : ∀ j, (scan attempt j xs).2 <:+ x :: xs :=
      fun j => (ih j).trans (List.suffix_cons x xs)
    cases k with
    | succ k => exact hlater k
    | zero =>
      cases h : attempt x xs with
      | wait =>
        have hrest : (scan attempt 0 (x :: xs)).2 = x :: xs := congrArg Prod.snd (scan_wait h)
        exact ⟨[], by rw [hrest, List.nil_append]⟩
      | reject k =>
        rw [scan_reject h]
        exact hlater k
      | accept b k =>
        rw [scan_accept h]
        exact hlater k

/-- Later input never undoes what an earlier scan found: scanning the rest again together
with the new symbols continues the scan of the whole. -/
theorem scan_append {attempt : Attempt α β} (law : Lawful attempt) (xs ys : List α) (k : ℕ)
    (hk : k ≤ xs.length) :
    scan attempt k (xs ++ ys) =
      ((scan attempt k xs).1 ++ (scan attempt 0 ((scan attempt k xs).2 ++ ys)).1,
        (scan attempt 0 ((scan attempt k xs).2 ++ ys)).2) := by
  induction xs generalizing k with
  | nil =>
    have : k = 0 := by simpa using hk
    subst k
    simp
  | cons x xs ih =>
    cases k with
    | succ k => exact ih k (by simpa using hk)
    | zero =>
      cases h : attempt x xs with
      | wait => simp [scan_wait h]
      | reject k =>
        have hs : attempt x (xs ++ ys) = .reject k := by
          rw [law.stable x xs ys (by simp [h]), h]
        rw [List.cons_append, scan_reject hs, scan_reject h]
        exact ih k (law.reject_within x xs k h)
      | accept b k =>
        have hs : attempt x (xs ++ ys) = .accept b k := by
          rw [law.stable x xs ys (by simp [h]), h]
        rw [List.cons_append, scan_accept hs, scan_accept h,
          ih k (law.accept_within x xs b k h)]
        rfl

/-! ### Feeding in pieces -/

/-- Scan each piece together with what the pieces before it left over. -/
def feeds (attempt : Attempt α β) (rest : List α) : List (List α) → List β × List α
  | [] => ([], rest)
  | c :: cs =>
    let now := scan attempt 0 (rest ++ c)
    let later := feeds attempt now.2 cs
    (now.1 ++ later.1, later.2)

/-- Scanning a leftover finds nothing new. -/
theorem scan_leftover (attempt : Attempt α β) {rest : List α}
    (h : rest = [] ∨ ∃ y ys, rest = y :: ys ∧ attempt y ys = .wait) :
    scan attempt 0 rest = ([], rest) := by
  rcases h with rfl | ⟨y, ys, rfl, h⟩
  · rfl
  · exact scan_wait h

/-- Where the input is cut makes no difference. -/
theorem feeds_eq_scan {attempt : Attempt α β} (law : Lawful attempt) (cs : List (List α))
    (rest : List α) (hr : scan attempt 0 rest = ([], rest)) :
    feeds attempt rest cs = scan attempt 0 (rest ++ cs.flatten) := by
  induction cs generalizing rest with
  | nil => simpa [feeds] using hr.symm
  | cons c cs ih =>
    have hn := scan_leftover attempt (scan_rest attempt 0 (rest ++ c))
    have hc := scan_append law (rest ++ c) cs.flatten 0 (Nat.zero_le _)
    simp only [feeds, ih _ hn, List.flatten_cons, ← List.append_assoc]
    exact hc.symm

/-! ### Streams of encoded frames -/

/-- `enc b` begins with a symbol at which the attempt accepts exactly `enc b`,
whatever follows it. -/
def Encodes (attempt : Attempt α β) (enc : β → List α) (b : β) : Prop :=
  ∃ x xs, enc b = x :: xs ∧ ∀ t, attempt x (xs ++ t) = .accept b xs.length

theorem scan_encoded {attempt : Attempt α β} {enc : β → List α} {b : β}
    (h : Encodes attempt enc b) (t : List α) :
    scan attempt 0 (enc b ++ t) = (b :: (scan attempt 0 t).1, (scan attempt 0 t).2) := by
  obtain ⟨x, xs, he, ha⟩ := h
  rw [he, List.cons_append, scan_accept (ha t), scan_drop, List.drop_left]

/-- A stream of encodings is taken apart exactly. -/
theorem scan_stream {attempt : Attempt α β} {enc : β → List α} (bs : List β)
    (h : ∀ b ∈ bs, Encodes attempt enc b) (t : List α) :
    scan attempt 0 (bs.flatMap enc ++ t) =
      (bs ++ (scan attempt 0 t).1, (scan attempt 0 t).2) := by
  induction bs with
  | nil => simp
  | cons b bs ih =>
    rw [List.flatMap_cons, List.append_assoc, scan_encoded (h b List.mem_cons_self),
      ih fun c hc => h c (List.mem_cons_of_mem b hc)]
    rfl

/-- An encoding that has only partly arrived is kept whole. -/
theorem scan_partial {attempt : Attempt α β} (law : Lawful attempt) {enc : β → List α} {b : β}
    (h : Encodes attempt enc b) {s t : List α} (he : enc b = s ++ t) (ht : t ≠ []) :
    scan attempt 0 s = ([], s) := by
  cases s with
  | nil => rfl
  | cons y ys =>
    obtain ⟨x, xs, hx, ha⟩ := h
    obtain ⟨rfl, rfl⟩ := List.cons.inj (hx.symm.trans (he.trans (List.cons_append ..)))
    refine scan_wait ?_
    by_contra hw
    have hacc : attempt x ys = .accept b (ys ++ t).length := by
      rw [← law.stable x ys t hw]
      simpa using ha []
    have hlen := law.accept_within x ys b _ hacc
    have := List.length_pos_iff.mpr ht
    simp only [List.length_append] at hlen
    omega

/-- A scan that has got some way into a stream of encodings has found the first of them and
keeps the beginning of the next. -/
theorem scan_cut {attempt : Attempt α β} (law : Lawful attempt) {enc : β → List α} (bs : List β)
    (h : ∀ b ∈ bs, Encodes attempt enc b) {s t : List α} (hcut : s ++ t = bs.flatMap enc) :
    ∃ found left rest, bs = found ++ left ∧ scan attempt 0 s = (found, rest) ∧
      rest ++ t = left.flatMap enc ∧ ∀ b ∈ left.head?, rest.length < (enc b).length := by
  induction bs generalizing s with
  | nil =>
    obtain ⟨rfl, rfl⟩ := List.append_eq_nil_iff.mp hcut
    exact ⟨[], [], [], rfl, rfl, rfl, by simp⟩
  | cons b bs ih =>
    have hb := h b List.mem_cons_self
    have further : ∀ u, s = enc b ++ u → u ++ t = bs.flatMap enc →
        ∃ found left rest, b :: bs = found ++ left ∧ scan attempt 0 s = (found, rest) ∧
          rest ++ t = left.flatMap enc ∧ ∀ b ∈ left.head?, rest.length < (enc b).length := by
      intro u hs hu
      obtain ⟨found, left, rest, rfl, hscan, hrest, hshort⟩ :=
        ih (fun c hc => h c (List.mem_cons_of_mem b hc)) hu
      exact ⟨b :: found, left, rest, rfl, by rw [hs, scan_encoded hb, hscan], hrest, hshort⟩
    rw [List.flatMap_cons] at hcut
    rcases List.append_eq_append_iff.mp hcut with ⟨u, hu, ht⟩ | ⟨u, hs, hu⟩
    · cases u with
      | nil => exact further [] (by simpa using hu.symm) (by simpa using ht)
      | cons y u =>
        refine ⟨[], b :: bs, s, rfl, scan_partial law hb hu (by simp), ?_, ?_⟩
        · rw [hcut, List.flatMap_cons]
        · rintro c hc
          obtain rfl : b = c := by simpa using hc
          simp [hu]
    · exact further u hs hu.symm

/-! ### Places

A frame that is found is a stretch of the input. The list with the places tells two equal
frames apart. -/

/-- What the attempts find, each with the place of its first symbol; `place` is the place of
the first symbol of the buffer. -/
def scanAt (attempt : Attempt α β) : ℕ → ℕ → List α → List (ℕ × β)
  | _, _, [] => []
  | place, k + 1, _ :: xs => scanAt attempt (place + 1) k xs
  | place, 0, x :: xs =>
    match attempt x xs with
    | .wait => []
    | .reject k => scanAt attempt (place + 1) k xs
    | .accept b k => (place, b) :: scanAt attempt (place + 1) k xs

@[simp] theorem scanAt_nil (attempt : Attempt α β) (place k : ℕ) :
    scanAt attempt place k [] = [] := by
  cases k <;> rfl

theorem scanAt_wait {attempt : Attempt α β} {x : α} {xs : List α} (h : attempt x xs = .wait)
    (place : ℕ) : scanAt attempt place 0 (x :: xs) = [] := by
  simp [scanAt, h]

theorem scanAt_reject {attempt : Attempt α β} {x : α} {xs : List α} {k : ℕ}
    (h : attempt x xs = .reject k) (place : ℕ) :
    scanAt attempt place 0 (x :: xs) = scanAt attempt (place + 1) k xs := by
  simp [scanAt, h]

theorem scanAt_accept {attempt : Attempt α β} {x : α} {xs : List α} {b : β} {k : ℕ}
    (h : attempt x xs = .accept b k) (place : ℕ) :
    scanAt attempt place 0 (x :: xs) = (place, b) :: scanAt attempt (place + 1) k xs := by
  simp [scanAt, h]

theorem scanAt_drop (attempt : Attempt α β) (place k : ℕ) (xs : List α) (hk : k ≤ xs.length) :
    scanAt attempt place k xs = scanAt attempt (place + k) 0 (xs.drop k) := by
  induction xs generalizing place k with
  | nil => simp
  | cons x xs ih =>
    cases k with
    | zero => rfl
    | succ k =>
      rw [List.drop_succ_cons, show place + (k + 1) = place + 1 + k by omega]
      exact ih (place + 1) k (by simpa using hk)

/-- Without the places it is what the scan finds. -/
theorem scanAt_found (attempt : Attempt α β) (place k : ℕ) (xs : List α) :
    (scanAt attempt place k xs).map Prod.snd = (scan attempt k xs).1 := by
  induction xs generalizing place k with
  | nil => simp
  | cons x xs ih =>
    cases k with
    | succ k => exact ih (place + 1) k
    | zero =>
      cases h : attempt x xs with
      | wait => rw [scanAt_wait h, scan_wait h, List.map_nil]
      | reject k => rw [scanAt_reject h, scan_reject h, ih]
      | accept b k => rw [scanAt_accept h, scan_accept h, List.map_cons, ih]

theorem scanAt_eq_nil {attempt : Attempt α β} {place k : ℕ} {xs : List α} :
    scanAt attempt place k xs = [] ↔ (scan attempt k xs).1 = [] := by
  rw [← scanAt_found attempt place, List.map_eq_nil_iff]

/-- Whatever is found was accepted at its place in the buffer. -/
theorem mem_scanAt {attempt : Attempt α β} {e : ℕ × β} (xs : List α) (place k : ℕ)
    (h : e ∈ scanAt attempt place k xs) :
    ∃ before x later n, xs = before ++ x :: later ∧ e.1 = place + before.length ∧
      attempt x later = .accept e.2 n := by
  induction xs generalizing place k with
  | nil => simp at h
  | cons x xs ih =>
    have further : ∀ j, e ∈ scanAt attempt (place + 1) j xs →
        ∃ before y later n, x :: xs = before ++ y :: later ∧ e.1 = place + before.length ∧
          attempt y later = .accept e.2 n := by
      intro j hj
      obtain ⟨before, y, later, n, rfl, hplace, ha⟩ := ih (place + 1) j hj
      refine ⟨x :: before, y, later, n, rfl, ?_, ha⟩
      rw [hplace, List.length_cons]
      omega
    cases k with
    | succ k => exact further k h
    | zero =>
      cases ha : attempt x xs with
      | wait => simp [scanAt_wait ha] at h
      | reject k =>
        rw [scanAt_reject ha] at h
        exact further k h
      | accept b k =>
        rw [scanAt_accept ha] at h
        rcases List.mem_cons.mp h with rfl | h
        · exact ⟨[], x, xs, k, rfl, rfl, ha⟩
        · exact further k h

theorem le_of_mem_scanAt {attempt : Attempt α β} {e : ℕ × β} {xs : List α} {place k : ℕ}
    (h : e ∈ scanAt attempt place k xs) : place ≤ e.1 := by
  obtain ⟨before, x, later, n, rfl, hplace, -⟩ := mem_scanAt xs place k h
  omega

/-- What is still to be removed leaves no place for a frame. -/
theorem add_le_of_mem_scanAt {attempt : Attempt α β} {e : ℕ × β} (xs : List α) (place k : ℕ)
    (h : e ∈ scanAt attempt place k xs) : place + k ≤ e.1 := by
  induction xs generalizing place k with
  | nil => simp at h
  | cons x xs ih =>
    cases k with
    | zero => exact le_of_mem_scanAt h
    | succ k =>
      have := ih (place + 1) k h
      omega

/-- An accepted frame is the encoding of what was found. -/
def Reencodes (attempt : Attempt α β) (enc : β → List α) : Prop :=
  ∀ x xs b k, attempt x xs = .accept b k → k ≤ xs.length ∧ enc b = x :: xs.take k

/-- What is found stands in the buffer at its place. -/
theorem scanAt_stands {attempt : Attempt α β} {enc : β → List α} (henc : Reencodes attempt enc)
    {e : ℕ × β} {xs : List α} {place k : ℕ} (h : e ∈ scanAt attempt place k xs) :
    ∃ before later, xs = before ++ enc e.2 ++ later ∧ e.1 = place + before.length := by
  obtain ⟨before, x, later, n, rfl, hplace, ha⟩ := mem_scanAt xs place k h
  obtain ⟨-, hb⟩ := henc x later e.2 n ha
  refine ⟨before, later.drop n, ?_, hplace⟩
  rw [hb, List.append_assoc, List.cons_append, List.take_append_drop]

/-- Each frame ends before the next one begins. -/
theorem scanAt_disjoint {attempt : Attempt α β} {enc : β → List α}
    (henc : Reencodes attempt enc) (xs : List α) (place k : ℕ) :
    (scanAt attempt place k xs).Pairwise fun a b => a.1 + (enc a.2).length ≤ b.1 := by
  induction xs generalizing place k with
  | nil => simp
  | cons x xs ih =>
    cases k with
    | succ k => exact ih (place + 1) k
    | zero =>
      cases ha : attempt x xs with
      | wait => simp [scanAt_wait ha]
      | reject k =>
        rw [scanAt_reject ha]
        exact ih (place + 1) k
      | accept b k =>
        rw [scanAt_accept ha]
        obtain ⟨hk, hb⟩ := henc x xs b k ha
        refine List.Pairwise.cons ?_ (ih (place + 1) k)
        intro e he
        have hlater := add_le_of_mem_scanAt xs (place + 1) k he
        rw [hb, List.length_cons, List.length_take, Nat.min_eq_left hk]
        omega

/-- The verdict on `x` at the front of `x :: xs ++ rest` is final and reaches no further than
`xs`. -/
def Settles (attempt : Attempt α β) (rest : List α) (x : α) (xs : List α) : Prop :=
  match attempt x (xs ++ rest) with
  | .wait => False
  | .reject k => k ≤ xs.length
  | .accept _ k => k ≤ xs.length

/-- A scan gets past a prefix in which every verdict settles, and goes on behind it. -/
theorem scanAt_past {attempt : Attempt α β} {rest : List α} (pre : List α) (place k : ℕ)
    (hk : k ≤ pre.length) (h : ∀ before x xs, pre = before ++ x :: xs → Settles attempt rest x xs) :
    ∃ found, scanAt attempt place k (pre ++ rest) =
      found ++ scanAt attempt (place + pre.length) 0 rest := by
  induction pre generalizing place k with
  | nil =>
    have : k = 0 := by simpa using hk
    subst k
    exact ⟨[], rfl⟩
  | cons x xs ih =>
    have hlater : ∀ before y ys, xs = before ++ y :: ys → Settles attempt rest y ys := by
      rintro before y ys rfl
      exact h (x :: before) y ys rfl
    have hplace : place + (x :: xs).length = place + 1 + xs.length := by
      rw [List.length_cons]
      omega
    rw [hplace, List.cons_append]
    cases k with
    | succ k => exact ih (place + 1) k (by simpa using hk) hlater
    | zero =>
      have hnow := h [] x xs rfl
      unfold Settles at hnow
      cases ha : attempt x (xs ++ rest) with
      | wait => simp [ha] at hnow
      | reject k =>
        rw [ha] at hnow
        rw [scanAt_reject ha]
        exact ih (place + 1) k hnow hlater
      | accept b k =>
        rw [ha] at hnow
        obtain ⟨found, hfound⟩ := ih (place + 1) k hnow hlater
        exact ⟨(place, b) :: found, by rw [scanAt_accept ha, hfound, List.cons_append]⟩

theorem mem_scan {attempt : Attempt α β} {b : β} (xs : List α) (k : ℕ)
    (h : b ∈ (scan attempt k xs).1) :
    ∃ before x later n, xs = before ++ x :: later ∧ attempt x later = .accept b n := by
  rw [← scanAt_found attempt 0] at h
  obtain ⟨e, he, rfl⟩ := List.mem_map.mp h
  obtain ⟨before, x, later, n, rfl, -, ha⟩ := mem_scanAt xs 0 k he
  exact ⟨before, x, later, n, rfl, ha⟩

/-! ### Two scanners with the same frames

A coarse scanner may throw several symbols away at once where a fine one drops a single
symbol and looks again. Both find the same frames unless the coarse one throws away the
beginning of something the fine one would have stopped at. -/

/-- `fine` and `coarse` accept the same frames, each of at least `least` symbols. -/
structure SameFrames (fine coarse : Attempt α β) (least : ℕ) : Prop where
  accept_iff : ∀ x xs b k, fine x xs = .accept b k ↔ coarse x xs = .accept b k
  coarse_wait : ∀ x xs, coarse x xs = .wait → fine x xs = .wait
  fine_reject : ∀ x xs k, fine x xs = .reject k → k = 0
  early_reject : ∀ x xs k, coarse x xs = .reject k → fine x xs = .wait → xs.length + 1 < least
  long_accept : ∀ x xs b k, fine x xs = .accept b k → least ≤ xs.length + 1

/-- Looking at the next `k` places one by one: the fine scanner passes over all of them and
`next` holds, or it is `stuck` at one of them for good. -/
def Passes (fine : Attempt α β) (stuck next : Prop) : ℕ → List α → Prop
  | 0, _ => next
  | _ + 1, [] => next
  | k + 1, y :: ys =>
    match fine y ys with
    | .wait => stuck
    | .reject _ => Passes fine stuck next k ys
    | .accept _ _ => False

/-- Along the coarse scan no rejected attempt throws away the beginning of a frame the fine
scanner takes, or of an unfinished one it waits at while the coarse scanner goes on to find
a frame. -/
def NothingHidden (fine coarse : Attempt α β) : ℕ → List α → Prop
  | _, [] => True
  | k + 1, _ :: xs => NothingHidden fine coarse k xs
  | 0, x :: xs =>
    match coarse x xs with
    | .wait => True
    | .reject k =>
      Passes fine ((scan coarse k xs).1 = []) (NothingHidden fine coarse k xs) k xs
    | .accept _ k => NothingHidden fine coarse k xs

/-- There is no room for a frame in a short buffer. -/
theorem scan_short {attempt : Attempt α β} {least : ℕ}
    (long : ∀ x xs b k, attempt x xs = .accept b k → least ≤ xs.length + 1) (k : ℕ)
    {xs : List α} (hs : xs.length < least) : (scan attempt k xs).1 = [] := by
  rw [List.eq_nil_iff_forall_not_mem]
  intro b hb
  obtain ⟨before, x, later, n, rfl, ha⟩ := mem_scan xs k hb
  have hlong := long x later b n ha
  rw [List.length_append, List.length_cons] at hs
  omega

/-- The fine scanner at the first of `k` symbols the coarse one has thrown away. -/
theorem passes_iff {fine coarse : Attempt α β} {least : ℕ} (same : SameFrames fine coarse least)
    {stuck next : Prop} (place k : ℕ) (xs : List α)
    (hstuck : scanAt coarse place k xs = [] ↔ stuck)
    (hnext : scanAt coarse place k xs = scanAt fine place k xs ↔ next) :
    scanAt coarse place k xs = scanAt fine place 0 xs ↔ Passes fine stuck next k xs := by
  induction xs generalizing place k with
  | nil =>
    rw [scanAt_nil, scanAt_nil] at hnext
    cases k <;> simpa [Passes] using hnext
  | cons y ys ih =>
    cases k with
    | zero => exact hnext
    | succ k =>
      rw [Passes]
      cases hf : fine y ys with
      | wait => rw [scanAt_wait hf]; exact hstuck
      | reject j =>
        rw [scanAt_reject hf, same.fine_reject y ys j hf]
        exact ih (place + 1) k hstuck hnext
      | accept b j =>
        rw [scanAt_accept hf, iff_false]
        intro heq
        have hmem : (place, b) ∈ scanAt coarse (place + 1) k ys := by
          change scanAt coarse (place + 1) k ys = _ at heq
          rw [heq]
          exact List.mem_cons_self
        have hle := le_of_mem_scanAt hmem
        omega

/-- The coarse scanner finds the same frames at the same places exactly if it hides nothing. -/
theorem scanAt_agree_iff {fine coarse : Attempt α β} {least : ℕ}
    (same : SameFrames fine coarse least) (place k : ℕ) (xs : List α) :
    scanAt coarse place k xs = scanAt fine place k xs ↔ NothingHidden fine coarse k xs := by
  induction xs generalizing place k with
  | nil => cases k <;> simp [NothingHidden]
  | cons x xs ih =>
    cases k with
    | succ k => exact ih (place + 1) k
    | zero =>
      rw [NothingHidden]
      cases hc : coarse x xs with
      | wait => simp [scanAt_wait hc, scanAt_wait (same.coarse_wait x xs hc)]
      | accept b k =>
        rw [scanAt_accept hc, scanAt_accept ((same.accept_iff x xs b k).mpr hc), List.cons.injEq]
        simpa using ih (place + 1) k
      | reject k =>
        have hfine : scanAt fine place 0 (x :: xs) = scanAt fine (place + 1) 0 xs := by
          cases hf : fine x xs with
          | wait =>
            -- the coarse scanner has rejected early: there is no room for a frame in what is left
            have hshort := same.early_reject x xs k hc hf
            rw [scanAt_wait hf, eq_comm, scanAt_eq_nil]
            exact scan_short same.long_accept 0 (by omega)
          | reject j => rw [scanAt_reject hf, same.fine_reject x xs j hf]
          | accept b j => simp [(same.accept_iff x xs b j).mp hf] at hc
        rw [scanAt_reject hc, hfine]
        exact passes_iff same (place + 1) k xs scanAt_eq_nil (ih (place + 1) k)

/-! ### The comparison can be run -/

instance decidablePasses (fine : Attempt α β) (stuck next : Prop) [Decidable stuck]
    [Decidable next] : (k : ℕ) → (xs : List α) → Decidable (Passes fine stuck next k xs)
  | 0, _ => inferInstanceAs (Decidable next)
  | _ + 1, [] => inferInstanceAs (Decidable next)
  | k + 1, y :: ys =>
    have later := decidablePasses fine stuck next k ys
    match h : fine y ys with
    | .wait => decidable_of_iff stuck (by simp [Passes, h])
    | .reject _ => decidable_of_iff (Passes fine stuck next k ys) (by simp [Passes, h])
    | .accept _ _ => isFalse (by simp [Passes, h])

instance decidableNothingHidden (fine coarse : Attempt α β) :
    (k : ℕ) → (xs : List α) → Decidable (NothingHidden fine coarse k xs)
  | k, [] => isTrue (by cases k <;> trivial)
  | k + 1, _ :: xs => decidableNothingHidden fine coarse k xs
  | 0, x :: xs =>
    have later := fun k => decidableNothingHidden fine coarse k xs
    match h : coarse x xs with
    | .wait => isTrue (by simp [NothingHidden, h])
    | .reject k =>
      have : Decidable ((scan coarse k xs).1 = []) := decidable_of_iff _ List.isEmpty_iff
      decidable_of_iff
        (Passes fine ((scan coarse k xs).1 = []) (NothingHidden fine coarse k xs) k xs)
        (by simp [NothingHidden, h])
    | .accept _ k =>
      decidable_of_iff (NothingHidden fine coarse k xs) (by simp [NothingHidden, h])

end StreamScanner
