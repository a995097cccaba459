import TeensyIo.StreamScanner
import TeensyIo.LittleEndian
import Mathlib.Tactic.Linarith

/-! # The frame on the wire

What the two implementations are meant to share, for any checksum: one start byte, a header
of six bytes, at most 128 bytes of payload and the checksum of header and payload, low byte
first. The two receivers differ only in how much they throw away when an attempt fails. -/
namespace WireFrame

open StreamScanner LittleEndian

def startByte : UInt8 := 0xA5
def version : UInt8 := 0x01
def maxPayload : ℕ := 128

/-- A frame that can be sent: its payload fits. -/
structure Frame where
  type : UInt8
  seq : UInt16
  payload : List UInt8
  fits : payload.length ≤ maxPayload
  deriving DecidableEq, Repr

/-- The bytes the checksum covers. -/
def Frame.covered (f : Frame) : List UInt8 :=
  version :: f.type :: (toBytes 2 f.seq.toNat ++ toBytes 2 f.payload.length ++ f.payload)

/-- Everything behind the start byte. -/
def Frame.body (crc : List UInt8 → UInt16) (f : Frame) : List UInt8 :=
  f.covered ++ toBytes 2 (crc f.covered).toNat

def Frame.encode (crc : List UInt8 → UInt16) (f : Frame) : List UInt8 :=
  startByte :: f.body crc

@[simp] theorem length_covered (f : Frame) : f.covered.length = 6 + f.payload.length := by
  simp [Frame.covered]
  omega

@[simp] theorem length_body (crc : List UInt8 → UInt16) (f : Frame) :
    (f.body crc).length = 8 + f.payload.length := by
  simp [Frame.body]
  omega

/-! ### Looking into a buffer -/

def byteAt (xs : List UInt8) (i : ℕ) : UInt8 := xs.getD i 0

def window (xs : List UInt8) (i n : ℕ) : List UInt8 := (xs.drop i).take n

theorem byteAt_append {xs : List UInt8} {i : ℕ} (h : i < xs.length) (ys : List UInt8) :
    byteAt (xs ++ ys) i = byteAt xs i := List.getD_append xs ys 0 i h

theorem window_append {xs : List UInt8} {i n : ℕ} (h : i + n ≤ xs.length) (ys : List UInt8) :
    window (xs ++ ys) i n = window xs i n := by
  rw [window, window, List.drop_append_of_le_length (by omega),
    List.take_append_of_le_length (by rw [List.length_drop]; omega)]

theorem length_window_le (xs : List UInt8) (i n : ℕ) : (window xs i n).length ≤ n :=
  List.length_take_le n (xs.drop i)

theorem window_add (xs : List UInt8) (i m n : ℕ) :
    window xs i (m + n) = window xs i m ++ window xs (i + m) n := by
  rw [window, window, window, List.take_add, List.drop_drop]

/-- The payload length a header announces. `xs` is what follows the start byte. -/
def announced (xs : List UInt8) : ℕ := value (window xs 4 2)

def Checked (crc : List UInt8 → UInt16) (xs : List UInt8) : Prop :=
  (crc (window xs 0 (6 + announced xs))).toNat = value (window xs (6 + announced xs) 2)

instance (crc : List UInt8 → UInt16) (xs : List UInt8) : Decidable (Checked crc xs) :=
  inferInstanceAs (Decidable (_ = _))

def frameIn (xs : List UInt8) (h : announced xs ≤ maxPayload) : Frame where
  type := byteAt xs 1
  seq := UInt16.ofNat (value (window xs 2 2))
  payload := window xs 6 (announced xs)
  fits := (length_window_le xs 6 _).trans h

theorem announced_append {xs : List UInt8} (h : 6 ≤ xs.length) (ys : List UInt8) :
    announced (xs ++ ys) = announced xs := by
  rw [announced, announced, window_append h]

theorem checked_append (crc : List UInt8 → UInt16) {xs : List UInt8} (h6 : 6 ≤ xs.length)
    (h : announced xs + 8 ≤ xs.length) (ys : List UInt8) :
    Checked crc (xs ++ ys) ↔ Checked crc xs := by
  unfold Checked
  rw [announced_append h6, window_append (by omega), window_append (by omega)]

theorem frameIn_append {xs : List UInt8} (h6 : 6 ≤ xs.length)
    (h : announced xs + 8 ≤ xs.length) (ys : List UInt8) (ha : announced xs ≤ maxPayload)
    (hb : announced (xs ++ ys) ≤ maxPayload) : frameIn (xs ++ ys) hb = frameIn xs ha := by
  simp only [frameIn, announced_append h6, Frame.mk.injEq]
  exact ⟨byteAt_append (by omega) ys, by rw [window_append (by omega)],
    window_append (by omega) ys⟩

/-! ### The receivers -/

/-- A receiver looks at the version once `need` bytes have followed the start byte. Where it
gives up after `n` of them it throws `cost n` of them away with the start byte. -/
def attempt (crc : List UInt8 → UInt16) (need : ℕ) (cost : ℕ → ℕ) : Attempt UInt8 Frame :=
  fun x xs =>
  if x ≠ startByte then .reject 0
  else if xs.length < need then .wait
  else if byteAt xs 0 ≠ version then .reject (cost 1)
  else if xs.length < 6 then .wait
  else if h : announced xs ≤ maxPayload then
    if xs.length < announced xs + 8 then .wait
    else if Checked crc xs then .accept (frameIn xs h) (announced xs + 8)
    else .reject (cost (announced xs + 8))
  else .reject (cost 6)

/-- The host looks again one byte further whenever an attempt fails. -/
def hostAttempt (crc : List UInt8 → UInt16) : Attempt UInt8 Frame := attempt crc 8 fun _ => 0

/-- The firmware gives up as soon as it can and forgets every byte it has consumed. -/
def firmwareAttempt (crc : List UInt8 → UInt16) : Attempt UInt8 Frame := attempt crc 1 id

variable {crc : List UInt8 → UInt16} {need : ℕ} {cost : ℕ → ℕ} {x : UInt8} {xs : List UInt8}

/-- The version byte has been seen and is right. -/
structure Opened (need : ℕ) (xs : List UInt8) : Prop where
  enough : need ≤ xs.length
  version_ok : byteAt xs 0 = version

/-- The header is complete and announces a payload that fits. -/
structure Headed (need : ℕ) (xs : List UInt8) : Prop extends Opened need xs where
  header : 6 ≤ xs.length
  announced_ok : announced xs ≤ maxPayload

/-- All bytes the header announces have arrived. -/
structure Arrived (need : ℕ) (xs : List UInt8) : Prop extends Headed need xs where
  arrived : announced xs + 8 ≤ xs.length

theorem attempt_noise (h : x ≠ startByte) : attempt crc need cost x xs = .reject 0 := by
  simp [attempt, h]

theorem attempt_short (h : xs.length < need) : attempt crc need cost startByte xs = .wait := by
  simp [attempt, h]

theorem attempt_version (hn : need ≤ xs.length) (hv : byteAt xs 0 ≠ version) :
    attempt crc need cost startByte xs = .reject (cost 1) := by
  simp [attempt, hn.not_gt, hv]

theorem attempt_header (h : Opened need xs) (h6 : xs.length < 6) :
    attempt crc need cost startByte xs = .wait := by
  simp [attempt, h.version_ok, h6]

theorem attempt_oversize (h : Opened need xs) (h6 : 6 ≤ xs.length)
    (hl : ¬ announced xs ≤ maxPayload) :
    attempt crc need cost startByte xs = .reject (cost 6) := by
  simp [attempt, h.enough.not_gt, h.version_ok, h6.not_gt, hl]

theorem attempt_unfinished (h : Headed need xs) (hl : xs.length < announced xs + 8) :
    attempt crc need cost startByte xs = .wait := by
  simp [attempt, h.enough.not_gt, h.version_ok, h.announced_ok, hl]

theorem attempt_corrupt (h : Arrived need xs) (hc : ¬ Checked crc xs) :
    attempt crc need cost startByte xs = .reject (cost (announced xs + 8)) := by
  simp [attempt, h.enough.not_gt, h.version_ok, h.header.not_gt, h.announced_ok,
    h.arrived.not_gt, hc]

theorem attempt_whole (h : Arrived need xs) (hc : Checked crc xs) :
    attempt crc need cost startByte xs =
      .accept (frameIn xs h.announced_ok) (announced xs + 8) := by
  simp [attempt, h.enough.not_gt, h.version_ok, h.header.not_gt, h.announced_ok,
    h.arrived.not_gt, hc]

/-- How far an attempt gets. -/
inductive Stage (crc : List UInt8 → UInt16) (need : ℕ) : UInt8 → List UInt8 → Prop where
  | noise {y ys} : y ≠ startByte → Stage crc need y ys
  | short {ys} : ys.length < need → Stage crc need startByte ys
  | version {ys} : need ≤ ys.length → byteAt ys 0 ≠ version → Stage crc need startByte ys
  | header {ys} : Opened need ys → ys.length < 6 → Stage crc need startByte ys
  | oversize {ys} : Opened need ys → 6 ≤ ys.length → ¬ announced ys ≤ maxPayload →
      Stage crc need startByte ys
  | unfinished {ys} : Headed need ys → ys.length < announced ys + 8 → Stage crc need startByte ys
  | corrupt {ys} : Arrived need ys → ¬ Checked crc ys → Stage crc need startByte ys
  | whole {ys} : Arrived need ys → Checked crc ys → Stage crc need startByte ys

theorem stage (crc : List UInt8 → UInt16) (need : ℕ) (x : UInt8) (xs : List UInt8) :
    Stage crc need x xs := by
  by_cases hx : x = startByte
  · subst x
    by_cases hn : need ≤ xs.length
    · by_cases hv : byteAt xs 0 = version
      · by_cases h6 : 6 ≤ xs.length
        · by_cases hl : announced xs ≤ maxPayload
          · by_cases ha : announced xs + 8 ≤ xs.length
            · by_cases hc : Checked crc xs
              · exact .whole ⟨⟨⟨hn, hv⟩, h6, hl⟩, ha⟩ hc
              · exact .corrupt ⟨⟨⟨hn, hv⟩, h6, hl⟩, ha⟩ hc
            · exact .unfinished ⟨⟨hn, hv⟩, h6, hl⟩ (by omega)
          · exact .oversize ⟨hn, hv⟩ h6 hl
        · exact .header ⟨hn, hv⟩ (by omega)
      · exact .version hn hv
    · exact .short (by omega)
  · exact .noise hx

theorem attempt_accept {f : Frame} {k : ℕ} :
    attempt crc need cost x xs = .accept f k ↔
      x = startByte ∧ k = announced xs + 8 ∧ Checked crc xs ∧
        ∃ h : Arrived need xs, f = frameIn xs h.announced_ok := by
  constructor
  · intro ha
    cases stage crc need x xs with
    | noise h => simp [attempt_noise h] at ha
    | short h => simp [attempt_short h] at ha
    | version hn hv => simp [attempt_version hn hv] at ha
    | header h h6 => simp [attempt_header h h6] at ha
    | oversize h h6 hl => simp [attempt_oversize h h6 hl] at ha
    | unfinished h hl => simp [attempt_unfinished h hl] at ha
    | corrupt h hc => simp [attempt_corrupt h hc] at ha
    | whole h hc =>
      rw [attempt_whole h hc] at ha
      obtain ⟨rfl, rfl⟩ := Verdict.accept.inj ha
      exact ⟨rfl, rfl, hc, h, rfl⟩
  · rintro ⟨rfl, rfl, hc, h, rfl⟩
    exact attempt_whole h hc

theorem Opened.append (h : Opened need xs) (h1 : 1 ≤ xs.length) (ys : List UInt8) :
    Opened need (xs ++ ys) :=
  ⟨h.enough.trans (by simp), by rw [byteAt_append (by omega), h.version_ok]⟩

theorem Headed.append (h : Headed need xs) (ys : List UInt8) : Headed need (xs ++ ys) where
  toOpened := h.toOpened.append ((by omega : 1 ≤ 6).trans h.header) ys
  header := h.header.trans (by simp)
  announced_ok := by rw [announced_append h.header]; exact h.announced_ok

theorem Arrived.append (h : Arrived need xs) (ys : List UInt8) : Arrived need (xs ++ ys) where
  toHeaded := h.toHeaded.append ys
  arrived := by rw [announced_append h.header]; exact h.arrived.trans (by simp)

theorem attempt_lawful (hneed : 1 ≤ need) (hcost : ∀ n, cost n ≤ n) :
    Lawful (attempt crc need cost) where
  reject_within x xs k ha := by
    cases stage crc need x xs with
    | noise h =>
      rw [attempt_noise h] at ha
      cases ha
      exact Nat.zero_le _
    | short h => simp [attempt_short h] at ha
    | version hn hv =>
      rw [attempt_version hn hv] at ha
      cases ha
      exact (hcost 1).trans (hneed.trans hn)
    | header h h6 => simp [attempt_header h h6] at ha
    | oversize h h6 hl =>
      rw [attempt_oversize h h6 hl] at ha
      cases ha
      exact (hcost 6).trans h6
    | unfinished h hl => simp [attempt_unfinished h hl] at ha
    | corrupt h hc =>
      rw [attempt_corrupt h hc] at ha
      cases ha
      exact (hcost _).trans h.arrived
    | whole h hc => simp [attempt_whole h hc] at ha
  accept_within x xs f k ha := by
    obtain ⟨-, rfl, -, h, -⟩ := attempt_accept.mp ha
    exact h.arrived
  stable x xs ys hw := by
    cases stage crc need x xs with
    | noise h => rw [attempt_noise h, attempt_noise h]
    | short h => exact absurd (attempt_short h) hw
    | version hn hv =>
      have hv' : byteAt (xs ++ ys) 0 ≠ version := by
        rwa [byteAt_append (by omega)]
      rw [attempt_version hn hv, attempt_version (hn.trans (by simp)) hv']
    | header h h6 => exact absurd (attempt_header h h6) hw
    | oversize h h6 hl =>
      have hl' : ¬ announced (xs ++ ys) ≤ maxPayload := by rwa [announced_append h6]
      rw [attempt_oversize h h6 hl,
        attempt_oversize (h.append (by omega) ys) (h6.trans (by simp)) hl']
    | unfinished h hl => exact absurd (attempt_unfinished h hl) hw
    | corrupt h hc =>
      have hc' : ¬ Checked crc (xs ++ ys) := by rwa [checked_append crc h.header h.arrived]
      rw [attempt_corrupt h hc, attempt_corrupt (h.append ys) hc', announced_append h.header]
    | whole h hc =>
      have hc' : Checked crc (xs ++ ys) := by rwa [checked_append crc h.header h.arrived]
      rw [attempt_whole h hc, attempt_whole (h.append ys) hc', announced_append h.header,
        frameIn_append h.header h.arrived ys h.announced_ok]

theorem hostAttempt_lawful (crc : List UInt8 → UInt16) : Lawful (hostAttempt crc) :=
  attempt_lawful (by omega) (by simp)

theorem firmwareAttempt_lawful (crc : List UInt8 → UInt16) : Lawful (firmwareAttempt crc) :=
  attempt_lawful le_rfl (by simp)

/-- The receivers accept the same frames; they part only over what a failure costs. -/
theorem receivers_sameFrames (crc : List UInt8 → UInt16) :
    SameFrames (hostAttempt crc) (firmwareAttempt crc) 9 where
  accept_iff x xs f k := by
    rw [hostAttempt, firmwareAttempt, attempt_accept, attempt_accept]
    constructor
    · rintro ⟨hx, hk, hc, h, hf⟩
      exact ⟨hx, hk, hc, { h with enough := (by omega : 1 ≤ 8).trans h.enough }, hf⟩
    · rintro ⟨hx, hk, hc, h, hf⟩
      exact ⟨hx, hk, hc, { h with enough := (Nat.le_add_left 8 _).trans h.arrived }, hf⟩
  coarse_wait x xs ha := by
    rw [firmwareAttempt] at ha
    cases stage crc 1 x xs with
    | noise h => simp [attempt_noise h] at ha
    | short h => exact attempt_short (by omega)
    | version hn hv => simp [attempt_version hn hv] at ha
    | header h h6 => exact attempt_short (by omega)
    | oversize h h6 hl => simp [attempt_oversize h h6 hl] at ha
    | unfinished h hl =>
      by_cases h8 : 8 ≤ xs.length
      · exact attempt_unfinished { h with enough := h8 } hl
      · exact attempt_short (by omega)
    | corrupt h hc => simp [attempt_corrupt h hc] at ha
    | whole h hc => simp [attempt_whole h hc] at ha
  fine_reject x xs k ha := by
    rw [hostAttempt] at ha
    cases stage crc 8 x xs with
    | noise h => simpa [attempt_noise h, eq_comm] using ha
    | short h => simp [attempt_short h] at ha
    | version hn hv => simpa [attempt_version hn hv, eq_comm] using ha
    | header h h6 => simp [attempt_header h h6] at ha
    | oversize h h6 hl => simpa [attempt_oversize h h6 hl, eq_comm] using ha
    | unfinished h hl => simp [attempt_unfinished h hl] at ha
    | corrupt h hc => simpa [attempt_corrupt h hc, eq_comm] using ha
    | whole h hc => simp [attempt_whole h hc] at ha
  early_reject x xs k hr hw := by
    by_contra hlen
    rw [hostAttempt] at hw
    rw [firmwareAttempt] at hr
    cases stage crc 8 x xs with
    | noise h => simp [attempt_noise h] at hw
    | short h => omega
    | version hn hv => simp [attempt_version hn hv] at hw
    | header h h6 => omega
    | oversize h h6 hl => simp [attempt_oversize h h6 hl] at hw
    | unfinished h hl =>
      have h1 : Headed 1 xs := { h with enough := by omega }
      simp [attempt_unfinished h1 hl] at hr
    | corrupt h hc => simp [attempt_corrupt h hc] at hw
    | whole h hc => simp [attempt_whole h hc] at hw
  long_accept x xs f k ha := by
    rw [hostAttempt, attempt_accept] at ha
    obtain ⟨-, -, -, h, -⟩ := ha
    have := h.arrived
    omega

/-! ### What the receivers see of an encoded frame -/

variable (crc) (f : Frame)

theorem body_eq : f.body crc =
    version :: f.type :: UInt8.ofNat f.seq.toNat :: UInt8.ofNat (f.seq.toNat / 256) ::
      UInt8.ofNat f.payload.length :: UInt8.ofNat (f.payload.length / 256) ::
      (f.payload ++ toBytes 2 (crc f.covered).toNat) := rfl

theorem announced_body : announced (f.body crc) = f.payload.length := by
  have hl := f.fits
  have hv : announced (f.body crc) = value (toBytes 2 f.payload.length) := rfl
  rw [hv, value_toBytes_of_lt (by unfold maxPayload at hl; omega)]

theorem checked_body : Checked crc (f.body crc) := by
  have hc : window (f.body crc) 0 (6 + f.payload.length) = f.covered := by
    rw [window, List.drop_zero, Frame.body, ← length_covered, List.take_left]
  have ht : window (f.body crc) (6 + f.payload.length) 2 = toBytes 2 (crc f.covered).toNat := by
    rw [window, Frame.body, ← length_covered, List.drop_left, List.take_of_length_le (by simp)]
  rw [Checked, announced_body, hc, ht, value_toBytes_of_lt (UInt16.toNat_lt _)]

theorem frameIn_body (h : announced (f.body crc) ≤ maxPayload) :
    frameIn (f.body crc) h = f := by
  have hs : UInt16.ofNat (value (toBytes 2 f.seq.toNat)) = f.seq := by
    rw [value_toBytes_of_lt (UInt16.toNat_lt _), UInt16.ofNat_toNat]
  have hp : window (f.body crc) 6 f.payload.length = f.payload := by
    simp [window, body_eq]
  simp only [frameIn, announced_body, hp]
  cases f
  congr 1

theorem arrived_body (hneed : need ≤ 8) : Arrived need (f.body crc) where
  enough := by rw [length_body]; omega
  version_ok := rfl
  header := by rw [length_body]; omega
  announced_ok := by rw [announced_body]; exact f.fits
  arrived := by rw [announced_body, length_body]; omega

theorem attempt_encodes (h1 : 1 ≤ need) (h8 : need ≤ 8) (hcost : ∀ n, cost n ≤ n) :
    Encodes (attempt crc need cost) (Frame.encode crc) f := by
  refine ⟨startByte, f.body crc, rfl, fun t => ?_⟩
  have ha : attempt crc need cost startByte (f.body crc) = _ :=
    attempt_whole (arrived_body crc f h8) (checked_body crc f)
  rw [(attempt_lawful h1 hcost).stable startByte (f.body crc) t (by simp [ha]), ha, frameIn_body,
    announced_body, length_body, Nat.add_comm]

theorem hostAttempt_encodes : Encodes (hostAttempt crc) (Frame.encode crc) f :=
  attempt_encodes crc f (by omega) le_rfl (by simp)

theorem firmwareAttempt_encodes : Encodes (firmwareAttempt crc) (Frame.encode crc) f :=
  attempt_encodes crc f le_rfl (by omega) (by simp)

/-! ### An accepted frame is its own encoding -/

omit f in
variable {crc} in
theorem body_frameIn (h : Arrived need xs) (hc : Checked crc xs) :
    (frameIn xs h.announced_ok).body crc = xs.take (announced xs + 8) := by
  have hlong := h.arrived
  have hwindow : ∀ i n, i + n ≤ announced xs + 8 → (window xs i n).length = n := by
    intro i n hi
    rw [window, List.length_take, List.length_drop]
    omega
  have hpair : ∀ i, i + 2 ≤ announced xs + 8 →
      toBytes 2 (value (window xs i 2)) = window xs i 2 := by
    intro i hi
    have := toBytes_value (window xs i 2)
    rwa [hwindow i 2 hi] at this
  have hfront : [version, byteAt xs 1] = window xs 0 2 := by
    have h0 := h.version_ok
    match xs, h.header with
    | a :: b :: rest, _ =>
      change a = version at h0
      rw [h0]
      rfl
  have hseq : toBytes 2 (UInt16.ofNat (value (window xs 2 2))).toNat = window xs 2 2 := by
    rw [UInt16.toNat_ofNat']
    exact (toBytes_mod 2 _).trans (hpair 2 (by omega))
  have hlen : toBytes 2 (window xs 6 (announced xs)).length = window xs 4 2 := by
    rw [hwindow 6 _ (by omega)]
    exact hpair 4 (by omega)
  have hcov : (frameIn xs h.announced_ok).covered = window xs 0 (6 + announced xs) := by
    have hcat : (frameIn xs h.announced_ok).covered =
        [version, byteAt xs 1] ++ (window xs 2 2 ++ (window xs 4 2 ++
          window xs 6 (announced xs))) := by
      rw [← hseq, ← hlen, ← List.append_assoc (toBytes 2 _)]
      rfl
    rw [hcat, hfront, show 6 + announced xs = 2 + (2 + (2 + announced xs)) by omega,
      window_add, window_add, window_add]
  have hall := window_add xs 0 (6 + announced xs) 2
  rw [Nat.zero_add] at hall
  rw [Frame.body, hcov, hc, hpair _ (by omega), ← hall, window, List.drop_zero]
  congr 1
  omega

/-- The bytes of an accepted frame stand in the input. -/
theorem infix_of_mem_scan {f : Frame} {k : ℕ} (h : f ∈ (scan (attempt crc need cost) k xs).1) :
    f.encode crc <:+: xs := by
  obtain ⟨before, x, later, n, rfl, ha⟩ := mem_scan xs k h
  obtain ⟨rfl, -, hc, harr, rfl⟩ := attempt_accept.mp ha
  refine ⟨before, later.drop (announced later + 8), ?_⟩
  rw [Frame.encode, body_frameIn harr hc, List.append_assoc, List.cons_append,
    List.take_append_drop]

end WireFrame
