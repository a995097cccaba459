import TeensyIo.ChecksumAlgebra
import TeensyIo.DecoderStreams

/-! # Transmission errors

A frame whose start, version and length bytes arrive intact and some of whose other bits do
not. Two wrong bits or an odd number of them never go unnoticed; nor does an error within two
neighbouring bytes, except one across the end of the payload, where the order of the trailer's
bytes breaks the burst in two. -/
namespace FrameErrors

open WireFrame StreamScanner LittleEndian WireCompatibility ChecksumAlgebra DecoderStreams
open HostProtocol (Packet Turn feedTurn encodePacket)
open FirmwareProtocol (PacketParser crc16Ccitt joined)

/-! ### The check -/

/-- The bytes the checksum of a received frame is computed over. -/
def coveredBytes (f : List UInt8) : List UInt8 := (f.take (f.length - 2)).drop 1

/-- The comparison `PacketDecoder.feed` makes. -/
def HostChecks (f : List UInt8) : Prop :=
  HostProtocol.crc16Ccitt (coveredBytes f) = value (f.drop (f.length - 2))

/-- The comparison `PacketParser::push` makes, on the bytes as they came. -/
def FirmwareChecks (f : List UInt8) : Prop :=
  crc16Ccitt (coveredBytes f) = joined (byteAt f (f.length - 2)) (byteAt f (f.length - 1))

instance (f : List UInt8) : Decidable (HostChecks f) := inferInstanceAs (Decidable (_ = _))
instance (f : List UInt8) : Decidable (FirmwareChecks f) := inferInstanceAs (Decidable (_ = _))

theorem drop_last_two {f : List UInt8} (h : 2 ≤ f.length) :
    f.drop (f.length - 2) = [byteAt f (f.length - 2), byteAt f (f.length - 1)] := by
  apply List.ext_getElem
  · simp
    omega
  · intro i h1 h2
    have hi : i = 0 ∨ i = 1 := by
      simp at h2
      omega
    rcases hi with rfl | rfl
    · simp [byteAt, List.getD_eq_getElem?_getD, show f.length - 2 < f.length by omega]
    · simp [byteAt, List.getD_eq_getElem?_getD, show f.length - 2 + 1 = f.length - 1 by omega,
        show f.length - 1 < f.length by omega]

theorem frame_split {f : List UInt8} (h : 3 ≤ f.length) :
    f = byteAt f 0 :: (coveredBytes f ++
      [byteAt f (f.length - 2), byteAt f (f.length - 1)]) := by
  have htail : f.drop 1 = coveredBytes f ++ f.drop (f.length - 2) := by
    have hsplit := List.take_append_drop (f.length - 2) f
    conv_lhs => rw [← hsplit]
    rw [List.drop_append_of_le_length (by rw [List.length_take]; omega)]
    rfl
  rw [← drop_last_two (by omega), ← htail]
  cases f with
  | nil => simp at h
  | cons a f => rfl

@[simp] theorem length_coveredBytes (f : List UInt8) :
    (coveredBytes f).length = f.length - 3 := by
  rw [coveredBytes, List.length_drop, List.length_take]
  omega

theorem value_pair (lo hi : UInt8) : value [lo, hi] = (joined lo hi).toNat := by
  rw [joined, uint16_of_bytes]

theorem hostChecks_iff {f : List UInt8} (h : 2 ≤ f.length) : HostChecks f ↔ FirmwareChecks f := by
  rw [HostChecks, FirmwareChecks, drop_last_two h, crc_agree, value_pair, UInt16.toNat_inj]

/-! ### Changed frames -/

/-- The type, sequence, payload and trailer bytes. -/
def Corruptible (i : ℕ) : Prop := (2 ≤ i ∧ i < 5) ∨ 7 ≤ i

instance (i : ℕ) : Decidable (Corruptible i) := inferInstanceAs (Decidable (_ ∨ _))

/-- `f` is as long as `block` and differs from it in corruptible bytes only. -/
structure Corrupts (block f : List UInt8) : Prop where
  length : f.length = block.length
  kept : ∀ i, ¬ Corruptible i → byteAt f i = byteAt block i

theorem byteAt_set_of_ne {xs : List UInt8} {i j : ℕ} (h : i ≠ j) (x : UInt8) :
    byteAt (xs.set i x) j = byteAt xs j := by
  rw [byteAt, byteAt, List.getD_eq_getElem?_getD, List.getElem?_set_ne h,
    List.getD_eq_getElem?_getD]

theorem byteAt_set_pair (xs : List UInt8) {i j k : ℕ} (hi : i ≠ k) (hj : j ≠ k) (x y : UInt8) :
    byteAt ((xs.set i x).set j y) k = byteAt xs k := by
  rw [byteAt_set_of_ne hj, byteAt_set_of_ne hi]

theorem corrupts_set (block : List UInt8) {i j : ℕ} (hi : Corruptible i) (hj : Corruptible j)
    (x y : UInt8) : Corrupts block ((block.set i x).set j y) := by
  refine ⟨by simp, fun k hk => byteAt_set_pair block ?_ ?_ x y⟩
  · rintro rfl
    exact hk hi
  · rintro rfl
    exact hk hj

theorem encodePacket_ok {p : Packet} {block : List UInt8} (hp : encodePacket p = .ok block) :
    ∃ h : p.payload.length ≤ maxPayload, block = (frameOf p h).encode crc16Ccitt := by
  by_cases h : p.payload.length ≤ maxPayload
  · rw [encodePacket_eq p h] at hp
    exact ⟨h, (Except.ok.inj hp).symm⟩
  · have hover : p.payload.length > HostProtocol.maxPayloadSize := Nat.lt_of_not_le h
    rw [encodePacket, if_pos hover] at hp
    cases hp

theorem length_block {p : Packet} {block : List UInt8} (hp : encodePacket p = .ok block) :
    block.length = 9 + p.payload.length := by
  obtain ⟨h, rfl⟩ := encodePacket_ok hp
  rw [Frame.encode, List.length_cons, length_body]
  change 8 + p.payload.length + 1 = _
  omega

theorem block_checks {p : Packet} {block : List UInt8} (hp : encodePacket p = .ok block) :
    FirmwareChecks block := by
  have hlen := length_block hp
  obtain ⟨h, rfl⟩ := encodePacket_ok hp
  let f := frameOf p h
  rw [← hostChecks_iff (by omega), HostChecks, crc_agree]
  have hbytes : f.encode crc16Ccitt =
      (startByte :: f.covered) ++ toBytes 2 (crc16Ccitt f.covered).toNat := rfl
  have hcut : (f.encode crc16Ccitt).length - 2 = (startByte :: f.covered).length := by
    rw [hbytes, List.length_append, length_toBytes, Nat.add_sub_cancel]
  have hcovered : coveredBytes (f.encode crc16Ccitt) = f.covered := by
    rw [coveredBytes, hcut, hbytes, List.take_left, List.drop_succ_cons, List.drop_zero]
  rw [hcovered, hcut, hbytes, List.drop_left, value_toBytes_of_lt (UInt16.toNat_lt _)]

/-- The changes in the order in which the register takes the bytes in. -/
def errorBytes (block f : List UInt8) : List UInt8 :=
  changes (coveredBytes block ++ [byteAt block (block.length - 1), byteAt block (block.length - 2)])
    (coveredBytes f ++ [byteAt f (f.length - 1), byteAt f (f.length - 2)])

/-- A changed frame passes exactly if the changes leave nothing in the register. -/
theorem checks_iff {p : Packet} {block f : List UInt8} (hp : encodePacket p = .ok block)
    (hc : Corrupts block f) : FirmwareChecks f ↔ remainder (errorBytes block f) = 0 := by
  have hlen : (coveredBytes block).length = (coveredBytes f).length := by
    rw [length_coveredBytes, length_coveredBytes, hc.length]
  exact checksum_changes hlen (block_checks hp)

/-! ### Counting wrong bits -/

def ones (b : UInt8) : ℕ := (bitsOf b).count true

/-- The number of bits in which two byte strings differ. -/
def bitsFlipped (xs ys : List UInt8) : ℕ := ((changes xs ys).map ones).sum

theorem count_bitStream (bytes : List UInt8) :
    (bitStream bytes).count true = (bytes.map ones).sum := by
  induction bytes with
  | nil => rfl
  | cons b bytes ih =>
    rw [bitStream_cons, List.count_append, ih, List.map_cons, List.sum_cons]
    rfl

theorem count_errorBytes {block f : List UInt8} (hlong : 3 ≤ block.length)
    (hc : Corrupts block f) :
    (bitStream (errorBytes block f)).count true = bitsFlipped block f := by
  have hfirst : ones (byteAt block 0 ^^^ byteAt f 0) = 0 := by
    rw [hc.kept 0 (by decide), UInt8.xor_self]
    rfl
  have hlen : (coveredBytes block).length = (coveredBytes f).length := by
    rw [length_coveredBytes, length_coveredBytes, hc.length]
  have hblock := frame_split hlong
  have hf := frame_split (f := f) (by rw [hc.length]; exact hlong)
  rw [count_bitStream, bitsFlipped, errorBytes]
  conv_rhs => rw [hblock, hf]
  rw [changes, changes, List.zipWith_cons_cons, List.zipWith_append hlen,
    List.zipWith_append hlen]
  simp only [List.zipWith_cons_cons, List.zipWith_nil_left, List.map_append, List.map_cons,
    List.map_nil, List.sum_append, List.sum_cons, List.sum_nil, hfirst]
  omega

theorem length_errorBytes {block f : List UInt8} (hlong : 3 ≤ block.length)
    (hc : Corrupts block f) : (errorBytes block f).length = block.length - 1 := by
  rw [errorBytes, changes, List.length_zipWith, List.length_append, List.length_append,
    length_coveredBytes, length_coveredBytes, hc.length]
  simp
  omega

theorem flips_leave {p : Packet} {block f : List UInt8} (hp : encodePacket p = .ok block)
    (hc : Corrupts block f) (hflips : bitsFlipped block f = 2 ∨ Odd (bitsFlipped block f)) :
    remainder (errorBytes block f) ≠ 0 := by
  have hlen := length_block hp
  obtain ⟨hfits, -⟩ := encodePacket_ok hp
  have hlong : 3 ≤ block.length := by omega
  rw [← count_errorBytes hlong hc] at hflips
  rcases hflips with htwo | hodd
  · refine ShiftRegisters.residue_two step_injective ?_ htwo
    intro n hpos hn
    rw [length_bitStream, length_errorBytes hlong hc] at hn
    unfold maxPayload at hfits
    exact period_exceeds hpos (by omega)
  · exact ShiftRegisters.residue_odd step parity parity_step parity_one hodd

/-! ### What the receivers do with a frame that fails the check -/

/-- The header of a changed frame still announces all of it. -/
theorem corrupts_arrived {p : Packet} {block f : List UInt8} (hp : encodePacket p = .ok block)
    (hc : Corrupts block f) :
    ∃ body, f = startByte :: body ∧ announced body + 8 = body.length ∧
      ∀ need ≤ 8, Arrived need body := by
  have hlen := length_block hp
  obtain ⟨hfits, hblock⟩ := encodePacket_ok hp
  have hflen := hc.length
  obtain ⟨b, body, rfl⟩ : ∃ b body, f = b :: body := by
    cases f with
    | nil =>
      rw [List.length_nil] at hflen
      omega
    | cons b body => exact ⟨b, body, rfl⟩
  have hstart : b = startByte := by
    have := hc.kept 0 (by decide)
    rwa [hblock] at this
  have hversion : byteAt body 0 = version := by
    have := hc.kept 1 (by decide)
    rwa [hblock] at this
  rw [List.length_cons] at hflen
  have hannounced : announced body = p.payload.length := by
    have h5 : byteAt body 4 = byteAt ((frameOf p hfits).body crc16Ccitt) 4 := by
      have := hc.kept 5 (by decide)
      rwa [hblock] at this
    have h6 : byteAt body 5 = byteAt ((frameOf p hfits).body crc16Ccitt) 5 := by
      have := hc.kept 6 (by decide)
      rwa [hblock] at this
    have hbody := announced_body crc16Ccitt (frameOf p hfits)
    rw [announced, value_window _ 4 (by rw [length_body]; omega)] at hbody
    rw [announced, value_window _ 4 (by omega), h5, h6]
    exact hbody
  refine ⟨body, by rw [hstart], by omega, fun need hneed => ?_⟩
  constructor
  · constructor
    · exact ⟨by omega, hversion⟩
    · omega
    · exact hannounced.trans_le hfits
  · omega

theorem checked_iff {body : List UInt8} (h : announced body + 8 = body.length) :
    Checked crc16Ccitt body ↔ FirmwareChecks (startByte :: body) := by
  rw [← hostChecks_iff (by rw [List.length_cons]; omega), HostChecks, crc_agree, Checked]
  have hcut : (startByte :: body).length - 2 = 6 + announced body + 1 := by
    rw [List.length_cons]
    omega
  have hcovered : coveredBytes (startByte :: body) = window body 0 (6 + announced body) := by
    rw [coveredBytes, hcut, List.take_succ_cons, List.drop_succ_cons, List.drop_zero]
    rfl
  have htrailer : window body (6 + announced body) 2 =
      (startByte :: body).drop ((startByte :: body).length - 2) := by
    rw [window, hcut, List.drop_succ_cons, List.take_of_length_le]
    rw [List.length_drop]
    omega
  rw [hcovered, htrailer]

/-- Neither receiver makes anything of such a frame. -/
structure Refused (f : List UInt8) : Prop where
  host_fails : ¬ HostChecks f
  firmware_fails : ¬ FirmwareChecks f
  parser : ∀ parser : PacketParser, parser.state = .start → (parser.pushAll f).2 = []
  turn : ∀ later, feedTurn (f ++ later) = .next (f.tail ++ later)
  decoder : ∀ before later q, (before.length, q) ∉ placedPackets (before ++ f ++ later)

theorem refused_of_fails {p : Packet} {block f : List UInt8} (hp : encodePacket p = .ok block)
    (hc : Corrupts block f) (hfails : ¬ FirmwareChecks f) : Refused f := by
  obtain ⟨body, rfl, hsize, harrived⟩ := corrupts_arrived hp hc
  have hcorrupt : ¬ Checked crc16Ccitt body := mt (checked_iff hsize).mp hfails
  have hhost : ∀ later, hostAttempt crc16Ccitt startByte (body ++ later) = .reject 0 := by
    intro later
    have hnow : hostAttempt crc16Ccitt startByte body = .reject 0 :=
      attempt_corrupt (harrived 8 le_rfl) hcorrupt
    rw [(hostAttempt_lawful crc16Ccitt).stable startByte body later (by simp [hnow]), hnow]
  constructor
  · rwa [hostChecks_iff (by rw [List.length_cons]; omega)]
  · exact hfails
  · intro parser hstart
    have hreject : firmwareAttempt crc16Ccitt startByte body = .reject (announced body + 8) :=
      attempt_corrupt (harrived 1 (by omega)) hcorrupt
    have hfound := (FirmwareProtocol.pushAll_eq_scan (.start parser hstart)
      (startByte :: body)).2
    rw [List.nil_append, scan_reject hreject, scan_drop, hsize, List.drop_length,
      scan_nil] at hfound
    exact List.map_eq_nil_iff.mp hfound
  · intro later
    have hreads := feedTurn_reads (startByte :: body ++ later)
    generalize feedTurn (startByte :: body ++ later) = turn at hreads ⊢
    cases hreads with
    | noise hno => exact absurd rfl (hno startByte List.mem_cons_self)
    | start pre xs turn hsplit hno hj =>
      have hpre : pre = [] := by
        cases pre with
        | nil => rfl
        | cons b pre =>
          obtain rfl : startByte = b := (List.cons.inj hsplit).1
          exact absurd rfl (hno startByte List.mem_cons_self)
      subst hpre
      obtain rfl : body ++ later = xs := (List.cons.inj hsplit).2
      cases turn with
      | next rest =>
        obtain ⟨rfl, -⟩ := hj
        rfl
      | stop rest =>
        obtain ⟨-, hw⟩ := hj
        rw [hhost later] at hw
        cases hw
      | found q rest =>
        obtain ⟨g, k, ha, -⟩ := hj
        rw [hhost later] at ha
        cases ha
      | raised e rest =>
        obtain ⟨-, -, g, k, ha, -⟩ := hj
        rw [hhost later] at ha
        cases ha
  · intro before later q hmem
    obtain ⟨g, hg⟩ := mem_placedPackets hmem
    obtain ⟨pre, x, rest, n, hsplit, hplace, ha⟩ := mem_scanAt _ 0 0 hg
    rw [Nat.zero_add] at hplace
    rw [List.append_assoc, List.cons_append] at hsplit
    obtain ⟨-, hbody⟩ := List.append_inj hsplit hplace
    obtain ⟨rfl, rfl⟩ := List.cons.inj hbody
    rw [hhost later] at ha
    cases ha

/-- Two wrong bits or an odd number of them are always noticed, by both receivers. -/
theorem flips_refused (p : Packet) (block f : List UInt8) (hp : encodePacket p = .ok block)
    (hc : Corrupts block f)
    (hflips : bitsFlipped block f = 2 ∨ Odd (bitsFlipped block f)) : Refused f :=
  refused_of_fails hp hc (mt (checks_iff hp hc).mp (flips_leave hp hc hflips))

/-- Two bits of a stop command: one in the opcode, one in the trailer. -/
theorem flips_refused_stop :
    let block := firmwareBytes ⟨.command, 1, [0xF0]⟩
    let f := (block.set 7 0xF1).set 8 (byteAt block 8 ^^^ 0x80)
    bitsFlipped block f = 2 ∧ Refused f := by
  intro block f
  have htwo : bitsFlipped block f = 2 := by decide +kernel
  exact ⟨htwo, flips_refused ⟨.command, 1, [0xF0]⟩ block f
    (encodePacket_sendable ⟨by decide, by decide⟩)
    (corrupts_set block (by decide) (by decide) _ _) (Or.inl htwo)⟩

/-! ### Bursts -/

/-- All changes lie within two neighbouring bytes. -/
def Burst (block f : List UInt8) : Prop :=
  ∃ i, ∀ j, byteAt f j ≠ byteAt block j → j = i ∨ j = i + 1

/-- The last payload byte and the first byte of the trailer are changed so that the one undoes
the other: the remainder of `0x89` has nothing in its upper byte. -/
def Aliased (block f : List UInt8) : Prop :=
  byteAt f (block.length - 3) = byteAt block (block.length - 3) ^^^ 0x89 ∧
    byteAt f (block.length - 2) = byteAt block (block.length - 2) ^^^ 0xA1

theorem bitStream_zeros (n : ℕ) :
    bitStream (List.replicate n 0) = List.replicate (8 * n) false := by
  induction n with
  | zero => rfl
  | succ n ih =>
    rw [List.replicate_succ, bitStream_cons, ih, Nat.mul_succ, Nat.add_comm, List.replicate_add]
    rfl

theorem eq_zeros {xs : List UInt8} (h : ∀ k, byteAt xs k = 0) :
    xs = List.replicate xs.length 0 := by
  refine List.eq_replicate_iff.mpr ⟨rfl, fun b hb => ?_⟩
  obtain ⟨k, hk, rfl⟩ := List.mem_iff_getElem.mp hb
  have := h k
  rwa [byteAt, List.getD_eq_getElem _ _ hk] at this

/-- Outside a window there is nothing to see. -/
theorem remainder_window {xs : List UInt8} (a w : ℕ)
    (h : ∀ k, byteAt xs k ≠ 0 → a ≤ k ∧ k < a + w) :
    remainder xs = 0 ↔ remainder (window xs a w) = 0 := by
  have hfront : xs.take a = List.replicate (xs.take a).length 0 := by
    apply eq_zeros
    intro k
    by_contra hk
    by_cases hka : k < a
    · have hsame : byteAt (xs.take a) k = byteAt xs k := by
        simp [byteAt, List.getD_eq_getElem?_getD, List.getElem?_take_of_lt hka]
      rw [hsame] at hk
      have := (h k hk).1
      omega
    · refine hk ?_
      simp [byteAt, List.getD_eq_getElem?_getD, hka]
  have hback : xs.drop (a + w) = List.replicate (xs.drop (a + w)).length 0 := by
    apply eq_zeros
    intro k
    by_contra hk
    have hsame : byteAt (xs.drop (a + w)) k = byteAt xs (a + w + k) := by
      simp [byteAt, List.getD_eq_getElem?_getD, List.getElem?_drop]
    rw [hsame] at hk
    have := (h _ hk).2
    omega
  have hsplit : xs = xs.take a ++ window xs a w ++ xs.drop (a + w) := by
    rw [window, List.append_assoc, ← List.drop_drop, List.take_append_drop, List.take_append_drop]
  conv_lhs => rw [hsplit, hfront, hback]
  rw [remainder, bitStream_append, bitStream_append, bitStream_zeros, bitStream_zeros]
  exact ShiftRegisters.residue_burst one step_injective _ _ (bitStream (window xs a w))

theorem window_eq_map {xs : List UInt8} {a w : ℕ} (h : a + w ≤ xs.length) :
    window xs a w = (List.range w).map fun j => byteAt xs (a + j) := by
  apply List.ext_getElem
  · simp [window]
    omega
  · intro j h1 h2
    have hj : a + j < xs.length := by
      simp at h2
      omega
    simp [window, byteAt, List.getD_eq_getElem?_getD, List.getElem?_eq_getElem hj]

theorem joined_eq_zero {lo hi : UInt8} : joined lo hi = 0 ↔ lo = 0 ∧ hi = 0 := by
  rw [← UInt16.toNat_inj, ← value_pair, ← UInt8.toNat_inj, ← UInt8.toNat_inj]
  change lo.toNat + 256 * (hi.toNat + 256 * 0) = 0 ↔ lo.toNat = 0 ∧ hi.toNat = 0
  omega

/-- Sixteen neighbouring bits always leave something. -/
theorem remainder_pair {d e : UInt8} : remainder [d, e] = 0 ↔ d = 0 ∧ e = 0 := by
  rw [remainder_trailer]
  constructor
  · intro h
    obtain ⟨he, hd⟩ := joined_eq_zero.mp (congrArg Residue.word h)
    exact ⟨hd, he⟩
  · rintro ⟨rfl, rfl⟩
    rfl

theorem joined_zero (lo : UInt8) : joined lo 0 = lo.toUInt16 := by
  rw [← UInt16.toNat_inj, ← value_pair, UInt8.toNat_toUInt16]
  rfl

theorem bytes_with_clear_remainder (d : UInt8)
    (h : (FirmwareProtocol.crcBit^[16] d.toUInt16).toNat < 256) : d = 0 ∨ d = 0x89 := by
  have hall : ∀ n < 256, (FirmwareProtocol.crcBit^[16] (UInt8.ofNat n).toUInt16).toNat < 256 →
      UInt8.ofNat n = 0 ∨ UInt8.ofNat n = 0x89 := by decide +kernel
  have := hall d.toNat (UInt8.toNat_lt d)
  rw [UInt8.ofNat_toNat] at this
  exact this h

/-- The pair across the end of the payload, with the other byte of the trailer in between. -/
theorem remainder_split_pair {d e : UInt8} :
    remainder [d, 0, e] = 0 ↔ (d = 0 ∧ e = 0) ∨ (d = 0x89 ∧ e = 0xA1) := by
  have hmoved : remainder [d, 0, e] = step^[16] (remainder [d]) + remainder [0, e] :=
    remainder_append [d] [0, e]
  have hzero : FirmwareProtocol.crcBit^[16] (0 : UInt8).toUInt16 = (0 : UInt8).toUInt16 := by
    decide +kernel
  have halias : FirmwareProtocol.crcBit^[16] (0x89 : UInt8).toUInt16 =
      (0xA1 : UInt8).toUInt16 := by decide +kernel
  rw [hmoved, remainder_trailer, joined_zero, (byte_steps d).1, word_steps, ← eq_iff_add_eq_zero,
    Residue.mk.injEq]
  constructor
  · intro h
    have hlow : (FirmwareProtocol.crcBit^[16] d.toUInt16).toNat < 256 := by
      rw [h, UInt8.toNat_toUInt16]
      exact UInt8.toNat_lt e
    have hbyte : ∀ x : UInt8, x.toUInt16 = e.toUInt16 → e = x := by
      intro x hx
      rw [← UInt8.toNat_inj, ← UInt8.toNat_toUInt16, ← hx, UInt8.toNat_toUInt16]
    rcases bytes_with_clear_remainder d hlow with rfl | rfl
    · exact Or.inl ⟨rfl, hbyte 0 (hzero.symm.trans h)⟩
    · exact Or.inr ⟨rfl, hbyte 0xA1 (halias.symm.trans h)⟩
  · rintro (⟨rfl, rfl⟩ | ⟨rfl, rfl⟩)
    · exact hzero
    · exact halias

/-! ### Where a burst ends up -/

/-- The change of the byte at a place of the frame. -/
def change (block f : List UInt8) (j : ℕ) : UInt8 := byteAt block j ^^^ byteAt f j

theorem change_eq_zero {block f : List UInt8} {j : ℕ} :
    change block f j = 0 ↔ byteAt f j = byteAt block j := by
  rw [change, UInt8.xor_eq_zero_iff, eq_comm]

theorem byteAt_covered {f : List UInt8} {k : ℕ} (h : k < f.length - 3) :
    byteAt (coveredBytes f) k = byteAt f (k + 1) := by
  rw [byteAt, byteAt, coveredBytes, List.getD_eq_getElem?_getD, List.getElem?_drop,
    List.getElem?_take_of_lt (by omega), Nat.add_comm, List.getD_eq_getElem?_getD]

theorem byteAt_changes {xs ys : List UInt8} (h : xs.length = ys.length) (k : ℕ) :
    byteAt (changes xs ys) k = byteAt xs k ^^^ byteAt ys k := by
  simp only [byteAt, changes, List.getD_eq_getElem?_getD, List.getElem?_zipWith]
  by_cases hk : k < xs.length
  · rw [List.getElem?_eq_getElem hk, List.getElem?_eq_getElem (h ▸ hk)]
    rfl
  · rw [List.getElem?_eq_none (by omega), List.getElem?_eq_none (by omega)]
    rfl

section Places

variable {block f : List UInt8} (hlong : 3 ≤ block.length) (hc : Corrupts block f)
include hlong hc

omit hlong in
theorem errorBytes_eq : errorBytes block f =
    changes (coveredBytes block) (coveredBytes f) ++
      [change block f (block.length - 1), change block f (block.length - 2)] := by
  have hlen : (coveredBytes block).length = (coveredBytes f).length := by
    rw [length_coveredBytes, length_coveredBytes, hc.length]
  rw [errorBytes, changes, List.zipWith_append hlen, hc.length]
  rfl

/-- The covered bytes keep their order; the bytes of the trailer change places. -/
theorem errorBytes_at (k : ℕ) : byteAt (errorBytes block f) k =
    if k < block.length - 3 then change block f (k + 1)
    else if k = block.length - 3 then change block f (block.length - 1)
    else if k = block.length - 2 then change block f (block.length - 2) else 0 := by
  have hlen : (coveredBytes block).length = (coveredBytes f).length := by
    rw [length_coveredBytes, length_coveredBytes, hc.length]
  have hfront : (changes (coveredBytes block) (coveredBytes f)).length = block.length - 3 := by
    rw [changes, List.length_zipWith, ← hlen, Nat.min_self, length_coveredBytes]
  rw [errorBytes_eq hc]
  by_cases hk : k < block.length - 3
  · rw [if_pos hk, byteAt_append (by rwa [hfront]), byteAt_changes hlen, byteAt_covered hk,
      byteAt_covered (by rwa [hc.length])]
    rfl
  · rw [if_neg hk, byteAt, List.getD_append_right _ _ _ _ (by omega), hfront]
    by_cases h0 : k = block.length - 3
    · rw [if_pos h0, h0, Nat.sub_self]
      rfl
    · rw [if_neg h0]
      by_cases h1 : k = block.length - 2
      · rw [if_pos h1, h1, show block.length - 2 - (block.length - 3) = 1 by omega]
        rfl
      · rw [if_neg h1, List.getD_eq_default]
        simp
        omega

/-- A frame without a change is the one that was sent. -/
theorem eq_of_no_change (h : ∀ k, byteAt (errorBytes block f) k = 0) : f = block := by
  have hall : ∀ j, byteAt f j = byteAt block j := by
    intro j
    rw [← change_eq_zero]
    by_cases hlast : block.length ≤ j
    · have hout : ∀ xs : List UInt8, xs.length = block.length → byteAt xs j = 0 :=
        fun xs hxs => List.getD_eq_default _ _ (by omega)
      rw [change, hout block rfl, hout f hc.length]
      rfl
    · by_cases h0 : j = 0
      · rw [h0, change_eq_zero]
        exact hc.kept 0 (by decide)
      · by_cases h1 : j = block.length - 1
        · have := h (block.length - 3)
          rwa [errorBytes_at hlong hc, if_neg (by omega), if_pos rfl, ← h1] at this
        · by_cases h2 : j = block.length - 2
          · have := h (block.length - 2)
            rwa [errorBytes_at hlong hc, if_neg (by omega), if_neg (by omega), if_pos rfl,
              ← h2] at this
          · have := h (j - 1)
            rwa [errorBytes_at hlong hc, if_pos (by omega), Nat.sub_add_cancel (by omega)] at this
  apply List.ext_getElem hc.length
  intro j h1 h2
  have := hall j
  rwa [byteAt, byteAt, List.getD_eq_getElem _ _ h1, List.getD_eq_getElem _ _ h2] at this

omit hlong hc in
theorem aliased_iff : Aliased block f ↔
    change block f (block.length - 3) = 0x89 ∧ change block f (block.length - 2) = 0xA1 := by
  have hxor : ∀ (a b c : UInt8), a = b ^^^ c ↔ b ^^^ a = c := by
    intro a b c
    constructor
    · rintro rfl
      rw [← UInt8.xor_assoc, UInt8.xor_self, UInt8.zero_xor]
    · rintro rfl
      rw [← UInt8.xor_assoc, UInt8.xor_self, UInt8.zero_xor]
  rw [Aliased, change, change, hxor, hxor]

/-- A pair of changes side by side in the register's order is noticed. -/
theorem adjacent_noticed (hne : f ≠ block) (a : ℕ) (ha : a + 3 ≤ block.length)
    (h : ∀ k, byteAt (errorBytes block f) k ≠ 0 → k = a ∨ k = a + 1) :
    remainder (errorBytes block f) ≠ 0 := by
  have hwindow : ∀ k, byteAt (errorBytes block f) k ≠ 0 → a ≤ k ∧ k < a + 2 := by
    intro k hk
    have := h k hk
    omega
  have hpair : window (errorBytes block f) a 2 =
      [byteAt (errorBytes block f) a, byteAt (errorBytes block f) (a + 1)] :=
    window_eq_map (by rw [length_errorBytes hlong hc]; omega)
  rw [Ne, remainder_window a 2 hwindow, hpair, remainder_pair]
  rintro ⟨h0, h1⟩
  apply hne
  apply eq_of_no_change hlong hc
  intro k
  by_contra hk
  rcases h k hk with rfl | rfl
  · exact hk h0
  · exact hk h1

/-- Across the end of the payload the pair is apart by one byte. -/
theorem boundary_iff (hcovered : 4 ≤ block.length) (hne : f ≠ block)
    (h : ∀ j, change block f j ≠ 0 → j = block.length - 3 ∨ j = block.length - 2) :
    remainder (errorBytes block f) = 0 ↔
      change block f (block.length - 3) = 0x89 ∧ change block f (block.length - 2) = 0xA1 := by
  have hlast : change block f (block.length - 1) = 0 := by
    by_contra hchange
    have := h _ hchange
    omega
  have hat : ∀ k, byteAt (errorBytes block f) k =
      if k = block.length - 4 then change block f (block.length - 3)
      else if k = block.length - 2 then change block f (block.length - 2) else 0 := by
    intro k
    rw [errorBytes_at hlong hc]
    by_cases hk : k < block.length - 3
    · rw [if_pos hk]
      by_cases hend : k = block.length - 4
      · rw [if_pos hend, hend, show block.length - 4 + 1 = block.length - 3 by omega]
      · rw [if_neg hend, if_neg (by omega)]
        by_contra hchange
        have := h _ hchange
        omega
    · rw [if_neg hk, if_neg (show k ≠ block.length - 4 by omega), hlast]
      by_cases h3 : k = block.length - 3
      · rw [if_pos h3, if_neg (by omega)]
      · rw [if_neg h3]
  have hwindow : ∀ k, byteAt (errorBytes block f) k ≠ 0 →
      block.length - 4 ≤ k ∧ k < block.length - 4 + 3 := by
    intro k hk
    rw [hat] at hk
    split_ifs at hk <;> first | omega | exact absurd rfl hk
  have htriple : window (errorBytes block f) (block.length - 4) 3 =
      [change block f (block.length - 3), 0, change block f (block.length - 2)] := by
    have hmap : window (errorBytes block f) (block.length - 4) 3 =
        [byteAt (errorBytes block f) (block.length - 4),
          byteAt (errorBytes block f) (block.length - 4 + 1),
          byteAt (errorBytes block f) (block.length - 4 + 2)] :=
      window_eq_map (by rw [length_errorBytes hlong hc]; omega)
    rw [hmap, hat, hat, hat, if_pos rfl, if_neg (by omega), if_neg (by omega), if_neg (by omega),
      if_pos (by omega)]
  rw [remainder_window _ 3 hwindow, htriple, remainder_split_pair]
  constructor
  · rintro (⟨h0, h1⟩ | halias)
    · refine absurd (eq_of_no_change hlong hc fun k => ?_) hne
      rw [hat, h0, h1, ite_self, ite_self]
    · exact halias
  · exact Or.inr

omit hlong in
/-- Whatever is changed within two neighbouring bytes, exactly the aliased pair passes. -/
theorem burst_iff (hcovered : 4 ≤ block.length) (hb : Burst block f) (hne : f ≠ block) :
    remainder (errorBytes block f) = 0 ↔ Aliased block f := by
  have hlong : 3 ≤ block.length := by omega
  obtain ⟨i, hi⟩ := hb
  have hplaces : ∀ j, change block f j ≠ 0 → j = i ∨ j = i + 1 :=
    fun j hj => hi j (mt change_eq_zero.mpr hj)
  rw [aliased_iff]
  by_cases hboundary : i = block.length - 3
  · apply boundary_iff hlong hc hcovered hne
    intro j hj
    have := hplaces j hj
    omega
  · apply iff_of_false
    · by_cases hbefore : i < block.length - 3
      · apply adjacent_noticed hlong hc hne (i - 1) (by omega)
        intro k hk
        rw [errorBytes_at hlong hc] at hk
        split_ifs at hk with h1 h2 h3
        · have := hplaces _ hk
          omega
        · have := hplaces _ hk
          omega
        · have := hplaces _ hk
          omega
        · exact absurd rfl hk
      · apply adjacent_noticed hlong hc hne (block.length - 3) (by omega)
        intro k hk
        rw [errorBytes_at hlong hc] at hk
        split_ifs at hk with h1 h2 h3
        · have := hplaces _ hk
          omega
        · exact Or.inl h2
        · omega
        · exact absurd rfl hk
    · rintro ⟨h0, h1⟩
      have hfirst := hplaces (block.length - 3) (by rw [h0]; decide)
      have hsecond := hplaces (block.length - 2) (by rw [h1]; decide)
      omega

end Places

/-- An error within two neighbouring bytes goes unnoticed only as the aliased pair across the end
of the payload, and then by both implementations. -/
theorem burst_passes_iff (p : Packet) (block f : List UInt8) (hp : encodePacket p = .ok block)
    (hc : Corrupts block f) (hb : Burst block f) (hne : f ≠ block) :
    (HostChecks f ↔ Aliased block f) ∧ (FirmwareChecks f ↔ Aliased block f) := by
  have hlen := length_block hp
  have hfirmware : FirmwareChecks f ↔ Aliased block f := by
    rw [checks_iff hp hc, burst_iff hc (by omega) hb hne]
  exact ⟨(hostChecks_iff (by rw [hc.length]; omega)).trans hfirmware, hfirmware⟩

theorem burst_set (block : List UInt8) (i : ℕ) (x y : UInt8) :
    Burst block ((block.set i x).set (i + 1) y) := by
  refine ⟨i, fun j hj => ?_⟩
  by_contra hout
  push Not at hout
  exact hj (byteAt_set_pair block (Ne.symm hout.1) (Ne.symm hout.2) x y)

/-- The opcode of a stop command and the byte behind it, changed in other bits. -/
theorem burst_passes_iff_stop :
    let block := firmwareBytes ⟨.command, 1, [0xF0]⟩
    let f := (block.set 7 0xF1).set 8 (byteAt block 8 ^^^ 0xA1)
    ¬ HostChecks f ∧ ¬ FirmwareChecks f := by
  intro block f
  obtain ⟨hhost, hfirmware⟩ := burst_passes_iff ⟨.command, 1, [0xF0]⟩ block f
    (encodePacket_sendable ⟨by decide, by decide⟩)
    (corrupts_set block (by decide) (by decide) _ _) (burst_set block 7 _ _) (by decide +kernel)
  have halias : ¬ Aliased block f := by
    rintro ⟨h, -⟩
    exact absurd h (by decide)
  exact ⟨mt hhost.mp halias, mt hfirmware.mp halias⟩

/-- The opcode of a stop command and the first byte of its trailer, changed together: sixteen
neighbouring bits, and both implementations take the frame for a valid one. -/
theorem boundary_burst_passes :
    let block := firmwareBytes ⟨.command, 1, [0xF0]⟩
    let f := (block.set 7 (0xF0 ^^^ 0x89)).set 8 (byteAt block 8 ^^^ 0xA1)
    encodePacket ⟨.command, 1, [0xF0]⟩ = .ok block ∧ Corrupts block f ∧ Burst block f ∧
      f ≠ block ∧ HostChecks f ∧ FirmwareChecks f := by
  intro block f
  refine ⟨encodePacket_sendable ⟨by decide, by decide⟩, ?_, burst_set block 7 _ _, ?_, ?_, ?_⟩
  · exact corrupts_set block (by decide) (by decide) _ _
  · decide +kernel
  · decide +kernel
  · decide +kernel

end FrameErrors
