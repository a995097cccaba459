import TeensyIo.FirmwareProtocol
import TeensyIo.HostProtocol

/-! # Two languages, one wire format

Both checksums are one function and both writers send the encoding of the same abstract
frame. The host's decoder is the careful receiver of `WireFrame`; that the firmware's parser
is the forgetful one was shown beside the parser. -/
namespace WireCompatibility

open WireCommands WireFrame StreamScanner LittleEndian
open HostProtocol (Packet PyError PacketDecoder Turn feedTurn feedFrame feedLoop encodePacket)
open FirmwareProtocol (PacketParser PacketWriter.write crc16Ccitt)

/-! ### The checksums -/

theorem crcBit_toNat (c : UInt16) :
    (FirmwareProtocol.crcBit c).toNat = HostProtocol.crcBit c.toNat := by
  have hmask : ∀ n : ℕ, n &&& 0xFFFF = n % 2 ^ 16 := fun n => Nat.and_two_pow_sub_one_eq_mod n 16
  have hshift : (c <<< 1).toNat = (c.toNat <<< 1) % 2 ^ 16 := UInt16.toNat_shiftLeft c 1
  have htop : c &&& 0x8000 ≠ 0 ↔ c.toNat &&& 0x8000 ≠ 0 := by
    rw [Ne, ← UInt16.toNat_inj, UInt16.toNat_and]
    rfl
  unfold FirmwareProtocol.crcBit HostProtocol.crcBit
  by_cases h : c &&& 0x8000 ≠ 0
  · rw [if_pos h, if_pos (htop.mp h), hmask, UInt16.toNat_xor, hshift, Nat.xor_mod_two_pow]
    rfl
  · rw [if_neg h, if_neg (mt htop.mpr h), hmask, hshift]

theorem crcBits_toNat (n : ℕ) (c : UInt16) :
    (FirmwareProtocol.crcBit^[n] c).toNat = HostProtocol.crcBit^[n] c.toNat := by
  induction n generalizing c with
  | zero => rfl
  | succ n ih => rw [Function.iterate_succ_apply, Function.iterate_succ_apply, ih, crcBit_toNat]

theorem crcByte_toNat (c : UInt16) (b : UInt8) :
    (FirmwareProtocol.crcByte c b).toNat = HostProtocol.crcByte c.toNat b := by
  have hb := toNat_lt_256 b
  have hs : (b.toUInt16 <<< 8).toNat = b.toNat <<< 8 := by
    rw [UInt16.toNat_shiftLeft, UInt8.toNat_toUInt16]
    change (b.toNat <<< 8) % 65536 = b.toNat <<< 8
    rw [Nat.shiftLeft_eq]
    omega
  rw [FirmwareProtocol.crcByte, HostProtocol.crcByte, crcBits_toNat, UInt16.toNat_xor, hs]

theorem crc_agree (data : List UInt8) :
    HostProtocol.crc16Ccitt data = (crc16Ccitt data).toNat := by
  have h : ∀ c : UInt16, data.foldl HostProtocol.crcByte c.toNat =
      (data.foldl FirmwareProtocol.crcByte c).toNat := by
    induction data with
    | nil => intro c; rfl
    | cons b bs ih =>
      intro c
      rw [List.foldl_cons, List.foldl_cons, ← crcByte_toNat, ih]
  exact h 0xFFFF

/-! ### The writers -/

/-- The frame a host packet stands for; the sequence number is sent modulo 2^16. -/
def frameOf (p : Packet) (h : p.payload.length ≤ maxPayload) : Frame where
  type := p.type.toByte
  seq := UInt16.ofNat p.seq
  payload := p.payload
  fits := h

theorem encodePacket_eq (p : Packet) (h : p.payload.length ≤ maxPayload) :
    encodePacket p = .ok ((frameOf p h).encode crc16Ccitt) := by
  have hlen : ¬ p.payload.length > HostProtocol.maxPayloadSize := Nat.not_lt.mpr h
  have hseq : [UInt8.ofNat (p.seq &&& 0xFF), UInt8.ofNat ((p.seq >>> 8) &&& 0xFF)] =
      toBytes 2 (UInt16.ofNat p.seq).toNat := by
    rw [bytes_of_nat16, UInt16.toNat_ofNat', ← toBytes_mod 2 p.seq]
    rfl
  have hcov : HostProtocol.protocolVersion :: p.type.toByte ::
      ([UInt8.ofNat (p.seq &&& 0xFF), UInt8.ofNat ((p.seq >>> 8) &&& 0xFF)] ++
        [UInt8.ofNat (p.payload.length &&& 0xFF),
          UInt8.ofNat ((p.payload.length >>> 8) &&& 0xFF)] ++ p.payload) =
      (frameOf p h).covered := by
    rw [hseq, bytes_of_nat16]
    rfl
  simp only [List.cons_append, List.nil_append] at hcov
  have hcrc : HostProtocol.crc16Ccitt (frameOf p h).covered < 65536 := by
    rw [crc_agree]
    exact UInt16.toNat_lt _
  simp only [encodePacket, if_neg hlen, List.cons_append, List.nil_append, hcov, if_pos hcrc]
  rw [crc_agree]
  rfl

/-! ### The decoder is the careful receiver -/

/-- The packet `feed` builds from a frame; `PacketType` raises on a foreign type byte. -/
def toPacket (f : Frame) : Option Packet :=
  (PacketType.ofByte f.type).map fun t => ⟨t, f.seq.toNat, f.payload⟩

theorem toPacket_frameOf (p : Packet) (h : p.payload.length ≤ maxPayload) (hs : p.seq < 65536) :
    toPacket (frameOf p h) = some p := by
  simp [toPacket, frameOf, Nat.mod_eq_of_lt hs]

theorem value_window (xs : List UInt8) (i : ℕ) (h : i + 2 ≤ xs.length) :
    value (window xs i 2) = (byteAt xs i).toNat ||| ((byteAt xs (i + 1)).toNat <<< 8) := by
  have hw : window xs i 2 = [byteAt xs i, byteAt xs (i + 1)] := by
    apply List.ext_getElem
    · simp [window]
      omega
    · intro j h1 h2
      have hj : j = 0 ∨ j = 1 := by simp at h2; omega
      rcases hj with rfl | rfl <;> simp [window, byteAt, List.getD_eq_getElem?_getD] <;>
        rw [List.getElem?_eq_getElem (by omega)] <;> rfl
  rw [hw, or_shift _ _ (toNat_lt_256 _)]
  simp

/-- One pass of the loop, compared with the receiver's verdict. -/
def Follows (buffer : List UInt8) : Turn → Prop
  | .stop rest => scan (hostAttempt crc16Ccitt) 0 buffer = ([], rest)
  | .next rest => scan (hostAttempt crc16Ccitt) 0 buffer = scan (hostAttempt crc16Ccitt) 0 rest
  | .found p rest => ∃ f, toPacket f = some p ∧
      scan (hostAttempt crc16Ccitt) 0 buffer =
        (f :: (scan (hostAttempt crc16Ccitt) 0 rest).1, (scan (hostAttempt crc16Ccitt) 0 rest).2)
  | .raised e rest => e = .valueError ∧
      scan (hostAttempt crc16Ccitt) 0 buffer = scan (hostAttempt crc16Ccitt) 0 rest ∧
      ∃ xs f k, rest = startByte :: xs ∧
        hostAttempt crc16Ccitt startByte xs = .accept f k ∧ toPacket f = none

theorem frame_take (xs : List UInt8) :
    (startByte :: xs).take (1 + 6 + announced xs + 2) =
      startByte :: xs.take (announced xs + 8) := by
  rw [show 1 + 6 + announced xs + 2 = announced xs + 8 + 1 by omega, List.take_succ_cons]

theorem frame_crc (xs : List UInt8) :
    value (((startByte :: xs).take (1 + 6 + announced xs + 2)).drop
      (1 + 6 + announced xs + 2 - 2)) = value (window xs (6 + announced xs) 2) := by
  rw [frame_take xs, show 1 + 6 + announced xs + 2 - 2 = 6 + announced xs + 1 by omega,
    List.drop_succ_cons, List.drop_take, window]
  congr 2
  omega

theorem frame_covered (xs : List UInt8) :
    (((startByte :: xs).take (1 + 6 + announced xs + 2)).take
      (1 + 6 + announced xs + 2 - 2)).drop 1 = window xs 0 (6 + announced xs) := by
  rw [frame_take xs, show 1 + 6 + announced xs + 2 - 2 = 6 + announced xs + 1 by omega,
    List.take_succ_cons, List.take_take, window]
  simp [Nat.min_eq_left (show 6 + announced xs ≤ announced xs + 8 by omega)]

theorem frame_payload (xs : List UInt8) :
    (((startByte :: xs).take (1 + 6 + announced xs + 2)).take
      (1 + 6 + announced xs + 2 - 2)).drop 7 = window xs 6 (announced xs) := by
  rw [frame_take xs, show 1 + 6 + announced xs + 2 - 2 = 6 + announced xs + 1 by omega,
    List.take_succ_cons, List.take_take, List.drop_succ_cons, List.drop_take, window]
  congr 1
  omega

theorem frame_byte (xs : List UInt8) (i : ℕ) (hi : i < 8) :
    ((startByte :: xs).take (1 + 6 + announced xs + 2)).getD (i + 1) 0 = byteAt xs i := by
  rw [frame_take xs, List.getD_cons_succ, byteAt, List.getD_eq_getElem?_getD,
    List.getElem?_take_of_lt (by omega), List.getD_eq_getElem?_getD]

/-- What a pass does with a buffer that begins with the start byte. -/
def Judged (xs : List UInt8) : Turn → Prop
  | .stop rest => rest = startByte :: xs ∧ hostAttempt crc16Ccitt startByte xs = .wait
  | .next rest => rest = xs ∧ hostAttempt crc16Ccitt startByte xs = .reject 0
  | .found p rest => ∃ f k, hostAttempt crc16Ccitt startByte xs = .accept f k ∧
      toPacket f = some p ∧ rest = xs.drop k
  | .raised e rest => e = .valueError ∧ rest = startByte :: xs ∧
      ∃ f k, hostAttempt crc16Ccitt startByte xs = .accept f k ∧ toPacket f = none

theorem feedFrame_judged (xs : List UInt8) (h8 : 8 ≤ xs.length) :
    Judged xs (feedFrame (startByte :: xs)) := by
  have hver : (startByte :: xs).getD 1 0 = byteAt xs 0 := rfl
  have hlen : ((startByte :: xs).getD 5 0).toNat |||
      (((startByte :: xs).getD 6 0).toNat <<< 8) = announced xs :=
    (value_window xs 4 (by omega)).symm
  have hlong : ∀ n, (startByte :: xs).length < 1 + 6 + n + 2 ↔ xs.length < n + 8 := by
    intro n
    rw [List.length_cons]
    omega
  have hpv : HostProtocol.protocolVersion = version := rfl
  have hmax : HostProtocol.maxPayloadSize = maxPayload := rfl
  generalize hb : startByte = s at *
  cases stage crc16Ccitt 8 s xs with
  | noise h => exact absurd hb.symm h
  | short h => omega
  | version hn hv =>
    simp only [feedFrame, hpv, hmax, hver]
    rw [if_pos hv]
    exact ⟨rfl, attempt_version hn hv⟩
  | header h h6 => omega
  | oversize h h6 hl =>
    simp only [feedFrame, hpv, hmax, hver, hlen]
    rw [if_neg (not_not.mpr h.version_ok), if_pos (Nat.lt_of_not_le hl)]
    exact ⟨rfl, attempt_oversize h h6 hl⟩
  | unfinished h hl =>
    simp only [feedFrame, hpv, hmax, hver, hlen]
    rw [if_neg (not_not.mpr h.version_ok), if_neg (Nat.not_lt.mpr h.announced_ok),
      if_pos ((hlong _).mpr hl)]
    exact ⟨rfl, attempt_unfinished h hl⟩
  | corrupt h hc =>
    have hne : HostProtocol.crc16Ccitt (window xs 0 (6 + announced xs)) ≠
        value (window xs (6 + announced xs) 2) := by
      rw [crc_agree]
      exact hc
    simp only [feedFrame, hpv, hmax, hver, hlen, frame_crc xs, frame_covered xs]
    rw [if_neg (not_not.mpr h.version_ok), if_neg (Nat.not_lt.mpr h.announced_ok),
      if_neg (mt (hlong _).mp h.arrived.not_gt), if_pos hne]
    exact ⟨rfl, attempt_corrupt h hc⟩
  | whole h hc =>
    have heq : ¬ HostProtocol.crc16Ccitt (window xs 0 (6 + announced xs)) ≠
        value (window xs (6 + announced xs) 2) := by
      rw [crc_agree]
      exact not_not.mpr hc
    have hseq : (UInt16.ofNat (value (window xs 2 2))).toNat =
        (byteAt xs 2).toNat ||| ((byteAt xs 3).toNat <<< 8) := by
      rw [UInt16.toNat_ofNat', Nat.mod_eq_of_lt, value_window xs 2 (by omega)]
      refine (value_lt (window xs 2 2)).trans_le ?_
      exact Nat.pow_le_pow_right (by omega) (length_window_le xs 2 2)
    have hacc : hostAttempt crc16Ccitt startByte xs = _ := attempt_whole h hc
    have hpkt : toPacket (frameIn xs h.announced_ok) =
        (PacketType.ofByte (byteAt xs 1)).map fun t =>
          ⟨t, (byteAt xs 2).toNat ||| ((byteAt xs 3).toNat <<< 8), window xs 6 (announced xs)⟩ := by
      rw [← hseq]
      rfl
    simp only [feedFrame, hpv, hmax, hver, hlen, frame_crc xs, frame_covered xs,
      frame_payload xs, frame_byte xs 1 (by omega), frame_byte xs 2 (by omega),
      frame_byte xs 3 (by omega)]
    rw [if_neg (not_not.mpr h.version_ok), if_neg (Nat.not_lt.mpr h.announced_ok),
      if_neg (mt (hlong _).mp h.arrived.not_gt), if_neg heq]
    cases ht : PacketType.ofByte (byteAt xs 1) with
    | none =>
      rw [ht] at hpkt
      exact ⟨rfl, rfl, _, _, hacc, hpkt⟩
    | some t =>
      rw [ht] at hpkt
      refine ⟨_, _, hacc, hpkt, ?_⟩
      rw [show 1 + 6 + announced xs + 2 = announced xs + 8 + 1 by omega, List.drop_succ_cons]

/-- One pass of the loop: it passes over what is no start byte and judges what begins with one. -/
inductive Reads (buffer : List UInt8) : Turn → Prop where
  | noise : (∀ b ∈ buffer, b ≠ startByte) → Reads buffer (.stop [])
  | start (pre xs turn) : buffer = pre ++ startByte :: xs → (∀ b ∈ pre, b ≠ startByte) →
      Judged xs turn → Reads buffer turn

theorem feedTurn_reads (buffer : List UInt8) : Reads buffer (feedTurn buffer) := by
  unfold feedTurn
  cases hi : buffer.idxOf? HostProtocol.startByte with
  | none =>
    apply Reads.noise
    rintro b hb rfl
    exact List.idxOf?_eq_none_iff.mp hi hb
  | some i =>
    obtain ⟨hlt, hat, hbefore⟩ := List.idxOf?_eq_some_iff.mp hi
    have hno : ∀ b ∈ buffer.take i, b ≠ startByte := by
      intro b hb
      obtain ⟨j, hj, rfl⟩ := List.mem_iff_getElem.mp hb
      rw [List.getElem_take]
      exact hbefore j (by simp at hj; omega)
    obtain ⟨xs, hxs⟩ : ∃ xs, buffer.drop i = startByte :: xs :=
      ⟨buffer.drop (i + 1), by rw [List.drop_eq_getElem_cons hlt, hat]; rfl⟩
    have hsplit : buffer = buffer.take i ++ startByte :: xs := by
      rw [← hxs, List.take_append_drop]
    simp only [hxs]
    apply Reads.start _ xs _ hsplit hno
    by_cases h9 : (startByte :: xs).length < 9
    · rw [if_pos h9]
      exact ⟨rfl, attempt_short (by rw [List.length_cons] at h9; omega)⟩
    · rw [if_neg h9]
      exact feedFrame_judged xs (by rw [List.length_cons] at h9; omega)

theorem scan_noise {pre : List UInt8} (h : ∀ b ∈ pre, b ≠ startByte) (xs : List UInt8) :
    scan (hostAttempt crc16Ccitt) 0 (pre ++ xs) = scan (hostAttempt crc16Ccitt) 0 xs := by
  induction pre with
  | nil => rfl
  | cons b pre ih =>
    have hb : hostAttempt crc16Ccitt b (pre ++ xs) = .reject 0 :=
      attempt_noise (h b List.mem_cons_self)
    rw [List.cons_append, scan_reject hb]
    exact ih fun c hc => h c (List.mem_cons_of_mem b hc)

theorem feedTurn_follows (buffer : List UInt8) : Follows buffer (feedTurn buffer) := by
  have hreads := feedTurn_reads buffer
  generalize feedTurn buffer = turn at hreads ⊢
  cases hreads with
  | noise hno =>
    have := scan_noise hno []
    rwa [List.append_nil] at this
  | start pre xs turn hsplit hno hj =>
    subst hsplit
    have hskip := scan_noise hno (startByte :: xs)
    cases turn with
    | stop rest =>
      obtain ⟨rfl, hw⟩ := hj
      exact hskip.trans (scan_wait hw)
    | next rest =>
      obtain ⟨rfl, hr⟩ := hj
      exact hskip.trans (scan_reject hr)
    | found p rest =>
      obtain ⟨f, k, ha, hp, rfl⟩ := hj
      refine ⟨f, hp, ?_⟩
      rw [hskip, scan_accept ha, scan_drop]
    | raised e rest =>
      obtain ⟨he, rfl, f, k, ha, hp⟩ := hj
      exact ⟨he, hskip, xs, f, k, rfl, ha, hp⟩

/-- The type byte of the frame is one `PacketType` lists. -/
def Known (f : Frame) : Prop := (PacketType.ofByte f.type).isSome = true

instance (f : Frame) : Decidable (Known f) := inferInstanceAs (Decidable (_ = _))

theorem known_iff (f : Frame) : Known f ↔ ∃ p, toPacket f = some p := by
  unfold Known toPacket
  cases PacketType.ofByte f.type <;> simp

theorem unknown_iff (f : Frame) : ¬ Known f ↔ toPacket f = none := by
  unfold Known toPacket
  cases PacketType.ofByte f.type <;> simp

/-- Without a foreign type byte `feed` returns every frame and keeps what still waits. -/
theorem feedLoop_returns (buffer : List UInt8) (packets : List Packet)
    (h : ∀ f ∈ (scan (hostAttempt crc16Ccitt) 0 buffer).1, Known f) :
    feedLoop buffer packets =
      (.ok (packets ++ (scan (hostAttempt crc16Ccitt) 0 buffer).1.filterMap toPacket),
        (scan (hostAttempt crc16Ccitt) 0 buffer).2) := by
  fun_induction feedLoop buffer packets with
  | case1 buffer packets rest ht =>
    have hf := feedTurn_follows buffer
    rw [ht] at hf
    rw [show scan (hostAttempt crc16Ccitt) 0 buffer = ([], rest) from hf]
    simp
  | case2 buffer packets rest ht ih =>
    have hf := feedTurn_follows buffer
    rw [ht] at hf
    rw [show scan (hostAttempt crc16Ccitt) 0 buffer = _ from hf] at h ⊢
    exact ih h
  | case3 buffer packets packet rest ht ih =>
    have hf := feedTurn_follows buffer
    rw [ht] at hf
    obtain ⟨f, hp, hf⟩ := hf
    rw [hf] at h ⊢
    rw [ih fun g hg => h g (List.mem_cons_of_mem f hg)]
    simp [hp]
  | case4 buffer packets error rest ht =>
    have hf := feedTurn_follows buffer
    rw [ht] at hf
    obtain ⟨-, hs, xs, f, k, rfl, ha, hn⟩ := hf
    rw [hs, scan_accept ha] at h
    exact absurd (h f List.mem_cons_self) ((unknown_iff f).mpr hn)

/-- At a foreign type byte `feed` raises and leaves the frame at the front of the buffer. -/
theorem feedLoop_raises (buffer : List UInt8) (packets : List Packet)
    (h : ∃ f ∈ (scan (hostAttempt crc16Ccitt) 0 buffer).1, ¬ Known f) :
    (feedLoop buffer packets).1 = .error .valueError ∧
      ∃ xs f k, (feedLoop buffer packets).2 = startByte :: xs ∧
        hostAttempt crc16Ccitt startByte xs = .accept f k ∧ ¬ Known f := by
  fun_induction feedLoop buffer packets with
  | case1 buffer packets rest ht =>
    have hf := feedTurn_follows buffer
    rw [ht] at hf
    rw [show scan (hostAttempt crc16Ccitt) 0 buffer = ([], rest) from hf] at h
    simp at h
  | case2 buffer packets rest ht ih =>
    have hf := feedTurn_follows buffer
    rw [ht] at hf
    rw [show scan (hostAttempt crc16Ccitt) 0 buffer = _ from hf] at h
    exact ih h
  | case3 buffer packets packet rest ht ih =>
    have hf := feedTurn_follows buffer
    rw [ht] at hf
    obtain ⟨f, hp, hf⟩ := hf
    rw [hf] at h
    obtain ⟨g, hg, hu⟩ := h
    rcases List.mem_cons.mp hg with rfl | hg
    · exact absurd ((known_iff g).mpr ⟨packet, hp⟩) hu
    · exact ih ⟨g, hg, hu⟩
  | case4 buffer packets error rest ht =>
    have hf := feedTurn_follows buffer
    rw [ht] at hf
    obtain ⟨he, -, xs, f, k, hx, ha, hn⟩ := hf
    exact ⟨by rw [he], xs, f, k, hx, ha, (unknown_iff f).mpr hn⟩

/-! ### Feeding in chunks -/

/-- Feeding one chunk after the other to a decoder that never raises. -/
def feedAll (decoder : PacketDecoder) : List (List UInt8) → Option (List Packet × PacketDecoder)
  | [] => some ([], decoder)
  | c :: cs =>
    match decoder.feed c with
    | (.error _, _) => none
    | (.ok now, decoder) => (feedAll decoder cs).map fun later => (now ++ later.1, later.2)

theorem feed_eq (decoder : PacketDecoder) (data : List UInt8)
    (h : ∀ f ∈ (scan (hostAttempt crc16Ccitt) 0 (decoder.buffer ++ data)).1, Known f) :
    decoder.feed data =
      (.ok ((scan (hostAttempt crc16Ccitt) 0 (decoder.buffer ++ data)).1.filterMap toPacket),
        ⟨(scan (hostAttempt crc16Ccitt) 0 (decoder.buffer ++ data)).2⟩) := by
  simp [PacketDecoder.feed, feedLoop_returns _ [] h]

theorem feedAll_eq (cs : List (List UInt8)) (decoder : PacketDecoder)
    (h : ∀ f ∈ (feeds (hostAttempt crc16Ccitt) decoder.buffer cs).1, Known f) :
    feedAll decoder cs =
      some ((feeds (hostAttempt crc16Ccitt) decoder.buffer cs).1.filterMap toPacket,
        ⟨(feeds (hostAttempt crc16Ccitt) decoder.buffer cs).2⟩) := by
  induction cs generalizing decoder with
  | nil => rfl
  | cons c cs ih =>
    simp only [feeds, List.mem_append] at h
    have hnow := feed_eq decoder c fun f hf => h f (Or.inl hf)
    have hlater := ih ⟨(scan (hostAttempt crc16Ccitt) 0 (decoder.buffer ++ c)).2⟩
      fun f hf => h f (Or.inr hf)
    simp [feedAll, hnow, hlater, feeds]

/-! ### A list of packets on the wire -/

/-- The packets both languages can send. -/
structure Sendable (p : Packet) : Prop where
  seq_lt : p.seq < 65536
  fits : p.payload.length ≤ maxPayload

/-- The bytes `PacketWriter::write` sends for a host packet. -/
def firmwareBytes (p : Packet) : List UInt8 :=
  PacketWriter.write p.type.toByte (UInt16.ofNat p.seq) p.payload

theorem firmwareBytes_pos (p : Packet) : 0 < (firmwareBytes p).length := by
  simp [firmwareBytes, PacketWriter.write]

/-- A packet the parser emits, as the host reads its three fields. -/
def hostView (p : FirmwareProtocol.Packet) : Option Packet :=
  (PacketType.ofByte p.type).map fun t => ⟨t, p.seq.toNat, p.bytes⟩

theorem firmwareBytes_eq (p : Packet) (h : p.payload.length ≤ maxPayload) :
    firmwareBytes p = (frameOf p h).encode crc16Ccitt :=
  FirmwareProtocol.write_eq_encode (frameOf p h)

theorem firmwareBytes_of_toPacket {f : Frame} {p : Packet} (h : toPacket f = some p) :
    firmwareBytes p = f.encode crc16Ccitt := by
  obtain ⟨t, ht, rfl⟩ := Option.map_eq_some_iff.mp h
  rw [firmwareBytes, PacketType.toByte_of_ofByte ht, UInt16.ofNat_toNat]
  exact FirmwareProtocol.write_eq_encode f

theorem flatMap_of_map {fs : List Frame} {ps : List Packet} (h : fs.map toPacket = ps.map some) :
    fs.flatMap (Frame.encode crc16Ccitt) = ps.flatMap firmwareBytes := by
  induction ps generalizing fs with
  | nil =>
    rw [List.map_eq_nil_iff.mp h]
    rfl
  | cons p ps ih =>
    obtain ⟨f, fs, rfl, hp, hps⟩ := List.map_eq_cons_iff.mp h
    rw [List.flatMap_cons, List.flatMap_cons, ih hps, firmwareBytes_of_toPacket hp]

/-- The frames behind a list of sendable packets. -/
theorem frames_of_sendable {ps : List Packet} (hs : ∀ p ∈ ps, Sendable p) :
    ∃ fs : List Frame, fs.map toPacket = ps.map some := by
  induction ps with
  | nil => exact ⟨[], rfl⟩
  | cons p ps ih =>
    obtain ⟨fs, hp⟩ := ih fun q hq => hs q (List.mem_cons_of_mem p hq)
    have hfirst := hs p List.mem_cons_self
    refine ⟨frameOf p hfirst.fits :: fs, ?_⟩
    rw [List.map_cons, List.map_cons, hp, toPacket_frameOf p hfirst.fits hfirst.seq_lt]

theorem known_of_map {fs : List Frame} {ps : List Packet} (h : fs.map toPacket = ps.map some) :
    ∀ f ∈ fs, Known f := by
  intro f hf
  have hmem : toPacket f ∈ ps.map some := h ▸ List.mem_map_of_mem hf
  obtain ⟨p, -, hp⟩ := List.mem_map.mp hmem
  exact (known_iff f).mpr ⟨p, hp.symm⟩

theorem map_of_known {fs : List Frame} (h : ∀ f ∈ fs, Known f) :
    fs.map toPacket = (fs.filterMap toPacket).map some := by
  induction fs with
  | nil => rfl
  | cons f fs ih =>
    obtain ⟨p, hp⟩ := (known_iff f).mp (h f List.mem_cons_self)
    rw [List.map_cons, List.filterMap_cons_some hp, List.map_cons, hp,
      ih fun g hg => h g (List.mem_cons_of_mem f hg)]

theorem filterMap_of_map {fs : List Frame} {ps : List Packet}
    (h : fs.map toPacket = ps.map some) : fs.filterMap toPacket = ps := by
  have hid := congrArg (List.filterMap id) h
  simpa [List.filterMap_map] using hid

/-- Feeding the decoder a piece of a stream of sendable packets. -/
theorem feed_cut {decoder : PacketDecoder} {data later : List UInt8} {ps : List Packet}
    (hs : ∀ p ∈ ps, Sendable p)
    (hcut : decoder.buffer ++ data ++ later = ps.flatMap firmwareBytes) :
    ∃ found left buffer, ps = found ++ left ∧ decoder.feed data = (.ok found, ⟨buffer⟩) ∧
      buffer ++ later = left.flatMap firmwareBytes ∧
      ∀ p ∈ left.head?, buffer.length < (firmwareBytes p).length := by
  obtain ⟨fs, hview⟩ := frames_of_sendable hs
  obtain ⟨found, left, buffer, rfl, hscan, hrest, hshort⟩ :=
    scan_cut (hostAttempt_lawful crc16Ccitt) fs (fun f _ => hostAttempt_encodes crc16Ccitt f)
      (hcut.trans (flatMap_of_map hview).symm)
  have hknown := known_of_map hview
  rw [List.map_append] at hview
  obtain ⟨now, further, rfl, hnow, hfurther⟩ := List.map_eq_append_iff.mp hview.symm
  refine ⟨now, further, buffer, rfl, ?_, ?_, ?_⟩
  · have hfeed := feed_eq decoder data
    rw [hscan, filterMap_of_map hnow.symm] at hfeed
    exact hfeed fun f hf => hknown f (List.mem_append_left left hf)
  · rw [hrest, flatMap_of_map hfurther.symm]
  · intro p hp
    cases further with
    | nil => cases hp
    | cons q further =>
      obtain rfl : q = p := by simpa using hp
      obtain ⟨f, left, rfl, hq, -⟩ := List.map_eq_cons_iff.mp hfurther.symm
      rw [firmwareBytes_of_toPacket hq]
      exact hshort f rfl

theorem encodePacket_sendable {p : Packet} (h : Sendable p) :
    encodePacket p = .ok (firmwareBytes p) := by
  rw [firmwareBytes_eq p h.fits]
  exact encodePacket_eq p h.fits

/-- A parser between two frames takes a stream of sendable packets apart. -/
theorem parser_stream {parser : PacketParser} {ps : List Packet} (hs : ∀ p ∈ ps, Sendable p)
    (hstart : parser.state = .start) :
    (parser.pushAll (ps.flatMap firmwareBytes)).2.map hostView = ps.map some ∧
      (parser.pushAll (ps.flatMap firmwareBytes)).1.state = .start := by
  obtain ⟨fs, hview⟩ := frames_of_sendable hs
  have hscan := scan_stream fs (fun f _ => firmwareAttempt_encodes crc16Ccitt f) []
  rw [List.append_nil, scan_nil, List.append_nil, flatMap_of_map hview] at hscan
  obtain ⟨htracks, hemitted⟩ :=
    FirmwareProtocol.pushAll_eq_scan (.start parser hstart) (ps.flatMap firmwareBytes)
  rw [List.nil_append, hscan] at htracks hemitted
  have hframes : (parser.pushAll (ps.flatMap firmwareBytes)).2.map (·.toFrame) = fs := hemitted
  refine ⟨?_, FirmwareProtocol.start_of_tracks htracks⟩
  rw [← hview, ← hframes, List.map_map]
  rfl

/-- Both encoders send the same bytes, and both receivers get back every list of packets. -/
theorem wire_compatible (ps : List Packet) (hs : ∀ p ∈ ps, Sendable p) :
    (∀ p ∈ ps, encodePacket p = .ok (firmwareBytes p)) ∧
    (∀ parser : PacketParser, parser.state = .start →
      (parser.pushAll (ps.flatMap firmwareBytes)).2.map hostView = ps.map some ∧
      (parser.pushAll (ps.flatMap firmwareBytes)).1.state = .start) ∧
    (∀ chunks : List (List UInt8), chunks.flatten = ps.flatMap firmwareBytes →
      feedAll {} chunks = some (ps, {})) := by
  obtain ⟨fs, hview⟩ := frames_of_sendable hs
  have hbytes := flatMap_of_map hview
  refine ⟨?_, ?_, ?_⟩
  · exact fun p hp => encodePacket_sendable (hs p hp)
  · exact fun parser hstart => parser_stream hs hstart
  · intro chunks hcut
    have hscan := scan_stream fs (fun f _ => hostAttempt_encodes crc16Ccitt f) []
    rw [List.append_nil, scan_nil, List.append_nil, hbytes] at hscan
    have hfeeds : feeds (hostAttempt crc16Ccitt) [] chunks = (fs, []) := by
      rw [feeds_eq_scan (hostAttempt_lawful crc16Ccitt) chunks [] rfl, List.nil_append, hcut,
        hscan]
    rw [feedAll_eq chunks {} (by rw [hfeeds]; exact known_of_map hview), hfeeds,
      filterMap_of_map hview]

/-- A payload that looks like the beginning of a frame does not confuse anyone. -/
theorem wire_compatible_nested :
    let p : Packet := ⟨.data, 513, [0xA5, 0x01]⟩
    encodePacket p = .ok (firmwareBytes p) ∧
      feedAll {} [(firmwareBytes p).take 4, (firmwareBytes p).drop 4] = some ([p], {}) := by
  intro p
  obtain ⟨henc, -, hfeed⟩ := wire_compatible [p] (by simp [p]; constructor <;> decide)
  exact ⟨henc p List.mem_cons_self, hfeed _ (by simp)⟩

end WireCompatibility
