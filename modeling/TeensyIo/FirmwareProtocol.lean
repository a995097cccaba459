import TeensyIo.WireCommands
import TeensyIo.WireFrame

/-! # The firmware's side of the protocol

`Packet.cpp`, `PacketWriter.cpp` and `PacketParser.cpp`, with the fixed-width integers of the
source. -/
namespace FirmwareProtocol

open WireCommands WireFrame StreamScanner LittleEndian

def kStartByte : UInt8 := 0xA5
def kProtocolVersion : UInt8 := 0x01
abbrev kMaxPayloadSize : ℕ := 128

/-- `type` is any byte: the parser casts it to `PacketType` without a check. -/
structure Packet where
  type : UInt8 := PacketType.command.toByte
  seq : UInt16 := 0
  payload : Vector UInt8 kMaxPayloadSize := Vector.replicate kMaxPayloadSize 0
  length : UInt16 := 0
  deriving DecidableEq, Repr

/-- The payload bytes that count. -/
def Packet.bytes (p : Packet) : List UInt8 := p.payload.toList.take p.length.toNat

/-- One turn of the inner loop over the bits of a byte. -/
def crcBit (crc : UInt16) : UInt16 :=
  if crc &&& 0x8000 ≠ 0 then (crc <<< 1) ^^^ 0x1021 else crc <<< 1

def crcByte (crc : UInt16) (byte : UInt8) : UInt16 := crcBit^[8] (crc ^^^ (byte.toUInt16 <<< 8))

def crc16Ccitt (data : List UInt8) : UInt16 := data.foldl crcByte 0xFFFF

namespace PacketWriter

def encodedSize (payloadLength : UInt16) : UInt16 := 1 + 6 + payloadLength + 2

def header (type : UInt8) (seq length : UInt16) : List UInt8 :=
  [kProtocolVersion, type, (seq &&& 0xFF).toUInt8, ((seq >>> 8) &&& 0xFF).toUInt8,
    (length &&& 0xFF).toUInt8, ((length >>> 8) &&& 0xFF).toUInt8]

/-- The bytes handed to the stream. `payload` is the `length` bytes at the payload pointer. -/
def write (type : UInt8) (seq : UInt16) (payload : List UInt8) : List UInt8 :=
  let head := header type seq (UInt16.ofNat payload.length)
  let crc := crc16Ccitt (head ++ payload)
  [kStartByte] ++ head ++ payload ++ [(crc &&& 0xFF).toUInt8, ((crc >>> 8) &&& 0xFF).toUInt8]

def writePacket (p : Packet) : List UInt8 := write p.type p.seq p.bytes

end PacketWriter

inductive ParserState where
  | start | version | type | seqLo | seqHi | lengthLo | lengthHi | payload | crcLo | crcHi
  deriving DecidableEq, Repr

structure PacketParser where
  state : ParserState := .start
  current : Packet := {}
  payloadIndex : UInt16 := 0
  crcLo : UInt8 := 0
  deriving DecidableEq, Repr

namespace PacketParser

def reset : PacketParser := {}

/-- The checksum the parser computes over its copy of header and payload. -/
def actual (current : Packet) : UInt16 :=
  crc16Ccitt (PacketWriter.header current.type current.seq current.length ++ current.bytes)

/-- One byte. A packet comes out where `push` returns true. -/
def push (s : PacketParser) (byte : UInt8) : PacketParser × Option Packet :=
  match s.state with
  | .start =>
    if byte = kStartByte then
      ({ s with current := {}, payloadIndex := 0, state := .version }, none)
    else (s, none)
  | .version =>
    ({ s with state := if byte = kProtocolVersion then .type else .start }, none)
  | .type => ({ s with current.type := byte, state := .seqLo }, none)
  | .seqLo => ({ s with current.seq := byte.toUInt16, state := .seqHi }, none)
  | .seqHi =>
    ({ s with current.seq := s.current.seq ||| (byte.toUInt16 <<< 8), state := .lengthLo }, none)
  | .lengthLo => ({ s with current.length := byte.toUInt16, state := .lengthHi }, none)
  | .lengthHi =>
    let length := s.current.length ||| (byte.toUInt16 <<< 8)
    if length.toNat > kMaxPayloadSize then (reset, none)
    else
      ({ s with current.length := length, state := if length = 0 then .crcLo else .payload }, none)
  | .payload =>
    let current :=
      { s.current with payload := s.current.payload.setIfInBounds s.payloadIndex.toNat byte }
    let index := s.payloadIndex + 1
    ({ s with
      current := current
      payloadIndex := index
      state := if index ≥ current.length then .crcLo else .payload }, none)
  | .crcLo => ({ s with crcLo := byte, state := .crcHi }, none)
  | .crcHi =>
    let expected := s.crcLo.toUInt16 ||| (byte.toUInt16 <<< 8)
    if actual s.current = expected then (reset, some s.current) else (reset, none)

/-- Pushing a byte string, with the packets that come out in order. -/
def pushAll (s : PacketParser) : List UInt8 → PacketParser × List Packet
  | [] => (s, [])
  | b :: bs =>
    let now := s.push b
    let later := pushAll now.1 bs
    (later.1, now.2.toList ++ later.2)

theorem pushAll_append (s : PacketParser) (as bs : List UInt8) :
    s.pushAll (as ++ bs) =
      (((s.pushAll as).1.pushAll bs).1, (s.pushAll as).2 ++ ((s.pushAll as).1.pushAll bs).2) := by
  induction as generalizing s with
  | nil => simp [pushAll]
  | cons a as ih => simp [pushAll, ih]

end PacketParser

/-! ### The abstract frame behind a packet -/

theorem length_bytes_le (p : Packet) : p.bytes.length ≤ kMaxPayloadSize := by
  simp [Packet.bytes]

def Packet.toFrame (p : Packet) : Frame where
  type := p.type
  seq := p.seq
  payload := p.bytes
  fits := length_bytes_le p

theorem header_eq (type : UInt8) (seq length : UInt16) :
    PacketWriter.header type seq length =
      version :: type :: (toBytes 2 seq.toNat ++ toBytes 2 length.toNat) := by
  simp only [PacketWriter.header, ← bytes_of_uint16]
  rfl

/-- The writer sends exactly the encoding of the frame it is given. -/
theorem write_eq_encode (f : Frame) :
    PacketWriter.write f.type f.seq f.payload = f.encode crc16Ccitt := by
  have hl : (UInt16.ofNat f.payload.length).toNat = f.payload.length := by
    have := f.fits
    rw [UInt16.toNat_ofNat', Nat.mod_eq_of_lt (by unfold maxPayload at this; omega)]
  have hc : PacketWriter.header f.type f.seq (UInt16.ofNat f.payload.length) ++ f.payload =
      f.covered := by
    rw [header_eq, hl]
    simp [Frame.covered]
  simp only [PacketWriter.write, hc, bytes_of_uint16]
  rw [List.append_assoc, List.append_assoc, ← List.append_assoc _ f.payload, hc]
  rfl

/-! ### The parser is the forgetful receiver -/

/-- The payload buffer after some bytes: the rest is still zero. -/
def padded (got : List UInt8) : Vector UInt8 kMaxPayloadSize :=
  Vector.ofFn fun i => got.getD i.val 0

theorem padded_nil : padded [] = Vector.replicate kMaxPayloadSize 0 := by
  ext i hi
  simp [padded]

theorem padded_append (got : List UInt8) (b : UInt8) :
    (padded got).setIfInBounds got.length b = padded (got ++ [b]) := by
  ext i hi
  rw [Vector.getElem_setIfInBounds hi]
  simp only [padded, Vector.getElem_ofFn]
  by_cases h : got.length = i
  · subst i
    simp
  · rw [if_neg h]
    simp only [List.getD_eq_getElem?_getD]
    rcases Nat.lt_or_gt_of_ne h with hlt | hgt
    · rw [List.getElem?_eq_none (by omega), List.getElem?_eq_none (by simp; omega)]
    · rw [List.getElem?_append_left hgt]

theorem take_padded {got : List UInt8} (h : got.length ≤ kMaxPayloadSize) :
    (padded got).toList.take got.length = got := by
  apply List.ext_getElem
  · simpa using h
  · intro i h1 h2
    simp [padded, h2]

def joined (lo hi : UInt8) : UInt16 := lo.toUInt16 ||| (hi.toUInt16 <<< 8)

/-- The header bytes a parser has consumed behind the start byte. -/
structure Header where
  type : UInt8
  seqLo : UInt8
  seqHi : UInt8
  lengthLo : UInt8
  lengthHi : UInt8

def Header.bytes (h : Header) : List UInt8 :=
  [kProtocolVersion, h.type, h.seqLo, h.seqHi, h.lengthLo, h.lengthHi]

def Header.seq (h : Header) : UInt16 := joined h.seqLo h.seqHi
def Header.length (h : Header) : UInt16 := joined h.lengthLo h.lengthHi

def Header.packet (h : Header) (got : List UInt8) : Packet where
  type := h.type
  seq := h.seq
  payload := padded got
  length := h.length

/-- The parser state and the bytes it has consumed since the last start byte it accepted.
What `crcLo` holds before the checksum arrives (`c`) plays no part. -/
inductive Tracks : PacketParser → List UInt8 → Prop where
  | start (s) : s.state = .start → Tracks s []
  | version (c) : Tracks { state := .version, crcLo := c } [startByte]
  | type (c) : Tracks { state := .type, crcLo := c } [startByte, version]
  | seqLo (c t) : Tracks { state := .seqLo, current := { type := t }, crcLo := c }
      [startByte, version, t]
  | seqHi (c t s₀) :
      Tracks { state := .seqHi, current := { type := t, seq := s₀.toUInt16 }, crcLo := c }
        [startByte, version, t, s₀]
  | lengthLo (c t s₀ s₁) :
      Tracks { state := .lengthLo, current := { type := t, seq := joined s₀ s₁ }, crcLo := c }
        [startByte, version, t, s₀, s₁]
  | lengthHi (c t s₀ s₁ l₀) :
      Tracks { state := .lengthHi
               current := { type := t, seq := joined s₀ s₁, length := l₀.toUInt16 }
               crcLo := c } [startByte, version, t, s₀, s₁, l₀]
  | payload (c) (h : Header) (got) : h.length.toNat ≤ maxPayload → got.length < h.length.toNat →
      Tracks { state := .payload, current := h.packet got
               payloadIndex := UInt16.ofNat got.length, crcLo := c }
        (startByte :: (h.bytes ++ got))
  | crcLo (c) (h : Header) (got) : h.length.toNat ≤ maxPayload → got.length = h.length.toNat →
      Tracks { state := .crcLo, current := h.packet got
               payloadIndex := UInt16.ofNat got.length, crcLo := c }
        (startByte :: (h.bytes ++ got))
  | crcHi (h : Header) (got c₀) : h.length.toNat ≤ maxPayload → got.length = h.length.toNat →
      Tracks { state := .crcHi, current := h.packet got
               payloadIndex := UInt16.ofNat got.length, crcLo := c₀ }
        (startByte :: (h.bytes ++ (got ++ [c₀])))

theorem announced_header (h : Header) (xs : List UInt8) :
    announced (h.bytes ++ xs) = h.length.toNat := by
  rw [Header.length, joined, uint16_of_bytes]
  rfl

theorem opened_header (h : Header) (xs : List UInt8) : Opened 1 (h.bytes ++ xs) :=
  ⟨by simp [Header.bytes], rfl⟩

theorem headed_header {h : Header} (hl : h.length.toNat ≤ maxPayload) (xs : List UInt8) :
    Headed 1 (h.bytes ++ xs) where
  toOpened := opened_header h xs
  header := by simp [Header.bytes]
  announced_ok := by rwa [announced_header]

@[simp] theorem length_header (h : Header) : h.bytes.length = 6 := rfl

/-- Until the trailer is complete, the receiver waits. -/
theorem scan_unfinished {h : Header} (hl : h.length.toNat ≤ maxPayload) (xs : List UInt8)
    (hx : xs.length < h.length.toNat + 2) :
    scan (firmwareAttempt crc16Ccitt) 0 (startByte :: (h.bytes ++ xs)) =
      ([], startByte :: (h.bytes ++ xs)) := by
  refine scan_wait (attempt_unfinished (headed_header hl xs) ?_)
  rw [announced_header, List.length_append, length_header]
  omega

theorem bytes_packet {h : Header} {got : List UInt8} (hl : h.length.toNat ≤ maxPayload)
    (hg : got.length = h.length.toNat) : (h.packet got).bytes = got := by
  have hle : got.length ≤ kMaxPayloadSize := hg.le.trans hl
  simp only [Packet.bytes, Header.packet]
  rw [← hg, take_padded hle]

theorem frame_packet {h : Header} {got rest : List UInt8} (hl : h.length.toNat ≤ maxPayload)
    (hg : got.length = h.length.toNat)
    (ha : announced (h.bytes ++ (got ++ rest)) ≤ maxPayload) :
    frameIn (h.bytes ++ (got ++ rest)) ha = (h.packet got).toFrame := by
  have hs : (UInt16.ofNat (value (window (h.bytes ++ (got ++ rest)) 2 2))) = h.seq := by
    have hw : window (h.bytes ++ (got ++ rest)) 2 2 = [h.seqLo, h.seqHi] := rfl
    apply UInt16.toNat_inj.mp
    rw [hw, Header.seq, joined, uint16_of_bytes, UInt16.toNat_ofNat']
    have hv : value [h.seqLo, h.seqHi] < 256 ^ 2 := value_lt [h.seqLo, h.seqHi]
    exact Nat.mod_eq_of_lt (by omega)
  have hp : window (h.bytes ++ (got ++ rest)) 6 (announced (h.bytes ++ (got ++ rest))) = got := by
    rw [announced_header, window, List.drop_left' (length_header h), ← hg, List.take_left]
  simp only [frameIn, Packet.toFrame, hs, hp, bytes_packet hl hg]
  rfl

/-- The two checksums compared at the end of a frame are those the receiver compares. -/
theorem checked_packet {h : Header} {got : List UInt8} (hl : h.length.toNat ≤ maxPayload)
    (hg : got.length = h.length.toNat) (c₀ c₁ : UInt8) :
    Checked crc16Ccitt (h.bytes ++ (got ++ [c₀, c₁])) ↔
      PacketParser.actual (h.packet got) = joined c₀ c₁ := by
  have hcov : window (h.bytes ++ (got ++ [c₀, c₁])) 0 (6 + h.length.toNat) = h.bytes ++ got := by
    rw [window, List.drop_zero, ← List.append_assoc, ← hg,
      List.take_left' (by rw [List.length_append, length_header])]
  have htr : window (h.bytes ++ (got ++ [c₀, c₁])) (6 + h.length.toNat) 2 = [c₀, c₁] := by
    rw [window, ← List.append_assoc, ← hg,
      List.drop_left' (by rw [List.length_append, length_header])]
    rfl
  have hhead : PacketWriter.header h.type h.seq h.length = h.bytes := by
    have hseq : toBytes 2 (value [h.seqLo, h.seqHi]) = [h.seqLo, h.seqHi] :=
      toBytes_value [h.seqLo, h.seqHi]
    have hlen : toBytes 2 (value [h.lengthLo, h.lengthHi]) = [h.lengthLo, h.lengthHi] :=
      toBytes_value [h.lengthLo, h.lengthHi]
    rw [header_eq, Header.seq, Header.length, joined, joined, uint16_of_bytes, uint16_of_bytes,
      hseq, hlen]
    rfl
  have hact : PacketParser.actual (h.packet got) = crc16Ccitt (h.bytes ++ got) := by
    rw [PacketParser.actual, bytes_packet hl hg, ← hhead]
    rfl
  rw [Checked, announced_header, hcov, htr, hact, ← uint16_of_bytes, UInt16.toNat_inj]
  rfl

/-- What a push does to the parser is what the next byte does to the receiver. -/
def Simulates (s : PacketParser) (pending : List UInt8) (b : UInt8) : Prop :=
  let found := scan (firmwareAttempt crc16Ccitt) 0 (pending ++ [b])
  Tracks (s.push b).1 found.2 ∧ (s.push b).2.toList.map Packet.toFrame = found.1

theorem simulates_waiting {s s' : PacketParser} {pending : List UInt8} {b : UInt8}
    (hpush : s.push b = (s', none)) (ht : Tracks s' (pending ++ [b]))
    (hs : scan (firmwareAttempt crc16Ccitt) 0 (pending ++ [b]) = ([], pending ++ [b])) :
    Simulates s pending b := by
  simp only [Simulates, hpush, hs]
  exact ⟨ht, rfl⟩

theorem simulates_dropped {s s' : PacketParser} {pending : List UInt8} {b : UInt8}
    (hpush : s.push b = (s', none)) (hst : s'.state = .start)
    (hs : scan (firmwareAttempt crc16Ccitt) 0 (pending ++ [b]) = ([], [])) :
    Simulates s pending b := by
  simp only [Simulates, hpush, hs]
  exact ⟨.start s' hst, rfl⟩

/-- Inside the header the receiver waits as well. -/
theorem scan_header (xs : List UInt8) (hx : xs.length < 5) :
    scan (firmwareAttempt crc16Ccitt) 0 (startByte :: version :: xs) =
      ([], startByte :: version :: xs) :=
  scan_wait (attempt_header ⟨by simp, rfl⟩ (by rw [List.length_cons]; omega))

theorem push_simulates {s : PacketParser} {pending : List UInt8} (ht : Tracks s pending)
    (b : UInt8) : Simulates s pending b := by
  cases ht with
  | start s hst =>
    by_cases hb : b = kStartByte
    · subst b
      exact simulates_waiting (by simp [PacketParser.push, hst]) (.version s.crcLo)
        (scan_wait (attempt_short (by simp)))
    · exact simulates_dropped (by simp [PacketParser.push, hst, hb]) hst
        (scan_reject (attempt_noise hb))
  | version c =>
    by_cases hb : b = kProtocolVersion
    · subst b
      exact simulates_waiting rfl (.type c) (scan_header [] (by simp))
    · have hversion : byteAt [b] 0 ≠ version := hb
      exact simulates_dropped rfl (if_neg hb)
        (scan_reject (attempt_version (by simp) hversion))
  | type c => exact simulates_waiting rfl (.seqLo c b) (scan_header [b] (by simp))
  | seqLo c t => exact simulates_waiting rfl (.seqHi c t b) (scan_header [t, b] (by simp))
  | seqHi c t s₀ =>
    exact simulates_waiting rfl (.lengthLo c t s₀ b) (scan_header [t, s₀, b] (by simp))
  | lengthLo c t s₀ s₁ =>
    exact simulates_waiting rfl (.lengthHi c t s₀ s₁ b) (scan_header [t, s₀, s₁, b] (by simp))
  | lengthHi c t s₀ s₁ l₀ =>
    let h : Header := ⟨t, s₀, s₁, l₀, b⟩
    have hpkt : h.packet [] = { type := t, seq := joined s₀ s₁, length := h.length } := by
      simp [Header.packet, padded_nil, Header.seq, h]
    by_cases hl : h.length.toNat ≤ maxPayload
    · have hs := scan_unfinished hl [] (by simp)
      have hpush : PacketParser.push { state := .lengthHi
                                       current := { type := t, seq := joined s₀ s₁
                                                    length := l₀.toUInt16 }
                                       crcLo := c } b =
          ({ state := if h.length = 0 then .crcLo else .payload, current := h.packet []
             crcLo := c }, none) := by
        rw [hpkt]
        exact if_neg (Nat.not_lt.mpr hl)
      by_cases hz : h.length = 0
      · rw [if_pos hz] at hpush
        exact simulates_waiting hpush (.crcLo c h [] hl (by simp [hz])) hs
      · rw [if_neg hz] at hpush
        refine simulates_waiting hpush (.payload c h [] hl ?_) hs
        exact Nat.pos_of_ne_zero fun h0 => hz (UInt16.toNat_inj.mp h0)
    · refine simulates_dropped (if_pos (Nat.lt_of_not_le hl)) rfl ?_
      refine scan_reject (attempt_oversize (opened_header h []) (by simp) ?_)
      rwa [announced_header]
  | payload c h got hl hg =>
    have hl' : got.length < 2 ^ 16 := by unfold maxPayload at hl; omega
    have hs := scan_unfinished hl (got ++ [b]) (by simp; omega)
    rw [← List.append_assoc, ← List.cons_append] at hs
    have hidx : UInt16.ofNat got.length + 1 = UInt16.ofNat (got ++ [b]).length := by
      simp [UInt16.ofNat_add]
    have hpad : (h.packet got).payload.setIfInBounds (UInt16.ofNat got.length).toNat b =
        (h.packet (got ++ [b])).payload := by
      rw [UInt16.toNat_ofNat', Nat.mod_eq_of_lt hl']
      exact padded_append got b
    have hpush : PacketParser.push { state := .payload, current := h.packet got
                                     payloadIndex := UInt16.ofNat got.length, crcLo := c } b =
        ({ state := if UInt16.ofNat (got ++ [b]).length ≥ h.length then .crcLo else .payload
           current := h.packet (got ++ [b])
           payloadIndex := UInt16.ofNat (got ++ [b]).length
           crcLo := c }, none) := by
      simp only [PacketParser.push, hidx, hpad]
      rfl
    have hge : UInt16.ofNat (got ++ [b]).length ≥ h.length ↔
        h.length.toNat ≤ (got ++ [b]).length := by
      rw [ge_iff_le, UInt16.le_iff_toNat_le, UInt16.toNat_ofNat', Nat.mod_eq_of_lt]
      unfold maxPayload at hl
      rw [List.length_append, List.length_singleton]
      omega
    have hlen : (got ++ [b]).length = got.length + 1 := by simp
    by_cases hdone : h.length.toNat ≤ (got ++ [b]).length
    · rw [if_pos (hge.mpr hdone)] at hpush
      refine simulates_waiting hpush ?_ hs
      have := Tracks.crcLo c h (got ++ [b]) hl (by omega)
      rwa [← List.append_assoc, ← List.cons_append] at this
    · rw [if_neg (mt hge.mp hdone)] at hpush
      refine simulates_waiting hpush ?_ hs
      have := Tracks.payload c h (got ++ [b]) hl (by omega)
      rwa [← List.append_assoc, ← List.cons_append] at this
  | crcLo c h got hl hg =>
    have hs := scan_unfinished hl (got ++ [b]) (by simp; omega)
    rw [← List.append_assoc, ← List.cons_append] at hs
    refine simulates_waiting rfl ?_ hs
    have := Tracks.crcHi h got b hl hg
    rwa [← List.append_assoc, ← List.cons_append] at this
  | crcHi h got c₀ hl hg =>
    have happ : startByte :: (h.bytes ++ (got ++ [c₀])) ++ [b] =
        startByte :: (h.bytes ++ (got ++ [c₀, b])) := by simp
    have hbody : (h.bytes ++ (got ++ [c₀, b])).length = h.length.toNat + 8 := by
      simp only [List.length_append, length_header, List.length_cons, List.length_nil]
      omega
    have harr : Arrived 1 (h.bytes ++ (got ++ [c₀, b])) :=
      { headed_header hl _ with arrived := by rw [announced_header, hbody] }
    have hchk := checked_packet hl hg c₀ b
    have hrest : scan (firmwareAttempt crc16Ccitt) (announced (h.bytes ++ (got ++ [c₀, b])) + 8)
        (h.bytes ++ (got ++ [c₀, b])) = ([], []) := by
      rw [announced_header, ← hbody, scan_drop, List.drop_length]
      rfl
    by_cases hc : PacketParser.actual (h.packet got) = joined c₀ b
    · have ha : firmwareAttempt crc16Ccitt startByte (h.bytes ++ (got ++ [c₀, b])) = _ :=
        attempt_whole harr (hchk.mpr hc)
      rw [frame_packet hl hg] at ha
      have hs := scan_accept ha
      rw [hrest, ← happ] at hs
      have hpush : PacketParser.push { state := .crcHi, current := h.packet got
                                       payloadIndex := UInt16.ofNat got.length, crcLo := c₀ } b =
          ({}, some (h.packet got)) := if_pos hc
      simp only [Simulates, hpush, hs]
      exact ⟨.start _ rfl, rfl⟩
    · have ha : firmwareAttempt crc16Ccitt startByte (h.bytes ++ (got ++ [c₀, b])) =
          .reject (announced (h.bytes ++ (got ++ [c₀, b])) + 8) :=
        attempt_corrupt harr (mt hchk.mp hc)
      have hs := scan_reject ha
      rw [hrest, ← happ] at hs
      exact simulates_dropped (if_neg hc) rfl hs

/-- Pushing byte by byte finds the frames a forgetful receiver finds. -/
theorem pushAll_tracks {s : PacketParser} {pending : List UInt8} (ht : Tracks s pending)
    (bs : List UInt8) :
    Tracks (s.pushAll bs).1 (feeds (firmwareAttempt crc16Ccitt) pending (bs.map fun b => [b])).2 ∧
    (s.pushAll bs).2.map Packet.toFrame =
      (feeds (firmwareAttempt crc16Ccitt) pending (bs.map fun b => [b])).1 := by
  induction bs generalizing s pending with
  | nil => exact ⟨ht, rfl⟩
  | cons b bs ih =>
    obtain ⟨hnow, hout⟩ := push_simulates ht b
    obtain ⟨hlater, hrest⟩ := ih hnow
    refine ⟨hlater, ?_⟩
    simp only [PacketParser.pushAll, List.map_append, List.map_cons, feeds, hout, hrest]

theorem tracks_waiting {s : PacketParser} {pending : List UInt8} (ht : Tracks s pending) :
    scan (firmwareAttempt crc16Ccitt) 0 pending = ([], pending) := by
  cases ht with
  | start => rfl
  | version => exact scan_wait (attempt_short (by simp))
  | type => exact scan_header [] (by simp)
  | seqLo c t => exact scan_header [t] (by simp)
  | seqHi c t s₀ => exact scan_header [t, s₀] (by simp)
  | lengthLo c t s₀ s₁ => exact scan_header [t, s₀, s₁] (by simp)
  | lengthHi c t s₀ s₁ l₀ => exact scan_header [t, s₀, s₁, l₀] (by simp)
  | payload c h got hl hg => exact scan_unfinished hl _ (by omega)
  | crcLo c h got hl hg => exact scan_unfinished hl _ (by omega)
  | crcHi h got c₀ hl hg => exact scan_unfinished hl _ (by simp; omega)

/-- With nothing consumed the parser looks for a start byte. -/
theorem start_of_tracks {s : PacketParser} (ht : Tracks s []) : s.state = .start := by
  cases ht with
  | start _ hst => exact hst

theorem pushAll_eq_scan {s : PacketParser} {pending : List UInt8} (ht : Tracks s pending)
    (bs : List UInt8) :
    Tracks (s.pushAll bs).1 (scan (firmwareAttempt crc16Ccitt) 0 (pending ++ bs)).2 ∧
    (s.pushAll bs).2.map Packet.toFrame =
      (scan (firmwareAttempt crc16Ccitt) 0 (pending ++ bs)).1 := by
  have hcut : (bs.map fun b => [b]).flatten = bs := by
    induction bs with
    | nil => rfl
    | cons b bs ih => simp [ih]
  have h := pushAll_tracks ht bs
  rwa [feeds_eq_scan (firmwareAttempt_lawful _) _ _ (tracks_waiting ht), hcut] at h

end FirmwareProtocol
