import TeensyIo.FirmwareProtocol

/-! # What the parser lets through

The firmware acts on every packet `push` returns. Each one is backed by the bytes pushed just
before: they are the frame the writer would have sent for it, and no byte counts twice. -/
namespace ParserEmissions

open WireFrame StreamScanner FirmwareProtocol
open FirmwareProtocol.PacketWriter (writePacket)

/-- The packets that come out, each with the number of bytes pushed until then. -/
def emissions (pushed : ℕ) (parser : PacketParser) : List UInt8 → List (ℕ × Packet)
  | [] => []
  | b :: bs =>
    let now := parser.push b
    let later := emissions (pushed + 1) now.1 bs
    match now.2 with
    | none => later
    | some p => (pushed + 1, p) :: later

variable {parser : PacketParser} {pushed : ℕ} {b : UInt8} {bs : List UInt8} {p : Packet}

theorem emissions_silent (h : (parser.push b).2 = none) :
    emissions pushed parser (b :: bs) = emissions (pushed + 1) (parser.push b).1 bs := by
  simp [emissions, h]

theorem emissions_packet (h : (parser.push b).2 = some p) :
    emissions pushed parser (b :: bs) =
      (pushed + 1, p) :: emissions (pushed + 1) (parser.push b).1 bs := by
  simp [emissions, h]

/-- They are the packets `pushAll` collects. -/
theorem emissions_packets (pushed : ℕ) (parser : PacketParser) (bs : List UInt8) :
    (emissions pushed parser bs).map Prod.snd = (parser.pushAll bs).2 := by
  induction bs generalizing pushed parser with
  | nil => rfl
  | cons b bs ih =>
    cases h : (parser.push b).2 with
    | none => simp [emissions_silent h, PacketParser.pushAll, h, ih]
    | some p => simp [emissions_packet h, PacketParser.pushAll, h, ih]

/-- The bytes a packet takes on the wire. -/
def frameSize (p : Packet) : ℕ := 9 + p.length.toNat

/-- A packet is what the writer would send as `bytes`, with nothing behind its payload. -/
structure Backed (bytes : List UInt8) (p : Packet) : Prop where
  fits : p.length.toNat ≤ kMaxPayloadSize
  written : bytes = writePacket p
  size : bytes.length = frameSize p
  clear : ∀ i (h : i < kMaxPayloadSize), p.length.toNat ≤ i → p.payload[i] = 0

theorem push_emits_state (h : (parser.push b).2 = some p) : parser.state = .crcHi := by
  cases hst : parser.state with
  | crcHi => rfl
  | start =>
    simp only [PacketParser.push, hst] at h
    split at h <;> cases h
  | lengthHi =>
    simp only [PacketParser.push, hst] at h
    split at h <;> cases h
  | version => simp [PacketParser.push, hst] at h
  | type => simp [PacketParser.push, hst] at h
  | seqLo => simp [PacketParser.push, hst] at h
  | seqHi => simp [PacketParser.push, hst] at h
  | lengthLo => simp [PacketParser.push, hst] at h
  | payload => simp [PacketParser.push, hst] at h
  | crcLo => simp [PacketParser.push, hst] at h

theorem writePacket_eq (p : Packet) : writePacket p = p.toFrame.encode crc16Ccitt :=
  write_eq_encode p.toFrame

theorem clear_padded {got : List UInt8} {i : ℕ} (hi : i < kMaxPayloadSize) (h : got.length ≤ i) :
    (padded got)[i] = 0 := by
  simp [padded, List.getD_eq_getElem?_getD, List.getElem?_eq_none h]

/-- The bytes behind the last start byte are the frame of the packet that comes out. -/
theorem push_emits {pending : List UInt8} (ht : Tracks parser pending)
    (h : (parser.push b).2 = some p) :
    Backed (pending ++ [b]) p ∧ (parser.push b).1.state = .start := by
  have hstate := push_emits_state h
  cases ht with
  | start s hst =>
    rw [hst] at hstate
    cases hstate
  | version c => cases hstate
  | type c => cases hstate
  | seqLo c t => cases hstate
  | seqHi c t s₀ => cases hstate
  | lengthLo c t s₀ s₁ => cases hstate
  | lengthHi c t s₀ s₁ l₀ => cases hstate
  | payload c hd got hl hg => cases hstate
  | crcLo c hd got hl hg => cases hstate
  | crcHi hd got c₀ hl hg =>
    by_cases hc : PacketParser.actual (hd.packet got) = joined c₀ b
    · have hpush : PacketParser.push { state := .crcHi, current := hd.packet got
                                       payloadIndex := UInt16.ofNat got.length, crcLo := c₀ } b =
          ({}, some (hd.packet got)) := if_pos hc
      rw [hpush] at h ⊢
      obtain rfl := Option.some.inj h
      have hbytes : startByte :: (hd.bytes ++ (got ++ [c₀])) ++ [b] =
          startByte :: (hd.bytes ++ (got ++ [c₀, b])) := by simp
      have hlen : (hd.bytes ++ (got ++ [c₀, b])).length = hd.length.toNat + 8 := by
        simp only [List.length_append, length_header, List.length_cons, List.length_nil]
        omega
      have harr : Arrived 1 (hd.bytes ++ (got ++ [c₀, b])) :=
        { headed_header hl _ with arrived := by rw [announced_header, hlen] }
      have hbody := body_frameIn harr ((checked_packet hl hg c₀ b).mpr hc)
      rw [frame_packet hl hg, announced_header, ← hlen, List.take_length] at hbody
      refine ⟨⟨hl, ?_, ?_, ?_⟩, rfl⟩
      · rw [hbytes, writePacket_eq, Frame.encode, hbody]
      · rw [hbytes, List.length_cons, hlen]
        change hd.length.toNat + 8 + 1 = 9 + hd.length.toNat
        omega
      · intro i hi hle
        exact clear_padded hi (hg.trans_le hle)
    · have hpush : PacketParser.push { state := .crcHi, current := hd.packet got
                                       payloadIndex := UInt16.ofNat got.length, crcLo := c₀ } b =
          ({}, none) := if_neg hc
      rw [hpush] at h
      cases h

/-- The packet is backed by the last bytes pushed when it came out. -/
def BackedAt (bytes : List UInt8) (e : ℕ × Packet) : Prop :=
  frameSize e.2 ≤ e.1 ∧ e.1 ≤ bytes.length ∧
    Backed ((bytes.take e.1).drop (e.1 - frameSize e.2)) e.2

/-- The first came out before the first byte of the second was pushed. -/
def Precedes (a b : ℕ × Packet) : Prop := a.1 + frameSize b.2 ≤ b.1

/-- The packets still to come, for a parser that has consumed `pending` since the last byte that
already counts. -/
theorem emissions_backed (bs before pending : List UInt8) (ht : Tracks parser pending)
    (hpushed : (before ++ pending).length = pushed) :
    (∀ e ∈ emissions pushed parser bs, BackedAt (before ++ pending ++ bs) e ∧
      before.length + frameSize e.2 ≤ e.1) ∧
    (emissions pushed parser bs).Pairwise Precedes := by
  induction bs generalizing pushed parser before pending with
  | nil => simp [emissions]
  | cons b bs ih =>
    have hbytes : before ++ pending ++ b :: bs = before ++ (pending ++ [b]) ++ bs := by simp
    have hnext : (before ++ (pending ++ [b])).length = pushed + 1 := by
      rw [← hpushed, ← List.append_assoc, List.length_append, List.length_singleton]
    rw [hbytes]
    cases h : (parser.push b).2 with
    | none =>
      rw [emissions_silent h]
      obtain ⟨hnow, -⟩ := push_simulates ht b
      obtain ⟨gone, hgone⟩ := scan_suffix (firmwareAttempt crc16Ccitt) 0 (pending ++ [b])
      rw [← hgone, ← List.append_assoc] at hnext ⊢
      obtain ⟨hall, hpair⟩ := ih _ _ hnow hnext
      refine ⟨fun e he => ?_, hpair⟩
      obtain ⟨hbacked, hlate⟩ := hall e he
      rw [List.length_append] at hlate
      exact ⟨hbacked, by omega⟩
    | some p =>
      rw [emissions_packet h]
      obtain ⟨hbacked, hstart⟩ := push_emits ht h
      have hsize := hbacked.size
      have hnone : (before ++ (pending ++ [b]) ++ []).length = pushed + 1 := by
        rwa [List.append_nil]
      have hlater := ih _ _ (.start _ hstart) hnone
      rw [List.append_nil] at hlater
      obtain ⟨hall, hpair⟩ := hlater
      constructor
      · intro e he
        rcases List.mem_cons.mp he with rfl | he
        · have hcut : pushed + 1 - frameSize p = before.length := by
            rw [← hnext, ← hsize, List.length_append, Nat.add_sub_cancel]
          have htake : (before ++ (pending ++ [b]) ++ bs).take (pushed + 1) =
              before ++ (pending ++ [b]) := List.take_left' hnext
          rw [← hsize] at hcut
          rw [List.length_append] at hnext
          refine ⟨⟨?_, ?_, ?_⟩, ?_⟩
          · change frameSize p ≤ pushed + 1
            omega
          · rw [List.length_append, List.length_append]
            change pushed + 1 ≤ _
            omega
          · change Backed (((before ++ (pending ++ [b]) ++ bs).take (pushed + 1)).drop
              (pushed + 1 - frameSize p)) p
            rwa [htake, ← hsize, hcut, List.drop_left]
          · change before.length + frameSize p ≤ pushed + 1
            omega
        · obtain ⟨hb, hlate⟩ := hall e he
          rw [List.length_append] at hlate
          exact ⟨hb, by omega⟩
      · refine List.Pairwise.cons ?_ hpair
        intro e he
        have := (hall e he).2
        rwa [hnext] at this

/-- Whatever is pushed, every packet that comes out of a fresh parser is the frame the last bytes
spell, and the frames of successive packets do not overlap. -/
theorem parser_sound (bytes : List UInt8) :
    (emissions 0 {} bytes).map Prod.snd = (PacketParser.pushAll {} bytes).2 ∧
      (∀ e ∈ emissions 0 {} bytes, BackedAt bytes e) ∧
      (emissions 0 {} bytes).Pairwise Precedes := by
  refine ⟨emissions_packets 0 {} bytes, ?_⟩
  obtain ⟨hall, hpair⟩ :=
    emissions_backed bytes [] [] (.start ({} : PacketParser) rfl) rfl
  exact ⟨fun e he => (hall e he).1, hpair⟩

end ParserEmissions
