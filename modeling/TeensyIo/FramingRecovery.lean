import TeensyIo.WireCompatibility
import Mathlib.Data.List.Infix

/-! # Recovery after bad bytes

What the host's decoder and the firmware's parser make of a stream that is not a plain
concatenation of packets. The decoder recovers every frame until it meets a frame of an
unknown type; the parser recovers a frame unless a failed attempt has swallowed its start. -/
namespace FramingRecovery

open WireCommands WireFrame StreamScanner WireCompatibility
open HostProtocol (Packet PyError PacketDecoder feedLoop)
open FirmwareProtocol (PacketParser PacketWriter.write crc16Ccitt)

/-- The frames of a stream for a receiver that looks again from the next byte. -/
def framesIn (bytes : List UInt8) : List Frame := (scan (hostAttempt crc16Ccitt) 0 bytes).1

theorem infix_of_mem_framesIn {bytes : List UInt8} {f : Frame} (h : f ∈ framesIn bytes) :
    f.encode crc16Ccitt <:+: bytes := infix_of_mem_scan crc16Ccitt h

/-! ### The decoder and unknown types -/

/-- The outcome of every feed of a run, whatever the feeds before it raised. -/
def feedEach (decoder : PacketDecoder) :
    List (List UInt8) → List (Except PyError (List Packet))
  | [] => []
  | c :: cs => (decoder.feed c).1 :: feedEach (decoder.feed c).2 cs

/-- Every feed returns, and together they return the frames of the stream. -/
def Recovers (decoder : PacketDecoder) (chunks : List (List UInt8)) (found : List Frame) : Prop :=
  ∃ outs : List (List Packet), feedEach decoder chunks = outs.map .ok ∧
    outs.flatten = found.filterMap toPacket

theorem feedEach_recovers (chunks : List (List UInt8)) (decoder : PacketDecoder)
    (h : ∀ f ∈ (feeds (hostAttempt crc16Ccitt) decoder.buffer chunks).1, Known f) :
    Recovers decoder chunks (feeds (hostAttempt crc16Ccitt) decoder.buffer chunks).1 := by
  induction chunks generalizing decoder with
  | nil => exact ⟨[], rfl, rfl⟩
  | cons c cs ih =>
    simp only [feeds, List.mem_append] at h
    have hnow := feed_eq decoder c fun f hf => h f (Or.inl hf)
    obtain ⟨outs, houts, hflat⟩ :=
      ih ⟨(scan (hostAttempt crc16Ccitt) 0 (decoder.buffer ++ c)).2⟩ fun f hf => h f (Or.inr hf)
    let now := (scan (hostAttempt crc16Ccitt) 0 (decoder.buffer ++ c)).1.filterMap toPacket
    refine ⟨now :: outs, ?_, ?_⟩
    · rw [feedEach, hnow, houts]
      rfl
    · rw [List.flatten_cons, hflat, feeds, List.filterMap_append]

theorem feedEach_raises (chunks : List (List UInt8)) (decoder : PacketDecoder)
    (h : ∃ f ∈ (feeds (hostAttempt crc16Ccitt) decoder.buffer chunks).1, ¬ Known f) :
    .error .valueError ∈ feedEach decoder chunks := by
  induction chunks generalizing decoder with
  | nil => simp [feeds] at h
  | cons c cs ih =>
    by_cases hnow : ∀ f ∈ (scan (hostAttempt crc16Ccitt) 0 (decoder.buffer ++ c)).1, Known f
    · obtain ⟨f, hf, hu⟩ := h
      simp only [feeds, List.mem_append] at hf
      have hlater := hf.resolve_left fun hf => hu (hnow f hf)
      refine List.mem_cons_of_mem _ (ih _ ⟨f, ?_, hu⟩)
      rwa [feed_eq decoder c hnow]
    · push Not at hnow
      have hraise := (feedLoop_raises (decoder.buffer ++ c) [] hnow).1
      exact List.mem_cons.mpr (Or.inl hraise.symm)

/-- A decoder whose buffer begins with a whole frame of an unknown type. -/
def Poisoned (decoder : PacketDecoder) : Prop :=
  ∃ xs f k, decoder.buffer = startByte :: xs ∧
    hostAttempt crc16Ccitt startByte xs = .accept f k ∧ ¬ Known f

/-- Once poisoned, every feed raises and the decoder stays poisoned. -/
theorem feed_poisoned {decoder : PacketDecoder} (h : Poisoned decoder) (data : List UInt8) :
    (decoder.feed data).1 = .error .valueError ∧ Poisoned (decoder.feed data).2 := by
  obtain ⟨xs, f, k, hb, ha, hu⟩ := h
  have hstill : hostAttempt crc16Ccitt startByte (xs ++ data) = .accept f k := by
    rw [(hostAttempt_lawful crc16Ccitt).stable startByte xs data (by simp [ha]), ha]
  have hmeets : ∃ g ∈ (scan (hostAttempt crc16Ccitt) 0 (decoder.buffer ++ data)).1, ¬ Known g := by
    refine ⟨f, ?_, hu⟩
    rw [hb, List.cons_append, scan_accept hstill]
    exact List.mem_cons_self
  exact feedLoop_raises (decoder.buffer ++ data) [] hmeets

theorem feedEach_poisoned {decoder : PacketDecoder} (h : Poisoned decoder)
    (chunks : List (List UInt8)) : ∀ out ∈ feedEach decoder chunks, out = .error .valueError := by
  induction chunks generalizing decoder with
  | nil => simp [feedEach]
  | cons c cs ih =>
    obtain ⟨hraise, hstill⟩ := feed_poisoned h c
    intro out hout
    rcases List.mem_cons.mp hout with rfl | hout
    · exact hraise
    · exact ih hstill out hout

/-- A run of feeds loses nothing exactly if no frame of its stream has an unknown type. -/
theorem decoder_recovers_iff (chunks : List (List UInt8)) :
    Recovers {} chunks (framesIn chunks.flatten) ↔
      ∀ f ∈ framesIn chunks.flatten, Known f := by
  have hframes : (feeds (hostAttempt crc16Ccitt) [] chunks).1 = framesIn chunks.flatten := by
    rw [feeds_eq_scan (hostAttempt_lawful crc16Ccitt) chunks [] rfl]
    rfl
  constructor
  · rintro ⟨outs, houts, -⟩
    by_contra hunknown
    push Not at hunknown
    rw [← hframes] at hunknown
    have herr := feedEach_raises chunks {} hunknown
    rw [houts] at herr
    simp at herr
  · intro h
    rw [← hframes] at h ⊢
    exact feedEach_recovers chunks {} h

/-- A frame of type 8 between two acknowledgements costs both, in whatever feed they come. -/
theorem unknown_type_poisons :
    let ack : Packet := ⟨.ack, 7, [0]⟩
    let alien := PacketWriter.write 8 9 [1, 2]
    framesIn (firmwareBytes ack ++ alien ++ firmwareBytes ack) =
        [⟨2, 7, [0], by decide⟩, ⟨8, 9, [1, 2], by decide⟩, ⟨2, 7, [0], by decide⟩] ∧
      feedEach {} [firmwareBytes ack ++ alien, firmwareBytes ack] =
        [.error .valueError, .error .valueError] ∧
      ¬ Recovers {} [firmwareBytes ack ++ alien, firmwareBytes ack]
        (framesIn (firmwareBytes ack ++ alien ++ firmwareBytes ack)) := by
  intro ack alien
  have hmeets : ∃ f ∈ (scan (hostAttempt crc16Ccitt) 0 (firmwareBytes ack ++ alien)).1,
      ¬ Known f := by decide +kernel
  obtain ⟨hfirst, hbuffer⟩ := feedLoop_raises (firmwareBytes ack ++ alien) [] hmeets
  have hpoison : Poisoned (PacketDecoder.feed {} (firmwareBytes ack ++ alien)).2 := hbuffer
  have hrun : feedEach {} [firmwareBytes ack ++ alien, firmwareBytes ack] =
      [.error .valueError, .error .valueError] :=
    congrArg₂ List.cons hfirst (congrArg (· :: []) (feed_poisoned hpoison (firmwareBytes ack)).1)
  refine ⟨by decide +kernel, hrun, ?_⟩
  rintro ⟨outs, houts, -⟩
  rw [hrun] at houts
  cases outs with
  | nil => cases houts
  | cons out outs => cases houts

/-! ### The parser and the decoder on one stream -/

/-- Parser and decoder find the same packets. -/
def FramingAgrees (bytes : List UInt8) : Prop :=
  ∃ packets, (PacketDecoder.feed {} bytes).1 = .ok packets ∧
    (PacketParser.pushAll {} bytes).2.map hostView = packets.map some

/-- The frames the decoder takes from a stream, each with the place of its start byte. -/
def decoderFrames (bytes : List UInt8) : List (ℕ × Frame) :=
  scanAt (hostAttempt crc16Ccitt) 0 0 bytes

/-- The same for the parser. -/
def parserFrames (bytes : List UInt8) : List (ℕ × Frame) :=
  scanAt (firmwareAttempt crc16Ccitt) 0 0 bytes

/-- No failed attempt of the parser has consumed the first byte of a frame the decoder takes, or
of an unfinished one the decoder waits for while the parser finds a valid frame further on. -/
def NothingSwallowed (bytes : List UInt8) : Prop :=
  NothingHidden (hostAttempt crc16Ccitt) (firmwareAttempt crc16Ccitt) 0 bytes

instance (bytes : List UInt8) : Decidable (NothingSwallowed bytes) :=
  inferInstanceAs (Decidable (NothingHidden _ _ _ _))

theorem decoderFrames_feed {bytes : List UInt8} (hknown : ∀ f ∈ framesIn bytes, Known f) :
    (PacketDecoder.feed {} bytes).1 =
      .ok (((decoderFrames bytes).map Prod.snd).filterMap toPacket) := by
  rw [decoderFrames, scanAt_found, feed_eq {} bytes hknown]
  rfl

theorem parserFrames_push (bytes : List UInt8) :
    (PacketParser.pushAll {} bytes).2.map hostView =
      ((parserFrames bytes).map Prod.snd).map toPacket := by
  have hemitted := (FirmwareProtocol.pushAll_eq_scan (.start {} rfl) bytes).2
  rw [List.nil_append] at hemitted
  rw [parserFrames, scanAt_found, ← hemitted, List.map_map]
  rfl

/-- Looking at every place with a start byte and the version behind it. -/
theorem known_of_headers {bytes : List UInt8}
    (h : ∀ xs ∈ bytes.tails, xs.take 2 = [startByte, version] →
      (PacketType.ofByte (byteAt xs 2)).isSome = true) (f : Frame)
    (hf : f.encode crc16Ccitt <:+: bytes) : Known f := by
  obtain ⟨before, later, rfl⟩ := hf
  have htail : f.encode crc16Ccitt ++ later ∈
      (before ++ f.encode crc16Ccitt ++ later).tails := by
    rw [List.mem_tails, List.append_assoc]
    exact List.suffix_append before _
  exact h _ htail rfl

/-- Parser and decoder take the same frames at the same places exactly if nothing is swallowed,
and then they return the same packets. -/
theorem framing_agrees_iff (bytes : List UInt8)
    (hknown : ∀ f : Frame, f.encode crc16Ccitt <:+: bytes → Known f) :
    (parserFrames bytes = decoderFrames bytes ↔ NothingSwallowed bytes) ∧
      (NothingSwallowed bytes → FramingAgrees bytes) := by
  have hplaces : parserFrames bytes = decoderFrames bytes ↔ NothingSwallowed bytes :=
    scanAt_agree_iff (receivers_sameFrames crc16Ccitt) 0 0 bytes
  refine ⟨hplaces, fun hs => ?_⟩
  have hall : ∀ f ∈ framesIn bytes, Known f := fun f hf => hknown f (infix_of_mem_framesIn hf)
  have hfound : (decoderFrames bytes).map Prod.snd = framesIn bytes := scanAt_found _ 0 0 bytes
  refine ⟨_, decoderFrames_feed hall, ?_⟩
  rw [parserFrames_push, hplaces.mpr hs, hfound]
  exact map_of_known hall

/-- A wrong version byte between two frames is recovered from by both. -/
theorem framing_agrees_after_noise :
    let ack := firmwareBytes ⟨.ack, 7, [0]⟩
    FramingAgrees (ack ++ [0xA5, 0x02, 0x13] ++ ack) := by
  intro ack
  exact (framing_agrees_iff _ (known_of_headers (by decide +kernel))).2 (by decide +kernel)

/-- Equal packets alone do not tell whether the parser has lost a frame: where a frame ends in a
start byte, it can take an overlapping copy in place of the one it has swallowed. -/
theorem overlapping_copy_agrees :
    let ack := firmwareBytes ⟨.ack, 2, [0x23]⟩
    let bytes := 0xA5 :: (ack ++ ack.tail)
    FramingAgrees bytes ∧ ¬ NothingSwallowed bytes := by
  intro ack bytes
  have hknown : ∀ f : Frame, f.encode crc16Ccitt <:+: bytes → Known f :=
    known_of_headers (by decide +kernel)
  have hparser : (PacketParser.pushAll {} bytes).2.map hostView =
      ((framesIn bytes).filterMap toPacket).map some := by decide +kernel
  refine ⟨⟨_, ?_, hparser⟩, by decide +kernel⟩
  rw [feed_eq {} bytes fun f hf => hknown f (infix_of_mem_framesIn hf)]
  rfl

/-- A stray start byte before an emergency stop: the decoder finds the command, the parser
takes the real start byte for a wrong version and drops the command. -/
theorem stray_start_hides_stop :
    let bytes := 0xA5 :: firmwareBytes ⟨.command, 1, [0xF0]⟩
    (∀ f : Frame, f.encode crc16Ccitt <:+: bytes → Known f) ∧ ¬ FramingAgrees bytes := by
  intro bytes
  have hknown : ∀ f : Frame, f.encode crc16Ccitt <:+: bytes → Known f :=
    known_of_headers (by decide +kernel)
  refine ⟨hknown, ?_⟩
  rintro ⟨packets, hfeed, hpush⟩
  have hparser : (PacketParser.pushAll {} bytes).2 = [] := by decide +kernel
  have hdecoder : framesIn bytes = [⟨1, 1, [0xF0], by decide⟩] := by decide +kernel
  rw [feed_eq {} bytes fun f hf => hknown f (infix_of_mem_framesIn hf)] at hfeed
  have hpackets : (framesIn bytes).filterMap toPacket = packets := Except.ok.inj hfeed
  rw [hparser, ← hpackets, hdecoder] at hpush
  cases hpush

end FramingRecovery
