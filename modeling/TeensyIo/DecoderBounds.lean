import TeensyIo.DecoderStreams
import TeensyIo.MachineRuns
import TeensyIo.PassLoops

/-! # How long `feed` takes and what it leaves

The passes of the loop of `PacketDecoder.feed`, counted, and the bytes a feed that returns keeps
for the next one. -/
namespace DecoderBounds

open HostProtocol PassLoops MachineRuns
open WireFrame (hostAttempt)
open WireCompatibility (Known)
open FramingRecovery (Poisoned)

/-- The buffer and the packets at the head of the loop. -/
structure Feeding where
  buffer : List UInt8
  packets : List Packet := []
  deriving DecidableEq, Repr

/-- A pass leaves the loop with what `feed` returns or raises, and the buffer. -/
def feedPass (s : Feeding) : Pass Feeding (Except PyError (List Packet) × PacketDecoder) :=
  match feedTurn s.buffer with
  | .stop rest => .leave (.ok s.packets, ⟨rest⟩)
  | .next rest => .again ⟨rest, s.packets⟩
  | .found packet rest => .again ⟨rest, s.packets ++ [packet]⟩
  | .raised error rest => .leave (.error error, ⟨rest⟩)

/-- `feed` for so many passes of its loop. -/
def feedFor (passes : ℕ) (decoder : PacketDecoder) (data : List UInt8) :
    Option (Except PyError (List Packet) × PacketDecoder) :=
  runFor feedPass passes ⟨decoder.buffer ++ data, []⟩

/-- Every pass after which the loop goes on has taken a byte out of the buffer. -/
theorem feedPass_shortens {s t : Feeding} (h : feedPass s = .again t) :
    t.buffer.length < s.buffer.length := by
  have hshort := feedTurn_shortens s.buffer
  unfold feedPass at h
  cases hturn : feedTurn s.buffer with
  | stop rest =>
    rw [hturn] at h
    cases h
  | next rest =>
    rw [hturn] at h hshort
    cases h
    exact hshort
  | found packet rest =>
    rw [hturn] at h hshort
    cases h
    exact hshort
  | raised error rest =>
    rw [hturn] at h
    cases h

/-- A run that is long enough does what the decoder does. -/
theorem runFor_feedLoop {n : ℕ} {s : Feeding}
    {r : Except PyError (List Packet) × PacketDecoder} (h : runFor feedPass n s = some r) :
    r = ((feedLoop s.buffer s.packets).1, ⟨(feedLoop s.buffer s.packets).2⟩) := by
  induction n generalizing s with
  | zero => cases h
  | succ n ih =>
    rw [runFor, feedPass] at h
    rw [feedLoop]
    cases hturn : feedTurn s.buffer with
    | stop rest =>
      rw [hturn] at h
      exact (Option.some.inj h).symm
    | next rest =>
      rw [hturn] at h
      exact ih h
    | found packet rest =>
      rw [hturn] at h
      exact ih h
    | raised error rest =>
      rw [hturn] at h
      exact (Option.some.inj h).symm

theorem feedFor_returns (decoder : PacketDecoder) (data : List UInt8) {passes : ℕ}
    (hpasses : decoder.buffer.length + data.length < passes) :
    feedFor passes decoder data = some (decoder.feed data) := by
  have hmeasure : (decoder.buffer ++ data).length < passes := by
    rw [List.length_append]
    exact hpasses
  obtain ⟨r, hr⟩ := runFor_returns (I := fun _ => True) (μ := fun s : Feeding => s.buffer.length)
    (s := ⟨decoder.buffer ++ data, []⟩) (fun _ _ _ _ => trivial)
    (fun s t _ hpass => feedPass_shortens hpass) trivial hmeasure
  rw [feedFor, hr, runFor_feedLoop hr]
  rfl

/-! ### What is kept -/

/-- Nothing, or the beginning of a frame that is not complete. -/
def Incomplete (buffer : List UInt8) : Prop :=
  buffer = [] ∨ (buffer.head? = some startByte ∧ buffer.length ≤ 136)

theorem incomplete_length {buffer : List UInt8} (h : Incomplete buffer) :
    buffer.length ≤ 136 := by
  rcases h with rfl | ⟨-, hlength⟩
  · exact Nat.zero_le 136
  · exact hlength

/-- A complete header is waited for no longer than its payload and checksum need. -/
theorem feedFrame_stop {buffer rest : List UInt8} (h : feedFrame buffer = .stop rest) :
    rest = buffer ∧ buffer.length ≤ 136 := by
  unfold feedFrame at h
  dsimp only at h
  split_ifs at h with hversion hlong hwaits hcrc
  · have hpayload := Nat.le_of_not_lt hlong
    constructor
    · cases h
      rfl
    · rw [maxPayloadSize] at hpayload
      omega
  · split at h
    · cases h
    · cases h

theorem feedTurn_stop {buffer rest : List UInt8} (h : feedTurn buffer = .stop rest) :
    Incomplete rest := by
  unfold feedTurn at h
  split at h
  · cases h
    exact Or.inl rfl
  · next startIndex hindex =>
    right
    obtain ⟨hlt, hat, -⟩ := List.idxOf?_eq_some_iff.mp hindex
    have hstart : (buffer.drop startIndex).head? = some startByte := by
      rw [List.head?_drop, List.getElem?_eq_getElem hlt, hat]
    dsimp only at h
    split_ifs at h with hshort
    · cases h
      refine ⟨hstart, ?_⟩
      omega
    · obtain ⟨rfl, hlength⟩ := feedFrame_stop h
      exact ⟨hstart, hlength⟩

theorem feedPass_leaves {s : Feeding} {packets : List Packet} {decoder : PacketDecoder}
    (h : feedPass s = .leave (.ok packets, decoder)) : Incomplete decoder.buffer := by
  unfold feedPass at h
  cases hturn : feedTurn s.buffer with
  | stop rest =>
    rw [hturn] at h
    cases h
    exact feedTurn_stop hturn
  | next rest =>
    rw [hturn] at h
    cases h
  | found packet rest =>
    rw [hturn] at h
    cases h
  | raised error rest =>
    rw [hturn] at h
    cases h

/-- Whatever the decoder holds and is given, its loop is left after at most one pass more than
there are bytes, and a feed that returns keeps the beginning of a single frame at most. -/
theorem feed_terminates_bounded (decoder : PacketDecoder) (data : List UInt8) :
    feedFor (decoder.buffer.length + data.length + 1) decoder data = some (decoder.feed data) ∧
      ∀ packets, (decoder.feed data).1 = .ok packets → Incomplete (decoder.feed data).2.buffer := by
  have hreturns := feedFor_returns decoder data (Nat.lt_succ_self _)
  refine ⟨hreturns, ?_⟩
  intro packets hok
  obtain ⟨s, -, hleave⟩ := leaves_of_runFor hreturns
  have hpair : decoder.feed data = (.ok packets, (decoder.feed data).2) := by
    rw [← hok]
  rw [hpair] at hleave
  exact feedPass_leaves hleave

/-- Noise and the beginning of a header. -/
theorem feed_terminates_bounded_header :
    feedFor 4 {} [0x00, 0xA5, 0x01] = some (PacketDecoder.feed {} [0x00, 0xA5, 0x01]) ∧
      (PacketDecoder.feed {} [0x00, 0xA5, 0x01]).1 = .ok [] ∧
      Incomplete (PacketDecoder.feed {} [0x00, 0xA5, 0x01]).2.buffer := by
  obtain ⟨hpasses, hbounded⟩ := feed_terminates_bounded {} [0x00, 0xA5, 0x01]
  have hok : (PacketDecoder.feed {} [0x00, 0xA5, 0x01]).1 = .ok [] := by decide +kernel
  exact ⟨hpasses, hok, hbounded [] hok⟩

/-! ### A run of feeds -/

def feedStep (decoder : PacketDecoder) (data : List UInt8) : PacketDecoder := (decoder.feed data).2

/-- The feed returns, having been given no more than `size` bytes. -/
structure Returns (size : ℕ) (decoder : PacketDecoder) (data : List UInt8) : Prop where
  returned : ∃ packets, (decoder.feed data).1 = .ok packets
  chunk : data.length ≤ size

theorem feedStep_incomplete {decoder : PacketDecoder} {data : List UInt8} {packets : List Packet}
    (hok : (decoder.feed data).1 = .ok packets) : Incomplete (feedStep decoder data).buffer := by
  obtain ⟨s, -, hleave⟩ :=
    leaves_of_runFor (feedFor_returns decoder data (Nat.lt_succ_self _))
  rw [show decoder.feed data = (.ok packets, feedStep decoder data) from Prod.ext hok rfl] at hleave
  exact feedPass_leaves hleave

/-- Between feeds that return, the buffer is the beginning of a frame, and it never takes more
than that and the bytes of one chunk. -/
theorem buffer_bounded (size : ℕ) (chunks : List (List UInt8))
    (hreturns : EachStep feedStep (Returns size) {} chunks) :
    EachState feedStep (fun decoder => Incomplete decoder.buffer) {} chunks ∧
      EachStep feedStep (fun decoder data => (decoder.buffer ++ data).length ≤ 136 + size) {}
        chunks := by
  have hkeep : ∀ (decoder : PacketDecoder) (data : List UInt8),
      Incomplete decoder.buffer → Returns size decoder data →
      Incomplete (feedStep decoder data).buffer := by
    rintro decoder data - ⟨⟨packets, hok⟩, -⟩
    exact feedStep_incomplete hok
  have hinitial : Incomplete (PacketDecoder.buffer {}) := Or.inl rfl
  constructor
  · exact eachState_of_eachStep (I := fun decoder => Incomplete decoder.buffer) hkeep
      (fun _ h => h) hinitial hreturns
  · have hall : EachStep feedStep (fun _ _ => True) {} chunks :=
      eachStep_of_forall _ fun _ _ => trivial
    refine (eachStep_congr (T := Returns size) (I := fun decoder => Incomplete decoder.buffer)
      (fun decoder data hr hi => hkeep decoder data hi hr) ?_ hinitial hreturns).mp hall
    rintro decoder data ⟨-, hchunk⟩ hbuffer
    have hlength := incomplete_length hbuffer
    rw [List.length_append]
    exact iff_of_true trivial (by omega)

/-- A pass over a frame of a foreign type raises and leaves the buffer as it is. -/
theorem feedTurn_foreign {xs : List UInt8} {f : WireFrame.Frame} {k : ℕ}
    (haccept : hostAttempt FirmwareProtocol.crc16Ccitt startByte xs = .accept f k)
    (hforeign : ¬ Known f) :
    feedTurn (startByte :: xs) = .raised .valueError (startByte :: xs) := by
  have hreads := WireCompatibility.feedTurn_reads (startByte :: xs)
  generalize feedTurn (startByte :: xs) = turn at hreads
  cases hreads with
  | noise hno => exact absurd rfl (hno startByte List.mem_cons_self)
  | start pre ys turn hsplit hno hjudged =>
    rcases pre with - | ⟨b, pre⟩
    · obtain ⟨-, rfl⟩ := List.cons.inj hsplit
      cases turn with
      | stop rest => cases haccept.symm.trans hjudged.2
      | next rest => cases haccept.symm.trans hjudged.2
      | found packet rest =>
        obtain ⟨g, n, hg, hpacket, -⟩ := hjudged
        cases haccept.symm.trans hg
        exact absurd ((WireCompatibility.known_iff f).mpr ⟨packet, hpacket⟩) hforeign
      | raised error rest =>
        obtain ⟨rfl, rfl, -⟩ := hjudged
        rfl
    · obtain ⟨hb, -⟩ := List.cons.inj hsplit
      exact absurd hb.symm (hno b List.mem_cons_self)

/-- A frame of a foreign type at the front is never passed, so that nothing bounds what gathers
behind it. -/
theorem poisoned_keeps {decoder : PacketDecoder} (h : Poisoned decoder) (data : List UInt8) :
    (decoder.feed data).2.buffer = decoder.buffer ++ data := by
  obtain ⟨xs, f, k, hbuffer, haccept, hforeign⟩ := h
  change decoder.buffer = startByte :: xs at hbuffer
  change hostAttempt FirmwareProtocol.crc16Ccitt startByte xs = .accept f k at haccept
  have hstill : hostAttempt FirmwareProtocol.crc16Ccitt startByte (xs ++ data) = .accept f k := by
    rw [← haccept]
    apply (WireFrame.hostAttempt_lawful FirmwareProtocol.crc16Ccitt).stable startByte xs data
    rw [haccept]
    intro hwait
    cases hwait
  have hturn := feedTurn_foreign hstill hforeign
  rw [PacketDecoder.feed, hbuffer, List.cons_append, feedLoop, hturn]

end DecoderBounds
