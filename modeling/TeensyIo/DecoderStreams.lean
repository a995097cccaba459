import TeensyIo.FramingRecovery
import Mathlib.Data.List.TakeWhile

/-! # The decoder on any stream

Nothing is assumed of the bytes. What the decoder decides it never revises, so it does not
matter how a stream is cut; what it returns stands in the stream; and after noise it finds
the next packet once no announced payload can reach past the bytes that have arrived. -/
namespace DecoderStreams

open WireCommands WireFrame StreamScanner WireCompatibility
open HostProtocol (Packet PyError PacketDecoder Turn feedTurn feedLoop feedTurn_shortens
  encodePacket)
open FramingRecovery (framesIn Poisoned infix_of_mem_framesIn)
open FirmwareProtocol (crc16Ccitt)

/-! ### Cutting a stream -/

/-- The decoder after some feeds; one that raised has left its buffer behind. -/
def decoderAfter (history : List (List UInt8)) : PacketDecoder :=
  history.foldl (fun decoder data => (decoder.feed data).2) {}

/-- A feed that returns has met no foreign type. -/
theorem known_of_feed {decoder after : PacketDecoder} {data : List UInt8} {ps : List Packet}
    (h : decoder.feed data = (.ok ps, after)) :
    ∀ f ∈ (scan (hostAttempt crc16Ccitt) 0 (decoder.buffer ++ data)).1, Known f := by
  by_contra hunknown
  push Not at hunknown
  have hraise : (decoder.feed data).1 = .error .valueError :=
    (feedLoop_raises (decoder.buffer ++ data) [] hunknown).1
  rw [h] at hraise
  cases hraise

theorem feed_twice {decoder after : PacketDecoder} {s t : List UInt8} {ps : List Packet}
    (h : decoder.feed (s ++ t) = (.ok ps, after)) :
    ∃ now later middle, decoder.feed s = (.ok now, middle) ∧
      middle.feed t = (.ok later, after) ∧ now ++ later = ps := by
  have hknown := known_of_feed h
  have hsplit := scan_append (hostAttempt_lawful crc16Ccitt) (decoder.buffer ++ s) t 0
    (Nat.zero_le _)
  rw [feed_eq decoder (s ++ t) hknown, Prod.mk.injEq] at h
  rw [← List.append_assoc, hsplit] at h hknown
  obtain ⟨hps, rfl⟩ := h
  have hfirst := feed_eq decoder s fun f hf => hknown f (List.mem_append_left _ hf)
  have hsecond := feed_eq ⟨(scan (hostAttempt crc16Ccitt) 0 (decoder.buffer ++ s)).2⟩ t
    fun f hf => hknown f (List.mem_append_right _ hf)
  refine ⟨_, _, _, hfirst, hsecond, ?_⟩
  rw [← List.filterMap_append]
  exact Except.ok.inj hps

/-- Every frame in the buffer has been taken, or the first has a foreign type. -/
def Settled (decoder : PacketDecoder) : Prop :=
  scan (hostAttempt crc16Ccitt) 0 decoder.buffer = ([], decoder.buffer) ∨ Poisoned decoder

theorem feed_settled (decoder : PacketDecoder) (data : List UInt8) :
    Settled (decoder.feed data).2 := by
  by_cases hknown : ∀ f ∈ (scan (hostAttempt crc16Ccitt) 0 (decoder.buffer ++ data)).1, Known f
  · rw [feed_eq decoder data hknown]
    exact Or.inl (scan_leftover _ (scan_rest _ 0 (decoder.buffer ++ data)))
  · push Not at hknown
    exact Or.inr (feedLoop_raises (decoder.buffer ++ data) [] hknown).2

theorem decoderAfter_settled (history : List (List UInt8)) : Settled (decoderAfter history) := by
  induction history using List.reverseRecOn with
  | nil => exact Or.inl rfl
  | append_singleton history data ih =>
    rw [decoderAfter, List.foldl_append]
    exact feed_settled _ data

theorem feed_nothing {decoder after : PacketDecoder} {ps : List Packet} (hs : Settled decoder)
    (h : decoder.feed [] = (.ok ps, after)) : ps = [] ∧ after = decoder := by
  have hknown := known_of_feed h
  rcases hs with hs | hpoison
  · rw [feed_eq decoder [] hknown, List.append_nil, hs, Prod.mk.injEq] at h
    obtain ⟨hps, rfl⟩ := h
    exact ⟨(Except.ok.inj hps).symm, rfl⟩
  · have hraise := (FramingRecovery.feed_poisoned hpoison []).1
    rw [h] at hraise
    cases hraise

theorem feedAll_flatten (chunks : List (List UInt8)) {decoder after : PacketDecoder}
    {ps : List Packet} (hs : Settled decoder)
    (h : decoder.feed chunks.flatten = (.ok ps, after)) :
    feedAll decoder chunks = some (ps, after) := by
  induction chunks generalizing decoder ps with
  | nil =>
    obtain ⟨rfl, rfl⟩ := feed_nothing hs h
    rfl
  | cons c cs ih =>
    obtain ⟨now, later, middle, hnow, hlater, rfl⟩ := feed_twice h
    have hmiddle : Settled middle := by
      have := feed_settled decoder c
      rwa [hnow] at this
    simp only [feedAll, hnow, ih hmiddle hlater]
    rfl

/-- Whatever a decoder has been through and whatever it is given: cut in two or in any number of
pieces, a stream that can be fed at once gives the same packets and leaves the same buffer. -/
theorem fragmentation_invariant (history : List (List UInt8)) (stream : List UInt8)
    (ps : List Packet) (after : PacketDecoder)
    (h : (decoderAfter history).feed stream = (.ok ps, after)) :
    (∀ s t, s ++ t = stream → ∃ now later middle,
      (decoderAfter history).feed s = (.ok now, middle) ∧
      middle.feed t = (.ok later, after) ∧ now ++ later = ps) ∧
    (∀ chunks : List (List UInt8), chunks.flatten = stream →
      feedAll (decoderAfter history) chunks = some (ps, after)) := by
  constructor
  · rintro s t rfl
    exact feed_twice h
  · rintro chunks rfl
    exact feedAll_flatten chunks (decoderAfter_settled history) h

/-- A false header that announces a payload, cut inside it, with the tail of a packet before. -/
theorem fragmentation_invariant_false_header :
    let tail : List UInt8 := (firmwareBytes ⟨.ack, 7, [0]⟩).drop 4
    let stream := [0xA5, 0x01, 0x13, 0, 0, 1, 0] ++ firmwareBytes ⟨.ack, 7, [0]⟩
    feedAll (decoderAfter [tail]) [stream.take 6, (stream.drop 6).take 5, stream.drop 11] =
      some ([⟨.ack, 7, [0]⟩], {}) := by
  intro tail stream
  have htail : decoderAfter [tail] = {} := by
    have := feed_eq {} tail (by decide +kernel)
    rw [decoderAfter, List.foldl_cons, this]
    decide +kernel
  have hfeed : (decoderAfter [tail]).feed stream = (.ok [⟨.ack, 7, [0]⟩], {}) := by
    rw [htail, feed_eq {} stream (by decide +kernel)]
    decide +kernel
  exact (fragmentation_invariant [tail] stream _ _ hfeed).2 _ (by decide +kernel)

/-! ### Where the packets come from -/

/-- The loop of `feed` with the place of each packet it takes: `place` is the place of the
buffer's first byte in the stream. -/
def placedLoop (place : ℕ) (buffer : List UInt8) : List (ℕ × Packet) :=
  match _h : feedTurn buffer with
  | .stop _ => []
  | .next rest => placedLoop (place + (buffer.length - rest.length)) rest
  | .found packet rest =>
    (place + (buffer.length - rest.length) - (1 + 6 + packet.payload.length + 2), packet) ::
      placedLoop (place + (buffer.length - rest.length)) rest
  | .raised _ _ => []
termination_by buffer.length
decreasing_by
  all_goals
    have hs := feedTurn_shortens buffer
    rw [_h] at hs
    exact hs

/-- The packets of a stream for a fresh decoder, each with the place of its start byte. -/
def placedPackets (bytes : List UInt8) : List (ℕ × Packet) := placedLoop 0 bytes

/-- Without the places they are what the loop returns. -/
theorem placedLoop_returns (place : ℕ) (buffer : List UInt8) (packets ps : List Packet)
    (h : (feedLoop buffer packets).1 = .ok ps) :
    ps = packets ++ (placedLoop place buffer).map Prod.snd := by
  fun_induction feedLoop buffer packets generalizing place with
  | case1 buffer packets rest ht =>
    rw [placedLoop, ht]
    simpa using (Except.ok.inj h).symm
  | case2 buffer packets rest ht ih =>
    rw [placedLoop, ht]
    exact ih _ h
  | case3 buffer packets packet rest ht ih =>
    rw [placedLoop, ht, List.map_cons, ih _ h, List.append_assoc, List.singleton_append]
  | case4 buffer packets error rest ht => cases h

theorem scanAt_noise {pre : List UInt8} (h : ∀ b ∈ pre, b ≠ startByte) (xs : List UInt8)
    (place : ℕ) : scanAt (hostAttempt crc16Ccitt) place 0 (pre ++ xs) =
      scanAt (hostAttempt crc16Ccitt) (place + pre.length) 0 xs := by
  induction pre generalizing place with
  | nil => rfl
  | cons b pre ih =>
    have hb : hostAttempt crc16Ccitt b (pre ++ xs) = .reject 0 :=
      attempt_noise (h b List.mem_cons_self)
    have hplace : place + (b :: pre).length = place + 1 + pre.length := by
      rw [List.length_cons]
      omega
    rw [List.cons_append, scanAt_reject hb, hplace]
    exact ih (fun c hc => h c (List.mem_cons_of_mem b hc)) (place + 1)

theorem host_reencodes : Reencodes (hostAttempt crc16Ccitt) (Frame.encode crc16Ccitt) := by
  intro x xs f k ha
  obtain ⟨rfl, rfl, hc, h, rfl⟩ := attempt_accept.mp ha
  exact ⟨h.arrived, by rw [Frame.encode, body_frameIn h hc]⟩

/-- A packet with its place, for a frame with its place. -/
def placedPacket (e : ℕ × Frame) : Option (ℕ × Packet) := (toPacket e.2).map fun p => (e.1, p)

theorem length_payload_of_toPacket {f : Frame} {p : Packet} (h : toPacket f = some p) :
    p.payload.length = f.payload.length := by
  obtain ⟨t, -, rfl⟩ := Option.map_eq_some_iff.mp h
  rfl

def knownAt (e : ℕ × Frame) : Bool := decide (Known e.2)

/-- With the places the loop takes what the careful receiver finds before it meets a frame of a
foreign type. -/
theorem placedLoop_known (place : ℕ) (buffer : List UInt8) :
    placedLoop place buffer =
      ((scanAt (hostAttempt crc16Ccitt) place 0 buffer).takeWhile knownAt).filterMap
        placedPacket := by
  fun_induction placedLoop place buffer with
  | case1 place buffer rest ht =>
    have hf := feedTurn_follows buffer
    rw [ht] at hf
    rw [scanAt_eq_nil.mpr (congrArg Prod.fst hf)]
    rfl
  | case2 place buffer rest ht ih =>
    have hr := feedTurn_reads buffer
    rw [ht] at hr
    obtain - | ⟨pre, xs, _, rfl, hno, rfl, hj⟩ := hr
    rw [ih, scanAt_noise hno, scanAt_reject hj]
    congr 3
    simp only [List.length_append, List.length_cons]
    omega
  | case3 place buffer packet rest ht ih =>
    have hr := feedTurn_reads buffer
    rw [ht] at hr
    obtain - | ⟨pre, xs, _, rfl, hno, f, k, ha, hp, rfl⟩ := hr
    obtain ⟨hk, henc⟩ := host_reencodes startByte xs f k ha
    have hlen : 9 + packet.payload.length = k + 1 := by
      have := congrArg List.length henc
      rw [Frame.encode, List.length_cons, length_body, List.length_cons, List.length_take,
        Nat.min_eq_left hk, ← length_payload_of_toPacket hp] at this
      omega
    have hgone : (pre ++ startByte :: xs).length - (xs.drop k).length = pre.length + 1 + k := by
      rw [List.length_append, List.length_cons, List.length_drop]
      omega
    have hplaced : placedPacket (place + pre.length, f) = some (place + pre.length, packet) := by
      rw [placedPacket, hp]
      rfl
    have hknown : knownAt (place + pre.length, f) = true :=
      decide_eq_true ((known_iff f).mpr ⟨packet, hp⟩)
    rw [ih, scanAt_noise hno, scanAt_accept ha, List.takeWhile_cons_of_pos hknown,
      List.filterMap_cons_some hplaced, hgone, scanAt_drop _ _ k xs hk]
    congr 2
    · omega
    · congr 2
      omega
  | case4 place buffer e rest ht =>
    have hr := feedTurn_reads buffer
    rw [ht] at hr
    obtain - | ⟨pre, xs, _, rfl, hno, -, -, f, k, ha, hp⟩ := hr
    have hknown : ¬ knownAt (place + pre.length, f) = true := by
      rw [knownAt, decide_eq_true_eq]
      exact (unknown_iff f).mpr hp
    rw [scanAt_noise hno, scanAt_accept ha, List.takeWhile_cons_of_neg hknown]
    rfl

theorem mem_placedPackets {bytes : List UInt8} {e : ℕ × Packet} (h : e ∈ placedPackets bytes) :
    ∃ f, (e.1, f) ∈ scanAt (hostAttempt crc16Ccitt) 0 0 bytes := by
  rw [placedPackets, placedLoop_known] at h
  obtain ⟨⟨place, f⟩, hf, hplaced⟩ := List.mem_filterMap.mp h
  obtain ⟨p, -, rfl⟩ := Option.map_eq_some_iff.mp hplaced
  exact ⟨f, List.takeWhile_subset _ hf⟩

/-- No stretch of the bytes is a valid frame of a type the host does not know. -/
def NoForeignFrame (bytes : List UInt8) : Prop :=
  ∀ f : Frame, f.encode crc16Ccitt <:+: bytes → Known f

theorem placedPackets_eq {bytes : List UInt8} (h : NoForeignFrame bytes) :
    placedPackets bytes =
      (scanAt (hostAttempt crc16Ccitt) 0 0 bytes).filterMap placedPacket := by
  rw [placedPackets, placedLoop_known, List.takeWhile_eq_self_iff.mpr]
  intro e he
  have hfound : e.2 ∈ framesIn bytes := by
    rw [framesIn, ← scanAt_found _ 0]
    exact List.mem_map_of_mem he
  exact decide_eq_true (h e.2 (infix_of_mem_framesIn hfound))

theorem placedPackets_feed {bytes : List UInt8} (h : NoForeignFrame bytes) :
    (PacketDecoder.feed {} bytes).1 = .ok ((placedPackets bytes).map Prod.snd) := by
  have hfeed := feed_eq {} bytes fun f hf => h f (infix_of_mem_framesIn hf)
  have hreturns : (feedLoop bytes []).1 = (PacketDecoder.feed {} bytes).1 := rfl
  rw [hfeed] at hreturns ⊢
  rw [placedPackets, placedLoop_returns 0 bytes [] _ hreturns, List.nil_append]

theorem encodePacket_of_toPacket {f : Frame} {p : Packet} (h : toPacket f = some p) :
    encodePacket p = .ok (f.encode crc16Ccitt) := by
  obtain ⟨t, ht, rfl⟩ := Option.map_eq_some_iff.mp h
  rw [← firmwareBytes_of_toPacket h]
  exact encodePacket_sendable ⟨UInt16.toNat_lt f.seq, f.fits⟩

/-- The encoding of the packet stands in the bytes at its place. -/
def Stands (bytes : List UInt8) (e : ℕ × Packet) : Prop :=
  ∃ before block later, encodePacket e.2 = .ok block ∧ bytes = before ++ block ++ later ∧
    e.1 = before.length

/-- The encoding of the first ends before the second begins. -/
def Before (a b : ℕ × Packet) : Prop :=
  ∃ block, encodePacket a.2 = .ok block ∧ a.1 + block.length ≤ b.1

theorem placedPackets_stand {bytes : List UInt8} (h : NoForeignFrame bytes) :
    ∀ e ∈ placedPackets bytes, Stands bytes e := by
  rw [placedPackets_eq h]
  intro e he
  obtain ⟨⟨place, f⟩, hf, hplaced⟩ := List.mem_filterMap.mp he
  obtain ⟨p, hp, rfl⟩ := Option.map_eq_some_iff.mp hplaced
  obtain ⟨before, later, hbytes, hplace⟩ := scanAt_stands host_reencodes hf
  exact ⟨before, _, later, encodePacket_of_toPacket hp, hbytes, by simpa using hplace⟩

theorem placedPackets_disjoint {bytes : List UInt8} (h : NoForeignFrame bytes) :
    (placedPackets bytes).Pairwise Before := by
  rw [placedPackets_eq h]
  refine (scanAt_disjoint host_reencodes bytes 0 0).filterMap placedPacket ?_
  rintro ⟨i, f⟩ ⟨j, g⟩ hbefore a ha b hb
  obtain ⟨p, hp, rfl⟩ := Option.map_eq_some_iff.mp ha
  obtain ⟨q, -, rfl⟩ := Option.map_eq_some_iff.mp hb
  exact ⟨_, encodePacket_of_toPacket hp, hbefore⟩

/-! ### Coming back after noise -/

/-- With as many bytes as the longest frame has behind its start byte, no attempt waits. -/
theorem hostAttempt_decided {x : UInt8} {xs : List UInt8} (h : maxPayload + 8 ≤ xs.length) :
    hostAttempt crc16Ccitt x xs ≠ .wait := by
  intro hw
  rw [hostAttempt] at hw
  cases stage crc16Ccitt 8 x xs with
  | noise hx => simp [attempt_noise hx] at hw
  | short hl => omega
  | version hn hv => simp [attempt_version hn hv] at hw
  | header ho h6 => omega
  | oversize ho h6 hl => simp [attempt_oversize ho h6 hl] at hw
  | unfinished hh hl =>
    have := hh.announced_ok
    omega
  | corrupt ha hc => simp [attempt_corrupt ha hc] at hw
  | whole ha hc => simp [attempt_whole ha hc] at hw

/-- No valid frame begins inside the noise and ends behind it. -/
def Uncrossed (noise later : List UInt8) : Prop :=
  ∀ before (f : Frame) rest, noise ++ later = before ++ f.encode crc16Ccitt ++ rest →
    before.length < noise.length → before.length + (f.encode crc16Ccitt).length ≤ noise.length

/-- Behind noise no verdict waits for more or reaches past the noise. -/
theorem settles_noise {noise later : List UInt8} (hlater : maxPayload + 8 ≤ later.length)
    (hcross : Uncrossed noise later) (before : List UInt8) (x : UInt8) (xs : List UInt8)
    (hnoise : noise = before ++ x :: xs) : Settles (hostAttempt crc16Ccitt) later x xs := by
  unfold Settles
  cases ha : hostAttempt crc16Ccitt x (xs ++ later) with
  | wait =>
    refine hostAttempt_decided ?_ ha
    rw [List.length_append]
    omega
  | reject k =>
    have hk : k = 0 := (receivers_sameFrames crc16Ccitt).fine_reject x _ k ha
    exact hk ▸ Nat.zero_le _
  | accept f k =>
    obtain ⟨hk, henc⟩ := host_reencodes x _ f k ha
    have hends := hcross before f ((xs ++ later).drop k) (by
      rw [henc, hnoise, List.append_assoc, List.append_assoc, List.cons_append, List.cons_append,
        List.take_append_drop]) (by rw [hnoise, List.length_append, List.length_cons]; omega)
    rw [henc, hnoise, List.length_append, List.length_cons, List.length_cons, List.length_take,
      Nat.min_eq_left hk] at hends
    omega

/-- The packet as it comes back: its sequence number is sent modulo 2^16. -/
def asSent (p : Packet) : Packet := { p with seq := p.seq % 65536 }

theorem toPacket_asSent (p : Packet) (h : p.payload.length ≤ maxPayload) :
    toPacket (frameOf p h) = some (asSent p) := by
  rw [toPacket, frameOf, PacketType.ofByte_toByte]
  simp [asSent]

theorem placedPackets_after_noise {noise block post : List UInt8} {p : Packet}
    (hknown : NoForeignFrame (noise ++ block ++ post)) (hp : encodePacket p = .ok block)
    (hpost : 127 ≤ post.length) (hcross : Uncrossed noise (block ++ post)) :
    (noise.length, asSent p) ∈ placedPackets (noise ++ block ++ post) := by
  rw [placedPackets_eq hknown, List.append_assoc]
  have hfits : p.payload.length ≤ maxPayload := by
    by_contra hlong
    have hover : p.payload.length > HostProtocol.maxPayloadSize := Nat.lt_of_not_le hlong
    rw [encodePacket, if_pos hover] at hp
    cases hp
  rw [encodePacket_eq p hfits] at hp
  obtain rfl := Except.ok.inj hp
  have hlong : maxPayload + 8 ≤ ((frameOf p hfits).encode crc16Ccitt ++ post).length := by
    rw [List.length_append, Frame.encode, List.length_cons, length_body, maxPayload]
    omega
  obtain ⟨found, hfound⟩ := scanAt_past noise 0 0 (Nat.zero_le _) (settles_noise hlong hcross)
  obtain ⟨x, xs, hx, ha⟩ := hostAttempt_encodes crc16Ccitt (frameOf p hfits)
  rw [hfound, hx, List.cons_append, scanAt_accept (ha post), Nat.zero_add, List.filterMap_append]
  apply List.mem_append_right
  have hplaced : placedPacket (noise.length, frameOf p hfits) = some (noise.length, asSent p) := by
    rw [placedPacket, toPacket_asSent p hfits]
    rfl
  rw [List.filterMap_cons_some hplaced]
  exact List.mem_cons_self

/-- What the decoder returns stands in the stream, block behind block; and behind noise that no
valid frame crosses it returns the next packet if 127 bytes follow. -/
theorem decoder_sound_and_recovers (bytes : List UInt8) (hknown : NoForeignFrame bytes) :
    ((PacketDecoder.feed {} bytes).1 = .ok ((placedPackets bytes).map Prod.snd) ∧
      (∀ e ∈ placedPackets bytes, Stands bytes e) ∧ (placedPackets bytes).Pairwise Before) ∧
    ∀ noise block post p, bytes = noise ++ block ++ post → encodePacket p = .ok block →
      127 ≤ post.length → Uncrossed noise (block ++ post) →
      (noise.length, asSent p) ∈ placedPackets bytes := by
  constructor
  · exact ⟨placedPackets_feed hknown, placedPackets_stand hknown, placedPackets_disjoint hknown⟩
  · rintro noise block post p rfl hp hpost hcross
    exact placedPackets_after_noise hknown hp hpost hcross

/-- A stray start byte before an acknowledgement. -/
theorem decoder_sound_and_recovers_stray :
    (1, (⟨.ack, 7, [0]⟩ : Packet)) ∈
      placedPackets ([0xA5] ++ firmwareBytes ⟨.ack, 7, [0]⟩ ++ List.replicate 127 0) := by
  have hknown : NoForeignFrame
      ([0xA5] ++ firmwareBytes ⟨.ack, 7, [0]⟩ ++ List.replicate 127 0) :=
    FramingRecovery.known_of_headers (by decide +kernel)
  have hcross : Uncrossed [0xA5] (firmwareBytes ⟨.ack, 7, [0]⟩ ++ List.replicate 127 0) := by
    rintro before f rest hbytes hlt
    obtain rfl : before = [] := List.length_eq_zero_iff.mp (Nat.lt_one_iff.mp hlt)
    -- the byte behind the stray start byte is no version
    have hversion : (0xA5 : UInt8) = version := congrArg (byteAt · 1) hbytes
    exact absurd hversion (by decide)
  exact (decoder_sound_and_recovers _ hknown).2 [0xA5] _ _ ⟨.ack, 7, [0]⟩ rfl
    (encodePacket_sendable ⟨by decide, by decide⟩) (by simp) hcross

end DecoderStreams
