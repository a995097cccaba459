import TeensyIo.BoundedQueues
import TeensyIo.FirmwareRing
import TeensyIo.MachineRuns

/-! # The outbound ring over whole runs

Every frame accepted since the last `ResetConfig` is entered in a book, and so is every frame
that leaves the ring, whether `flush_async` writes it or `queue_async` gives it up. -/
namespace OutboundQueue

open WireCommands FirmwareState FirmwareCommands FirmwareUpdate FirmwareResponses FirmwareRing
open BoundedQueues RingBuffers MachineRuns
open FirmwareProtocol (PacketWriter.encodedSize kMaxPayloadSize)

/-- What happens to the ring. -/
inductive Operation where
  | queueAsync (type : PacketType) (payload : List UInt8)
      (fits : payload.length ≤ kMaxPayloadSize)
  | flushAsync (env : Env) (call maxFrames : ℕ)
  | resetConfig (b : Board) (seq : UInt16)

/-- The firmware and the book of its frames. -/
structure Recorded where
  device : State := {}
  book : Book Written := {}

/-- The frame that `queue_async` clears from its slot to make room. -/
def evicted (s : State) : List Written :=
  if s.outboundCount ≥ kAsyncOutboundFrames then [written (s.outbound s.outboundHead)] else []

def step (r : Recorded) : Operation → Recorded
  | .queueAsync type payload _ =>
    { device := queueAsync r.device type payload
      book := (r.book.depart .lost (evicted r.device)).offer ⟨type, 0, payload⟩ }
  | .flushAsync env call maxFrames =>
    let result := flushAsync env call maxFrames r.device
    { device := result.1, book := r.book.depart .sent (framesWritten result.2) }
  | .resetConfig b seq => { device := (resetConfig b r.device seq).1 }

/-- The frames in the ring, as they would be written. -/
def held (s : State) : List Written := (queued s).map written

/-! ### One operation -/

section Operations

variable {s : State}

/-- The ring once `queue_async` has made room. -/
def withRoom (s : State) : State :=
  if s.outboundCount ≥ kAsyncOutboundFrames then dropOldest s else s

theorem full_pos (hfull : s.outboundCount ≥ kAsyncOutboundFrames) : 0 < s.outboundCount.toNat :=
  Nat.lt_of_lt_of_le (by decide : 0 < kAsyncOutboundFrames.toNat) (UInt8.le_iff_toNat_le.mp hfull)

/-- What makes room is the oldest frame. -/
theorem held_evicted (hs : RingSound s) : held s = evicted s ++ held (withRoom s) := by
  by_cases hfull : s.outboundCount ≥ kAsyncOutboundFrames
  · have hpop := popOldest_queued hs (full_pos hfull)
    rw [evicted, withRoom, if_pos hfull, if_pos hfull, held, hpop]
    rfl
  · rw [evicted, withRoom, if_neg hfull, if_neg hfull, List.nil_append]

theorem held_queueAsync (hs : RingSound s) (type : PacketType) {payload : List UInt8}
    (hfits : payload.length ≤ kMaxPayloadSize) :
    held (queueAsync s type payload) = held (withRoom s) ++ [⟨type, 0, payload⟩] := by
  obtain ⟨hsound, hroom⟩ := roomMade hs
  rw [queueAsync_eq s hfits, held, pushFrame_queued hsound hroom, List.map_append]
  rfl

theorem dropped_queueAsync (type : PacketType) {payload : List UInt8}
    (hfits : payload.length ≤ kMaxPayloadSize) :
    (queueAsync s type payload).outboundDropped =
      s.outboundDropped + UInt32.ofNat (evicted s).length := by
  rw [queueAsync_eq s hfits, evicted]
  by_cases hfull : s.outboundCount ≥ kAsyncOutboundFrames
  · rw [if_pos hfull, if_pos hfull]
    rfl
  · rw [if_neg hfull, if_neg hfull]
    exact (UInt32.add_zero _).symm

theorem dropped_flushAsync (env : Env) (call n : ℕ) (s : State) :
    (flushAsync env call n s).1.outboundDropped = s.outboundDropped := by
  induction n generalizing call s with
  | zero => rfl
  | succ n ih =>
    dsimp only [flushAsync]
    split_ifs
    · rfl
    · rfl
    · exact ih (call + 1) (popOldest s)

/-- The bytes a frame takes on the wire. -/
def frameSize (w : Written) : ℕ := 1 + 6 + w.payload.length + 2

theorem encodedSize_eq {n : ℕ} (h : n ≤ kMaxPayloadSize) :
    (PacketWriter.encodedSize (UInt16.ofNat n)).toNat = 1 + 6 + n + 2 := by
  have hn : n ≤ 128 := h
  have hlen : (UInt16.ofNat n).toNat = n := by
    rw [UInt16.toNat_ofNat', Nat.mod_eq_of_lt (by omega)]
  rw [PacketWriter.encodedSize, UInt16.toNat_add, UInt16.toNat_add, UInt16.toNat_add, hlen]
  change (((1 + 6) % 65536 + n) % 65536 + 2) % 65536 = _
  omega

/-- Before each frame is written the writer is asked and has room for all of it. -/
def RoomEach (env : Env) (call : ℕ) (frames : List Written) : Prop :=
  ∀ k w, frames[k]? = some w → frameSize w ≤ env.availableForWrite (call + k)

theorem flushAsync_room (env : Env) (call n : ℕ) {s : State} (hs : RingSound s)
    (hfits : ∀ w ∈ held s, w.payload.length ≤ kMaxPayloadSize) :
    RoomEach env call (framesWritten (flushAsync env call n s).2) := by
  induction n generalizing call s with
  | zero =>
    intro k w hw
    simp [flushAsync, framesWritten] at hw
  | succ n ih =>
    dsimp only [flushAsync]
    split_ifs with hempty hspace
    · intro k w hw
      simp [framesWritten] at hw
    · intro k w hw
      simp [framesWritten] at hw
    · have hpos : 0 < s.outboundCount.toNat := Nat.pos_of_ne_zero fun hzero =>
        hempty (UInt8.toNat_inj.mp hzero)
      rw [held, popOldest_queued hs hpos, List.map_cons] at hfits
      have hfirst := hfits _ List.mem_cons_self
      have hlater := ih (call + 1) (popOldest_sound hs hpos)
        fun w hw => hfits w (List.mem_cons_of_mem _ hw)
      intro k w hw
      cases k with
      | zero =>
        obtain rfl : written (s.outbound s.outboundHead) = w := Option.some.inj hw
        have hroom := Int.not_lt.mp hspace
        have hsize : (PacketWriter.encodedSize (UInt16.ofNat
            (s.outbound s.outboundHead).payload.length)).toNat = _ := encodedSize_eq hfirst
        rw [hsize] at hroom
        exact hroom
      | succ k =>
        rw [← Nat.add_assoc, Nat.add_right_comm]
        exact hlater k w hw

end Operations

/-! ### Runs -/

/-- Ring and book agree. -/
structure Consistent (r : Recorded) : Prop where
  sound : RingSound r.device
  balanced : r.book.Balanced (held r.device)
  dropped : r.device.outboundDropped = UInt32.ofNat (r.book.withFate .lost).length
  fits : ∀ w ∈ r.book.offered, w.payload.length ≤ kMaxPayloadSize

theorem consistent_initial : Consistent {} := by
  constructor
  · exact ringSound_initial
  · rfl
  · rfl
  · intro w hw
    cases hw

theorem Consistent.held_fits {r : Recorded} (h : Consistent r) :
    ∀ w ∈ held r.device, w.payload.length ≤ kMaxPayloadSize := by
  intro w hw
  apply h.fits
  rw [h.balanced]
  exact List.mem_append_right _ hw

theorem Consistent.step {r : Recorded} (h : Consistent r) (op : Operation) :
    Consistent (step r op) := by
  cases op with
  | queueAsync type payload fits =>
    have hheld := held_evicted h.sound
    constructor
    · exact queueAsync_sound h.sound type payload
    · have hroom : (r.book.depart .lost (evicted r.device)).Balanced (held (withRoom r.device)) :=
        Book.Balanced.depart (hheld ▸ h.balanced) .lost
      have hnew := held_queueAsync h.sound type fits
      change Book.Balanced _ (held (queueAsync r.device type payload))
      rw [hnew]
      exact hroom.offer _
    · change (queueAsync r.device type payload).outboundDropped = _
      rw [dropped_queueAsync type fits, h.dropped, ← UInt32.ofNat_add]
      congr 1
      rw [OutboundQueue.step, Book.withFate_offer, Book.withFate_depart_self, List.length_append]
    · intro w hw
      rcases List.mem_append.mp hw with hw | hw
      · exact h.fits w hw
      · obtain rfl := List.mem_singleton.mp hw
        exact fits
  | flushAsync env call maxFrames =>
    constructor
    · exact flushAsync_sound env call maxFrames h.sound
    · have hheld := flushAsync_queued env call maxFrames h.sound
      exact Book.Balanced.depart (hheld ▸ h.balanced) .sent
    · change (flushAsync env call maxFrames r.device).1.outboundDropped = _
      rw [dropped_flushAsync, h.dropped, OutboundQueue.step,
        Book.withFate_depart_of_ne (by decide)]
    · exact h.fits
  | resetConfig b seq =>
    constructor
    · exact ringSound_initial
    · rfl
    · rfl
    · intro w hw
      cases hw

theorem consistent_after (ops : List Operation) : Consistent (after step {} ops) :=
  after_preserves (I := Consistent) (fun _ op h => h.step op) consistent_initial ops

/-- What an operation takes from the ring: `queue_async` only the oldest frame, `flush_async` only
frames for which there is room. -/
def TakesRightly (r : Recorded) : Operation → Prop
  | .queueAsync _ _ _ => ∀ w ∈ evicted r.device, (held r.device).head? = some w
  | .flushAsync env call maxFrames =>
    RoomEach env call (framesWritten (flushAsync env call maxFrames r.device).2)
  | .resetConfig _ _ => True

theorem Consistent.takesRightly {r : Recorded} (h : Consistent r) (op : Operation) :
    TakesRightly r op := by
  cases op with
  | queueAsync type payload fits =>
    intro w hw
    rw [held_evicted h.sound]
    unfold evicted at hw ⊢
    split_ifs at hw ⊢ with hfull
    · obtain rfl := List.mem_singleton.mp hw
      rfl
    · cases hw
  | flushAsync env call maxFrames => exact flushAsync_room env call maxFrames h.sound h.held_fits
  | resetConfig b seq => trivial

/-- The ring is a queue of 64 frames that loses its oldest: over every run from boot its indices
stay right; since the last reset each frame has left in the order in which it came or is still
held, was written at most once, unaltered and with room for all of it, or was the oldest when it
was lost; and the counter of lost frames is right modulo 2^32. -/
theorem drop_oldest_queue (ops : List Operation) :
    let r := after step {} ops
    (r.device.outboundTail.toNat =
        (r.device.outboundHead.toNat + r.device.outboundCount.toNat) % 64 ∧
      r.device.outboundCount.toNat ≤ 64) ∧
    r.book.offered = r.book.departed.map Prod.snd ++ held r.device ∧
    (r.book.withFate .sent).Sublist r.book.offered ∧
    UInt32.ofNat r.book.offered.length =
      UInt32.ofNat (r.book.withFate .sent).length + UInt32.ofNat r.device.outboundCount.toNat +
        r.device.outboundDropped ∧
    EachStep step TakesRightly {} ops := by
  have h := consistent_after ops
  refine ⟨⟨h.sound.tail_eq, h.sound.count_le⟩, h.balanced, h.balanced.sent_sublist .sent, ?_, ?_⟩
  · have hcount := h.balanced.count
    have hlen : (held (after step {} ops).device).length =
        (after step {} ops).device.outboundCount.toNat := by
      rw [held, List.length_map, queued_length]
    rw [h.dropped, hcount, hlen, UInt32.ofNat_add, UInt32.ofNat_add]
  · rw [eachStep_iff]
    intro before op later _
    exact (consistent_after before).takesRightly op

end OutboundQueue
