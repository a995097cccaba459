import TeensyIo.FirmwareResponses
import TeensyIo.RingBuffers

/-! # The ring as a queue

The bytes that count in the ring never leave their bounds, and `queue_async` and `flush_async`
are the two ends of a queue. -/
namespace FirmwareRing

open WireCommands FirmwareState FirmwareUpdate FirmwareResponses RingBuffers
open FirmwareProtocol (PacketWriter.encodedSize kMaxPayloadSize)

/-- The frames in the ring, the oldest first. -/
def queued (s : State) : List OutboundFrame :=
  contents UInt8.ofNat kAsyncOutboundFrames.toNat s.outbound s.outboundHead.toNat
    s.outboundCount.toNat

def RingSound (s : State) : Prop :=
  Sound kAsyncOutboundFrames.toNat s.outboundHead.toNat s.outboundTail.toNat s.outboundCount.toNat

theorem ringSound_initial : RingSound {} := ⟨by decide, by decide, by decide⟩

theorem queued_length (s : State) : (queued s).length = s.outboundCount.toNat :=
  contents_length _

theorem ofNat_injOn : Set.InjOn UInt8.ofNat (Set.Iio kAsyncOutboundFrames.toNat) := by
  intro i hi j hj hij
  have hi : i < 64 := hi
  have hj : j < 64 := hj
  have hnat := congrArg UInt8.toNat hij
  rw [UInt8.toNat_ofNat', UInt8.toNat_ofNat'] at hnat
  omega

theorem advance_toNat {i : UInt8} (h : i.toNat < kAsyncOutboundFrames.toNat) :
    (advance i).toNat = (i.toNat + 1) % kAsyncOutboundFrames.toNat := by
  have hlt : i.toNat < 64 := h
  rw [advance, UInt8.toNat_mod, UInt8.toNat_add]
  change (i.toNat + 1) % 256 % 64 = (i.toNat + 1) % 64
  omega

section Pop

variable {s : State}

/-- The count is not zero, so that it does not wrap around. -/
theorem count_pop (h : 0 < s.outboundCount.toNat) :
    (s.outboundCount - 1).toNat = s.outboundCount.toNat - 1 :=
  UInt8.toNat_sub_of_le _ _ (UInt8.le_iff_toNat_le.mpr h)

theorem popOldest_sound (hs : RingSound s) (hsome : 0 < s.outboundCount.toNat) :
    RingSound (popOldest s) := by
  have hpop := Sound.pop hs hsome
  rw [← advance_toNat hs.head_lt, ← count_pop hsome] at hpop
  exact hpop

theorem popOldest_queued (hs : RingSound s) (hsome : 0 < s.outboundCount.toNat) :
    queued s = s.outbound s.outboundHead :: queued (popOldest s) := by
  have hle := hs.count_le
  have hcount : s.outboundCount.toNat = (s.outboundCount.toNat - 1) + 1 := by omega
  have hhead : UInt8.ofNat (s.outboundHead.toNat % kAsyncOutboundFrames.toNat) =
      s.outboundHead := by
    rw [Nat.mod_eq_of_lt hs.head_lt, UInt8.ofNat_toNat]
  have hclear := contents_pop_update ofNat_injOn s.outboundHead.toNat
    (by omega : s.outboundCount.toNat - 1 < kAsyncOutboundFrames.toNat) s.outbound {}
  rw [hhead] at hclear
  rw [queued, hcount, contents_pop, hhead]
  congr 1
  rw [queued, popOldest]
  dsimp only
  rw [advance_toNat hs.head_lt, count_pop hsome]
  exact hclear.symm

theorem dropOldest_sound (hs : RingSound s) (hsome : 0 < s.outboundCount.toNat) :
    RingSound (dropOldest s) := popOldest_sound hs hsome

end Pop

section Push

variable {s : State} {type : PacketType} {payload : List UInt8}

/-- The frame of `queue_async`. -/
def asyncFrame (type : PacketType) (payload : List UInt8) : OutboundFrame :=
  { active := true, type := type, seq := 0, payload := payload }

/-- What `queue_async` does with a payload that fits once there is room. -/
def pushFrame (s : State) (frame : OutboundFrame) : State :=
  { s with
    outbound := setAt s.outbound s.outboundTail frame
    outboundTail := advance s.outboundTail
    outboundCount := s.outboundCount + 1 }

theorem count_push (h : s.outboundCount.toNat < kAsyncOutboundFrames.toNat) :
    (s.outboundCount + 1).toNat = s.outboundCount.toNat + 1 := by
  have hlt : s.outboundCount.toNat < 64 := h
  rw [UInt8.toNat_add]
  change (s.outboundCount.toNat + 1) % 256 = _
  omega

theorem pushFrame_sound (hs : RingSound s)
    (hroom : s.outboundCount.toNat < kAsyncOutboundFrames.toNat) (frame : OutboundFrame) :
    RingSound (pushFrame s frame) := by
  have hpush := Sound.push hs hroom
  rw [← advance_toNat hs.tail_lt, ← count_push hroom] at hpush
  exact hpush

theorem pushFrame_queued (hs : RingSound s)
    (hroom : s.outboundCount.toNat < kAsyncOutboundFrames.toNat) (frame : OutboundFrame) :
    queued (pushFrame s frame) = queued s ++ [frame] := by
  have htail : UInt8.ofNat ((s.outboundHead.toNat + s.outboundCount.toNat) %
      kAsyncOutboundFrames.toNat) = s.outboundTail := by
    rw [← hs.tail_eq, UInt8.ofNat_toNat]
  have hpush := contents_push ofNat_injOn s.outboundHead.toNat hroom s.outbound frame
  rw [htail, ← count_push hroom] at hpush
  exact hpush

theorem queueAsync_eq (s : State) (hfits : payload.length ≤ kMaxPayloadSize) :
    queueAsync s type payload =
      pushFrame (if s.outboundCount ≥ kAsyncOutboundFrames then dropOldest s else s)
        (asyncFrame type payload) := by
  rw [queueAsync, if_neg (by omega)]
  rfl

/-- There is room once a full ring has given up its oldest frame. -/
theorem roomMade (hs : RingSound s) :
    let t := if s.outboundCount ≥ kAsyncOutboundFrames then dropOldest s else s
    RingSound t ∧ t.outboundCount.toNat < kAsyncOutboundFrames.toNat := by
  dsimp only
  split_ifs with hfull
  · have hsome : kAsyncOutboundFrames.toNat ≤ s.outboundCount.toNat :=
      UInt8.le_iff_toNat_le.mp hfull
    have hpos : 0 < s.outboundCount.toNat :=
      Nat.lt_of_lt_of_le (by decide : 0 < kAsyncOutboundFrames.toNat) hsome
    have hle := hs.count_le
    refine ⟨dropOldest_sound hs hpos, ?_⟩
    have hcount : (dropOldest s).outboundCount.toNat = s.outboundCount.toNat - 1 := count_pop hpos
    omega
  · refine ⟨hs, Nat.lt_of_not_le fun hle => ?_⟩
    exact hfull (UInt8.le_iff_toNat_le.mpr hle)

theorem queueAsync_sound (hs : RingSound s) (type : PacketType) (payload : List UInt8) :
    RingSound (queueAsync s type payload) := by
  by_cases hfits : payload.length ≤ kMaxPayloadSize
  · obtain ⟨hsound, hroom⟩ := roomMade hs
    rw [queueAsync_eq s hfits]
    exact pushFrame_sound hsound hroom _
  · rw [queueAsync, if_pos (by omega)]
    exact hs

/-- Where there is room the frame is behind all others. -/
theorem queueAsync_queued (hs : RingSound s) (hfits : payload.length ≤ kMaxPayloadSize)
    (hroom : s.outboundCount.toNat < kAsyncOutboundFrames.toNat) :
    queued (queueAsync s type payload) = queued s ++ [asyncFrame type payload] := by
  have hnot : ¬ s.outboundCount ≥ kAsyncOutboundFrames := fun hfull =>
    Nat.not_le_of_lt hroom (UInt8.le_iff_toNat_le.mp hfull)
  rw [queueAsync_eq s hfits, if_neg hnot]
  exact pushFrame_queued hs hroom _

theorem queueAsync_subscriptions (s : State) (type : PacketType) (payload : List UInt8) :
    (queueAsync s type payload).subscriptions = s.subscriptions := by
  dsimp only [queueAsync]
  split_ifs <;> rfl

end Push

/-! ### Flushing -/

theorem flushAsync_sound (env : Env) (call n : ℕ) {s : State} (hs : RingSound s) :
    RingSound (flushAsync env call n s).1 := by
  induction n generalizing call s with
  | zero => exact hs
  | succ n ih =>
    dsimp only [flushAsync]
    split_ifs with hempty hspace
    · exact hs
    · exact hs
    · have hpos : 0 < s.outboundCount.toNat := Nat.pos_of_ne_zero fun hzero =>
        hempty (UInt8.toNat_inj.mp hzero)
      exact ih (call + 1) (popOldest_sound hs hpos)

def written (frame : OutboundFrame) : Written := ⟨frame.type, frame.seq, frame.payload⟩

/-- The frames that are written come off the front of the queue. -/
theorem flushAsync_queued (env : Env) (call n : ℕ) {s : State} (hs : RingSound s) :
    (queued s).map written = framesWritten (flushAsync env call n s).2 ++
      (queued (flushAsync env call n s).1).map written := by
  induction n generalizing call s with
  | zero => rfl
  | succ n ih =>
    dsimp only [flushAsync]
    split_ifs with hempty hspace
    · rfl
    · rfl
    · have hpos : 0 < s.outboundCount.toNat := Nat.pos_of_ne_zero fun hzero =>
        hempty (UInt8.toNat_inj.mp hzero)
      rw [popOldest_queued hs hpos, List.map_cons, ih (call + 1) (popOldest_sound hs hpos)]
      rfl

/-- With room for them all, nothing is left. -/
theorem flushAsync_empty (env : Env) (hroomy : ∀ call, 65535 ≤ env.availableForWrite call)
    (call : ℕ) {n : ℕ} {s : State} (hs : RingSound s) (hn : s.outboundCount.toNat ≤ n) :
    (flushAsync env call n s).1.outboundCount = 0 := by
  induction n generalizing call s with
  | zero => exact UInt8.toNat_inj.mp (Nat.le_zero.mp hn)
  | succ n ih =>
    dsimp only [flushAsync]
    split_ifs with hempty hspace
    · exact hempty
    · have hroom := hroomy call
      have hsize := (PacketWriter.encodedSize
        (UInt16.ofNat (s.outbound s.outboundHead).payload.length)).toNat_lt
      omega
    · have hpos : 0 < s.outboundCount.toNat := Nat.pos_of_ne_zero fun hzero =>
        hempty (UInt8.toNat_inj.mp hzero)
      refine ih (call + 1) (popOldest_sound hs hpos) ?_
      have hcount : (popOldest s).outboundCount.toNat = s.outboundCount.toNat - 1 :=
        count_pop hpos
      omega

theorem flushAsync_subscriptions (env : Env) (call n : ℕ) (s : State) :
    (flushAsync env call n s).1.subscriptions = s.subscriptions := by
  induction n generalizing call s with
  | zero => rfl
  | succ n ih =>
    dsimp only [flushAsync]
    split_ifs
    · rfl
    · rfl
    · exact ih (call + 1) (popOldest s)

/-! ### An update -/

theorem noteValue_sound (env : Env) {s : State} (hs : RingSound s) (i : UInt8) (value : Int32) :
    RingSound (noteValue env s i value) := by
  dsimp only [noteValue]
  split_ifs
  · exact queueAsync_sound hs _ _
  · exact hs

theorem sendDue_sound {s : State} (hs : RingSound s) (now : UInt32) (i : UInt8)
    (value : Int32) : RingSound (sendDue s now i value) := by
  dsimp only [sendDue]
  split_ifs
  · exact hs
  · exact queueAsync_sound hs _ _

theorem updateSubscription_sound (b : Board) (env : Env) (now : UInt32) {s : State}
    (hs : RingSound s) (i : UInt8) : RingSound (updateSubscription b env now s i) := by
  dsimp only [updateSubscription]
  split_ifs
  · exact hs
  · split
    · exact hs
    · exact sendDue_sound (noteValue_sound env hs i _) now i _

theorem updateSubscriptions_sound (b : Board) (env : Env) {s : State} (hs : RingSound s) :
    RingSound (updateSubscriptions b env s) := by
  unfold updateSubscriptions
  induction indices kMaxSubscriptions.toNat generalizing s with
  | nil => exact hs
  | cons i is ih => exact ih (updateSubscription_sound b env _ hs i)

theorem update_sound (b : Board) (env : Env) {s : State} (hs : RingSound s) :
    RingSound (update b env s).1 := by
  have hfirst : RingSound (flushAsync env 0 8 (checkWatchdog env s)).1 :=
    flushAsync_sound env 0 8 (s := checkWatchdog env s) hs
  exact flushAsync_sound env 8 8 (updateSubscriptions_sound b env hfirst)

theorem framesWritten_safeOutputsOnExpiry (b : Board) (env : Env) (s : State) :
    framesWritten (safeOutputsOnExpiry b env s) = [] := by
  refine framesWritten_none fun e he => ?_
  obtain ⟨pin, rfl⟩ := mem_safeOutputsOnExpiry he
  rfl

/-- An empty ring has nothing to send before the loop. -/
theorem update_empty (b : Board) (env : Env) {s : State} (hempty : s.outboundCount = 0) :
    let second := flushAsync env 8 8 (updateSubscriptions b env (checkWatchdog env s))
    update b env s = (second.1, safeOutputsOnExpiry b env s ++ second.2) := by
  have hfirst : flushAsync env 0 8 (checkWatchdog env s) = (checkWatchdog env s, []) := by
    rw [flushAsync]
    exact if_pos hempty
  rw [update]
  dsimp only
  rw [hfirst, List.nil_append]

/-- With an empty ring all that is written has been queued in the same update. -/
theorem update_queued (b : Board) (env : Env) {s : State} (hs : RingSound s)
    (hempty : s.outboundCount = 0) :
    (queued (updateSubscriptions b env (checkWatchdog env s))).map written =
      framesWritten (update b env s).2 ++ (queued (update b env s).1).map written := by
  rw [update_empty b env hempty, framesWritten_append, framesWritten_safeOutputsOnExpiry,
    List.nil_append]
  exact flushAsync_queued env 8 8 (updateSubscriptions_sound b env (s := checkWatchdog env s) hs)

end FirmwareRing
