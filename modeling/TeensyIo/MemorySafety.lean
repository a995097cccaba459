import TeensyIo.CommandBounds
import TeensyIo.FirmwareExchange

/-! # Memory safety of the firmware

No access of the checked firmware leaves its array, no divisor is zero and every loop ends, in
every run from boot. What it computes on the way is what the firmware computes. -/
namespace MemorySafety

open WireCommands FirmwareState FirmwareRing CheckedMemory CheckedCommands FirmwareBounds
open CommandBounds FirmwareExchange MachineRuns
open FirmwareProtocol (Packet PacketParser PacketWriter.encodedSize kMaxPayloadSize)

variable {b : Board} {s : State}

/-! ### The ring -/

theorem advance_eq (i : UInt8) : advance i = some (FirmwareUpdate.advance i) :=
  remainder_of_ne (by decide) _

theorem popOldest_bounds (h : InBounds b s) (hsome : 0 < s.outboundCount.toNat) :
    InBounds b (FirmwareUpdate.popOldest s) :=
  { h with
    outbound := blank_store h.outbound h.ring.head_lt {}
    ring := popOldest_sound h.ring hsome
    frames := fun i => by
      dsimp only [FirmwareUpdate.popOldest]
      by_cases hi : i = s.outboundHead
      · rw [hi, setAt_self]
        exact Nat.zero_le _
      · rw [setAt_of_ne hi]
        exact h.frames i }

theorem popOldest_eq (h : InBounds b s) : popOldest s = some (FirmwareUpdate.popOldest s) := by
  rw [popOldest, store_eq (m := outbound) h.ring.head_lt]
  dsimp only [Option.bind_eq_bind, Option.bind_some]
  rw [advance_eq]
  rfl

/-- A frame is put into the ring once there is room. -/
theorem pushFrame_bounds (h : InBounds b s)
    (hroom : s.outboundCount.toNat < kAsyncOutboundFrames.toNat) {frame : OutboundFrame}
    (hfits : frame.payload.length ≤ kMaxPayloadSize) : InBounds b (pushFrame s frame) :=
  { h with
    outbound := blank_store h.outbound h.ring.tail_lt frame
    ring := pushFrame_sound h.ring hroom frame
    frames := fun i => by
      dsimp only [pushFrame]
      by_cases hi : i = s.outboundTail
      · rw [hi, setAt_self]
        exact hfits
      · rw [setAt_of_ne hi]
        exact h.frames i }

theorem makeRoom_eq (h : InBounds b s) :
    let t := if s.outboundCount ≥ kAsyncOutboundFrames then FirmwareUpdate.dropOldest s else s
    makeRoom s = some t ∧ InBounds b t := by
  dsimp only [makeRoom]
  split_ifs with hfull
  · have hsome : 0 < s.outboundCount.toNat :=
      Nat.lt_of_lt_of_le (by decide : 0 < kAsyncOutboundFrames.toNat)
        (UInt8.le_iff_toNat_le.mp hfull)
    constructor
    · rw [dropOldest, popOldest_eq h]
      rfl
    · exact { popOldest_bounds h hsome with }
  · exact ⟨rfl, h⟩

theorem queueAsync_eq (h : InBounds b s) (type : PacketType) {payload : List UInt8}
    (hfits : payload.length ≤ kMaxPayloadSize) :
    queueAsync s type payload payload.length = some (FirmwareUpdate.queueAsync s type payload) ∧
      InBounds b (FirmwareUpdate.queueAsync s type payload) := by
  obtain ⟨hmade, hbounds⟩ := makeRoom_eq h
  obtain ⟨-, hroom⟩ := roomMade h.ring
  have hcopied : storeAll (List.replicate kMaxPayloadSize 0) 0 payload =
      some (payload ++ List.replicate (kMaxPayloadSize - payload.length) 0) := by
    have hstored := storeAll_append []
      (List.replicate (kMaxPayloadSize - payload.length) (0 : UInt8))
      (List.length_replicate (n := payload.length) (a := (0 : UInt8)))
    rw [List.nil_append, List.nil_append, List.replicate_append_replicate,
      Nat.add_sub_cancel' hfits] at hstored
    exact hstored
  rw [FirmwareRing.queueAsync_eq s hfits]
  refine ⟨?_, pushFrame_bounds hbounds hroom hfits⟩
  rw [queueAsync, if_neg (Nat.not_lt.mpr hfits)]
  have hloaded : loadFirst payload payload.length = some payload := by
    rw [loadFirst_of_le (Nat.le_refl _), List.take_length]
  simp only [hmade, hloaded, hcopied, Option.bind_eq_bind, Option.bind_some, advance_eq]
  rw [store_eq (m := outbound) hbounds.ring.tail_lt]
  rfl

/-! ### Flushing -/

/-- A frame of the ring fits into a packet. -/
theorem queuedFrame_eq (h : InBounds b s) (i : UInt8) :
    let slot := s.outbound i
    frame slot.type slot.seq slot.payload (UInt16.ofNat slot.payload.length) =
      some (.write slot.type slot.seq slot.payload) := by
  dsimp only
  have hfits : (s.outbound i).payload.length ≤ 128 := h.frames i
  have hsize : (UInt16.ofNat (s.outbound i).payload.length).toNat =
      (s.outbound i).payload.length := by
    rw [UInt16.toNat_ofNat']
    omega
  rw [frame_eq _ _ hsize.le (hsize.trans_le hfits), hsize, List.take_length]

/-- The loop writes what is left of its frames, which the recursion counts down; there are turns
to spare. -/
theorem flushLoop_eq (env : Env) (call spare : ℕ) {maxFrames : UInt8} (left : ℕ) {s : State}
    (h : InBounds b s) (written : UInt8) (hleft : written.toNat + left = maxFrames.toNat)
    (effects : List Effect) :
    let out := FirmwareUpdate.flushAsync env (call + written.toNat) left s
    (loop (flushTurn env call maxFrames) (spare + left + 1) (written, s, effects)).map Prod.snd =
        some (out.1, effects ++ out.2) ∧ InBounds b out.1 := by
  dsimp only
  induction left generalizing s written effects with
  | zero =>
    have hdone : written ≥ maxFrames := UInt8.le_iff_toNat_le.mpr (by omega)
    have hturn : flushTurn env call maxFrames (written, s, effects) =
        some (.leave (written, s, effects)) := if_pos (by simp [hdone])
    rw [loop, hturn, FirmwareUpdate.flushAsync, List.append_nil]
    exact ⟨rfl, h⟩
  | succ left ih =>
    have hmore : ¬ written ≥ maxFrames := fun hge => by
      have := UInt8.le_iff_toNat_le.mp hge
      omega
    have hwritten : (written + 1).toNat = written.toNat + 1 := by
      have := UInt8.toNat_lt maxFrames
      rw [UInt8.toNat_add]
      change (written.toNat + 1) % 256 = _
      omega
    rw [loop, FirmwareUpdate.flushAsync]
    dsimp only [flushTurn]
    by_cases hempty : s.outboundCount = 0
    · rw [if_pos hempty, if_pos (by simp [hempty]), List.append_nil]
      exact ⟨rfl, h⟩
    · have hsome : 0 < s.outboundCount.toNat := Nat.pos_of_ne_zero fun hzero =>
        hempty (UInt8.toNat_inj.mp hzero)
      rw [if_neg hempty, if_neg (by simp [hempty, hmore]),
        load_eq (m := outbound) h.ring.head_lt, outbound_table]
      dsimp only [Option.bind_eq_bind, Option.bind_some]
      split_ifs with hspace
      · rw [List.append_nil]
        exact ⟨rfl, h⟩
      · rw [queuedFrame_eq h s.outboundHead, popOldest_eq h]
        dsimp only [Option.bind_some]
        obtain ⟨hloop, hbounds⟩ := ih (popOldest_bounds h hsome) (written + 1) (by omega)
          (effects ++ [.write (s.outbound s.outboundHead).type (s.outbound s.outboundHead).seq
            (s.outbound s.outboundHead).payload])
        rw [hwritten, ← Nat.add_assoc] at hloop hbounds
        rw [List.append_assoc] at hloop
        exact ⟨hloop, hbounds⟩

theorem flushAsync_eq (h : InBounds b s) (env : Env) (call : ℕ) (maxFrames : UInt8) :
    flushAsync env s call maxFrames =
        some (FirmwareUpdate.flushAsync env call maxFrames.toNat s) ∧
      InBounds b (FirmwareUpdate.flushAsync env call maxFrames.toNat s).1 := by
  have hlt := UInt8.toNat_lt maxFrames
  have hturns : 256 = (255 - maxFrames.toNat) + maxFrames.toNat + 1 := by omega
  obtain ⟨hloop, hbounds⟩ := flushLoop_eq env call (255 - maxFrames.toNat) maxFrames.toNat h 0
    (Nat.zero_add _) []
  rw [← hturns] at hloop
  exact ⟨hloop, hbounds⟩

/-! ### Subscriptions -/

theorem storeSubscription_eq (h : InBounds b s) {i : UInt8} (hi : i < kMaxSubscriptions)
    (slot : SubscriptionSlot) :
    subscriptions.store s i slot =
        some { s with subscriptions := setAt s.subscriptions i slot } ∧
      InBounds b { s with subscriptions := setAt s.subscriptions i slot } :=
  ⟨store_eq (m := subscriptions) (UInt8.lt_iff_toNat_lt.mp hi) slot,
    h.withSubscription (UInt8.lt_iff_toNat_lt.mp hi) slot⟩

theorem noteChange_eq (h : InBounds b s) (env : Env) (i : UInt8) (value : Int32) :
    let slot := s.subscriptions i
    let t := if slot.flags &&& 0x01 != 0 && slot.hasLastValue && value != slot.lastValue &&
        FirmwareUpdate.shouldEmit slot value then
        FirmwareUpdate.queueAsync s .event
          (FirmwareUpdate.eventPayload slot value (env.micros i.toNat))
      else s
    noteChange env s i slot value = some t ∧ InBounds b t := by
  dsimp only [noteChange]
  split_ifs
  · have hfits : (FirmwareUpdate.eventPayload (s.subscriptions i) value
        (env.micros i.toNat)).length ≤ kMaxPayloadSize := (by decide : 10 ≤ 128)
    exact queueAsync_eq h .event hfits
  · exact ⟨rfl, h⟩

theorem noteValue_eq (h : InBounds b s) (env : Env) {i : UInt8} (hi : i < kMaxSubscriptions)
    (value : Int32) :
    noteValue env s i value = some (FirmwareUpdate.noteValue env s i value) ∧
      InBounds b (FirmwareUpdate.noteValue env s i value) := by
  obtain ⟨hnoted, hbounds⟩ := noteChange_eq h env i value
  obtain ⟨hstored, hafter⟩ := storeSubscription_eq hbounds hi
    { s.subscriptions i with lastValue := value, hasLastValue := true }
  refine ⟨?_, hafter⟩
  rw [noteValue, load_eq (m := subscriptions) (UInt8.lt_iff_toNat_lt.mp hi)]
  dsimp only [Option.bind_eq_bind, Option.bind_some]
  exact (congrArg (Option.bind · _) hnoted).trans hstored

theorem sendDue_eq (h : InBounds b s) (now : UInt32) {i : UInt8} (hi : i < kMaxSubscriptions)
    (value : Int32) :
    sendDue s now i value = some (FirmwareUpdate.sendDue s now i value) ∧
      InBounds b (FirmwareUpdate.sendDue s now i value) := by
  have hfits : (FirmwareUpdate.telemetryPayload (s.subscriptions i) value).length ≤
    kMaxPayloadSize := (by decide : 6 ≤ 128)
  obtain ⟨hqueued, hbounds⟩ := queueAsync_eq h .telemetry hfits
  rw [sendDue, load_eq (m := subscriptions) (UInt8.lt_iff_toNat_lt.mp hi), subscriptions_table]
  dsimp only [Option.bind_eq_bind, Option.bind_some, FirmwareUpdate.sendDue]
  split_ifs with hidle
  · exact ⟨rfl, h⟩
  · have hrate : (s.subscriptions i).rateHz.toUInt32 ≠ 0 := by
      intro hzero
      have hnat := congrArg UInt32.toNat hzero
      rw [UInt16.toNat_toUInt32] at hnat
      exact hidle (.inl (UInt16.toNat_inj.mp hnat))
    obtain ⟨hstored, hafter⟩ := storeSubscription_eq hbounds hi
      { s.subscriptions i with
        nextDueMs := now + FirmwareUpdate.intervalMs (s.subscriptions i).rateHz }
    refine ⟨?_, hafter⟩
    refine (congrArg (Option.bind · _) hqueued).trans ?_
    dsimp only [Option.bind_some]
    refine (congrArg (Option.bind · _) (divide_of_ne hrate 1000)).trans ?_
    exact hstored

theorem updateSubscription_eq (h : InBounds b s) (env : Env) (now : UInt32) {i : UInt8}
    (hi : i < kMaxSubscriptions) :
    updateSubscription b env s now i = some (FirmwareUpdate.updateSubscription b env now s i) ∧
      InBounds b (FirmwareUpdate.updateSubscription b env now s i) := by
  rw [updateSubscription, load_eq (m := subscriptions) (UInt8.lt_iff_toNat_lt.mp hi),
    subscriptions_table]
  dsimp only [Option.bind_eq_bind, Option.bind_some, FirmwareUpdate.updateSubscription]
  split_ifs
  · exact ⟨rfl, h⟩
  · rw [readResourceValue_eq, Option.bind_some]
    cases FirmwareCommands.readResourceValue b env s i.toNat (s.subscriptions i).kind
        (s.subscriptions i).id with
    | none => exact storeSubscription_eq h hi {}
    | some value =>
      obtain ⟨hnoted, hbounds⟩ := noteValue_eq h env hi value
      obtain ⟨hsent, hafter⟩ := sendDue_eq hbounds now hi value
      exact ⟨(congrArg (Option.bind · _) hnoted).trans hsent, hafter⟩

theorem updateSubscriptions_eq (h : InBounds b s) (env : Env) :
    updateSubscriptions b env s = some (FirmwareUpdate.updateSubscriptions b env s) ∧
      InBounds b (FirmwareUpdate.updateSubscriptions b env s) := by
  have hlt : kMaxSubscriptions.toNat < 256 := by decide
  have hloop := countTo_eq
    (f := fun s i => FirmwareUpdate.updateSubscription b env (env.millis 1) s (UInt8.ofNat i))
    (fun _ s => InBounds b s) hlt (fun i hi s hs => by
      have hplace : UInt8.ofNat i < kMaxSubscriptions := by
        rw [UInt8.lt_iff_toNat_lt, toNat_ofNat (m := subscriptions) hi]
        exact hi
      exact updateSubscription_eq hs env (env.millis 1) hplace) h
  rw [FirmwareUpdate.updateSubscriptions, indices, List.foldl_map]
  exact hloop

/-! ### An update -/

theorem safeOutputsOnExpiry_eq (b : Board) (env : Env) (s : State) :
    safeOutputsOnExpiry b s (FirmwareUpdate.checkWatchdog env s) =
      some (FirmwareUpdate.safeOutputsOnExpiry b env s) := by
  rw [safeOutputsOnExpiry, FirmwareUpdate.safeOutputsOnExpiry]
  split_ifs
  · exact applySafeOutputs_eq b _
  · rfl

theorem update_yields (h : InBounds b s) (env : Env) :
    Yields b (update b env s) (FirmwareUpdate.update b env s) := by
  obtain ⟨hfirst, hflushed⟩ := flushAsync_eq (h.withSafety (s.safety.update (env.millis 0))) env 0 8
  obtain ⟨hupdated, hsubscribed⟩ := updateSubscriptions_eq hflushed env
  obtain ⟨hsecond, hafter⟩ := flushAsync_eq hsubscribed env 8 8
  refine .bind (safeOutputsOnExpiry_eq b env s) (.bind hfirst (.bind hupdated ?_))
  exact .bind hsecond ⟨rfl, hafter⟩

/-! ### Interrupts -/

theorem counterTick_eq (h : InBounds b s) (env : Env) (id : UInt8) :
    counterTick env s id = some (FirmwareUpdate.counterTick env s id) ∧
      InBounds b (FirmwareUpdate.counterTick env s id) := by
  rw [counterTick, FirmwareUpdate.counterTick]
  by_cases hge : id ≥ kMaxCounters
  · rw [if_pos hge, if_pos (by simp [hge])]
    exact ⟨rfl, h⟩
  · have hid : id < kMaxCounters := UInt8.not_le.mp hge
    have hplace : id.toNat < counters.size := UInt8.lt_iff_toNat_lt.mp hid
    rw [if_neg hge, decide_eq_false hge, Bool.false_or, load_eq hplace]
    rw [counters_table]
    dsimp only [Option.bind_eq_bind, Option.bind_some]
    by_cases hactive : (!(s.counters id).active) = true
    · rw [if_pos hactive, if_pos hactive]
      exact ⟨rfl, h⟩
    · rw [if_neg hactive, if_neg hactive]
      exact ⟨store_eq hplace _, h.withCounter hid _⟩

/-- Two bits of either state make an index of the table. -/
theorem encoderDelta_eq (previous current : UInt8) :
    encoderDelta previous current = some (FirmwareUpdate.encoderDelta previous current) := by
  have hindex : (((previous &&& 0x03) <<< 2) ||| (current &&& 0x03)).toNat < 16 := by
    have hprevious : (previous &&& 0x03).toNat ≤ 3 := by
      rw [UInt8.toNat_and]
      exact Nat.and_le_right
    have hcurrent : (current &&& 0x03).toNat ≤ 3 := by
      rw [UInt8.toNat_and]
      exact Nat.and_le_right
    rw [UInt8.toNat_or, UInt8.toNat_shiftLeft]
    apply Nat.or_lt_two_pow (n := 4)
    · change (previous &&& 0x03).toNat <<< 2 % 256 < 16
      rw [Nat.shiftLeft_eq]
      omega
    · omega
  have hlength : (((previous &&& 0x03) <<< 2) ||| (current &&& 0x03)).toNat <
      encoderTable.length := hindex
  rw [encoderDelta, List.getElem?_eq_getElem hlength]
  exact congrArg some (List.getD_eq_getElem _ _ hlength).symm

theorem encoderTick_eq (h : InBounds b s) (env : Env) (id : UInt8) :
    encoderTick env s id = some (FirmwareUpdate.encoderTick env s id) ∧
      InBounds b (FirmwareUpdate.encoderTick env s id) := by
  rw [encoderTick, FirmwareUpdate.encoderTick]
  by_cases hge : id ≥ kMaxEncoders
  · rw [if_pos hge, if_pos (by simp [hge])]
    exact ⟨rfl, h⟩
  · have hid : id < kMaxEncoders := UInt8.not_le.mp hge
    have hplace : id.toNat < encoders.size := UInt8.lt_iff_toNat_lt.mp hid
    rw [if_neg hge, decide_eq_false hge, Bool.false_or, load_eq hplace]
    rw [encoders_table]
    dsimp only [Option.bind_eq_bind, Option.bind_some]
    split_ifs
    · exact ⟨rfl, h⟩
    · rw [encoderDelta_eq]
      exact ⟨store_eq hplace _, h.withEncoder hid _⟩

/-! ### Runs -/

/-- A step of the loop of `main.cpp` with all accesses checked. -/
def tryStep (b : Board) (e : Exchange) : Input → Option Exchange
  | .byte env x => do
    let (parser, emitted) ← CheckedProtocol.push e.parser x
    let e := { e with parser := parser }
    match emitted with
    | none => some e
    | some p => (handle b env e.state p).map { e with emitted := e.emitted ++ [p] }.record
  | .update env => (update b env e.state).map e.record
  | .counterTick env id => (counterTick env e.state id).map fun s => { e with state := s }
  | .encoderTick env id => (encoderTick env e.state id).map fun s => { e with state := s }

/-- What every run keeps: the parser runs on from its initial state, and the handler is within
bounds. -/
structure Safe (b : Board) (e : Exchange) : Prop where
  parser : ∃ pending, FirmwareProtocol.Tracks e.parser pending
  state : InBounds b e.state

theorem safe_initial (b : Board) : Safe b {} :=
  ⟨⟨[], .start {} rfl⟩, inBounds_initial b {}⟩

/-- A packet that comes out is no longer than its buffer. -/
theorem emitted_le {s : PacketParser} (hs : CheckedProtocol.Bounded s) {x : UInt8} {p : Packet}
    (h : (s.push x).2 = some p) : p.length.toNat ≤ kMaxPayloadSize := by
  cases hstate : s.state with
  | crcHi =>
    simp only [PacketParser.push, hstate] at h
    split_ifs at h
    obtain rfl := Option.some.inj h
    exact hs.length_le hstate
  | start =>
    simp only [PacketParser.push, hstate] at h
    split_ifs at h
  | lengthHi =>
    simp only [PacketParser.push, hstate] at h
    split_ifs at h
  | _ =>
    simp only [PacketParser.push, hstate] at h
    cases h

theorem Safe.step {b : Board} {e : Exchange} (h : Safe b e) (i : Input) :
    tryStep b e i = some (e.step b i) ∧ Safe b (e.step b i) := by
  obtain ⟨pending, htracks⟩ := h.parser
  have hbounded := CheckedProtocol.bounded_of_tracks htracks
  cases i with
  | byte env x =>
    have hparser : ∃ later, FirmwareProtocol.Tracks (e.parser.push x).1 later :=
      ⟨_, (FirmwareProtocol.push_simulates htracks x).1⟩
    rw [tryStep, CheckedProtocol.push_eq hbounded, Exchange.step]
    dsimp only [Option.bind_eq_bind, Option.bind_some]
    cases hemitted : (e.parser.push x).2 with
    | none => exact ⟨rfl, hparser, h.state⟩
    | some p =>
      obtain ⟨hhandled, hafter⟩ := handle_yields h.state env (emitted_le hbounded hemitted)
      refine ⟨?_, hparser, hafter⟩
      dsimp only
      rw [hhandled]
      rfl
  | update env =>
    obtain ⟨hupdated, hafter⟩ := update_yields h.state env
    refine ⟨?_, h.parser, hafter⟩
    rw [tryStep, hupdated]
    rfl
  | counterTick env id =>
    obtain ⟨hticked, hafter⟩ := counterTick_eq h.state env id
    refine ⟨?_, h.parser, hafter⟩
    rw [tryStep, hticked]
    rfl
  | encoderTick env id =>
    obtain ⟨hticked, hafter⟩ := encoderTick_eq h.state env id
    refine ⟨?_, h.parser, hafter⟩
    rw [tryStep, hticked]
    rfl

/-- Whatever bytes, updates and interrupts come in from boot, in whatever order: no access
leaves its array, nothing is divided by zero and every loop ends, and what is computed is what
the firmware computes; every active DAC stands on a configured bus, with a channel and a
resolution that make sense. -/
theorem memory_safe (b : Board) (inputs : List Input) :
    let e := after (Exchange.step b) {} inputs
    attempt (tryStep b) {} inputs = some e ∧
      ∀ id, (e.state.dacs id).active = true →
        id < kMaxDacs ∧ DacWorks e.state.i2cConfigured (e.state.dacs id) := by
  obtain ⟨hrun, hsafe⟩ := attempt_eq (fun e i (h : Safe b e) => h.step i) (safe_initial b)
    inputs
  refine ⟨hrun, fun id hactive => ⟨?_, hsafe.state.working id hactive⟩⟩
  by_contra hid
  have hblank : (after (Exchange.step b) {} inputs).state.dacs id = {} :=
    hsafe.state.dacs id (UInt8.le_iff_toNat_le.mp (UInt8.not_lt.mp hid))
  rw [hblank] at hactive
  cases hactive

end MemorySafety
