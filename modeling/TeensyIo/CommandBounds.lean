import TeensyIo.FirmwareBounds

/-! # Commands within bounds

Every handler of the checked firmware yields what the handler of the firmware does. -/
namespace CommandBounds

open WireCommands FirmwareState CheckedMemory CheckedCommands FirmwareBounds
open FirmwareProtocol (Packet kMaxPayloadSize)

variable {b : Board} {s : State} {seq : UInt16}

/-! ### System -/

theorem applySafeOutputs_eq (b : Board) (s : State) :
    applySafeOutputs b s = some (FirmwareCommands.applySafeOutputs b s) := by
  have hlt : b.numDigitalPins < 256 := Nat.lt_of_le_of_lt b.pins_le (by decide)
  obtain ⟨effects, hrun, rfl⟩ := countTo_rule (s := []) (safeOutputTurn b s)
    (fun k effects => effects = (indices k).flatMap fun pin =>
      if s.pwmConfigured pin then [.analogWrite pin 0] else []) hlt
    (fun k hk effects heffects => by
      subst heffects
      refine ⟨_, ?_, rfl⟩
      have hplace : (UInt8.ofNat k).toNat < (pwmConfigured b).size := by
        rw [toNat_ofNat (m := pwmConfigured b) hk]
        exact hk
      have hnext : indices (k + 1) = indices k ++ [UInt8.ofNat k] := by
        simp [indices, List.range_succ]
      rw [safeOutputTurn, load_eq hplace, hnext, List.flatMap_append, List.flatMap_singleton]
      rfl) rfl
  exact hrun

theorem ping_yields (h : InBounds b s) :
    Yields b (ping s seq) (FirmwareCommands.ping s seq) := by
  refine ⟨?_, h⟩
  rw [ping, answer, data, frame_eq _ _ (by decide) (by decide)]
  rfl

theorem getInfo_yields (h : InBounds b s) :
    Yields b (getInfo b s seq) (FirmwareCommands.getInfo b s seq) := by
  have hversion : ((b.firmwareVersion ++ List.replicate 46 0).take 46).length = 46 := by
    rw [List.length_take, List.length_append, List.length_replicate]
    omega
  have hlength : (List.replicate 46 (0 : UInt8)).length =
      ((b.firmwareVersion ++ List.replicate 46 0).take 46).length := by
    rw [hversion, List.length_replicate]
  have hstored := storeAll_append [UInt8.ofNat b.numDigitalPins, kMaxCounters] [] hlength
  rw [List.append_nil, List.append_nil] at hstored
  refine .bind rfl (.bind rfl (.bind hstored ?_))
  refine answer_yields h ?_ (by decide)
  rw [List.length_append, hversion]
  rfl

theorem emergencyStop_yields (h : InBounds b s) :
    Yields b (emergencyStop b s seq) (FirmwareCommands.emergencyStop b s seq) := by
  refine .bind (applySafeOutputs_eq b _) ?_
  exact acknowledge_yields (h.withSafety _) _

/-- Each array is cleared while those before it are initial already. -/
theorem resetConfig_yields (h : InBounds b s) :
    Yields b (resetConfig b s seq) (FirmwareCommands.resetConfig b s seq) := by
  refine .bind (applySafeOutputs_eq b s) ?_
  refine .bind (sweep_eq h.counters _ _) ?_
  dsimp only
  refine .bind (clear_eq (m := pwmConfigured b) (by exact h.pwmConfigured)) ?_
  refine .bind (clear_eq (m := analogConfigured b) (by exact h.analogConfigured)) ?_
  refine .bind (clear_eq (m := analogSamples b) (by exact h.analogSamples)) ?_
  refine .bind (sweep_eq (m := encoders) (by exact h.encoders) _ _) ?_
  dsimp only
  refine .bind (clear_eq (m := subscriptions) (by exact h.subscriptions)) ?_
  refine .bind (clear_eq (m := i2cConfigured) (by exact h.i2cConfigured)) ?_
  refine .bind (clear_eq (m := dacs) (by exact h.dacs)) ?_
  refine .bind (clear_eq (m := outbound) (by exact h.outbound)) ?_
  exact acknowledge_yields (inBounds_initial b s.safety) _

/-! ### PWM -/

theorem lt_of_pwmPin {pin : UInt8} (h : ¬ (!isValidPwmPin b pin) = true) :
    pin.toNat < b.numDigitalPins := by
  by_contra hlt
  exact h (by simp [isValidPwmPin, isValidDigitalPin, hlt])

theorem configPwm_yields (h : InBounds b s) (pin : UInt8) (frequency : UInt32) (duty : UInt8) :
    Yields b (configPwm b s seq pin frequency duty)
      (FirmwareCommands.configPwm b s seq pin frequency duty) := by
  rw [configPwm, FirmwareCommands.configPwm]
  split_ifs with hstopped hpin
  · exact refuse_yields h _
  · exact refuse_yields h _
  · have hlt := lt_of_pwmPin hpin
    refine .bind (store_eq (m := pwmConfigured b) hlt true) ?_
    exact acknowledge_yields (h.withPwm hlt true) _

theorem pwmWrite_yields (h : InBounds b s) (pin duty : UInt8) :
    Yields b (pwmWrite b s seq pin duty) (FirmwareCommands.pwmWrite b s seq pin duty) := by
  rw [pwmWrite, FirmwareCommands.pwmWrite]
  by_cases hstopped : (!s.safety.outputsAllowed) = true
  · rw [if_pos hstopped, if_pos hstopped]
    exact refuse_yields h _
  · rw [if_neg hstopped, if_neg hstopped]
    by_cases hpin : (!isValidPwmPin b pin) = true
    · rw [if_pos hpin, if_pos (by rw [hpin]; rfl)]
      exact refuse_yields h _
    · rw [if_neg hpin, Bool.eq_false_of_not_eq_true hpin, Bool.false_or]
      refine .bind (load_eq (m := pwmConfigured b) (lt_of_pwmPin hpin)) ?_
      rw [pwmConfigured_table]
      split_ifs
      · exact refuse_yields h _
      · exact acknowledge_yields h _

theorem pwmDisable_yields (h : InBounds b s) (pin : UInt8) :
    Yields b (pwmDisable b s seq pin) (FirmwareCommands.pwmDisable b s seq pin) := by
  rw [pwmDisable, FirmwareCommands.pwmDisable]
  split_ifs with hpin
  · exact refuse_yields h _
  · have hlt := lt_of_pwmPin hpin
    refine .bind (store_eq (m := pwmConfigured b) hlt false) ?_
    exact acknowledge_yields (h.withPwm hlt false) _

/-! ### Analog inputs -/

theorem lt_of_analogPin {pin : UInt8} (h : ¬ (!isValidAnalogPin b pin) = true) :
    pin.toNat < b.numDigitalPins := by
  by_contra hlt
  exact h (by simp [isValidAnalogPin, hlt])

theorem configAnalog_yields (h : InBounds b s) (pin samples : UInt8) :
    Yields b (configAnalog b s seq pin samples)
      (FirmwareCommands.configAnalog b s seq pin samples) := by
  rw [configAnalog, FirmwareCommands.configAnalog]
  by_cases hpin : (!isValidAnalogPin b pin) = true
  · rw [if_pos hpin, if_pos hpin]
    exact refuse_yields h _
  · rw [if_neg hpin, if_neg hpin]
    have hlt := lt_of_analogPin hpin
    refine .bind (store_eq (m := analogConfigured b) hlt true) ?_
    refine .bind (store_eq (m := analogSamples b) hlt _) ?_
    exact acknowledge_yields (h.withAnalog hlt _) _

/-- There is at least one sample, and the counter of the loop reaches their number. -/
theorem analogMean_eq (env : Env) (occasion : ℕ) {pin : UInt8}
    (hpin : pin.toNat < b.numDigitalPins) :
    analogMean b env s occasion pin = some (FirmwareCommands.analogMean env s occasion pin) := by
  have hsome : (if s.analogSamples pin = 0 then 1 else s.analogSamples pin).toUInt32 ≠ 0 := by
    intro hzero
    have hnat := congrArg UInt32.toNat hzero
    rw [UInt8.toNat_toUInt32] at hnat
    split_ifs at hnat with hnone
    · cases hnat
    · exact hnone (UInt8.toNat_inj.mp hnat)
  rw [analogMean, load_eq (m := analogSamples b) hpin]
  dsimp only [Option.bind_eq_bind, Option.bind_some]
  rw [countTo_pure (UInt8.toNat_lt _)]
  exact divide_of_ne hsome _

theorem analogRead_yields (h : InBounds b s) (env : Env) (pin : UInt8) :
    Yields b (analogRead b env s seq pin) (FirmwareCommands.analogRead b env s seq pin) := by
  rw [analogRead, FirmwareCommands.analogRead]
  by_cases hpin : (!isValidAnalogPin b pin) = true
  · rw [if_pos hpin, if_pos (by rw [hpin]; rfl)]
    exact refuse_yields h _
  · have hlt := lt_of_analogPin hpin
    rw [if_neg hpin, Bool.eq_false_of_not_eq_true hpin, Bool.false_or]
    refine .bind (load_eq (m := analogConfigured b) hlt) ?_
    rw [analogConfigured_table]
    split_ifs
    · exact refuse_yields h _
    · refine .bind (analogMean_eq env 0 hlt) (.bind (divide_of_ne (by decide) _) ?_)
      exact answer_yields h rfl (by decide)

/-! ### Counters and encoders -/

section Slots

variable {ε : Type} {m : Member ε} {active : ε → Bool} {limit id : UInt8}

theorem isrFor_eq (count id : UInt8) (isr : UInt8 → Isr) :
    isrFor count isr id = some (if id < count then some (isr id) else none) := by
  rw [isrFor]
  split_ifs with hid
  · rw [load_of_lt (UInt8.lt_iff_toNat_lt.mp hid)]
    rfl
  · rfl

/-- The slot is looked at only where the array has one. -/
theorem withSlot_yields (h : InBounds b s) (hsize : m.size = limit.toNat)
    {body : ε → Option Outcome} {out : Outcome}
    (hbody : id < limit → active (m.table s id) = true → Yields b (body (m.table s id)) out) :
    Yields b (withSlot s seq m active limit id body)
      (if id ≥ limit || !active (m.table s id) then
        FirmwareCommands.refuse s seq .invalidPayload else out) := by
  rw [withSlot]
  by_cases hid : id ≥ limit
  · rw [if_pos hid, if_pos (by simp [hid])]
    exact refuse_yields h _
  · have hlt : id < limit := UInt8.not_le.mp hid
    rw [if_neg hid, decide_eq_false hid, Bool.false_or]
    refine .bind (load_eq (hsize ▸ UInt8.lt_iff_toNat_lt.mp hlt)) ?_
    split_ifs with hactive
    · exact refuse_yields h _
    · exact hbody hlt (by simpa using hactive)

theorem slotValue_eq (hsize : m.size = limit.toNat) (value : ε → Int32) :
    slotValue s m active value limit id =
      some (if id ≥ limit || !active (m.table s id) then none
        else some (value (m.table s id))) := by
  rw [slotValue]
  by_cases hid : id ≥ limit
  · rw [if_pos hid, if_pos (by simp [hid])]
  · have hlt : id < limit := UInt8.not_le.mp hid
    rw [if_neg hid, decide_eq_false hid, Bool.false_or,
      load_eq (hsize ▸ UInt8.lt_iff_toNat_lt.mp hlt), Option.map_some]
    cases active (m.table s id) <;> rfl

end Slots

/-- A response of four bytes, which are written into a buffer first. -/
theorem answerFour_yields (h : InBounds b s) {value : List UInt8} (hvalue : value.length = 4) :
    Yields b
      (storeAll (List.replicate 4 0) 0 value >>= fun payload => answer s seq payload 4)
      (s, [FirmwareCommands.data seq value]) := by
  have hlength : (List.replicate 4 (0 : UInt8)).length = value.length := by
    rw [List.length_replicate, hvalue]
  have hstored := storeAll_append [] [] hlength
  rw [List.append_nil, List.append_nil] at hstored
  exact .bind hstored (answer_yields h hvalue (by decide))

theorem configureCounter_eq (b : Board) (s : State) (id pin edge : UInt8) :
    configureCounter b s id pin edge =
      some (FirmwareCommands.configureCounter b s id pin edge) := by
  rw [configureCounter, FirmwareCommands.configureCounter]
  split_ifs with hrefused
  · rfl
  · have hid : id.toNat < counters.size := by
      apply UInt8.lt_iff_toNat_lt.mp
      apply UInt8.not_le.mp
      exact fun hge => hrefused (by simp [hge])
    rw [load_eq hid]
    dsimp only [Option.bind_eq_bind, Option.bind_some]
    rw [store_eq hid, isrFor_eq]
    rfl

theorem configureEncoder_eq (b : Board) (env : Env) (s : State) (id pinA pinB mode : UInt8) :
    configureEncoder b env s id pinA pinB mode =
      some (FirmwareCommands.configureEncoder b env s id pinA pinB mode) := by
  rw [configureEncoder, FirmwareCommands.configureEncoder]
  split_ifs with hrefused
  · rfl
  · have hid : id.toNat < encoders.size := by
      apply UInt8.lt_iff_toNat_lt.mp
      apply UInt8.not_le.mp
      exact fun hge => hrefused (by simp [hge])
    rw [load_eq hid]
    dsimp only [Option.bind_eq_bind, Option.bind_some]
    rw [store_eq hid, isrFor_eq]
    rfl

theorem configCounter_yields (h : InBounds b s) (id pin edge : UInt8) :
    Yields b (answerConfigured s seq (configureCounter b s id pin edge))
      (FirmwareCommands.configCounter b s seq id pin edge) := by
  rw [configureCounter_eq, FirmwareCommands.configCounter]
  cases hout : FirmwareCommands.configureCounter b s id pin edge with
  | none => exact refuse_yields h _
  | some out =>
    rw [FirmwareCommands.configureCounter] at hout
    split_ifs at hout with hrefused
    obtain rfl := Option.some.inj hout
    refine acknowledge_yields (h.withCounter (UInt8.not_le.mp fun hge => hrefused ?_) _) _
    simp [hge]

theorem configEncoder_yields (h : InBounds b s) (env : Env) (id pinA pinB mode : UInt8) :
    Yields b (answerConfigured s seq (configureEncoder b env s id pinA pinB mode))
      (FirmwareCommands.configEncoder b env s seq id pinA pinB mode) := by
  rw [configureEncoder_eq, FirmwareCommands.configEncoder]
  cases hout : FirmwareCommands.configureEncoder b env s id pinA pinB mode with
  | none => exact refuse_yields h _
  | some out =>
    rw [FirmwareCommands.configureEncoder] at hout
    split_ifs at hout with hrefused
    obtain rfl := Option.some.inj hout
    refine acknowledge_yields (h.withEncoder (UInt8.not_le.mp fun hge => hrefused ?_) _) _
    simp [hge]

theorem counterRead_yields (h : InBounds b s) (id : UInt8) :
    Yields b (counterRead s seq id) (FirmwareCommands.counterRead s seq id) :=
  withSlot_yields h rfl fun _ _ => answerFour_yields h rfl

theorem counterReset_yields (h : InBounds b s) (id : UInt8) :
    Yields b (counterReset s seq id) (FirmwareCommands.counterReset s seq id) :=
  withSlot_yields h rfl fun hid _ =>
    .bind (store_eq (UInt8.lt_iff_toNat_lt.mp hid) _) (acknowledge_yields (h.withCounter hid _) [])

theorem counterFrequency_yields (h : InBounds b s) (id : UInt8) :
    Yields b (counterFrequency s seq id) (FirmwareCommands.counterFrequency s seq id) := by
  refine withSlot_yields h rfl fun _ _ => ?_
  rw [counters_table]
  dsimp only
  split_ifs with hperiod
  · exact .bind (c := some 0) rfl (answerFour_yields h rfl)
  · exact .bind (divide_of_ne hperiod _) (answerFour_yields h rfl)

theorem encoderRead_yields (h : InBounds b s) (id : UInt8) :
    Yields b (encoderRead s seq id) (FirmwareCommands.encoderRead s seq id) :=
  withSlot_yields h rfl fun _ _ => answerFour_yields h rfl

theorem encoderReset_yields (h : InBounds b s) (id : UInt8) :
    Yields b (encoderReset s seq id) (FirmwareCommands.encoderReset s seq id) :=
  withSlot_yields h rfl fun hid _ =>
    .bind (store_eq (UInt8.lt_iff_toNat_lt.mp hid) _) (acknowledge_yields (h.withEncoder hid _) [])

/-! ### Subscriptions -/

theorem readResourceValue_eq (b : Board) (env : Env) (s : State) (occasion : ℕ)
    (kind id : UInt8) :
    readResourceValue b env s occasion kind id =
      some (FirmwareCommands.readResourceValue b env s occasion kind id) := by
  rw [readResourceValue, FirmwareCommands.readResourceValue]
  cases ResourceKind.ofByte kind with
  | none => rfl
  | some resource =>
    cases resource with
    | digital => exact (apply_ite some _ _ _).symm
    | analog =>
      dsimp only
      by_cases hpin : (!isValidAnalogPin b id) = true
      · rw [if_pos hpin, if_pos (by rw [hpin]; rfl)]
      · have hlt := lt_of_analogPin hpin
        rw [if_neg hpin, Bool.eq_false_of_not_eq_true hpin, Bool.false_or,
          load_eq (m := analogConfigured b) hlt, analogMean_eq env occasion hlt]
        exact (apply_ite some _ _ _).symm
    | counter => exact slotValue_eq rfl _
    | encoder => exact slotValue_eq rfl _
    | dac => exact slotValue_eq rfl _

theorem freeSlot_eq (s : State) :
    freeSlot s = some ((List.range kMaxSubscriptions.toNat).find?
      ((fun i => !(s.subscriptions i).active) ∘ UInt8.ofNat)) := by
  refine searchTo_eq (by decide) fun i hi => ?_
  have hplace : (UInt8.ofNat i).toNat < subscriptions.size := by
    rw [toNat_ofNat (m := subscriptions) hi]
    exact hi
  rw [load_eq hplace, Option.map_some]
  rfl

theorem subscribe_yields (h : InBounds b s) (env : Env) (kind id : UInt8) (rateHz : UInt16)
    (flags : UInt8) :
    Yields b (subscribe b env s seq kind id rateHz flags)
      (FirmwareCommands.subscribe b env s seq kind id rateHz flags) := by
  refine .bind (readResourceValue_eq b env s 0 kind id) ?_
  rw [FirmwareCommands.subscribe]
  cases FirmwareCommands.readResourceValue b env s 0 kind id with
  | none => exact refuse_yields h _
  | some value =>
    refine .bind (freeSlot_eq s) ?_
    rw [indices, List.find?_map]
    cases hfree : (List.range kMaxSubscriptions.toNat).find?
        ((fun i => !(s.subscriptions i).active) ∘ UInt8.ofNat) with
    | none => exact refuse_yields h _
    | some i =>
      have hi : i < subscriptions.size := List.mem_range.mp (List.mem_of_find?_eq_some hfree)
      have hplace : (UInt8.ofNat i).toNat < subscriptions.size := by
        rw [toNat_ofNat (m := subscriptions) hi]
        exact hi
      refine .bind (load_eq hplace) (.bind (store_eq hplace _) ?_)
      exact acknowledge_yields (h.withSubscription hplace _) []

theorem unsubscribe_yields (h : InBounds b s) (kind id : UInt8) :
    Yields b (unsubscribe s seq kind id) (FirmwareCommands.unsubscribe s seq kind id) := by
  rw [unsubscribe]
  refine .bind (sweep_eq h.subscriptions _ _) ?_
  dsimp only
  have hafter : InBounds b (FirmwareCommands.unsubscribe s seq kind id).1 := by
    refine { h with subscriptions := fun i hi => ?_ }
    have hinitial : s.subscriptions i = {} := h.subscriptions i hi
    change (if (_ : Bool) = true then {} else s.subscriptions i) = {}
    rw [hinitial]
    exact ite_self _
  exact acknowledge_yields hafter []

/-! ### I2C -/

theorem payloadAt_eq (p : Packet) {i : ℕ} (hi : i < kMaxPayloadSize) :
    payloadAt p i = some (FirmwareCommands.byte p i) := by
  have hlength : i < p.payload.toList.length := by
    rw [Vector.length_toList]
    exact hi
  rw [payloadAt, FirmwareCommands.byte, List.getElem?_eq_getElem hlength,
    List.getD_eq_getElem _ _ hlength]

theorem configI2cBus_yields (h : InBounds b s) (bus : UInt8) (frequency : UInt32) :
    Yields b (configI2cBus b s seq bus frequency)
      (FirmwareCommands.configI2cBus b s seq bus frequency) := by
  rw [configI2cBus, FirmwareCommands.configI2cBus]
  by_cases hrefused : (decide (bus ≥ kMaxI2cBuses) || !wireForBus b bus) = true
  · rw [if_pos hrefused, if_pos hrefused]
    exact refuse_yields h _
  · rw [if_neg hrefused, if_neg hrefused]
    have hbus : bus < kMaxI2cBuses := UInt8.not_le.mp fun hge => hrefused (by simp [hge])
    refine .bind (store_eq (m := i2cConfigured) (UInt8.lt_iff_toNat_lt.mp hbus) true) ?_
    exact acknowledge_yields (h.withBus hbus) _

/-- The bytes that are sent lie within the payload, since the packet is as long as it says. -/
theorem i2cBytes_eq {p : Packet} {length : UInt8} (hlength : 4 + length.toNat ≤ kMaxPayloadSize) :
    i2cBytes p length = some ((p.payload.toList.drop 4).take length.toNat) := by
  obtain ⟨bytes, hrun, rfl⟩ := countTo_rule (s := [])
    (fun i bytes => (payloadAt p (4 + i)).map fun x => bytes ++ [x])
    (fun i bytes => bytes = (p.payload.toList.drop 4).take i) (UInt8.toNat_lt length)
    (fun i hi bytes hbytes => by
      subst hbytes
      have hsize : 4 + i < p.payload.toList.length := by
        rw [Vector.length_toList]
        omega
      refine ⟨_, ?_, rfl⟩
      rw [payloadAt, List.getElem?_eq_getElem hsize, Option.map_some,
        List.take_succ_eq_append_getElem (by rw [List.length_drop]; omega), List.getElem_drop]) rfl
  exact hrun

theorem i2cWrite_yields (h : InBounds b s) (env : Env) {p : Packet}
    (hp : p.length.toNat ≤ kMaxPayloadSize) (bus address : UInt8) :
    Yields b (i2cWrite b env s p bus address (FirmwareCommands.byte p 3))
      (match FirmwareCommands.i2cBytes p with
      | none => FirmwareCommands.refuse s p.seq .invalidPayload
      | some bytes => FirmwareCommands.i2cWrite b env s p.seq bus address bytes) := by
  rw [i2cWrite, FirmwareCommands.i2cBytes]
  by_cases hbus : bus ≥ kMaxI2cBuses
  · rw [if_pos hbus]
    split_ifs
    · exact refuse_yields h _
    · dsimp only [FirmwareCommands.i2cWrite]
      rw [if_pos (by simp [hbus])]
      exact refuse_yields h _
  · have hplace : bus.toNat < i2cConfigured.size :=
      UInt8.lt_iff_toNat_lt.mp (UInt8.not_le.mp hbus)
    rw [if_neg hbus]
    refine .bind (load_eq hplace) ?_
    rw [i2cConfigured_table]
    by_cases hlong : p.length.toNat < 4 + (FirmwareCommands.byte p 3).toNat
    · rw [if_pos hlong, if_pos (by simp [hlong])]
      exact refuse_yields h _
    · dsimp only [FirmwareCommands.i2cWrite]
      rw [if_neg hlong, decide_eq_false hlong, Bool.or_false, decide_eq_false hbus,
        Bool.false_or]
      dsimp only
      split_ifs
      · exact refuse_yields h _
      · exact refuse_yields h _
      · refine .bind (i2cBytes_eq (Nat.le_trans (Nat.le_of_not_lt hlong) hp)) ?_
        exact .bind (nack_eq _ _) ⟨rfl, h⟩
      · refine .bind (i2cBytes_eq (Nat.le_trans (Nat.le_of_not_lt hlong) hp)) ?_
        exact .bind (ackTo_eq _) ⟨rfl, h⟩

/-- As many bytes of the buffer as have been received, which are not more than asked for. -/
theorem received_copied {received : ℕ} (available : List UInt8)
    (hmax : received ≤ kMaxPayloadSize) :
    countTo 256 (min received available.length) (copyTurn available 0)
        (List.replicate kMaxPayloadSize 0) =
      some (available.take received ++
        List.replicate (kMaxPayloadSize - (available.take received).length) 0) := by
  have hmin : min received available.length ≤ kMaxPayloadSize :=
    Nat.le_trans (Nat.min_le_left _ _) hmax
  have hlt : min received available.length < 256 := Nat.lt_of_le_of_lt hmin (by decide)
  have hcopy := countTo_copy hlt (Nat.min_le_right received available.length) []
    (List.replicate (kMaxPayloadSize - min received available.length) (0 : UInt8))
    (List.length_replicate (n := min received available.length) (a := (0 : UInt8)))
  rw [List.nil_append, List.nil_append, List.replicate_append_replicate,
    Nat.add_sub_cancel' hmin] at hcopy
  rw [List.length_take]
  refine hcopy.trans ?_
  rw [← List.take_eq_take_min]

theorem received_sent {received : ℕ} (available : List UInt8) (hmax : received ≤ kMaxPayloadSize) :
    let got := available.take received
    (got ++ List.replicate (kMaxPayloadSize - got.length) (0 : UInt8)).take received =
      got ++ List.replicate (received - got.length) 0 := by
  dsimp only
  have hgot : (available.take received).length ≤ received := List.length_take_le ..
  rw [List.take_append, List.take_of_length_le hgot, List.take_replicate, Nat.min_eq_left]
  omega

theorem i2cRead_yields (h : InBounds b s) (env : Env) (bus address length : UInt8) :
    Yields b (i2cRead b env s seq bus address length)
      (FirmwareCommands.i2cRead b env s seq bus address length) := by
  rw [i2cRead, FirmwareCommands.i2cRead]
  by_cases hbus : bus ≥ kMaxI2cBuses
  · rw [if_pos hbus, if_pos (by simp [hbus])]
    exact refuse_yields h _
  · have hplace : bus.toNat < i2cConfigured.size :=
      UInt8.lt_iff_toNat_lt.mp (UInt8.not_le.mp hbus)
    rw [if_neg hbus, decide_eq_false hbus, Bool.false_or]
    refine .bind (load_eq hplace) ?_
    rw [i2cConfigured_table]
    dsimp only
    split_ifs with hrefused hwire
    · exact refuse_yields h _
    · exact refuse_yields h _
    · have hreceived : (env.requestFrom length).1.toNat ≤ kMaxPayloadSize := by
        have hle := UInt8.le_iff_toNat_le.mp (env.requested_le length)
        have hmax : ¬ length.toNat > kMaxPayloadSize := fun hgt => hrefused (by simp [hgt])
        omega
      have hsize : (env.requestFrom length).1.toUInt16.toNat =
          (env.requestFrom length).1.toNat := UInt8.toNat_toUInt16 _
      have hbuffer : ((env.requestFrom length).2.take (env.requestFrom length).1.toNat ++
          List.replicate (kMaxPayloadSize - ((env.requestFrom length).2.take
            (env.requestFrom length).1.toNat).length) (0 : UInt8)).length = kMaxPayloadSize := by
        have hgot : ((env.requestFrom length).2.take (env.requestFrom length).1.toNat).length ≤
          (env.requestFrom length).1.toNat := List.length_take_le ..
        rw [List.length_append, List.length_replicate]
        omega
      refine .bind (received_copied _ hreceived) (.bind (frame_eq .data seq ?_ ?_) ⟨?_, h⟩)
      · rw [hbuffer, hsize]
        exact hreceived
      · rw [hsize]
        exact hreceived
      · rw [hsize, received_sent _ hreceived]
        rfl

/-! ### DACs -/

/-- Only a slot whose writes stay within bounds becomes active. -/
theorem configDac_yields (h : InBounds b s) (id bus address channels resolution : UInt8) :
    Yields b (configDac s seq id bus address channels resolution)
      (FirmwareCommands.configDac s seq id bus address channels resolution) := by
  rw [configDac, FirmwareCommands.configDac]
  by_cases hids : (decide (id ≥ kMaxDacs) || decide (bus ≥ kMaxI2cBuses)) = true
  · rw [if_pos hids, if_pos (by simp only [hids, Bool.true_or])]
    exact refuse_yields h _
  · have hid : id < kMaxDacs := UInt8.not_le.mp fun hge => hids (by simp [hge])
    have hbus : bus < kMaxI2cBuses := UInt8.not_le.mp fun hge => hids (by simp [hge])
    rw [if_neg hids, Bool.eq_false_of_not_eq_true hids, Bool.false_or]
    refine .bind (load_eq (m := i2cConfigured) (UInt8.lt_iff_toNat_lt.mp hbus)) ?_
    rw [i2cConfigured_table]
    dsimp only
    split_ifs with hrefused
    · exact refuse_yields h _
    · refine .bind (store_eq (m := dacs) (UInt8.lt_iff_toNat_lt.mp hid) _) ?_
      refine acknowledge_yields (h.withDac hid fun _ => ?_) []
      simp only [Bool.or_eq_true, Bool.not_eq_true', decide_eq_true_eq, not_or,
        Bool.not_eq_false] at hrefused
      obtain ⟨⟨⟨hconfigured, hchannels⟩, hresolution⟩, hmax⟩ := hrefused
      refine ⟨hbus, hconfigured, ?_, ?_, ?_⟩
      · exact UInt8.le_iff_toNat_le.mpr
          (Nat.pos_of_ne_zero fun h => hchannels (UInt8.toNat_inj.mp h))
      · exact UInt8.le_iff_toNat_le.mpr
          (Nat.pos_of_ne_zero fun h => hresolution (UInt8.toNat_inj.mp h))
      · exact UInt8.not_lt.mp hmax

theorem lt_of_wire {bus : UInt8} (h : wireForBus b bus = true) : bus < kMaxI2cBuses := by
  rw [wireForBus] at h
  split_ifs at h with h0 h1 h2
  · exact h0 ▸ by decide
  · exact h1 ▸ by decide
  · exact h2 ▸ by decide

/-- A DAC keeps its bus, so that writing to it leaves no array. -/
theorem writeDacRaw_eq (h : InBounds b s) (env : Env) (id channel : UInt8) (value : UInt16) :
    writeDacRaw b env s id channel value =
        some (FirmwareCommands.writeDacRaw b env s id channel value) ∧
      InBounds b (FirmwareCommands.writeDacRaw b env s id channel value).1.1 := by
  rw [writeDacRaw, FirmwareCommands.writeDacRaw]
  by_cases hge : id ≥ kMaxDacs
  · rw [if_pos hge, if_pos (by simp [hge])]
    exact ⟨rfl, h⟩
  · have hid : id < kMaxDacs := UInt8.not_le.mp hge
    have hplace : id.toNat < dacs.size := UInt8.lt_iff_toNat_lt.mp hid
    rw [if_neg hge, decide_eq_false hge, Bool.false_or, load_eq hplace, dacs_table]
    dsimp only [Option.bind_eq_bind, Option.bind_some]
    by_cases hrefused : (!(s.dacs id).active || decide (channel ≥ (s.dacs id).channels)) = true
    · rw [if_pos hrefused, if_pos hrefused]
      exact ⟨rfl, h⟩
    rw [if_neg hrefused, if_neg hrefused]
    by_cases hwire : wireForBus b (s.dacs id).bus = true
    · have hbus := UInt8.lt_iff_toNat_lt.mp (lt_of_wire hwire)
      have hactive : (s.dacs id).active = true := by
        by_contra hnot
        exact hrefused (by simp [hnot])
      have hworks := h.working id hactive
      rw [hwire, load_eq (m := i2cConfigured) hbus, i2cConfigured_table, hworks.configured]
      simp only [Option.bind_some, Bool.not_true, Bool.or_false, Bool.false_eq_true, if_false]
      split_ifs
      · exact ⟨rfl, h⟩
      · rw [store_eq hplace]
        refine ⟨rfl, h.withDac hid fun _ => ?_⟩
        exact ⟨hworks.bus_lt, hworks.configured, hworks.channels, hworks.resolution⟩
    · rw [if_pos (by simp [hwire]), if_pos (by simp [hwire])]
      exact ⟨rfl, h⟩

theorem answerDac_yields {written : Outcome × Bool} (h : InBounds b written.1.1) :
    Yields b (answerDac seq written) (FirmwareCommands.answerDac seq written) := by
  obtain ⟨⟨t, effects⟩, done⟩ := written
  cases done with
  | true =>
    rw [answerDac, if_pos rfl]
    exact acknowledge_yields h effects
  | false =>
    refine ⟨?_, h⟩
    rw [answerDac, if_neg Bool.false_ne_true, nack_eq]
    rfl

theorem dacWriteRaw_yields (h : InBounds b s) (env : Env) (id channel : UInt8)
    (value : UInt16) :
    Yields b (dacWriteRaw b env s seq id channel value)
      (FirmwareCommands.dacWriteRaw b env s seq id channel value) := by
  rw [dacWriteRaw, FirmwareCommands.dacWriteRaw]
  split_ifs
  · exact refuse_yields h _
  · obtain ⟨hwritten, hafter⟩ := writeDacRaw_eq h env id channel value
    exact .bind hwritten (answerDac_yields hafter)

theorem dacWriteNormalized_yields (h : InBounds b s) (env : Env) (id channel : UInt8)
    (normalized : UInt16) :
    Yields b (dacWriteNormalized b env s seq id channel normalized)
      (FirmwareCommands.dacWriteNormalized b env s seq id channel normalized) := by
  rw [dacWriteNormalized, FirmwareCommands.dacWriteNormalized]
  by_cases hstopped : (!s.safety.outputsAllowed) = true
  · rw [if_pos hstopped, if_pos hstopped]
    exact refuse_yields h _
  · rw [if_neg hstopped, if_neg hstopped]
    refine withSlot_yields h rfl fun _ _ => .bind (divide_of_ne (by decide) _) ?_
    obtain ⟨hwritten, hafter⟩ := writeDacRaw_eq h env id channel
      (normalized.toUInt32 * (FirmwareCommands.dacMaxValue (s.dacs id)).toUInt32 / 10000).toUInt16
    exact .bind hwritten (answerDac_yields hafter)

/-! ### Dispatch -/

section Dispatch

variable {p : Packet} {env : Env} {command : UInt8}

theorem word16_eq (p : Packet) {i : ℕ} (hi : i + 1 < kMaxPayloadSize) :
    word16 p i = some (FirmwareCommands.word16 p i) := by
  rw [word16, payloadAt_eq p (by omega), payloadAt_eq p hi]
  rfl

theorem word32_eq (p : Packet) {i : ℕ} (hi : i + 3 < kMaxPayloadSize) :
    word32 p i = some (FirmwareCommands.word32 p i) := by
  rw [word32, payloadAt_eq p (by omega), payloadAt_eq p (by omega), payloadAt_eq p (by omega),
    payloadAt_eq p hi]
  rfl

theorem needing_yields (h : InBounds b s) {n : UInt16} {body : Option Outcome} {out : Outcome}
    (hbody : Yields b body out) :
    Yields b (needing s p n body) (FirmwareCommands.needing n s p out) := by
  rw [needing, FirmwareCommands.needing]
  split_ifs
  · exact refuse_yields h _
  · exact hbody

/-- The bodies that access no array keep every array as it is. -/
theorem respond_yields (env : Env) {r : FirmwareRequests.Request}
    (hafter : InBounds b (FirmwareRequests.execute b env s seq r).1) :
    Yields b (respond (FirmwareRequests.execute b env s seq r))
      (FirmwareRequests.execute b env s seq r) :=
  ⟨respond_execute b env s seq r, hafter⟩

theorem handleSystem_yields (h : InBounds b s) :
    Yields b (handleSystem b env s p command)
      (FirmwareCommands.handleSystem b env s p command) := by
  rw [handleSystem, FirmwareCommands.handleSystem]
  cases CommandId.ofByte command with
  | none => exact refuse_yields h _
  | some c =>
    cases c with
    | ping => exact ping_yields h
    | getInfo => exact getInfo_yields h
    | heartbeat => exact respond_yields env (r := .heartbeat) (h.withSafety _)
    | emergencyStop => exact emergencyStop_yields h
    | clearEmergencyStop => exact respond_yields env (r := .clearEmergencyStop) (h.withSafety _)
    | resetConfig => exact resetConfig_yields h
    | _ => exact refuse_yields h _

/-- One payload byte after the other. -/
theorem byte_yields {i : ℕ} (hi : i < kMaxPayloadSize) {body : UInt8 → Option Outcome}
    {out : Outcome} (hbody : Yields b (body (FirmwareCommands.byte p i)) out) :
    Yields b (payloadAt p i >>= body) out := .bind (payloadAt_eq p hi) hbody

theorem handleDigital_yields (h : InBounds b s) :
    Yields b (handleDigital b env s p command)
      (FirmwareCommands.handleDigital b env s p command) := by
  rw [handleDigital, FirmwareCommands.handleDigital]
  cases CommandId.ofByte command with
  | none => exact refuse_yields h _
  | some c =>
    cases c with
    | configDigitalOutput =>
      refine needing_yields h (byte_yields (by decide) (byte_yields (by decide) ?_))
      refine respond_yields env (r := .configDigitalOutput _ _) ?_
      dsimp only [FirmwareRequests.execute, FirmwareCommands.configDigitalOutput]
      split_ifs <;> exact h
    | configDigitalInput =>
      refine needing_yields h (byte_yields (by decide) (byte_yields (by decide) ?_))
      refine respond_yields env (r := .configDigitalInput _ _) ?_
      dsimp only [FirmwareRequests.execute, FirmwareCommands.configDigitalInput]
      split_ifs <;> exact h
    | digitalRead =>
      refine needing_yields h (byte_yields (by decide) ?_)
      refine respond_yields env (r := .digitalRead _) ?_
      dsimp only [FirmwareRequests.execute, FirmwareCommands.digitalRead]
      split_ifs <;> exact h
    | digitalWrite =>
      refine needing_yields h (byte_yields (by decide) (byte_yields (by decide) ?_))
      refine respond_yields env (r := .digitalWrite _ _) ?_
      dsimp only [FirmwareRequests.execute, FirmwareCommands.digitalWrite]
      split_ifs <;> exact h
    | _ => exact refuse_yields h _

theorem handlePwm_yields (h : InBounds b s) :
    Yields b (handlePwm b s p command) (FirmwareCommands.handlePwm b s p command) := by
  rw [handlePwm, FirmwareCommands.handlePwm]
  cases CommandId.ofByte command with
  | none => exact refuse_yields h _
  | some c =>
    cases c with
    | configPwm =>
      refine needing_yields h (byte_yields (by decide) ?_)
      refine .bind (word32_eq p (by decide)) (byte_yields (by decide) ?_)
      exact configPwm_yields h _ _ _
    | pwmWrite =>
      refine needing_yields h (byte_yields (by decide) (byte_yields (by decide) ?_))
      exact pwmWrite_yields h _ _
    | pwmDisable =>
      refine needing_yields h (byte_yields (by decide) ?_)
      exact pwmDisable_yields h _
    | _ => exact refuse_yields h _

theorem handleAnalog_yields (h : InBounds b s) :
    Yields b (handleAnalog b env s p command)
      (FirmwareCommands.handleAnalog b env s p command) := by
  rw [handleAnalog, FirmwareCommands.handleAnalog]
  cases CommandId.ofByte command with
  | none => exact refuse_yields h _
  | some c =>
    cases c with
    | configAnalog =>
      refine needing_yields h (byte_yields (by decide) (byte_yields (by decide) ?_))
      exact configAnalog_yields h _ _
    | analogRead =>
      refine needing_yields h (byte_yields (by decide) ?_)
      exact analogRead_yields h env _
    | _ => exact refuse_yields h _

theorem handleCounter_yields (h : InBounds b s) :
    Yields b (handleCounter b s p command) (FirmwareCommands.handleCounter b s p command) := by
  rw [handleCounter, FirmwareCommands.handleCounter]
  cases CommandId.ofByte command with
  | none => exact refuse_yields h _
  | some c =>
    cases c with
    | configCounter =>
      refine needing_yields h (byte_yields (by decide) (byte_yields (by decide) ?_))
      exact byte_yields (by decide) (configCounter_yields h _ _ _)
    | counterRead =>
      refine needing_yields h (byte_yields (by decide) ?_)
      exact counterRead_yields h _
    | counterReset =>
      refine needing_yields h (byte_yields (by decide) ?_)
      exact counterReset_yields h _
    | counterFrequency =>
      refine needing_yields h (byte_yields (by decide) ?_)
      exact counterFrequency_yields h _
    | _ => exact refuse_yields h _

theorem handleEncoder_yields (h : InBounds b s) :
    Yields b (handleEncoder b env s p command)
      (FirmwareCommands.handleEncoder b env s p command) := by
  rw [handleEncoder, FirmwareCommands.handleEncoder]
  cases CommandId.ofByte command with
  | none => exact refuse_yields h _
  | some c =>
    cases c with
    | configEncoder =>
      refine needing_yields h (byte_yields (by decide) (byte_yields (by decide) ?_))
      refine byte_yields (by decide) (byte_yields (by decide) ?_)
      exact configEncoder_yields h env _ _ _ _
    | encoderRead =>
      refine needing_yields h (byte_yields (by decide) ?_)
      exact encoderRead_yields h _
    | encoderReset =>
      refine needing_yields h (byte_yields (by decide) ?_)
      exact encoderReset_yields h _
    | _ => exact refuse_yields h _

theorem handleSubscription_yields (h : InBounds b s) :
    Yields b (handleSubscription b env s p command)
      (FirmwareCommands.handleSubscription b env s p command) := by
  rw [handleSubscription, FirmwareCommands.handleSubscription]
  cases CommandId.ofByte command with
  | none => exact refuse_yields h _
  | some c =>
    cases c with
    | subscribe =>
      refine needing_yields h (byte_yields (by decide) (byte_yields (by decide) ?_))
      refine .bind (word16_eq p (by decide)) (byte_yields (by decide) ?_)
      exact subscribe_yields h env _ _ _ _
    | unsubscribe =>
      refine needing_yields h (byte_yields (by decide) (byte_yields (by decide) ?_))
      exact unsubscribe_yields h _ _
    | _ => exact refuse_yields h _

theorem handleI2c_yields (h : InBounds b s) (hp : p.length.toNat ≤ kMaxPayloadSize) :
    Yields b (handleI2c b env s p command) (FirmwareCommands.handleI2c b env s p command) := by
  rw [handleI2c, FirmwareCommands.handleI2c]
  cases CommandId.ofByte command with
  | none => exact refuse_yields h _
  | some c =>
    cases c with
    | configI2cBus =>
      refine needing_yields h (byte_yields (by decide) (.bind (word32_eq p (by decide)) ?_))
      exact configI2cBus_yields h _ _
    | i2cWrite =>
      refine needing_yields h (byte_yields (by decide) (byte_yields (by decide) ?_))
      exact byte_yields (by decide) (i2cWrite_yields h env hp _ _)
    | i2cRead =>
      refine needing_yields h (byte_yields (by decide) (byte_yields (by decide) ?_))
      exact byte_yields (by decide) (i2cRead_yields h env _ _ _)
    | configDac =>
      refine needing_yields h (byte_yields (by decide) (byte_yields (by decide) ?_))
      refine byte_yields (by decide) (byte_yields (by decide) (byte_yields (by decide) ?_))
      exact configDac_yields h _ _ _ _ _
    | dacWriteRaw =>
      refine needing_yields h (byte_yields (by decide) (byte_yields (by decide) ?_))
      exact .bind (word16_eq p (by decide)) (dacWriteRaw_yields h env _ _ _)
    | dacWriteNormalized =>
      refine needing_yields h (byte_yields (by decide) (byte_yields (by decide) ?_))
      exact .bind (word16_eq p (by decide)) (dacWriteNormalized_yields h env _ _ _)
    | _ => exact refuse_yields h _

theorem dispatch_yields (h : InBounds b s) (hp : p.length.toNat ≤ kMaxPayloadSize) :
    Yields b (dispatch b env s p command) (FirmwareCommands.dispatch b env s p command) := by
  rw [dispatch, FirmwareCommands.dispatch]
  apply Yields.ite (handleSystem_yields h)
  apply Yields.ite (handleDigital_yields h)
  apply Yields.ite (handlePwm_yields h)
  apply Yields.ite (handleAnalog_yields h)
  apply Yields.ite (handleCounter_yields h)
  apply Yields.ite (handleEncoder_yields h)
  apply Yields.ite (handleSubscription_yields h)
  apply Yields.ite (handleI2c_yields h hp)
  exact refuse_yields h _

/-- A packet that is not longer than its buffer is handled within bounds. -/
theorem handle_yields (h : InBounds b s) (env : Env) (hp : p.length.toNat ≤ kMaxPayloadSize) :
    Yields b (handle b env s p) (FirmwareCommands.handle b env s p) := by
  rw [handle, FirmwareCommands.handle]
  apply Yields.ite
  · exact refuse_yields h _
  · exact byte_yields (by decide) (dispatch_yields h hp)

end Dispatch

end CommandBounds
