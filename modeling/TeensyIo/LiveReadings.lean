import TeensyIo.ServedOperations
import Mathlib.Algebra.Group.Action.Defs

/-! # Readings of live resources

What a read of a configured resource returns to the program is what the hardware shows at that
moment: the level of the pin, the mean of the samples of the converter, the number in the slot. -/
namespace LiveReadings

open WireCommands HostProtocol HostClient HostResources HostOperations FirmwareState
open FirmwareRequests ServedRequests RequestLayouts MachineRuns ConfiguredResources
open ServedOperations (command_acks number_laid number_returns id_of_number Returns)
open EdgeCallbacks (respond)
open CounterDeltas (Acks acks_guard acks_data)
open FirmwareCommands (analogMean)

/-! ### The mean of bounded samples -/

def mean (samples : List ℕ) : ℕ := samples.sum / samples.length

theorem mean_le {samples : List ℕ} {high : ℕ} (hhigh : ∀ v ∈ samples, v ≤ high) :
    mean samples ≤ high := by
  have hsum := List.sum_le_card_nsmul samples high hhigh
  rw [smul_eq_mul] at hsum
  exact Nat.div_le_of_le_mul hsum

theorem le_mean {samples : List ℕ} {low : ℕ} (hsome : samples ≠ [])
    (hlow : ∀ v ∈ samples, low ≤ v) : low ≤ mean samples := by
  have hsum := List.card_nsmul_le_sum samples low hlow
  rw [smul_eq_mul, mul_comm] at hsum
  exact (Nat.le_div_iff_mul_le (List.length_pos_iff.mpr hsome)).mpr hsum

/-- A 32-bit total of bounded terms is their sum as long as the bound leaves room for it. -/
theorem toNat_total {f : ℕ → UInt32} {bound : ℕ} (hf : ∀ i, (f i).toNat ≤ bound) :
    ∀ (l : List ℕ) (total : UInt32), total.toNat + l.length * bound < 2 ^ 32 →
      (l.foldl (fun total i => total + f i) total).toNat =
        total.toNat + (l.map fun i => (f i).toNat).sum := by
  intro l
  induction l with
  | nil => intro total _; rfl
  | cons i l ih =>
    intro total hroom
    have hi := hf i
    rw [List.length_cons, Nat.succ_mul] at hroom
    have hstep : (total + f i).toNat = total.toNat + (f i).toNat := by
      rw [UInt32.toNat_add, Nat.mod_eq_of_lt]
      omega
    rw [List.foldl_cons, ih _ (by omega), hstep, List.map_cons, List.sum_cons]
    omega

/-! ### What the converter shows -/

/-- The converter is set to 12 bits. -/
def InRange (env : Env) : Prop :=
  ∀ occasion i pin, (env.analogRead occasion i pin).toNat ≤ kAdcMaxValue.toNat

/-- No sample is configured as one. -/
def sampleCount (s : State) (pin : UInt8) : UInt8 :=
  if s.analogSamples pin = 0 then 1 else s.analogSamples pin

def samples (env : Env) (s : State) (pin : UInt8) : List ℕ :=
  (List.range (sampleCount s pin).toNat).map fun i => (env.analogRead 0 i pin).toNat

theorem sampleCount_pos (s : State) (pin : UInt8) : 0 < (sampleCount s pin).toNat := by
  unfold sampleCount
  split_ifs with hzero
  · decide
  · exact Nat.pos_of_ne_zero fun h => hzero (UInt8.toNat_inj.mp h)

section Samples

variable {env : Env} (s : State) (pin : UInt8)

theorem length_samples (env : Env) : (samples env s pin).length = (sampleCount s pin).toNat := by
  simp [samples]

theorem samples_ne_nil (env : Env) : samples env s pin ≠ [] := by
  rw [← List.length_pos_iff, length_samples]
  exact sampleCount_pos s pin

theorem samples_le (hrange : InRange env) : ∀ v ∈ samples env s pin, v ≤ 4095 := by
  intro v hv
  obtain ⟨i, -, rfl⟩ := List.mem_map.mp hv
  exact hrange 0 i pin

/-- At most 255 samples of 12 bits fit the total. -/
theorem analogMean_toNat (hrange : InRange env) :
    (analogMean env s 0 pin).toNat = mean (samples env s pin) := by
  have hlt : (sampleCount s pin).toNat < 256 := (sampleCount s pin).toNat_lt
  have htotal := toNat_total (fun i => hrange 0 i pin)
    (List.range (sampleCount s pin).toNat) 0 (by
      rw [List.length_range, UInt32.toNat_zero, show kAdcMaxValue.toNat = 4095 from rfl]
      omega)
  rw [UInt32.toNat_zero, zero_add] at htotal
  rw [mean, length_samples, samples, ← htotal, analogMean]
  change (_ / (sampleCount s pin).toUInt32).toNat = _
  rw [UInt32.toNat_div, UInt8.toNat_toUInt32]
  rfl

/-- The mean and its ten thousandths of the full scale, in the widths that the response has. -/
theorem analogPair_response (hrange : InRange env) {payload : List UInt8}
    (hpayload : payload = FirmwareCommands.writeU16 (analogMean env s 0 pin).toUInt16 ++
      FirmwareCommands.writeU16
        ((analogMean env s 0 pin).toUInt16.toUInt32 * 10000 / kAdcMaxValue).toUInt16) :
    analogPair payload =
      (mean (samples env s pin), mean (samples env s pin) * 10000 / 4095) := by
  have hmean := analogMean_toNat s pin hrange
  have hle := mean_le (samples_le s pin hrange)
  have hraw : (analogMean env s 0 pin).toUInt16.toNat = mean (samples env s pin) := by
    rw [UInt32.toNat_toUInt16, hmean]
    omega
  have hscaled : ((analogMean env s 0 pin).toUInt16.toUInt32 * 10000 / kAdcMaxValue).toNat =
      mean (samples env s pin) * 10000 / 4095 := by
    rw [UInt32.toNat_div, UInt32.toNat_mul, UInt16.toNat_toUInt32, hraw]
    change mean (samples env s pin) * 10000 % 2 ^ 32 / 4095 = _
    rw [Nat.mod_eq_of_lt (by omega)]
  subst hpayload
  rw [analogPair, List.take_left' (ArgumentAgreement.length_writeU16 _),
    List.drop_left' (ArgumentAgreement.length_writeU16 _),
    List.take_of_length_le (ArgumentAgreement.length_writeU16 _).le,
    ArgumentAgreement.value_writeU16, ArgumentAgreement.value_writeU16, hraw,
    UInt32.toNat_toUInt16, hscaled]
  congr 1
  omega

end Samples

/-! ### Read by read -/

section Reads

variable {b : Board} {env : Env} {s : State} {h : Host} {name : String} {i : UInt8}

/-- What follows a returned command about a number has the reply that acknowledges it. -/
theorem number_acked {α : Type} {id : CommandId} {r : Request} {rest : List UInt8 → Host → Result α}
    (hl : Laid r id [i])
    (hreturns : Returns ((command (respond b env s) h id (pyBytes [(i.toNat : ℤ)])).next rest)) :
    ∃ seq reply h', Acks (execute b env s seq r) reply ∧
      (command (respond b env s) h id (pyBytes [(i.toNat : ℤ)])).next rest = rest reply h' := by
  obtain ⟨v, hv⟩ := hreturns
  obtain ⟨reply, hreply, hnext⟩ := next_accepted hv
  obtain ⟨seq, hacks⟩ := command_acks (number_laid hl) hreply
  exact ⟨seq, reply, _, hacks, hnext⟩

theorem pinRead_value (hpin : (h.pins name).physicalPin = some (i.toNat : ℤ))
    (hs : serves b s .pin i = true) :
    (pinRead (respond b env s) h name).1 = .ok (env.digitalRead 0 i) := by
  have hreturns : Returns (pinRead (respond b env s) h name) :=
    ServedOperations.pinRead_returns hpin hs
  rw [pinRead, hpin] at hreturns ⊢
  obtain ⟨seq, reply, h', hacks, hnext⟩ := number_acked (.digitalRead i) hreturns
  rw [execute, FirmwareCommands.digitalRead] at hacks
  rw [acks_guard hacks] at hacks
  dsimp only
  rw [hnext, acks_data hacks]
  cases env.digitalRead 0 i <;> rfl

theorem analogRead_value (hpin : (h.analogs name).physicalPin = some (i.toNat : ℤ))
    (hs : serves b s .analog i = true) (hrange : InRange env) :
    (analogRead (respond b env s) h name).1 =
      .ok (mean (samples env s i), mean (samples env s i) * 10000 / 4095) := by
  have hreturns : Returns (analogRead (respond b env s) h name) :=
    ServedOperations.analogRead_returns hpin hs
  rw [analogRead, hpin] at hreturns ⊢
  obtain ⟨seq, reply, h', hacks, hnext⟩ := number_acked (.analogRead i) hreturns
  rw [execute, FirmwareCommands.analogRead] at hacks
  rw [acks_guard hacks] at hacks
  dsimp only
  rw [hnext, analogPair_response s i hrange (acks_data hacks)]

theorem counterRead_value (hid : (h.counters name).id = some i.toNat)
    (hs : serves b s .counter i = true) :
    (counterRead (respond b env s) h name).1 = .ok (s.counters i).count.toInt := by
  have hreturns : Returns (counterRead (respond b env s) h name) :=
    ServedOperations.counterRead_returns hid hs
  rw [counterRead, hid] at hreturns ⊢
  obtain ⟨seq, reply, h', hacks, hnext⟩ := number_acked (.counterRead i) hreturns
  dsimp only
  rw [hnext, (CounterDeltas.counterRead_acks hacks).2, ArgumentAgreement.responseI32_writeI32]

theorem encoderRead_value (hid : (h.encoders name).id = some i.toNat)
    (hs : serves b s .encoder i = true) :
    (encoderRead (respond b env s) h name).1 = .ok (s.encoders i).position.toInt := by
  have hreturns : Returns (encoderRead (respond b env s) h name) :=
    ServedOperations.encoderRead_returns hid hs
  rw [encoderRead, hid] at hreturns ⊢
  obtain ⟨seq, reply, h', hacks, hnext⟩ := number_acked (.encoderRead i) hreturns
  dsimp only
  rw [hnext, (CounterDeltas.encoderRead_acks hacks).2, ArgumentAgreement.responseI32_writeI32]

/-- The frequency that the firmware has measured, in thousandths of a hertz. -/
def milliHz (periodUs : UInt32) : ℕ := if periodUs = 0 then 0 else 1000000000 / periodUs.toNat

theorem counterFrequency_value (hid : (h.counters name).id = some i.toNat)
    (hs : serves b s .counter i = true) {windowMs : ℤ} (hwindow : windowMs ≤ 0) (now : ℚ) :
    (counterFrequency (respond b env s) h name windowMs now).1 =
      .ok ((milliHz (s.counters i).periodUs : ℚ) / 1000) := by
  have hreturns : Returns (counterFrequency (respond b env s) h name windowMs now) :=
    ServedOperations.counterFrequency_returns hid hs windowMs now
  rw [counterFrequency, hid] at hreturns ⊢
  dsimp only at hreturns ⊢
  rw [if_pos hwindow] at hreturns ⊢
  obtain ⟨seq, reply, h', hacks, hnext⟩ := number_acked (.counterFrequency i) hreturns
  rw [execute, FirmwareCommands.counterFrequency] at hacks
  rw [acks_guard hacks] at hacks
  rw [hnext, acks_data hacks, ArgumentAgreement.responseU32_writeU32, milliHz]
  dsimp only
  split_ifs <;> rfl

end Reads

/-! ### Every run -/

section Runs

variable {b : Board} {k : Bench} {env : Env}

/-- What the reads of the live resources return in a state, whatever the hardware shows. -/
structure Reading (b : Board) (k : Bench) (env : Env) : Prop where
  pin : ∀ name, (.pin, name) ∈ k.live → ∃ i : UInt8,
    number k.host .pin name = some (i.toNat : ℤ) ∧
      (pinRead (respond b env k.device) k.host name).1 = .ok (env.digitalRead 0 i)
  raw : ∀ name, (.analog, name) ∈ k.live → ∃ i : UInt8,
    number k.host .analog name = some (i.toNat : ℤ) ∧
      (analogReadRaw (respond b env k.device) k.host name).1 =
        .ok (mean (samples env k.device i)) ∧
      ∀ low high, (∀ v ∈ samples env k.device i, low ≤ v ∧ v ≤ high) →
        low ≤ mean (samples env k.device i) ∧ mean (samples env k.device i) ≤ high
  normalized : ∀ name, (.analog, name) ∈ k.live → ∃ i : UInt8, ∃ x : ℚ,
    number k.host .analog name = some (i.toNat : ℤ) ∧
      (analogReadNormalized (respond b env k.device) k.host name).1 = .ok x ∧
      x = roundDouble ((mean (samples env k.device i) * 10000 / 4095 : ℕ) / 10000) ∧
      0 ≤ x ∧ x ≤ 1
  counter : ∀ name, (.counter, name) ∈ k.live → ∃ i : UInt8,
    number k.host .counter name = some (i.toNat : ℤ) ∧
      (counterRead (respond b env k.device) k.host name).1 =
        .ok (k.device.counters i).count.toInt ∧
      ∀ windowMs now, windowMs ≤ 0 →
        (counterFrequency (respond b env k.device) k.host name windowMs now).1 =
          .ok ((milliHz (k.device.counters i).periodUs : ℚ) / 1000)
  encoder : ∀ name, (.encoder, name) ∈ k.live → ∃ i : UInt8,
    number k.host .encoder name = some (i.toNat : ℤ) ∧
      (encoderRead (respond b env k.device) k.host name).1 =
        .ok (k.device.encoders i).position.toInt

theorem next_of_ok {α β : Type} {result : Result α} {rest : α → Host → Result β} {v : α}
    (hok : result.1 = .ok v) : result.next rest = rest v result.2 := by
  obtain ⟨error | u, h'⟩ := result
  · cases hok
  · obtain rfl := Except.ok.inj hok
    rfl

theorem normalized_mem {samples : List ℕ} (hsamples : ∀ v ∈ samples, v ≤ 4095) :
    0 ≤ roundDouble ((mean samples * 10000 / 4095 : ℕ) / 10000) ∧
      roundDouble ((mean samples * 10000 / 4095 : ℕ) / 10000) ≤ 1 := by
  have hmean := mean_le hsamples
  have hscaled : mean samples * 10000 / 4095 ≤ 10000 := by omega
  have hfraction : ((mean samples * 10000 / 4095 : ℕ) : ℚ) / 10000 ≤ (1 : ℕ) := by
    rw [Nat.cast_one, div_le_one (by norm_num)]
    exact_mod_cast hscaled
  have hmem := ConfigValues.roundDouble_mem (by positivity) hfraction (by decide)
  exact ⟨hmem.1, by exact_mod_cast hmem.2⟩

theorem mirrored_reading (h : Mirrored b k) (hrange : InRange env) : Reading b k env where
  pin name hlive := by
    obtain ⟨i, hnumber, hs, -⟩ := h.served _ hlive
    exact ⟨i, hnumber, pinRead_value hnumber hs⟩
  raw name hlive := by
    obtain ⟨i, hnumber, hs, -⟩ := h.served _ hlive
    refine ⟨i, hnumber, ?_, ?_⟩
    · rw [analogReadRaw, next_of_ok (analogRead_value hnumber hs hrange)]
    · intro low high hbounds
      exact ⟨le_mean (samples_ne_nil _ _ env) fun v hv => (hbounds v hv).1,
        mean_le fun v hv => (hbounds v hv).2⟩
  normalized name hlive := by
    obtain ⟨i, hnumber, hs, -⟩ := h.served _ hlive
    refine ⟨i, _, hnumber, ?_, rfl, normalized_mem (samples_le _ _ hrange)⟩
    rw [analogReadNormalized, next_of_ok (analogRead_value hnumber hs hrange)]
  counter name hlive := by
    obtain ⟨i, hnumber, hs, -⟩ := h.served _ hlive
    have hid := id_of_number hnumber
    refine ⟨i, hnumber, counterRead_value hid hs, ?_⟩
    intro windowMs now hwindow
    exact counterFrequency_value hid hs hwindow now
  encoder name hlive := by
    obtain ⟨i, hnumber, hs, -⟩ := h.served _ hlive
    exact ⟨i, hnumber, encoderRead_value (id_of_number hnumber) hs⟩

/-- In every state of every run, the reads of a resource whose last configuring call has returned
since the last reset return what the hardware shows under its number, if the converter is within
its 12 bits. -/
theorem live_readings (b : Board) (inputs : List Input) :
    EachState (Bench.step b) (fun k => ∀ env, InRange env → Reading b k env) {} inputs := by
  apply eachState_of_eachStep (G := fun _ _ => True) _ _ (mirrored_initial b)
  · exact eachStep_of_forall _ fun _ _ => trivial
  · intro k input hmirrored _
    exact step_mirrored hmirrored input
  · intro k hmirrored env hrange
    exact mirrored_reading hmirrored hrange

/-- A converter that shows three values in turn. -/
def rising : Env :=
  { FirmwareDevice.envAt 0 with
    analogRead := fun _ i _ => if i = 0 then 100 else if i = 1 then 200 else 401 }

def configuredLevel : Input := .call (.analogConfigure "level" 14 3) (FirmwareDevice.envAt 0)

/-- The mean of the three is what the program reads. -/
theorem three_samples_read :
    let k := Bench.step FirmwareDevice.sampleBoard {} configuredLevel
    (analogReadRaw (respond FirmwareDevice.sampleBoard rising k.device) k.host "level").1 =
      .ok 233 := by
  intro k
  have hrange : InRange rising := by
    intro occasion i pin
    unfold rising
    dsimp only
    split_ifs <;> decide
  have hreading := (live_readings FirmwareDevice.sampleBoard [configuredLevel]).2 rising hrange
  obtain ⟨i, hnumber, hread, -⟩ := hreading.raw "level" (by decide +kernel)
  have hpin : number k.host .analog "level" = some 14 := by decide +kernel
  obtain rfl : i = 14 := by
    rw [hpin] at hnumber
    have hi := Option.some.inj hnumber
    exact UInt8.toNat_inj.mp (by exact_mod_cast hi.symm)
  exact hread.trans (by decide +kernel)

end Runs

end LiveReadings
