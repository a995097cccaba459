import TeensyIo.FirmwareDevice

/-! # Normalised DAC writes

`DacWriteNormalized` scales a wire value to a code in 32 bits and narrows it to 16 bits before
`write_dac_raw` limits it. The limit sees the scaled value only if it has 16 bits. -/
namespace NormalizedDac

open WireCommands FirmwareState FirmwareCommands FirmwareUpdate FirmwareRequests
open FirmwareDevice FirmwareOutcomes

/-! ### Scaling -/

/-- The greatest code of a DAC with so many bits. -/
def maxCode (resolution : ℕ) : ℕ := 2 ^ resolution - 1

/-- The code a wire value stands for, 10000 standing for the greatest. -/
def scaled (resolution n : ℕ) : ℕ := n * maxCode resolution / 10000

/-- The limit is not misled: the scaled value has 16 bits, or what 16 bits keep of it is limited
all the same. -/
def Unmisled (resolution n : ℕ) : Prop :=
  scaled resolution n < 65536 ∨ maxCode resolution ≤ scaled resolution n % 65536

instance (resolution n : ℕ) : Decidable (Unmisled resolution n) :=
  inferInstanceAs (Decidable (_ ∨ _))

theorem maxCode_lt {resolution : ℕ} (h : resolution ≤ 16) : maxCode resolution < 65536 := by
  have hpow : 2 ^ resolution ≤ 2 ^ 16 := Nat.pow_le_pow_right (by decide) h
  rw [maxCode]
  omega

theorem scaled_mono (resolution : ℕ) {m n : ℕ} (h : m ≤ n) :
    scaled resolution m ≤ scaled resolution n :=
  Nat.div_le_div_right (Nat.mul_le_mul_right _ h)

theorem scaled_le {resolution n : ℕ} (h : n ≤ 10000) :
    scaled resolution n ≤ maxCode resolution := by
  rw [scaled]
  apply Nat.div_le_of_le_mul
  exact Nat.mul_le_mul_right _ h

theorem le_scaled {resolution n : ℕ} (h : 10000 ≤ n) :
    maxCode resolution ≤ scaled resolution n := by
  rw [scaled, Nat.le_div_iff_mul_le (by decide), Nat.mul_comm]
  exact Nat.mul_le_mul_right _ h

/-- What is sent, in numbers. -/
def limited (resolution n : ℕ) : ℕ := min (scaled resolution n % 65536) (maxCode resolution)

theorem limited_le (resolution n : ℕ) : limited resolution n ≤ maxCode resolution :=
  Nat.min_le_right _ _

theorem limited_small {resolution n : ℕ} (hresolution : resolution ≤ 16) (hn : n ≤ 10000) :
    limited resolution n = scaled resolution n := by
  have hle : scaled resolution n ≤ maxCode resolution := scaled_le hn
  have hlt := maxCode_lt hresolution
  rw [limited, Nat.mod_eq_of_lt (by omega), Nat.min_eq_left hle]

/-- A wire value of 10000 or more sends the greatest code exactly if the limit is not misled. -/
theorem saturates_iff {resolution n : ℕ} (hn : 10000 ≤ n) :
    limited resolution n = maxCode resolution ↔ Unmisled resolution n := by
  have hle : maxCode resolution ≤ scaled resolution n := le_scaled hn
  rw [limited, Unmisled]
  constructor
  · intro h
    exact Or.inr (by omega)
  · rintro (h | h)
    · rw [Nat.mod_eq_of_lt h]
      exact Nat.min_eq_right hle
    · exact Nat.min_eq_right h

theorem unmisled_small {resolution n : ℕ} (hresolution : resolution ≤ 16) (hn : n ≤ 10000) :
    Unmisled resolution n :=
  Or.inl (Nat.lt_of_le_of_lt (scaled_le hn) (maxCode_lt hresolution))

/-- Up to 13 bits no 16-bit wire value misleads the limit. -/
theorem unmisled_narrow {resolution n : ℕ} (hresolution : resolution ≤ 13) (hn : n < 65536) :
    Unmisled resolution n := by
  have hpow : 2 ^ resolution ≤ 2 ^ 13 := Nat.pow_le_pow_right (by decide) hresolution
  have hmax : maxCode resolution ≤ 8191 := by
    rw [maxCode]
    omega
  have hproduct : n * maxCode resolution ≤ 65535 * 8191 := Nat.mul_le_mul (by omega) hmax
  left
  rw [scaled]
  omega

theorem limited_mono {resolution m n : ℕ} (hresolution : resolution ≤ 16)
    (hn : Unmisled resolution n) (h : m ≤ n) : limited resolution m ≤ limited resolution n := by
  by_cases hsmall : n ≤ 10000
  · rw [limited_small hresolution (h.trans hsmall), limited_small hresolution hsmall]
    exact scaled_mono resolution h
  · rw [(saturates_iff (by omega)).mpr hn]
    exact limited_le resolution m

/-! ### The code that is sent -/

/-- What `DacWriteNormalized` hands to the device for a wire value. -/
def code (slot : DacSlot) (normalized : UInt16) : UInt16 :=
  clampDac slot (normalized.toUInt32 * (dacMaxValue slot).toUInt32 / 10000).toUInt16

theorem dacMaxValue_toNat {slot : DacSlot} (hlow : 1 ≤ slot.resolutionBits.toNat)
    (hhigh : slot.resolutionBits.toNat ≤ 16) :
    (dacMaxValue slot).toNat = maxCode slot.resolutionBits.toNat := by
  have hall : ∀ bits ∈ indices 17, 1 ≤ bits.toNat →
      (dacMaxValue { resolutionBits := bits }).toNat = maxCode bits.toNat := by decide +kernel
  exact hall slot.resolutionBits ((mem_indices (by decide) _).mpr (by omega)) hlow

theorem clampDac_toNat (slot : DacSlot) (value : UInt16) :
    (clampDac slot value).toNat = min value.toNat (dacMaxValue slot).toNat := by
  rw [clampDac]
  split_ifs with h
  · exact (Nat.min_eq_right (UInt16.lt_iff_toNat_lt.mp h).le).symm
  · exact (Nat.min_eq_left (UInt16.not_lt.mp h)).symm

/-- The product has 32 bits, the quotient need not have 16. -/
theorem quotient_toNat {slot : DacSlot} (hlow : 1 ≤ slot.resolutionBits.toNat)
    (hhigh : slot.resolutionBits.toNat ≤ 16) (normalized : UInt16) :
    (normalized.toUInt32 * (dacMaxValue slot).toUInt32 / 10000).toNat =
      scaled slot.resolutionBits.toNat normalized.toNat := by
  have hn : normalized.toNat ≤ 65535 := Nat.le_of_lt_succ normalized.toNat_lt
  have hm : maxCode slot.resolutionBits.toNat ≤ 65535 := Nat.le_of_lt_succ (maxCode_lt hhigh)
  have hproduct : normalized.toNat * maxCode slot.resolutionBits.toNat ≤ 65535 * 65535 :=
    Nat.mul_le_mul hn hm
  rw [UInt32.toNat_div, UInt32.toNat_mul, UInt16.toNat_toUInt32, UInt16.toNat_toUInt32,
    dacMaxValue_toNat hlow hhigh, Nat.mod_eq_of_lt (by omega)]
  rfl

theorem code_toNat {slot : DacSlot} (hlow : 1 ≤ slot.resolutionBits.toNat)
    (hhigh : slot.resolutionBits.toNat ≤ 16) (normalized : UInt16) :
    (code slot normalized).toNat = limited slot.resolutionBits.toNat normalized.toNat := by
  rw [code, clampDac_toNat, UInt32.toNat_toUInt16, quotient_toNat hlow hhigh,
    dacMaxValue_toNat hlow hhigh]
  rfl

section Commands

variable {b : Board} {env : Env} {s : State} {id channel : UInt8}

/-- What the slot sends for a value once nothing stands in the way. -/
def sends (s : State) (seq : UInt16) (id channel : UInt8) (value : UInt16) : List Effect :=
  [.transmit .writeDacRaw (s.dacs id).bus (s.dacs id).address
    (dacBytes (s.dacs id) channel value), ackTo seq]

theorem writeDacRaw_ready (hready : DacReady b s id) (hchannel : channel < (s.dacs id).channels)
    (hsuccess : env.endTransmission = 0) (seq : UInt16) (value : UInt16) :
    (answerDac seq (writeDacRaw b env s id channel value)).2 =
      sends s seq id channel (clampDac (s.dacs id) value) := by
  have hslot : ¬(decide (id ≥ kMaxDacs) || !(s.dacs id).active ||
      decide (channel ≥ (s.dacs id).channels)) = true := by
    simp [UInt8.not_le.mpr hready.id_lt, hready.active, UInt8.not_le.mpr hchannel]
  have hbus : ¬(!wireForBus b (s.dacs id).bus || !s.i2cConfigured (s.dacs id).bus) = true := by
    simp [hready.wire, hready.configured]
  unfold writeDacRaw
  dsimp only
  rw [if_neg hslot, if_neg hbus, if_neg (not_not.mpr hsuccess)]
  rfl

theorem dacWriteRaw_ready (hready : DacReady b s id) (hchannel : channel < (s.dacs id).channels)
    (hallowed : s.safety.outputsAllowed = true) (hsuccess : env.endTransmission = 0)
    (seq : UInt16) (value : UInt16) :
    (dacWriteRaw b env s seq id channel value).2 =
      sends s seq id channel (clampDac (s.dacs id) value) := by
  rw [dacWriteRaw, if_neg (by simp [hallowed])]
  exact writeDacRaw_ready hready hchannel hsuccess seq value

theorem dacWriteNormalized_ready (hready : DacReady b s id)
    (hchannel : channel < (s.dacs id).channels) (hallowed : s.safety.outputsAllowed = true)
    (hsuccess : env.endTransmission = 0) (seq : UInt16) (normalized : UInt16) :
    (dacWriteNormalized b env s seq id channel normalized).2 =
      sends s seq id channel (code (s.dacs id) normalized) := by
  rw [dacWriteNormalized, if_neg (by simp [hallowed]),
    if_neg (by simp [UInt8.not_le.mpr hready.id_lt, hready.active])]
  exact writeDacRaw_ready hready hchannel hsuccess seq _

end Commands

/-! ### Two wire values -/

/-- What is asked of a normalised write: its code is no greater than the greatest, which 10000 and
above send, and up to 10000 it does what the raw write of the scaled value does. -/
structure Faithful (b : Board) (env : Env) (s : State) (seq : UInt16) (id channel : UInt8)
    (n : UInt16) : Prop where
  bounded : (code (s.dacs id) n).toNat ≤ maxCode (s.dacs id).resolutionBits.toNat
  saturates : 10000 ≤ n.toNat →
    (code (s.dacs id) n).toNat = maxCode (s.dacs id).resolutionBits.toNat
  raw : n.toNat ≤ 10000 →
    dacWriteNormalized b env s seq id channel n =
      dacWriteRaw b env s seq id channel
        (UInt16.ofNat (scaled (s.dacs id).resolutionBits.toNat n.toNat))

/-- Narrowed twice or once, the value is the same. -/
theorem normalized_eq_raw {b : Board} {env : Env} {s : State} {id channel : UInt8}
    (hid : id < kMaxDacs) (hactive : (s.dacs id).active = true)
    (hlow : 1 ≤ (s.dacs id).resolutionBits.toNat) (hhigh : (s.dacs id).resolutionBits.toNat ≤ 16)
    (seq : UInt16) (n : UInt16) :
    dacWriteNormalized b env s seq id channel n =
      dacWriteRaw b env s seq id channel
        (UInt16.ofNat (scaled (s.dacs id).resolutionBits.toNat n.toNat)) := by
  have hvalue : (n.toUInt32 * (dacMaxValue (s.dacs id)).toUInt32 / 10000).toUInt16 =
      UInt16.ofNat (scaled (s.dacs id).resolutionBits.toNat n.toNat) := by
    apply UInt16.toNat_inj.mp
    rw [UInt32.toNat_toUInt16, quotient_toNat hlow hhigh, UInt16.toNat_ofNat']
  rw [dacWriteNormalized, dacWriteRaw,
    if_neg (c := (decide (id ≥ kMaxDacs) || !(s.dacs id).active) = true)
      (by simp [UInt8.not_le.mpr hid, hactive])]
  dsimp only
  rw [hvalue]

theorem faithful_iff {b : Board} {env : Env} {s : State} {id channel : UInt8}
    (hid : id < kMaxDacs) (hactive : (s.dacs id).active = true)
    (hlow : 1 ≤ (s.dacs id).resolutionBits.toNat) (hhigh : (s.dacs id).resolutionBits.toNat ≤ 16)
    (seq : UInt16) (n : UInt16) :
    Faithful b env s seq id channel n ↔
      Unmisled (s.dacs id).resolutionBits.toNat n.toNat := by
  have hcode := code_toNat hlow hhigh n
  constructor
  · intro h
    by_cases hn : n.toNat ≤ 10000
    · exact unmisled_small hhigh hn
    · exact (saturates_iff (by omega)).mp (hcode.symm.trans (h.saturates (by omega)))
  · intro h
    constructor
    · rw [hcode]
      exact limited_le _ _
    · intro hn
      rw [hcode]
      exact (saturates_iff hn).mpr h
    · intro _
      exact normalized_eq_raw hid hactive hlow hhigh seq n

/-- For a slot that can be written and two wire values, the smaller first: both writes do what is
asked and the codes are in order exactly if neither scaled value misleads the limit. -/
theorem normalized_iff (b : Board) (env : Env) (s : State) (seq : UInt16) (id channel : UInt8)
    (n₁ n₂ : UInt16) (hready : DacReady b s id) (hchannel : channel < (s.dacs id).channels)
    (hallowed : s.safety.outputsAllowed = true) (hsuccess : env.endTransmission = 0)
    (hlow : 1 ≤ (s.dacs id).resolutionBits.toNat) (hhigh : (s.dacs id).resolutionBits.toNat ≤ 16)
    (hle : n₁ ≤ n₂) :
    (∀ n, (dacWriteNormalized b env s seq id channel n).2 =
        sends s seq id channel (code (s.dacs id) n)) ∧
      ((code (s.dacs id) n₁ ≤ code (s.dacs id) n₂ ∧
          Faithful b env s seq id channel n₁ ∧ Faithful b env s seq id channel n₂) ↔
        Unmisled (s.dacs id).resolutionBits.toNat n₁.toNat ∧
          Unmisled (s.dacs id).resolutionBits.toNat n₂.toNat) := by
  refine ⟨dacWriteNormalized_ready hready hchannel hallowed hsuccess seq, ?_⟩
  rw [faithful_iff hready.id_lt hready.active hlow hhigh,
    faithful_iff hready.id_lt hready.active hlow hhigh]
  constructor
  · rintro ⟨-, hboth⟩
    exact hboth
  · intro hboth
    refine ⟨?_, hboth⟩
    rw [UInt16.le_iff_toNat_le, code_toNat hlow hhigh, code_toNat hlow hhigh]
    exact limited_mono hhigh hboth.2 (UInt16.le_iff_toNat_le.mp hle)

/-- DAC 0 with so many bits at address 96 on bus 0. -/
def dacOf (bits : UInt8) : State :=
  (execute sampleBoard (envAt 0) (execute sampleBoard (envAt 0) {} 1 (.configI2cBus 0 400000)).1 2
    (.configDac 0 0 96 1 bits)).1

theorem dacOf_ready {bits : UInt8} (hbits : bits ∈ [(12 : UInt8), 16]) :
    DacReady sampleBoard (dacOf bits) 0 := by
  simp only [List.mem_cons, List.not_mem_nil, or_false] at hbits
  rcases hbits with rfl | rfl <;> exact ⟨by decide, rfl, rfl, rfl⟩

/-- Half and full scale of a 12-bit DAC. -/
theorem twelve_bits_faithful :
    code ((dacOf 12).dacs 0) 5000 ≤ code ((dacOf 12).dacs 0) 65535 ∧
      Faithful sampleBoard (envAt 0) (dacOf 12) 3 0 0 5000 ∧
      Faithful sampleBoard (envAt 0) (dacOf 12) 3 0 0 65535 := by
  obtain ⟨-, hiff⟩ := normalized_iff sampleBoard (envAt 0) (dacOf 12) 3 0 0 5000 65535
    (dacOf_ready (by decide)) (by decide) rfl rfl (by decide) (by decide) (by decide)
  exact hiff.mpr ⟨by decide +kernel, by decide +kernel⟩

/-- On a 16-bit DAC the wire value after full scale sends next to nothing. -/
theorem sixteen_bits_fall :
    let full : List Effect := [.transmit .writeDacRaw 0 96 [0xFF, 0xFF], ackTo 3]
    let fallen : List Effect := [.transmit .writeDacRaw 0 96 [0x00, 0x05], ackTo 3]
    (dacWriteNormalized sampleBoard (envAt 0) (dacOf 16) 3 0 0 10000).2 = full ∧
      (dacWriteNormalized sampleBoard (envAt 0) (dacOf 16) 3 0 0 10001).2 = fallen ∧
      ¬ code ((dacOf 16).dacs 0) 10000 ≤ code ((dacOf 16).dacs 0) 10001 ∧
      ¬ Faithful sampleBoard (envAt 0) (dacOf 16) 3 0 0 10001 := by
  refine ⟨by decide +kernel, by decide +kernel, by decide +kernel, ?_⟩
  intro h
  exact absurd (h.saturates (by decide)) (by decide +kernel)

end NormalizedDac
