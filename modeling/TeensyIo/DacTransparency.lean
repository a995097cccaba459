import TeensyIo.NormalizedDac
import TeensyIo.ServedOperations

/-! # Writes of a DAC from end to end

The client limits a value by its own copy of the DAC's configuration and the firmware by the slot.
Since the two agree, what an accepted write sends to the converter is the code asked for, and the
slot keeps it for the readings that follow. -/
namespace DacTransparency

open WireCommands LittleEndian HostProtocol HostResources HostOperations FirmwareState
open FirmwareRequests FirmwareOutcomes ServedRequests MachineRuns ConfiguredResources
open ServedOperations NormalizedDac
open EdgeCallbacks (respond handled)
open FirmwareCommands (clampDac dacMaxValue writeDacRaw answerDac)

/-- The channel and the code that a write of a DAC asks for. -/
def asked (dac : DacOutput String) : Operation → Option (ℤ × ℤ)
  | .dacWriteRaw _ value channel => some (channel, value)
  | .dacWriteNormalized _ value channel =>
    some (channel, HostResources.scaled value 10000 * dac.maxValue / 10000)
  | _ => none

/-- The code goes to the converter under the address and on the channel the client means, and
stays in the slot. -/
def Wrote (b : Board) (k : Bench) (op : Operation) (env : Env) (name : String)
    (channel code : ℤ) : Prop :=
  ∃ (i c : UInt8) (v : UInt16), (k.host.dacs name).id = some i.toNat ∧
    (c.toNat : ℤ) = channel ∧ (v.toNat : ℤ) = code ∧
    Agrees (k.host.dacs name) (k.device.dacs i) ∧
    (handled b env k.device (k.call b op env).2.log).2 =
      sends k.device (nextSeq k.host) i c v ∧
    ((k.deviceAfter b op env).dacs i).lastValue = v

section Slots

variable {b : Board} {env : Env} {s : State} {id channel : UInt8} {dac : DacOutput String}

theorem maxValue_eq {slot : DacSlot} (hagrees : Agrees dac slot) :
    dac.maxValue = (maxCode slot.resolutionBits.toNat : ℤ) := by
  have hle := hagrees.resolution_le
  have hpos : 1 ≤ 2 ^ slot.resolutionBits.toNat := Nat.one_le_two_pow
  rw [DacOutput.maxValue, hagrees.resolutionBits, maxCode]
  by_cases hlt : slot.resolutionBits.toNat < 16
  · rw [if_pos (by exact_mod_cast hlt), Int.toNat_natCast]
    push_cast [hpos]
    rfl
  · have hsixteen : slot.resolutionBits.toNat = 16 := by omega
    rw [if_neg (by rw [hsixteen]; decide), hsixteen]
    rfl

/-- A slot that is served keeps the limited value. -/
theorem writeDacRaw_kept (hready : DacReady b s id) (hchannel : channel < (s.dacs id).channels)
    (hsuccess : env.endTransmission = 0) (seq : UInt16) (value : UInt16) :
    ((answerDac seq (writeDacRaw b env s id channel value)).1.dacs id).lastValue =
      clampDac (s.dacs id) value := by
  have hslot : ¬(decide (id ≥ kMaxDacs) || !(s.dacs id).active ||
      decide (channel ≥ (s.dacs id).channels)) = true := by
    simp [UInt8.not_le.mpr hready.id_lt, hready.active, UInt8.not_le.mpr hchannel]
  have hbus : ¬(!wireForBus b (s.dacs id).bus || !s.i2cConfigured (s.dacs id).bus) = true := by
    simp [hready.wire, hready.configured]
  unfold writeDacRaw
  dsimp only
  rw [if_neg hslot, if_neg hbus, if_neg (not_not.mpr hsuccess)]
  exact congrArg DacSlot.lastValue (setAt_self _ _ _)

theorem ready_of_serves (hs : serves b s .dac id = true) : DacReady b s id := by
  simp only [serves, Bool.and_eq_true, decide_eq_true_eq] at hs
  exact ⟨hs.1.1.1, hs.1.1.2, hs.1.2, hs.2⟩

/-- A value within the client's limit is within the firmware's. -/
theorem clampDac_eq {slot : DacSlot} (hagrees : Agrees dac slot) {v : UInt16}
    (hv : (v.toNat : ℤ) ≤ dac.maxValue) : clampDac slot v = v := by
  rw [maxValue_eq hagrees] at hv
  apply UInt16.toNat_inj.mp
  rw [clampDac_toNat, dacMaxValue_toNat hagrees.resolution_pos hagrees.resolution_le]
  omega

theorem code_eq {slot : DacSlot} (hagrees : Agrees dac slot) {n : UInt16} {value : ℤ}
    (hn : (n.toNat : ℤ) = value) (hle : value ≤ 10000) :
    ((NormalizedDac.code slot n).toNat : ℤ) = value * dac.maxValue / 10000 := by
  rw [code_toNat hagrees.resolution_pos hagrees.resolution_le,
    limited_small hagrees.resolution_le (by omega), NormalizedDac.scaled, maxValue_eq hagrees, ← hn]
  push_cast
  rfl

end Slots

section Runs

variable {b : Board} {k : Bench} {op : Operation} {env : Env} {name : String}

/-- What a call sends to the device is what the device executes. -/
theorem handled_meant (hok : (k.call b op env).1 = .ok ()) :
    ∃ r, Meant k.host op r ∧
      handled b env k.device (k.call b op env).2.log =
        execute b env k.device (nextSeq k.host) r ∧
      k.deviceAfter b op env = (execute b env k.device (nextSeq k.host) r).1 := by
  rcases runOperation_sends (respond b env k.device) k.host op with
    ⟨⟨error, hraised⟩, -⟩ | ⟨id, bytes, r, hlog, hsize, hl, hm⟩
  · rw [Bench.call, hraised] at hok
    cases hok
  · have hlog : (k.call b op env).2.log = k.host.log ++ [(id, bytes)] := hlog
    refine ⟨r, hm, ?_, deviceAfter_laid hlog hsize hl⟩
    rw [hlog, EdgeCallbacks.handled_laid b env k.device k.host.log hsize hl, List.length_append]
    rfl

theorem write_exact (hserved : Served b k.host k.device (.dac, name))
    (htarget : target k.host op = some (.dac, name)) {channel code : ℤ}
    (hasked : asked (k.host.dacs name) op = some (channel, code))
    (hok : (k.call b op env).1 = .ok ()) : Wrote b k op env name channel code := by
  have hpermitted := (served_operation htarget hserved).mp hok
  obtain ⟨i, hnumber, hs, hagrees⟩ := hserved
  have hid : (k.host.dacs name).id = some i.toNat := id_of_number hnumber
  have hagrees : Agrees (k.host.dacs name) (k.device.dacs i) := hagrees rfl
  have hready := ready_of_serves hs
  obtain ⟨r, hm, hhandled, hafter⟩ := handled_meant hok
  cases hm with
  | @dacWriteRaw asked number lane id c v hasked' hc hv =>
    obtain rfl : asked = name := congrArg Prod.snd (Option.some.inj htarget)
    obtain ⟨rfl, rfl⟩ := Prod.mk.inj (Option.some.inj hasked)
    obtain ⟨⟨hlow, hhigh⟩, ⟨-, hmax⟩, hallowed, hsuccess⟩ := hpermitted
    obtain rfl := UInt8.toNat_inj.mp (Option.some.inj (hasked'.symm.trans hid))
    have hchannel : c < (k.device.dacs id).channels :=
      channel_lt hagrees (by omega) hc
    refine ⟨id, c, v, hid, hc, hv, hagrees, ?_, ?_⟩
    · rw [hhandled, execute, dacWriteRaw_ready hready hchannel hallowed hsuccess,
        clampDac_eq hagrees (by omega)]
    · rw [hafter, execute, FirmwareCommands.dacWriteRaw, if_neg (by simp [hallowed]),
        writeDacRaw_kept hready hchannel hsuccess, clampDac_eq hagrees (by omega)]
  | @dacWriteNormalized asked fraction lane id c n hasked' hc hn =>
    obtain rfl : asked = name := congrArg Prod.snd (Option.some.inj htarget)
    obtain ⟨rfl, rfl⟩ := Prod.mk.inj (Option.some.inj hasked)
    obtain ⟨⟨hlow, hhigh⟩, ⟨hpos, hone⟩, hallowed, hsuccess⟩ := hpermitted
    obtain rfl := UInt8.toNat_inj.mp (Option.some.inj (hasked'.symm.trans hid))
    have hchannel : c < (k.device.dacs id).channels :=
      channel_lt hagrees (by omega) hc
    refine ⟨id, c, NormalizedDac.code (k.device.dacs id) n, hid, hc,
      code_eq hagrees hn (ServedOperations.scaled_mem hpos hone).2, hagrees, ?_, ?_⟩
    · rw [hhandled, execute, dacWriteNormalized_ready hready hchannel hallowed hsuccess]
    · rw [hafter, execute, FirmwareCommands.dacWriteNormalized, if_neg (by simp [hallowed]),
        if_neg (by simp [UInt8.not_le.mpr hready.id_lt, hready.active]),
        writeDacRaw_kept hready hchannel hsuccess]
      rfl
  | _ => cases hasked

/-- In every state of every run, an accepted write of a DAC whose last attach has returned since
the last reset sends exactly the code asked for and leaves it as the DAC's value. -/
theorem dac_writes_exact (b : Board) (inputs : List Input) :
    EachState (Bench.step b)
      (fun k => ∀ op env name channel code, (.dac, name) ∈ k.live →
        target k.host op = some (.dac, name) →
        asked (k.host.dacs name) op = some (channel, code) → (k.call b op env).1 = .ok () →
        Wrote b k op env name channel code) {} inputs := by
  apply eachState_of_eachStep (G := fun _ _ => True) _ _ (mirrored_initial b)
  · exact eachStep_of_forall _ fun _ _ => trivial
  · intro k input hmirrored _
    exact step_mirrored hmirrored input
  · intro k hmirrored op env name channel code hlive htarget hasked hok
    exact write_exact (hmirrored.served _ hlive) htarget hasked hok

end Runs

end DacTransparency
