import TeensyIo.CheckedCommands
import TeensyIo.FirmwareExchange
import TeensyIo.FirmwareRing

/-! # What keeps the accesses within bounds

The invariant under which the checked firmware does not fault, and the arrays and responses
under it. What is computed on the way is what `FirmwareCommands` says. -/
namespace FirmwareBounds

open WireCommands FirmwareState FirmwareRing CheckedMemory CheckedCommands
open FirmwareProtocol (Packet kMaxPayloadSize)

/-! ### Array members -/

section Members

variable {ε : Type} {m : Member ε} {s : State} {i : UInt8}

/-- Nothing has been written behind the end of the array. -/
def Blank (m : Member ε) (s : State) : Prop := ∀ i, m.size ≤ i.toNat → m.table s i = m.initial

theorem load_eq (hi : i.toNat < m.size) : m.load s i = some (m.table s i) := load_of_lt hi _

theorem store_eq (hi : i.toNat < m.size) (value : ε) :
    m.store s i value = some (m.replace s (setAt (m.table s) i value)) := by
  rw [Member.store, store_of_lt hi]
  rfl

theorem blank_store (hs : Blank m s) (hi : i.toNat < m.size) (value : ε) :
    Blank m (m.replace s (setAt (m.table s) i value)) := by
  intro j hj
  have hne : j ≠ i := by
    rintro rfl
    omega
  rw [m.table_replace, setAt_of_ne hne]
  exact hs j hj

theorem toNat_ofNat {k : ℕ} (hk : k < m.size) : (UInt8.ofNat k).toNat = k := by
  have := m.size_le
  rw [UInt8.toNat_ofNat']
  omega

/-- The table when a sweep has come this far. -/
def sweptTo (m : Member ε) (hit : ε → Bool) (table : UInt8 → ε) (k : ℕ) : UInt8 → ε :=
  fun i => if i.toNat < k ∧ hit (table i) = true then m.initial else table i

theorem sweptTo_succ (hit : ε → Bool) (table : UInt8 → ε) {k : ℕ} (hk : k < m.size) :
    sweptTo m hit table (k + 1) =
      if hit (table (UInt8.ofNat k)) = true then
        setAt (sweptTo m hit table k) (UInt8.ofNat k) m.initial
      else sweptTo m hit table k := by
  have hplace := toNat_ofNat hk
  funext i
  by_cases hi : i = UInt8.ofNat k
  · subst hi
    split_ifs with hhit
    · rw [setAt_self, sweptTo, hplace, if_pos ⟨Nat.lt_succ_self k, hhit⟩]
    · rw [sweptTo, sweptTo, if_neg (fun h => hhit h.2), if_neg (fun h => hhit h.2)]
  · have hother : i.toNat ≠ k := by
      rintro rfl
      exact hi UInt8.ofNat_toNat.symm
    have hsame : (i.toNat < k + 1 ∧ hit (table i) = true) ↔
        (i.toNat < k ∧ hit (table i) = true) := by
      constructor
      · rintro ⟨hlt, hhit⟩
        exact ⟨by omega, hhit⟩
      · rintro ⟨hlt, hhit⟩
        exact ⟨by omega, hhit⟩
    split_ifs with hhit
    · rw [setAt_of_ne hi, sweptTo, sweptTo]
      exact if_congr hsame rfl rfl
    · rw [sweptTo, sweptTo]
      exact if_congr hsame rfl rfl

/-- A sweep hits the elements of the array, and what lies behind it is initial anyway. -/
theorem sweep_eq (hs : Blank m s) (hit : ε → Bool) (effects : ε → List Effect) :
    m.sweep s hit effects = some
      (m.replace s fun i => if hit (m.table s i) = true then m.initial else m.table s i,
        (indices m.size).flatMap fun i => effects (m.table s i)) := by
  have hlt : m.size < 256 := Nat.lt_of_le_of_lt m.size_le (by decide)
  obtain ⟨out, hrun, rfl⟩ := countTo_rule (s := (s, []))
    (m.sweepTurn hit effects)
    (fun k out => out = (m.replace s (sweptTo m hit (m.table s) k),
      (indices k).flatMap fun i => effects (m.table s i))) hlt
    (fun k hk out hout => by
      subst hout
      have hplace := toNat_ofNat hk
      have hlow : (UInt8.ofNat k).toNat < m.size := hplace.symm ▸ hk
      have hslot : sweptTo m hit (m.table s) k (UInt8.ofNat k) = m.table s (UInt8.ofNat k) := by
        rw [sweptTo, hplace, if_neg fun h => Nat.lt_irrefl k h.1]
      refine ⟨_, ?_, rfl⟩
      simp only [Member.sweepTurn, load_eq hlow, store_eq hlow, m.table_replace, hslot,
        Option.bind_eq_bind, Option.bind_some, sweptTo_succ hit (m.table s) hk,
        m.replace_replace]
      have hnext : indices (k + 1) = indices k ++ [UInt8.ofNat k] := by
        simp [indices, List.range_succ]
      rw [hnext, List.flatMap_append]
      split_ifs <;> simp)
    (by
      have hnone : sweptTo m hit (m.table s) 0 = m.table s := by
        funext i
        simp [sweptTo]
      rw [hnone, m.replace_table]
      rfl)
  rw [Member.sweep, hrun]
  congr 2
  congr 1
  funext i
  by_cases hi : i.toNat < m.size
  · simp [sweptTo, hi]
  · have hinitial := hs i (by omega)
    simp [sweptTo, hi, hinitial]

theorem clear_eq (hs : Blank m s) : m.clear s = some (m.replace s fun _ => m.initial) := by
  rw [Member.clear, sweep_eq hs]
  rfl

end Members

/-! ### What every run keeps -/

/-- The slot can be written to without leaving an array. -/
structure DacWorks (configured : UInt8 → Bool) (slot : DacSlot) : Prop where
  bus_lt : slot.bus < kMaxI2cBuses
  configured : configured slot.bus = true
  channels : 1 ≤ slot.channels
  resolution : 1 ≤ slot.resolutionBits ∧ slot.resolutionBits ≤ 16

structure InBounds (b : Board) (s : State) : Prop where
  pwmConfigured : Blank (pwmConfigured b) s
  analogConfigured : Blank (analogConfigured b) s
  analogSamples : Blank (analogSamples b) s
  subscriptions : Blank subscriptions s
  i2cConfigured : Blank i2cConfigured s
  dacs : Blank dacs s
  outbound : Blank outbound s
  counters : Blank counters s
  encoders : Blank encoders s
  ring : RingSound s
  frames : ∀ i, (s.outbound i).payload.length ≤ kMaxPayloadSize
  working : ∀ id, (s.dacs id).active = true → DacWorks s.i2cConfigured (s.dacs id)

theorem inBounds_initial (b : Board) (safety : SafetyState) : InBounds b { safety := safety } where
  pwmConfigured _ _ := rfl
  analogConfigured _ _ := rfl
  analogSamples _ _ := rfl
  subscriptions _ _ := rfl
  i2cConfigured _ _ := rfl
  dacs _ _ := rfl
  outbound _ _ := rfl
  counters _ _ := rfl
  encoders _ _ := rfl
  ring := ringSound_initial
  frames _ := Nat.zero_le _
  working _ h := absurd h Bool.false_ne_true

namespace InBounds

variable {b : Board} {s : State}

theorem withSafety (h : InBounds b s) (safety : SafetyState) :
    InBounds b { s with safety := safety } := { h with }

theorem withPwm (h : InBounds b s) {pin : UInt8} (hpin : pin.toNat < b.numDigitalPins)
    (on : Bool) : InBounds b { s with pwmConfigured := setAt s.pwmConfigured pin on } :=
  { h with pwmConfigured := blank_store h.pwmConfigured hpin on }

theorem withAnalog (h : InBounds b s) {pin : UInt8} (hpin : pin.toNat < b.numDigitalPins)
    (samples : UInt8) :
    InBounds b { s with
      analogConfigured := setAt s.analogConfigured pin true
      analogSamples := setAt s.analogSamples pin samples } :=
  { h with
    analogConfigured := blank_store h.analogConfigured hpin true
    analogSamples := blank_store h.analogSamples hpin samples }

theorem withCounter (h : InBounds b s) {id : UInt8} (hid : id < kMaxCounters)
    (slot : CounterSlot) : InBounds b { s with counters := setAt s.counters id slot } :=
  { h with counters := blank_store h.counters (UInt8.lt_iff_toNat_lt.mp hid) slot }

theorem withEncoder (h : InBounds b s) {id : UInt8} (hid : id < kMaxEncoders)
    (slot : EncoderSlot) : InBounds b { s with encoders := setAt s.encoders id slot } :=
  { h with encoders := blank_store h.encoders (UInt8.lt_iff_toNat_lt.mp hid) slot }

theorem withSubscription (h : InBounds b s) {i : UInt8} (hi : i.toNat < kMaxSubscriptions.toNat)
    (slot : SubscriptionSlot) :
    InBounds b { s with subscriptions := setAt s.subscriptions i slot } :=
  { h with subscriptions := blank_store h.subscriptions hi slot }

/-- A bus that is configured stays configured. -/
theorem withBus (h : InBounds b s) {bus : UInt8} (hbus : bus < kMaxI2cBuses) :
    InBounds b { s with i2cConfigured := setAt s.i2cConfigured bus true } :=
  { h with
    i2cConfigured := blank_store h.i2cConfigured (UInt8.lt_iff_toNat_lt.mp hbus) true
    working := fun id hid => by
      obtain ⟨hlt, hconfigured, hchannels, hresolution⟩ := h.working id hid
      refine ⟨hlt, ?_, hchannels, hresolution⟩
      by_cases hsame : (s.dacs id).bus = bus
      · dsimp only
        rw [hsame, setAt_self]
      · exact (setAt_of_ne hsame s.i2cConfigured true).trans hconfigured }

theorem withDac (h : InBounds b s) {id : UInt8} (hid : id < kMaxDacs) {slot : DacSlot}
    (hslot : slot.active = true → DacWorks s.i2cConfigured slot) :
    InBounds b { s with dacs := setAt s.dacs id slot } :=
  { h with
    dacs := blank_store h.dacs (UInt8.lt_iff_toNat_lt.mp hid) slot
    working := fun other hother => by
      dsimp only at hother ⊢
      by_cases hsame : other = id
      · subst hsame
        rw [setAt_self] at hother ⊢
        exact hslot hother
      · rw [setAt_of_ne hsame] at hother ⊢
        exact h.working other hother }

end InBounds

/-- The computation does not fault: it has this outcome, and the state stays within bounds. -/
def Yields (b : Board) (c : Option Outcome) (out : Outcome) : Prop :=
  c = some out ∧ InBounds b out.1

/-- A step that does not fault hands its result on. -/
theorem Yields.bind {σ : Type} {b : Board} {c : Option σ} {x : σ} (hc : c = some x)
    {f : σ → Option Outcome} {out : Outcome} (hf : Yields b (f x) out) :
    Yields b (c >>= f) out := by
  rw [hc]
  exact hf

theorem Yields.ite {b : Board} {p : Prop} [Decidable p] {c d : Option Outcome} {out other : Outcome}
    (hthen : Yields b c out) (helse : Yields b d other) :
    Yields b (if p then c else d) (if p then out else other) := by
  by_cases hp : p
  · rw [if_pos hp, if_pos hp]
    exact hthen
  · rw [if_neg hp, if_neg hp]
    exact helse

/-! ### Responses -/

section Responses

variable {b : Board} {s : State} {seq : UInt16}

theorem frame_eq (type : PacketType) (seq : UInt16) {payload : List UInt8} {length : UInt16}
    (hlength : length.toNat ≤ payload.length) (hmax : length.toNat ≤ kMaxPayloadSize) :
    frame type seq payload length = some (.write type seq (payload.take length.toNat)) := by
  simp only [frame, CheckedProtocol.write_eq _ _ hlength hmax, Option.bind_eq_bind,
    Option.bind_some]

theorem ackTo_eq (seq : UInt16) : ackTo seq = some (FirmwareCommands.ackTo seq) :=
  frame_eq _ _ (by decide) (by decide)

theorem nack_eq (seq : UInt16) (code : ErrorCode) :
    nack seq code = some (FirmwareCommands.nack seq code) :=
  frame_eq _ _ (Nat.le_refl 1) (by decide)

theorem refuse_yields (h : InBounds b s) (code : ErrorCode) :
    Yields b (refuse s seq code) (FirmwareCommands.refuse s seq code) :=
  ⟨by rw [refuse, nack_eq]; rfl, h⟩

theorem acknowledge_yields (h : InBounds b s) (effects : List Effect) :
    Yields b (acknowledge s effects seq) (s, effects ++ [FirmwareCommands.ackTo seq]) :=
  ⟨by rw [acknowledge, ackTo_eq]; rfl, h⟩

theorem answer_yields (h : InBounds b s) {payload : List UInt8} {length : UInt16}
    (hlength : payload.length = length.toNat) (hmax : length.toNat ≤ kMaxPayloadSize) :
    Yields b (answer s seq payload length) (s, [FirmwareCommands.data seq payload]) := by
  refine ⟨?_, h⟩
  rw [answer, data, frame_eq _ _ hlength.ge hmax, ← hlength, List.take_length]
  rfl

theorem respondTurns {effects : List Effect}
    (hfits : ∀ w ∈ FirmwareResponses.framesWritten effects, w.payload.length ≤ kMaxPayloadSize)
    (before : List Effect) :
    effects.foldlM respondTurn before = some (before ++ effects) := by
  induction effects generalizing before with
  | nil => simp
  | cons e effects ih =>
    have hturn : respondTurn before e = some (before ++ [e]) := by
      cases e with
      | write type seq payload =>
        have hle : payload.length ≤ kMaxPayloadSize := hfits ⟨type, seq, payload⟩ (by
          rw [FirmwareResponses.framesWritten, List.filterMap_cons]
          exact List.mem_cons_self)
        have hsize : (UInt16.ofNat payload.length).toNat = payload.length := by
          rw [UInt16.toNat_ofNat']
          change payload.length ≤ 128 at hle
          omega
        rw [respondTurn, frame_eq type seq hsize.le (hsize.symm ▸ hle), hsize, List.take_length]
        rfl
      | _ => rfl
    rw [List.foldlM_cons, hturn]
    refine (ih (fun w hw => hfits w ?_) _).trans (by simp)
    rw [FirmwareResponses.framesWritten, List.filterMap_cons]
    split
    · exact hw
    · exact List.mem_cons_of_mem _ hw

/-- The responses of the firmware fit into a packet. -/
theorem respond_execute (b : Board) (env : Env) (s : State) (seq : UInt16)
    (r : FirmwareRequests.Request) :
    respond (FirmwareRequests.execute b env s seq r) =
      some (FirmwareRequests.execute b env s seq r) := by
  obtain ⟨w, hframes, hanswers⟩ := FirmwareResponses.executed_answers b env s
    (FirmwareOutcomes.execute_spec b env s seq r)
  have hfits : ∀ w ∈ FirmwareResponses.framesWritten
      (FirmwareRequests.execute b env s seq r).2, w.payload.length ≤ kMaxPayloadSize := by
    intro v hv
    rw [hframes] at hv
    obtain rfl := List.mem_singleton.mp hv
    exact hanswers.fits
  rw [respond, respondTurns hfits]
  rfl

end Responses

end FirmwareBounds
