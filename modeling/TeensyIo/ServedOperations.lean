import TeensyIo.ConfiguredResources

/-! # Operations that are served

An operation on a resource that is configured on both sides returns without an exception exactly
if its arguments are in range and the device permits it: nothing else makes the client raise or
the firmware refuse. -/
namespace ServedOperations

open WireCommands LittleEndian HostProtocol HostClient HostResources HostOperations FirmwareState
open FirmwareRequests ServedRequests RequestLayouts MachineRuns ConfiguredResources
open EdgeCallbacks (respond firstFree)
open ConfigurationPlans (InByte pyBytes_returns pyBytes_length concat_returns u8Duty_inByte)

/-! ### What an operation needs -/

/-- The resource that an operation works on. -/
def target (h : Host) : Operation → Option (Kind × String)
  | .pinRead name | .pinWrite name _ | .onEdge name _ _ => some (.pin, name)
  | .pwmWrite name _ | .pwmDisable name => some (.pwm, name)
  | .analogRead name => some (.analog, name)
  | .counterRead name | .counterDelta name | .counterFrequency name _ _ | .counterReset name =>
    some (.counter, name)
  | .encoderRead name | .encoderDelta name | .encoderReset name => some (.encoder, name)
  | .i2cWrite name _ _ | .i2cRead name _ _ => some (.bus, name)
  | .dacWriteRaw name _ _ | .dacWriteNormalized name _ _ => some (.dac, name)
  | .subscribe name _ _ | .unsubscribe name =>
    match resourceRef h name with
    | .error _ => none
    | .ok (kind, _) => some (kindOf kind, name)
  | _ => none

def InAddress (address : ℤ) : Prop := 0 ≤ address ∧ address ≤ 0x7F

/-- The arguments are in range and the device permits the operation. -/
def Permitted (env : Env) (h : Host) (s : State) : Operation → Prop
  | .pinWrite _ value => InByte value ∧ s.safety.outputsAllowed = true
  | .pwmWrite _ duty => (0 ≤ duty ∧ duty ≤ 1) ∧ s.safety.outputsAllowed = true
  | .onEdge _ edge _ => (edgeFlags edge).isSome = true ∧ (firstFree s).isSome = true
  | .subscribe _ rateHz _ =>
    (0 ≤ (rateHz.map truncate).getD 0 ∧ (rateHz.map truncate).getD 0 < 65536) ∧
      (firstFree s).isSome = true
  | .i2cWrite _ address data =>
    (InAddress address ∧ data.length ≤ 124) ∧ env.endTransmission = 0
  | .i2cRead _ address length => (0 ≤ length ∧ length ≤ 128) ∧ InAddress address
  | .dacWriteRaw name value channel =>
    (0 ≤ channel ∧ channel < (h.dacs name).channels) ∧
      (0 ≤ value ∧ value ≤ (h.dacs name).maxValue) ∧
        s.safety.outputsAllowed = true ∧ env.endTransmission = 0
  | .dacWriteNormalized name value channel =>
    (0 ≤ channel ∧ channel < (h.dacs name).channels) ∧ (0 ≤ value ∧ value ≤ 1) ∧
      s.safety.outputsAllowed = true ∧ env.endTransmission = 0
  | _ => True

/-! ### Calls that return -/

def Returns {α : Type} (result : Result α) : Prop := ∃ v, result.1 = .ok v

theorem outcome_returns {α : Type} {result : Result α} :
    (outcome result).1 = .ok () ↔ Returns result := by
  obtain ⟨error | v, h'⟩ := result
  · refine iff_of_false nofun ?_
    rintro ⟨v, hv⟩
    cases hv
  · exact iff_of_true rfl ⟨v, rfl⟩

theorem not_returns_error {α : Type} {error : PyError} {h' : Host} :
    ¬ Returns ((.error error, h') : Result α) := by
  rintro ⟨v, hv⟩
  cases hv

section Commands

variable {b : Board} {env : Env} {s : State} {h : Host} {α β : Type}

theorem next_returns {result : Result α} {rest : α → Host → Result β}
    (hrest : ∀ v h', result.1 = .ok v → Returns (rest v h')) :
    Returns (result.next rest) ↔ Returns result := by
  obtain ⟨error | v, h'⟩ := result
  · exact iff_of_false not_returns_error not_returns_error
  · exact iff_of_true (hrest v h' rfl) ⟨v, rfl⟩

/-- A command returns if its payload can be formed and the firmware accepts what it means. -/
theorem command_returns {id : CommandId} {payload : Except PyError (List UInt8)} {P : Prop}
    (hlaid : ∀ bytes, payload = .ok bytes →
      ∃ r, Laid r id bytes ∧ ∀ seq, Accepts (execute b env s seq r) ↔ P) :
    Returns (command (respond b env s) h id payload) ↔
      (∃ bytes, payload = .ok bytes ∧ bytes.length < maxPayloadSize) ∧ P := by
  constructor
  · rintro ⟨reply, hreply⟩
    obtain ⟨bytes, hbytes, hsize, hanswer, -⟩ := command_accepted hreply
    obtain ⟨r, hl, haccepts⟩ := hlaid bytes hbytes
    rw [respond_laid hsize hl] at hanswer
    exact ⟨⟨bytes, hbytes, hsize⟩, (haccepts _).mp ⟨reply, hanswer⟩⟩
  · rintro ⟨⟨bytes, hbytes, hsize⟩, hP⟩
    obtain ⟨r, hl, haccepts⟩ := hlaid bytes hbytes
    obtain ⟨reply, hreply⟩ := (haccepts (UInt16.ofNat (h.log ++ [(id, bytes)]).length)).mpr hP
    rw [hbytes, command, if_neg (by omega)]
    exact ⟨reply, (respond_laid hsize hl).trans hreply⟩

/-- A command whose payload is a few bytes. -/
theorem bytes_return {id : CommandId} {values : List ℤ} {P : Prop}
    (hshort : values.length < maxPayloadSize)
    (hlaid : ∀ bytes, pyBytes values = .ok bytes →
      ∃ r, Laid r id bytes ∧ ∀ seq, Accepts (execute b env s seq r) ↔ P) :
    Returns (command (respond b env s) h id (pyBytes values)) ↔
      (∀ v ∈ values, InByte v) ∧ P := by
  rw [command_returns hlaid, ← pyBytes_returns]
  refine and_congr_left fun _ => exists_congr fun bytes => ?_
  rw [and_iff_left_of_imp]
  intro hbytes
  rw [pyBytes_length hbytes]
  exact hshort

theorem inByte_toNat (i : UInt8) : InByte (i.toNat : ℤ) := by
  have hlt : i.toNat < 256 := i.toNat_lt
  exact ⟨by omega, by omega⟩

theorem inByte_two {a c : ℤ} (ha : InByte a) (hc : InByte c) : ∀ v ∈ [a, c], InByte v := by
  simp only [List.forall_mem_cons, List.not_mem_nil, false_implies, implies_true, and_true]
  exact ⟨ha, hc⟩

theorem inByte_three {a c d : ℤ} (ha : InByte a) (hc : InByte c) (hd : InByte d) :
    ∀ v ∈ [a, c, d], InByte v := List.forall_mem_cons.mpr ⟨ha, inByte_two hc hd⟩

/-- A command whose payload is the number of a resource. -/
theorem number_returns {id : CommandId} {i : UInt8} {P : Prop} {r : Request} (hl : Laid r id [i])
    (haccepts : ∀ seq, Accepts (execute b env s seq r) ↔ P) :
    Returns (command (respond b env s) h id (pyBytes [(i.toNat : ℤ)])) ↔ P := by
  rw [bytes_return (P := P) (by simp [maxPayloadSize])]
  · rw [and_iff_right]
    intro v hv
    rw [List.mem_singleton.mp hv]
    exact inByte_toNat i
  · intro bytes hb
    obtain - | ⟨hbyte, ⟨⟩⟩ := pyBytes_ok hb
    obtain rfl := byte_eq hbyte
    exact ⟨r, hl, haccepts⟩

/-- What a command returns was acknowledged. -/
theorem command_acks {id : CommandId} {payload : Except PyError (List UInt8)} {r : Request}
    (hlaid : ∀ bytes, payload = .ok bytes → Laid r id bytes) {reply : List UInt8}
    (hok : (command (respond b env s) h id payload).1 = .ok reply) :
    ∃ seq, CounterDeltas.Acks (execute b env s seq r) reply := by
  obtain ⟨bytes, hbytes, hsize, hanswer, -⟩ := command_accepted hok
  exact ⟨_, CounterDeltas.respond_acks hsize (hlaid bytes hbytes) hanswer⟩

theorem number_laid {id : CommandId} {i : UInt8} {r : Request} (hl : Laid r id [i])
    (bytes : List UInt8) (hb : pyBytes [(i.toNat : ℤ)] = .ok bytes) : Laid r id bytes := by
  obtain - | ⟨hbyte, ⟨⟩⟩ := pyBytes_ok hb
  obtain rfl := byte_eq hbyte
  exact hl

end Commands

/-! ### Operation by operation -/

section Operations

variable {b : Board} {env : Env} {s : State} {h : Host} {name : String} {i : UInt8}

theorem ok_returns {α : Type} {h' : Host} (v : α) : Returns ((.ok v, h') : Result α) := ⟨v, rfl⟩

theorem pinRead_returns (hpin : (h.pins name).physicalPin = some (i.toNat : ℤ))
    (hs : serves b s .pin i = true) : Returns (pinRead (respond b env s) h name) := by
  rw [pinRead, hpin]
  apply (next_returns _).mpr
  · exact (number_returns (.digitalRead i) fun _ => served_iff rfl hs).mpr trivial
  · intro reply h' hreply
    obtain ⟨seq, hacks⟩ := command_acks (number_laid (.digitalRead i)) hreply
    rw [execute, FirmwareCommands.digitalRead] at hacks
    rw [CounterDeltas.acks_guard hacks] at hacks
    rw [CounterDeltas.acks_data hacks]
    exact ok_returns _

/-- A single command that works on a configured resource. -/
theorem served_accepts {r : Request} {kind : Kind} (hu : uses r = some (kind, i))
    (hs : serves b s kind i = true) {P : Prop} (hP : permits env s r ↔ P) (seq : UInt16) :
    Accepts (execute b env s seq r) ↔ P := (served_iff hu hs).trans hP

theorem pinWrite_returns (hpin : (h.pins name).physicalPin = some (i.toNat : ℤ))
    (hs : serves b s .pin i = true) (value : ℤ) :
    Returns (pinWrite (respond b env s) h name value) ↔
      InByte value ∧ s.safety.outputsAllowed = true := by
  rw [pinWrite, hpin]
  dsimp only
  rw [next_returns fun _ _ _ => ok_returns _, bytes_return (by simp [maxPayloadSize])
    (P := s.safety.outputsAllowed = true)]
  · simp [inByte_toNat]
  · intro bytes hb
    obtain - | ⟨hbyte, - | ⟨hvalue, ⟨⟩⟩⟩ := pyBytes_ok hb
    obtain rfl := byte_eq hbyte
    exact ⟨_, .digitalWrite _ _, served_accepts rfl hs Iff.rfl⟩

theorem onEdge_returns (hpin : (h.pins name).physicalPin = some (i.toNat : ℤ))
    (hs : serves b s .pin i = true) (edge : String) (callback : ℕ) :
    Returns (onEdge (respond b env s) h name edge callback) ↔
      (edgeFlags edge).isSome = true ∧ (firstFree s).isSome = true := by
  rw [onEdge, hpin]
  dsimp only
  cases hflags : edgeFlags edge with
  | none => exact iff_of_false not_returns_error fun hp => by cases hp.1
  | some flags =>
    have hbyte : InByte ((0x01 ||| flags : ℕ) : ℤ) := by
      rcases EdgeCallbacks.edgeFlags_cases hflags with ⟨-, rfl⟩ | ⟨-, rfl⟩ | ⟨-, rfl⟩ <;> decide
    dsimp only
    rw [next_returns fun _ _ _ => ok_returns _, bytes_return (by simp [maxPayloadSize])
      (P := (firstFree s).isSome = true)]
    · have hall : ∀ v ∈ [(ResourceKind.digital.toByte.toNat : ℤ), (i.toNat : ℤ), 0, 0,
          ((0x01 ||| flags : ℕ) : ℤ)], InByte v := by
        have htail := inByte_three (show InByte 0 by decide) (show InByte 0 by decide) hbyte
        exact List.forall_mem_cons.mpr
          ⟨inByte_toNat _, List.forall_mem_cons.mpr ⟨inByte_toNat i, htail⟩⟩
      exact and_congr_left fun _ => iff_of_true hall rfl
    · intro bytes hb
      obtain - | ⟨hkind, - | ⟨hid, - | ⟨hlow, - | ⟨hhigh, - | ⟨-, ⟨⟩⟩⟩⟩⟩⟩ := pyBytes_ok hb
      obtain rfl := byte_eq hkind
      obtain rfl := byte_eq hid
      obtain rfl := byte_eq (c := 0) hlow
      obtain rfl := byte_eq (c := 0) hhigh
      exact ⟨_, .subscribe _ _ 0 _, served_accepts rfl hs Iff.rfl⟩

theorem pwmWrite_returns (hpin : (h.pwms name).physicalPin = some (i.toNat : ℤ))
    (hs : serves b s .pwm i = true) (duty : ℚ) :
    Returns (pwmWrite (respond b env s) h name duty) ↔
      (0 ≤ duty ∧ duty ≤ 1) ∧ s.safety.outputsAllowed = true := by
  rw [pwmWrite, hpin]
  dsimp only
  rw [next_returns fun _ _ _ => ok_returns _]
  by_cases hduty : 0 ≤ duty ∧ duty ≤ 1
  · obtain ⟨n, hn, hbyte⟩ := u8Duty_inByte hduty.1 hduty.2
    rw [hn, Except.bind, bytes_return (by simp [maxPayloadSize])
      (P := s.safety.outputsAllowed = true)]
    · simp [inByte_toNat, hbyte, hduty]
    · intro bytes hb
      obtain - | ⟨hpin, - | ⟨-, ⟨⟩⟩⟩ := pyBytes_ok hb
      obtain rfl := byte_eq hpin
      exact ⟨_, .pwmWrite _ _, served_accepts rfl hs Iff.rfl⟩
  · have hraised : u8Duty duty = .error .valueError := by
      rw [u8Duty, if_pos]
      by_contra hrange
      rw [not_or, not_lt, not_lt] at hrange
      exact hduty hrange
    rw [hraised]
    exact iff_of_false not_returns_error fun hp => hduty hp.1

theorem pwmDisable_returns (hpin : (h.pwms name).physicalPin = some (i.toNat : ℤ))
    (hs : serves b s .pwm i = true) : Returns (pwmDisable (respond b env s) h name) := by
  rw [pwmDisable, hpin]
  dsimp only
  rw [next_returns fun _ _ _ => ok_returns _, number_returns (.pwmDisable i)
    (served_accepts rfl hs Iff.rfl)]
  trivial

theorem analogRead_returns (hpin : (h.analogs name).physicalPin = some (i.toNat : ℤ))
    (hs : serves b s .analog i = true) : Returns (analogRead (respond b env s) h name) := by
  rw [analogRead, hpin]
  dsimp only
  rw [next_returns fun _ _ _ => ok_returns _, number_returns (.analogRead i)
    (served_accepts rfl hs Iff.rfl)]
  trivial

theorem counterRead_returns (hid : (h.counters name).id = some i.toNat)
    (hs : serves b s .counter i = true) : Returns (counterRead (respond b env s) h name) := by
  rw [counterRead, hid]
  apply (next_returns _).mpr
  · exact (number_returns (.counterRead i) fun _ => served_iff rfl hs).mpr trivial
  · intro reply h' hreply
    obtain ⟨seq, hacks⟩ := command_acks (number_laid (.counterRead i)) hreply
    rw [(CounterDeltas.counterRead_acks hacks).2, ArgumentAgreement.responseI32_writeI32]
    exact ok_returns _

theorem counterFrequency_returns (hid : (h.counters name).id = some i.toNat)
    (hs : serves b s .counter i = true) (windowMs : ℤ) (now : ℚ) :
    Returns (counterFrequency (respond b env s) h name windowMs now) := by
  by_cases hwindow : windowMs ≤ 0
  · rw [counterFrequency, hid]
    dsimp only
    rw [if_pos hwindow]
    apply (next_returns _).mpr
    · exact (number_returns (.counterFrequency i) fun _ => served_iff rfl hs).mpr trivial
    · intro reply h' hreply
      obtain ⟨seq, hacks⟩ := command_acks (number_laid (.counterFrequency i)) hreply
      rw [execute, FirmwareCommands.counterFrequency] at hacks
      rw [CounterDeltas.acks_guard hacks] at hacks
      rw [CounterDeltas.acks_data hacks, ArgumentAgreement.responseU32_writeU32]
      exact ok_returns _
  · rw [counterFrequency, hid]
    dsimp only
    rw [if_neg hwindow, next_returns fun _ _ _ => ok_returns _]
    exact counterRead_returns hid hs

theorem counterReset_returns (hid : (h.counters name).id = some i.toNat)
    (hs : serves b s .counter i = true) : Returns (counterReset (respond b env s) h name) := by
  rw [counterReset, hid]
  dsimp only
  rw [next_returns fun _ _ _ => ok_returns _]
  exact (number_returns (.counterReset i) fun _ => served_iff rfl hs).mpr trivial

theorem encoderRead_returns (hid : (h.encoders name).id = some i.toNat)
    (hs : serves b s .encoder i = true) : Returns (encoderRead (respond b env s) h name) := by
  rw [encoderRead, hid]
  apply (next_returns _).mpr
  · exact (number_returns (.encoderRead i) fun _ => served_iff rfl hs).mpr trivial
  · intro reply h' hreply
    obtain ⟨seq, hacks⟩ := command_acks (number_laid (.encoderRead i)) hreply
    rw [(CounterDeltas.encoderRead_acks hacks).2, ArgumentAgreement.responseI32_writeI32]
    exact ok_returns _

theorem encoderReset_returns (hid : (h.encoders name).id = some i.toNat)
    (hs : serves b s .encoder i = true) : Returns (encoderReset (respond b env s) h name) := by
  rw [encoderReset, hid]
  dsimp only
  rw [next_returns fun _ _ _ => ok_returns _]
  exact (number_returns (.encoderReset i) fun _ => served_iff rfl hs).mpr trivial

/-! ### I2C buses and DACs -/

theorem u7Address_cases (address : ℤ) :
    InAddress address ∧ u7Address address = .ok address ∨
      ¬ InAddress address ∧ u7Address address = .error .valueError := by
  by_cases haddress : address < 0 ∨ 0x7F < address
  · right
    rw [u7Address, if_pos haddress]
    exact ⟨fun h => by unfold InAddress at h; omega, rfl⟩
  · left
    rw [u7Address, if_neg haddress]
    exact ⟨by unfold InAddress; omega, rfl⟩

theorem inByte_address {address : ℤ} (h : InAddress address) : InByte address :=
  ⟨h.1, h.2.trans (by decide)⟩

theorem concat_two (head tail : List UInt8) :
    concat [.ok head, .ok tail] = .ok (head ++ tail) := by simp [concat]

theorem i2cWrite_returns (hbus : (h.i2cBuses name).bus = some (i.toNat : ℤ))
    (hs : serves b s .bus i = true) (address : ℤ) (data : List UInt8) :
    Returns (i2cWrite (respond b env s) h name address data) ↔
      (InAddress address ∧ data.length ≤ 124) ∧ env.endTransmission = 0 := by
  rw [i2cWrite, hbus]
  dsimp only
  rw [next_returns fun _ _ _ => ok_returns _]
  rcases u7Address_cases address with ⟨haddress, hchecked⟩ | ⟨haddress, hchecked⟩
  · rw [hchecked, Except.bind, command_returns (P := env.endTransmission = 0)]
    · refine and_congr_left fun _ => ?_
      constructor
      · rintro ⟨bytes, hb, hsize⟩
        obtain ⟨head, _, hhead, htail, rfl⟩ := concat_ok hb
        obtain ⟨_, _, ⟨⟩, ⟨⟩, rfl⟩ := concat_ok htail
        have hlength : head.length = 3 := pyBytes_length hhead
        simp only [List.length_append, List.length_nil, hlength, maxPayloadSize] at hsize
        exact ⟨haddress, by omega⟩
      · rintro ⟨-, hlength⟩
        have hall : ∀ v ∈ [(i.toNat : ℤ), address, (data.length : ℤ)], InByte v :=
          inByte_three (inByte_toNat i) (inByte_address haddress) (by unfold InByte; omega)
        obtain ⟨head, hhead⟩ := pyBytes_returns.mpr hall
        refine ⟨head ++ data, ?_, ?_⟩
        · rw [hhead, concat_two]
        · rw [List.length_append, pyBytes_length hhead, maxPayloadSize]
          simp only [List.length_cons, List.length_nil]
          omega
    · intro bytes hb
      obtain ⟨_, _, hhead, htail, rfl⟩ := concat_ok hb
      obtain ⟨_, _, ⟨⟩, ⟨⟩, rfl⟩ := concat_ok htail
      obtain - | ⟨hnumber, - | ⟨-, - | ⟨hlength, ⟨⟩⟩⟩⟩ := pyBytes_ok hhead
      obtain rfl := byte_eq hnumber
      rw [List.append_nil]
      exact ⟨_, .i2cWrite _ _ _ _ (by exact_mod_cast hlength), served_accepts rfl hs Iff.rfl⟩
  · rw [hchecked]
    exact iff_of_false not_returns_error fun hp => haddress hp.1.1

theorem i2cRead_returns (hbus : (h.i2cBuses name).bus = some (i.toNat : ℤ))
    (hs : serves b s .bus i = true) (address length : ℤ) :
    Returns (i2cRead (respond b env s) h name address length) ↔
      (0 ≤ length ∧ length ≤ 128) ∧ InAddress address := by
  rw [i2cRead, hbus]
  dsimp only
  by_cases hlength : length < 0 ∨ 128 < length
  · rw [if_pos hlength]
    exact iff_of_false not_returns_error fun hp => by omega
  · rw [if_neg hlength]
    rcases u7Address_cases address with ⟨haddress, hchecked⟩ | ⟨haddress, hchecked⟩
    · rw [hchecked, Except.bind, bytes_return (by simp [maxPayloadSize]) (P := True)]
      · have hall : ∀ v ∈ [(i.toNat : ℤ), address, length], InByte v :=
          inByte_three (inByte_toNat i) (inByte_address haddress) (by unfold InByte; omega)
        exact iff_of_true ⟨hall, trivial⟩ ⟨by omega, haddress⟩
      · intro bytes hb
        obtain - | ⟨hnumber, - | ⟨-, - | ⟨hbyte, ⟨⟩⟩⟩⟩ := pyBytes_ok hb
        obtain rfl := byte_eq hnumber
        refine ⟨_, .i2cRead _ _ _, served_accepts rfl hs (iff_of_true ?_ trivial)⟩
        rw [permits, FirmwareProtocol.kMaxPayloadSize]
        omega
    · rw [hchecked]
      exact iff_of_false not_returns_error fun hp => haddress hp.2

/-- The payload of both DAC writes can be formed. -/
theorem dacPayload_returns {channel value : ℤ} (hchannel : InByte channel)
    (hvalue : 0 ≤ value ∧ value < 65536) :
    ∃ bytes, concat [pyBytes [((i.toNat : ℕ) : ℤ), channel], toBytes16 value] = .ok bytes ∧
      bytes.length < maxPayloadSize := by
  obtain ⟨head, hhead⟩ := pyBytes_returns.mpr (inByte_two (inByte_toNat i) hchannel)
  refine ⟨head ++ toBytes 2 value.toNat, ?_, ?_⟩
  · rw [hhead, toBytes16, if_pos hvalue, concat_two]
  · rw [List.length_append, pyBytes_length hhead, length_toBytes]
    simp [maxPayloadSize]

section Dac

variable {dac : DacOutput String} {slot : DacSlot}

theorem maxValue_le (hagrees : Agrees dac slot) : dac.maxValue < 65536 := by
  rw [DacOutput.maxValue]
  split_ifs with hbits
  · rw [hagrees.resolutionBits, Int.toNat_natCast]
    have hlt : slot.resolutionBits.toNat ≤ 16 := hagrees.resolution_le
    have hpow : (2 : ℤ) ^ slot.resolutionBits.toNat ≤ 2 ^ 16 :=
      pow_le_pow_right₀ (by decide) hlt
    omega
  · decide

theorem inByte_channel {channel : ℤ} (hagrees : Agrees dac slot)
    (hchannel : ¬ (channel < 0 ∨ dac.channels ≤ channel)) : InByte channel := by
  have hlt : slot.channels.toNat < 256 := slot.channels.toNat_lt
  rw [hagrees.channels] at hchannel
  unfold InByte
  omega

theorem channel_lt {channel : ℤ} {c : UInt8} (hagrees : Agrees dac slot)
    (hchannel : ¬ (channel < 0 ∨ dac.channels ≤ channel)) (hc : (c.toNat : ℤ) = channel) :
    c < slot.channels := by
  rw [hagrees.channels] at hchannel
  rw [UInt8.lt_iff_toNat_lt]
  omega

end Dac

theorem dacWriteRaw_returns (hid : (h.dacs name).id = some i.toNat)
    (hs : serves b s .dac i = true) (hagrees : Agrees (h.dacs name) (s.dacs i))
    (value channel : ℤ) :
    Returns (dacWriteRaw (respond b env s) h name value channel) ↔
      (0 ≤ channel ∧ channel < (h.dacs name).channels) ∧
        (0 ≤ value ∧ value ≤ (h.dacs name).maxValue) ∧
          s.safety.outputsAllowed = true ∧ env.endTransmission = 0 := by
  rw [dacWriteRaw, hid]
  dsimp only
  by_cases hchannel : channel < 0 ∨ (h.dacs name).channels ≤ channel
  · rw [if_pos hchannel]
    exact iff_of_false not_returns_error fun hp => by omega
  · by_cases hvalue : value < 0 ∨ (h.dacs name).maxValue < value
    · rw [if_neg hchannel, if_pos hvalue]
      exact iff_of_false not_returns_error fun hp => by omega
    · have hmax := maxValue_le hagrees
      rw [if_neg hchannel, if_neg hvalue, next_returns fun _ _ _ => ok_returns _,
        command_returns (P := s.safety.outputsAllowed = true ∧ env.endTransmission = 0)]
      · have hpayload := dacPayload_returns (i := i) (inByte_channel hagrees hchannel)
          (show 0 ≤ value ∧ value < 65536 from ⟨by omega, by omega⟩)
        constructor
        · rintro ⟨-, hp⟩
          exact ⟨by omega, by omega, hp⟩
        · rintro ⟨-, -, hp⟩
          exact ⟨hpayload, hp⟩
      · intro bytes hb
        obtain ⟨id, c, v, hnumber, hc, -, rfl⟩ := dacPayload_ok hb
        obtain rfl := UInt8.toNat_inj.mp hnumber
        refine ⟨_, .dacWriteRaw id c v, served_accepts rfl hs ?_⟩
        rw [permits]
        exact and_congr_right fun _ => and_iff_right (channel_lt hagrees hchannel hc)

theorem scaled_mem {value : ℚ} (hlow : 0 ≤ value) (hhigh : value ≤ 1) :
    0 ≤ scaled value 10000 ∧ scaled value 10000 ≤ 10000 := by
  have hscaled : value * (10000 : ℕ) ≤ (10000 : ℕ) := by
    push_cast
    linarith
  obtain ⟨hround, hround'⟩ := ConfigValues.roundDouble_mem
    (mul_nonneg hlow (Nat.cast_nonneg 10000)) hscaled (by decide)
  exact ⟨ConfigValues.roundHalfEven_nonneg hround,
    ConfigValues.roundHalfEven_le (n := 10000) (by exact_mod_cast hround')⟩

theorem dacWriteNormalized_returns (hid : (h.dacs name).id = some i.toNat)
    (hs : serves b s .dac i = true) (hagrees : Agrees (h.dacs name) (s.dacs i))
    (value : ℚ) (channel : ℤ) :
    Returns (dacWriteNormalized (respond b env s) h name value channel) ↔
      (0 ≤ channel ∧ channel < (h.dacs name).channels) ∧ (0 ≤ value ∧ value ≤ 1) ∧
        s.safety.outputsAllowed = true ∧ env.endTransmission = 0 := by
  rw [dacWriteNormalized, hid]
  dsimp only
  by_cases hchannel : channel < 0 ∨ (h.dacs name).channels ≤ channel
  · rw [if_pos hchannel]
    exact iff_of_false not_returns_error fun hp => by omega
  · by_cases hvalue : value < 0 ∨ 1 < value
    · rw [if_neg hchannel, if_pos hvalue]
      refine iff_of_false not_returns_error fun hp => ?_
      rcases hvalue with hlow | hhigh
      · exact absurd hp.2.1.1 (not_le_of_gt hlow)
      · exact absurd hp.2.1.2 (not_le_of_gt hhigh)
    · rw [if_neg hchannel, if_neg hvalue, next_returns fun _ _ _ => ok_returns _,
        command_returns (P := s.safety.outputsAllowed = true ∧ env.endTransmission = 0)]
      · rw [not_or, not_lt, not_lt] at hvalue
        obtain ⟨hlow, hhigh⟩ := scaled_mem hvalue.1 hvalue.2
        have hpayload := dacPayload_returns (i := i) (inByte_channel hagrees hchannel)
          (show 0 ≤ scaled value 10000 ∧ scaled value 10000 < 65536 from ⟨hlow, by omega⟩)
        constructor
        · rintro ⟨-, hp⟩
          exact ⟨by omega, hvalue, hp⟩
        · rintro ⟨-, -, hp⟩
          exact ⟨hpayload, hp⟩
      · intro bytes hb
        obtain ⟨id, c, v, hnumber, hc, -, rfl⟩ := dacPayload_ok hb
        obtain rfl := UInt8.toNat_inj.mp hnumber
        refine ⟨_, .dacWriteNormalized id c v, served_accepts rfl hs ?_⟩
        rw [permits]
        exact and_congr_right fun _ => and_iff_right (channel_lt hagrees hchannel hc)

/-! ### Subscriptions -/

theorem resourceRef_number {kind : ResourceKind} {n : ℤ}
    (href : resourceRef h name = .ok (kind, n)) : number h (kindOf kind) name = some n := by
  unfold resourceRef at href
  split at href
  case h_6 => cases href
  all_goals
    obtain ⟨rfl, rfl⟩ := Prod.mk.inj (Except.ok.inj href)
    simp [number, kindOf, *]

theorem subscribe_returns {kind : ResourceKind}
    (href : resourceRef h name = .ok (kind, (i.toNat : ℤ)))
    (hs : serves b s (kindOf kind) i = true) (rateHz : Option ℚ) (onChange : Bool) :
    Returns (HostResources.subscribe (respond b env s) h name rateHz onChange) ↔
      (0 ≤ (rateHz.map truncate).getD 0 ∧ (rateHz.map truncate).getD 0 < 65536) ∧
        (firstFree s).isSome = true := by
  rw [HostResources.subscribe, href]
  dsimp only
  rw [next_returns fun _ _ _ => ok_returns _, command_returns (P := (firstFree s).isSome = true)]
  · refine and_congr_left fun _ => ?_
    constructor
    · rintro ⟨bytes, hb, -⟩
      obtain ⟨_, _, -, htail, rfl⟩ := concat_ok hb
      obtain ⟨_, _, hpacked, -, rfl⟩ := concat_ok htail
      rw [packU16] at hpacked
      split_ifs at hpacked with hrange
      exact hrange
    · intro hrange
      have hall : ∀ v ∈ [(kind.toByte.toNat : ℤ), (i.toNat : ℤ)], InByte v :=
        inByte_two (inByte_toNat _) (inByte_toNat i)
      have hflags : ∀ v ∈ [if onChange then (1 : ℤ) else 0], InByte v := by
        cases onChange <;> decide
      obtain ⟨head, hhead⟩ := pyBytes_returns.mpr hall
      obtain ⟨flags, hflags⟩ := pyBytes_returns.mpr hflags
      refine ⟨head ++ (toBytes 2 ((rateHz.map truncate).getD 0).toNat ++ flags), ?_, ?_⟩
      · rw [hhead, hflags, packU16, if_pos hrange, concat, concat_two]
      · rw [List.length_append, List.length_append, pyBytes_length hhead, pyBytes_length hflags,
          length_toBytes]
        simp [maxPayloadSize]
  · intro bytes hb
    obtain ⟨_, _, hhead, htail, rfl⟩ := concat_ok hb
    obtain ⟨_, _, hpacked, hlast, rfl⟩ := concat_ok htail
    obtain ⟨_, _, hflag, ⟨⟩, rfl⟩ := concat_ok hlast
    obtain - | ⟨hkind, - | ⟨hid, ⟨⟩⟩⟩ := pyBytes_ok hhead
    obtain ⟨v, -, rfl⟩ := toBytes_ok hpacked
    obtain - | ⟨-, ⟨⟩⟩ := pyBytes_ok hflag
    obtain rfl := byte_eq hkind
    obtain rfl := byte_eq hid
    refine ⟨_, .subscribe _ _ v _, served_accepts (?_ : uses _ = some (kindOf kind, _)) hs Iff.rfl⟩
    rw [uses, ResourceKind.ofByte_toByte]
    rfl

theorem unsubscribe_returns {kind : ResourceKind}
    (href : resourceRef h name = .ok (kind, (i.toNat : ℤ)))
    (hs : serves b s (kindOf kind) i = true) :
    Returns (HostResources.unsubscribe (respond b env s) h name) := by
  rw [HostResources.unsubscribe, href]
  dsimp only
  rw [next_returns fun _ _ _ => ok_returns _, bytes_return (by simp [maxPayloadSize]) (P := True)]
  · rw [and_true]
    exact inByte_two (inByte_toNat _) (inByte_toNat i)
  · intro bytes hb
    obtain - | ⟨hkind, - | ⟨hid, ⟨⟩⟩⟩ := pyBytes_ok hb
    obtain rfl := byte_eq hkind
    obtain rfl := byte_eq hid
    refine ⟨_, .unsubscribe _ _, served_accepts (?_ : uses _ = some (kindOf kind, _)) hs Iff.rfl⟩
    rw [uses, ResourceKind.ofByte_toByte]
    rfl

end Operations

/-! ### Every run -/

section Runs

variable {b : Board} {k : Bench} {op : Operation} {env : Env} {r : Kind × String}

theorem id_of_number {id : Option ℕ} {i : UInt8}
    (hnumber : id.map Int.ofNat = some (i.toNat : ℤ)) : id = some i.toNat := by
  obtain ⟨n, hn, heq⟩ := Option.map_eq_some_iff.mp hnumber
  rw [hn, Int.ofNat.inj heq]

/-- An operation on a resource that both sides have configured returns if it is permitted. -/
theorem served_operation (htarget : target k.host op = some r)
    (hserved : Served b k.host k.device r) :
    (k.call b op env).1 = .ok () ↔ Permitted env k.host k.device op := by
  obtain ⟨i, hnumber, hs, hagrees⟩ := hserved
  cases op with
  | pinRead name =>
    obtain rfl := Option.some.inj htarget
    exact outcome_returns.trans (iff_of_true (pinRead_returns hnumber hs) trivial)
  | pinWrite name value =>
    obtain rfl := Option.some.inj htarget
    exact outcome_returns.trans (pinWrite_returns hnumber hs value)
  | onEdge name edge callback =>
    obtain rfl := Option.some.inj htarget
    exact outcome_returns.trans (onEdge_returns hnumber hs edge callback)
  | pwmWrite name duty =>
    obtain rfl := Option.some.inj htarget
    exact outcome_returns.trans (pwmWrite_returns hnumber hs duty)
  | pwmDisable name =>
    obtain rfl := Option.some.inj htarget
    exact outcome_returns.trans (iff_of_true (pwmDisable_returns hnumber hs) trivial)
  | analogRead name =>
    obtain rfl := Option.some.inj htarget
    exact outcome_returns.trans (iff_of_true (analogRead_returns hnumber hs) trivial)
  | counterRead name =>
    obtain rfl := Option.some.inj htarget
    have hid := id_of_number hnumber
    exact outcome_returns.trans (iff_of_true (counterRead_returns hid hs) trivial)
  | counterDelta name =>
    obtain rfl := Option.some.inj htarget
    have hread := @counterRead_returns b env _ _ _ _ (id_of_number hnumber) hs
    exact outcome_returns.trans
      (iff_of_true ((next_returns fun _ _ _ => ok_returns _).mpr hread) trivial)
  | counterFrequency name windowMs now =>
    obtain rfl := Option.some.inj htarget
    have hid := id_of_number hnumber
    exact outcome_returns.trans
      (iff_of_true (counterFrequency_returns hid hs windowMs now) trivial)
  | counterReset name =>
    obtain rfl := Option.some.inj htarget
    have hid := id_of_number hnumber
    exact outcome_returns.trans (iff_of_true (counterReset_returns hid hs) trivial)
  | encoderRead name =>
    obtain rfl := Option.some.inj htarget
    have hid := id_of_number hnumber
    exact outcome_returns.trans (iff_of_true (encoderRead_returns hid hs) trivial)
  | encoderDelta name =>
    obtain rfl := Option.some.inj htarget
    have hread := @encoderRead_returns b env _ _ _ _ (id_of_number hnumber) hs
    exact outcome_returns.trans
      (iff_of_true ((next_returns fun _ _ _ => ok_returns _).mpr hread) trivial)
  | encoderReset name =>
    obtain rfl := Option.some.inj htarget
    have hid := id_of_number hnumber
    exact outcome_returns.trans (iff_of_true (encoderReset_returns hid hs) trivial)
  | i2cWrite name address data =>
    obtain rfl := Option.some.inj htarget
    exact outcome_returns.trans (i2cWrite_returns hnumber hs address data)
  | i2cRead name address length =>
    obtain rfl := Option.some.inj htarget
    exact outcome_returns.trans (i2cRead_returns hnumber hs address length)
  | dacWriteRaw name value channel =>
    obtain rfl := Option.some.inj htarget
    exact outcome_returns.trans
      (dacWriteRaw_returns (id_of_number hnumber) hs (hagrees rfl) value channel)
  | dacWriteNormalized name value channel =>
    obtain rfl := Option.some.inj htarget
    exact outcome_returns.trans
      (dacWriteNormalized_returns (id_of_number hnumber) hs (hagrees rfl) value channel)
  | subscribe name rateHz onChange =>
    rw [target] at htarget
    cases href : resourceRef k.host name with
    | error error =>
      rw [href] at htarget
      cases htarget
    | ok ref =>
      obtain ⟨kind, n⟩ := ref
      rw [href] at htarget
      obtain rfl := Option.some.inj htarget
      obtain rfl := Option.some.inj ((resourceRef_number href).symm.trans hnumber)
      exact outcome_returns.trans (subscribe_returns href hs rateHz onChange)
  | unsubscribe name =>
    rw [target] at htarget
    cases href : resourceRef k.host name with
    | error error =>
      rw [href] at htarget
      cases htarget
    | ok ref =>
      obtain ⟨kind, n⟩ := ref
      rw [href] at htarget
      obtain rfl := Option.some.inj htarget
      obtain rfl := Option.some.inj ((resourceRef_number href).symm.trans hnumber)
      exact outcome_returns.trans (iff_of_true (unsubscribe_returns href hs) trivial)
  | _ => cases htarget

/-- In every state of every run, an operation on a resource whose last configuring call has
returned since the last reset returns exactly if it is permitted. -/
theorem live_resources_served (b : Board) (inputs : List Input) :
    EachState (Bench.step b)
      (fun k => ∀ op env r, target k.host op = some r → r ∈ k.live →
        ((k.call b op env).1 = .ok () ↔ Permitted env k.host k.device op)) {} inputs := by
  apply eachState_of_eachStep (G := fun _ _ => True) _ _ (mirrored_initial b)
  · exact eachStep_of_forall _ fun _ _ => trivial
  · intro k input hmirrored _
    exact step_mirrored hmirrored input
  · intro k hmirrored op env r htarget hlive
    exact served_operation htarget (hmirrored.served r hlive)

end Runs

end ServedOperations
