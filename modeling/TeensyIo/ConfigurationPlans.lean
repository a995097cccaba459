import TeensyIo.ConfigureAll
import Mathlib.Data.Finset.Card

/-! # Configurations that can be applied

What is known of the host while `configure_all` runs on a device that acknowledges: which names
stand for a pin or a bus, and which have an id. Each method follows a plan in these terms, and so
do the six loops. -/
namespace ConfigurationPlans

open HostProtocol HostResources ConfigValues ConfigSchema ConfigureAll RaisingPrograms MachineRuns

def InByte (n : ℤ) : Prop := 0 ≤ n ∧ n ≤ 255

instance (n : ℤ) : Decidable (InByte n) := inferInstanceAs (Decidable (_ ∧ _))

/-- The names that stand for a pin or a bus so far, and those that have an id, in the order of
their ids. -/
structure Known where
  pins : List Key := []
  buses : List Key := []
  counters : List Key := []
  encoders : List Key := []
  dacs : List Key := []

/-- The names of the list stand for numbers that fit a byte, and no other name for any. -/
def Placed (names : List Key) (place : Key → Option ℤ) : Prop :=
  ∀ name, (name ∈ names → ∃ n, place name = some n ∧ InByte n) ∧
    (name ∉ names → place name = none)

structure Knows (k : Known) (h : Resources Key) : Prop where
  pins : Placed k.pins fun name => (h.pins name).physicalPin
  buses : Placed k.buses fun name => (h.i2cBuses name).bus
  counters : h.counterIds = k.counters
  encoders : h.encoderIds = k.encoders
  dacs : h.dacIds = k.dacs

theorem knows_fresh : Knows {} {} where
  pins := fun _ => ⟨nofun, fun _ => rfl⟩
  buses := fun _ => ⟨nofun, fun _ => rfl⟩
  counters := rfl
  encoders := rfl
  dacs := rfl

theorem Placed.add {names : List Key} {place place' : Key → Option ℤ} {name : Key} {n : ℤ}
    (h : Placed names place) (hn : InByte n) (hnew : place' name = some n)
    (hold : ∀ other, other ≠ name → place' other = place other) :
    Placed (names ++ [name]) place' := by
  intro other
  by_cases heq : other = name
  · subst heq
    refine ⟨fun _ => ⟨n, hnew, hn⟩, ?_⟩
    intro habsent
    exact absurd (List.mem_append_right names (List.mem_singleton_self other)) habsent
  · rw [hold other heq, List.mem_append, List.mem_singleton]
    constructor
    · intro hmem
      exact (h other).1 (hmem.resolve_right heq)
    · intro habsent
      exact (h other).2 fun hmem => habsent (Or.inl hmem)

theorem Placed.isSome_iff {names : List Key} {place : Key → Option ℤ} (h : Placed names place)
    (name : Key) : name ∈ names ↔ ∃ n, place name = some n ∧ InByte n := by
  constructor
  · exact (h name).1
  · rintro ⟨n, hn, -⟩
    by_contra habsent
    rw [(h name).2 habsent] at hn
    cases hn

/-! ### Names and numbers -/

namespace Known

variable (k : Known) (name : Key)

def withPin : Known := { k with pins := k.pins ++ [name] }
def withBus : Known := { k with buses := k.buses ++ [name] }
def withCounter : Known := { k with counters := (idFor k.counters name).2 }
def withEncoder : Known := { k with encoders := (idFor k.encoders name).2 }
def withDac : Known := { k with dacs := (idFor k.dacs name).2 }

end Known

/-- Ids are given out in the order in which names appear, so a byte is enough for each exactly
if it is enough for their number. -/
theorem ids_fit_iff {ids names : List Key} (hdistinct : ids.Nodup) (hlen : ids.length ≤ 256) :
    EachStep (fun ids name => (idFor ids name).2) (fun ids name => (idFor ids name).1 ≤ 255)
      ids names ↔ (ids ++ names).toFinset.card ≤ 256 := by
  induction names generalizing ids with
  | nil =>
    rw [List.append_nil, List.toFinset_card_of_nodup hdistinct]
    exact iff_of_true trivial hlen
  | cons name names ih =>
    by_cases hmem : name ∈ ids
    · have hid : idFor ids name = (ids.idxOf name, ids) := if_pos hmem
      have hplace := List.idxOf_lt_length_of_mem hmem
      have hsame : (ids ++ name :: names).toFinset = (ids ++ names).toFinset := by
        ext other
        simp only [List.mem_toFinset, List.mem_append, List.mem_cons]
        constructor
        · rintro (h | rfl | h)
          · exact Or.inl h
          · exact Or.inl hmem
          · exact Or.inr h
        · rintro (h | h)
          · exact Or.inl h
          · exact Or.inr (Or.inr h)
      rw [EachStep, hid, hsame]
      dsimp only
      rw [ih hdistinct hlen]
      exact and_iff_right (by omega)
    · have hid : idFor ids name = (ids.length, ids ++ [name]) := if_neg hmem
      have hdistinct' : (ids ++ [name]).Nodup := by
        rw [List.nodup_append]
        refine ⟨hdistinct, List.nodup_singleton name, ?_⟩
        rintro a ha b hb rfl
        exact hmem (List.mem_singleton.mp hb ▸ ha)
      have happend : ids ++ name :: names = ids ++ [name] ++ names := by
        rw [List.append_assoc, List.singleton_append]
      rw [EachStep, hid, happend]
      dsimp only
      constructor
      · rintro ⟨hid, hrest⟩
        have hlen' : (ids ++ [name]).length ≤ 256 := by
          rw [List.length_append, List.length_singleton]
          omega
        exact (ih hdistinct' hlen').mp hrest
      · intro hcard
        have hlen' : (ids ++ [name]).length ≤ 256 := by
          rw [← List.toFinset_card_of_nodup hdistinct']
          refine (Finset.card_le_card ?_).trans hcard
          intro other hother
          rw [List.mem_toFinset] at hother ⊢
          exact List.mem_append_left names hother
        refine ⟨?_, (ih hdistinct' hlen').mpr hcard⟩
        rw [List.length_append, List.length_singleton] at hlen'
        omega

/-! ### Commands -/

/-- The device answers every command with an ACK or with data. -/
def Acknowledges (respond : List Command → Except PyError (List UInt8)) : Prop :=
  ∀ log, ∃ reply, respond log = .ok reply

variable {texts : Texts} {respond : List Command → Except PyError (List UInt8)}

/-- Asking for what an expression returned, where it has. -/
theorem exists_ok_and {α : Type} {a : α} {P : α → Prop} :
    (∃ b, (.ok a : Except PyError α) = .ok b ∧ P b) ↔ P a := by
  constructor
  · rintro ⟨b, hb, h⟩
    rwa [Except.ok.inj hb]
  · intro h
    exact ⟨a, rfl, h⟩

theorem not_exists_error_and {α : Type} {error : PyError} {P : α → Prop} :
    ¬ ∃ b, (.error error : Except PyError α) = .ok b ∧ P b := by
  rintro ⟨b, hb, -⟩
  cases hb

theorem pyBytes_returns {values : List ℤ} :
    (∃ bytes, pyBytes values = .ok bytes) ↔ ∀ v ∈ values, InByte v := by
  unfold pyBytes
  split_ifs with hrange
  · exact iff_of_true ⟨_, rfl⟩ hrange
  · refine iff_of_false ?_ hrange
    rintro ⟨bytes, h⟩
    cases h

theorem pyBytes_length {values : List ℤ} {bytes : List UInt8} (h : pyBytes values = .ok bytes) :
    bytes.length = values.length := (pyBytes_ok h).length_eq

theorem packU32_returns {n : ℤ} :
    (∃ bytes, packU32 n = .ok bytes) ↔ 0 ≤ n ∧ n < 4294967296 := by
  unfold packU32
  split_ifs with hrange
  · exact iff_of_true ⟨_, rfl⟩ hrange
  · refine iff_of_false ?_ hrange
    rintro ⟨bytes, h⟩
    cases h

theorem packU32_length {n : ℤ} {bytes : List UInt8} (h : packU32 n = .ok bytes) :
    bytes.length = 4 := by
  obtain ⟨v, -, rfl⟩ := packU32_ok h
  rfl

theorem concat_returns {part : Except PyError (List UInt8)}
    {parts : List (Except PyError (List UInt8))} :
    (∃ bytes, concat (part :: parts) = .ok bytes) ↔
      (∃ bytes, part = .ok bytes) ∧ ∃ bytes, concat parts = .ok bytes := by
  constructor
  · rintro ⟨bytes, h⟩
    obtain ⟨first, rest, hfirst, hrest, -⟩ := concat_ok h
    exact ⟨⟨first, hfirst⟩, rest, hrest⟩
  · rintro ⟨⟨first, rfl⟩, rest, hrest⟩
    refine ⟨first ++ rest, ?_⟩
    rw [concat, hrest]

theorem concat_length {parts : List (Except PyError (List UInt8))} {n : ℕ}
    (h : ∀ part ∈ parts, ∀ bytes, part = .ok bytes → bytes.length ≤ n) {bytes : List UInt8}
    (hbytes : concat parts = .ok bytes) : bytes.length ≤ n * parts.length := by
  induction parts generalizing bytes with
  | nil =>
    obtain rfl := Except.ok.inj hbytes
    exact Nat.zero_le _
  | cons part parts ih =>
    obtain ⟨first, rest, hfirst, hrest, rfl⟩ := concat_ok hbytes
    have hpart := h part List.mem_cons_self first hfirst
    have hparts := ih (fun part hpart => h part (List.mem_cons_of_mem _ hpart)) hrest
    rw [List.length_append, List.length_cons, Nat.mul_succ]
    omega

section Sent

variable {id : WireCommands.CommandId} {payload : Except PyError (List UInt8)}
  {h : Resources Key}

theorem sent_returns_iff (hack : Acknowledges respond)
    (hshort : ∀ bytes, payload = .ok bytes → bytes.length < 128) :
    ((command respond h id payload).next fun _ h => ((.ok (), h) : Result Unit Key)).1 = .ok () ↔
      ∃ bytes, payload = .ok bytes := by
  unfold command
  cases payload with
  | error error =>
    refine iff_of_false nofun ?_
    rintro ⟨bytes, h⟩
    cases h
  | ok bytes =>
    have hlen : ¬ maxPayloadSize < bytes.length + 1 := by
      have := hshort bytes rfl
      unfold maxPayloadSize
      omega
    dsimp only
    rw [if_neg hlen]
    obtain ⟨reply, hreply⟩ := hack (h.log ++ [(id, bytes)])
    rw [hreply]
    exact iff_of_true rfl ⟨bytes, rfl⟩

theorem sent_bytes_iff (hack : Acknowledges respond) {values : List ℤ}
    (hshort : values.length < 128) :
    ((command respond h id (pyBytes values)).next
      fun _ h => ((.ok (), h) : Result Unit Key)).1 = .ok () ↔ ∀ v ∈ values, InByte v := by
  rw [sent_returns_iff hack, pyBytes_returns]
  intro bytes hbytes
  rw [pyBytes_length hbytes]
  exact hshort

/-- A command leaves nothing but its entry in the log. -/
theorem sent_knows {k : Known} (hk : Knows k h) :
    Knows k ((command respond h id payload).next fun _ h => ((.ok (), h) : Result Unit Key)).2 := by
  have hlogged : ∀ log, Knows k { h with log } := by
    intro log
    exact ⟨hk.pins, hk.buses, hk.counters, hk.encoders, hk.dacs⟩
  unfold command
  cases payload with
  | error error => exact hk
  | ok bytes =>
    dsimp only
    split_ifs
    · exact hk
    · generalize respond (h.log ++ [(id, bytes)]) = answer
      cases answer with
      | error error => exact hlogged _
      | ok reply => exact hlogged _

end Sent

/-! ### Tables of texts -/

theorem pullCode_supported {pull : String} (h : pull ∈ supportedPulls) :
    ∃ code, pullCode pull = some code ∧ InByte code := by
  simp only [supportedPulls, List.mem_cons, List.not_mem_nil, or_false] at h
  rcases h with rfl | rfl | rfl | rfl | rfl | rfl
  all_goals exact ⟨_, rfl, by decide⟩

theorem edgeCode_supported {edge : String} (h : edge ∈ supportedEdges) :
    ∃ code, edgeCode edge = some code ∧ InByte code := by
  simp only [supportedEdges, List.mem_cons, List.not_mem_nil, or_false] at h
  rcases h with rfl | rfl | rfl
  all_goals exact ⟨_, rfl, by decide⟩

theorem modeCode_supported {mode : String} (h : mode ∈ supportedEncoderModes) :
    ∃ code, modeCode mode = some code ∧ InByte code := by
  simp only [supportedEncoderModes, List.mem_cons, List.not_mem_nil, or_false] at h
  rcases h with rfl | rfl | rfl
  all_goals exact ⟨_, rfl, by decide⟩

/-- A duty in range makes a byte. -/
theorem u8Duty_inByte {duty : ℚ} (hlow : 0 ≤ duty) (hhigh : duty ≤ 1) :
    ∃ n, u8Duty duty = .ok n ∧ InByte n := by
  refine ⟨scaled duty 255, ?_, ?_⟩
  · unfold u8Duty
    rw [if_neg]
    rintro (h | h)
    · exact absurd hlow (not_le_of_gt h)
    · exact absurd hhigh (not_le_of_gt h)
  · have hscaled : duty * (255 : ℕ) ≤ (255 : ℕ) := by
      push_cast
      linarith
    obtain ⟨hround, hround'⟩ := roundDouble_mem (mul_nonneg hlow (Nat.cast_nonneg 255)) hscaled
      (by decide)
    constructor
    · exact roundHalfEven_nonneg hround
    · exact roundHalfEven_le (n := 255) (by exact_mod_cast hround')

/-! ### Methods -/

theorem Knows.place_pin {k : Known} {h : Resources Key} {name : Key} {n : ℤ} (hk : Knows k h)
    (hn : InByte n) :
    Knows (k.withPin name) { h with pins := Function.update h.pins name ⟨some n⟩ } where
  pins := by
    apply hk.pins.add hn
    · dsimp only
      rw [Function.update_self]
    · intro other hother
      dsimp only
      rw [Function.update_of_ne hother]
  buses := hk.buses
  counters := hk.counters
  encoders := hk.encoders
  dacs := hk.dacs

theorem Knows.place_bus {k : Known} {h : Resources Key} {name : Key} {n frequency : ℤ}
    (hk : Knows k h) (hn : InByte n) :
    Knows (k.withBus name)
      { h with i2cBuses := Function.update h.i2cBuses name ⟨some n, frequency⟩ } where
  pins := hk.pins
  buses := by
    apply hk.buses.add hn
    · dsimp only
      rw [Function.update_self]
    · intro other hother
      dsimp only
      rw [Function.update_of_ne hother]
  counters := hk.counters
  encoders := hk.encoders
  dacs := hk.dacs

/-- What a counter is attached to. -/
def Refers (pins : List Key) : PinRef Key → Prop
  | .number n => InByte n
  | .name pin => pin ∈ pins

section Methods

variable (hack : Acknowledges respond) (name : Key)
include hack

theorem configureOutput_follows (pin initial : ℤ) :
    Follows Knows (fun h => configureOutput respond h name pin initial)
      (fun _ => InByte pin ∧ InByte initial) (·.withPin name) := by
  apply Follows.intro
  intro k h hk
  constructor
  · apply (sent_bytes_iff hack (by simp)).trans
    rw [List.forall_mem_cons, List.forall_mem_singleton]
  · rintro ⟨hpin, -⟩
    exact sent_knows (hk.place_pin hpin)

theorem configureInput_follows (pin : ℤ) {pull : String} (hpull : pull ∈ supportedPulls) :
    Follows Knows (fun h => configureInput respond h name pin pull)
      (fun _ => InByte pin) (·.withPin name) := by
  obtain ⟨code, hcode, hbyte⟩ := pullCode_supported hpull
  apply Follows.intro
  intro k h hk
  unfold configureInput
  simp only [hcode]
  constructor
  · apply (sent_bytes_iff hack (by simp)).trans
    rw [List.forall_mem_cons, List.forall_mem_singleton]
    exact and_iff_left hbyte
  · intro hpin
    exact sent_knows (hk.place_pin hpin)

theorem pwmConfigure_follows (pin frequency : ℤ) (duty : ℚ) :
    Follows Knows (fun h => pwmConfigure respond h name pin frequency duty)
      (fun _ => InByte pin ∧ (0 ≤ frequency ∧ frequency < 4294967296) ∧ 0 ≤ duty ∧ duty ≤ 1)
      (fun k => k) := by
  apply Follows.intro
  intro k h hk
  constructor
  · refine (sent_returns_iff hack ?_).trans ?_
    · intro bytes hbytes
      refine (concat_length (n := 4) ?_ hbytes).trans_lt (by simp)
      rw [List.forall_mem_cons, List.forall_mem_cons, List.forall_mem_singleton]
      refine ⟨?_, ?_, ?_⟩
      · intro part hpart
        rw [pyBytes_length hpart]
        simp
      · intro part hpart
        rw [packU32_length hpart]
      · intro part hpart
        obtain ⟨d, -, hd⟩ := bind_ok hpart
        rw [pyBytes_length hd]
        simp
    · rw [concat_returns, concat_returns, concat_returns, pyBytes_returns, packU32_returns,
        List.forall_mem_singleton]
      refine and_congr_right fun _ => and_congr_right fun _ => ?_
      constructor
      · rintro ⟨⟨bytes, hbytes⟩, -⟩
        obtain ⟨d, hd, -⟩ := bind_ok hbytes
        unfold u8Duty at hd
        split_ifs at hd with hrange
        exact ⟨not_lt.mp fun h => hrange (Or.inl h), not_lt.mp fun h => hrange (Or.inr h)⟩
      · rintro ⟨hlow, hhigh⟩
        obtain ⟨d, hd, hbyte⟩ := u8Duty_inByte hlow hhigh
        refine ⟨?_, [], rfl⟩
        rw [hd]
        exact pyBytes_returns.mpr (List.forall_mem_singleton.mpr hbyte)
  · intro _
    apply sent_knows
    exact ⟨hk.pins, hk.buses, hk.counters, hk.encoders, hk.dacs⟩

theorem analogConfigure_follows (pin : ℤ) {samples : ℤ} (hlow : 1 ≤ samples)
    (hhigh : samples ≤ 255) :
    Follows Knows (fun h => analogConfigure respond h name pin samples) (fun _ => InByte pin)
      (fun k => k) := by
  have hsamples : ¬ (samples < 1 ∨ 255 < samples) := by omega
  apply Follows.intro
  intro k h hk
  unfold analogConfigure
  simp only [if_neg hsamples]
  constructor
  · apply (sent_bytes_iff hack (by simp)).trans
    rw [List.forall_mem_cons, List.forall_mem_singleton]
    exact and_iff_left ⟨by omega, hhigh⟩
  · intro _
    apply sent_knows
    exact ⟨hk.pins, hk.buses, hk.counters, hk.encoders, hk.dacs⟩

omit hack in
theorem refers_iff {pins : List Key} {h : Resources Key} {ref : PinRef Key}
    (hpins : Placed pins fun name => (h.pins name).physicalPin) :
    Refers pins ref ↔ ∃ n, resolvePin h ref = .ok n ∧ InByte n := by
  cases ref with
  | number n =>
    unfold Refers resolvePin
    rw [exists_ok_and]
  | name pin =>
    apply (hpins.isSome_iff pin).trans
    unfold resolvePin
    dsimp only
    generalize (h.pins pin).physicalPin = place
    cases place with
    | none => exact iff_of_false nofun not_exists_error_and
    | some n =>
      rw [exists_ok_and]
      constructor
      · rintro ⟨m, hm, hbyte⟩
        rwa [Option.some.inj hm]
      · intro hbyte
        exact ⟨n, rfl, hbyte⟩

theorem counterAttach_follows (ref : PinRef Key) {edge : String} (hedge : edge ∈ supportedEdges) :
    Follows Knows (fun h => counterAttach respond h name ref edge)
      (fun k => Refers k.pins ref ∧ (idFor k.counters name).1 ≤ 255) (·.withCounter name) := by
  obtain ⟨code, hcode, hbyte⟩ := edgeCode_supported hedge
  apply Follows.intro
  intro k h hk
  rw [refers_iff hk.pins, ← hk.counters]
  unfold counterAttach
  generalize resolvePin h ref = place
  cases place with
  | error error =>
    constructor
    · exact iff_of_false nofun fun hm => not_exists_error_and hm.1
    · intro hm
      exact absurd hm.1 not_exists_error_and
  | ok n =>
    rw [exists_ok_and]
    simp only [hcode]
    constructor
    · apply (sent_bytes_iff hack (by simp)).trans
      rw [List.forall_mem_cons, List.forall_mem_cons, List.forall_mem_singleton]
      constructor
      · rintro ⟨hid, hn, -⟩
        exact ⟨hn, by exact_mod_cast hid.2⟩
      · rintro ⟨hn, hid⟩
        exact ⟨⟨Int.natCast_nonneg _, by exact_mod_cast hid⟩, hn, hbyte⟩
    · intro _
      apply sent_knows
      exact ⟨hk.pins, hk.buses, congrArg (fun ids => (idFor ids name).2) hk.counters,
        hk.encoders, hk.dacs⟩

theorem encoderAttach_follows (pinA pinB : ℤ) {mode : String}
    (hmode : mode ∈ supportedEncoderModes) :
    Follows Knows (fun h => encoderAttach respond h name pinA pinB mode)
      (fun k => (InByte pinA ∧ InByte pinB) ∧ (idFor k.encoders name).1 ≤ 255)
      (·.withEncoder name) := by
  obtain ⟨code, hcode, hbyte⟩ := modeCode_supported hmode
  apply Follows.intro
  intro k h hk
  rw [← hk.encoders]
  unfold encoderAttach
  simp only [hcode]
  constructor
  · apply (sent_bytes_iff hack (by simp)).trans
    rw [List.forall_mem_cons, List.forall_mem_cons, List.forall_mem_cons,
      List.forall_mem_singleton]
    constructor
    · rintro ⟨hid, hpinA, hpinB, -⟩
      exact ⟨⟨hpinA, hpinB⟩, by exact_mod_cast hid.2⟩
    · rintro ⟨⟨hpinA, hpinB⟩, hid⟩
      exact ⟨⟨Int.natCast_nonneg _, by exact_mod_cast hid⟩, hpinA, hpinB, hbyte⟩
  · intro _
    apply sent_knows
    exact ⟨hk.pins, hk.buses, hk.counters,
      congrArg (fun ids => (idFor ids name).2) hk.encoders, hk.dacs⟩

theorem i2cConfigure_follows (bus frequency : ℤ) :
    Follows Knows (fun h => i2cConfigure respond h name bus frequency)
      (fun _ => InByte bus ∧ 1 ≤ frequency ∧ frequency < 4294967296) (·.withBus name) := by
  apply Follows.intro
  intro k h hk
  unfold i2cConfigure
  by_cases hbus : bus < 0 ∨ 255 < bus
  · rw [if_pos hbus]
    have hout : ¬ InByte bus := by
      unfold InByte
      omega
    constructor
    · exact iff_of_false nofun fun hm => hout hm.1
    · intro hm
      exact absurd hm.1 hout
  · rw [if_neg hbus]
    have hbyte : InByte bus := by
      unfold InByte
      omega
    by_cases hfrequency : frequency ≤ 0
    · rw [if_pos hfrequency]
      constructor
      · exact iff_of_false nofun fun hm => absurd hm.2.1 (by omega)
      · intro hm
        exact absurd hm.2.1 (by omega)
    · rw [if_neg hfrequency]
      constructor
      · refine (sent_returns_iff hack ?_).trans ?_
        · intro bytes hbytes
          refine (concat_length (n := 4) ?_ hbytes).trans_lt (by simp)
          rw [List.forall_mem_cons, List.forall_mem_singleton]
          constructor
          · intro part hpart
            rw [pyBytes_length hpart]
            simp
          · intro part hpart
            rw [packU32_length hpart]
        · rw [concat_returns, concat_returns, pyBytes_returns, packU32_returns,
            List.forall_mem_singleton]
          refine and_congr_right fun _ => ?_
          constructor
          · rintro ⟨⟨-, hhigh⟩, -⟩
            exact ⟨by omega, hhigh⟩
          · rintro ⟨-, hhigh⟩
            exact ⟨⟨by omega, hhigh⟩, [], rfl⟩
      · intro _
        exact sent_knows (hk.place_bus hbyte)

theorem dacAttach_follows (bus : Key) (address : ℤ) {channels resolutionBits : ℤ}
    (hchannels : 1 ≤ channels ∧ channels ≤ 255)
    (hresolution : 1 ≤ resolutionBits ∧ resolutionBits ≤ 16) :
    Follows Knows (fun h => dacAttach respond h name bus address channels resolutionBits)
      (fun k => (bus ∈ k.buses ∧ 0 ≤ address ∧ address ≤ 127) ∧ (idFor k.dacs name).1 ≤ 255)
      (·.withDac name) := by
  apply Follows.intro
  intro k h hk
  rw [hk.buses.isSome_iff, ← hk.dacs]
  unfold dacAttach
  generalize (h.i2cBuses bus).bus = place
  cases place with
  | none =>
    constructor
    · refine iff_of_false nofun ?_
      rintro ⟨⟨⟨n, hn, -⟩, -⟩, -⟩
      cases hn
    · rintro ⟨⟨⟨n, hn, -⟩, -⟩, -⟩
      cases hn
  | some busNumber =>
    dsimp only
    rw [if_neg (by omega), if_neg (by omega)]
    unfold u7Address
    by_cases haddress : address < 0 ∨ 0x7F < address
    · rw [if_pos haddress]
      constructor
      · refine iff_of_false nofun ?_
        rintro ⟨⟨-, hlow, hhigh⟩, -⟩
        omega
      · rintro ⟨⟨-, hlow, hhigh⟩, -⟩
        omega
    · rw [if_neg haddress]
      constructor
      · apply (sent_bytes_iff hack (by simp)).trans
        rw [List.forall_mem_cons, List.forall_mem_cons, List.forall_mem_cons,
          List.forall_mem_cons, List.forall_mem_singleton]
        constructor
        · rintro ⟨hid, hbus, haddress, -, -⟩
          exact ⟨⟨⟨busNumber, rfl, hbus⟩, by omega⟩, by exact_mod_cast hid.2⟩
        · rintro ⟨⟨⟨n, hn, hbus⟩, hlow, hhigh⟩, hid⟩
          rw [← Option.some.inj hn] at hbus
          refine ⟨⟨Int.natCast_nonneg _, by exact_mod_cast hid⟩, hbus, ⟨hlow, ?_⟩, ⟨?_, ?_⟩, ?_, ?_⟩
          all_goals omega
      · intro _
        apply sent_knows
        exact ⟨hk.pins, hk.buses, hk.counters, hk.encoders,
          congrArg (fun ids => (idFor ids name).2) hk.dacs⟩

end Methods

end ConfigurationPlans
