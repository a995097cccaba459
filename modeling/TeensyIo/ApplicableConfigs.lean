import TeensyIo.ConfigurationPlans

/-! # Validated configurations on a device that acknowledges

Validation checks types and a few ranges; `configure_all` also needs numbers that fit their
fields, names that refer to an entry, and texts that are numbers. -/
namespace ApplicableConfigs

open HostProtocol HostResources ConfigValues ConfigSchema ConfigureAll ConfigurationPlans
open RaisingPrograms MachineRuns

def ByteField (spec : Mapping) (field : String) : Prop :=
  ∃ n, (given spec field .null).asInt = some n ∧ InByte n

/-- `int(value)` is a number with the property. -/
def Converts (texts : Texts) (value : Value) (P : ℤ → Prop) : Prop :=
  ∃ n, toInt texts value = .ok n ∧ P n

/-- The debounce time is converted, though it is not used. -/
def DebounceConverts (texts : Texts) (spec : Mapping) : Prop :=
  Converts texts (given spec "debounce_us" (.int 0)) fun _ => True

structure PwmApplies (texts : Texts) (spec : Mapping) : Prop where
  frequency : Converts texts (given spec "frequency" (.int 1000)) fun n => 0 ≤ n ∧ n < 4294967296
  duty : (given spec "initial_duty" (.float (.finite 0))).asNumber ≠ some .nan

structure PinApplies (texts : Texts) (spec : Mapping) : Prop where
  pin : ByteField spec "physical_pin"
  output : HasType spec "digital_output" →
    Converts texts (given spec "initial" (.bool false)) InByte
  input : HasType spec "digital_input" → DebounceConverts texts spec
  pwm : HasType spec "pwm" → PwmApplies texts spec

def InputApplies (texts : Texts) (spec : Mapping) : Prop :=
  ByteField spec "physical_pin" ∧ DebounceConverts texts spec

/-- The pin of a counter is a number or names an input or output. A zero counts as no pin. -/
def CounterApplies (pins : List Key) (spec : Mapping) : Prop :=
  (∃ n, (counterPin spec).asInt = some n ∧ InByte n) ∨
    (counterPin spec).asInt = none ∧ ∃ pin, (counterPin spec).key = some pin ∧ pin ∈ pins

def EncoderApplies (spec : Mapping) : Prop := ByteField spec "pin_a" ∧ ByteField spec "pin_b"

def BusApplies (texts : Texts) (spec : Mapping) : Prop :=
  ByteField spec "bus" ∧
    Converts texts (given spec "frequency" (.int 400000)) fun n => 1 ≤ n ∧ n < 4294967296

def DacApplies (buses : List Key) (spec : Mapping) : Prop :=
  (∃ bus, (given spec "bus" .null).asStr = some bus ∧ .str bus ∈ buses) ∧
    ∃ n, (given spec "address" .null).asInt = some n ∧ 0 ≤ n ∧ n ≤ 127

/-- The names that `configure_all` makes pins of. -/
def IsDigital (spec : Mapping) : Prop :=
  HasType spec "digital_output" ∨ HasType spec "digital_input"

instance (spec : Mapping) : Decidable (IsDigital spec) := inferInstanceAs (Decidable (_ ∨ _))

def namesOf (config : Mapping) (part : String) : List Key := (entriesOf config part).map Prod.fst

def pinNames (config : Mapping) : List Key :=
  ((entriesOf config "pins").filter fun e => IsDigital e.2).map Prod.fst ++
    namesOf config "inputs"

/-- What validation leaves open. -/
structure Applicable (texts : Texts) (config : Mapping) : Prop where
  pins : ∀ e ∈ entriesOf config "pins", PinApplies texts e.2
  inputs : ∀ e ∈ entriesOf config "inputs", InputApplies texts e.2
  counters : ∀ e ∈ entriesOf config "counters", CounterApplies (pinNames config) e.2
  encoders : ∀ e ∈ entriesOf config "encoders", EncoderApplies e.2
  i2cBuses : ∀ e ∈ entriesOf config "i2c_buses", BusApplies texts e.2
  dacs : ∀ e ∈ entriesOf config "dacs", DacApplies (namesOf config "i2c_buses") e.2
  counterIds : (namesOf config "counters").toFinset.card ≤ 256
  encoderIds : (namesOf config "encoders").toFinset.card ≤ 256
  dacIds : (namesOf config "dacs").toFinset.card ≤ 256

/-! ### Arguments -/

variable (texts : Texts) {respond : List Command → Except PyError (List UInt8)}
  {spec : Mapping} {name : Key}

theorem follows_evaluated {x : Except PyError ℤ} {rest : ℤ → Resources Key → Result Unit Key}
    {may : ℤ → Known → Prop} {learn : Known → Known}
    (h : ∀ n, x = .ok n → Follows Knows (rest n) (may n) learn) :
    Follows Knows (fun h => evaluated x h fun n => rest n h) (fun k => ∃ n, x = .ok n ∧ may n k)
      learn := by
  cases x with
  | error error =>
    apply Follows.intro
    intro k h hk
    constructor
    · exact iff_of_false nofun not_exists_error_and
    · intro hmay
      exact absurd hmay not_exists_error_and
  | ok n =>
    apply (h n rfl).congr
    intro k
    rw [exists_ok_and]

/-- An integer field that validation has seen. -/
structure IntField (texts : Texts) (spec : Mapping) (name : String) (value : Value) (n : ℤ) :
    Prop where
  found : field spec name = .ok value
  converted : toInt texts value = .ok n
  byte_iff : ByteField spec name ↔ InByte n
  given_int : ∀ default, (given spec name default).asInt = some n

theorem intField_of_required {part : String} {entry : Key} {name : String}
    (h : requireInt part entry spec name = .ok ()) :
    ∃ value n, IntField texts spec name value n := by
  obtain ⟨value, n, hget, hn⟩ := requireInt_ok h
  have hgiven : ∀ default, (given spec name default).asInt = some n := by
    intro default
    unfold given
    rw [hget]
    exact hn
  refine ⟨value, n, ?_, toInt_of_asInt texts hn, ?_, hgiven⟩
  · unfold field
    rw [hget]
  · unfold ByteField
    rw [hgiven]
    constructor
    · rintro ⟨m, hm, hbyte⟩
      rwa [Option.some.inj hm]
    · intro hbyte
      exact ⟨n, rfl, hbyte⟩

theorem toInt_between {part : String} {entry : Key} {name text : String} {default low high : ℤ}
    (h : requireBetween part entry spec name default low high text = .ok ()) :
    ∃ n, toInt texts (given spec name (.int default)) = .ok n ∧ low ≤ n ∧ n ≤ high := by
  obtain ⟨n, hn, hbounds⟩ := requireBetween_ok h
  exact ⟨n, toInt_of_asInt texts hn, hbounds⟩

theorem doubleOf_unit {n : ℤ} (hlow : 0 ≤ n) (hhigh : n ≤ 1) :
    ∃ x : ℚ, doubleOf n = .ok (.finite x) ∧ 0 ≤ x ∧ x ≤ 1 := by
  obtain ⟨hround, hround'⟩ := roundDouble_mem (x := n) (n := 1) (by exact_mod_cast hlow)
    (by exact_mod_cast hhigh) (by decide)
  rw [Nat.cast_one] at hround'
  refine ⟨roundDouble n, ?_, hround, hround'⟩
  unfold doubleOf
  rw [if_neg]
  rw [abs_of_nonneg hround, not_le]
  exact hround'.trans_lt (one_lt_pow₀ one_lt_two (by decide))

/-- Of the duties that pass validation, NaN is the one that is no duty. -/
theorem duty_of_valid {value : Value}
    (h : (value.asNumber.any fun duty => !duty.below 0 && !duty.above 1) = true) :
    ∃ d, toFloat texts value = .ok d ∧
      (value.asNumber ≠ some .nan ↔ 0 ≤ dutyOf d ∧ dutyOf d ≤ 1) := by
  rw [Option.any_eq_true] at h
  obtain ⟨number, hnumber, hrange⟩ := h
  cases value with
  | bool b =>
    refine ⟨_, rfl, iff_of_true nofun ?_⟩
    cases b with
    | false => exact ⟨le_refl 0, zero_le_one⟩
    | true => exact ⟨zero_le_one, le_refl 1⟩
  | int n =>
    obtain rfl := Option.some.inj hnumber
    simp only [Double.below, Double.above, Bool.and_eq_true, Bool.not_eq_true',
      decide_eq_false_iff_not, not_lt] at hrange
    obtain ⟨x, hx, hlow, hhigh⟩ := doubleOf_unit (n := n) (by exact_mod_cast hrange.1)
      (by exact_mod_cast hrange.2)
    exact ⟨.finite x, hx, iff_of_true nofun ⟨hlow, hhigh⟩⟩
  | float d =>
    obtain rfl := Option.some.inj hnumber
    refine ⟨d, rfl, ?_⟩
    cases d with
    | finite x =>
      simp only [Double.below, Double.above, Bool.and_eq_true, Bool.not_eq_true',
        decide_eq_false_iff_not, not_lt] at hrange
      exact iff_of_true nofun hrange
    | infinity negative =>
      cases negative with
      | false => cases hrange
      | true => cases hrange
    | nan =>
      refine iff_of_false (fun hne => hne rfl) ?_
      rintro ⟨-, hhigh⟩
      exact absurd hhigh (by decide)
  | _ => cases hnumber

/-! ### Pins and inputs -/

section Entries

variable (hack : Acknowledges respond)
include hack

theorem applyOutput_follows (hpin : requireInt "pins" name spec "physical_pin" = .ok ()) :
    Follows Knows (applyOutput texts respond name spec)
      (fun _ => ByteField spec "physical_pin" ∧
        Converts texts (given spec "initial" (.bool false)) InByte) (·.withPin name) := by
  obtain ⟨value, n, hfield⟩ := intField_of_required texts hpin
  unfold applyOutput pinConfigureOutput Converts
  rw [hfield.byte_iff]
  simp only [evaluated_ok, hfield.found, hfield.converted]
  generalize toInt texts (given spec "initial" (.bool false)) = initial
  cases initial with
  | error error =>
    apply Follows.intro
    intro k h hk
    constructor
    · exact iff_of_false nofun fun hmay => not_exists_error_and hmay.2
    · intro hmay
      exact absurd hmay.2 not_exists_error_and
  | ok initial =>
    apply (configureOutput_follows hack name n initial).congr
    intro k
    rw [exists_ok_and]

theorem applyInput_follows {part : String}
    (hpin : requireInt part name spec "physical_pin" = .ok ())
    (hpull : requirePull part name spec = .ok ()) :
    Follows Knows (applyInput texts respond name spec) (fun _ => InputApplies texts spec)
      (·.withPin name) := by
  obtain ⟨value, n, hfield⟩ := intField_of_required texts hpin
  obtain ⟨pull, hsupported, hgiven⟩ := requireOneOf_ok hpull
  unfold applyInput pinConfigureInput InputApplies DebounceConverts Converts
  rw [hfield.byte_iff]
  simp only [evaluated_ok, hfield.found, hfield.converted, hgiven]
  apply (follows_evaluated fun m hm => configureInput_follows hack name n hsupported).congr
  intro k
  constructor
  · rintro ⟨m, hm, hbyte⟩
    exact ⟨hbyte, m, hm, trivial⟩
  · rintro ⟨hbyte, m, hm, -⟩
    exact ⟨m, hm, hbyte⟩

theorem applyAnalog_follows (hpin : requireInt "pins" name spec "physical_pin" = .ok ())
    (hsamples : requireBetween "pins" name spec "samples" 1 1 255 "must be between 1 and 255" =
      .ok ()) :
    Follows Knows (applyAnalog texts respond name spec)
      (fun _ => ByteField spec "physical_pin") (fun k => k) := by
  obtain ⟨value, n, hfield⟩ := intField_of_required texts hpin
  obtain ⟨samples, hconverted, hlow, hhigh⟩ := toInt_between texts hsamples
  unfold applyAnalog
  rw [hfield.byte_iff]
  simp only [evaluated_ok, hfield.found, hfield.converted, hconverted]
  exact analogConfigure_follows hack name n hlow hhigh

theorem applyPwm_follows (hpin : requireInt "pins" name spec "physical_pin" = .ok ())
    (hduty : ((given spec "initial_duty" (.float (.finite 0))).asNumber.any fun duty =>
      !duty.below 0 && !duty.above 1) = true) :
    Follows Knows (applyPwm texts respond name spec)
      (fun _ => ByteField spec "physical_pin" ∧ PwmApplies texts spec) (fun k => k) := by
  obtain ⟨value, n, hfield⟩ := intField_of_required texts hpin
  obtain ⟨duty, hconverted, hduty_iff⟩ := duty_of_valid texts hduty
  unfold applyPwm
  rw [hfield.byte_iff]
  simp only [evaluated_ok, hfield.found, hfield.converted, hconverted]
  apply (follows_evaluated fun frequency _ =>
    pwmConfigure_follows hack name n frequency (dutyOf duty)).congr
  intro k
  constructor
  · rintro ⟨frequency, hfrequency, hbyte, hrange, hunit⟩
    exact ⟨hbyte, ⟨frequency, hfrequency, hrange⟩, hduty_iff.mpr hunit⟩
  · rintro ⟨hbyte, ⟨frequency, hfrequency, hrange⟩, hnumber⟩
    exact ⟨frequency, hfrequency, hbyte, hrange, hduty_iff.mp hnumber⟩

/-- What `pins` teaches: inputs and outputs are pins, the others are not. -/
def learnPin (k : Known) (e : Key × Mapping) : Known :=
  if IsDigital e.2 then k.withPin e.1 else k

omit hack in
theorem hasType_iff {type : String} (h : given spec "type" .null = .str type) (other : String) :
    HasType spec other ↔ type = other := by
  unfold HasType
  rw [h]
  exact Option.some_inj

omit hack in
theorem pinApplies_iff {type : String} (h : given spec "type" .null = .str type) :
    PinApplies texts spec ↔ ByteField spec "physical_pin" ∧
      (type = "digital_output" → Converts texts (given spec "initial" (.bool false)) InByte) ∧
      (type = "digital_input" → DebounceConverts texts spec) ∧
      (type = "pwm" → PwmApplies texts spec) := by
  simp only [← hasType_iff h]
  constructor
  · intro happlies
    exact ⟨happlies.pin, happlies.output, happlies.input, happlies.pwm⟩
  · rintro ⟨hpin, houtput, hinput, hpwm⟩
    exact ⟨hpin, houtput, hinput, hpwm⟩

theorem applyPin_follows (hvalid : validatePin name spec = .ok ()) :
    Follows Knows (applyPin texts respond name spec) (fun _ => PinApplies texts spec)
      (learnPin · (name, spec)) := by
  have hchecks := inOrder_ok.mp hvalid
  simp only [List.forall_mem_cons] at hchecks
  obtain ⟨htype, hpin, hpull, hpwm, hanalog, -⟩ := hchecks
  obtain ⟨type, hsupported, hgiven⟩ := requireOneOf_ok htype
  change (if HasType spec _ then _ else _) = _ at hpull hpwm hanalog
  unfold applyPin learnPin IsDigital
  simp only [hasType_iff hgiven, pinApplies_iff texts hgiven] at hpull hpwm hanalog ⊢
  simp only [supportedPinTypes, List.mem_cons, List.not_mem_nil, or_false] at hsupported
  rcases hsupported with rfl | rfl | rfl | rfl
  · simp only [reduceIte, String.reduceEq, or_true, false_implies, true_implies, and_true,
      true_and] at hpull ⊢
    exact applyInput_follows texts hack hpin hpull
  · simp only [reduceIte, String.reduceEq, or_false, false_implies, true_implies, and_true]
    exact applyOutput_follows texts hack hpin
  · simp only [reduceIte, String.reduceEq, or_false, false_implies, true_implies, true_and]
      at hpwm ⊢
    have hduty := inOrder_ok.mp hpwm
    rw [List.forall_mem_cons, List.forall_mem_singleton, ensure_ok] at hduty
    exact applyPwm_follows texts hack hpin hduty.2
  · simp only [reduceIte, String.reduceEq, or_false, false_implies, and_true] at hanalog ⊢
    exact applyAnalog_follows texts hack hpin hanalog

/-! ### The other sections -/

theorem applyCounter_follows (hvalid : validateCounter name spec = .ok ()) :
    Follows Knows (applyCounter respond name spec)
      (fun k => CounterApplies k.pins spec ∧ (idFor k.counters name).1 ≤ 255)
      (·.withCounter name) := by
  have hchecks := inOrder_ok.mp hvalid
  rw [List.forall_mem_cons, List.forall_mem_singleton] at hchecks
  obtain ⟨edge, hsupported, hgiven⟩ := requireOneOf_ok hchecks.2
  unfold applyCounter counterAttachTo CounterApplies
  simp only [hgiven, withText_str]
  generalize (counterPin spec).asInt = number
  generalize (counterPin spec).key = key
  cases number with
  | some n =>
    apply (counterAttach_follows hack name (.number n) hsupported).congr
    intro k
    refine and_congr_left fun _ => ?_
    constructor
    · intro hbyte
      exact Or.inl ⟨n, rfl, hbyte⟩
    · rintro (⟨m, hm, hbyte⟩ | ⟨hnone, -⟩)
      · rw [Option.some.inj hm]
        exact hbyte
      · cases hnone
  | none =>
    cases key with
    | some key =>
      apply (counterAttach_follows hack name (.name key) hsupported).congr
      intro k
      refine and_congr_left fun _ => ?_
      constructor
      · intro hmem
        exact Or.inr ⟨rfl, key, rfl, hmem⟩
      · rintro (⟨m, hm, -⟩ | ⟨-, pin, hpin, hmem⟩)
        · cases hm
        · rw [Option.some.inj hpin]
          exact hmem
    | none =>
      apply Follows.intro
      intro k h hk
      have hnot : ¬ (((∃ n, (none : Option ℤ) = some n ∧ InByte n) ∨
          (none : Option ℤ) = none ∧ ∃ pin, (none : Option Key) = some pin ∧ pin ∈ k.pins) ∧
          (idFor k.counters name).1 ≤ 255) := by
        rintro ⟨⟨n, hn, -⟩ | ⟨-, pin, hpin, -⟩, -⟩
        · cases hn
        · cases hpin
      exact ⟨iff_of_false nofun hnot, fun hmay => absurd hmay hnot⟩

theorem applyEncoder_follows (hvalid : validateEncoder name spec = .ok ()) :
    Follows Knows (applyEncoder texts respond name spec)
      (fun k => EncoderApplies spec ∧ (idFor k.encoders name).1 ≤ 255) (·.withEncoder name) := by
  have hchecks := inOrder_ok.mp hvalid
  rw [List.forall_mem_cons, List.forall_mem_cons, List.forall_mem_singleton] at hchecks
  obtain ⟨hpinA, hpinB, hmode⟩ := hchecks
  obtain ⟨valueA, a, hfieldA⟩ := intField_of_required texts hpinA
  obtain ⟨valueB, b, hfieldB⟩ := intField_of_required texts hpinB
  obtain ⟨mode, hsupported, hgiven⟩ := requireOneOf_ok hmode
  unfold applyEncoder encoderAttachTo EncoderApplies
  rw [hfieldA.byte_iff, hfieldB.byte_iff]
  simp only [evaluated_ok, hfieldA.found, hfieldB.found, hgiven, withText_str,
    hfieldA.converted, hfieldB.converted]
  exact encoderAttach_follows hack name a b hsupported

theorem applyI2cBus_follows (hvalid : validateI2cBus name spec = .ok ()) :
    Follows Knows (applyI2cBus texts respond name spec) (fun _ => BusApplies texts spec)
      (·.withBus name) := by
  have hchecks := inOrder_ok.mp hvalid
  rw [List.forall_mem_cons, List.forall_mem_singleton] at hchecks
  obtain ⟨value, n, hfield⟩ := intField_of_required texts hchecks.1
  have hbus := toInt_of_asInt texts (hfield.given_int (.int 0))
  unfold applyI2cBus BusApplies Converts
  rw [hfield.byte_iff]
  simp only [evaluated_ok, hbus]
  apply (follows_evaluated fun frequency _ => i2cConfigure_follows hack name n frequency).congr
  intro k
  constructor
  · rintro ⟨frequency, hfrequency, hbyte, hrange⟩
    exact ⟨hbyte, frequency, hfrequency, hrange⟩
  · rintro ⟨hbyte, frequency, hfrequency, hrange⟩
    exact ⟨frequency, hfrequency, hbyte, hrange⟩

theorem applyDac_follows (hvalid : validateDac name spec = .ok ()) :
    Follows Knows (applyDac texts respond name spec)
      (fun k => DacApplies k.buses spec ∧ (idFor k.dacs name).1 ≤ 255) (·.withDac name) := by
  have hchecks := inOrder_ok.mp hvalid
  simp only [List.forall_mem_cons, ensure_ok] at hchecks
  obtain ⟨hbus, haddress, hchannels, hresolution, -⟩ := hchecks
  obtain ⟨bus, hgiven⟩ := Option.isSome_iff_exists.mp hbus
  obtain ⟨value, n, hfield⟩ := intField_of_required texts haddress
  obtain ⟨channels, hchannels, hchannels'⟩ := toInt_between texts hchannels
  obtain ⟨resolution, hresolution, hresolution'⟩ := toInt_between texts hresolution
  have hfound : field spec "bus" = .ok (.str bus) := by
    unfold given at hgiven
    unfold field
    generalize spec.get "bus" = found at hgiven ⊢
    cases found with
    | none => cases hgiven
    | some value => exact congrArg Except.ok (Value.eq_str_of_asStr hgiven)
  unfold applyDac dacAttachI2c DacApplies
  rw [hgiven, hfield.given_int]
  simp only [evaluated_ok, hfound, hfield.found, hfield.converted, hchannels, hresolution,
    Value.key]
  apply (dacAttach_follows hack name (.str bus) n hchannels' hresolution').congr
  intro k
  refine and_congr_left fun _ => ?_
  constructor
  · rintro ⟨hmem, hrange⟩
    exact ⟨⟨bus, rfl, hmem⟩, n, rfl, hrange⟩
  · rintro ⟨⟨name, hname, hmem⟩, m, hm, hrange⟩
    rw [Option.some.inj hname, Option.some.inj hm]
    exact ⟨hmem, hrange⟩

end Entries

/-! ### The loops -/

theorem configureSection_follows {config : Mapping} {part : String} {noMapping : PyError}
    {validate : Key → Mapping → Check}
    {apply : Key → Mapping → Resources Key → Result Unit Key} {turn : Known → Key × Mapping → Prop}
    {teach : Known → Key × Mapping → Known} (hvalid : ValidSection config part validate)
    (h : ∀ name spec, validate name spec = .ok () →
      Follows Knows (apply name spec) (turn · (name, spec)) (teach · (name, spec))) :
    Follows Knows (configureSection config part noMapping apply)
      (EachStep teach turn · (entriesOf config part)) (after teach · (entriesOf config part)) := by
  have hloop : configureSection config part noMapping apply =
      loop (fun e => apply e.1 e.2) (entriesOf config part) := by
    funext s
    unfold configureSection
    rw [hvalid.listed]
    dsimp only
    rw [loop_map]
  rw [hloop]
  exact Follows.loop fun e he => h e.1 e.2 (hvalid.each e he)

theorem after_learnPin (k : Known) (es : List (Key × Mapping)) :
    after learnPin k es =
      { k with pins := k.pins ++ (es.filter fun e => IsDigital e.2).map Prod.fst } := by
  induction es generalizing k with
  | nil => rw [List.filter_nil, List.map_nil, List.append_nil, after_nil]
  | cons e es ih =>
    rw [after_cons, ih]
    unfold learnPin Known.withPin
    by_cases hdigital : IsDigital e.2
    · rw [if_pos hdigital, List.filter_cons_of_pos (by simpa using hdigital), List.map_cons,
        List.append_assoc, List.singleton_append]
    · rw [if_neg hdigital, List.filter_cons_of_neg (by simpa using hdigital)]

theorem after_withPin (k : Known) (es : List (Key × Mapping)) :
    after (fun k e => k.withPin e.1) k es = { k with pins := k.pins ++ es.map Prod.fst } := by
  induction es generalizing k with
  | nil => rw [List.map_nil, List.append_nil, after_nil]
  | cons e es ih =>
    rw [after_cons, ih, List.map_cons]
    unfold Known.withPin
    rw [List.append_assoc, List.singleton_append]

theorem after_withBus (k : Known) (es : List (Key × Mapping)) :
    after (fun k e => k.withBus e.1) k es = { k with buses := k.buses ++ es.map Prod.fst } := by
  induction es generalizing k with
  | nil => rw [List.map_nil, List.append_nil, after_nil]
  | cons e es ih =>
    rw [after_cons, ih, List.map_cons]
    unfold Known.withBus
    rw [List.append_assoc, List.singleton_append]

/-- The turns of a section that gives out ids, where `fits` looks at a part of what is known that
the section leaves alone. -/
theorem turns_with_ids_iff {τ : Type} {teach : Known → Key × Mapping → Known}
    (ids : Known → List Key) (view : Known → τ) (fits : τ → Key × Mapping → Prop)
    (moves : ∀ k e, ids (teach k e) = (idFor (ids k) e.1).2)
    (still : ∀ k e, view (teach k e) = view k) {k : Known} (hempty : ids k = [])
    (es : List (Key × Mapping)) :
    EachStep teach (fun k e => fits (view k) e ∧ (idFor (ids k) e.1).1 ≤ 255) k es ↔
      (∀ e ∈ es, fits (view k) e) ∧ (es.map Prod.fst).toFinset.card ≤ 256 := by
  have hids := @eachStep_image Known (Key × Mapping) teach (List Key) Key
    (fun ids name => (idFor ids name).2) (fun ids name => (idFor ids name).1 ≤ 255) ids Prod.fst
    moves k es
  rw [eachStep_and, hids, hempty, ids_fit_iff List.nodup_nil (Nat.zero_le _), List.nil_append]
  exact and_congr_left' (eachStep_still still)

section Sections

variable {config : Mapping} (hack : Acknowledges respond) (hvalid : ValidConfig config)
include hack hvalid

theorem pins_follow :
    Follows Knows (configureSection config "pins" .attributeError (applyPin texts respond))
      (EachStep learnPin (fun _ e => PinApplies texts e.2) · (entriesOf config "pins"))
      (after learnPin · (entriesOf config "pins")) := by
  apply configureSection_follows hvalid.pins
  intro name spec hv
  exact applyPin_follows texts hack hv

theorem inputs_follow :
    Follows Knows (configureSection config "inputs" .typeError (applyInput texts respond))
      (EachStep (fun k e => k.withPin e.1) (fun _ e => InputApplies texts e.2) ·
        (entriesOf config "inputs"))
      (after (fun k e => k.withPin e.1) · (entriesOf config "inputs")) := by
  apply configureSection_follows hvalid.inputs
  intro name spec hv
  have hchecks := inOrder_ok.mp hv
  rw [List.forall_mem_cons, List.forall_mem_singleton] at hchecks
  exact applyInput_follows texts hack hchecks.1 hchecks.2

theorem counters_follow :
    Follows Knows (configureSection config "counters" .attributeError (applyCounter respond))
      (EachStep (fun k e => k.withCounter e.1)
        (fun k e => CounterApplies k.pins e.2 ∧ (idFor k.counters e.1).1 ≤ 255) ·
        (entriesOf config "counters"))
      (after (fun k e => k.withCounter e.1) · (entriesOf config "counters")) := by
  apply configureSection_follows hvalid.counters
  intro name spec hv
  exact applyCounter_follows hack hv

theorem encoders_follow :
    Follows Knows (configureSection config "encoders" .typeError (applyEncoder texts respond))
      (EachStep (fun k e => k.withEncoder e.1)
        (fun k e => EncoderApplies e.2 ∧ (idFor k.encoders e.1).1 ≤ 255) ·
        (entriesOf config "encoders"))
      (after (fun k e => k.withEncoder e.1) · (entriesOf config "encoders")) := by
  apply configureSection_follows hvalid.encoders
  intro name spec hv
  exact applyEncoder_follows texts hack hv

theorem i2cBuses_follow :
    Follows Knows (configureSection config "i2c_buses" .attributeError (applyI2cBus texts respond))
      (EachStep (fun k e => k.withBus e.1) (fun _ e => BusApplies texts e.2) ·
        (entriesOf config "i2c_buses"))
      (after (fun k e => k.withBus e.1) · (entriesOf config "i2c_buses")) := by
  apply configureSection_follows hvalid.i2cBuses
  intro name spec hv
  exact applyI2cBus_follows texts hack hv

theorem dacs_follow :
    Follows Knows (configureSection config "dacs" .typeError (applyDac texts respond))
      (EachStep (fun k e => k.withDac e.1)
        (fun k e => DacApplies k.buses e.2 ∧ (idFor k.dacs e.1).1 ≤ 255) ·
        (entriesOf config "dacs"))
      (after (fun k e => k.withDac e.1) · (entriesOf config "dacs")) := by
  apply configureSection_follows hvalid.dacs
  intro name spec hv
  exact applyDac_follows texts hack hv

end Sections

/-! ### The whole run -/

section Known

variable (config : Mapping)

def knownAfterPins : Known := after learnPin {} (entriesOf config "pins")

def knownAfterInputs : Known :=
  after (fun k e => k.withPin e.1) (knownAfterPins config) (entriesOf config "inputs")

def knownAfterCounters : Known :=
  after (fun k e => k.withCounter e.1) (knownAfterInputs config) (entriesOf config "counters")

def knownAfterEncoders : Known :=
  after (fun k e => k.withEncoder e.1) (knownAfterCounters config) (entriesOf config "encoders")

def knownAfterBuses : Known :=
  after (fun k e => k.withBus e.1) (knownAfterEncoders config) (entriesOf config "i2c_buses")

theorem knownAfterInputs_eq : knownAfterInputs config = { pins := pinNames config } := by
  unfold knownAfterInputs knownAfterPins
  rw [after_withPin, after_learnPin, List.nil_append]
  rfl

theorem knownAfterCounters_encoders : (knownAfterCounters config).encoders = [] := by
  refine (after_still Known.encoders ?_ _ _).trans ?_
  · exact fun _ _ => rfl
  · rw [knownAfterInputs_eq]

/-- Buses and DACs are unknown until their sections. -/
theorem knownAfterEncoders_still (view : Known → List Key)
    (hcounter : ∀ k name, view (Known.withCounter k name) = view k)
    (hencoder : ∀ k name, view (Known.withEncoder k name) = view k) :
    view (knownAfterEncoders config) = view { pins := pinNames config } := by
  refine (after_still view (fun k (e : Key × Mapping) => hencoder k e.1) _ _).trans ?_
  refine (after_still view (fun k (e : Key × Mapping) => hcounter k e.1) _ _).trans ?_
  rw [knownAfterInputs_eq]

theorem knownAfterBuses_buses :
    (knownAfterBuses config).buses = namesOf config "i2c_buses" := by
  unfold knownAfterBuses
  rw [after_withBus, knownAfterEncoders_still config Known.buses (fun _ _ => rfl) fun _ _ => rfl,
    List.nil_append]
  rfl

theorem knownAfterBuses_dacs : (knownAfterBuses config).dacs = [] := by
  unfold knownAfterBuses
  rw [after_withBus]
  exact knownAfterEncoders_still config Known.dacs (fun _ _ => rfl) fun _ _ => rfl

theorem counters_turns_iff :
    EachStep (fun k e => k.withCounter e.1)
      (fun k e => CounterApplies k.pins e.2 ∧ (idFor k.counters e.1).1 ≤ 255)
      (knownAfterInputs config) (entriesOf config "counters") ↔
      (∀ e ∈ entriesOf config "counters", CounterApplies (pinNames config) e.2) ∧
        (namesOf config "counters").toFinset.card ≤ 256 := by
  rw [knownAfterInputs_eq]
  apply turns_with_ids_iff Known.counters Known.pins fun pins e => CounterApplies pins e.2
  · exact fun _ _ => rfl
  · exact fun _ _ => rfl
  · rfl

theorem encoders_turns_iff :
    EachStep (fun k e => k.withEncoder e.1)
      (fun k e => EncoderApplies e.2 ∧ (idFor k.encoders e.1).1 ≤ 255)
      (knownAfterCounters config) (entriesOf config "encoders") ↔
      (∀ e ∈ entriesOf config "encoders", EncoderApplies e.2) ∧
        (namesOf config "encoders").toFinset.card ≤ 256 := by
  apply turns_with_ids_iff Known.encoders (fun _ => ()) fun _ e => EncoderApplies e.2
  · exact fun _ _ => rfl
  · exact fun _ _ => rfl
  · exact knownAfterCounters_encoders config

theorem dacs_turns_iff :
    EachStep (fun k e => k.withDac e.1)
      (fun k e => DacApplies k.buses e.2 ∧ (idFor k.dacs e.1).1 ≤ 255)
      (knownAfterBuses config) (entriesOf config "dacs") ↔
      (∀ e ∈ entriesOf config "dacs", DacApplies (namesOf config "i2c_buses") e.2) ∧
        (namesOf config "dacs").toFinset.card ≤ 256 := by
  rw [← knownAfterBuses_buses]
  apply turns_with_ids_iff Known.dacs Known.buses fun buses e => DacApplies buses e.2
  · exact fun _ _ => rfl
  · exact fun _ _ => rfl
  · exact knownAfterBuses_dacs config

end Known

/-- A validated configuration can be applied exactly where it is applicable. -/
theorem configureAll_returns_iff (respond : List Command → Except PyError (List UInt8))
    (config : Mapping) (hvalid : validateConfig (.dict config) = .ok ())
    (hack : Acknowledges respond) :
    (configureAll texts respond config {}).1 = .ok () ↔ Applicable texts config := by
  have hsections := validateConfig_ok hvalid
  have hplan := (pins_follow texts hack hsections).andThen <|
    (inputs_follow texts hack hsections).andThen <| (counters_follow hack hsections).andThen <|
    (encoders_follow texts hack hsections).andThen <|
    (i2cBuses_follow texts hack hsections).andThen <| dacs_follow texts hack hsections
  apply (hplan.returns_iff {} {} knows_fresh).trans
  constructor
  · rintro ⟨hpins, hinputs, hcounters, hencoders, hbuses, hdacs⟩
    obtain ⟨hcounters, hcounterIds⟩ := (counters_turns_iff config).mp hcounters
    obtain ⟨hencoders, hencoderIds⟩ := (encoders_turns_iff config).mp hencoders
    obtain ⟨hdacs, hdacIds⟩ := (dacs_turns_iff config).mp hdacs
    exact ⟨eachStep_const.mp hpins, eachStep_const.mp hinputs, hcounters, hencoders,
      eachStep_const.mp hbuses, hdacs, hcounterIds, hencoderIds, hdacIds⟩
  · intro h
    refine ⟨eachStep_const.mpr h.pins, eachStep_const.mpr h.inputs, ?_, ?_,
      eachStep_const.mpr h.i2cBuses, ?_⟩
    · exact (counters_turns_iff config).mpr ⟨h.counters, h.counterIds⟩
    · exact (encoders_turns_iff config).mpr ⟨h.encoders, h.encoderIds⟩
    · exact (dacs_turns_iff config).mpr ⟨h.dacs, h.dacIds⟩

/-! ### Two configurations -/

/-- A device that acknowledges everything. -/
def acks : List Command → Except PyError (List UInt8) := fun _ => .ok []

theorem acks_acknowledges : Acknowledges acks := fun _ => ⟨[], rfl⟩

/-- No text is a number. -/
def noNumbers : Texts where
  int := fun _ => none
  intBytes := fun _ => none
  float := fun _ => none
  floatBytes := fun _ => none

/-- The sections that refer to others, with the sections they refer to. -/
def wheelConfig : Mapping :=
  [(.str "pins", .dict [(.str "motor_pwm", .dict [(.str "type", .str "pwm"),
      (.str "physical_pin", .int 3), (.str "frequency", .int 20000),
      (.str "initial_duty", .float (.finite (1 / 4)))])]),
    (.str "inputs", .dict [(.str "wheel_pulse", .dict [(.str "physical_pin", .int 7),
      (.str "pull", .str "up"), (.str "debounce_us", .int 50)])]),
    (.str "counters", .dict [(.str "wheel_ticks", .dict [(.str "input", .str "wheel_pulse"),
      (.str "edge", .str "rising")])]),
    (.str "i2c_buses", .dict [(.str "main_i2c", .dict [(.str "bus", .int 0),
      (.str "frequency", .int 400000)])]),
    (.str "dacs", .dict [(.str "analog_out", .dict [(.str "bus", .str "main_i2c"),
      (.str "address", .int 96)])])]

theorem wheelConfig_applicable : Applicable noNumbers wheelConfig where
  pins := by
    change ∀ e ∈ [_], _
    rw [List.forall_mem_singleton]
    refine ⟨⟨3, rfl, by decide⟩, nofun, nofun, fun _ => ⟨⟨20000, rfl, by decide⟩, nofun⟩⟩
  inputs := by
    change ∀ e ∈ [_], _
    rw [List.forall_mem_singleton]
    exact ⟨⟨7, rfl, by decide⟩, 50, rfl, trivial⟩
  counters := by
    change ∀ e ∈ [_], _
    rw [List.forall_mem_singleton]
    exact Or.inr ⟨rfl, .str "wheel_pulse", rfl, List.mem_singleton_self _⟩
  encoders := nofun
  i2cBuses := by
    change ∀ e ∈ [_], _
    rw [List.forall_mem_singleton]
    exact ⟨⟨0, rfl, by decide⟩, 400000, rfl, by decide⟩
  dacs := by
    change ∀ e ∈ [_], _
    rw [List.forall_mem_singleton]
    exact ⟨⟨"main_i2c", rfl, List.mem_singleton_self _⟩, 96, rfl, by decide⟩
  counterIds := by decide
  encoderIds := by decide
  dacIds := by decide

theorem wheelConfig_applies : (configureAll noNumbers acks wheelConfig {}).1 = .ok () :=
  (configureAll_returns_iff noNumbers acks wheelConfig (by decide +kernel) acks_acknowledges).mpr
    wheelConfig_applicable

/-- The bus of a DAC must name an entry of `i2c_buses`, says the text of a check that any string
passes. -/
def orphanDac : Mapping :=
  [(.str "dacs", .dict [(.str "analog_out", .dict [(.str "bus", .str "main_i2c"),
    (.str "address", .int 96)])])]

theorem orphanDac_raises :
    validateConfig (.dict orphanDac) = .ok () ∧ Acknowledges acks ∧
      (configureAll noNumbers acks orphanDac {}).1 = .error .runtimeError :=
  ⟨rfl, acks_acknowledges, rfl⟩

end ApplicableConfigs
