import TeensyIo.ConfigValues

/-! # Validation of a configuration

`config/schema.py`. A check either passes or raises, and the checks of an entry are made in
order. -/
namespace ConfigSchema

open HostProtocol ConfigValues

/-- What `validate_config` raises: a `ValueError` about the root, about the entry
`part.name` or about the field `part.name.field`, or another exception of Python. -/
inductive Rejection where
  | root (text : String)
  | entry (part : String) (name : Key) (text : String)
  | field (part : String) (name : Key) (field text : String)
  | raised (error : PyError)
  deriving DecidableEq

abbrev Check := Except Rejection Unit

def inOrder : List Check → Check
  | [] => .ok ()
  | .error rejection :: _ => .error rejection
  | .ok () :: checks => inOrder checks

theorem inOrder_ok {checks : List Check} :
    inOrder checks = .ok () ↔ ∀ check ∈ checks, check = .ok () := by
  induction checks with
  | nil => exact iff_of_true rfl nofun
  | cons check checks ih =>
    rw [List.forall_mem_cons]
    cases check with
    | error rejection =>
      constructor
      · intro h
        cases h
      · rintro ⟨h, -⟩
        cases h
    | ok u =>
      rw [← ih]
      exact (and_iff_right rfl).symm

def ensure (holds : Bool) (rejection : Rejection) : Check :=
  if holds then .ok () else .error rejection

@[simp] theorem ensure_ok {holds : Bool} {rejection : Rejection} :
    ensure holds rejection = .ok () ↔ holds = true := by
  cases holds with
  | false =>
    constructor
    · intro h
      cases h
    · intro h
      cases h
  | true => exact iff_of_true rfl rfl

/-- `spec.get(field, default)`. -/
def given (spec : Mapping) (field : String) (default : Value) : Value :=
  (spec.get field).getD default

def supportedPinTypes : List String := ["digital_input", "digital_output", "pwm", "analog"]
def supportedEdges : List String := ["rising", "falling", "both"]
def supportedPulls : List String := ["floating", "none", "up", "pullup", "down", "pulldown"]
def supportedEncoderModes : List String := ["x1", "x2", "x4"]

/-- `if value not in supported: raise`, where the value has to be hashable. -/
def requireOneOf (supported : List String) (value : Value) (rejection : Rejection) : Check :=
  match value.key with
  | none => .error (.raised .typeError)
  | some key => ensure (supported.any fun s => key == .str s) rejection

def requireMapping (part : String) (name : Key) (validate : Key → Mapping → Check) :
    Value → Check
  | .dict spec => validate name spec
  | _ => .error (.entry part name "must be a mapping")

def requireInt (part : String) (name : Key) (spec : Mapping) (field : String) : Check :=
  ensure (given spec field .null).asInt.isSome (.field part name field "must be an integer")

/-- `_require_number` with `required=False`. -/
def requireNumber (part : String) (name : Key) (spec : Mapping) (field : String) : Check :=
  match spec.get field with
  | none => .ok ()
  | some value => ensure value.asNumber.isSome (.field part name field "must be a number")

/-- An integer field with bounds and a default. -/
def requireBetween (part : String) (name : Key) (spec : Mapping) (field : String)
    (default low high : ℤ) (text : String) : Check :=
  ensure ((given spec field (.int default)).asInt.any fun n => low ≤ n && n ≤ high)
    (.field part name field text)

def requirePull (part : String) (name : Key) (spec : Mapping) : Check :=
  requireOneOf supportedPulls (given spec "pull" (.str "floating")) (.field part name "pull"
    "must be one of ['down', 'floating', 'none', 'pulldown', 'pullup', 'up']")

def validatePin (name : Key) (spec : Mapping) : Check :=
  let pinType := given spec "type" .null
  inOrder [
    requireOneOf supportedPinTypes pinType (.field "pins" name "type"
      "must be one of ['analog', 'digital_input', 'digital_output', 'pwm']"),
    requireInt "pins" name spec "physical_pin",
    if pinType.asStr = some "digital_input" then requirePull "pins" name spec else .ok (),
    if pinType.asStr = some "pwm" then
      inOrder [
        requireNumber "pins" name spec "frequency",
        ensure ((given spec "initial_duty" (.float (.finite 0))).asNumber.any fun duty =>
            !duty.below 0 && !duty.above 1)
          (.field "pins" name "initial_duty" "must be between 0.0 and 1.0")]
    else .ok (),
    if pinType.asStr = some "analog" then
      requireBetween "pins" name spec "samples" 1 1 255 "must be between 1 and 255"
    else .ok ()]

def validateInput (name : Key) (spec : Mapping) : Check :=
  inOrder [requireInt "inputs" name spec "physical_pin", requirePull "inputs" name spec]

def validateCounter (name : Key) (spec : Mapping) : Check :=
  inOrder [
    ensure ((spec.get "pin").isSome || (spec.get "input").isSome)
      (.entry "counters" name "requires pin or input"),
    requireOneOf supportedEdges (given spec "edge" (.str "rising")) (.field "counters" name "edge"
      "must be one of ['both', 'falling', 'rising']")]

def validateEncoder (name : Key) (spec : Mapping) : Check :=
  inOrder [
    requireInt "encoders" name spec "pin_a",
    requireInt "encoders" name spec "pin_b",
    requireOneOf supportedEncoderModes (given spec "mode" (.str "x4"))
      (.field "encoders" name "mode" "must be one of ['x1', 'x2', 'x4']")]

def validateI2cBus (name : Key) (spec : Mapping) : Check :=
  inOrder [
    requireInt "i2c_buses" name spec "bus",
    requireNumber "i2c_buses" name spec "frequency"]

def validateDac (name : Key) (spec : Mapping) : Check :=
  inOrder [
    ensure (given spec "bus" .null).asStr.isSome
      (.field "dacs" name "bus" "must name an i2c_buses entry"),
    requireInt "dacs" name spec "address",
    requireBetween "dacs" name spec "channels" 1 1 255 "must be between 1 and 255",
    requireBetween "dacs" name spec "resolution_bits" 12 1 16 "must be between 1 and 16"]

/-- `config.get(part, {}).items()`. -/
def sectionOf (config : Mapping) (part : String) : Except PyError Mapping :=
  match config.get part with
  | none => .ok []
  | some (.dict entries) => .ok entries
  | some _ => .error .attributeError

def validateSection (config : Mapping) (part : String) (validate : Key → Mapping → Check) :
    Check :=
  match sectionOf config part with
  | .error error => .error (.raised error)
  | .ok entries => inOrder (entries.map fun e => requireMapping part e.1 validate e.2)

def validateConfig : Value → Check
  | .dict config =>
    inOrder [
      validateSection config "pins" validatePin,
      validateSection config "inputs" validateInput,
      validateSection config "counters" validateCounter,
      validateSection config "encoders" validateEncoder,
      validateSection config "i2c_buses" validateI2cBus,
      validateSection config "dacs" validateDac]
  | _ => .error (.root "config root must be a mapping")

/-! ### What an accepted configuration satisfies -/

/-- The entries of a section that are mappings; in an accepted configuration, all. -/
def entriesOf (config : Mapping) (part : String) : List (Key × Mapping) :=
  match sectionOf config part with
  | .error _ => []
  | .ok entries => entries.filterMap fun e =>
    match e.2 with
    | .dict spec => some (e.1, spec)
    | _ => none

structure ValidSection (config : Mapping) (part : String) (validate : Key → Mapping → Check) :
    Prop where
  listed : sectionOf config part = .ok ((entriesOf config part).map fun e => (e.1, .dict e.2))
  each : ∀ e ∈ entriesOf config part, validate e.1 e.2 = .ok ()

theorem mappings_only {part : String} {validate : Key → Mapping → Check} {entries : Mapping}
    (h : ∀ e ∈ entries, requireMapping part e.1 validate e.2 = .ok ()) :
    ∃ specs : List (Key × Mapping), entries = specs.map (fun e => (e.1, .dict e.2)) ∧
      ∀ e ∈ specs, validate e.1 e.2 = .ok () := by
  induction entries with
  | nil => exact ⟨[], rfl, nofun⟩
  | cons e entries ih =>
    obtain ⟨hfirst, hrest⟩ := List.forall_mem_cons.mp h
    obtain ⟨specs, rfl, heach⟩ := ih hrest
    obtain ⟨name, value⟩ := e
    cases value with
    | dict spec => exact ⟨(name, spec) :: specs, rfl, List.forall_mem_cons.mpr ⟨hfirst, heach⟩⟩
    | _ => cases hfirst

theorem validateSection_ok {config : Mapping} {part : String} {validate : Key → Mapping → Check}
    (h : validateSection config part validate = .ok ()) : ValidSection config part validate := by
  unfold validateSection at h
  split at h
  · cases h
  · next entries hentries =>
    have hmappings : ∀ e ∈ entries, requireMapping part e.1 validate e.2 = .ok () := by
      intro e he
      exact inOrder_ok.mp h _ (List.mem_map.mpr ⟨e, he, rfl⟩)
    obtain ⟨specs, rfl, heach⟩ := mappings_only hmappings
    have hspecs : entriesOf config part = specs := by
      unfold entriesOf
      rw [hentries]
      dsimp only
      rw [List.filterMap_map]
      exact List.filterMap_some
    constructor
    · rw [hspecs]
      exact hentries
    · rw [hspecs]
      exact heach

structure ValidConfig (config : Mapping) : Prop where
  pins : ValidSection config "pins" validatePin
  inputs : ValidSection config "inputs" validateInput
  counters : ValidSection config "counters" validateCounter
  encoders : ValidSection config "encoders" validateEncoder
  i2cBuses : ValidSection config "i2c_buses" validateI2cBus
  dacs : ValidSection config "dacs" validateDac

theorem validateConfig_ok {config : Mapping} (h : validateConfig (.dict config) = .ok ()) :
    ValidConfig config := by
  have hall := inOrder_ok.mp h
  simp only [List.forall_mem_cons] at hall
  obtain ⟨hpins, hinputs, hcounters, hencoders, hbuses, hdacs, -⟩ := hall
  exact ⟨validateSection_ok hpins, validateSection_ok hinputs, validateSection_ok hcounters,
    validateSection_ok hencoders, validateSection_ok hbuses, validateSection_ok hdacs⟩

theorem requireOneOf_ok {supported : List String} {value : Value} {rejection : Rejection}
    (h : requireOneOf supported value rejection = .ok ()) : ∃ s ∈ supported, value = .str s := by
  unfold requireOneOf at h
  split at h
  · cases h
  · next key hkey =>
    rw [ensure_ok] at h
    obtain ⟨s, hs, heq⟩ := List.any_eq_true.mp h
    refine ⟨s, hs, ?_⟩
    rw [eq_of_beq heq] at hkey
    match value, hkey with
    | .str t, hkey => rw [Key.str.inj (Option.some.inj hkey)]
    | .float (.finite x), hkey => cases hkey

theorem requireInt_ok {part : String} {name : Key} {spec : Mapping} {field : String}
    (h : requireInt part name spec field = .ok ()) :
    ∃ value n, spec.get field = some value ∧ value.asInt = some n := by
  unfold requireInt given at h
  rw [ensure_ok] at h
  generalize spec.get field = found at h ⊢
  cases found with
  | none => cases h
  | some value =>
    obtain ⟨n, hn⟩ := Option.isSome_iff_exists.mp h
    exact ⟨value, n, rfl, hn⟩

theorem requireBetween_ok {part : String} {name : Key} {spec : Mapping} {field text : String}
    {default low high : ℤ}
    (h : requireBetween part name spec field default low high text = .ok ()) :
    ∃ n, (given spec field (.int default)).asInt = some n ∧ low ≤ n ∧ n ≤ high := by
  unfold requireBetween at h
  rw [ensure_ok, Option.any_eq_true] at h
  obtain ⟨n, hn, hbounds⟩ := h
  rw [Bool.and_eq_true, decide_eq_true_eq, decide_eq_true_eq] at hbounds
  exact ⟨n, hn, hbounds⟩

end ConfigSchema
