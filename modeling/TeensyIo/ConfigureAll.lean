import TeensyIo.ConfigSchema
import TeensyIo.RaisingPrograms

/-! # Applying a configuration

`configure_all`, and the methods of the resource classes as it calls them: with the values of the
configuration, which they convert themselves. -/
namespace ConfigureAll

open HostProtocol HostResources ConfigValues ConfigSchema RaisingPrograms

section Definitions

variable (texts : Texts) (respond : List Command → Except PyError (List UInt8))

/-- An expression that may raise before a call. -/
def evaluated {α : Type} (x : Except PyError α) (h : Resources Key)
    (rest : α → Result Unit Key) : Result Unit Key :=
  match x with
  | .error error => (.error error, h)
  | .ok a => rest a

@[simp] theorem evaluated_ok {α : Type} (a : α) (h : Resources Key)
    (rest : α → Result Unit Key) : evaluated (.ok a) h rest = rest a := rfl

/-- `spec[name]`. -/
def field (spec : Mapping) (name : String) : Except PyError Value :=
  match spec.get name with
  | none => .error .keyError
  | some value => .ok value

/-- A call that looks its argument up in a table of texts. The empty text stands for the values
that are no texts, for it is in no table; an unhashable one is refused in another way. -/
def withText (value : Value) (call : String → Result Unit Key) : Result Unit Key :=
  match value.asStr, value.key with
  | some text, _ => call text
  | none, some _ => call ""
  | none, none =>
    match call "" with
    | (.error .keyError, h) => (.error .typeError, h)
    | result => result

@[simp] theorem withText_str (text : String) (call : String → Result Unit Key) :
    withText (.str text) call = call text := rfl

/-! ### The methods -/

/-- `Pin.configure_output`. The pin is kept before `int(initial)` can raise. -/
def pinConfigureOutput (h : Resources Key) (name : Key) (physicalPin initial : Value) :
    Result Unit Key :=
  evaluated (toInt texts physicalPin) h fun pin =>
    match toInt texts initial with
    | .error error => (.error error, { h with pins := Function.update h.pins name ⟨some pin⟩ })
    | .ok initial => configureOutput respond h name pin initial

/-- `Pin.configure_input`; the debounce time is not used. -/
def pinConfigureInput (h : Resources Key) (name : Key) (physicalPin pull : Value) :
    Result Unit Key :=
  evaluated (toInt texts physicalPin) h fun pin =>
    withText pull fun pull => configureInput respond h name pin pull

/-- The duty of `_u8_duty`. An infinity is out of range and NaN cannot be rounded, which both
raise a `ValueError`, as two does. -/
def dutyOf : Double → ℚ
  | .finite x => x
  | _ => 2

/-- `PulseCounter.attach`. -/
def counterAttachTo (h : Resources Key) (name : Key) (pin edge : Value) : Result Unit Key :=
  match pin.asInt, pin.key with
  | some n, _ => withText edge fun edge => counterAttach respond h name (.number n) edge
  | none, some key => withText edge fun edge => counterAttach respond h name (.name key) edge
  | none, none => (.error .typeError, h)

/-- `QuadratureEncoder.attach`. The id is taken before the pins are converted. -/
def encoderAttachTo (h : Resources Key) (name : Key) (pinA pinB mode : Value) :
    Result Unit Key :=
  withText mode fun mode =>
    match toInt texts pinA, toInt texts pinB with
    | .ok a, .ok b => encoderAttach respond h name a b mode
    | .error error, _ | .ok _, .error error =>
      let (id, ids) := idFor h.encoderIds name
      let encoder := { h.encoders name with id := some id }
      match modeCode mode with
      | none => (.error .keyError, h)
      | some _ =>
        (.error error,
          { h with encoderIds := ids, encoders := Function.update h.encoders name encoder })

/-- `DacOutput.attach_i2c`, of a bus that may have no hash. -/
def dacAttachI2c (h : Resources Key) (name : Key) (bus : Value)
    (address channels resolutionBits : ℤ) : Result Unit Key :=
  match bus.key with
  | none => (.error .typeError, h)
  | some bus => dacAttach respond h name bus address channels resolutionBits

/-! ### The entries of each section -/

/-- The entries of `inputs`, and those of `pins` that are inputs. -/
def applyInput (name : Key) (spec : Mapping) (h : Resources Key) : Result Unit Key :=
  evaluated (field spec "physical_pin") h fun pin =>
  evaluated (toInt texts (given spec "debounce_us" (.int 0))) h fun _ =>
  pinConfigureInput texts respond h name pin (given spec "pull" (.str "floating"))

def applyOutput (name : Key) (spec : Mapping) (h : Resources Key) : Result Unit Key :=
  evaluated (field spec "physical_pin") h fun pin =>
  pinConfigureOutput texts respond h name pin (given spec "initial" (.bool false))

def applyPwm (name : Key) (spec : Mapping) (h : Resources Key) : Result Unit Key :=
  evaluated (field spec "physical_pin") h fun pin =>
  evaluated (toInt texts (given spec "frequency" (.int 1000))) h fun frequency =>
  evaluated (toFloat texts (given spec "initial_duty" (.float (.finite 0)))) h fun duty =>
  evaluated (toInt texts pin) h fun pin =>
  pwmConfigure respond h name pin frequency (dutyOf duty)

def applyAnalog (name : Key) (spec : Mapping) (h : Resources Key) : Result Unit Key :=
  evaluated (field spec "physical_pin") h fun pin =>
  evaluated (toInt texts (given spec "samples" (.int 1))) h fun samples =>
  evaluated (toInt texts pin) h fun pin =>
  analogConfigure respond h name pin samples

/-- `spec.get("type") == type`. -/
def HasType (spec : Mapping) (type : String) : Prop :=
  (given spec "type" .null).asStr = some type

instance (spec : Mapping) (type : String) : Decidable (HasType spec type) :=
  inferInstanceAs (Decidable (_ = _))

def applyPin (name : Key) (spec : Mapping) (h : Resources Key) : Result Unit Key :=
  if HasType spec "digital_output" then applyOutput texts respond name spec h
  else if HasType spec "digital_input" then applyInput texts respond name spec h
  else if HasType spec "pwm" then applyPwm texts respond name spec h
  else if HasType spec "analog" then applyAnalog texts respond name spec h
  else (.error .invalidModeError, h)

/-- `spec.get("pin") or spec.get("input")`. -/
def counterPin (spec : Mapping) : Value :=
  if (given spec "pin" .null).truthy then given spec "pin" .null else given spec "input" .null

def applyCounter (name : Key) (spec : Mapping) (h : Resources Key) : Result Unit Key :=
  counterAttachTo respond h name (counterPin spec) (given spec "edge" (.str "rising"))

def applyEncoder (name : Key) (spec : Mapping) (h : Resources Key) : Result Unit Key :=
  evaluated (field spec "pin_a") h fun pinA =>
  evaluated (field spec "pin_b") h fun pinB =>
  encoderAttachTo texts respond h name pinA pinB (given spec "mode" (.str "x4"))

def applyI2cBus (name : Key) (spec : Mapping) (h : Resources Key) : Result Unit Key :=
  evaluated (toInt texts (given spec "bus" (.int 0))) h fun bus =>
  evaluated (toInt texts (given spec "frequency" (.int 400000))) h fun frequency =>
  i2cConfigure respond h name bus frequency

def applyDac (name : Key) (spec : Mapping) (h : Resources Key) : Result Unit Key :=
  evaluated (field spec "bus") h fun bus =>
  evaluated (field spec "address") h fun address =>
  evaluated (toInt texts address) h fun address =>
  evaluated (toInt texts (given spec "channels" (.int 1))) h fun channels =>
  evaluated (toInt texts (given spec "resolution_bits" (.int 12))) h fun resolutionBits =>
  dacAttachI2c respond h name bus address channels resolutionBits

/-- One of the loops. An entry that is no mapping has no `get`, or no fields. -/
def configureSection (config : Mapping) (part : String) (noMapping : PyError)
    (apply : Key → Mapping → Resources Key → Result Unit Key) (h : Resources Key) :
    Result Unit Key :=
  match sectionOf config part with
  | .error error => (.error error, h)
  | .ok entries =>
    loop (fun (e : Key × Value) h =>
      match e.2 with
      | .dict spec => apply e.1 spec h
      | _ => (.error noMapping, h)) entries h

def configureAll (config : Mapping) : Resources Key → Result Unit Key :=
  andThen (configureSection config "pins" .attributeError (applyPin texts respond)) <|
  andThen (configureSection config "inputs" .typeError (applyInput texts respond)) <|
  andThen (configureSection config "counters" .attributeError (applyCounter respond)) <|
  andThen (configureSection config "encoders" .typeError (applyEncoder texts respond)) <|
  andThen (configureSection config "i2c_buses" .attributeError (applyI2cBus texts respond)) <|
  configureSection config "dacs" .typeError (applyDac texts respond)

end Definitions

end ConfigureAll
