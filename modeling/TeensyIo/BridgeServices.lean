import TeensyIo.LiveReadings

/-! # Services of the ROS bridge

The bridge answers each request with one or two calls of the client, and an exception becomes a
response that is not `ok`. Between two calls the firmware goes on. No service configures anything
or takes a configuration back, so what is configured at the start is served for good. -/
namespace BridgeServices

open WireCommands HostProtocol HostClient HostResources HostOperations FirmwareState
open FirmwareRequests ServedRequests MachineRuns ConfiguredResources
open EdgeCallbacks (respond)
open ServedOperations (target Permitted Returns outcome_returns served_operation id_of_number)
open LiveReadings (InRange mean samples)

/-! ### Requests and responses -/

/-- What the services are asked for. `now` is the reading of the clock in `frequency`. -/
inductive Service where
  | digitalRead (name : String)
  | digitalWrite (name : String) (value : Bool)
  | pwmWrite (name : String) (duty : ℚ)
  | counterRead (name : String) (now : ℚ)
  | counterReset (name : String)
  | analogRead (name : String)
  | encoderRead (name : String)
  | encoderReset (name : String)
  | i2cWrite (bus : String) (address : UInt8) (data : List UInt8)
  | i2cRead (bus : String) (address length : UInt8)
  | dacWrite (name : String) (channel : UInt8) (raw : UInt16) (normalized : ℚ)
      (useNormalized : Bool)
  | subscribe (name : String) (rateHz : ℚ) (onChange : Bool)
  | emergencyStop (active : Bool)

/-- The fields of all responses. Of an error the type of the exception is kept. -/
structure Response where
  ok : Bool := false
  error : Option PyError := none
  value : Bool := false
  count : ℤ := 0
  frequencyHz : ℚ := 0
  raw : ℕ := 0
  normalized : ℚ := 0
  position : ℤ := 0
  data : List UInt8 := []
  deriving DecidableEq, Repr

/-- `_ok`. -/
def succeed (response : Response) : Response := { response with ok := true, error := none }

/-- `_fail`. -/
def fail (response : Response) (error : PyError) : Response :=
  { response with ok := false, error := some error }

/-! ### Calls of the client -/

/-- A method with the operation that it is. -/
structure Method (α : Type) where
  operation : Operation
  run : (List Command → Except PyError (List UInt8)) → Host → Result α
  same : ∀ respond h, runOperation respond h operation = outcome (run respond h)

theorem outcome_unit (result : Result Unit) : outcome result = result := by
  obtain ⟨error | v, h'⟩ := result
  · rfl
  · rfl

theorem outcome_next {α β : Type} (result : Result α) (f : α → β) :
    outcome (result.next fun v h => ((.ok (f v), h) : Result β)) = outcome result := by
  obtain ⟨error | v, h'⟩ := result
  · rfl
  · rfl

def Method.unit (operation : Operation) : Method Unit where
  operation := operation
  run respond h := runOperation respond h operation
  same _ _ := (outcome_unit _).symm

def Method.pinRead (name : String) : Method Bool where
  operation := .pinRead name
  run respond h := HostResources.pinRead respond h name
  same _ _ := rfl

def Method.counterRead (name : String) : Method ℤ where
  operation := .counterRead name
  run respond h := HostResources.counterRead respond h name
  same _ _ := rfl

/-- `frequency()` with its default window. -/
def Method.frequency (name : String) (now : ℚ) : Method ℚ where
  operation := .counterFrequency name 100 now
  run respond h := HostResources.counterFrequency respond h name 100 now
  same _ _ := rfl

def Method.readRaw (name : String) : Method ℕ where
  operation := .analogRead name
  run respond h := analogReadRaw respond h name
  same respond h := (outcome_next (analogRead respond h name) Prod.fst).symm

def Method.readNormalized (name : String) : Method ℚ where
  operation := .analogRead name
  run respond h := analogReadNormalized respond h name
  same respond h := (outcome_next (analogRead respond h name) _).symm

def Method.encoderRead (name : String) : Method ℤ where
  operation := .encoderRead name
  run respond h := HostResources.encoderRead respond h name
  same _ _ := rfl

def Method.i2cRead (bus : String) (address length : ℤ) : Method (List UInt8) where
  operation := .i2cRead bus address length
  run respond h := HostResources.i2cRead respond h bus address length
  same _ _ := rfl

/-! ### The services -/

/-- What the firmware does by itself. -/
inductive Device where
  | update (env : Env)
  | counterTick (env : Env) (id : UInt8)
  | encoderTick (env : Env) (id : UInt8)

def Device.input : Device → Input
  | .update env => .update env
  | .counterTick env id => .counterTick env id
  | .encoderTick env id => .encoderTick env id

/-- What the core answers at the first call of a service and at the second, and what the firmware
does between them. -/
structure Course where
  first : Env
  between : List Device := []
  second : Env

section Serve

variable (b : Board) {α β : Type}

def Method.call (m : Method α) (env : Env) (k : Bench) : Except PyError α × Bench :=
  ((m.run (respond b env k.device) k.host).1, k.step b (.call m.operation env))

def goOn (k : Bench) (between : List Device) : Bench :=
  after (Bench.step b) k (between.map Device.input)

/-- A service with one call. -/
def single (m : Method α) (fill : α → Response) (course : Course) (k : Bench) :
    Response × Bench :=
  match m.call b course.first k with
  | (.ok v, k) => (succeed (fill v), k)
  | (.error error, k) => (fail {} error, k)

/-- A service with two. What the first has filled in stays when the second raises. -/
def double (m : Method α) (n : Method β) (fill : α → Response) (more : Response → β → Response)
    (course : Course) (k : Bench) : Response × Bench :=
  match m.call b course.first k with
  | (.error error, k) => (fail {} error, k)
  | (.ok v, k) =>
    match n.call b course.second (goOn b k course.between) with
    | (.ok u, k) => (succeed (more (fill v) u), k)
    | (.error error, k) => (fail (fill v) error, k)

/-- The operation of the first call. -/
def Service.operation : Service → Operation
  | .digitalRead name => .pinRead name
  | .digitalWrite name value => .pinWrite name (if value then 1 else 0)
  | .pwmWrite name duty => .pwmWrite name duty
  | .counterRead name _ => .counterRead name
  | .counterReset name => .counterReset name
  | .analogRead name => .analogRead name
  | .encoderRead name => .encoderRead name
  | .encoderReset name => .encoderReset name
  | .i2cWrite bus address data => .i2cWrite bus address.toNat data
  | .i2cRead bus address length => .i2cRead bus address.toNat length.toNat
  | .dacWrite name channel raw normalized useNormalized =>
    if useNormalized then .dacWriteNormalized name normalized channel.toNat
    else .dacWriteRaw name raw.toNat channel.toNat
  | .subscribe name rateHz onChange => .subscribe name (some rateHz) onChange
  | .emergencyStop active => if active then .emergencyStop else .clearEmergencyStop

/-- The callbacks of the services. -/
def serve : Service → Course → Bench → Response × Bench
  | .digitalRead name => single b (.pinRead name) fun value => { value }
  | .counterRead name now =>
    double b (.counterRead name) (.frequency name now) (fun count => { count })
      fun response frequencyHz => { response with frequencyHz }
  | .analogRead name =>
    double b (.readRaw name) (.readNormalized name) (fun raw => { raw })
      fun response normalized => { response with normalized }
  | .encoderRead name => single b (.encoderRead name) fun position => { position }
  | .i2cRead bus address length =>
    single b (.i2cRead bus address.toNat length.toNat) fun data => { data }
  | service => single b (.unit service.operation) fun _ => {}

end Serve

/-! ### What a service leaves -/

section Left

variable {b : Board} {k : Bench} {live : List (Kind × String)} {α β : Type}

/-- The two sides agree, and these resources are live. -/
structure Held (b : Board) (live : List (Kind × String)) (k : Bench) : Prop where
  mirrored : Mirrored b k
  live_eq : k.live = live

theorem Held.device (h : Held b live k) (d : Device) : Held b live (k.step b d.input) where
  mirrored := step_mirrored h.mirrored d.input
  live_eq := by
    cases d with
    | update env => exact h.live_eq
    | counterTick env id => exact h.live_eq
    | encoderTick env id => exact h.live_eq

theorem Held.goOn (h : Held b live k) (between : List Device) :
    Held b live (goOn b k between) := by
  induction between generalizing k with
  | nil => exact h
  | cons d between ih => exact ih (h.device d)

/-- The operation neither configures a resource nor takes a configuration back. -/
def Working (op : Operation) : Prop :=
  configured op = none ∧ op ≠ .resetConfig ∧ ∀ name, op ≠ .pwmDisable name

theorem Held.call (h : Held b live k) {op : Operation} (hop : Working op) (env : Env) :
    Held b live (k.step b (.call op env)) where
  mirrored := step_mirrored h.mirrored _
  live_eq := by
    obtain ⟨hnone, hreset, hdisable⟩ := hop
    change k.liveAfter op _ = live
    unfold Bench.liveAfter
    rw [hnone, ← h.live_eq]
    dsimp only
    split
    · exact absurd rfl hreset
    · next name => exact absurd rfl (hdisable name)
    · rfl

theorem working (service : Service) : Working service.operation := by
  cases service with
  | dacWrite name channel raw normalized useNormalized =>
    cases useNormalized with
    | false => exact ⟨rfl, nofun, nofun⟩
    | true => exact ⟨rfl, nofun, nofun⟩
  | emergencyStop active =>
    cases active with
    | false => exact ⟨rfl, nofun, nofun⟩
    | true => exact ⟨rfl, nofun, nofun⟩
  | _ => exact ⟨rfl, nofun, nofun⟩

end Left

/-! ### What a service answers -/

section Answers

variable {b : Board} {k : Bench} {live : List (Kind × String)} {α β : Type}

/-- The bench at the second call of a service. -/
def later (b : Board) (k : Bench) (service : Service) (course : Course) : Bench :=
  goOn b (k.step b (.call service.operation course.first)) course.between

/-- What the response to a service that reads a resource says. -/
def Shows (b : Board) (k : Bench) (course : Course) (response : Response) : Service → Prop
  | .digitalRead name => ∃ i : UInt8, number k.host .pin name = some (i.toNat : ℤ) ∧
      response.value = course.first.digitalRead 0 i
  | .counterRead name _ => ∃ i : UInt8, number k.host .counter name = some (i.toNat : ℤ) ∧
      response.count = (k.device.counters i).count.toInt
  | .encoderRead name => ∃ i : UInt8, number k.host .encoder name = some (i.toNat : ℤ) ∧
      response.position = (k.device.encoders i).position.toInt
  | .analogRead name => InRange course.first → InRange course.second → ∃ i : UInt8,
      number k.host .analog name = some (i.toNat : ℤ) ∧
        response.raw = mean (samples course.first k.device i) ∧
        response.normalized = roundDouble ((mean (samples course.second
          (later b k (.analogRead name) course).device i) * 10000 / 4095 : ℕ) / 10000)
  | _ => True

/-- A service on a configured resource is `ok` exactly if the operation is permitted, and its
response shows what the hardware does. -/
structure Answered (b : Board) (k : Bench) (service : Service) (course : Course) : Prop where
  ok_iff : (serve b service course k).1.ok = true ↔
    Permitted course.first k.host k.device service.operation
  shows : Shows b k course (serve b service course k).1 service

theorem Held.served (h : Held b live k) {r : Kind × String} (hr : r ∈ live) :
    Served b k.host k.device r := h.mirrored.served r (h.live_eq ▸ hr)

theorem Held.later (h : Held b live k) (service : Service) (course : Course) :
    Held b live (later b k service course) :=
  (h.call (working service) course.first).goOn course.between

end Answers

/-! ### Every run -/

section Runs

variable (b : Board)

/-- A service is answered, or the firmware does something. -/
inductive Act where
  | service (service : Service) (course : Course)
  | device (d : Device)

def step (k : Bench) : Act → Bench
  | .service service course => (serve b service course k).2
  | .device d => k.step b d.input

end Runs

end BridgeServices
