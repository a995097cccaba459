import TeensyIo.ResponseOrigins
import TeensyIo.HostOperations

/-! # Readings and where they come from

The operations that return a value of the device. Each issues one command and decodes what
`_command` returns in its own way; some find a value in an empty result too. -/
namespace GenuineReadings

open WireCommands HostProtocol HostClient HostResources HostOperations FirmwareState
open FirmwareCommands FirmwareUpdate FirmwareRequests RequestLayouts FirmwareResponses DeviceLink
open ClientThreads ResponseOrigins MachineRuns

inductive Value where
  | bool (value : Bool)
  | int (value : ℤ)
  | float (value : ℚ)
  | bytes (value : List UInt8)
  deriving DecidableEq

inductive Reading where
  | pinRead (name : String)
  | analogReadRaw (name : String)
  | analogReadNormalized (name : String)
  | counterRead (name : String)
  | counterDelta (name : String)
  | counterFrequency (name : String) (windowMs : ℤ) (now : ℚ) (hwindow : windowMs ≤ 0)
  | encoderRead (name : String)
  | encoderDelta (name : String)
  | i2cRead (name : String) (address length : ℤ)
  | ping

def valued {α : Type} (f : α → Value) (result : Result α) : Result Value :=
  (result.1.map f, result.2)

def Reading.run (respond : List Command → Except PyError (List UInt8)) (h : Host) :
    Reading → Result Value
  | .pinRead name => valued .bool (HostResources.pinRead respond h name)
  | .analogReadRaw name => valued (fun n : ℕ => .int n) (HostResources.analogReadRaw respond h name)
  | .analogReadNormalized name =>
    valued .float (HostResources.analogReadNormalized respond h name)
  | .counterRead name => valued .int (HostResources.counterRead respond h name)
  | .counterDelta name => valued .int (HostResources.counterDelta respond h name)
  | .counterFrequency name windowMs now _ =>
    valued .float (HostResources.counterFrequency respond h name windowMs now)
  | .encoderRead name => valued .int (HostResources.encoderRead respond h name)
  | .encoderDelta name => valued .int (HostResources.encoderDelta respond h name)
  | .i2cRead name address length =>
    valued .bytes (HostResources.i2cRead respond h name address length)
  | .ping => valued .bool (HostResources.ping respond h)

/-- How many bytes the decoder needs. A slice that is too short is no error in Python. -/
def Reading.leastBytes : Reading → ℕ
  | .pinRead _ => 1
  | .counterRead _ | .counterDelta _ | .counterFrequency _ _ _ _ => 4
  | .encoderRead _ | .encoderDelta _ => 4
  | .analogReadRaw _ | .analogReadNormalized _ | .i2cRead _ _ _ | .ping => 0

/-- Whatever `_command` returns, the reading has issued this command and no other. -/
def Issues (reading : Reading) (h : Host) (command : Command) : Prop :=
  ∀ result, (reading.run (fun _ => result) h).2.log = h.log ++ [command]

/-! ### Decoding -/

/-- A call raises before it issues a command, whatever the device would say, or it issues one
and returns a value exactly if the result has the bytes it needs. -/
inductive Decodes {α : Type} (h : Host) (least : ℕ)
    (call : Except PyError (List UInt8) → Result α) : Prop where
  | raises (hraises : ∀ result, ∃ error, call result = (.error error, h)) : Decodes h least call
  | issues (command : Command) (hlog : ∀ result, (call result).2.log = h.log ++ [command])
      (hvalue : ∀ result, (∃ v, (call result).1 = .ok v) ↔
        ∃ payload, result = .ok payload ∧ least ≤ payload.length) : Decodes h least call

section Decoding

variable {h : Host} {least : ℕ} {α β : Type}

theorem decodes_raise (error : PyError) :
    Decodes h least fun _ => ((.error error, h) : Result α) := .raises fun _ => ⟨error, rfl⟩

theorem command_decodes (id : CommandId) (payload : Except PyError (List UInt8)) :
    Decodes h 0 fun result => command (fun _ => result) h id payload := by
  cases payload with
  | error error => exact decodes_raise error
  | ok bytes =>
    by_cases hsize : maxPayloadSize < bytes.length + 1
    · simp only [command, if_pos hsize]
      exact decodes_raise .protocolError
    · refine .issues (id, bytes) (fun result => ?_) fun result => ?_
      · simp only [command, if_neg hsize]
      · simp only [command, if_neg hsize, Nat.zero_le, and_true]

/-- What becomes of the result of a command may need some bytes, and leaves the log alone. -/
theorem command_next_decodes (id : CommandId) (payload : Except PyError (List UInt8))
    {rest : List UInt8 → Host → Result α} (hlog : ∀ bytes h', (rest bytes h').2.log = h'.log)
    (hrest : ∀ bytes h', (∃ v, (rest bytes h').1 = .ok v) ↔ least ≤ bytes.length) :
    Decodes h least fun result => (command (fun _ => result) h id payload).next rest := by
  cases payload with
  | error error => exact decodes_raise error
  | ok bytes =>
    by_cases hsize : maxPayloadSize < bytes.length + 1
    · simp only [command, if_pos hsize]
      exact decodes_raise .protocolError
    · simp only [command, if_neg hsize]
      refine .issues (id, bytes) (fun result => ?_) fun result => ?_
      · cases result with
        | error error => rfl
        | ok returned => exact hlog returned _
      · cases result with
        | error error =>
          constructor
          · rintro ⟨v, hv⟩
            cases hv
          · rintro ⟨returned, hreturned, -⟩
            cases hreturned
        | ok returned =>
          refine (hrest returned _).trans ⟨fun hle => ⟨returned, rfl, hle⟩, ?_⟩
          rintro ⟨other, hother, hle⟩
          obtain rfl := Except.ok.inj hother
          exact hle

/-- What only computes with the value changes nothing of this. -/
theorem Decodes.next {call : Except PyError (List UInt8) → Result α} (hcall : Decodes h least call)
    {rest : α → Host → Result β} (hlog : ∀ v h', (rest v h').2.log = h'.log)
    (hrest : ∀ v h', ∃ w, (rest v h').1 = .ok w) :
    Decodes h least fun result => (call result).next rest := by
  have hnext : ∀ x : Result α, (x.next rest).2.log = x.2.log ∧
      ((∃ w, (x.next rest).1 = .ok w) ↔ ∃ v, x.1 = .ok v) := by
    rintro ⟨error | v, h'⟩
    · exact ⟨rfl, by simp [Result.next]⟩
    · exact ⟨hlog v h', iff_of_true (hrest v h') ⟨v, rfl⟩⟩
  cases hcall with
  | raises hraises =>
    refine .raises fun result => ?_
    obtain ⟨error, herror⟩ := hraises result
    exact ⟨error, by rw [herror]; rfl⟩
  | issues command hissued hvalue =>
    exact .issues command (fun result => (hnext _).1.trans (hissued result))
      fun result => (hnext _).2.trans (hvalue result)

theorem Decodes.as_value {call : Except PyError (List UInt8) → Result α}
    (hcall : Decodes h least call) (f : α → Value) :
    Decodes h least fun result => valued f (call result) := by
  have hvalued : ∀ x : Result α, valued f x = x.next fun v h' => (.ok (f v), h') := by
    rintro ⟨error | v, h'⟩
    · rfl
    · rfl
  simp only [hvalued]
  exact hcall.next (fun _ _ => rfl) fun v _ => ⟨f v, rfl⟩

theorem responseI32_ok (bytes : List UInt8) :
    (∃ v, responseI32 bytes = .ok v) ↔ 4 ≤ bytes.length := by
  unfold responseI32
  split_ifs with hshort
  · exact iff_of_false (by simp) (Nat.not_le.mpr hshort)
  · exact iff_of_true ⟨_, rfl⟩ (Nat.not_lt.mp hshort)

theorem counterRead_decodes (name : String) :
    Decodes h 4 fun result => HostResources.counterRead (fun _ => result) h name := by
  unfold HostResources.counterRead
  cases (h.counters name).id with
  | none => exact decodes_raise .runtimeError
  | some id =>
    exact command_next_decodes .counterRead _ (fun _ _ => rfl) fun bytes _ => responseI32_ok bytes

theorem encoderRead_decodes (name : String) :
    Decodes h 4 fun result => HostResources.encoderRead (fun _ => result) h name := by
  unfold HostResources.encoderRead
  cases (h.encoders name).id with
  | none => exact decodes_raise .runtimeError
  | some id =>
    exact command_next_decodes .encoderRead _ (fun _ _ => rfl) fun bytes _ => responseI32_ok bytes

theorem counterFrequency_decodes (name : String) {windowMs : ℤ} (now : ℚ) (hwindow : windowMs ≤ 0) :
    Decodes h 4 fun result =>
      HostResources.counterFrequency (fun _ => result) h name windowMs now := by
  unfold HostResources.counterFrequency
  cases (h.counters name).id with
  | none => exact decodes_raise .runtimeError
  | some id =>
    simp only [if_pos hwindow]
    refine command_next_decodes .counterFrequency _ (fun _ _ => rfl) fun bytes _ => ?_
    unfold responseU32
    split_ifs with hshort
    · exact iff_of_false (by simp [Except.map]) (Nat.not_le.mpr hshort)
    · exact iff_of_true ⟨_, rfl⟩ (Nat.not_lt.mp hshort)

theorem pinRead_decodes (name : String) :
    Decodes h 1 fun result => HostResources.pinRead (fun _ => result) h name := by
  unfold HostResources.pinRead
  cases (h.pins name).physicalPin with
  | none => exact decodes_raise .runtimeError
  | some pin =>
    refine command_next_decodes .digitalRead _ (fun bytes _ => ?_) fun bytes _ => ?_
    · cases bytes <;> rfl
    · cases bytes with
      | nil => exact iff_of_false (by simp) (by simp)
      | cons byte rest => exact iff_of_true ⟨_, rfl⟩ (by simp)

theorem analogRead_decodes (name : String) :
    Decodes h 0 fun result => HostResources.analogRead (fun _ => result) h name := by
  unfold HostResources.analogRead
  cases (h.analogs name).physicalPin with
  | none => exact decodes_raise .runtimeError
  | some pin =>
    exact command_next_decodes .analogRead _ (fun _ _ => rfl) fun _ _ =>
      iff_of_true ⟨_, rfl⟩ (Nat.zero_le _)

theorem i2cRead_decodes (name : String) (address length : ℤ) :
    Decodes h 0 fun result => HostResources.i2cRead (fun _ => result) h name address length := by
  unfold HostResources.i2cRead
  cases (h.i2cBuses name).bus with
  | none => exact decodes_raise .runtimeError
  | some bus =>
    by_cases hrange : length < 0 ∨ 128 < length
    · simp only [if_pos hrange]
      exact decodes_raise .valueError
    · simp only [if_neg hrange]
      exact command_decodes .i2cRead _

end Decoding

theorem Reading.decodes (reading : Reading) (h : Host) :
    Decodes h reading.leastBytes fun result => reading.run (fun _ => result) h := by
  cases reading with
  | pinRead name => exact (pinRead_decodes name).as_value _
  | analogReadRaw name =>
    exact ((analogRead_decodes name).next (fun _ _ => rfl) fun _ _ => ⟨_, rfl⟩).as_value _
  | analogReadNormalized name =>
    exact ((analogRead_decodes name).next (fun _ _ => rfl) fun _ _ => ⟨_, rfl⟩).as_value _
  | counterRead name => exact (counterRead_decodes name).as_value _
  | counterDelta name =>
    exact ((counterRead_decodes name).next (fun _ _ => rfl) fun _ _ => ⟨_, rfl⟩).as_value _
  | counterFrequency name windowMs now hwindow =>
    exact (counterFrequency_decodes name now hwindow).as_value _
  | encoderRead name => exact (encoderRead_decodes name).as_value _
  | encoderDelta name =>
    exact ((encoderRead_decodes name).next (fun _ _ => rfl) fun _ _ => ⟨_, rfl⟩).as_value _
  | i2cRead name address length => exact (i2cRead_decodes name address length).as_value _
  | ping =>
    have hping : Decodes h 0 fun result => HostResources.ping (fun _ => result) h :=
      command_next_decodes .ping _ (fun _ _ => rfl) fun _ _ => iff_of_true ⟨_, rfl⟩ (Nat.zero_le _)
    exact hping.as_value _

/-! ### What the device is asked -/

/-- The requests a reading makes. -/
inductive Asks : Request → Prop where
  | ping : Asks .ping
  | digitalRead (pin : UInt8) : Asks (.digitalRead pin)
  | analogRead (pin : UInt8) : Asks (.analogRead pin)
  | counterRead (id : UInt8) : Asks (.counterRead id)
  | counterFrequency (id : UInt8) : Asks (.counterFrequency id)
  | encoderRead (id : UInt8) : Asks (.encoderRead id)
  | i2cRead (bus address length : UInt8) : Asks (.i2cRead bus address length)

theorem Reading.sends (reading : Reading) (respond : List Command → Except PyError (List UInt8))
    (h : Host) : Sends h Asks (reading.run respond h) := by
  have hvalued : ∀ {α : Type} {f : α → Value} {result : Result α},
      Sends h Asks result → Sends h Asks (valued f result) := by
    intro α f result hs
    refine hs.imp_left fun hraised => ⟨?_, hraised.2⟩
    obtain ⟨error, he⟩ := hraised.1
    exact ⟨error, by rw [valued, he]; rfl⟩
  have hcounter : ∀ name, Sends h Asks (HostResources.counterRead respond h name) := by
    intro name
    refine (counterRead_sends respond h name).mono ?_
    rintro r ⟨id, -, rfl⟩
    exact .counterRead id
  have hencoder : ∀ name, Sends h Asks (HostResources.encoderRead respond h name) := by
    intro name
    refine (encoderRead_sends respond h name).mono ?_
    rintro r ⟨id, -, rfl⟩
    exact .encoderRead id
  have hanalog : ∀ name, Sends h Asks (HostResources.analogRead respond h name) := by
    intro name
    refine (analogRead_sends respond h name).mono ?_
    rintro r ⟨-⟩
    exact .analogRead _
  cases reading with
  | pinRead name =>
    refine hvalued ((pinRead_sends respond h name).mono ?_)
    rintro r ⟨-⟩
    exact .digitalRead _
  | analogReadRaw name => exact hvalued (next_sends (hanalog name) fun _ _ => rfl)
  | analogReadNormalized name => exact hvalued (next_sends (hanalog name) fun _ _ => rfl)
  | counterRead name => exact hvalued (hcounter name)
  | counterDelta name => exact hvalued (next_sends (hcounter name) fun _ _ => rfl)
  | counterFrequency name windowMs now hwindow =>
    refine hvalued ((counterFrequency_sends respond h name windowMs now).mono ?_)
    rintro r hr
    cases hr with
    | counterFrequency => exact .counterFrequency _
    | counterWindow => exact .counterRead _
  | encoderRead name => exact hvalued (hencoder name)
  | encoderDelta name => exact hvalued (next_sends (hencoder name) fun _ _ => rfl)
  | i2cRead name address length =>
    refine hvalued ((i2cRead_sends respond h name address length).mono ?_)
    rintro r ⟨-⟩
    exact .i2cRead _ _ _
  | ping => exact hvalued (next_sends (bare_sends respond h .ping .ping) fun _ _ => rfl)

theorem Issues.laid {reading : Reading} {h : Host} {id : CommandId} {bytes : List UInt8}
    (hissues : Issues reading h (id, bytes)) :
    ∃ r, Laid r id bytes ∧ Asks r ∧ bytes.length < maxPayloadSize := by
  have hlog := hissues (.ok [])
  rcases reading.sends (fun _ => .ok []) h with ⟨-, hsame⟩ | ⟨id', bytes', r, hsent, hsize, hr, ha⟩
  · rw [hlog] at hsame
    exact absurd hsame (by simp)
  · obtain ⟨rfl, rfl⟩ : id = id' ∧ bytes = bytes' := by
      simpa using hlog.symm.trans hsent
    exact ⟨r, hr, ha, hsize⟩

theorem Issues.value {reading : Reading} {h : Host} {command : Command}
    (hissues : Issues reading h command) (result : Except PyError (List UInt8)) :
    (∃ v, (reading.run (fun _ => result) h).1 = .ok v) ↔
      ∃ payload, result = .ok payload ∧ reading.leastBytes ≤ payload.length := by
  cases reading.decodes h with
  | raises hraises =>
    obtain ⟨error, herror⟩ := hraises result
    have hlog := hissues result
    rw [herror] at hlog
    exact absurd hlog (by simp)
  | issues command hlog hvalue => exact hvalue result

theorem refused_not_ack {s : State} {seq : UInt16} {code : ErrorCode} :
    ∀ w ∈ framesWritten (refuse s seq code).2, w.type ≠ .ack := by
  intro w hw
  obtain rfl := List.mem_singleton.mp hw
  exact PacketType.noConfusion

theorem data_not_ack {seq : UInt16} {payload : List UInt8} :
    ∀ w ∈ framesWritten [data seq payload], w.type ≠ .ack := by
  intro w hw
  obtain rfl := List.mem_singleton.mp hw
  exact PacketType.noConfusion

theorem guarded_not_ack {p : Prop} [Decidable p] {s : State} {seq : UInt16} {code : ErrorCode}
    {out : Outcome} (hout : ∀ w ∈ framesWritten out.2, w.type ≠ .ack) :
    ∀ w ∈ framesWritten (if p then refuse s seq code else out).2, w.type ≠ .ack := by
  by_cases hp : p
  · rw [if_pos hp]
    exact refused_not_ack
  · rw [if_neg hp]
    exact hout

/-- The firmware answers such a request with data, or refuses it. -/
theorem asked_answered {r : Request} (ha : Asks r) (b : Board) (env : Env) (s : State)
    (seq : UInt16) : ∀ w ∈ framesWritten (execute b env s seq r).2, w.type ≠ .ack := by
  cases ha with
  | ping => exact data_not_ack
  | digitalRead pin => exact guarded_not_ack data_not_ack
  | analogRead pin => exact guarded_not_ack data_not_ack
  | counterRead id => exact guarded_not_ack data_not_ack
  | counterFrequency id => exact guarded_not_ack data_not_ack
  | encoderRead id => exact guarded_not_ack data_not_ack
  | i2cRead bus address length =>
    apply guarded_not_ack
    apply guarded_not_ack
    exact data_not_ack

theorem Issues.answered {reading : Reading} {h : Host} {c : Call}
    (hissues : Issues reading h (c.command, c.payload)) {b : Board} {p : Packet}
    (hp : Answered b c p) : p.type ≠ .ack := by
  obtain ⟨r, hlaid, hasks, hsize⟩ := hissues.laid
  cases hp with
  | @handled env device w hw =>
    rw [c.handle_laid hlaid hsize] at hw
    exact asked_answered hasks _ _ _ _ w hw

/-! ### Where a value comes from -/

/-- The value is decoded from the data frame the device sent in response to this very call. -/
def Decoded (b : Board) (reading : Reading) (h : Host) (r : Return) (v : Value) : Prop :=
  ∃ p, r.taken = some (p, .response r.call) ∧ Answered b r.call p ∧ p.type = .data ∧
    (reading.run (fun _ => .ok p.payload) h).1 = .ok v

/-- Every value that a reading makes of what its call has returned is decoded from the data frame
the device sent in response. -/
def AllDecoded (b : Board) (s : Crew) : Prop :=
  ∀ r ∈ s.returns, ∀ reading h, Issues reading h (r.call.command, r.call.payload) →
    r.call.expectResponse = true →
    ∀ v, (reading.run (fun _ => r.result) h).1 = .ok v → Decoded b reading h r v

/-- A call that comes to its end for a decoder that needs no bytes found no batch open when it
chose its route; and if it takes a frame the decoder can read, then none that it mistakes for its
response. -/
def Reliable (o : Options) (s : Crew) (move : Move) : Prop :=
  ∀ c met, ending o s move = some (c, met) →
    ∀ reading h, Issues reading h (c.command, c.payload) → c.expectResponse = true →
      (reading.leastBytes = 0 → c.depth ≤ 0) ∧
        ∀ arrival ∈ met, Readable reading.leastBytes arrival.1 → ¬ Mistaken c arrival

theorem reliable_iff {b : Board} {o : Options} {s : Crew} (h : Sorted b o s) (move : Move) :
    (∀ c met, ending o s move = some (c, met) →
      ∀ reading host, Issues reading host (c.command, c.payload) → c.expectResponse = true →
        ∀ v, (reading.run (fun _ => outcome met) host).1 = .ok v →
          Decoded b reading host ⟨c, outcome met, met⟩ v) ↔ Reliable o s move := by
  refine forall₃_congr fun c met hending => forall₂_congr fun reading host => ?_
  refine forall₂_congr fun hissues hexpects => ?_
  cases met with
  | none =>
    have hdepth : 0 < c.depth := by
      rcases h.unanswered hending with hq | hq
      · exact hq.resolve_right fun hlater => hlater.2 hexpects
      · rw [hexpects] at hq
        cases hq
    constructor
    · intro hall
      refine ⟨fun hleast => ?_, fun arrival ha => by cases ha⟩
      obtain ⟨v, hv⟩ := (hissues.value (.ok [])).mpr ⟨[], rfl, hleast.le⟩
      obtain ⟨p, hp, -⟩ := hall v hv
      cases hp
    · intro hreliable v hv
      obtain ⟨payload, hpayload, hleast⟩ := (hissues.value (.ok [])).mp ⟨v, hv⟩
      obtain rfl := Except.ok.inj hpayload
      exact absurd hdepth (Int.not_lt.mpr (hreliable.1 (Nat.le_zero.mp hleast)))
  | some arrival =>
    obtain ⟨⟨hq, -, -⟩, harrival, -⟩ := h.taken hending
    have hreads : (∃ v, (reading.run (fun _ => commandResult arrival.1) host).1 = .ok v) ↔
        Readable reading.leastBytes arrival.1 := (hissues.value _).trans commandResult_readable
    constructor
    · intro hall
      refine ⟨fun _ => Int.not_lt.mp fun hdepth => hq (Or.inl hdepth), fun a ha hreadable => ?_⟩
      obtain rfl := Option.some.inj ha
      obtain ⟨v, hv⟩ := hreads.mpr hreadable
      obtain ⟨p, hp, -⟩ := hall v hv
      exact (h.own_iff hending hreadable).mp (congrArg Prod.snd (Option.some.inj hp))
    · rintro ⟨-, hclear⟩ v hv
      have hreadable := hreads.mp ⟨v, hv⟩
      have hown := (h.own_iff hending hreadable).mpr (hclear arrival rfl hreadable)
      obtain ⟨p, source⟩ := arrival
      obtain rfl : source = .response c := hown
      obtain ⟨-, hanswered⟩ := h.traced.incoming _ harrival c rfl
      have hdata : p.type = .data := by
        rcases hreadable with ⟨hdata, -⟩ | ⟨hack, -⟩
        · exact hdata
        · exact absurd hack (hissues.answered hanswered)
      have hresult : commandResult p = .ok p.payload := by
        rw [commandResult, hdata]
      exact ⟨p, rfl, hanswered, hdata, hresult ▸ hv⟩

/-- A reading that makes no call raises. And in every run of the threads, the device and the
line: in every state, all values of readings are decoded from the responses to them, exactly if
every call that came to its end was reliable. -/
theorem readings_iff (b : Board) (o : Options) (moves : List Move) :
    (∀ (reading : Reading) (h : Host), (∃ command, Issues reading h command) ∨
      ∀ result, ∃ error, (reading.run (fun _ => result) h).1 = .error error) ∧
    (EachState (Crew.step b o) (AllDecoded b) {} moves ↔
      EachStep (Crew.step b o) (Reliable o) {} moves) := by
  constructor
  · intro reading h
    cases reading.decodes h with
    | raises hraises =>
      refine Or.inr fun result => ?_
      obtain ⟨error, herror⟩ := hraises result
      exact ⟨error, by rw [herror]⟩
    | issues command hissued => exact Or.inl ⟨command, hissued⟩
  · refine returned_iff (fun c error reading h hissues _ v hv => ?_)
      (fun _ move h => reliable_iff h move) moves
    obtain ⟨payload, hpayload, -⟩ := (hissues.value _).mp ⟨v, hv⟩
    cases hpayload

/-- A host on which pin 14 is the analog resource "a". -/
def sampleHost : Host where
  analogs := fun _ => ⟨some 14, 1⟩

theorem sample_analog_issues : Issues (.analogReadRaw "a") sampleHost (.analogRead, [14]) := by
  intro result
  cases result <;> rfl

/-- `AnalogInput.read_raw()` as a first command, inside a batch. -/
def analogCall : Call where
  number := 1
  command := .analogRead
  payload := [14]
  expectResponse := true
  encoded := [0xA5, 1, 1, 1, 0, 2, 0, 0x31, 14, 0x2E, 0xB1]
  older := []
  depth := 1

/-- A batch is open in another thread: nothing is sent, and the analog value is 0. -/
theorem analog_read_in_batch :
    let moves : List Move :=
      [.act 0 .beginBatch, .act 1 (.invoke .analogRead [14] true), .proceed 1, .proceed 1,
        .proceed 1]
    let s := after (Crew.step FirmwareDevice.sampleBoard {}) {} moves
    s.returns = [⟨analogCall, .ok [], none⟩] ∧ s.written = [] ∧
      ((Reading.analogReadRaw "a").run (fun _ => .ok []) sampleHost).1 = .ok (.int 0) ∧
      ¬ EachState (Crew.step FirmwareDevice.sampleBoard {})
        (AllDecoded FirmwareDevice.sampleBoard) {} moves := by
  intro moves s
  have hreturns : s.returns = [⟨analogCall, .ok [], none⟩] := by decide +kernel
  refine ⟨hreturns, by decide +kernel, rfl, fun hstates => ?_⟩
  obtain ⟨p, hp, -⟩ := eachState_after hstates ⟨analogCall, .ok [], none⟩
    (by rw [hreturns]; exact List.mem_singleton_self _) (.analogReadRaw "a") sampleHost
    sample_analog_issues rfl (.int 0) rfl
  cases hp

end GenuineReadings
