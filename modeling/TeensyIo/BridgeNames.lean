import TeensyIo.HostFrames
import TeensyIo.MachineRuns
import TeensyIo.ReverseIndexes

/-! # Names in the ROS bridge

The bridge publishes frames under names, which it keeps by reference in `name_by_ref`. The map
is brought up to date at the start and after each successful subscription. -/
namespace BridgeNames

open WireCommands HostProtocol HostClient HostResources HostOperations HostFrames MachineRuns
open ReverseIndexes

abbrev Ref := ResourceKind × ℤ

/-- The dictionaries of resources that `configure_names` goes through, in its order. -/
inductive Table where
  | pins | analogs | counters | encoders
  deriving DecidableEq, Repr

structure Bridge where
  io : Host := {}
  keys : Table → List String := fun _ => []
  nameByRef : Ref → Option String := fun _ => none

/-- `setdefault` on one of the dictionaries. -/
def setdefault (names : List String) (name : String) : List String :=
  if name ∈ names then names else names ++ [name]

/-- The resources that an operation asks the client for, as far as they are in these tables. A
counter asks for the pin it is attached to. -/
def asks : Operation → Table → List String
  | .configureOutput name _ _, .pins | .configureInput name _ _, .pins | .pinRead name, .pins
  | .pinWrite name _, .pins | .onEdge name _ _, .pins => [name]
  | .analogConfigure name _ _, .analogs | .analogRead name, .analogs => [name]
  | .counterAttach name _ _, .counters | .counterRead name, .counters
  | .counterDelta name, .counters | .counterFrequency name _ _, .counters
  | .counterReset name, .counters => [name]
  | .counterAttach _ (.name pin) _, .pins => [pin]
  | .encoderAttach name _ _ _, .encoders | .encoderRead name, .encoders
  | .encoderDelta name, .encoders | .encoderReset name, .encoders => [name]
  | _, _ => []

def Bridge.listed (b : Bridge) : List String :=
  b.keys .pins ++ b.keys .analogs ++ b.keys .counters ++ b.keys .encoders

/-- `_resource_ref`, where a `KeyError` is nothing. -/
def resolve (io : Host) (name : String) : Option Ref :=
  match resourceRef io name with
  | .ok ref => some ref
  | .error _ => none

def configureNames (b : Bridge) : Bridge :=
  { b with
    nameByRef := b.listed.foldl (fun nameByRef name =>
      match resolve b.io name with
      | some ref => Function.update nameByRef ref (some name)
      | none => nameByRef) b.nameByRef }

section Steps

variable (respond : List Command → Except PyError (List UInt8))

def Bridge.operate (b : Bridge) (op : Operation) : Bridge :=
  { b with
    io := (runOperation respond b.io op).2
    keys := fun table => (asks op table).foldl setdefault (b.keys table) }

/-- `_subscribe`, and `ok` of its response. -/
def subscribeRequest (b : Bridge) (name : String) (rateHz : ℚ) (onChange : Bool) :
    Bridge × Bool :=
  let (result, io) := subscribe respond b.io name (some rateHz) onChange
  match result with
  | .ok _ => (configureNames { b with io }, true)
  | .error _ => ({ b with io }, false)

end Steps

/-! ### Published messages -/

def publishedName (b : Bridge) (kind : ResourceKind) (resourceId : UInt8) : String :=
  (b.nameByRef (kind, resourceId.toNat)).getD ""

structure TelemetryMessage where
  name : String
  kind : UInt8
  resourceId : UInt8
  value : ℤ
  valueFloat : ℚ

structure EdgeMessage where
  name : String
  kind : UInt8
  resourceId : UInt8
  value : ℤ
  firmwareTimestampUs : ℕ

/-- What `_poll` publishes for a frame of the telemetry queue. -/
def telemetryMessage (b : Bridge) (frame : TelemetryFrame) : TelemetryMessage where
  name := publishedName b frame.kind frame.resourceId
  kind := frame.kind.toByte
  resourceId := frame.resourceId
  value := frame.value
  valueFloat := frame.value

def edgeMessage (b : Bridge) (event : EdgeEvent) : EdgeMessage where
  name := publishedName b event.kind event.resourceId
  kind := event.kind.toByte
  resourceId := event.resourceId
  value := event.value
  firmwareTimestampUs := event.timestampUs

/-! ### Runs -/

inductive Act where
  | operation (op : Operation)
  | start
  | request (name : String) (rateHz : ℚ) (onChange : Bool)

/-- A bridge with the references it has named so far and those it has subscribed to. -/
structure Watch where
  bridge : Bridge := {}
  named : List Ref := []
  subscribed : List Ref := []

def Bridge.refs (b : Bridge) : List Ref := b.listed.filterMap (resolve b.io)

def step (respond : List Command → Except PyError (List UInt8)) (s : Watch) : Act → Watch
  | .operation op => { s with bridge := s.bridge.operate respond op }
  | .start =>
    { s with bridge := configureNames s.bridge, named := s.named ++ s.bridge.refs }
  | .request name rateHz onChange =>
    match subscribeRequest respond s.bridge name rateHz onChange with
    | (bridge, true) =>
      { bridge := bridge
        named := s.named ++ s.bridge.refs
        subscribed := s.subscribed ++ (resolve s.bridge.io name).toList }
    | (bridge, false) => { s with bridge := bridge }

/-- A name that says which resource a reference belongs to. -/
def Labels (io : Host) (ref : Ref) (name : String) : Prop :=
  name ≠ "" ∧ resourceRef io name = .ok ref

structure Faithful (s : Watch) : Prop where
  complete : ∀ name ref, resourceRef s.bridge.io name = .ok ref → (s.bridge.nameByRef ref).isSome
  sound : ∀ ref name, s.bridge.nameByRef ref = some name →
    resourceRef s.bridge.io name = .ok ref
  telemetry : ∀ frame : TelemetryFrame,
    (frame.kind, (frame.resourceId.toNat : ℤ)) ∈ s.subscribed →
      Labels s.bridge.io (frame.kind, frame.resourceId.toNat) (telemetryMessage s.bridge frame).name
  events : ∀ event : EdgeEvent, (event.kind, (event.resourceId.toNat : ℤ)) ∈ s.subscribed →
    Labels s.bridge.io (event.kind, event.resourceId.toNat) (edgeMessage s.bridge event).name

/-- After each successful request. -/
def Named (respond : List Command → Except PyError (List UInt8)) (s : Watch) : Act → Prop
  | .request name rateHz onChange =>
    (subscribeRequest respond s.bridge name rateHz onChange).2 = true →
      Faithful (step respond s (.request name rateHz onChange))
  | _ => True

/-- The names in the four tables reach every DAC, every reference that was named before and
every one that is subscribed, and the last name of a subscribed one is not empty. -/
def Covered (respond : List Command → Except PyError (List UInt8)) (s : Watch) : Act → Prop
  | .request name rateHz onChange =>
    (subscribeRequest respond s.bridge name rateHz onChange).2 = true →
      (∀ dac id, resourceRef s.bridge.io dac = .ok (.dac, id) → (.dac, id) ∈ s.bridge.refs) ∧
      (∀ ref ∈ s.named, ref ∈ s.bridge.refs) ∧
      ∀ ref, ref ∈ s.subscribed ∨ resourceRef s.bridge.io name = .ok ref →
        ref ∈ s.bridge.refs ∧ winner (resolve s.bridge.io) s.bridge.listed ref ≠ some ""
  | _ => True

/-! ### Resources that are configured -/

def configured (io : Host) : Table → String → Prop
  | .pins, name => (io.pins name).physicalPin ≠ none
  | .analogs, name => (io.analogs name).physicalPin ≠ none
  | .counters, name => (io.counters name).id ≠ none
  | .encoders, name => (io.encoders name).id ≠ none

theorem update_configured {β γ : Type} (get : β → Option γ) {fields : String → β}
    {asked name : String} {v : β} (h : get (Function.update fields asked v name) ≠ none) :
    get (fields name) ≠ none ∨ name ∈ [asked] := by
  by_cases hname : name = asked
  · exact Or.inr (List.mem_singleton.mpr hname)
  · rw [Function.update_of_ne hname] at h
    exact Or.inl h

theorem assigned_configured (io : Host) {op : Operation} {table : Table} {name : String}
    (h : configured (assigned io op) table name) :
    configured io table name ∨ name ∈ asks op table := by
  cases op with
  | configureOutput asked pin initial =>
    cases table with
    | pins => exact update_configured Pin.physicalPin h
    | _ => exact Or.inl h
  | configureInput asked pin pull =>
    cases table with
    | pins => exact update_configured Pin.physicalPin h
    | _ => exact Or.inl h
  | onEdge asked edge callback =>
    rw [assigned] at h
    split at h
    · exact Or.inl h
    · cases table <;> exact Or.inl h
  | pwmConfigure asked pin frequency duty => cases table <;> exact Or.inl h
  | analogConfigure asked pin samples =>
    cases table with
    | analogs => exact update_configured AnalogInput.physicalPin h
    | _ => exact Or.inl h
  | counterAttach asked pin edge =>
    rw [assigned] at h
    split at h
    · exact Or.inl h
    · cases table with
      | counters => exact update_configured PulseCounter.id h
      | _ => exact Or.inl h
  | encoderAttach asked pinA pinB mode =>
    rw [assigned] at h
    split at h
    · exact Or.inl h
    · cases table with
      | encoders => exact update_configured QuadratureEncoder.id h
      | _ => exact Or.inl h
  | i2cConfigure asked bus frequency =>
    rw [assigned] at h
    split at h
    · exact Or.inl h
    · cases table <;> exact Or.inl h
  | dacAttach asked bus address channels bits =>
    rw [assigned] at h
    split at h
    · exact Or.inl h
    · cases table <;> exact Or.inl h
  | _ => exact Or.inl h

theorem configured_iff {io io' : Host} (hrefs : SameRefs io io') (table : Table)
    (name : String) : configured io' table name ↔ configured io table name := by
  cases table with
  | pins => rw [configured, configured, hrefs.pins]
  | analogs => rw [configured, configured, hrefs.analogs]
  | counters => rw [configured, configured, hrefs.counters]
  | encoders => rw [configured, configured, hrefs.encoders]

variable (respond : List Command → Except PyError (List UInt8))

/-- What an operation configures it has asked for by name. -/
theorem operation_configured (io : Host) {op : Operation} {table : Table} {name : String}
    (h : configured (runOperation respond io op).2 table name) :
    configured io table name ∨ name ∈ asks op table := by
  by_cases hkeeps : keepsAnswer op = false
  · have hrefs := (runOperation_same respond io hkeeps).sameRefs
    exact assigned_configured io ((configured_iff hrefs table name).mp h)
  · rw [Bool.not_eq_false] at hkeeps
    have hrefs := (runOperation_answered respond io hkeeps).sameRefs
    exact Or.inl ((configured_iff hrefs table name).mp h)

/-! ### What every run keeps -/

theorem mem_setdefault {names : List String} {name n : String} :
    n ∈ setdefault names name ↔ n ∈ names ∨ n = name := by
  rw [setdefault]
  by_cases hmem : name ∈ names
  · rw [if_pos hmem]
    constructor
    · exact Or.inl
    · rintro (hn | rfl)
      · exact hn
      · exact hmem
  · rw [if_neg hmem, List.mem_append, List.mem_singleton]

theorem mem_asked {asked names : List String} {n : String} :
    n ∈ asked.foldl setdefault names ↔ n ∈ names ∨ n ∈ asked := by
  induction asked generalizing names with
  | nil => simp
  | cons name asked ih => rw [List.foldl_cons, ih, mem_setdefault, List.mem_cons, or_assoc]

theorem mem_listed {b : Bridge} {name : String} :
    name ∈ b.listed ↔ ∃ table, name ∈ b.keys table := by
  rw [Bridge.listed]
  simp only [List.mem_append]
  constructor
  · rintro (((h | h) | h) | h)
    · exact ⟨.pins, h⟩
    · exact ⟨.analogs, h⟩
    · exact ⟨.counters, h⟩
    · exact ⟨.encoders, h⟩
  · rintro ⟨table, h⟩
    cases table with
    | pins => exact Or.inl (Or.inl (Or.inl h))
    | analogs => exact Or.inl (Or.inl (Or.inr h))
    | counters => exact Or.inl (Or.inr h)
    | encoders => exact Or.inr h

theorem resolve_iff {io : Host} {name : String} {ref : Ref} :
    resolve io name = some ref ↔ resourceRef io name = .ok ref := by
  rw [resolve]
  cases resourceRef io name with
  | ok ref' => simp
  | error error => simp

theorem mem_refs {b : Bridge} {ref : Ref} :
    ref ∈ b.refs ↔ Reached (resolve b.io) b.listed ref := by
  rw [Bridge.refs, List.mem_filterMap, Reached]

/-- A reference that is not a DAC's belongs to a resource that is configured in its table. -/
theorem resolve_configured {io : Host} {name : String} {ref : Ref}
    (h : resourceRef io name = .ok ref) (hdac : ref.1 ≠ .dac) :
    ∃ table, configured io table name := by
  by_contra hnone
  simp only [not_exists] at hnone
  have hpin : (io.pins name).physicalPin = none := not_not.mp (hnone .pins)
  have hanalog : (io.analogs name).physicalPin = none := not_not.mp (hnone .analogs)
  have hcounter : (io.counters name).id = none := not_not.mp (hnone .counters)
  have hencoder : (io.encoders name).id = none := not_not.mp (hnone .encoders)
  rw [resourceRef, hpin, hanalog, hcounter, hencoder] at h
  cases hid : (io.dacs name).id with
  | none =>
    rw [hid] at h
    cases h
  | some id =>
    rw [hid] at h
    obtain rfl := Except.ok.inj h
    exact hdac rfl

theorem configureNames_eq (b : Bridge) :
    (configureNames b).nameByRef = reindex (resolve b.io) b.nameByRef b.listed := by
  have henter : (fun (nameByRef : Ref → Option String) name =>
      match resolve b.io name with
      | some ref => Function.update nameByRef ref (some name)
      | none => nameByRef) = enter (resolve b.io) := by
    funext nameByRef name
    rw [enter]
    cases resolve b.io name <;> rfl
  rw [reindex, ← henter]
  rfl

/-- Entries and references are of resources that were asked for. -/
structure Kept (s : Watch) : Prop where
  entries : ∀ ref name, s.bridge.nameByRef ref = some name → name ∈ s.bridge.listed
  named : ∀ ref, (s.bridge.nameByRef ref).isSome ↔ ref ∈ s.named
  tables : ∀ table name, configured s.bridge.io table name → name ∈ s.bridge.keys table
  subscribed : ∀ ref ∈ s.subscribed, ∃ byte : UInt8, ref.2 = byte.toNat

theorem kept_names {s : Watch} (h : Kept s) (subscribed : List Ref)
    (hbytes : ∀ ref ∈ subscribed, ∃ byte : UInt8, ref.2 = byte.toNat) :
    Kept ⟨configureNames s.bridge, s.named ++ s.bridge.refs, subscribed⟩ := by
  refine ⟨?_, ?_, h.tables, hbytes⟩
  · intro ref name hname
    rw [configureNames_eq] at hname
    exact reindex_mem h.entries hname
  · intro ref
    rw [configureNames_eq, reindex_isSome, h.named, ← mem_refs, List.mem_append, or_comm]

/-- A request fails, or it subscribes a reference whose number is a byte. -/
theorem request_cases (b : Bridge) (name : String) (rateHz : ℚ) (onChange : Bool) :
    (∃ log, subscribeRequest respond b name rateHz onChange =
      ({ b with io := { b.io with log := log } }, false)) ∨
    ∃ log kind, ∃ byte : UInt8, resourceRef b.io name = .ok (kind, (byte.toNat : ℤ)) ∧
      subscribeRequest respond b name rateHz onChange =
        (configureNames { b with io := { b.io with log := log } }, true) := by
  have hsends := subscribe_sends respond b.io name (some rateHz) onChange
  obtain ⟨log, hsame⟩ := subscribe_same respond b.io name (some rateHz) onChange
  rw [subscribeRequest]
  cases hcall : subscribe respond b.io name (some rateHz) onChange with
  | mk result io =>
    obtain rfl : io = { b.io with log := log } := by
      rw [← hsame, hcall]
    cases result with
    | error error => exact Or.inl ⟨log, rfl⟩
    | ok _ =>
      rw [hcall] at hsends
      rcases hsends with ⟨⟨error, hraised⟩, -⟩ | ⟨id, bytes, r, -, -, -, hmeant⟩
      · cases hraised
      · cases hmeant with
        | @subscribe _ _ _ kind byte rate href hrate =>
          exact Or.inr ⟨log, kind, byte, href, rfl⟩

theorem kept_logged {s : Watch} (h : Kept s) (log : List Command) :
    Kept { s with bridge := { s.bridge with io := { s.bridge.io with log := log } } } := by
  refine ⟨h.entries, h.named, ?_, h.subscribed⟩
  intro table name hconfigured
  apply h.tables table name
  have hrefs := SameFields.sameRefs (h := s.bridge.io) ⟨log, rfl⟩
  exact (configured_iff hrefs table name).mp hconfigured

theorem step_kept {s : Watch} (h : Kept s) (act : Act) : Kept (step respond s act) := by
  cases act with
  | operation op =>
    refine ⟨?_, h.named, ?_, h.subscribed⟩
    · intro ref name hname
      obtain ⟨table, hmem⟩ := mem_listed.mp (h.entries ref name hname)
      exact mem_listed.mpr ⟨table, mem_asked.mpr (Or.inl hmem)⟩
    · intro table name hconfigured
      apply mem_asked.mpr
      rcases operation_configured respond s.bridge.io hconfigured with hbefore | hasked
      · exact Or.inl (h.tables table name hbefore)
      · exact Or.inr hasked
  | start => exact kept_names h s.subscribed h.subscribed
  | request name rateHz onChange =>
    rw [step]
    rcases request_cases respond s.bridge name rateHz onChange with
      ⟨log, hfailed⟩ | ⟨log, kind, byte, href, hdone⟩
    · rw [hfailed]
      exact kept_logged h log
    · rw [hdone]
      apply kept_names (kept_logged h log)
      intro ref hmem
      rcases List.mem_append.mp hmem with hbefore | hnow
      · exact h.subscribed ref hbefore
      · rw [resolve_iff.mpr href] at hnow
        obtain rfl := List.mem_singleton.mp hnow
        exact ⟨byte, rfl⟩

/-- A published name is right exactly where a listed name still has the reference and the last
such name is not empty. -/
theorem label_iff {io : Host} {nameByRef : Ref → Option String} {names : List String}
    (hentries : ∀ ref name, nameByRef ref = some name → name ∈ names)
    (hcomplete : Complete (resolve io) (reindex (resolve io) nameByRef names)) (ref : Ref) :
    Labels io ref ((reindex (resolve io) nameByRef names ref).getD "") ↔
      Reached (resolve io) names ref ∧ winner (resolve io) names ref ≠ some "" := by
  constructor
  · rintro ⟨hname, hlabel⟩
    obtain ⟨name, hentry⟩ :=
      Option.isSome_iff_exists.mp (hcomplete _ ref (resolve_iff.mpr hlabel))
    rw [hentry] at hname hlabel
    obtain ⟨hreached, hwinner⟩ := winner_of_reindex hentries hentry (resolve_iff.mpr hlabel)
    refine ⟨hreached, ?_⟩
    rw [hwinner]
    intro hempty
    exact hname (Option.some.inj hempty)
  · rintro ⟨hreached, hwinner⟩
    obtain ⟨name, hname⟩ := Option.isSome_iff_exists.mp (winner_isSome.mpr hreached)
    rw [reindex_reached hreached, hname]
    rw [hname] at hwinner
    refine ⟨?_, resolve_iff.mp (winner_some hname).2⟩
    rintro rfl
    exact hwinner rfl

/-- Only a DAC can have a reference that none of the names in the tables has. -/
theorem resolved_iff {s : Watch} (h : Kept s) :
    (∀ dac id, resourceRef s.bridge.io dac = .ok (.dac, id) → (.dac, id) ∈ s.bridge.refs) ↔
      ∀ name ref, resolve s.bridge.io name = some ref →
        Reached (resolve s.bridge.io) s.bridge.listed ref := by
  constructor
  · intro hdacs name ref hname
    by_cases hdac : ref.1 = .dac
    · obtain ⟨kind, id⟩ := ref
      obtain rfl : kind = .dac := hdac
      exact mem_refs.mp (hdacs name id (resolve_iff.mp hname))
    · obtain ⟨table, hconfigured⟩ := resolve_configured (resolve_iff.mp hname) hdac
      have hlisted := mem_listed.mpr ⟨table, h.tables table name hconfigured⟩
      exact ⟨name, hlisted, hname⟩
  · intro hresolved dac id hname
    exact mem_refs.mpr (hresolved dac _ (resolve_iff.mpr hname))

/-- What a successful request leaves is faithful exactly where the names reach what they must. -/
theorem faithful_iff {s : Watch} (h : Kept s) {subscribed : List Ref}
    (hbytes : ∀ ref ∈ subscribed, ∃ byte : UInt8, ref.2 = byte.toNat) :
    Faithful ⟨configureNames s.bridge, s.named ++ s.bridge.refs, subscribed⟩ ↔
      (∀ dac id, resourceRef s.bridge.io dac = .ok (.dac, id) → (.dac, id) ∈ s.bridge.refs) ∧
      (∀ ref ∈ s.named, ref ∈ s.bridge.refs) ∧
      ∀ ref ∈ subscribed,
        ref ∈ s.bridge.refs ∧ winner (resolve s.bridge.io) s.bridge.listed ref ≠ some "" := by
  have hiff := @reindex_faithful_iff _ _ _ (resolve s.bridge.io) _ _ h.entries
  have hentry : ∀ ref, (configureNames s.bridge).nameByRef ref =
      reindex (resolve s.bridge.io) s.bridge.nameByRef s.bridge.listed ref :=
    congrFun (configureNames_eq s.bridge)
  have hdacs := resolved_iff h
  constructor
  · intro hfaithful
    have hcomplete : Complete (resolve s.bridge.io)
        (reindex (resolve s.bridge.io) s.bridge.nameByRef s.bridge.listed) := by
      intro name ref hname
      rw [← hentry]
      exact hfaithful.complete name ref (resolve_iff.mp hname)
    have hsound : Sound (resolve s.bridge.io)
        (reindex (resolve s.bridge.io) s.bridge.nameByRef s.bridge.listed) := by
      intro ref name hname
      rw [← hentry] at hname
      exact resolve_iff.mpr (hfaithful.sound ref name hname)
    obtain ⟨hused, hindex⟩ := hiff.mp ⟨hcomplete, hsound⟩
    refine ⟨hdacs.mpr hused, ?_, ?_⟩
    · intro ref hmem
      exact mem_refs.mpr (hindex ref ((h.named ref).mpr hmem))
    · rintro ⟨kind, id⟩ hmem
      obtain ⟨byte, rfl⟩ := hbytes _ hmem
      have hlabel := hfaithful.telemetry ⟨kind, byte, 0⟩ hmem
      rw [telemetryMessage, publishedName, hentry] at hlabel
      rw [mem_refs]
      exact (label_iff h.entries hcomplete _).mp hlabel
  · rintro ⟨hdac, hnamed, hsubscribed⟩
    have hindex : ∀ ref, (s.bridge.nameByRef ref).isSome →
        Reached (resolve s.bridge.io) s.bridge.listed ref := by
      intro ref hsome
      exact mem_refs.mp (hnamed ref ((h.named ref).mp hsome))
    obtain ⟨hcomplete, hsound⟩ := hiff.mpr ⟨hdacs.mp hdac, hindex⟩
    have hlabel : ∀ ref ∈ subscribed, Labels s.bridge.io ref
        (((configureNames s.bridge).nameByRef ref).getD "") := by
      intro ref hmem
      obtain ⟨href, hwinner⟩ := hsubscribed ref hmem
      rw [hentry]
      exact (label_iff h.entries hcomplete ref).mpr ⟨mem_refs.mp href, hwinner⟩
    refine ⟨?_, ?_, ?_, ?_⟩
    · intro name ref hname
      rw [hentry]
      exact hcomplete name ref (resolve_iff.mpr hname)
    · intro ref name hname
      rw [hentry] at hname
      exact resolve_iff.mp (hsound ref name hname)
    · intro frame hmem
      exact hlabel _ hmem
    · intro event hmem
      exact hlabel _ hmem

theorem named_iff_covered {s : Watch} (h : Kept s) (act : Act) :
    Named respond s act ↔ Covered respond s act := by
  cases act with
  | operation op => exact Iff.rfl
  | start => exact Iff.rfl
  | request name rateHz onChange =>
    rw [Named, Covered, step]
    rcases request_cases respond s.bridge name rateHz onChange with
      ⟨log, hfailed⟩ | ⟨log, kind, byte, href, hdone⟩
    · rw [hfailed]
      apply iff_of_true
      · intro hok
        cases hok
      · intro hok
        cases hok
    · rw [hdone, resolve_iff.mpr href]
      simp only [forall_const]
      have hbytes : ∀ ref ∈ s.subscribed ++ [(kind, (byte.toNat : ℤ))],
          ∃ byte : UInt8, ref.2 = byte.toNat := by
        intro ref hmem
        rcases List.mem_append.mp hmem with hbefore | hnow
        · exact h.subscribed ref hbefore
        · obtain rfl := List.mem_singleton.mp hnow
          exact ⟨byte, rfl⟩
      refine (faithful_iff (kept_logged h log) hbytes).trans ?_
      apply and_congr Iff.rfl
      apply and_congr Iff.rfl
      apply forall_congr'
      intro ref
      rw [List.mem_append, List.mem_singleton, href, Except.ok.injEq, eq_comm (a := ref)]
      exact Iff.rfl

/-- The bridge names what it must along exactly the runs whose requests are covered. -/
theorem names_iff (acts : List Act) :
    EachStep (step respond) (Named respond) {} acts ↔
      EachStep (step respond) (Covered respond) {} acts := by
  have hstart : Kept {} := by
    refine ⟨?_, ?_, ?_, ?_⟩
    · intro ref name hname
      cases hname
    · intro ref
      simp
    · intro table name hconfigured
      cases table <;> exact absurd rfl hconfigured
    · intro ref hmem
      cases hmem
  refine eachStep_congr (I := Kept) (T := fun _ _ => True) ?_ ?_ hstart
    (eachStep_of_forall _ fun _ _ => trivial)
  · intro s act _ h
    exact step_kept respond h act
  · intro s act _ h
    exact named_iff_covered respond h act

/-! ### A table that is left out and an entry that stays -/

def acknowledging : List Command → Except PyError (List UInt8) := fun _ => .ok [0]

def dacRun : List Act :=
  [.operation (.i2cConfigure "main" 0 400000), .operation (.dacAttach "out" "main" 0x60 1 12),
    .request "out" 10 false]

/-- A pin is moved after it was subscribed. -/
def movedRun : List Act :=
  [.operation (.configureInput "door" 5 "up"), .request "door" 10 false,
    .operation (.configureInput "door" 6 "up"), .request "door" 10 false]

theorem names_missing :
    ¬ EachStep (step acknowledging) (Named acknowledging) {} dacRun ∧
      ¬ EachStep (step acknowledging) (Named acknowledging) {} movedRun := by
  constructor
  · intro h
    have hfaithful := h.2.2.1 (by decide +kernel)
    have hentry := hfaithful.complete "out" (.dac, 0) (by decide +kernel)
    have hnone : (after (step acknowledging) {} dacRun).bridge.nameByRef (.dac, 0) = none := by
      decide +kernel
    exact absurd hentry (by rw [Option.not_isSome_iff_eq_none]; exact hnone)
  · intro h
    have hfaithful := h.2.2.2.1 (by decide +kernel)
    have hmoved := hfaithful.sound (.digital, 5) "door" (by decide +kernel)
    have hsix : resourceRef (after (step acknowledging) {} movedRun).bridge.io "door" =
        .ok (.digital, 6) := by decide +kernel
    cases hsix.symm.trans hmoved

end BridgeNames
