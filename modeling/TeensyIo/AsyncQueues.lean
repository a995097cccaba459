import TeensyIo.DropOldestQueues
import TeensyIo.HostDelivery

/-! # The telemetry and event queues

`_handle_async_packet` and `_put_bounded` with what `queue.Queue` raises, and the callbacks they
call. Each of the two queues is a queue that drops its oldest frame. -/
namespace AsyncQueues

open WireCommands HostProtocol HostClient BoundedQueues DropOldestQueues MachineRuns
open DropOldestQueues (step)

/-! ### Queues that raise -/

inductive QueueError where
  | full | empty
  deriving DecidableEq

def putNowait {ε : Type} (maxsize : ℤ) (target : List ε) (item : ε) :
    Except QueueError (List ε) :=
  if IsFull maxsize target then .error .full else .ok (target ++ [item])

def getNowait {ε : Type} : List ε → Except QueueError (ε × List ε)
  | [] => .error .empty
  | item :: target => .ok (item, target)

/-- What `_put_bounded` leaves, and the frame that `get_nowait` has thrown away in it. -/
structure Put (ε : Type) where
  target : List ε
  evicted : List ε := []
  client : Client

/-- The counter is chosen by the text `kind`. -/
def countDrop (c : Client) (kind : String) : Client :=
  if kind = "telemetry" then { c with telemetryDropped := c.telemetryDropped + 1 }
  else { c with eventsDropped := c.eventsDropped + 1 }

def putBounded {ε : Type} (c : Client) (maxsize : ℤ) (target : List ε) (item : ε)
    (kind : String) : Except QueueError (Put ε) :=
  match putNowait maxsize target item with
  | .ok target => .ok { target := target, client := c }
  | .error _ =>
    let (evicted, target) :=
      match getNowait target with
      | .ok (oldest, target) => ([oldest], target)
      | .error _ => ([], target)
    match putNowait maxsize target item with
    | .ok target => .ok { target := target, evicted := evicted, client := countDrop c kind }
    | .error error => .error error

/-! ### Arriving packets -/

/-- `_telemetry_callbacks` and `_edge_callbacks`. -/
structure Callbacks where
  telemetry : List ℕ := []
  edge : ResourceKind × UInt8 → List ℕ := fun _ => []

/-- The client after a packet, the frames that were thrown away and the callbacks that were
called. -/
structure Handled where
  client : Client
  lostTelemetry : List TelemetryFrame := []
  lostEvents : List EdgeEvent := []
  telemetryCalls : List (Call TelemetryFrame) := []
  edgeCalls : List (Call EdgeEvent) := []

def EdgeEvent.key (event : EdgeEvent) : ResourceKind × UInt8 := (event.kind, event.resourceId)

def handleAsyncPacket (o : Options) (callbacks : Callbacks) (c : Client) (packet : Packet) :
    Except QueueError Handled :=
  match telemetryFrame packet with
  | some frame =>
    (putBounded c o.telemetryMaxFrames c.telemetryQueue frame "telemetry").map fun put =>
      { client := { put.client with telemetryQueue := put.target }
        lostTelemetry := put.evicted
        telemetryCalls := calls callbacks.telemetry frame }
  | none =>
    match edgeEvent packet with
    | some event =>
      (putBounded c o.eventMaxFrames c.eventQueue event "event").map fun put =>
        { client := { put.client with eventQueue := put.target }
          lostEvents := put.evicted
          edgeCalls := calls (callbacks.edge (EdgeEvent.key event)) event }
    | none => .ok { client := c }

/-! ### Runs -/

inductive Operation where
  | handle (packet : Packet)
  | getTelemetry
  | getEvent

/-- What has become of the frames of one kind, and the callbacks that were called for them. -/
structure Traffic (ε : Type) where
  book : Book ε := {}
  called : List (Call ε) := []

/-- `raised` once an exception of a queue has left `_put_bounded`. -/
structure Recorded where
  client : Client := {}
  telemetry : Traffic TelemetryFrame := {}
  events : Traffic EdgeEvent := {}
  raised : Bool := false

namespace Traffic

variable {ε : Type}

def arrived (traffic : Traffic ε) (lost : List ε) (item : Option ε) (called : List (Call ε)) :
    Traffic ε where
  book :=
    match item with
    | some item => (traffic.book.depart .lost lost).offer item
    | none => traffic.book
  called := traffic.called ++ called

def taken (traffic : Traffic ε) (item : ε) : Traffic ε :=
  { traffic with book := traffic.book.depart .sent [item] }

end Traffic

def Recorded.handle (o : Options) (callbacks : Callbacks) (r : Recorded) (packet : Packet) :
    Recorded :=
  match handleAsyncPacket o callbacks r.client packet with
  | .error _ => { r with raised := true }
  | .ok handled =>
    { r with
      client := handled.client
      telemetry :=
        r.telemetry.arrived handled.lostTelemetry (telemetryFrame packet) handled.telemetryCalls
      events := r.events.arrived handled.lostEvents (edgeEvent packet) handled.edgeCalls }

/-- A consumer that finds its queue empty gets `queue.Empty` and nothing changes. -/
def run (o : Options) (callbacks : Callbacks) (r : Recorded) : Operation → Recorded
  | .handle packet => r.handle o callbacks packet
  | .getTelemetry =>
    match getNowait r.client.telemetryQueue with
    | .error _ => r
    | .ok (frame, target) =>
      { r with
        client := { r.client with telemetryQueue := target }
        telemetry := r.telemetry.taken frame }
  | .getEvent =>
    match getNowait r.client.eventQueue with
    | .error _ => r
    | .ok (event, target) =>
      { r with client := { r.client with eventQueue := target }, events := r.events.taken event }

/-! ### Each queue by itself -/

def telemetrySetting (o : Options) (callbacks : Callbacks) : Setting TelemetryFrame Unit where
  size := o.telemetryMaxFrames.toNat
  topic := fun _ => ()
  listeners := fun _ => callbacks.telemetry

def eventSetting (o : Options) (callbacks : Callbacks) :
    Setting EdgeEvent (ResourceKind × UInt8) where
  size := o.eventMaxFrames.toNat
  topic := EdgeEvent.key
  listeners := callbacks.edge

def telemetryQueue (r : Recorded) : Queue TelemetryFrame :=
  ⟨r.client.telemetryQueue, r.client.telemetryDropped, r.telemetry.book, r.telemetry.called⟩

def eventQueue (r : Recorded) : Queue EdgeEvent :=
  ⟨r.client.eventQueue, r.client.eventsDropped, r.events.book, r.events.called⟩

/-- What an operation is to the telemetry queue. -/
def telemetryActions : Operation → List (Action TelemetryFrame)
  | .handle packet => (telemetryFrame packet).toList.map .arrive
  | .getTelemetry => [.take]
  | .getEvent => []

def eventActions : Operation → List (Action EdgeEvent)
  | .handle packet => (edgeEvent packet).toList.map .arrive
  | .getTelemetry => []
  | .getEvent => [.take]

section Put

variable {ε : Type} {c : Client} {maxsize : ℤ} {target : List ε} {kind : String}

theorem isFull_iff (hsize : 1 ≤ maxsize) :
    IsFull maxsize target ↔ maxsize.toNat ≤ target.length := by
  rw [IsFull]
  omega

/-- With a place and no more frames than places `_put_bounded` does not raise. -/
theorem putBounded_eq (hsize : 1 ≤ maxsize) (hroom : target.length ≤ maxsize.toNat) (item : ε) :
    putBounded c maxsize target item kind =
      .ok
        { target := target.drop (evicted maxsize.toNat target).length ++ [item]
          evicted := evicted maxsize.toNat target
          client := if maxsize.toNat ≤ target.length then countDrop c kind else c } := by
  by_cases hfull : maxsize.toNat ≤ target.length
  · cases target with
    | nil =>
      change maxsize.toNat ≤ 0 at hfull
      omega
    | cons oldest target =>
      rw [List.length_cons] at hroom
      have hleft : ¬IsFull maxsize target := by
        rw [isFull_iff hsize]
        omega
      rw [putBounded, putNowait, if_pos ((isFull_iff hsize).mpr hfull), evicted, if_pos hfull,
        if_pos hfull]
      dsimp only [getNowait]
      rw [putNowait, if_neg hleft]
      rfl
  · have hleft : ¬IsFull maxsize target := fun h => hfull ((isFull_iff hsize).mp h)
    rw [putBounded, putNowait, if_neg hleft, evicted, if_neg hfull, if_neg hfull]
    rfl

end Put

theorem evicted_length {ε : Type} {size : ℕ} (hsize : 1 ≤ size) (held : List ε) :
    (evicted size held).length = if size ≤ held.length then 1 else 0 := by
  rw [evicted]
  split_ifs with hfull
  · cases held with
    | nil =>
      change size ≤ 0 at hfull
      omega
    | cons oldest held => rfl
  · rfl

theorem session_putBounded {ε : Type} {maxsize : ℤ} (hsize : 1 ≤ maxsize) (target : List ε)
    (dropped : ℕ) (item : ε) :
    HostClient.putBounded maxsize target dropped item =
      (target.drop (evicted maxsize.toNat target).length ++ [item],
        dropped + (evicted maxsize.toNat target).length) := by
  rw [HostClient.putBounded, evicted_length (by omega)]
  by_cases hfull : maxsize.toNat ≤ target.length
  · rw [if_pos ((isFull_iff hsize).mpr hfull), if_pos hfull, List.drop_one]
  · rw [if_neg fun h => hfull ((isFull_iff hsize).mp h), if_neg hfull]
    rfl

/-- Where the queues have places and hold no more than that, this is what a session does with an
asynchronous packet. -/
theorem handleAsyncPacket_session {o : Options} {callbacks : Callbacks} {c : Client}
    (htelemetry : 1 ≤ o.telemetryMaxFrames) (hevents : 1 ≤ o.eventMaxFrames)
    (hroom : c.telemetryQueue.length ≤ o.telemetryMaxFrames.toNat)
    (hroom' : c.eventQueue.length ≤ o.eventMaxFrames.toNat) (packet : Packet) :
    (handleAsyncPacket o callbacks c packet).map Handled.client =
      .ok (HostClient.handleAsyncPacket o c packet) := by
  rw [handleAsyncPacket, HostClient.handleAsyncPacket]
  cases telemetryFrame packet with
  | some frame =>
    dsimp only
    rw [putBounded_eq htelemetry hroom, session_putBounded htelemetry,
      evicted_length (by omega)]
    split_ifs <;> rfl
  | none =>
    dsimp only
    cases edgeEvent packet with
    | some event =>
      dsimp only
      rw [putBounded_eq hevents hroom', session_putBounded hevents, evicted_length (by omega)]
      split_ifs <;> rfl
    | none => rfl

section Simulation

variable {o : Options} {callbacks : Callbacks} {r : Recorded}

/-- What an operation does to the record, seen from its two queues. -/
structure Moves (o : Options) (callbacks : Callbacks) (r : Recorded) (op : Operation) : Prop where
  telemetry : telemetryQueue (run o callbacks r op) =
    after (step (telemetrySetting o callbacks)) (telemetryQueue r) (telemetryActions op)
  events : eventQueue (run o callbacks r op) =
    after (step (eventSetting o callbacks)) (eventQueue r) (eventActions op)
  raised : (run o callbacks r op).raised = r.raised

theorem handle_telemetry {packet : Packet} {frame : TelemetryFrame}
    (hframe : telemetryFrame packet = some frame) (hsize : 1 ≤ o.telemetryMaxFrames)
    (hroom : r.client.telemetryQueue.length ≤ o.telemetryMaxFrames.toNat) :
    Moves o callbacks r (.handle packet) := by
  have hevent : edgeEvent packet = none := HostDelivery.edgeEvent_of_telemetryFrame hframe
  have hlost := evicted_length (by omega : 1 ≤ o.telemetryMaxFrames.toNat) r.client.telemetryQueue
  have hrun : run o callbacks r (.handle packet) = r.handle o callbacks packet := rfl
  rw [Recorded.handle, handleAsyncPacket, hframe] at hrun
  dsimp only at hrun
  rw [putBounded_eq hsize hroom] at hrun
  dsimp only [Except.map] at hrun
  rw [hevent] at hrun
  constructor
  · rw [hrun, telemetryActions, hframe, telemetryQueue]
    change _ = step (telemetrySetting o callbacks) (telemetryQueue r) (.arrive frame)
    rw [step, telemetryQueue]
    dsimp only [telemetrySetting, Traffic.arrived]
    rw [hlost]
    split_ifs <;> rfl
  · rw [hrun, eventActions, hevent, eventQueue]
    dsimp only [Traffic.arrived]
    rw [List.append_nil]
    split_ifs <;> rfl
  · rw [hrun]

theorem handle_event {packet : Packet} {event : EdgeEvent}
    (hframe : telemetryFrame packet = none) (hevent : edgeEvent packet = some event)
    (hsize : 1 ≤ o.eventMaxFrames)
    (hroom : r.client.eventQueue.length ≤ o.eventMaxFrames.toNat) :
    Moves o callbacks r (.handle packet) := by
  have hlost := evicted_length (by omega : 1 ≤ o.eventMaxFrames.toNat) r.client.eventQueue
  have hrun : run o callbacks r (.handle packet) = r.handle o callbacks packet := rfl
  rw [Recorded.handle, handleAsyncPacket, hframe, hevent] at hrun
  dsimp only at hrun
  rw [putBounded_eq hsize hroom] at hrun
  dsimp only [Except.map] at hrun
  constructor
  · rw [hrun, telemetryActions, hframe, telemetryQueue]
    dsimp only [Traffic.arrived]
    rw [List.append_nil]
    split_ifs <;> rfl
  · rw [hrun, eventActions, hevent, eventQueue]
    change _ = step (eventSetting o callbacks) (eventQueue r) (.arrive event)
    rw [step, eventQueue]
    dsimp only [eventSetting, Traffic.arrived]
    rw [hlost]
    split_ifs <;> rfl
  · rw [hrun]

theorem handle_ignored {packet : Packet} (hframe : telemetryFrame packet = none)
    (hevent : edgeEvent packet = none) : Moves o callbacks r (.handle packet) := by
  have hrun : run o callbacks r (.handle packet) = r.handle o callbacks packet := rfl
  rw [Recorded.handle, handleAsyncPacket, hframe, hevent] at hrun
  dsimp only at hrun
  constructor
  · rw [hrun, telemetryActions, hframe, telemetryQueue]
    dsimp only [Traffic.arrived]
    rw [List.append_nil]
    rfl
  · rw [hrun, eventActions, hevent, eventQueue]
    dsimp only [Traffic.arrived]
    rw [List.append_nil]
    rfl
  · rw [hrun]

theorem get_telemetry : Moves o callbacks r .getTelemetry := by
  cases hqueue : r.client.telemetryQueue with
  | nil =>
    have hrun : run o callbacks r .getTelemetry = r := by rw [run, hqueue, getNowait]
    constructor
    · change _ = step (telemetrySetting o callbacks) (telemetryQueue r) .take
      rw [hrun, step, telemetryQueue, hqueue]
      exact congrArg (fun departed => (⟨[], _, ⟨_, departed⟩, _⟩ : Queue TelemetryFrame))
        (List.append_nil _).symm
    · rw [hrun]
      rfl
    · rw [hrun]
  | cons frame target =>
    have hrun : run o callbacks r .getTelemetry =
        { r with
          client := { r.client with telemetryQueue := target }
          telemetry := r.telemetry.taken frame } := by rw [run, hqueue, getNowait]
    constructor
    · change _ = step (telemetrySetting o callbacks) (telemetryQueue r) .take
      rw [hrun, step, telemetryQueue, telemetryQueue, hqueue]
      rfl
    · rw [hrun]
      rfl
    · rw [hrun]

theorem get_event : Moves o callbacks r .getEvent := by
  cases hqueue : r.client.eventQueue with
  | nil =>
    have hrun : run o callbacks r .getEvent = r := by rw [run, hqueue, getNowait]
    constructor
    · rw [hrun]
      rfl
    · change _ = step (eventSetting o callbacks) (eventQueue r) .take
      rw [hrun, step, eventQueue, hqueue]
      exact congrArg (fun departed => (⟨[], _, ⟨_, departed⟩, _⟩ : Queue EdgeEvent))
        (List.append_nil _).symm
    · rw [hrun]
  | cons event target =>
    have hrun : run o callbacks r .getEvent =
        { r with
          client := { r.client with eventQueue := target }
          events := r.events.taken event } := by rw [run, hqueue, getNowait]
    constructor
    · rw [hrun]
      rfl
    · change _ = step (eventSetting o callbacks) (eventQueue r) .take
      rw [hrun, step, eventQueue, eventQueue, hqueue]
      rfl
    · rw [hrun]

/-- Every operation moves each queue as a queue that drops its oldest entry. -/
theorem moves (htelemetry : 1 ≤ o.telemetryMaxFrames) (hevents : 1 ≤ o.eventMaxFrames)
    (hroom : r.client.telemetryQueue.length ≤ o.telemetryMaxFrames.toNat)
    (hroom' : r.client.eventQueue.length ≤ o.eventMaxFrames.toNat) (op : Operation) :
    Moves o callbacks r op := by
  cases op with
  | handle packet =>
    cases hframe : telemetryFrame packet with
    | some frame => exact handle_telemetry hframe htelemetry hroom
    | none =>
      cases hevent : edgeEvent packet with
      | some event => exact handle_event hframe hevent hevents hroom'
      | none => exact handle_ignored hframe hevent
  | getTelemetry => exact get_telemetry
  | getEvent => exact get_event

/-- Along a run the two queues of the client are the two abstract queues. -/
theorem runs (htelemetry : 1 ≤ o.telemetryMaxFrames) (hevents : 1 ≤ o.eventMaxFrames)
    (hsound : Sound (telemetrySetting o callbacks) (telemetryQueue r))
    (hsound' : Sound (eventSetting o callbacks) (eventQueue r)) (ops : List Operation) :
    telemetryQueue (after (run o callbacks) r ops) =
        after (step (telemetrySetting o callbacks)) (telemetryQueue r)
          (ops.flatMap telemetryActions) ∧
      eventQueue (after (run o callbacks) r ops) =
        after (step (eventSetting o callbacks)) (eventQueue r) (ops.flatMap eventActions) ∧
      (after (run o callbacks) r ops).raised = r.raised := by
  induction ops generalizing r with
  | nil => exact ⟨rfl, rfl, rfl⟩
  | cons op ops ih =>
    have hmoves := @moves o callbacks r htelemetry hevents hsound.room hsound'.room op
    have hnext : Sound (telemetrySetting o callbacks) (telemetryQueue (run o callbacks r op)) := by
      rw [hmoves.telemetry]
      exact sound_run (by dsimp only [telemetrySetting]; omega) hsound _
    have hnext' : Sound (eventSetting o callbacks) (eventQueue (run o callbacks r op)) := by
      rw [hmoves.events]
      exact sound_run (by dsimp only [eventSetting]; omega) hsound' _
    obtain ⟨hrest, hrest', hraised⟩ := ih hnext hnext'
    rw [after_cons, List.flatMap_cons, List.flatMap_cons, after_append, after_append,
      ← hmoves.telemetry, ← hmoves.events, hrest, hrest', hraised, hmoves.raised]
    exact ⟨rfl, rfl, rfl⟩

end Simulation

/-! ### Both queues -/

/-- The record of a queue agrees with the frames that have arrived: what was consumed and what is
queued are the arrivals in order without the dropped ones, and the counter is right. -/
structure Delivers {ε : Type} (maxsize : ℤ) (arrived : List ε) (target : List ε) (dropped : ℕ)
    (book : Book ε) : Prop where
  bounded : target.length ≤ maxsize
  offered : book.offered = arrived
  ordered : arrived = book.departed.map Prod.snd ++ target
  lost : dropped = (book.withFate .lost).length
  counted : arrived.length = (book.withFate .sent).length + target.length + dropped

theorem delivers_of_run {ε κ : Type} {S : Setting ε κ} {maxsize : ℤ} (hsize : 1 ≤ maxsize)
    (hS : S.size = maxsize.toNat) (as : List (Action ε)) :
    let q := after (step S) {} as
    Delivers maxsize (arrivals as) q.held q.dropped q.book := by
  intro q
  obtain ⟨hroom, hoffered, hordered, -, hlost, hcounted⟩ := run_sound (S := S) (by omega) as
  have hbounded : (q.held.length : ℤ) ≤ maxsize := by
    change q.held.length ≤ S.size at hroom
    omega
  exact ⟨hbounded, hoffered, hoffered ▸ hordered, hlost, hcounted⟩

/-- The frames that arrive in a run, in order. -/
def telemetryArrivals (ops : List Operation) : List TelemetryFrame :=
  ops.flatMap fun
    | .handle packet => (telemetryFrame packet).toList
    | _ => []

def eventArrivals (ops : List Operation) : List EdgeEvent :=
  ops.flatMap fun
    | .handle packet => (edgeEvent packet).toList
    | _ => []

theorem arrivals_arrive {ε : Type} (items : List ε) : arrivals (items.map .arrive) = items := by
  induction items with
  | nil => rfl
  | cons item items ih =>
    change item :: arrivals (items.map .arrive) = item :: items
    rw [ih]

theorem arrivals_append {ε : Type} (before later : List (Action ε)) :
    arrivals (before ++ later) = arrivals before ++ arrivals later := List.filterMap_append

theorem arrivals_telemetry (ops : List Operation) :
    arrivals (ops.flatMap telemetryActions) = telemetryArrivals ops := by
  induction ops with
  | nil => rfl
  | cons op ops ih =>
    rw [List.flatMap_cons, arrivals_append, ih, telemetryArrivals, telemetryArrivals,
      List.flatMap_cons]
    cases op with
    | handle packet => rw [telemetryActions, arrivals_arrive]
    | getTelemetry => rfl
    | getEvent => rfl

theorem arrivals_events (ops : List Operation) :
    arrivals (ops.flatMap eventActions) = eventArrivals ops := by
  induction ops with
  | nil => rfl
  | cons op ops ih =>
    rw [List.flatMap_cons, arrivals_append, ih, eventArrivals, eventArrivals, List.flatMap_cons]
    cases op with
    | handle packet => rw [eventActions, arrivals_arrive]
    | getTelemetry => rfl
    | getEvent => rfl

/-- What a step takes from either queue. -/
def TakesOldest (o : Options) (callbacks : Callbacks) (r : Recorded) (op : Operation) : Prop :=
  OldestLeaves o.telemetryMaxFrames.toNat r.client.telemetryQueue r.telemetry.book
      (run o callbacks r op).telemetry.book ∧
    OldestLeaves o.eventMaxFrames.toNat r.client.eventQueue r.events.book
      (run o callbacks r op).events.book

theorem oldestLeaves_actions {ε κ : Type} {S : Setting ε κ} {q : Queue ε} (h : Sound S q)
    {as : List (Action ε)} (has : as.length ≤ 1) :
    OldestLeaves S.size q.held q.book (after (step S) q as).book := by
  cases as with
  | nil => exact Or.inl rfl
  | cons a as =>
    cases as with
    | nil => exact losesOldest h a
    | cons a' as =>
      simp only [List.length_cons] at has
      omega

section Runs

variable {o : Options} {callbacks : Callbacks}

theorem runs_from_start (htelemetry : 1 ≤ o.telemetryMaxFrames) (hevents : 1 ≤ o.eventMaxFrames)
    (ops : List Operation) :
    telemetryQueue (after (run o callbacks) {} ops) =
        after (step (telemetrySetting o callbacks)) {} (ops.flatMap telemetryActions) ∧
      eventQueue (after (run o callbacks) {} ops) =
        after (step (eventSetting o callbacks)) {} (ops.flatMap eventActions) ∧
      (after (run o callbacks) {} ops).raised = false :=
  runs htelemetry hevents (sound_empty (telemetrySetting o callbacks))
    (sound_empty (eventSetting o callbacks)) ops

theorem takes_oldest (htelemetry : 1 ≤ o.telemetryMaxFrames) (hevents : 1 ≤ o.eventMaxFrames)
    (before : List Operation) (op : Operation) :
    TakesOldest o callbacks (after (run o callbacks) {} before) op := by
  obtain ⟨htele, heve, -⟩ := @runs_from_start o callbacks htelemetry hevents before
  have hsound : Sound (telemetrySetting o callbacks)
      (telemetryQueue (after (run o callbacks) {} before)) := by
    rw [htele]
    exact sound_after (by dsimp only [telemetrySetting]; omega) _
  have hsound' : Sound (eventSetting o callbacks)
      (eventQueue (after (run o callbacks) {} before)) := by
    rw [heve]
    exact sound_after (by dsimp only [eventSetting]; omega) _
  have hmoves := @moves o callbacks _ htelemetry hevents hsound.room hsound'.room op
  constructor
  · have hlength : (telemetryActions op).length ≤ 1 := by
      cases op with
      | handle packet =>
        rw [telemetryActions, List.length_map]
        cases telemetryFrame packet <;> simp
      | getTelemetry => exact le_rfl
      | getEvent => exact Nat.zero_le _
    have hleaves := oldestLeaves_actions hsound hlength
    rw [← hmoves.telemetry] at hleaves
    exact hleaves
  · have hlength : (eventActions op).length ≤ 1 := by
      cases op with
      | handle packet =>
        rw [eventActions, List.length_map]
        cases edgeEvent packet <;> simp
      | getTelemetry => exact Nat.zero_le _
      | getEvent => exact le_rfl
    have hleaves := oldestLeaves_actions hsound' hlength
    rw [← hmoves.events] at hleaves
    exact hleaves

end Runs

/-- Over every run of packets and consumers, whatever the callbacks are: `_put_bounded` never
raises, both queues deliver what has arrived and lose only their oldest frame and only when they
are full, and every callback has been called once for every frame it is registered for, in
order. -/
theorem async_queues_deliver (o : Options) (callbacks : Callbacks)
    (htelemetry : 1 ≤ o.telemetryMaxFrames) (hevents : 1 ≤ o.eventMaxFrames)
    (ops : List Operation) :
    let r := after (run o callbacks) {} ops
    r.raised = false ∧
      Delivers o.telemetryMaxFrames (telemetryArrivals ops) r.client.telemetryQueue
        r.client.telemetryDropped r.telemetry.book ∧
      Delivers o.eventMaxFrames (eventArrivals ops) r.client.eventQueue r.client.eventsDropped
        r.events.book ∧
      EachStep (run o callbacks) (TakesOldest o callbacks) {} ops ∧
      (∀ place < callbacks.telemetry.length,
        told (telemetrySetting o callbacks) () place r.telemetry.called =
          telemetryArrivals ops) ∧
      ∀ key, ∀ place < (callbacks.edge key).length,
        told (eventSetting o callbacks) key place r.events.called =
          (eventArrivals ops).filter fun event => EdgeEvent.key event = key := by
  intro r
  obtain ⟨htele, heve, hraised⟩ := @runs_from_start o callbacks htelemetry hevents ops
  have htelemetry' := delivers_of_run (S := telemetrySetting o callbacks) htelemetry rfl
    (ops.flatMap telemetryActions)
  have hevents' := delivers_of_run (S := eventSetting o callbacks) hevents rfl
    (ops.flatMap eventActions)
  rw [← htele, arrivals_telemetry] at htelemetry'
  rw [← heve, arrivals_events] at hevents'
  refine ⟨hraised, htelemetry', hevents', ?_, fun place hplace => ?_, fun key place hplace => ?_⟩
  · rw [eachStep_iff]
    intro before op later _
    exact takes_oldest htelemetry hevents before op
  · have htold := @told_after _ _ (telemetrySetting o callbacks) _ () place hplace {}
      (ops.flatMap telemetryActions)
    rw [← htele, arrivals_telemetry] at htold
    refine htold.trans ?_
    exact List.filter_eq_self.mpr fun _ _ => rfl
  · have htold := @told_after _ _ (eventSetting o callbacks) _ key place hplace {}
      (ops.flatMap eventActions)
    rw [← heve, arrivals_events] at htold
    exact htold

def telemetryPacket (value : UInt8) : Packet := ⟨.telemetry, 0, [1, 5, value, 0, 0, 0]⟩

def threeFrames : List Operation :=
  [.handle (telemetryPacket 1), .handle (telemetryPacket 2), .handle (telemetryPacket 3),
    .getTelemetry]

/-- Two places: the first of three frames is dropped, and the callback sees all of them. -/
theorem oldest_frame_dropped :
    let r := after (run { telemetryMaxFrames := 2 } { telemetry := [7] }) {} threeFrames
    r.raised = false ∧ r.client.telemetryDropped = 1 ∧
      (r.telemetry.book.withFate .lost).map TelemetryFrame.value = [1] ∧
      (r.telemetry.called.map fun c => c.item.value) = [1, 2, 3] := by
  intro r
  obtain ⟨hraised, htelemetry, -, -, -, -⟩ :=
    async_queues_deliver { telemetryMaxFrames := 2 } { telemetry := [7] } (by decide) (by decide)
      threeFrames
  exact ⟨hraised, htelemetry.lost.trans (by decide +kernel), by decide +kernel, by decide +kernel⟩

end AsyncQueues
