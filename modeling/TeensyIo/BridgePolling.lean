import TeensyIo.AsyncQueues
import TeensyIo.BridgeNames
import TeensyIo.ServedQueues

/-! # What the ROS bridge publishes

`_poll` takes what the client has received and publishes at most a thousand frames of each kind.
Between the polls the services run, which may receive frames too and change the names. -/
namespace BridgePolling

open HostProtocol HostClient AsyncQueues BridgeNames BoundedQueues DropOldestQueues ServedQueues
open MachineRuns ArrivalCurves
open AsyncQueues (run)

/-- `max_publish_per_poll`. -/
def maxPublishPerPoll : ℕ := 1000

structure BridgeStatus where
  connected : Bool
  emergencyStopActive : Bool
  telemetryDropped : ℕ
  eventsDropped : ℕ
  firmwareVersion : String
  message : String

/-- The bridge with its client and with what it has published, in order. -/
structure Node where
  client : Recorded := {}
  bridge : Bridge := {}
  version : String := ""
  telemetry : List TelemetryMessage := []
  events : List EdgeMessage := []
  statuses : List BridgeStatus := []

def publishStatus (n : Node) (isOpen : Bool) : Node :=
  { n with
    statuses := n.statuses ++
      [{ connected := isOpen, emergencyStopActive := false
         telemetryDropped := n.client.client.telemetryDropped
         eventsDropped := n.client.client.eventsDropped
         firmwareVersion := n.version, message := "ok" }] }

section Steps

variable (o : Options) (callbacks : Callbacks)

def receive (n : Node) (packets : List Packet) : Node :=
  { n with client := after (run o callbacks) n.client (packets.map .handle) }

/-- The first loop of `_poll`, with this many messages to go. -/
def publishTelemetry : ℕ → Node → Node
  | 0, n => n
  | left + 1, n =>
    match getNowait n.client.client.telemetryQueue with
    | .error _ => n
    | .ok (frame, _) =>
      publishTelemetry left
        { n with
          client := run o callbacks n.client .getTelemetry
          telemetry := n.telemetry ++ [telemetryMessage n.bridge frame] }

/-- The second loop. -/
def publishEvents : ℕ → Node → Node
  | 0, n => n
  | left + 1, n =>
    match getNowait n.client.client.eventQueue with
    | .error _ => n
    | .ok (event, _) =>
      publishEvents left
        { n with
          client := run o callbacks n.client .getEvent
          events := n.events ++ [edgeMessage n.bridge event] }

/-- `_poll` where `_poll_async_packets` handles these packets. -/
def poll (n : Node) (packets : List Packet) : Node :=
  publishEvents o callbacks maxPublishPerPoll
    (publishTelemetry o callbacks maxPublishPerPoll (receive o callbacks n packets))

/-- A service leaves the bridge with the names it has afterwards. -/
inductive Act where
  | poll (packets : List Packet)
  | service (packets : List Packet) (bridge : Bridge)
  | status (isOpen : Bool)

def step (n : Node) : Act → Node
  | .poll packets => poll o callbacks n packets
  | .service packets bridge => { receive o callbacks n packets with bridge := bridge }
  | .status isOpen => publishStatus n isOpen

end Steps

/-! ### The client's part -/

/-- What an act does to the client. -/
def operations : Act → List Operation
  | .poll packets => packets.map .handle ++
      (List.replicate maxPublishPerPoll .getTelemetry ++
        List.replicate maxPublishPerPoll .getEvent)
  | .service packets _ => packets.map .handle
  | .status _ => []

def telemetryTurns : Act → List (Turn TelemetryFrame)
  | .poll packets => (packets.filterMap telemetryFrame).map .arrive ++ [.serve]
  | .service packets _ => (packets.filterMap telemetryFrame).map .arrive
  | .status _ => []

def eventTurns : Act → List (Turn EdgeEvent)
  | .poll packets => (packets.filterMap edgeEvent).map .arrive ++ [.serve]
  | .service packets _ => (packets.filterMap edgeEvent).map .arrive
  | .status _ => []

section Clients

variable {o : Options} {callbacks : Callbacks}

theorem after_getTelemetry (r : Recorded) (n : ℕ) (hempty : r.client.telemetryQueue = []) :
    after (run o callbacks) r (List.replicate n .getTelemetry) = r := by
  have hrun : run o callbacks r .getTelemetry = r := by rw [run, hempty, getNowait]
  induction n with
  | zero => rfl
  | succ n ih => rw [List.replicate_succ, after_cons, hrun, ih]

theorem after_getEvent (r : Recorded) (n : ℕ) (hempty : r.client.eventQueue = []) :
    after (run o callbacks) r (List.replicate n .getEvent) = r := by
  have hrun : run o callbacks r .getEvent = r := by rw [run, hempty, getNowait]
  induction n with
  | zero => rfl
  | succ n ih => rw [List.replicate_succ, after_cons, hrun, ih]

/-- The loop is so many calls of `get_nowait` and a message for each frame they return. -/
theorem publishTelemetry_eq (left : ℕ) (n : Node) :
    publishTelemetry o callbacks left n =
      { n with
        client := after (run o callbacks) n.client (List.replicate left .getTelemetry)
        telemetry := n.telemetry ++
          (n.client.client.telemetryQueue.take left).map (telemetryMessage n.bridge) } := by
  induction left generalizing n with
  | zero =>
    rw [publishTelemetry, List.take_zero, List.map_nil, List.append_nil]
    rfl
  | succ left ih =>
    cases hqueue : n.client.client.telemetryQueue with
    | nil =>
      rw [publishTelemetry, hqueue, after_getTelemetry _ _ hqueue, List.take_nil, List.map_nil,
        List.append_nil]
      rfl
    | cons frame queue =>
      have hrun : (run o callbacks n.client .getTelemetry).client.telemetryQueue = queue := by
        rw [run, hqueue, getNowait]
      rw [publishTelemetry, hqueue, getNowait]
      dsimp only
      rw [ih]
      dsimp only
      rw [hrun, List.replicate_succ, after_cons, List.take_succ_cons, List.map_cons,
        List.append_assoc, List.singleton_append]

theorem publishEvents_eq (left : ℕ) (n : Node) :
    publishEvents o callbacks left n =
      { n with
        client := after (run o callbacks) n.client (List.replicate left .getEvent)
        events := n.events ++
          (n.client.client.eventQueue.take left).map (edgeMessage n.bridge) } := by
  induction left generalizing n with
  | zero =>
    rw [publishEvents, List.take_zero, List.map_nil, List.append_nil]
    rfl
  | succ left ih =>
    cases hqueue : n.client.client.eventQueue with
    | nil =>
      rw [publishEvents, hqueue, after_getEvent _ _ hqueue, List.take_nil, List.map_nil,
        List.append_nil]
      rfl
    | cons event queue =>
      have hrun : (run o callbacks n.client .getEvent).client.eventQueue = queue := by
        rw [run, hqueue, getNowait]
      rw [publishEvents, hqueue, getNowait]
      dsimp only
      rw [ih]
      dsimp only
      rw [hrun, List.replicate_succ, after_cons, List.take_succ_cons, List.map_cons,
        List.append_assoc, List.singleton_append]

theorem step_client (n : Node) (act : Act) :
    (step o callbacks n act).client = after (run o callbacks) n.client (operations act) := by
  cases act with
  | poll packets =>
    rw [step, poll, operations]
    generalize maxPublishPerPoll = limit
    rw [publishEvents_eq, publishTelemetry_eq, after_append, after_append]
    rfl
  | service packets bridge => rfl
  | status isOpen => rfl

theorem after_client (n : Node) (acts : List Act) :
    (after (step o callbacks) n acts).client =
      after (run o callbacks) n.client (acts.flatMap operations) := by
  induction acts generalizing n with
  | nil => rfl
  | cons act acts ih => rw [after_cons, ih, step_client, List.flatMap_cons, after_append]

/-! ### The queues' part -/

theorem handle_telemetryActions (packets : List Packet) :
    (packets.map Operation.handle).flatMap telemetryActions =
      (packets.filterMap telemetryFrame).map .arrive := by
  induction packets with
  | nil => rfl
  | cons packet packets ih =>
    rw [List.map_cons, List.flatMap_cons, ih, telemetryActions]
    cases hframe : telemetryFrame packet with
    | none =>
      rw [List.filterMap_cons_none hframe]
      rfl
    | some frame =>
      rw [List.filterMap_cons_some hframe]
      rfl

theorem handle_eventActions (packets : List Packet) :
    (packets.map Operation.handle).flatMap eventActions =
      (packets.filterMap edgeEvent).map .arrive := by
  induction packets with
  | nil => rfl
  | cons packet packets ih =>
    rw [List.map_cons, List.flatMap_cons, ih, eventActions]
    cases hevent : edgeEvent packet with
    | none =>
      rw [List.filterMap_cons_none hevent]
      rfl
    | some event =>
      rw [List.filterMap_cons_some hevent]
      rfl

theorem replicate_actions (n : ℕ) :
    (List.replicate n Operation.getTelemetry).flatMap telemetryActions =
        List.replicate n Action.take ∧
      (List.replicate n Operation.getEvent).flatMap telemetryActions = [] ∧
      (List.replicate n Operation.getTelemetry).flatMap eventActions = [] ∧
      (List.replicate n Operation.getEvent).flatMap eventActions =
        List.replicate n Action.take := by
  induction n with
  | zero => exact ⟨rfl, rfl, rfl, rfl⟩
  | succ n ih =>
    obtain ⟨htake, hnone, hnone', htake'⟩ := ih
    simp only [List.replicate_succ, List.flatMap_cons, htake, hnone, hnone', htake']
    exact ⟨rfl, rfl, rfl, rfl⟩

theorem turnActions_arrive {ε : Type} (rate : ℕ) (items : List ε) :
    (items.map Turn.arrive).flatMap (turnActions rate) = items.map .arrive := by
  induction items with
  | nil => rfl
  | cons item items ih =>
    rw [List.map_cons, List.flatMap_cons, ih]
    rfl

theorem telemetryTurns_actions (act : Act) :
    (telemetryTurns act).flatMap (turnActions maxPublishPerPoll) =
      (operations act).flatMap telemetryActions := by
  cases act with
  | poll packets =>
    rw [telemetryTurns, operations]
    generalize maxPublishPerPoll = limit
    obtain ⟨htake, hnone, -, -⟩ := replicate_actions limit
    rw [List.flatMap_append, turnActions_arrive, List.flatMap_singleton, List.flatMap_append,
      handle_telemetryActions, List.flatMap_append, htake, hnone, List.append_nil]
    rfl
  | service packets bridge =>
    rw [telemetryTurns, operations, turnActions_arrive, handle_telemetryActions]
  | status isOpen => rfl

theorem eventTurns_actions (act : Act) :
    (eventTurns act).flatMap (turnActions maxPublishPerPoll) =
      (operations act).flatMap eventActions := by
  cases act with
  | poll packets =>
    rw [eventTurns, operations]
    generalize maxPublishPerPoll = limit
    obtain ⟨-, -, hnone, htake⟩ := replicate_actions limit
    rw [List.flatMap_append, turnActions_arrive, List.flatMap_singleton, List.flatMap_append,
      handle_eventActions, List.flatMap_append, htake, hnone, List.nil_append]
    rfl
  | service packets bridge =>
    rw [eventTurns, operations, turnActions_arrive, handle_eventActions]
  | status isOpen => rfl

/-- The client's queue of telemetry is one that `_poll` serves. -/
theorem telemetryQueue_served (htelemetry : 1 ≤ o.telemetryMaxFrames)
    (hevents : 1 ≤ o.eventMaxFrames) (acts : List Act) :
    telemetryQueue (after (step o callbacks) {} acts).client =
      (after (turn (telemetrySetting o callbacks) maxPublishPerPoll) {}
        (acts.flatMap telemetryTurns)).queue := by
  obtain ⟨hqueue, -, -⟩ := @runs_from_start o callbacks htelemetry hevents
    (acts.flatMap operations)
  rw [after_client, turn_queue, hqueue, List.flatMap_assoc, List.flatMap_assoc]
  simp only [telemetryTurns_actions]

theorem eventQueue_served (htelemetry : 1 ≤ o.telemetryMaxFrames)
    (hevents : 1 ≤ o.eventMaxFrames) (acts : List Act) :
    eventQueue (after (step o callbacks) {} acts).client =
      (after (turn (eventSetting o callbacks) maxPublishPerPoll) {}
        (acts.flatMap eventTurns)).queue := by
  obtain ⟨-, hqueue, -⟩ := @runs_from_start o callbacks htelemetry hevents
    (acts.flatMap operations)
  rw [after_client, turn_queue, hqueue, List.flatMap_assoc, List.flatMap_assoc]
  simp only [eventTurns_actions]

end Clients

/-! ### What is published -/

/-- The message says what the frame says, under whatever name. -/
structure ShowsFrame (message : TelemetryMessage) (frame : TelemetryFrame) : Prop where
  kind : message.kind = frame.kind.toByte
  resourceId : message.resourceId = frame.resourceId
  value : message.value = frame.value
  valueFloat : message.valueFloat = frame.value

structure ShowsEvent (message : EdgeMessage) (event : EdgeEvent) : Prop where
  kind : message.kind = event.kind.toByte
  resourceId : message.resourceId = event.resourceId
  value : message.value = event.value
  timestamp : message.firmwareTimestampUs = event.timestampUs

theorem telemetryMessage_shows (b : Bridge) (frames : List TelemetryFrame) :
    List.Forall₂ ShowsFrame (frames.map (telemetryMessage b)) frames := by
  rw [List.forall₂_map_left_iff, List.forall₂_same]
  exact fun frame _ => ⟨rfl, rfl, rfl, rfl⟩

theorem edgeMessage_shows (b : Bridge) (events : List EdgeEvent) :
    List.Forall₂ ShowsEvent (events.map (edgeMessage b)) events := by
  rw [List.forall₂_map_left_iff, List.forall₂_same]
  exact fun event _ => ⟨rfl, rfl, rfl, rfl⟩

/-- The queues are sound, and what has been taken from them has been published. -/
structure Kept (o : Options) (callbacks : Callbacks) (n : Node) : Prop where
  telemetrySound : Sound (telemetrySetting o callbacks) (telemetryQueue n.client)
  eventSound : Sound (eventSetting o callbacks) (eventQueue n.client)
  telemetry : List.Forall₂ ShowsFrame n.telemetry (n.client.telemetry.book.withFate .sent)
  events : List.Forall₂ ShowsEvent n.events (n.client.events.book.withFate .sent)

section Publishing

variable {o : Options} {callbacks : Callbacks}

theorem sent_arrive {ε κ : Type} {S : Setting ε κ} (q : Queue ε) (items : List ε) :
    (after (DropOldestQueues.step S) q (items.map .arrive)).book.withFate .sent =
      q.book.withFate .sent := by
  induction items generalizing q with
  | nil => rfl
  | cons item items ih =>
    rw [List.map_cons, after_cons, ih]
    exact Book.withFate_depart_of_ne (by decide) _

theorem sent_serve {ε κ : Type} {S : Setting ε κ} (q : Queue ε) (items : List ε) (n : ℕ) :
    let arrived := after (DropOldestQueues.step S) q (items.map .arrive)
    (after (DropOldestQueues.step S) q (items.map .arrive ++ List.replicate n .take)).book.withFate
        .sent = q.book.withFate .sent ++ arrived.held.take n := by
  intro arrived
  rw [after_append, after_takes, Book.withFate_depart_self, sent_arrive]

theorem kept_step (htelemetry : 1 ≤ o.telemetryMaxFrames) (hevents : 1 ≤ o.eventMaxFrames)
    {n : Node} (h : Kept o callbacks n) (act : Act) :
    Kept o callbacks (step o callbacks n act) := by
  have hruns := fun ops => @runs o callbacks _ htelemetry hevents h.telemetrySound
    h.eventSound ops
  obtain ⟨htele, heve, -⟩ := hruns (operations act)
  rw [← step_client n act] at htele heve
  have hsound : Sound (telemetrySetting o callbacks)
      (telemetryQueue (step o callbacks n act).client) := by
    rw [htele]
    exact sound_run (by dsimp only [telemetrySetting]; omega) h.telemetrySound _
  have hsound' : Sound (eventSetting o callbacks) (eventQueue (step o callbacks n act).client) := by
    rw [heve]
    exact sound_run (by dsimp only [eventSetting]; omega) h.eventSound _
  refine ⟨hsound, hsound', ?_, ?_⟩
  · cases act with
    | poll packets =>
      obtain ⟨hreceived, -, -⟩ := hruns (packets.map .handle)
      rw [handle_telemetryActions] at hreceived
      have hsent :
          (telemetryQueue (step o callbacks n (.poll packets)).client).book.withFate .sent =
            n.client.telemetry.book.withFate .sent ++
              (receive o callbacks n packets).client.client.telemetryQueue.take
                maxPublishPerPoll := by
        obtain ⟨htake, hnone, -, -⟩ := replicate_actions maxPublishPerPoll
        rw [htele, operations, List.flatMap_append, handle_telemetryActions, List.flatMap_append,
          htake, hnone, List.append_nil, sent_serve, ← hreceived]
        rfl
      have hpublished : (step o callbacks n (.poll packets)).telemetry = n.telemetry ++
          ((receive o callbacks n packets).client.client.telemetryQueue.take
            maxPublishPerPoll).map (telemetryMessage n.bridge) := by
        rw [step, poll]
        generalize maxPublishPerPoll = limit
        rw [publishEvents_eq, publishTelemetry_eq]
        rfl
      rw [hpublished]
      exact hsent ▸ List.rel_append h.telemetry (telemetryMessage_shows n.bridge _)
    | service packets bridge =>
      have hsent := sent_arrive (S := telemetrySetting o callbacks) (telemetryQueue n.client)
        (packets.filterMap telemetryFrame)
      rw [← handle_telemetryActions] at hsent
      rw [operations] at htele
      rw [← htele] at hsent
      exact hsent ▸ h.telemetry
    | status isOpen => exact h.telemetry
  · cases act with
    | poll packets =>
      have hreceived : eventQueue (after (run o callbacks) (receive o callbacks n packets).client
          (List.replicate maxPublishPerPoll .getTelemetry)) =
          after (DropOldestQueues.step (eventSetting o callbacks)) (eventQueue n.client)
            ((packets.filterMap edgeEvent).map .arrive) := by
        obtain ⟨-, hqueue, -⟩ := hruns
          (packets.map .handle ++ List.replicate maxPublishPerPoll .getTelemetry)
        obtain ⟨-, -, hnone, -⟩ := replicate_actions maxPublishPerPoll
        rw [List.flatMap_append, handle_eventActions, hnone, List.append_nil,
          after_append] at hqueue
        exact hqueue
      have hsent : (eventQueue (step o callbacks n (.poll packets)).client).book.withFate .sent =
          n.client.events.book.withFate .sent ++
            (after (run o callbacks) (receive o callbacks n packets).client
              (List.replicate maxPublishPerPoll .getTelemetry)).client.eventQueue.take
                maxPublishPerPoll := by
        obtain ⟨-, -, hnone, htake⟩ := replicate_actions maxPublishPerPoll
        rw [heve, operations, List.flatMap_append, handle_eventActions, List.flatMap_append, hnone,
          htake, List.nil_append, sent_serve, ← hreceived]
        generalize after (run o callbacks) _ _ = r
        rfl
      have hpublished : (step o callbacks n (.poll packets)).events = n.events ++
          ((after (run o callbacks) (receive o callbacks n packets).client
            (List.replicate maxPublishPerPoll .getTelemetry)).client.eventQueue.take
              maxPublishPerPoll).map (edgeMessage n.bridge) := by
        rw [step, poll]
        generalize maxPublishPerPoll = limit
        rw [publishEvents_eq, publishTelemetry_eq]
        rfl
      rw [hpublished]
      exact hsent ▸ List.rel_append h.events (edgeMessage_shows n.bridge _)
    | service packets bridge =>
      have hsent := sent_arrive (S := eventSetting o callbacks) (eventQueue n.client)
        (packets.filterMap edgeEvent)
      rw [← handle_eventActions] at hsent
      rw [operations] at heve
      rw [← heve] at hsent
      exact hsent ▸ h.events
    | status isOpen => exact h.events

theorem kept_after (htelemetry : 1 ≤ o.telemetryMaxFrames) (hevents : 1 ≤ o.eventMaxFrames)
    (acts : List Act) : Kept o callbacks (after (step o callbacks) {} acts) := by
  have hstart : Kept o callbacks {} :=
    ⟨sound_empty (telemetrySetting o callbacks), sound_empty (eventSetting o callbacks), .nil, .nil⟩
  exact after_preserves (I := Kept o callbacks)
    (fun n act h => kept_step htelemetry hevents h act) hstart acts

end Publishing

/-- What has arrived has been published in order, waits or is counted as dropped. -/
structure Accounted {μ ε : Type} (shows : μ → ε → Prop) (arrived waiting : List ε) (dropped : ℕ)
    (book : Book ε) (published : List μ) : Prop where
  ordered : arrived = book.departed.map Prod.snd ++ waiting
  shown : List.Forall₂ shows published (book.withFate .sent)
  lost : dropped = (book.withFate .lost).length
  counted : arrived.length = published.length + waiting.length + dropped

/-- A poll publishes a thousand messages of a kind at most, and a status reports how many frames
have been lost. -/
def Reports (o : Options) (callbacks : Callbacks) (n : Node) : Act → Prop
  | .poll packets =>
    (poll o callbacks n packets).telemetry.length ≤ n.telemetry.length + maxPublishPerPoll ∧
      (poll o callbacks n packets).events.length ≤ n.events.length + maxPublishPerPoll
  | .service packets bridge =>
    (step o callbacks n (.service packets bridge)).telemetry = n.telemetry ∧
      (step o callbacks n (.service packets bridge)).events = n.events
  | .status isOpen =>
    ∃ status, (publishStatus n isOpen).statuses = n.statuses ++ [status] ∧
      status.telemetryDropped = (n.client.telemetry.book.withFate .lost).length ∧
      status.eventsDropped = (n.client.events.book.withFate .lost).length

section Runs

variable {o : Options} {callbacks : Callbacks}

theorem poll_published (n : Node) (packets : List Packet) :
    (poll o callbacks n packets).telemetry.length ≤ n.telemetry.length + maxPublishPerPoll ∧
      (poll o callbacks n packets).events.length ≤ n.events.length + maxPublishPerPoll := by
  rw [poll]
  generalize maxPublishPerPoll = limit
  rw [publishEvents_eq, publishTelemetry_eq]
  dsimp only
  constructor
  · rw [List.length_append, List.length_map]
    exact Nat.add_le_add (Nat.le_refl _) (List.length_take_le _ _)
  · rw [List.length_append, List.length_map]
    exact Nat.add_le_add (Nat.le_refl _) (List.length_take_le _ _)

theorem Kept.reports {n : Node} (h : Kept o callbacks n) (act : Act) :
    Reports o callbacks n act := by
  cases act with
  | poll packets => exact poll_published n packets
  | service packets bridge => exact ⟨rfl, rfl⟩
  | status isOpen => exact ⟨_, rfl, h.telemetrySound.dropped, h.eventSound.dropped⟩

theorem accounted {μ ε κ : Type} {shows : μ → ε → Prop} {S : Setting ε κ} {q : Queue ε}
    {arrived : List ε} {published : List μ} (hsound : Sound S q)
    (harrived : q.book.offered = arrived)
    (hpublished : List.Forall₂ shows published (q.book.withFate .sent)) :
    Accounted shows arrived q.held q.dropped q.book published := by
  have hcount := hsound.balanced.count
  refine ⟨harrived ▸ hsound.balanced, hpublished, hsound.dropped, ?_⟩
  rw [← harrived, hcount, hpublished.length_eq, hsound.dropped]

end Runs

/-- Along every run of polls and services each frame that arrives is published once, in the order
of arrival and with what it says, or is counted as dropped, or waits. -/
theorem published_once (o : Options) (callbacks : Callbacks)
    (htelemetry : 1 ≤ o.telemetryMaxFrames) (hevents : 1 ≤ o.eventMaxFrames) (acts : List Act) :
    let n := after (step o callbacks) {} acts
    Accounted ShowsFrame (telemetryArrivals (acts.flatMap operations))
        n.client.client.telemetryQueue n.client.client.telemetryDropped n.client.telemetry.book
        n.telemetry ∧
      Accounted ShowsEvent (eventArrivals (acts.flatMap operations))
        n.client.client.eventQueue n.client.client.eventsDropped n.client.events.book n.events ∧
      EachStep (step o callbacks) (Reports o callbacks) {} acts := by
  intro n
  have hkept : Kept o callbacks n := kept_after htelemetry hevents acts
  obtain ⟨htele, heve, -⟩ := @runs_from_start o callbacks htelemetry hevents
    (acts.flatMap operations)
  have hclient : n.client = after (run o callbacks) {} (acts.flatMap operations) :=
    after_client {} acts
  rw [← hclient] at htele heve
  refine ⟨accounted hkept.telemetrySound ?_ hkept.telemetry,
    accounted hkept.eventSound ?_ hkept.events, ?_⟩
  · rw [htele, offered_after, arrivals_telemetry]
    rfl
  · rw [heve, offered_after, arrivals_events]
    rfl
  · rw [eachStep_iff]
    intro before act later _
    exact (kept_after htelemetry hevents before).reports act

/-- Two places for three frames: the first is dropped and the others are published. -/
theorem two_of_three_published :
    let o : Options := { telemetryMaxFrames := 2 }
    let acts : List Act :=
      [.service [telemetryPacket 1, telemetryPacket 2, telemetryPacket 3] {}, .poll []]
    let n := after (step o {}) {} acts
    n.client.client.telemetryDropped = 1 ∧
      (n.telemetry.map fun message => message.value) = [2, 3] ∧
      Accounted ShowsFrame (telemetryArrivals (acts.flatMap operations))
        n.client.client.telemetryQueue n.client.client.telemetryDropped n.client.telemetry.book
        n.telemetry := by
  intro o acts n
  exact ⟨by decide +kernel, by decide +kernel,
    (published_once o {} (by decide) (by decide) acts).1⟩

/-- The messages begin with these frames. -/
def ShownFirst {μ ε : Type} (shows : μ → ε → Prop) (published : List μ) (arrived : List ε) : Prop :=
  List.Forall₂ shows (published.take arrived.length) arrived

theorem shownFirst_of_taken {μ ε : Type} {shows : μ → ε → Prop} {published : List μ}
    {sent arrived : List ε} (hshown : List.Forall₂ shows published sent)
    (hsent : arrived <+: sent) : ShownFirst shows published arrived := by
  rw [ShownFirst]
  conv => rhs; rw [List.prefix_iff_eq_take.mp hsent]
  exact List.forall₂_take arrived.length hshown

def polls (acts : List Act) : ℕ :=
  acts.countP fun
    | .poll _ => true
    | _ => false

theorem serves_append {ε : Type} (turns later : List (Turn ε)) :
    serves (turns ++ later) = serves turns + serves later := List.countP_append

theorem serves_arrive {ε : Type} (items : List ε) : serves (items.map Turn.arrive) = 0 := by
  induction items with
  | nil => rfl
  | cons item items ih => exact ih

theorem serves_turns (acts : List Act) :
    serves (acts.flatMap telemetryTurns) = polls acts ∧
      serves (acts.flatMap eventTurns) = polls acts := by
  induction acts with
  | nil => exact ⟨rfl, rfl⟩
  | cons act acts ih =>
    obtain ⟨htelemetry, hevents⟩ := ih
    rw [List.flatMap_cons, List.flatMap_cons, serves_append, serves_append, htelemetry, hevents]
    cases act with
    | poll packets =>
      have hpolls : polls (.poll packets :: acts) = 0 + 1 + polls acts :=
        (List.countP_cons_of_pos rfl).trans (Nat.add_comm _ _)
      rw [telemetryTurns, eventTurns, serves_append, serves_append, serves_arrive, serves_arrive,
        hpolls]
      exact ⟨rfl, rfl⟩
    | service packets bridge =>
      rw [telemetryTurns, eventTurns, serves_arrive, serves_arrive, Nat.zero_add]
      exact ⟨rfl, rfl⟩
    | status isOpen => exact ⟨Nat.zero_add _, Nat.zero_add _⟩

/-- If the frames of each kind that arrive keep to a thousand for each poll, apart from a burst for
which there is room, none is dropped, and after the polls that it takes to publish the burst all
that had arrived is published. -/
theorem polling_keeps_up (o : Options) (callbacks : Callbacks) {burst : ℕ}
    (htelemetry : (maxPublishPerPoll + burst : ℕ) ≤ o.telemetryMaxFrames)
    (hevents : (maxPublishPerPoll + burst : ℕ) ≤ o.eventMaxFrames) (before later : List Act)
    (hcurve : Constrained maxPublishPerPoll burst
      (rounds 0 ((before ++ later).flatMap telemetryTurns)))
    (hcurve' : Constrained maxPublishPerPoll burst
      (rounds 0 ((before ++ later).flatMap eventTurns))) :
    let n := after (step o callbacks) {} (before ++ later)
    n.client.client.telemetryDropped = 0 ∧ n.client.client.eventsDropped = 0 ∧
      (maxPublishPerPoll + burst ≤ maxPublishPerPoll * polls later →
        ShownFirst ShowsFrame n.telemetry (telemetryArrivals (before.flatMap operations)) ∧
        ShownFirst ShowsEvent n.events (eventArrivals (before.flatMap operations))) := by
  intro n
  have hpos : 1 ≤ maxPublishPerPoll := by decide
  have hone : 1 ≤ o.telemetryMaxFrames := by omega
  have hone' : 1 ≤ o.eventMaxFrames := by omega
  have hsize : maxPublishPerPoll + burst ≤ (telemetrySetting o callbacks).size := by
    change _ ≤ o.telemetryMaxFrames.toNat
    omega
  have hsize' : maxPublishPerPoll + burst ≤ (eventSetting o callbacks).size := by
    change _ ≤ o.eventMaxFrames.toNat
    omega
  have hkept : Kept o callbacks n := kept_after hone hone' (before ++ later)
  have hqueue := @telemetryQueue_served o callbacks hone hone' (before ++ later)
  have hqueue' := @eventQueue_served o callbacks hone hone' (before ++ later)
  have hdrops := eachState_after (never_drops hsize (by omega) hcurve)
  have hdrops' := eachState_after (never_drops hsize' (by omega) hcurve')
  rw [← hqueue] at hdrops
  rw [← hqueue'] at hdrops'
  refine ⟨hdrops.1, hdrops'.1, ?_⟩
  intro henough
  obtain ⟨hserves, hserves'⟩ := serves_turns later
  rw [List.flatMap_append] at hcurve hcurve' hqueue hqueue'
  have htaken := taken_in_time hsize (by omega) hcurve (by rw [hserves]; exact henough)
  have htaken' := taken_in_time hsize' (by omega) hcurve' (by rw [hserves']; exact henough)
  rw [← hqueue, turn_queue, offered_after] at htaken
  rw [← hqueue', turn_queue, offered_after] at htaken'
  rw [List.flatMap_assoc] at htaken htaken'
  simp only [telemetryTurns_actions, eventTurns_actions] at htaken htaken'
  rw [← List.flatMap_assoc] at htaken htaken'
  rw [arrivals_telemetry] at htaken
  rw [arrivals_events] at htaken'
  exact ⟨shownFirst_of_taken hkept.telemetry htaken, shownFirst_of_taken hkept.events htaken'⟩

/-- What is received while a service runs is published by the next poll. -/
theorem poll_catches_up :
    let o : Options := { telemetryMaxFrames := 32768, eventMaxFrames := 32768 }
    let before : List Act := [.service [telemetryPacket 1, telemetryPacket 2] {}]
    let n := after (step o {}) {} (before ++ [.poll [telemetryPacket 3]])
    ShownFirst ShowsFrame n.telemetry (telemetryArrivals (before.flatMap operations)) ∧
      n.telemetry.length = 3 := by
  intro o before n
  have hkeeps := @polling_keeps_up o {} 0 (by decide) (by decide) before
    [.poll [telemetryPacket 3]] (constrained_of_le (by decide +kernel))
    (constrained_of_le (by decide +kernel))
  exact ⟨(hkeeps.2.2 (by decide)).1, by decide +kernel⟩

end BridgePolling
