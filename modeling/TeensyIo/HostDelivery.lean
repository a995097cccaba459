import TeensyIo.HostSession

/-! # Delivery of asynchronous frames

Every telemetry or event frame that has been read should be handed on once, in the order of
arrival, and be queued or counted as dropped. Leaving the loop of `_read_response` early
breaks this, and so does a callback whose own reading overtakes the loop it interrupted. -/
namespace HostDelivery

open WireCommands HostProtocol HostClient HostSession MachineRuns WireCompatibility

/-- The asynchronous frames the client has a use for. -/
def wantedOf (arrivals : List Arrival) : List Arrival := arrivals.filter fun a => wanted a.1

theorem wantedOf_append (xs ys : List Arrival) :
    wantedOf (xs ++ ys) = wantedOf xs ++ wantedOf ys := List.filter_append ..

theorem wantedOf_cons (a : Arrival) (xs : List Arrival) :
    wantedOf (a :: xs) = wantedOf [a] ++ wantedOf xs := wantedOf_append [a] xs

theorem wantedOf_single {a : Arrival} (h : wanted a.1 = true) : wantedOf [a] = [a] := by
  simp [wantedOf, h]

theorem wantedOf_ignored {a : Arrival} (h : ¬ wanted a.1 = true) : wantedOf [a] = [] := by
  simp [wantedOf, h]

/-! ### Queued or counted -/

/-- Of the frames handed on, the newest are in the queue and each of the others was taken by
the program or counted as dropped. -/
def Accounted {ε : Type} (handed queue : List ε) (taken dropped : ℕ) : Prop :=
  ∃ gone, handed = gone ++ queue ∧ gone.length = taken + dropped

theorem accounted_put {ε : Type} {handed queue : List ε} {taken dropped : ℕ}
    (h : Accounted handed queue taken dropped) (maxsize : ℤ) (item : ε) :
    Accounted (handed ++ [item]) (putBounded maxsize queue dropped item).1 taken
      (putBounded maxsize queue dropped item).2 := by
  obtain ⟨gone, rfl, hlength⟩ := h
  unfold putBounded
  split_ifs with hfull
  · cases queue with
    | nil =>
      obtain ⟨hpos, hle⟩ := hfull
      exact absurd (hpos.trans_le hle) (by simp)
    | cons oldest queue => exact ⟨gone ++ [oldest], by simp, by simp [hlength, Nat.add_assoc]⟩
  · exact ⟨gone, by simp, hlength⟩

theorem accounted_take {ε : Type} {handed queue taken : List ε} {dropped : ℕ}
    (h : Accounted handed queue taken.length dropped) :
    Accounted handed queue.tail (taken ++ queue.take 1).length dropped := by
  obtain ⟨gone, rfl, hlength⟩ := h
  cases queue with
  | nil => exact ⟨gone, rfl, by simpa using hlength⟩
  | cons item queue => exact ⟨gone ++ [item], by simp, by simp [hlength]; omega⟩

theorem ordered_put {ε : Type} {handed queue taken : List ε}
    (h : (taken ++ queue).Sublist handed) (maxsize : ℤ) (dropped : ℕ) (item : ε) :
    (taken ++ (putBounded maxsize queue dropped item).1).Sublist (handed ++ [item]) := by
  unfold putBounded
  split_ifs
  · have htail := (List.Sublist.refl taken).append (List.tail_sublist queue)
    rw [← List.append_assoc]
    exact (htail.trans h).append (List.Sublist.refl [item])
  · rw [← List.append_assoc]
    exact h.append (List.Sublist.refl [item])

theorem take_one_tail {ε : Type} (taken queue : List ε) :
    (taken ++ queue.take 1) ++ queue.tail = taken ++ queue := by
  cases queue with
  | nil => simp
  | cons item queue => simp

structure Booked (s : Session) : Prop where
  telemetry : Accounted (s.handed.filterMap fun a => telemetryFrame a.1) s.client.telemetryQueue
    s.telemetryTaken.length s.client.telemetryDropped
  events : Accounted (s.handed.filterMap fun a => edgeEvent a.1) s.client.eventQueue
    s.eventsTaken.length s.client.eventsDropped

theorem edgeEvent_of_telemetryFrame {p : Packet} {frame : TelemetryFrame}
    (h : telemetryFrame p = some frame) : edgeEvent p = none := by
  unfold telemetryFrame at h
  split_ifs at h with ht
  simp [edgeEvent, ht.1]

theorem hand_booked {s : Session} (h : Booked s) (o : Options) (call : Call)
    (below : List Activity) (arrival : Arrival) (rest : List Arrival) :
    Booked (s.hand o call below arrival rest) := by
  obtain ⟨htelemetry, hevents⟩ := h
  unfold Session.hand handleAsyncPacket
  cases hframe : telemetryFrame arrival.1 with
  | some frame =>
    have hnone := edgeEvent_of_telemetryFrame hframe
    constructor
    · simpa [hframe] using accounted_put htelemetry o.telemetryMaxFrames frame
    · simpa [hnone] using hevents
  | none =>
    cases hevent : edgeEvent arrival.1 with
    | some event =>
      constructor
      · simpa [hframe, hevent] using htelemetry
      · simpa [hevent] using accounted_put hevents o.eventMaxFrames event
    | none =>
      constructor
      · simpa [hframe, hevent] using htelemetry
      · simpa [hevent] using hevents

theorem stepped_booked {o : Options} {s t : Session} {move : Move} (hstep : Stepped o s move t)
    (hstream : s.OnStream) (h : Booked s) : Booked t := by
  obtain ⟨htelemetry, hevents⟩ := h
  cases hstep with
  | quiet q =>
    constructor
    · rw [q.handed, q.inbox.telemetryQueue, q.telemetryTaken, q.inbox.telemetryDropped]
      exact htelemetry
    · rw [q.handed, q.inbox.eventQueue, q.eventsTaken, q.inbox.eventsDropped]
      exact hevents
  | sent packet => exact ⟨htelemetry, hevents⟩
  | taken hmove =>
    rcases hmove with rfl | rfl
    · exact ⟨accounted_take htelemetry, hevents⟩
    · exact ⟨htelemetry, accounted_take hevents⟩
  | @read _ call below data hstack hne hdata =>
    obtain ⟨packets, hread⟩ := ingest_readIn hstream call below hne hdata
    constructor
    · rw [hread.handed, hread.client, hread.telemetryTaken]
      exact htelemetry
    · rw [hread.handed, hread.client, hread.eventsTaken]
      exact hevents
  | @answered call below arrival rest inCallback hstack hreturns =>
    cases call <;> exact ⟨htelemetry, hevents⟩
  | handed hstack hreturns => exact hand_booked ⟨htelemetry, hevents⟩ o _ _ _ _

/-! ### Handed on once and in order -/

/-- What has been handed on, followed by what the running loops still hold, is what has
arrived. -/
structure Delivered (s : Session) : Prop extends Booked s where
  in_order : wantedOf s.handed ++ wantedOf s.outstanding = wantedOf s.arrived

/-- Between the calls of the program nothing is left in a loop. -/
theorem delivered_idle {s : Session} (h : Delivered s) (hidle : s.stack = []) :
    wantedOf s.handed = wantedOf s.arrived := by
  have hin := h.in_order
  rw [Session.outstanding, hidle] at hin
  simpa [pendingOf, wantedOf] using hin

/-- When `_read_response` returns, its list holds nothing wanted any more; and a loop in a
callback hands nothing wanted on while the loops below it hold something wanted. -/
def Spares (s : Session) : Move → Prop
  | .host .next =>
    match s.stack with
    | ⟨call, .delivering (arrival :: rest) _⟩ :: below =>
      if call.returns arrival.1 then wantedOf (arrival :: rest) = []
      else wanted arrival.1 = true → wantedOf (pendingOf below) = []
    | _ => True
  | _ => True

theorem stepped_delivered {o : Options} {s t : Session} {move : Move}
    (hstep : Stepped o s move t) (hstream : s.OnStream) (h : Delivered s)
    (hspares : Spares s move) : Delivered t := by
  refine ⟨stepped_booked hstep hstream h.toBooked, ?_⟩
  have hin := h.in_order
  cases hstep with
  | quiet q => rw [q.handed, q.outstanding, q.arrived, hin]
  | sent packet => rw [send_arrived hstream packet]; exact hin
  | taken hmove => rcases hmove with rfl | rfl <;> exact hin
  | @read _ call below data hstack hne hdata =>
    obtain ⟨packets, hread⟩ := ingest_readIn hstream call below hne hdata
    obtain ⟨n, hloop⟩ := hread.stack
    have hout := outstanding_idle hstack rfl
    rw [outstanding_cons hloop, hout, hread.handed, hread.arrived, wantedOf_append,
      wantedOf_append, ← hin, List.append_assoc]
    rfl
  | @answered call below arrival rest inCallback hstack hreturns =>
    obtain ⟨hhanded, harrived, hout⟩ := answer_handed s call below arrival.1
    simp only [Spares, hstack, hreturns, if_true] at hspares
    have hlost : wantedOf (Activity.mk call
        (.delivering (arrival :: rest) inCallback)).pending = [] := hspares
    rw [outstanding_cons hstack, wantedOf_append, hlost, List.append_nil] at hin
    rw [hhanded, harrived, hout, hin]
  | @handed call below arrival rest inCallback hstack hreturns =>
    simp only [Spares, hstack, hreturns] at hspares
    obtain ⟨hhanded, harrived, hout⟩ := hand_handed o s call below arrival rest
    rw [outstanding_cons hstack, wantedOf_append] at hin
    rw [hhanded, harrived, hout, wantedOf_append, wantedOf_append, ← hin]
    change _ = _ ++ (_ ++ wantedOf (arrival :: rest))
    rw [wantedOf_cons arrival rest]
    by_cases hwanted : wanted arrival.1 = true
    · simp [hspares hwanted]
    · simp [wantedOf_ignored hwanted]

theorem nodup_wanted (s : Session) : (wantedOf s.arrived).Nodup := by
  have hplaces : (s.arrived.map Prod.snd).Nodup := by
    rw [Session.arrived, List.zipIdx_map_snd]
    exact List.nodup_range'
  have harrived : s.arrived.Nodup :=
    List.Pairwise.of_map Prod.snd (fun a b hne hab => hne (congrArg Prod.snd hab)) hplaces
  exact List.Pairwise.filter _ harrived

/-- If moving `a` to the front of `held` changes nothing, there is nothing it passes. -/
theorem overtaken {α : Type} {before held rest : List α} {a : α}
    (hsame : before ++ [a] ++ (held ++ rest) = before ++ (held ++ ([a] ++ rest)))
    (hnodup : (before ++ (held ++ ([a] ++ rest))).Nodup) : held = [] := by
  cases held with
  | nil => rfl
  | cons b held =>
    rw [List.append_assoc] at hsame
    obtain ⟨rfl, -⟩ := List.cons.inj (List.append_cancel_left hsame)
    have htail := (List.nodup_append.mp hnodup).2.1
    simp at htail

/-- A move that leaves the frames in order has spared them. -/
theorem spares_of_delivered {o : Options} {s : Session} {move : Move} (h : Delivered s)
    (hnext : Delivered (s.step o move)) : Spares s move := by
  unfold Spares
  split
  · split
    · rename_i call arrival rest inCallback below hstack
      have hin := h.in_order
      have hafter := hnext.in_order
      rw [outstanding_cons hstack, wantedOf_append] at hin
      change _ ++ (_ ++ wantedOf (arrival :: rest)) = _ at hin
      have hstep : s.step o (.host .next) = s.deliver o call below (arrival :: rest) := by
        simp [Session.step, Session.host, hstack]
      rw [hstep] at hafter
      split_ifs with hreturns
      · obtain ⟨hhanded, harrived, hout⟩ := answer_handed s call below arrival.1
        rw [Session.deliver, if_pos hreturns, hhanded, harrived, hout, ← hin] at hafter
        have hlost := List.append_cancel_left hafter
        exact List.self_eq_append_right.mp hlost
      · intro hwanted
        obtain ⟨hhanded, harrived, hout⟩ := hand_handed o s call below arrival rest
        rw [Session.deliver, if_neg hreturns, hhanded, harrived, hout, ← hin, wantedOf_append,
          wantedOf_append, wantedOf_cons arrival rest, wantedOf_single hwanted] at hafter
        have hnodup := nodup_wanted s
        rw [← hin, wantedOf_cons arrival rest, wantedOf_single hwanted] at hnodup
        exact overtaken hafter hnodup
    · trivial
  · trivial

/-- In a run of one thread every wanted frame is handed on once, in the order of arrival, and
queued or counted, exactly if no step cuts a frame off or lets one overtake another. -/
theorem deliveries_iff (o : Options) (moves : List Move) :
    EachState (Session.step o) Delivered {} moves ↔ EachStep (Session.step o) Spares {} moves := by
  have hinitial : Delivered {} := ⟨⟨⟨[], rfl, rfl⟩, ⟨[], rfl, rfl⟩⟩, rfl⟩
  constructor
  · intro hstates
    exact eachStep_of_eachState (I := fun _ => True) (P := Delivered) (fun _ _ _ => trivial)
      (fun s move _ h hnext => spares_of_delivered h hnext) trivial hstates
  · intro hsteps
    refine eachState_of_eachStep (I := fun s => s.OnStream ∧ Delivered s) ?_ (fun _ h => h.2)
      ⟨onStream_initial, hinitial⟩ hsteps
    rintro s move ⟨hstream, h⟩ hspares
    have hstep := step_stepped o s move
    exact ⟨stepped_onStream hstep hstream, stepped_delivered hstep hstream h hspares⟩

/-- A response and a telemetry frame that arrive in one read. -/
def sameChunk : List Move :=
  [.host (.command .heartbeat [] true), .send ⟨⟨.ack, 1, [0]⟩, by decide, by decide⟩,
    .send ⟨⟨.telemetry, 0, [3, 0, 7, 0, 0, 0]⟩, by decide, by decide⟩,
    .host (.read false 0 (1, 4096)), .host .next]

/-- The call has returned, the telemetry frame has been read, and it is gone: it was neither
handed on nor counted. -/
theorem same_chunk_loses_telemetry :
    let s := after (Session.step {}) {} sameChunk
    s.stack = [] ∧ wantedOf s.arrived = [(⟨.telemetry, 0, [3, 0, 7, 0, 0, 0]⟩, 1)] ∧
      s.handed = [] ∧ s.client.telemetryDropped = 0 ∧
      ¬ EachState (Session.step {}) Delivered {} sameChunk := by
  intro s
  have hidle : s.stack = [] := by decide +kernel
  have harrived : wantedOf s.arrived = [(⟨.telemetry, 0, [3, 0, 7, 0, 0, 0]⟩, 1)] := by
    decide +kernel
  have hhanded : s.handed = [] := by decide +kernel
  refine ⟨hidle, harrived, hhanded, by decide +kernel, fun hstates => ?_⟩
  have hsame := delivered_idle (eachState_after hstates) hidle
  rw [hhanded, harrived] at hsame
  cases hsame

end HostDelivery
