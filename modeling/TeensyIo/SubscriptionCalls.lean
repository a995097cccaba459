import TeensyIo.FirmwareRing

/-! # What a pass over the subscriptions queues

`update_subscriptions` touches the rest of the firmware only through `queue_async`. The calls
it makes, each with the slot whose turn makes it, depend for each slot on that slot and on its
resource alone. -/
namespace SubscriptionCalls

open WireCommands FirmwareState FirmwareCommands FirmwareUpdate

/-- A call of `queue_async` made in the turn of a slot. -/
structure Call where
  slot : UInt8
  type : PacketType
  payload : List UInt8
  deriving DecidableEq

def enqueue (s : State) (c : Call) : State := queueAsync s c.type c.payload

/-- The condition for an event. -/
def eventDue (slot : SubscriptionSlot) (value : Int32) : Bool :=
  slot.flags &&& 0x01 != 0 && slot.hasLastValue && value != slot.lastValue && shouldEmit slot value

variable (b : Board) (env : Env) (now : UInt32)

/-- The calls of one turn. -/
def turnCalls (s : State) (i : UInt8) : List Call :=
  let slot := s.subscriptions i
  if !slot.active then []
  else
    match readResourceValue b env s i.toNat slot.kind slot.id with
    | none => []
    | some value =>
      (if eventDue slot value then
        [⟨i, .event, eventPayload slot value (env.micros i.toNat)⟩] else []) ++
      (if slot.rateHz = 0 ∨ now < slot.nextDueMs then []
        else [⟨i, .telemetry, telemetryPayload slot value⟩])

/-- The slot after its turn. -/
def slotAfter (s : State) (i : UInt8) : SubscriptionSlot :=
  let slot := s.subscriptions i
  if !slot.active then slot
  else
    match readResourceValue b env s i.toNat slot.kind slot.id with
    | none => {}
    | some value =>
      { slot with
        lastValue := value, hasLastValue := true
        nextDueMs :=
          if slot.rateHz = 0 ∨ now < slot.nextDueMs then slot.nextDueMs
          else now + intervalMs slot.rateHz }

/-- The calls of the turns of some slots, one slot after the other. -/
def passCalls (s : State) : List UInt8 → List Call
  | [] => []
  | i :: is => turnCalls b env now s i ++ passCalls (updateSubscription b env now s i) is

/-- The calls of one `update_subscriptions`. -/
def updateCalls (s : State) : List Call :=
  passCalls b env (env.millis 1) s (indices kMaxSubscriptions.toNat)

/-- The frame a call queues. -/
def callFrame (c : Call) : FirmwareResponses.Written := ⟨c.type, 0, c.payload⟩

/-- A turn makes no calls or has read the value of an active slot. -/
theorem turnCalls_cases (s : State) (i : UInt8) :
    turnCalls b env now s i = [] ∨
      ((s.subscriptions i).active = true ∧ ∃ value,
        readResourceValue b env s i.toNat (s.subscriptions i).kind (s.subscriptions i).id =
          some value ∧
        turnCalls b env now s i =
          (if eventDue (s.subscriptions i) value then
            [⟨i, .event, eventPayload (s.subscriptions i) value (env.micros i.toNat)⟩] else []) ++
          (if (s.subscriptions i).rateHz = 0 ∨ now < (s.subscriptions i).nextDueMs then []
            else [⟨i, .telemetry, telemetryPayload (s.subscriptions i) value⟩])) := by
  unfold turnCalls
  dsimp only
  by_cases hactive : (s.subscriptions i).active = true
  · rw [if_neg (by simp [hactive])]
    cases readResourceValue b env s i.toNat (s.subscriptions i).kind (s.subscriptions i).id with
    | none => exact Or.inl rfl
    | some value => exact Or.inr ⟨hactive, value, rfl, rfl⟩
  · exact Or.inl (if_pos (by simpa using hactive))

/-- What a turn calls is an event or telemetry of its slot, with a value it has read. -/
theorem mem_turnCalls {s : State} {i : UInt8} {c : Call} (h : c ∈ turnCalls b env now s i) :
    ∃ value, readResourceValue b env s i.toNat (s.subscriptions i).kind (s.subscriptions i).id =
        some value ∧
      (c = ⟨i, .event, eventPayload (s.subscriptions i) value (env.micros i.toNat)⟩ ∨
        c = ⟨i, .telemetry, telemetryPayload (s.subscriptions i) value⟩) := by
  rcases turnCalls_cases b env now s i with hnone | ⟨-, value, hread, hcalls⟩
  · rw [hnone] at h
    cases h
  · rw [hcalls] at h
    refine ⟨value, hread, ?_⟩
    rcases List.mem_append.mp h with h | h
    · exact Or.inl (List.mem_singleton.mp (List.mem_ite_nil_right.mp h).2)
    · exact Or.inr (List.mem_singleton.mp (List.mem_ite_nil_left.mp h).2)

theorem forall_passCalls {P : Call → Prop}
    (h : ∀ s i, ∀ c ∈ turnCalls b env now s i, P c) (s : State) (is : List UInt8) :
    ∀ c ∈ passCalls b env now s is, P c := by
  induction is generalizing s with
  | nil => exact fun c hc => nomatch hc
  | cons i is ih =>
    intro c hc
    rcases List.mem_append.mp hc with hc | hc
    · exact h s i c hc
    · exact ih _ c hc

/-! ### A turn is its calls and its slot -/

/-- The same firmware with other subscriptions. -/
def withSlots (s : State) (slots : UInt8 → SubscriptionSlot) : State :=
  { s with subscriptions := slots }

theorem withSlots_withSlots (s : State) (slots slots' : UInt8 → SubscriptionSlot) :
    withSlots (withSlots s slots) slots' = withSlots s slots' := rfl

theorem queueAsync_withSlots (s : State) (slots : UInt8 → SubscriptionSlot) (type : PacketType)
    (payload : List UInt8) :
    queueAsync (withSlots s slots) type payload = withSlots (queueAsync s type payload) slots := by
  dsimp only [queueAsync, withSlots]
  split_ifs <;> rfl

theorem enqueue_withSlots (s : State) (slots : UInt8 → SubscriptionSlot) (calls : List Call) :
    calls.foldl enqueue (withSlots s slots) = withSlots (calls.foldl enqueue s) slots := by
  induction calls generalizing s with
  | nil => rfl
  | cons c calls ih =>
    rw [List.foldl_cons, List.foldl_cons, enqueue, queueAsync_withSlots]
    exact ih (queueAsync s c.type c.payload)

theorem setAt_setAt {ε : Type} (table : UInt8 → ε) (i : UInt8) (x y : ε) :
    setAt (setAt table i x) i y = setAt table i y := by
  rw [setAt, setAt, setAt, Function.update_idem]

theorem noteValue_eq (s : State) (i : UInt8) (value : Int32) :
    let slot := s.subscriptions i
    noteValue env s i value =
      withSlots (if eventDue slot value then
          queueAsync s .event (eventPayload slot value (env.micros i.toNat)) else s)
        (setAt s.subscriptions i { slot with lastValue := value, hasLastValue := true }) := by
  dsimp only [noteValue]
  rw [eventDue]
  split_ifs with hemit
  · rw [FirmwareRing.queueAsync_subscriptions]
    rfl
  · rfl

/-- The slot's own fields decide whether telemetry is due, whatever is in the ring. -/
theorem sendDue_eq (s : State) (slots : UInt8 → SubscriptionSlot) (i : UInt8)
    (slot : SubscriptionSlot) (value : Int32) :
    sendDue (withSlots s (setAt slots i slot)) now i value =
      if slot.rateHz = 0 ∨ now < slot.nextDueMs then withSlots s (setAt slots i slot)
      else withSlots (queueAsync s .telemetry (telemetryPayload slot value))
        (setAt slots i { slot with nextDueMs := now + intervalMs slot.rateHz }) := by
  have hslot : (withSlots s (setAt slots i slot)).subscriptions i = slot := setAt_self slots i slot
  simp only [sendDue, hslot, queueAsync_withSlots]
  by_cases hdue : slot.rateHz = 0 ∨ now < slot.nextDueMs
  · rw [if_pos hdue, if_pos hdue]
  · rw [if_neg hdue, if_neg hdue]
    exact congrArg (withSlots (queueAsync s .telemetry (telemetryPayload slot value)))
      (setAt_setAt slots i slot _)

theorem updateSubscription_calls (s : State) (i : UInt8) :
    updateSubscription b env now s i =
      withSlots ((turnCalls b env now s i).foldl enqueue s)
        (setAt s.subscriptions i (slotAfter b env now s i)) := by
  unfold updateSubscription turnCalls slotAfter
  dsimp only
  by_cases hidle : (!(s.subscriptions i).active) = true
  · have hsame : setAt s.subscriptions i (s.subscriptions i) = s.subscriptions :=
      Function.update_eq_self i s.subscriptions
    rw [if_pos hidle, if_pos hidle, if_pos hidle, hsame]
    rfl
  · rw [if_neg hidle, if_neg hidle, if_neg hidle]
    cases readResourceValue b env s i.toNat (s.subscriptions i).kind (s.subscriptions i).id with
    | none => rfl
    | some value =>
      dsimp only
      rw [noteValue_eq, sendDue_eq, List.foldl_append]
      split_ifs <;> rfl

/-! ### A pass -/

/-- A pass changes the ring by its calls alone. -/
theorem pass_calls (s : State) (is : List UInt8) :
    ∃ slots, is.foldl (updateSubscription b env now) s =
      withSlots ((passCalls b env now s is).foldl enqueue s) slots := by
  induction is generalizing s with
  | nil => exact ⟨s.subscriptions, rfl⟩
  | cons i is ih =>
    obtain ⟨slots, hslots⟩ := ih (updateSubscription b env now s i)
    refine ⟨slots, ?_⟩
    rw [List.foldl_cons, hslots, passCalls, List.foldl_append]
    generalize passCalls b env now (updateSubscription b env now s i) is = later
    rw [updateSubscription_calls, enqueue_withSlots, withSlots_withSlots]

/-- `update_subscriptions` hands these calls to `queue_async` in this order, and apart from that
changes nothing but the slots. -/
def Queues (s : State) (calls : List Call) : Prop :=
  ∃ slots, updateSubscriptions b env s = withSlots (calls.foldl enqueue s) slots

theorem updateSubscriptions_calls (s : State) : Queues b env s (updateCalls b env s) :=
  pass_calls b env (env.millis 1) s (indices kMaxSubscriptions.toNat)

/-- What a resource reads does not depend on the ring or on the subscriptions. -/
theorem readResourceValue_undisturbed {s s' : State} (h : Undisturbed s s') (occasion : ℕ)
    (kind id : UInt8) :
    readResourceValue b env s' occasion kind id = readResourceValue b env s occasion kind id := by
  simp only [readResourceValue, analogMean, h.analogConfigured, h.analogSamples, h.counters,
    h.encoders, h.dacs]

/-- The turns of other slots make no difference to a slot. -/
structure SameTurn (i : UInt8) (s s' : State) : Prop where
  undisturbed : Undisturbed s s'
  slot : s'.subscriptions i = s.subscriptions i

section SameTurn

variable {b env now} {i : UInt8} {s s' : State}

theorem SameTurn.turnCalls (h : SameTurn i s s') :
    turnCalls b env now s' i = turnCalls b env now s i := by
  unfold SubscriptionCalls.turnCalls
  rw [h.slot]
  simp only [readResourceValue_undisturbed b env h.undisturbed]

theorem SameTurn.slotAfter (h : SameTurn i s s') :
    slotAfter b env now s' i = slotAfter b env now s i := by
  unfold SubscriptionCalls.slotAfter
  rw [h.slot]
  simp only [readResourceValue_undisturbed b env h.undisturbed]

theorem updateSubscription_sameTurn {j : UInt8} (hij : i ≠ j) (s : State) :
    SameTurn i s (updateSubscription b env now s j) := by
  refine ⟨updateSubscription_undisturbed b env now s j, ?_⟩
  rw [updateSubscription_calls]
  exact setAt_of_ne hij _ _

end SameTurn

theorem slot_of_turnCalls {s : State} {i : UInt8} {c : Call}
    (h : c ∈ turnCalls b env now s i) : c.slot = i := by
  unfold turnCalls at h
  dsimp only at h
  by_cases hidle : (!(s.subscriptions i).active) = true
  · rw [if_pos hidle] at h
    cases h
  · rw [if_neg hidle] at h
    cases hread : readResourceValue b env s i.toNat (s.subscriptions i).kind
        (s.subscriptions i).id with
    | none =>
      rw [hread] at h
      cases h
    | some value =>
      rw [hread] at h
      rcases List.mem_append.mp h with h | h
      · split_ifs at h
        · rw [List.mem_singleton.mp h]
        · cases h
      · split_ifs at h
        · cases h
        · rw [List.mem_singleton.mp h]

/-- The calls made for a slot in a pass, in order. -/
def callsOf (i : UInt8) (calls : List Call) : List Call := calls.filter fun c => c.slot = i

theorem callsOf_turnCalls (s : State) (i j : UInt8) :
    callsOf i (turnCalls b env now s j) = if j = i then turnCalls b env now s j else [] := by
  split_ifs with hij
  · rw [callsOf, List.filter_eq_self]
    intro c hc
    simp [slot_of_turnCalls b env now hc, hij]
  · rw [callsOf, List.filter_eq_nil_iff]
    intro c hc
    simp [slot_of_turnCalls b env now hc, hij]

/-- Each slot gets the turn it would get if it were the only one. -/
theorem pass_slot (s : State) {i : UInt8} {is : List UInt8} (hi : i ∈ is) (hnodup : is.Nodup) :
    callsOf i (passCalls b env now s is) = turnCalls b env now s i ∧
      (is.foldl (updateSubscription b env now) s).subscriptions i = slotAfter b env now s i := by
  have hother : ∀ (is : List UInt8) (s : State), i ∉ is →
      callsOf i (passCalls b env now s is) = [] ∧
        (is.foldl (updateSubscription b env now) s).subscriptions i = s.subscriptions i := by
    intro is
    induction is with
    | nil => exact fun s _ => ⟨rfl, rfl⟩
    | cons j is ih =>
      intro s hout
      rw [List.mem_cons, not_or] at hout
      obtain ⟨hcalls, hslot⟩ := ih (updateSubscription b env now s j) hout.2
      have hsame : SameTurn i s (updateSubscription b env now s j) :=
        updateSubscription_sameTurn hout.1 s
      constructor
      · rw [passCalls, callsOf, List.filter_append, ← callsOf, ← callsOf, hcalls,
          callsOf_turnCalls, if_neg (Ne.symm hout.1), List.append_nil]
      · rw [List.foldl_cons, hslot, hsame.slot]
  induction is generalizing s with
  | nil => cases hi
  | cons j is ih =>
    obtain ⟨hj, hnodup⟩ := List.nodup_cons.mp hnodup
    rw [passCalls, callsOf, List.filter_append, ← callsOf, ← callsOf, callsOf_turnCalls,
      List.foldl_cons]
    by_cases hij : i = j
    · subst hij
      obtain ⟨hcalls, hslot⟩ := hother is (updateSubscription b env now s i) hj
      rw [if_pos rfl, hcalls, hslot, List.append_nil]
      refine ⟨rfl, ?_⟩
      rw [updateSubscription_calls]
      exact setAt_self _ _ _
    · have hsame : SameTurn i s (updateSubscription b env now s j) :=
        updateSubscription_sameTurn hij s
      obtain ⟨hcalls, hslot⟩ :=
        ih (updateSubscription b env now s j) ((List.mem_cons.mp hi).resolve_left hij) hnodup
      rw [if_neg (Ne.symm hij), hcalls, hslot, hsame.turnCalls, hsame.slotAfter, List.nil_append]
      exact ⟨rfl, rfl⟩

theorem nodup_indices : (indices kMaxSubscriptions.toNat).Nodup := by decide

/-- In an update, the calls of a slot and what becomes of it depend on nothing but the slot and
its resource. -/
theorem update_slot (s : State) {i : UInt8} (hi : i.toNat < kMaxSubscriptions.toNat) :
    callsOf i (updateCalls b env s) = turnCalls b env (env.millis 1) s i ∧
      (updateSubscriptions b env s).subscriptions i = slotAfter b env (env.millis 1) s i :=
  pass_slot b env (env.millis 1) s ((mem_indices (by decide) i).mpr hi) nodup_indices

theorem slot_of_passCalls {s : State} {is : List UInt8} {c : Call}
    (h : c ∈ passCalls b env now s is) : c.slot ∈ is := by
  induction is generalizing s with
  | nil => cases h
  | cons i is ih =>
    rcases List.mem_append.mp h with h | h
    · rw [slot_of_turnCalls b env now h]
      exact List.mem_cons_self
    · exact List.mem_cons_of_mem i (ih h)

/-- A call of an update is one of the turn of its slot. -/
theorem mem_updateCalls {s : State} {c : Call} (h : c ∈ updateCalls b env s) :
    c ∈ turnCalls b env (env.millis 1) s c.slot := by
  have hslot := (mem_indices (by decide) c.slot).mp (slot_of_passCalls b env _ h)
  rw [← (update_slot b env s hslot).1, callsOf, List.mem_filter]
  exact ⟨h, decide_eq_true rfl⟩

end SubscriptionCalls
