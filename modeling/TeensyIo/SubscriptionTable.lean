import TeensyIo.ChangeEvents
import TeensyIo.SlotTables

/-! # The table of subscriptions

The sixteen slots stand for a bag of subscriptions. What it gains, loses and turns away is said
here without the slots. -/
namespace SubscriptionTable

open WireCommands FirmwareState FirmwareCommands FirmwareUpdate FirmwareRequests
open FirmwareOutcomes FirmwareDevice FirmwareResponses SubscriptionCalls SlotTables MachineRuns
open FirmwareProtocol (Packet)

/-! ### The bag -/

/-- What was asked for. -/
structure Subscription where
  kind : UInt8
  id : UInt8
  rateHz : UInt16
  flags : UInt8
  deriving DecidableEq, Repr

def Subscription.Names (kind id : UInt8) (c : Subscription) : Prop := c.kind = kind ∧ c.id = id

instance (kind id : UInt8) : DecidablePred (Subscription.Names kind id) :=
  fun _ => inferInstanceAs (Decidable (_ ∧ _))

/-- What can happen to the bag. -/
inductive Change where
  | add (c : Subscription)
  | remove (kind id : UInt8)
  | sweep (readable : UInt8 → UInt8 → Bool)
  | clear
  | keep

def Change.apply (subscriptions : Multiset Subscription) : Change → Multiset Subscription
  | .add c => c ::ₘ subscriptions
  | .remove kind id => subscriptions.filter fun c => ¬ c.Names kind id
  | .sweep readable => subscriptions.filter fun c => readable c.kind c.id = true
  | .clear => 0
  | .keep => subscriptions

/-! ### The firmware's part -/

def subscriptionOf (slot : SubscriptionSlot) : Option Subscription :=
  if slot.active then some ⟨slot.kind, slot.id, slot.rateHz, slot.flags⟩ else none

theorem subscriptionOf_active {slot : SubscriptionSlot} (h : slot.active = true) :
    subscriptionOf slot = some ⟨slot.kind, slot.id, slot.rateHz, slot.flags⟩ := if_pos h

theorem subscriptionOf_inactive {slot : SubscriptionSlot} (h : slot.active = false) :
    subscriptionOf slot = none := if_neg (by rw [h]; exact Bool.false_ne_true)

def slots (s : State) (i : UInt8) : Option Subscription := subscriptionOf (s.subscriptions i)

def places : List UInt8 := indices kMaxSubscriptions.toNat

/-- The subscriptions that are held. -/
def held (s : State) : Multiset Subscription := bag places (slots s)

/-- `read_resource_value` leaves `ok` set. -/
def readable (b : Board) (s : State) (kind id : UInt8) : Bool :=
  match ResourceKind.ofByte kind with
  | some .digital => isValidDigitalPin b id
  | some .analog => isValidAnalogPin b id && s.analogConfigured id
  | some .counter => decide (id < kMaxCounters) && (s.counters id).active
  | some .encoder => decide (id < kMaxEncoders) && (s.encoders id).active
  | some .dac => decide (id < kMaxDacs) && (s.dacs id).active
  | none => false

/-- What a call into the firmware means for the bag. -/
def change (b : Board) (s : State) : Event → Change
  | .handle _ p =>
    match decode p with
    | .ok (.subscribe kind id rateHz flags) =>
      if readable b s kind id ∧ (held s).card < kMaxSubscriptions.toNat then
        .add ⟨kind, id, rateHz, flags⟩
      else .keep
    | .ok (.unsubscribe kind id) => .remove kind id
    | .ok .resetConfig => .clear
    | _ => .keep
  | .update _ => .sweep (readable b s)
  | _ => .keep

/-- How the firmware answers a subscription. -/
def reply (b : Board) (s : State) (kind id : UInt8) : PacketType × ErrorCode :=
  if readable b s kind id = false then (.nack, .invalidPayload)
  else if (held s).card < kMaxSubscriptions.toNat then (.ack, .ok)
  else (.nack, .resourceUnavailable)

/-- The table has changed as the bag, and a subscription has been answered accordingly. -/
structure Refines (b : Board) (d : Device) (e : Event) : Prop where
  held : held (d.step b e).state = (change b d.state e).apply (held d.state)
  answered : ∀ env p kind id rateHz flags, e = .handle env p →
    decode p = .ok (.subscribe kind id rateHz flags) →
      framesWritten (react b d.state e).2 =
        [⟨(reply b d.state kind id).1, p.seq, [(reply b d.state kind id).2.toByte]⟩]

theorem card_held_le (s : State) : (held s).card ≤ kMaxSubscriptions.toNat :=
  card_bag_le.trans_eq (by decide)

section Steps

variable (b : Board) (env : Env) (s : State) (seq : UInt16)

theorem readResourceValue_isSome (occasion : ℕ) (kind id : UInt8) :
    (readResourceValue b env s occasion kind id).isSome = readable b s kind id := by
  have hguard : ∀ {n : UInt8} {active : Bool} {v : Int32},
      (if id ≥ n || !active then none else some v).isSome = (decide (id < n) && active) := by
    intro n active v
    cases active <;> by_cases h : id < n <;> simp [h, UInt8.not_le.mpr, UInt8.not_lt.mp]
  unfold readResourceValue readable
  cases ResourceKind.ofByte kind with
  | none => rfl
  | some kind =>
    cases kind with
    | digital => cases isValidDigitalPin b id <;> rfl
    | analog => cases isValidAnalogPin b id <;> cases s.analogConfigured id <;> rfl
    | counter => exact hguard
    | encoder => exact hguard
    | dac => exact hguard

theorem readable_undisturbed {s s' : State} (h : Undisturbed s s') (kind id : UInt8) :
    readable b s' kind id = readable b s kind id := by
  simp only [readable, h.analogConfigured, h.counters, h.encoders, h.dacs]

theorem mem_places {i : UInt8} (h : i ∈ places) : i.toNat < kMaxSubscriptions.toNat :=
  (mem_indices (by decide) i).mp h

/-- `subscribe` looks for the first slot that is free. -/
theorem find?_places (s : State) :
    (places.find? fun i => !(s.subscriptions i).active) =
      places.find? fun i => (slots s i).isNone := by
  congr 1
  funext i
  rw [slots, subscriptionOf]
  cases (s.subscriptions i).active <;> rfl

theorem slots_setAt {s s' : State} {i : UInt8} {slot : SubscriptionSlot}
    (h : s'.subscriptions = setAt s.subscriptions i slot) :
    slots s' = Function.update (slots s) i (subscriptionOf slot) := by
  funext j
  rw [slots, h]
  by_cases hj : j = i
  · rw [hj, setAt_self, Function.update_self]
  · rw [setAt_of_ne hj, Function.update_of_ne hj, slots]

theorem subscribe_table (kind id : UInt8) (rateHz : UInt16) (flags : UInt8) :
    held (subscribe b env s seq kind id rateHz flags).1 =
        (if readable b s kind id ∧ (held s).card < kMaxSubscriptions.toNat then
          ⟨kind, id, rateHz, flags⟩ ::ₘ held s else held s) ∧
      framesWritten (subscribe b env s seq kind id rateHz flags).2 =
        [⟨(reply b s kind id).1, seq, [(reply b s kind id).2.toByte]⟩] := by
  have hread := readResourceValue_isSome b env s 0 kind id
  have hfree := @find?_free_isSome _ _ places (slots s)
  rw [show places.length = kMaxSubscriptions.toNat by decide] at hfree
  change _ ↔ (held s).card < _ at hfree
  unfold subscribe reply
  cases hvalue : readResourceValue b env s 0 kind id with
  | none =>
    rw [hvalue] at hread
    rw [← hread]
    exact ⟨(if_neg (fun h => Bool.false_ne_true h.1)).symm, rfl⟩
  | some value =>
    rw [hvalue] at hread
    rw [← hread]
    dsimp only
    rw [show indices kMaxSubscriptions.toNat = places from rfl, find?_places]
    cases hfind : places.find? fun i => (slots s i).isNone with
    | none =>
      rw [hfind] at hfree
      have hfull : ¬ (held s).card < kMaxSubscriptions.toNat :=
        fun h => Bool.false_ne_true (hfree.mpr h)
      rw [if_neg fun h => hfull h.2, if_neg Bool.noConfusion, if_neg hfull]
      exact ⟨rfl, rfl⟩
    | some i =>
      rw [hfind] at hfree
      have hroom := hfree.mp rfl
      have hi : i ∈ places := List.mem_of_find?_eq_some hfind
      have hfound := List.find?_some hfind
      have hnone : slots s i = none := Option.isNone_iff_eq_none.mp hfound
      rw [if_pos ⟨rfl, hroom⟩, if_neg Bool.noConfusion, if_pos hroom]
      refine ⟨?_, rfl⟩
      rw [held, slots_setAt rfl]
      exact bag_fill nodup_indices hi hnone _

theorem unsubscribe_table (kind id : UInt8) :
    held (unsubscribe s seq kind id).1 =
      (held s).filter fun c => ¬ c.Names kind id := by
  rw [held, held, ← bag_filter]
  apply bag_congr
  intro i _
  have hslot : (unsubscribe s seq kind id).1.subscriptions i =
      if (s.subscriptions i).active && (s.subscriptions i).kind = kind &&
        (s.subscriptions i).id = id then {} else s.subscriptions i := rfl
  rw [slots, slots, hslot]
  by_cases hactive : (s.subscriptions i).active = true
  · rw [subscriptionOf_active hactive, Option.filter_some]
    by_cases hname : (s.subscriptions i).kind = kind ∧ (s.subscriptions i).id = id
    · rw [if_pos (by simp [hactive, hname]), if_neg (by simpa [Subscription.Names] using hname)]
      rfl
    · have hkept : ¬ ((s.subscriptions i).active && (s.subscriptions i).kind = kind &&
          (s.subscriptions i).id = id) = true := by
        rw [hactive, Bool.true_and, Bool.and_eq_true, decide_eq_true_iff, decide_eq_true_iff]
        exact hname
      rw [if_neg hkept, subscriptionOf_active hactive]
      exact (if_pos (decide_eq_true hname)).symm
  · rw [Bool.not_eq_true] at hactive
    rw [if_neg (by simp [hactive]), subscriptionOf_inactive hactive]
    rfl

/-- A turn ends a subscription that cannot be read, and leaves the rest of it alone. -/
theorem subscriptionOf_slotAfter (now : UInt32) (i : UInt8) :
    subscriptionOf (slotAfter b env now s i) =
      (slots s i).filter fun c => readable b s c.kind c.id = true := by
  have hread := readResourceValue_isSome b env s i.toNat (s.subscriptions i).kind
    (s.subscriptions i).id
  rw [slots, slotAfter]
  by_cases hactive : (s.subscriptions i).active = true
  · rw [hactive, subscriptionOf_active hactive, Option.filter_some, ← hread]
    cases readResourceValue b env s i.toNat (s.subscriptions i).kind (s.subscriptions i).id with
    | none => rfl
    | some value => exact subscriptionOf_active rfl
  · rw [Bool.not_eq_true] at hactive
    rw [hactive, subscriptionOf_inactive hactive]
    exact subscriptionOf_inactive hactive

theorem update_table :
    held (update b env s).1 =
      (held s).filter fun c => readable b s c.kind c.id = true := by
  have hflushed := flushAsync_undisturbed env 0 8 (checkWatchdog env s)
  have hfirst : (flushAsync env 0 8 (checkWatchdog env s)).1.subscriptions = s.subscriptions :=
    FirmwareRing.flushAsync_subscriptions env 0 8 _
  generalize hstart : (flushAsync env 0 8 (checkWatchdog env s)).1 = t at hflushed hfirst
  have hread : ∀ kind id, readable b t kind id = readable b s kind id :=
    fun kind id => readable_undisturbed b hflushed kind id
  rw [held, held, ← bag_filter]
  apply bag_congr
  intro i hi
  have hslot : (update b env s).1.subscriptions i = slotAfter b env (env.millis 1) t i := by
    rw [← (update_slot b env t (mem_places hi)).2, ← hstart]
    exact congrFun (FirmwareRing.flushAsync_subscriptions ..) i
  rw [slots, hslot, subscriptionOf_slotAfter, slots, slots, hfirst]
  simp only [hread]

end Steps

/-! ### Runs -/

theorem held_of_same {s s' : State} (h : s'.subscriptions = s.subscriptions) :
    held s' = held s := by
  rw [held, held]
  apply bag_congr
  intro i _
  rw [slots, slots, h]

theorem held_resetConfig (b : Board) (s : State) (seq : UInt16) :
    held (resetConfig b s seq).1 = 0 := by
  refine Multiset.eq_zero_of_forall_notMem fun c hc => ?_
  obtain ⟨i, -, hi⟩ := mem_bag.mp hc
  cases hi

/-- An interrupt leaves the rest of the state alone. -/
theorem tick_held (env : Env) (s : State) (id : UInt8) :
    held (counterTick env s id) = held s ∧ held (encoderTick env s id) = held s := by
  constructor
  · refine held_of_same ?_
    rw [counterTick]
    split_ifs <;> rfl
  · refine held_of_same ?_
    rw [encoderTick]
    split_ifs <;> rfl

/-- What each request makes of the table. -/
theorem execute_held (b : Board) (env : Env) (s : State) {p : Packet} {r : Request}
    (hdecode : decode p = .ok r) :
    held (execute b env s p.seq r).1 = (change b s (.handle env p)).apply (held s) := by
  rw [change, hdecode]
  cases r with
  | resetConfig => exact held_resetConfig b s p.seq
  | unsubscribe kind id => exact unsubscribe_table s p.seq kind id
  | subscribe kind id rateHz flags =>
    rw [execute, (subscribe_table b env s p.seq kind id rateHz flags).1]
    dsimp only
    split_ifs <;> rfl
  | _ => exact held_of_same (ChangeEvents.execute_subscriptions b env s p.seq rfl)

theorem step_refines (b : Board) (d : Device) (e : Event) : Refines b d e := by
  constructor
  · cases e with
    | counterTick env id => exact (tick_held env d.state id).1
    | encoderTick env id => exact (tick_held env d.state id).2
    | update env => exact update_table b env d.state
    | handle env p =>
      change held (handle b env d.state p).1 = _
      rcases handle_cases b env d.state p with ⟨code, hdecode, hhandle⟩ | ⟨r, hdecode, hhandle⟩
      · rw [hhandle, change, hdecode]
        rfl
      · rw [hhandle, execute_held b env d.state hdecode]
  · rintro env p kind id rateHz flags rfl hdecode
    change framesWritten (handle b env d.state p).2 = _
    rw [handle_eq, hdecode]
    exact (subscribe_table b env d.state p.seq kind id rateHz flags).2

/-- Along every run the sixteen slots are a bag of at most sixteen subscriptions. -/
theorem table_refines_bag (b : Board) (d : Device) (events : List Event) :
    EachStep (Device.step b) (Refines b) d events ∧
      EachState (Device.step b) (fun d => (held d.state).card ≤ kMaxSubscriptions.toNat) d
        events := by
  constructor
  · exact (eachStep_iff d events).mpr fun before e later _ => step_refines b _ e
  · exact eachState_of_eachStep (I := fun _ => True) (G := fun _ _ => True)
      (fun _ _ _ _ => trivial) (fun d _ => card_held_le d.state) trivial
      (eachStep_of_forall d fun _ _ => trivial)

end SubscriptionTable
