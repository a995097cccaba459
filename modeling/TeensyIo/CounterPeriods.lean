import Mathlib.Data.List.Chain
import TeensyIo.ChangeEvents

/-! # Counter periods

`counter_tick` takes the difference to the last edge, of which a timestamp of zero says that there
was none. The clock of the edges starts again at zero every 2^32 microseconds. -/
namespace CounterPeriods

open WireCommands FirmwareState FirmwareCommands FirmwareUpdate FirmwareRequests
open FirmwareDevice FirmwareOutcomes MachineRuns
open ChangeEvents (step)

/-! ### True time -/

/-- The clock at a moment of true time. -/
def stamp (time : ℕ) : UInt32 := UInt32.ofNat time

/-- Edges follow each other after at least a microsecond and before the clock has come round. -/
def Follows (t u : ℕ) : Prop := t < u ∧ u - t < 2 ^ 32

instance (t u : ℕ) : Decidable (Follows t u) := inferInstanceAs (Decidable (_ ∧ _))

theorem stamp_eq_zero_iff (time : ℕ) : stamp time = 0 ↔ time % 2 ^ 32 = 0 := by
  rw [stamp, ← UInt32.toNat_inj, UInt32.toNat_ofNat']
  rfl

/-- The difference of the readings is the true gap, even where the clock has started again. -/
theorem gap_toNat {t u : ℕ} (h : Follows t u) : (stamp u - stamp t).toNat = u - t := by
  obtain ⟨hlt, hgap⟩ := h
  rw [UInt32.toNat_sub, stamp, stamp, UInt32.toNat_ofNat', UInt32.toNat_ofNat']
  omega

/-! ### Edges of a slot -/

/-- The slot after an edge. -/
def ticked (slot : CounterSlot) (now : UInt32) : CounterSlot :=
  { slot with
    count := slot.count + 1
    periodUs := if slot.lastEdgeUs ≠ 0 then now - slot.lastEdgeUs else slot.periodUs
    lastEdgeUs := now }

/-- A slot on which no edge has been counted. -/
structure Fresh (slot : CounterSlot) : Prop where
  active : slot.active = true
  count : slot.count = 0
  lastEdgeUs : slot.lastEdgeUs = 0
  periodUs : slot.periodUs = 0

section Slot

variable {slot : CounterSlot}

theorem ticked_active (stamps : List UInt32) :
    (stamps.foldl ticked slot).active = slot.active := by
  induction stamps generalizing slot with
  | nil => rfl
  | cons now stamps ih => exact ih

theorem ticked_count (stamps : List UInt32) :
    (stamps.foldl ticked slot).count.toInt =
      (slot.count.toInt + stamps.length).bmod (2 ^ 32) := by
  induction stamps generalizing slot with
  | nil =>
    change slot.count.toInt = (slot.count.toInt + 0).bmod _
    rw [add_zero]
    exact (Int32.toInt_bmod slot.count).symm
  | cons now stamps ih =>
    rw [List.foldl_cons, ih, List.length_cons]
    change ((slot.count + 1).toInt + _).bmod _ = _
    rw [Int32.toInt_add, Int.bmod_add_bmod]
    push_cast
    rw [add_assoc, add_comm (1 : ℤ)]

theorem ticked_count_exact (h : Fresh slot) {stamps : List UInt32}
    (hfew : stamps.length < 2 ^ 31) :
    (stamps.foldl ticked slot).count.toInt = stamps.length := by
  rw [ticked_count, h.count]
  change ((0 : ℤ) + _).bmod _ = _
  rw [zero_add]
  exact Int.bmod_eq_of_le (by omega) (by omega)

theorem ticked_period (slot : CounterSlot) (stamps : List UInt32) (before now : UInt32) :
    ((stamps ++ [before, now]).foldl ticked slot).periodUs =
      if before ≠ 0 then now - before else ((stamps ++ [before]).foldl ticked slot).periodUs := by
  rw [List.foldl_append, List.foldl_append]
  rfl

/-- The period that is left standing when the edge at which the clock reads zero is taken for
none: the one before, or nothing. -/
theorem period_at_zero (h : Fresh slot) {earlier : List ℕ} {t : ℕ} (hzero : stamp t = 0)
    (htimes : (earlier ++ [t]).IsChain Follows) :
    (((earlier ++ [t]).map stamp).foldl ticked slot).periodUs.toNat =
      match earlier.getLast? with
      | none => 0
      | some r => t - r := by
  rcases List.eq_nil_or_concat' earlier with rfl | ⟨before, r, rfl⟩
  · change (ticked slot (stamp t)).periodUs.toNat = 0
    rw [ticked, if_neg (not_not.mpr h.lastEdgeUs), h.periodUs]
    rfl
  · have hfollows : Follows r t := by
      rw [List.append_assoc] at htimes
      exact (List.isChain_cons_cons.mp (List.isChain_append.mp htimes).2.1).1
    have hr : stamp r ≠ 0 := by
      intro hr
      have hgap := gap_toNat hfollows
      rw [hzero, hr] at hgap
      have hlt := hfollows.1
      have hnone : ((0 : UInt32) - 0).toNat = 0 := by decide
      omega
    rw [List.getLast?_concat, List.append_assoc, List.map_append]
    change ((_ ++ [stamp r, stamp t]).foldl ticked slot).periodUs.toNat = t - r
    rw [ticked_period, if_pos hr, gap_toNat hfollows]

end Slot

/-! ### Runs -/

/-- The timestamps of the edges of a counter in a step. -/
def edge (id : UInt8) : Event → List UInt32
  | .counterTick env tick => if tick = id then [env.micros 0] else []
  | _ => []

def edges (id : UInt8) (es : List Event) : List UInt32 := es.flatMap (edge id)

/-- The counter is not configured again or reset. -/
def Kept (id : UInt8) : Event → Prop
  | .handle _ p =>
    decode p ≠ .ok .resetConfig ∧ decode p ≠ .ok (.counterReset id) ∧
      ∀ pin edge, decode p ≠ .ok (.configCounter id pin edge)
  | _ => True

/-- The packet configures the counter on a valid pin, or resets it. -/
def Starts (b : Board) (id : UInt8) (s : State) : Event → Prop
  | .handle _ p =>
    (∃ pin edge, decode p = .ok (.configCounter id pin edge) ∧ isValidDigitalPin b pin = true) ∨
      (decode p = .ok (.counterReset id) ∧ (s.counters id).active = true)
  | _ => False

section Runs

variable {b : Board} {id : UInt8} {s : State}

theorem executed_counter {env : Env} {seq : UInt16} {r : Request} {out : Outcome}
    (h : Executed b env s seq r out) (hreset : r ≠ .resetConfig) (hzero : r ≠ .counterReset id)
    (hconfig : ∀ pin edge, r ≠ .configCounter id pin edge) :
    out.1.counters id = s.counters id := by
  cases h with
  | resetConfig => exact absurd rfl hreset
  | @configCounter id' pin edge =>
    apply setAt_of_ne
    rintro rfl
    exact hconfig pin edge rfl
  | @counterReset id' =>
    apply setAt_of_ne
    rintro rfl
    exact hzero rfl
  | _ => rfl

theorem handle_counter {env : Env} {p : FirmwareProtocol.Packet} (h : Kept id (.handle env p)) :
    (handle b env s p).1.counters id = s.counters id := by
  obtain ⟨hreset, hzero, hconfig⟩ := h
  apply handle_view b env s (fun s => s.counters id)
  intro r out hdecode hexecuted
  rw [hdecode] at hreset hzero hconfig
  apply executed_counter hexecuted
  · exact fun hr => hreset (congrArg _ hr)
  · exact fun hr => hzero (congrArg _ hr)
  · exact fun pin edge hr => hconfig pin edge (congrArg _ hr)

theorem step_counter (hid : id < kMaxCounters) (hactive : (s.counters id).active = true)
    {e : Event} (hkept : Kept id e) :
    (step b s e).counters id = (edge id e).foldl ticked (s.counters id) := by
  cases e with
  | handle env p => exact handle_counter hkept
  | update env => exact congrFun (update_undisturbed b env s).counters id
  | counterTick env tick =>
    by_cases htick : tick = id
    · subst htick
      have hrun : ¬(decide (tick ≥ kMaxCounters) || !(s.counters tick).active) = true := by
        simp [UInt8.not_le.mpr hid, hactive]
      rw [edge, if_pos rfl, step, react, counterTick]
      dsimp only
      rw [if_neg hrun]
      exact setAt_self _ _ _
    · rw [edge, if_neg htick, step, react, counterTick]
      dsimp only
      split_ifs
      · rfl
      · exact setAt_of_ne (Ne.symm htick) _ _
      · exact setAt_of_ne (Ne.symm htick) _ _
  | encoderTick env tick =>
    simp only [step, react, encoderTick]
    split_ifs <;> rfl

theorem run_counter (hid : id < kMaxCounters) (hactive : (s.counters id).active = true)
    {es : List Event} (hkept : ∀ e ∈ es, Kept id e) :
    (after (step b) s es).counters id = (edges id es).foldl ticked (s.counters id) := by
  induction es generalizing s with
  | nil => rfl
  | cons e es ih =>
    obtain ⟨hnow, hlater⟩ := List.forall_mem_cons.mp hkept
    have hstep := step_counter (b := b) hid hactive hnow
    have hnext : ((step b s e).counters id).active = true := by
      rw [hstep, ticked_active, hactive]
    rw [after_cons, ih hnext hlater, hstep, edges, edges, List.flatMap_cons, List.foldl_append]

theorem starts_fresh (hid : id < kMaxCounters) {e : Event} (h : Starts b id s e) :
    Fresh ((step b s e).counters id) := by
  cases e with
  | handle env p =>
    rcases h with ⟨pin, edge, hdecode, hpin⟩ | ⟨hdecode, hactive⟩
    · rw [step, react, handle_eq, hdecode, answer, execute,
        configCounter_accepted b s p.seq edge hid hpin]
      dsimp only
      rw [setAt_self]
      exact ⟨rfl, rfl, rfl, rfl⟩
    · have hslot : ¬(decide (id ≥ kMaxCounters) || !(s.counters id).active) = true := by
        simp [UInt8.not_le.mpr hid, hactive]
      rw [step, react, handle_eq, hdecode, answer, execute, counterReset, if_neg hslot]
      dsimp only
      rw [setAt_self]
      exact ⟨hactive, rfl, rfl, rfl⟩
  | _ => cases h

theorem counterRead_active (hid : id < kMaxCounters) (hactive : (s.counters id).active = true)
    (seq : UInt16) :
    counterRead s seq id = (s, [data seq (writeI32 (s.counters id).count)]) := by
  rw [counterRead, if_neg]
  simp [UInt8.not_le.mpr hid, hactive]

/-- What `CounterFrequency` answers. -/
def milliHz (periodUs : UInt32) : UInt32 := if periodUs = 0 then 0 else 1000000000 / periodUs

theorem counterFrequency_active (hid : id < kMaxCounters)
    (hactive : (s.counters id).active = true) (seq : UInt16) :
    counterFrequency s seq id =
      (s, [data seq (writeU32 (milliHz (s.counters id).periodUs))]) := by
  rw [counterFrequency, if_neg]
  · rfl
  · simp [UInt8.not_le.mpr hid, hactive]

theorem milliHz_toNat (periodUs : UInt32) :
    (milliHz periodUs).toNat = 1000000000 / periodUs.toNat := by
  rw [milliHz]
  split_ifs with h
  · subst h
    rfl
  · rw [UInt32.toNat_div]
    rfl

end Runs

/-! ### The last two edges -/

/-- The last edge but one does not come when the clock reads zero, or the edge before it is as far
from it as the last one. -/
def Timed (earlier : List ℕ) (t u : ℕ) : Prop :=
  t % 2 ^ 32 ≠ 0 ∨ ∃ r ∈ earlier.getLast?, t - r = u - t

theorem timed_iff (earlier : List ℕ) (t u : ℕ) :
    Timed earlier t u ↔ stamp t ≠ 0 ∨ ∃ r ∈ earlier.getLast?, t - r = u - t := by
  rw [Timed, ne_eq, ne_eq, stamp_eq_zero_iff]

theorem period_iff {slot : CounterSlot} (h : Fresh slot) {earlier : List ℕ} {t u : ℕ}
    (htimes : (earlier ++ [t, u]).IsChain Follows) :
    (((earlier ++ [t, u]).map stamp).foldl ticked slot).periodUs.toNat = u - t ↔
      Timed earlier t u := by
  obtain ⟨-, hlast, -⟩ := List.isChain_append.mp htimes
  have hgap : Follows t u := (List.isChain_cons_cons.mp hlast).1
  rw [List.map_append]
  change ((_ ++ [stamp t, stamp u]).foldl ticked slot).periodUs.toNat = u - t ↔ _
  rw [ticked_period, timed_iff]
  by_cases hzero : stamp t = 0
  · rw [if_neg (not_not.mpr hzero)]
    have hearlier : (earlier ++ [t]).IsChain Follows := by
      rw [List.append_cons] at htimes
      exact (List.isChain_append.mp htimes).1
    have hperiod := period_at_zero h hzero hearlier
    rw [List.map_append] at hperiod
    change (List.foldl ticked slot (_ ++ [stamp t])).periodUs.toNat = _ at hperiod
    rw [hperiod]
    have hpositive := hgap.1
    cases hbefore : earlier.getLast? with
    | none =>
      simp only [hzero, Option.not_mem_none, false_and, exists_false, or_false, ne_eq,
        not_true_eq_false, iff_false]
      omega
    | some r => simp [hzero]
  · rw [if_pos hzero, gap_toNat hgap]
    exact iff_of_true rfl (Or.inl hzero)

/-- After a counter has been configured or reset, whatever else happens until its last edges `t`
and `u`: the period is the time between these two, its frequency is answered and its edges are
counted exactly if `t` is not taken for no edge, or the period from the edge before is the
same. -/
theorem last_period_iff (b : Board) (s : State) (id : UInt8) (e : Event) (es : List Event)
    (earlier : List ℕ) (t u : ℕ) (hid : id < kMaxCounters) (hstarts : Starts b id s e)
    (hkept : ∀ e ∈ es, Kept id e) (hedges : edges id es = (earlier ++ [t, u]).map stamp)
    (htimes : (earlier ++ [t, u]).IsChain Follows) (hfew : (edges id es).length < 2 ^ 31) :
    let state := after (step b) (step b s e) es
    (((state.counters id).periodUs.toNat = u - t ∧
      (∃ frequency : UInt32, frequency.toNat = 1000000000 / (u - t) ∧
        ∀ seq, counterFrequency state seq id = (state, [data seq (writeU32 frequency)])) ∧
      ∃ count : Int32, count.toInt = (edges id es).length ∧
        ∀ seq, counterRead state seq id = (state, [data seq (writeI32 count)])) ↔
      Timed earlier t u) := by
  intro state
  have hfresh : Fresh ((step b s e).counters id) := starts_fresh hid hstarts
  have hslot : state.counters id = (edges id es).foldl ticked ((step b s e).counters id) :=
    run_counter hid hfresh.active hkept
  have hactive : (state.counters id).active = true := by
    rw [hslot, ticked_active, hfresh.active]
  rw [← period_iff hfresh htimes, ← hedges, ← hslot]
  constructor
  · rintro ⟨hperiod, -⟩
    exact hperiod
  · intro hperiod
    refine ⟨hperiod, ⟨_, ?_, counterFrequency_active hid hactive⟩, _, ?_,
      counterRead_active hid hactive⟩
    · rw [milliHz_toNat, hperiod]
    · rw [hslot]
      exact ticked_count_exact hfresh hfew

/-- An edge of counter 0 at a moment of true time. -/
def edgeAt (time : ℕ) : Event :=
  .counterTick { envAt 0 with micros := fun _ => stamp time } 0

def counting : Event :=
  .handle (envAt 0) (commandPacket 1 [CommandId.configCounter.toByte, 0, 7, 0])

/-- Edges half a millisecond apart, the clock starting again in between. -/
theorem period_across_wrap :
    ((after (step sampleBoard) (step sampleBoard {} counting)
      [edgeAt 4294967000, edgeAt 4294967500]).counters 0).periodUs.toNat = 500 := by
  have hkept : ∀ e ∈ [edgeAt 4294967000, edgeAt 4294967500], Kept 0 e := by
    intro e he
    simp only [List.mem_cons, List.not_mem_nil, or_false] at he
    rcases he with rfl | rfl <;> trivial
  have hiff := last_period_iff sampleBoard {} 0 counting [edgeAt 4294967000, edgeAt 4294967500] []
    4294967000 4294967500 (by decide) (Or.inl ⟨7, 0, rfl, rfl⟩) hkept rfl (by decide) (by decide)
  exact (hiff.mpr (Or.inl (by decide))).1

/-- The first edge comes when the clock reads zero: half a millisecond later there is still no
period. -/
theorem edge_at_zero_lost :
    let es := [edgeAt 4294967296, edgeAt 4294967796]
    let state := after (step sampleBoard) (step sampleBoard {} counting) es
    edges 0 es = [4294967296, 4294967796].map stamp ∧ Follows 4294967296 4294967796 ∧
      (state.counters 0).periodUs.toNat ≠ 4294967796 - 4294967296 ∧
      counterFrequency state 3 0 = (state, [data 3 (writeU32 0)]) := by
  intro es state
  have hslot : (state.counters 0).active = true ∧ (state.counters 0).periodUs = 0 := by
    decide +kernel
  refine ⟨rfl, by decide, ?_, ?_⟩
  · rw [hslot.2]
    decide
  · rw [counterFrequency_active (by decide) hslot.1, hslot.2]
    rfl

end CounterPeriods
