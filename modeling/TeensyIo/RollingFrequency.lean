import TeensyIo.HostFrames
import TeensyIo.MachineRuns
import TeensyIo.SlidingWindows
import Mathlib.Tactic.Linarith

/-! # The frequency of a rolling window

`PulseCounter.frequency` with a window, over whole runs of a program, for one counter. -/
namespace RollingFrequency

open WireCommands LittleEndian HostProtocol HostResources HostOperations HostFrames MachineRuns
open SlidingWindows

/-- A host, and the readings that calls of `frequency` with a window have taken. -/
structure Watch where
  host : Host
  past : List (ℚ × ℤ) := []

section Runs

variable (respond : List Command → Except PyError (List UInt8)) (name : String) (windowMs : ℤ)

/-- The reading an operation adds, which is none if it raises. -/
def reading (h : Host) : Operation → List (ℚ × ℤ)
  | .counterFrequency asked windowMs now =>
    if asked = name ∧ 0 < windowMs then
      match (counterRead respond h name).1 with
      | .ok count => [(now, count)]
      | .error _ => []
    else []
  | _ => []

def step (s : Watch) (op : Operation) : Watch :=
  ⟨(runOperation respond s.host op).2, s.past ++ reading respond name s.host op⟩

/-- One window, a clock that goes on, and a counter that is neither attached again after the
first reading nor reset. -/
def Steady (s : Watch) : Operation → Prop
  | .counterFrequency asked window now =>
    asked = name → 0 < window → window = windowMs ∧ ∀ sample ∈ s.past, sample.1 < now
  | .counterAttach asked _ _ => asked = name → s.past = []
  | .counterReset asked =>
    asked = name → ∃ error, (counterReset respond s.host name).1 = .error error
  | _ => True

/-- The rate since the oldest reading in the window, or since the previous one. -/
def expected (past : List (ℚ × ℤ)) (windowMs : ℤ) (now : ℚ) (count : ℤ) : ℚ :=
  match reference (now - windowMs / 1000) past with
  | none => 0
  | some (start, startCount) => (count - startCount) / (now - start)

/-- A call that returns; counts that do not fall give no negative frequency. -/
def Exact (s : Watch) : Operation → Prop
  | .counterFrequency asked window now =>
    asked = name → 0 < window → ∀ v, (counterFrequency respond s.host name window now).1 = .ok v →
      ∃ count, (counterRead respond s.host name).1 = .ok count ∧
        v = expected s.past windowMs now count ∧
        ((∀ sample ∈ s.past, sample.2 ≤ count) → 0 ≤ v)
  | _ => True

/-- A counter that was not used yet, or has just been reset. -/
def Started (h : Host) : Prop :=
  h.counters name = {} ∨ ∃ before : Host,
    (counterReset respond before name).1 = .ok () ∧ h = (counterReset respond before name).2

end Runs

theorem trimSamples_eq (cutoff : ℚ) (samples : List (ℚ × ℤ)) :
    trimSamples cutoff samples = trim cutoff samples := by
  fun_induction trimSamples cutoff samples with
  | case1 a b c samples hold ih => rw [trim, if_pos hold, ih]
  | case2 a b c samples hin => rw [trim, if_neg hin]
  | case3 samples hshort =>
    cases samples with
    | nil => rfl
    | cons a samples =>
      cases samples with
      | nil => rfl
      | cons b samples =>
        cases samples with
        | nil => rfl
        | cons c samples => exact absurd rfl (hshort a b c samples)

/-! ### The samples of a counter -/

def kept (h : Host) (name : String) : List (ℚ × ℤ) := (h.counters name).samples

theorem SameFields.kept_eq {h h' : Host} (hsame : SameFields h h') (name : String) :
    kept h' name = kept h name := by
  obtain ⟨log, rfl⟩ := hsame
  rfl

/-- Whatever is assigned to some counter, its samples apart. -/
theorem update_kept (h : Host) {asked : String} {counter : PulseCounter} (name : String)
    (hsamples : counter.samples = (h.counters asked).samples) :
    (Function.update h.counters asked counter name).samples = kept h name :=
  update_get PulseCounter.samples hsamples name

theorem assigned_kept (h : Host) (name : String) (op : Operation) :
    kept (assigned h op) name = kept h name := by
  cases op with
  | onEdge asked edge callback =>
    rw [assigned]
    split <;> rfl
  | counterAttach asked pin edge =>
    rw [assigned]
    split
    · rfl
    · exact update_kept h name rfl
  | encoderAttach asked pinA pinB mode =>
    rw [assigned]
    split <;> rfl
  | i2cConfigure asked bus frequency =>
    rw [assigned]
    split <;> rfl
  | dacAttach asked bus address channels bits =>
    rw [assigned]
    split <;> rfl
  | _ => rfl

section Steps

variable (respond : List Command → Except PyError (List UInt8)) {name : String} {windowMs : ℤ}

/-- A call with a window raises and takes no sample, or takes one. -/
theorem frequency_cases (h : Host) (hwindow : 0 < windowMs) (now : ℚ) :
    ((∃ error, (counterRead respond h name).1 = .error error) ∧
      (∃ error, (counterFrequency respond h name windowMs now).1 = .error error) ∧
      kept (counterFrequency respond h name windowMs now).2 name = kept h name) ∨
    ∃ count, (counterRead respond h name).1 = .ok count ∧
      (counterFrequency respond h name windowMs now).1 =
        .ok (rate now count (trim (now - windowMs / 1000) (kept h name ++ [(now, count)]))) ∧
      kept (counterFrequency respond h name windowMs now).2 name =
        trim (now - windowMs / 1000) (kept h name ++ [(now, count)]) := by
  rw [counterFrequency]
  cases hid : (h.counters name).id with
  | none =>
    have hread : counterRead respond h name = (.error .runtimeError, h) := by
      rw [counterRead, hid]
    exact Or.inl ⟨⟨_, congrArg Prod.fst hread⟩, ⟨_, rfl⟩, rfl⟩
  | some id =>
    dsimp only
    rw [if_neg (not_le.mpr hwindow)]
    obtain ⟨log, hsame⟩ := counterRead_same respond h name
    cases hread : counterRead respond h name with
    | mk value h' =>
      obtain rfl : h' = { h with log := log } := by
        rw [← hsame, hread]
      cases value with
      | error error => exact Or.inl ⟨⟨error, rfl⟩, ⟨error, rfl⟩, rfl⟩
      | ok count =>
        refine Or.inr ⟨count, rfl, ?_, ?_⟩
        · rw [← trimSamples_eq]
          rfl
        · rw [← trimSamples_eq]
          exact congrArg PulseCounter.samples (Function.update_self name _ h.counters)

/-- A step leaves the samples alone, or is a call of `frequency` that adds one. -/
theorem step_cases {s : Watch} {op : Operation} (hsteady : Steady respond name windowMs s op) :
    (reading respond name s.host op = [] ∧
      kept (step respond name s op).host name = kept s.host name) ∨
    ∃ now count, op = .counterFrequency name windowMs now ∧ 0 < windowMs ∧
      (∀ sample ∈ s.past, sample.1 < now) ∧
      reading respond name s.host op = [(now, count)] ∧
      kept (step respond name s op).host name =
        trim (now - windowMs / 1000) (kept s.host name ++ [(now, count)]) := by
  by_cases hkeeps : keepsAnswer op = false
  · refine Or.inl ⟨?_, ?_⟩
    · cases op with
      | counterFrequency => cases hkeeps
      | _ => rfl
    · exact (SameFields.kept_eq (runOperation_same respond s.host hkeeps) name).trans
        (assigned_kept s.host name op)
  · cases op with
    | counterDelta asked =>
      refine Or.inl ⟨rfl, ?_⟩
      apply counterDelta_rule respond s.host (P := fun r => kept r.2 name = kept s.host name) asked
      · intro _ _
        rfl
      · intro _ _ _
        exact update_kept s.host name rfl
    | counterFrequency asked window now =>
      by_cases hcall : asked = name ∧ 0 < window
      · obtain ⟨rfl, hwindow⟩ := hcall
        obtain ⟨rfl, hclock⟩ := hsteady rfl hwindow
        rcases frequency_cases respond s.host hwindow now with
          ⟨⟨error, hread⟩, -, hkept⟩ | ⟨count, hread, -, hkept⟩
        · refine Or.inl ⟨?_, hkept⟩
          rw [reading, if_pos ⟨rfl, hwindow⟩, hread]
        · refine Or.inr ⟨now, count, rfl, hwindow, hclock, ?_, hkept⟩
          rw [reading, if_pos ⟨rfl, hwindow⟩, hread]
      · refine Or.inl ⟨by rw [reading, if_neg hcall], ?_⟩
        apply counterFrequency_rule respond s.host
          (P := fun r => kept r.2 name = kept s.host name) asked window now
        · intro _ _
          rfl
        · intro _ _ _
          rfl
        · intro hwindow _ _ _
          have hother : name ≠ asked := fun hname => hcall ⟨hname.symm, hwindow⟩
          exact congrArg PulseCounter.samples (Function.update_of_ne hother _ s.host.counters)
    | counterReset asked =>
      refine Or.inl ⟨rfl, ?_⟩
      have hraised : asked = name →
          ∃ error, (counterReset respond s.host asked).1 = .error error := by
        rintro rfl
        exact hsteady rfl
      revert hraised
      apply counterReset_rule respond s.host
        (P := fun r => (asked = name → ∃ error, r.1 = .error error) →
          kept r.2 name = kept s.host name) asked
      · intro _ _ _
        rfl
      · intro _ hraised
        have hother : name ≠ asked := by
          rintro rfl
          obtain ⟨error, herror⟩ := hraised rfl
          cases herror
        exact congrArg PulseCounter.samples (Function.update_of_ne hother _ s.host.counters)
    | encoderDelta asked =>
      refine Or.inl ⟨rfl, ?_⟩
      apply encoderDelta_rule respond s.host (P := fun r => kept r.2 name = kept s.host name) asked
      · intro _ _
        rfl
      · intro _ _ _
        rfl
    | encoderReset asked =>
      refine Or.inl ⟨rfl, ?_⟩
      apply encoderReset_rule respond s.host (P := fun r => kept r.2 name = kept s.host name) asked
      · intro _ _
        rfl
      · intro _
        rfl
    | _ => exact absurd rfl hkeeps

/-! ### Runs -/

/-- No window that is still to come can ask for a sample that is gone. -/
def Remembers (name : String) (windowMs : ℤ) (s : Watch) : Prop :=
  ∀ cutoff : ℚ, (∀ sample ∈ s.past, sample.1 - windowMs / 1000 ≤ cutoff) →
    Keeps cutoff s.past (kept s.host name)

theorem step_remembers {s : Watch} {op : Operation}
    (hsteady : Steady respond name windowMs s op) (h : Remembers name windowMs s) :
    Remembers name windowMs (step respond name s op) := by
  intro cutoff hcutoff
  rcases step_cases respond hsteady with ⟨hnone, hkept⟩ |
    ⟨now, count, -, -, hclock, hreading, hkept⟩
  · rw [hkept]
    simp only [step, hnone, List.append_nil] at hcutoff ⊢
    exact h cutoff hcutoff
  · rw [hkept]
    simp only [step, hreading] at hcutoff ⊢
    have hnow : now - windowMs / 1000 ≤ cutoff := hcutoff (now, count) (by simp)
    have hpast : Keeps (now - windowMs / 1000) s.past (kept s.host name) := by
      apply h
      intro sample hsample
      have hbefore := hclock sample hsample
      linarith
    exact (hpast.push (now, count)).mono hnow

theorem rate_front {now : ℚ} {count : ℤ} {start : ℚ × ℤ} (next : ℚ × ℤ) (rest : List (ℚ × ℤ))
    (hclock : start.1 < now) :
    rate now count (start :: next :: rest) = (count - start.2) / (now - start.1) := by
  rw [rate, if_neg]
  linarith

theorem reference_mem {cutoff : ℚ} {past : List (ℚ × ℤ)} {s : ℚ × ℤ}
    (h : reference cutoff past = some s) : s ∈ past := by
  rcases Option.or_eq_some_iff.mp h with hfound | ⟨-, hlast⟩
  · exact List.mem_of_find?_eq_some hfound
  · exact List.mem_of_getLast? hlast

theorem step_exact {s : Watch} {op : Operation} (hsteady : Steady respond name windowMs s op)
    (h : Remembers name windowMs s) : Exact respond name windowMs s op := by
  cases op with
  | counterFrequency asked window now =>
    rintro rfl hwindow v hv
    obtain ⟨rfl, hclock⟩ := hsteady rfl hwindow
    rcases frequency_cases respond s.host hwindow now with
      ⟨-, ⟨error, hraised⟩, -⟩ | ⟨count, hread, hrate, -⟩
    · rw [hraised] at hv
      cases hv
    · refine ⟨count, hread, ?_⟩
      obtain rfl := Except.ok.inj (hrate.symm.trans hv)
      have hkeeps : Keeps (now - window / 1000) s.past (kept s.host asked) := by
        apply h
        intro sample hsample
        have hbefore := hclock sample hsample
        linarith
      rw [expected, hkeeps.reference_eq]
      by_cases hfirst : s.past = []
      · have hnone : kept s.host asked = [] := by
          obtain ⟨dropped, hpast, -⟩ := hkeeps.split
          rw [hfirst] at hpast
          exact (List.append_eq_nil_iff.mp hpast.symm).2
        rw [hnone]
        exact ⟨rfl, fun _ => le_rfl⟩
      · obtain ⟨start, next, rest, hstart, hfront⟩ :=
          trim_front (now - window / 1000) (now, count) (hkeeps.some_kept hfirst)
        have hmem : start ∈ s.past := by
          rw [← hkeeps.reference_eq] at hstart
          exact reference_mem hstart
        have hbefore := hclock start hmem
        rw [hfront, hstart, rate_front next rest hbefore]
        refine ⟨rfl, ?_⟩
        intro hcounts
        have hgrown : (start.2 : ℚ) ≤ count := by exact_mod_cast hcounts start hmem
        apply div_nonneg
        · linarith
        · linarith
  | _ => trivial

theorem Started.kept_nil {h : Host} (hstart : Started respond name h) : kept h name = [] := by
  rcases hstart with hfresh | ⟨before, hreset, rfl⟩
  · rw [kept, hfresh]
  · revert hreset
    apply counterReset_rule respond before
      (P := fun r => r.1 = .ok () → kept r.2 name = []) name
    · intro _ _ hraised
      cases hraised
    · intro _ _
      exact congrArg PulseCounter.samples (Function.update_self name _ before.counters)

/-- Every call of `frequency` with a window returns the rate over the right interval, whatever
else the program does with the client in between. -/
theorem rolling_frequency_exact {start : Host} (hstart : Started respond name start)
    {ops : List Operation}
    (hsteady : EachStep (step respond name) (Steady respond name windowMs) ⟨start, []⟩ ops) :
    EachStep (step respond name) (Exact respond name windowMs) ⟨start, []⟩ ops := by
  have hfirst : Remembers name windowMs ⟨start, []⟩ := by
    intro cutoff _
    rw [hstart.kept_nil]
    exact Keeps.nil cutoff
  have hiff := eachStep_congr (I := Remembers name windowMs) (G := fun _ _ => True)
    (fun _ _ hop => step_remembers respond hop)
    (fun s op hop hs => iff_of_true trivial (step_exact respond hop hs)) hfirst hsteady
  exact hiff.mp (eachStep_of_forall _ fun _ _ => trivial)

end Steps

/-! ### A pause longer than the window -/

/-- A device that counts ten pulses between one reading and the next. -/
def answering (log : List Command) : Except PyError (List UInt8) :=
  .ok (toBytes 4 (10 * (log.filter fun command => command.1 == .counterRead).length))

def burstAndPause : List Operation :=
  [.counterAttach "flow" (.number 7) "rising", .counterFrequency "flow" 100 0,
    .counterFrequency "flow" 100 (1 / 20), .counterFrequency "flow" 100 1]

/-- The last call finds no reading in its window and goes back to the previous one. -/
theorem pause_measured :
    (counterFrequency answering
      (after (step answering "flow") ⟨{}, []⟩ (burstAndPause.take 3)).host "flow" 100 1).1 =
        .ok (200 / 19) ∧
    EachStep (step answering "flow") (Exact answering "flow" 100) ⟨{}, []⟩ burstAndPause :=
  ⟨by decide +kernel, rolling_frequency_exact answering (Or.inl rfl)
    ⟨fun _ => rfl, fun _ _ => ⟨rfl, by decide +kernel⟩, fun _ _ => ⟨rfl, by decide +kernel⟩,
      fun _ _ => ⟨rfl, by decide +kernel⟩, trivial⟩⟩

end RollingFrequency
