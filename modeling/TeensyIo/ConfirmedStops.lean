import TeensyIo.ResponseOrigins

/-! # Stops and heartbeats that have taken effect

The three commands the safety of the outputs rests on. The firmware always acknowledges them;
whether the caller learns of that depends on the route the call takes and on the frame it takes
for its response. -/
namespace ConfirmedStops

open WireCommands HostProtocol HostClient FirmwareState FirmwareCommands FirmwareRequests
open FirmwareResponses DeviceLink ClientThreads ResponseOrigins RequestLayouts MachineRuns

/-- The command is one of the three, as `emergency_stop()` and its siblings issue it. -/
inductive IsSafety : Call → Request → Prop where
  | heartbeat {c} : c.command = .heartbeat → c.payload = [] → c.expectResponse = true →
      IsSafety c .heartbeat
  | emergencyStop {c} : c.command = .emergencyStop → c.payload = [] → c.expectResponse = true →
      IsSafety c .emergencyStop
  | clearEmergencyStop {c} : c.command = .clearEmergencyStop → c.payload = [] →
      c.expectResponse = true → IsSafety c .clearEmergencyStop

theorem IsSafety.expects {c : Call} {r : Request} (h : IsSafety c r) :
    c.expectResponse = true := by
  cases h <;> assumption

theorem IsSafety.laid {c : Call} {r : Request} (h : IsSafety c r) :
    Laid r c.command c.payload ∧ c.payload.length < maxPayloadSize := by
  cases h with
  | heartbeat hcommand hpayload => rw [hcommand, hpayload]; exact ⟨.heartbeat, by decide⟩
  | emergencyStop hcommand hpayload => rw [hcommand, hpayload]; exact ⟨.emergencyStop, by decide⟩
  | clearEmergencyStop hcommand hpayload =>
    rw [hcommand, hpayload]
    exact ⟨.clearEmergencyStop, by decide⟩

/-- Whatever state it is in, the firmware executes the request and acknowledges it. -/
theorem safety_acked {b : Board} {c : Call} {r : Request} (hs : IsSafety c r) {p : Packet}
    (h : Answered b c p) : p.type = .ack := by
  obtain ⟨hlaid, hlength⟩ := hs.laid
  cases h with
  | @handled env device w hw =>
    rw [c.handle_laid hlaid hlength] at hw
    cases hs with
    | heartbeat =>
      obtain rfl := List.mem_singleton.mp hw
      rfl
    | emergencyStop =>
      rw [execute, emergencyStop, framesWritten_append, framesWritten_applySafeOutputs] at hw
      obtain rfl := List.mem_singleton.mp hw
      rfl
    | clearEmergencyStop =>
      obtain rfl := List.mem_singleton.mp hw
      rfl

/-- The frame of the call has been written, and the device's acknowledgement of this very
frame has been received. -/
structure TakenEffect (b : Board) (s : Crew) (r : Return) : Prop where
  written : r.call ∈ s.written
  acked : ∃ p, r.taken = some (p, .response r.call) ∧ Answered b r.call p ∧ p.type = .ack

/-- Every stop, clearing and heartbeat that has returned without an exception has taken effect. -/
def Effective (b : Board) (s : Crew) : Prop :=
  ∀ r ∈ s.returns, ∀ request, IsSafety r.call request → r.result.isOk = true → TakenEffect b s r

/-- A call of the three that comes to its end found no batch open when it chose its route; and
if it takes an Ack or Data frame, then none that it mistakes for its response. -/
def Confirming (o : Options) (s : Crew) (move : Move) : Prop :=
  ∀ c met, ending o s move = some (c, met) → ∀ request, IsSafety c request →
    c.depth ≤ 0 ∧ ∀ arrival ∈ met, Readable 0 arrival.1 → ¬ Mistaken c arrival

/-- What is left of the effect once it is known that a call that waits has been written. -/
def Acked (b : Board) (r : Return) : Prop :=
  ∀ request, IsSafety r.call request → r.result.isOk = true →
    ∃ p, r.taken = some (p, .response r.call) ∧ Answered b r.call p ∧ p.type = .ack

theorem effective_iff {b : Board} {o : Options} {s : Crew} (h : Traced b o s) :
    Effective b s ↔ ∀ r ∈ s.returns, Acked b r := by
  constructor
  · exact fun hall r hr request hs hok => (hall r hr request hs hok).acked
  · intro hall r hr request hs hok
    obtain ⟨p, hp, hanswered⟩ := hall r hr request hs hok
    refine ⟨?_, p, hp, hanswered⟩
    cases h.returns r hr with
    | raised error => cases hp
    | queued hq => cases hp
    | sent hq he hwritten => exact hwritten
    | answered hq he hwritten hseq hgenuine => exact hwritten

theorem confirming_iff {b : Board} {o : Options} {s : Crew} (h : Sorted b o s) (move : Move) :
    (∀ c met, ending o s move = some (c, met) → Acked b ⟨c, outcome met, met⟩) ↔
      Confirming o s move := by
  refine forall₃_congr fun c met hending => ?_
  constructor
  · intro hacked request hs
    have hexpects := hs.expects
    cases met with
    | none =>
      obtain ⟨p, hp, -⟩ := hacked request hs rfl
      cases hp
    | some arrival =>
      obtain ⟨⟨hq, -, -⟩, -, -⟩ := h.taken hending
      refine ⟨Int.not_lt.mp fun hdepth => hq (Or.inl hdepth), fun a ha hreadable => ?_⟩
      obtain rfl := Option.some.inj ha
      obtain ⟨p, hp, -⟩ := hacked request hs (commandResult_ok.mpr hreadable)
      exact (h.own_iff hending hreadable).mp (congrArg Prod.snd (Option.some.inj hp))
  · intro hconfirming request hs hok
    obtain ⟨hdepth, hclear⟩ := hconfirming request hs
    have hexpects := hs.expects
    cases met with
    | none =>
      rcases h.unanswered hending with hq | hq
      · rcases hq with hq | hq
        · exact absurd hq (Int.not_lt.mpr hdepth)
        · exact absurd hexpects hq.2
      · rw [hexpects] at hq
        cases hq
    | some arrival =>
      have hreadable := commandResult_ok.mp hok
      have hown := (h.own_iff hending hreadable).mpr (hclear arrival rfl hreadable)
      obtain ⟨-, harrival, -⟩ := h.taken hending
      obtain ⟨p, source⟩ := arrival
      obtain rfl : source = .response c := hown
      obtain ⟨-, hanswered⟩ := h.traced.incoming _ harrival c rfl
      exact ⟨p, rfl, hanswered, safety_acked hs hanswered⟩

/-- For every run of the threads, the device and the line: in every state, every stop, clearing
and heartbeat that has returned without an exception has taken effect, exactly if each of them
found no batch open and mistook no frame for its response. -/
theorem effect_iff (b : Board) (o : Options) (moves : List Move) :
    EachState (Crew.step b o) (Effective b) {} moves ↔
      EachStep (Crew.step b o) (Confirming o) {} moves := by
  have hacked := eachState_congr (I := Traced b o) (fun _ move h => h.step move)
    (fun _ h => effective_iff h) (traced_initial b o) moves
  exact hacked.trans
    (returned_iff (fun _ _ _ _ hok => by cases hok) (fun _ move h => confirming_iff h move) moves)

/-- The call `emergency_stop()` as a first command, in a batch of another thread. -/
def stopCall : Call where
  number := 1
  command := .emergencyStop
  payload := []
  expectResponse := true
  encoded := [0xA5, 1, 1, 1, 0, 1, 0, 0xF0, 0x71, 0x7E]
  older := []
  depth := 1

/-- One thread has begun a batch; the stop of another returns and nothing has been sent. -/
theorem stop_in_batch_unsent :
    let moves : List Move :=
      [.act 0 .beginBatch, .act 1 (.invoke .emergencyStop [] true), .proceed 1, .proceed 1,
        .proceed 1]
    let s := after (Crew.step FirmwareDevice.sampleBoard {}) {} moves
    s.returns = [⟨stopCall, .ok [], none⟩] ∧ s.written = [] ∧
      ¬ EachState (Crew.step FirmwareDevice.sampleBoard {})
        (Effective FirmwareDevice.sampleBoard) {} moves := by
  intro moves s
  have hreturns : s.returns = [⟨stopCall, .ok [], none⟩] := by decide +kernel
  refine ⟨hreturns, by decide +kernel, fun hstates => ?_⟩
  have heffect := eachState_after hstates ⟨stopCall, .ok [], none⟩
    (by rw [hreturns]; exact List.mem_singleton_self _)
    .emergencyStop (.emergencyStop rfl rfl rfl) rfl
  obtain ⟨p, hp, -⟩ := heffect.acked
  cases hp

end ConfirmedStops
