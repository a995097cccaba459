import TeensyIo.ConfirmedStops
import TeensyIo.FailSafe

/-! # A stop that stays

The threads of the client beside the pins. Once a stop is confirmed to one thread it holds for
all of them: what the others still have on its way, and what they send later, drives nothing
until somebody clears the stop. -/
namespace StopPersistence

open WireCommands HostProtocol FirmwareState FirmwareUpdate FirmwareRequests FirmwareResponses
open FirmwareDevice FirmwareSafeState ClientThreads WriteOrder ResponseOrigins ConfirmedStops
open MachineRuns
open FailSafe (SafelyStopped safelyStopped)
open FirmwareCommands (byte)

structure Plant where
  crew : Crew := {}
  hardware : Hardware := {}

namespace Plant

def device (p : Plant) : Device := ⟨p.crew.device, p.hardware⟩

/-- The firmware's call that the move is, if it is one. -/
def event (s : Crew) : Move → Option Event
  | .takeCommand env => s.wire.head?.map fun c => .handle env c.packet
  | .update env => some (.update env)
  | .counterTick env id => some (.counterTick env id)
  | .encoderTick env id => some (.encoderTick env id)
  | _ => none

def step (b : Board) (o : HostClient.Options) (p : Plant) (move : Move) : Plant where
  crew := p.crew.step b o move
  hardware :=
    match event p.crew move with
    | none => p.hardware
    | some e => p.hardware.run (react b p.crew.device e).2

end Plant

/-- The move begins the clearing of a stop. -/
def Clears : Move → Prop
  | .act _ (.invoke .clearEmergencyStop _ _) => True
  | _ => False

instance : DecidablePred Clears := by
  intro move
  unfold Clears
  split <;> infer_instance

/-- No clearing of a stop is on its way to the device. -/
structure Quelled (s : Crew) : Prop where
  points : ∀ t, ∀ x ∈ s.threads t, ∀ c, unfiled x = some c → c.command ≠ .clearEmergencyStop
  queued : ∀ c ∈ s.queued, c.command ≠ .clearEmergencyStop
  wire : ∀ c ∈ s.wire, c.command ≠ .clearEmergencyStop

/-- The call has taken the response to its own frame. -/
def Confirmed (r : Return) : Prop := ∃ p, r.taken = some (p, .response r.call)

theorem quelled_initial : Quelled {} where
  points := by simp
  queued := by simp
  wire := by simp

section Steps

variable {b : Board} {o : HostClient.Options} {s : Crew} {p : Plant} {move : Move}

/-! ### What is on its way -/

theorem Quelled.put (h : Quelled s) (t : ℕ) {stack : List Point}
    (hstack : ∀ x ∈ stack, ∀ c, unfiled x = some c → c.command ≠ .clearEmergencyStop) :
    Quelled (s.put t stack) where
  points u x hx := by
    by_cases hu : u = t
    · subst u
      rw [put_threads_self] at hx
      exact hstack x hx
    · rw [put_threads_of_ne s hu] at hx
      exact h.points u x hx
  queued := h.queued
  wire := h.wire

theorem Quelled.finish (h : Quelled s) (t : ℕ) {below : List Point}
    (hbelow : ∀ x ∈ below, ∀ c, unfiled x = some c → c.command ≠ .clearEmergencyStop)
    (r : Return) : Quelled (s.finish t below r) :=
  ⟨(h.put t hbelow).points, h.queued, h.wire⟩

/-- A section leaves the point it stands at for one that has nothing left to file. -/
theorem Quelled.goto (h : Quelled s) (t : ℕ) {x : Point} {below : List Point}
    (hbelow : ∀ x ∈ below, ∀ c, unfiled x = some c → c.command ≠ .clearEmergencyStop)
    (hx : unfiled x = none) : Quelled (s.put t (x :: below)) := by
  apply h.put t
  intro y hy c hc
  rcases List.mem_cons.mp hy with rfl | hy
  · rw [hx] at hc
    cases hc
  · exact hbelow y hy c hc

theorem Quelled.transmit (h : Quelled s) {calls : List Call}
    (hcalls : ∀ c ∈ calls, c.command ≠ .clearEmergencyStop) : Quelled (s.transmit calls) where
  points := h.points
  queued := h.queued
  wire c hc := by
    rcases List.mem_append.mp hc with hc | hc
    · exact h.wire c hc
    · exact hcalls c hc

theorem Quelled.flushChunk (h : Quelled s) : Quelled (s.flushChunk o) :=
  Quelled.transmit (s := { s with
    queued := s.queued.drop (Crew.chunkCount o s.queued)
    queuedBytes := _ })
    ⟨h.points, fun c hc => h.queued c (List.mem_of_mem_drop hc), h.wire⟩
    fun c hc => h.queued c (List.mem_of_mem_take hc)

theorem Quelled.act (h : Quelled s) (t : ℕ) {action : Action}
    (hclear : ¬ Clears (.act t action)) : Quelled (s.act t action) := by
  cases action with
  | invoke command payload expectResponse =>
    have hcommand : command ≠ .clearEmergencyStop := by
      rintro rfl
      exact hclear trivial
    have hcounted : Quelled { s with issued := s.issued + 1 } := ⟨h.points, h.queued, h.wire⟩
    simp only [Crew.act, Crew.invoke]
    split
    · exact hcounted.finish t (h.points t) _
    · apply hcounted.put t
      intro x hx c hc
      rcases List.mem_cons.mp hx with rfl | hx
      · obtain rfl := Option.some.inj hc
        exact hcommand
      · exact h.points t x hx c hc
  | beginBatch => exact ⟨h.points, h.queued, h.wire⟩
  | endBatch =>
    have hdepth : Quelled { s with batchDepth := s.batchDepth - 1 } :=
      ⟨h.points, h.queued, h.wire⟩
    simp only [Crew.act]
    split_ifs
    · exact hdepth.goto t (h.points t) rfl
    · exact hdepth
  | flush => exact h.goto t (h.points t) rfl

theorem Quelled.proceed (h : Quelled s) (t : ℕ) : Quelled (s.proceed o t (s.threads t)) := by
  have hpoints := h.points t
  cases hstack : s.threads t with
  | nil => exact h
  | cons x below =>
    rw [hstack] at hpoints
    have hbelow : ∀ y ∈ below, ∀ c, unfiled y = some c → c.command ≠ .clearEmergencyStop :=
      fun y hy => hpoints y (List.mem_cons_of_mem x hy)
    cases x with
    | deciding c =>
      have hc := hpoints _ List.mem_cons_self c rfl
      apply h.put t
      intro y hy d hd
      rcases List.mem_cons.mp hy with rfl | hy
      · split_ifs at hd
        · obtain rfl := Option.some.inj hd
          exact hc
        · obtain rfl := Option.some.inj hd
          exact hc
      · exact hbelow y hy d hd
    | queueing c =>
      have hc := hpoints _ List.mem_cons_self c rfl
      simp only [Crew.proceed]
      split_ifs
      · exact h.finish t hbelow _
      · have hqueued : Quelled { s with
            queued := s.queued ++ [c], queuedBytes := s.queuedBytes + c.encoded.length } := by
          refine ⟨h.points, ?_, h.wire⟩
          intro d hd
          rcases List.mem_append.mp hd with hd | hd
          · exact h.queued d hd
          · obtain rfl := List.mem_singleton.mp hd
            exact hc
        exact hqueued.goto t hbelow rfl
    | queued c =>
      simp only [Crew.proceed]
      split_ifs
      · exact h.goto t hbelow rfl
      · exact h.finish t hbelow _
    | writing c =>
      have hsent : Quelled (s.transmit [c]) := by
        apply h.transmit
        intro d hd
        obtain rfl := List.mem_singleton.mp hd
        exact hpoints _ List.mem_cons_self d rfl
      have hentered : Quelled ((s.transmit [c]).enter t) :=
        ⟨hsent.points, hsent.queued, hsent.wire⟩
      simp only [Crew.proceed]
      split_ifs
      · exact hentered.goto t hbelow rfl
      · exact hsent.finish t hbelow _
      · exact h
    | awaiting c inCallback => exact h
    | entering cause =>
      have hentered : Quelled (s.enter t) := ⟨h.points, h.queued, h.wire⟩
      simp only [Crew.proceed]
      split_ifs
      · exact hentered.goto t hbelow rfl
      · exact h
    | flushing cause =>
      have hleft : Quelled s.leave := ⟨h.points, h.queued, h.wire⟩
      simp only [Crew.proceed]
      split_ifs
      · exact h.flushChunk
      · cases cause with
        | none => exact hleft.put t hbelow
        | some c => exact hleft.finish t hbelow _

theorem Quelled.receive (h : Quelled s) (t : ℕ) :
    Quelled (s.receive t (s.threads t) s.incoming) := by
  have hpoints := h.points t
  simp only [Crew.receive]
  split
  · rename_i c inCallback below arrival rest hstack hincoming
    rw [hstack] at hpoints
    have hbelow : ∀ y ∈ below, ∀ c, unfiled y = some c → c.command ≠ .clearEmergencyStop :=
      fun y hy => hpoints y (List.mem_cons_of_mem _ hy)
    split_ifs
    · exact Quelled.finish (s := { s with incoming := rest }.leave)
        ⟨h.points, h.queued, h.wire⟩ t hbelow _
    · exact Quelled.goto (s := { s with incoming := rest }) ⟨h.points, h.queued, h.wire⟩ t hbelow
        rfl
  · exact h

theorem Quelled.fail (h : Quelled s) (t : ℕ) (error : PyError) :
    Quelled (s.fail t error (s.threads t)) := by
  have hpoints := h.points t
  rw [Crew.fail.eq_def]
  split
  · rename_i c inCallback below hstack
    rw [hstack] at hpoints
    exact Quelled.finish (s := s.leave) ⟨h.points, h.queued, h.wire⟩ t
      (fun y hy => hpoints y (List.mem_cons_of_mem _ hy)) _
  · exact h

theorem Quelled.step (h : Quelled s) (hclear : ¬ Clears move) : Quelled (s.step b o move) := by
  cases move with
  | act t action =>
    simp only [Crew.step]
    split_ifs
    · exact h.act t hclear
    · exact h
  | proceed t => exact h.proceed t
  | receive t => exact h.receive t
  | fail t error => exact h.fail t error
  | takeCommand env =>
    simp only [Crew.step]
    split
    · exact h
    · rename_i c rest hwire
      refine ⟨h.points, h.queued, ?_⟩
      intro d hd
      apply h.wire d
      rw [hwire]
      exact List.mem_cons_of_mem c hd
  | _ => exact ⟨h.points, h.queued, h.wire⟩

/-! ### The device -/

/-- The calls into the firmware are those of its own runs. -/
theorem device_step (b : Board) (o : HostClient.Options) (p : Plant) (move : Move) :
    (p.step b o move).device =
      match Plant.event p.crew move with
      | none => p.device
      | some e => p.device.step b e := by
  cases move with
  | act t action =>
    have hdevice : (p.crew.step b o (.act t action)).device = p.crew.device := by
      simp only [Crew.step]
      split_ifs
      · exact (act_untouched t action).device
      · rfl
    exact congrArg (Device.mk · p.hardware) hdevice
  | proceed t => exact congrArg (Device.mk · p.hardware) (proceed_untouched t _).device
  | receive t => exact congrArg (Device.mk · p.hardware) (receive_untouched t).device
  | fail t error => exact congrArg (Device.mk · p.hardware) (fail_untouched t error _).device
  | takeCommand env =>
    cases hwire : p.crew.wire with
    | nil => simp only [Plant.device, Plant.step, Plant.event, Crew.step, hwire, List.head?_nil,
        Option.map_none]
    | cons c rest =>
      simp only [Plant.device, Plant.step, Plant.event, Crew.step, hwire, List.head?_cons,
        Option.map_some]
      rfl
  | _ => rfl

theorem safe_step (h : SafeInvariant b p.device) (move : Move) :
    SafeInvariant b (p.step b o move).device := by
  rw [device_step]
  cases Plant.event p.crew move with
  | none => exact h
  | some e => exact h.step e

theorem clear_of_decode {q : FirmwareProtocol.Packet} {command : CommandId}
    (h : requestOf q command = .ok .clearEmergencyStop) : command = .clearEmergencyStop := by
  cases command with
  | clearEmergencyStop => rfl
  | i2cWrite =>
    simp only [requestOf] at h
    split at h
    · cases h
    · split at h <;> cases h
  | _ =>
    simp only [requestOf, taking] at h
    first
    | cases h
    | (split at h <;> cases h)

/-- A frame with another command does not clear the stop. -/
theorem not_clear_packet {c : Call} (hc : c.command ≠ .clearEmergencyStop) :
    decode c.packet ≠ .ok .clearEmergencyStop := by
  intro hdecode
  have hfirst : byte c.packet 0 = c.command.toByte := by
    simp [byte, Call.packet, commandPacket, FirmwareProtocol.padded]
  rw [decode, hfirst, CommandId.ofByte_toByte] at hdecode
  split_ifs at hdecode
  exact hc (clear_of_decode hdecode)

theorem not_carries (h : Quelled s) {e : Event} (he : Plant.event s move = some e) :
    ¬ Carries .clearEmergencyStop e := by
  cases move with
  | takeCommand env =>
    obtain ⟨c, hc, rfl⟩ := Option.map_eq_some_iff.mp he
    exact not_clear_packet (h.wire c (List.mem_of_mem_head? hc))
  | act | proceed | receive | fail | lose | garble => cases he
  | update | counterTick | encoderTick =>
    obtain rfl := Option.some.inj he
    exact id

/-- A stop with no clearing on its way to it stays. -/
theorem locked_step (hsafe : SafeInvariant b p.device) (hquelled : Quelled p.crew)
    (hlocked : p.crew.device.safety.outputsAllowed = false) (move : Move) :
    (p.step b o move).crew.device.safety.outputsAllowed = false := by
  change (p.step b o move).device.state.safety.outputsAllowed = false
  rw [device_step]
  cases he : Plant.event p.crew move with
  | none => exact hlocked
  | some e => exact (stopped_step hsafe hlocked e (not_carries hquelled he)).1

/-- The device that handles the frame of a stop is stopped. -/
theorem stop_handled {c : Call} (hc : IsSafety c .emergencyStop) (b : Board) (env : Env)
    (s : State) : (FirmwareCommands.handle b env s c.packet).1.safety.outputsAllowed = false := by
  obtain ⟨hlaid, hlength⟩ := hc.laid
  rw [c.handle_laid hlaid hlength, execute_safety]
  rfl

/-! ### Runs -/

/-- Whoever has, or has on its way, the response to a stop with a number beyond `n` can rely on
it. -/
structure Relied (b : Board) (o : HostClient.Options) (n : ℕ) (p : Plant) : Prop where
  sorted : Sorted b o p.crew
  safe : SafeInvariant b p.device
  quelled : Quelled p.crew
  incoming : ∀ arrival ∈ p.crew.incoming, ∀ c, arrival.2 = .response c → n < c.number →
    IsSafety c .emergencyStop → p.crew.device.safety.outputsAllowed = false
  returns : ∀ r ∈ p.crew.returns, n < r.call.number → IsSafety r.call .emergencyStop →
    Confirmed r → p.crew.device.safety.outputsAllowed = false

/-- None of the calls made so far is among those with numbers beyond the last. -/
theorem relied_start (hsorted : Sorted b o p.crew) (hsafe : SafeInvariant b p.device)
    (hquelled : Quelled p.crew) : Relied b o p.crew.issued p where
  sorted := hsorted
  safe := hsafe
  quelled := hquelled
  incoming := by
    intro arrival harrival c hc hlt _
    obtain ⟨hwritten, -⟩ := hsorted.traced.incoming arrival harrival c hc
    have hle := hsorted.filed.issued c (List.mem_append_left _ hwritten)
    omega
  returns := by
    intro r hr hlt _ hconfirmed
    obtain ⟨q, hq⟩ := hconfirmed
    have hwritten : r.call ∈ p.crew.written := by
      cases hsorted.traced.returns r hr with
      | raised error => cases hq
      | queued hqueues => cases hq
      | sent hqueues hexpects hwritten => cases hq
      | answered hqueues hexpects hwritten hseq hgenuine => exact hwritten
    have hle := hsorted.filed.issued r.call (List.mem_append_left _ hwritten)
    omega

/-- The frames on their way after a move were so before it, answer the command that the device
has taken, or are no responses. -/
theorem incoming_step (b : Board) (o : HostClient.Options) (s : Crew) (move : Move)
    {arrival : Packet × Source} (harrival : arrival ∈ (s.step b o move).incoming) {c : Call}
    (hc : arrival.2 = .response c) :
    arrival ∈ s.incoming ∨ ∃ env, move = .takeCommand env ∧ s.wire.head? = some c := by
  cases move with
  | act t action =>
    left
    simp only [Crew.step] at harrival
    split_ifs at harrival
    · exact (act_untouched t action).incoming harrival
    · exact harrival
  | proceed t => exact Or.inl ((proceed_untouched t _).incoming harrival)
  | receive t => exact Or.inl ((receive_untouched t).incoming harrival)
  | fail t error => exact Or.inl ((fail_untouched t error _).incoming harrival)
  | takeCommand env =>
    cases hwire : s.wire with
    | nil =>
      simp only [Crew.step, hwire] at harrival
      exact Or.inl harrival
    | cons d rest =>
      simp only [Crew.step, hwire] at harrival
      rcases List.mem_append.mp harrival with hbefore | hnew
      · exact Or.inl hbefore
      · obtain ⟨w, -, rfl⟩ := List.mem_map.mp hnew
        obtain rfl := Source.response.inj hc
        exact Or.inr ⟨env, rfl, rfl⟩
  | update env =>
    rcases List.mem_append.mp harrival with hbefore | hnew
    · exact Or.inl hbefore
    · obtain ⟨w, -, rfl⟩ := List.mem_map.mp hnew
      cases hc
  | counterTick env id => exact Or.inl harrival
  | encoderTick env id => exact Or.inl harrival
  | lose => exact Or.inl (List.mem_of_mem_tail harrival)
  | garble packet =>
    rcases List.mem_cons.mp harrival with rfl | hbefore
    · cases hc
    · exact Or.inl hbefore

theorem Relied.step {n : ℕ} (h : Relied b o n p) (hclear : ¬ Clears move) :
    Relied b o n (p.step b o move) where
  sorted := h.sorted.step move
  safe := safe_step h.safe move
  quelled := h.quelled.step hclear
  incoming := by
    intro arrival harrival c hc hlt hstop
    rcases incoming_step b o p.crew move harrival hc with hbefore | ⟨env, rfl, hhead⟩
    · exact locked_step h.safe h.quelled (h.incoming arrival hbefore c hc hlt hstop) move
    · obtain ⟨rest, hwire⟩ := List.head?_eq_some_iff.mp hhead
      change (p.crew.step b o _).device.safety.outputsAllowed = false
      simp only [Crew.step, hwire]
      exact stop_handled hstop b env p.crew.device
  returns := by
    let Heeded : Return → Prop := fun r => n < r.call.number →
      IsSafety r.call .emergencyStop → Confirmed r →
      (p.step b o move).crew.device.safety.outputsAllowed = false
    have hraised : ∀ c error, Heeded ⟨c, .error error, none⟩ := by
      rintro c error _ _ ⟨q, hq⟩
      cases hq
    have hold : ∀ r ∈ p.crew.returns, Heeded r := by
      intro r hr hlt hstop hconfirmed
      exact locked_step h.safe h.quelled (h.returns r hr hlt hstop hconfirmed) move
    apply (returns_step hraised hold move).mpr
    rintro c met hending hlt hstop ⟨q, hq⟩
    obtain rfl : met = some (q, .response c) := hq
    obtain ⟨-, harrival, -⟩ := h.sorted.taken hending
    exact locked_step h.safe h.quelled (h.incoming _ harrival c rfl hlt hstop) move

end Steps

theorem invariants (b : Board) (o : HostClient.Options) (moves : List Move) :
    let p := after (Plant.step b o) {} moves
    Sorted b o p.crew ∧ SafeInvariant b p.device := by
  have hsafe : SafeInvariant b (Plant.device {}) := safe_initial b
  have hkeep : ∀ (p : Plant) move, Sorted b o p.crew ∧ SafeInvariant b p.device →
      Sorted b o (p.step b o move).crew ∧ SafeInvariant b (p.step b o move).device :=
    fun p move h => ⟨h.1.step move, safe_step h.2 move⟩
  exact after_preserves hkeep ⟨sorted_initial b o, hsafe⟩ moves

/-- From any state in which no clearing is on its way: as long as no thread begins one, in every
state in which a stop begun since has returned with its own response, no pin is driven and
every energising command of every thread is refused. -/
theorem stop_persists (b : Board) (o : HostClient.Options) (before later : List Move)
    (hquelled : Quelled (after (Plant.step b o) {} before).crew)
    (hclear : ∀ move ∈ later, ¬ Clears move) :
    let start := after (Plant.step b o) {} before
    EachState (Plant.step b o)
      (fun p => ∀ r ∈ p.crew.returns, start.crew.issued < r.call.number →
        IsSafety r.call .emergencyStop → Confirmed r → SafelyStopped b p.device)
      start later := by
  intro start
  obtain ⟨hsorted, hsafe⟩ := invariants b o before
  refine eachState_of_eachStep (fun p move h hc => h.step hc) ?_
    (relied_start hsorted hsafe hquelled) (eachStep_of_forall start hclear)
  intro p h r hr hlt hstop hconfirmed
  exact safelyStopped b h.safe (h.returns r hr hlt hstop hconfirmed)

/-- The call `emergency_stop()` as a second command. -/
def secondStop : Call where
  number := 2
  command := .emergencyStop
  payload := []
  expectResponse := true
  encoded := [0xA5, 1, 1, 2, 0, 1, 0, 0xF0, 0xA3, 0x90]
  older := []

/-- One thread is about to write a pin when the stop of another returns; the write that follows
finds the device stopped. -/
theorem late_write_refused :
    let later : List Move :=
      [.act 1 (.invoke .digitalWrite [13, 1] true), .proceed 1,
        .act 0 (.invoke .emergencyStop [] true), .proceed 0, .proceed 0, .takeCommand (envAt 0),
        .receive 0, .proceed 1, .takeCommand (envAt 0)]
    let p := after (Plant.step sampleBoard {}) {} later
    p.crew.incoming.map (fun arrival => arrival.1.payload) =
        [[ErrorCode.emergencyStopActive.toByte]] ∧
      SafelyStopped sampleBoard p.device := by
  intro later p
  have hstates := stop_persists sampleBoard {} [] later quelled_initial (by decide)
  have hreturns : p.crew.returns =
      [⟨secondStop, .ok [], some (⟨.ack, 2, [0]⟩, .response secondStop)⟩] := by decide +kernel
  refine ⟨by decide +kernel, ?_⟩
  refine eachState_after hstates ⟨secondStop, .ok [], some (⟨.ack, 2, [0]⟩, .response secondStop)⟩
    ?_ (by decide) (.emergencyStop rfl rfl rfl) ⟨_, rfl⟩
  change _ ∈ p.crew.returns
  rw [hreturns]
  exact List.mem_singleton_self _

end StopPersistence
