import TeensyIo.FirmwareDevice

/-! # What the firmware writes to the host

Handling a packet writes one response, under the packet's own number; an update writes only
frames of the outbound ring, all under the number zero. -/
namespace FirmwareResponses

open WireCommands FirmwareState FirmwareCommands FirmwareUpdate FirmwareRequests
open FirmwareOutcomes FirmwareDevice
open FirmwareProtocol (Packet kMaxPayloadSize)

/-- The arguments of a call of `PacketWriter::write`. -/
structure Written where
  type : PacketType
  seq : UInt16
  payload : List UInt8
  deriving DecidableEq, Repr

def frameWritten : Effect → Option Written
  | .write type seq payload => some ⟨type, seq, payload⟩
  | _ => none

/-- The frames among the effects, in the order they are written. -/
def framesWritten (effects : List Effect) : List Written := effects.filterMap frameWritten

/-- A response to the packet with this number. -/
structure Answers (seq : UInt16) (w : Written) : Prop where
  type_ok : w.type = .ack ∨ w.type = .nack ∨ w.type = .data
  seq_eq : w.seq = seq
  fits : w.payload.length ≤ kMaxPayloadSize

/-- A frame the firmware sends of its own accord. -/
structure Unsolicited (w : Written) : Prop where
  type_ok : w.type = .event ∨ w.type = .telemetry
  seq_eq : w.seq = 0
  fits : w.payload.length ≤ kMaxPayloadSize

theorem framesWritten_append (es fs : List Effect) :
    framesWritten (es ++ fs) = framesWritten es ++ framesWritten fs := List.filterMap_append

theorem framesWritten_none {es : List Effect} (h : ∀ e ∈ es, frameWritten e = none) :
    framesWritten es = [] := List.filterMap_eq_nil_iff.mpr h

theorem framesWritten_applySafeOutputs (b : Board) (s : State) :
    framesWritten (applySafeOutputs b s) = [] := by
  refine framesWritten_none fun e he => ?_
  obtain ⟨pin, -, -, rfl⟩ := mem_applySafeOutputs.mp he
  rfl

theorem framesWritten_detachCounter (s : State) (id : UInt8) :
    framesWritten (detachCounter s id) = [] := by
  refine framesWritten_none fun e he => ?_
  obtain ⟨-, rfl⟩ := mem_detachCounter.mp he
  rfl

theorem framesWritten_detachEncoder (s : State) (id : UInt8) :
    framesWritten (detachEncoder s id) = [] := by
  refine framesWritten_none fun e he => ?_
  obtain ⟨-, rfl | rfl⟩ := mem_detachEncoder.mp he <;> rfl

theorem framesWritten_detachCounters (s : State) : framesWritten (detachCounters s) = [] := by
  refine framesWritten_none fun e he => ?_
  obtain ⟨id, -, he⟩ := List.mem_flatMap.mp he
  obtain ⟨-, rfl⟩ := mem_detachCounter.mp he
  rfl

theorem framesWritten_detachEncoders (s : State) : framesWritten (detachEncoders s) = [] := by
  refine framesWritten_none fun e he => ?_
  obtain ⟨id, -, he⟩ := List.mem_flatMap.mp he
  obtain ⟨-, rfl | rfl⟩ := mem_detachEncoder.mp he <;> rfl

variable (b : Board) (env : Env) (s : State) {seq : UInt16}

theorem answers_ack : Answers seq ⟨.ack, seq, [ErrorCode.ok.toByte]⟩ :=
  ⟨Or.inl rfl, rfl, by simp⟩

theorem answers_nack (code : ErrorCode) : Answers seq ⟨.nack, seq, [code.toByte]⟩ :=
  ⟨Or.inr (Or.inl rfl), rfl, by simp⟩

theorem answers_data {payload : List UInt8} (h : payload.length ≤ kMaxPayloadSize) :
    Answers seq ⟨.data, seq, payload⟩ := ⟨Or.inr (Or.inr rfl), rfl, h⟩

/-- Traffic on an I2C bus. -/
def BusTraffic : Effect → Prop
  | .transmit _ _ _ _ => True
  | .requestFrom _ _ _ => True
  | _ => False

/-- The state is as before, and nothing but bus traffic precedes the response. -/
structure Harmless (s : State) (seq : UInt16) (out : Outcome) (w : Written) : Prop where
  state : out.1 = s
  effects : ∃ traffic, (∀ e ∈ traffic, BusTraffic e) ∧
    out.2 = traffic ++ [.write w.type w.seq w.payload]
  answers : Answers seq w

theorem Harmless.framesWritten {out : Outcome} {w : Written} (h : Harmless s seq out w) :
    framesWritten out.2 = [w] := by
  obtain ⟨traffic, htraffic, heffects⟩ := h.effects
  have hnone : FirmwareResponses.framesWritten traffic = [] := by
    refine framesWritten_none fun e he => ?_
    cases e with
    | write type seq payload => exact (htraffic _ he).elim
    | _ => rfl
  rw [heffects, framesWritten_append, hnone]
  rfl

theorem harmless_alone {w : Written} (h : Answers seq w) :
    Harmless s seq (s, [.write w.type w.seq w.payload]) w := ⟨rfl, ⟨[], by simp, rfl⟩, h⟩

theorem harmless_after {e : Effect} (he : BusTraffic e) {w : Written} (h : Answers seq w) :
    Harmless s seq (s, [e, .write w.type w.seq w.payload]) w :=
  ⟨rfl, ⟨[e], by simpa using he, rfl⟩, h⟩

/-- A request is acknowledged, or it has done nothing but talk on a bus. -/
theorem executed_frames {r : Request} {out : Outcome} (h : Executed b env s seq r out) :
    framesWritten out.2 = [⟨.ack, seq, [ErrorCode.ok.toByte]⟩] ∨ ∃ w, Harmless s seq out w := by
  cases h with
  | refused code => exact Or.inr ⟨_, harmless_alone s (answers_nack code)⟩
  | answered payload hfits => exact Or.inr ⟨_, harmless_alone s (answers_data hfits)⟩
  | i2cRead payload hfits =>
    refine Or.inr ⟨_, harmless_after s ?_ (answers_data hfits)⟩
    trivial
  | dacFailed bytes =>
    refine Or.inr ⟨_, harmless_after s ?_ (answers_nack _)⟩
    trivial
  | i2cWrite type code _ _ _ htype =>
    have hanswers : Answers seq ⟨type, seq, [code.toByte]⟩ :=
      ⟨htype.elim Or.inl fun h => Or.inr (Or.inl h), rfl, by simp⟩
    refine Or.inr ⟨_, harmless_after s ?_ hanswers⟩
    trivial
  | resetConfig =>
    refine Or.inl ?_
    rw [resetConfig, framesWritten_append, framesWritten_append, framesWritten_append,
      framesWritten_applySafeOutputs, framesWritten_detachCounters, framesWritten_detachEncoders]
    rfl
  | emergencyStop =>
    refine Or.inl ?_
    rw [emergencyStop, framesWritten_append, framesWritten_applySafeOutputs]
    rfl
  | @configCounter id =>
    refine Or.inl ?_
    rw [framesWritten_append, framesWritten_detachCounter s id]
    rfl
  | @configEncoder id =>
    refine Or.inl ?_
    rw [framesWritten_append, framesWritten_append, framesWritten_detachEncoder s id]
    rfl
  | _ => exact Or.inl rfl

/-- Whatever a request does, it is answered once. -/
theorem executed_answers {r : Request} {out : Outcome} (h : Executed b env s seq r out) :
    ∃ w, framesWritten out.2 = [w] ∧ Answers seq w := by
  rcases executed_frames b env s h with hack | ⟨w, hw⟩
  · exact ⟨_, hack, answers_ack⟩
  · exact ⟨w, hw.framesWritten, hw.answers⟩

theorem executed_ring {r : Request} {out : Outcome} (h : Executed b env s seq r out)
    (hring : AsyncRing s) : AsyncRing out.1 := by
  cases h with
  | resetConfig => exact fun _ => asyncFrame_empty
  | _ => exact hring

/-- Every packet is answered once, under its own number. -/
theorem handle_answers (p : Packet) :
    ∃ w, framesWritten (handle b env s p).2 = [w] ∧ Answers p.seq w := by
  rcases handle_cases b env s p with ⟨code, -, hrun⟩ | ⟨r, -, hrun⟩
  · rw [hrun]
    exact ⟨_, rfl, answers_nack code⟩
  · rw [hrun]
    exact executed_answers b env s (execute_spec b env s p.seq r)

theorem handle_ring (p : Packet) (hring : AsyncRing s) : AsyncRing (handle b env s p).1 := by
  rcases handle_cases b env s p with ⟨code, -, hrun⟩ | ⟨r, -, hrun⟩
  · rw [hrun]
    exact hring
  · rw [hrun]
    exact executed_ring b env s (execute_spec b env s p.seq r) hring

theorem update_unsolicited (hring : AsyncRing s) :
    ∀ w ∈ framesWritten (update b env s).2, Unsolicited w := by
  intro w hw
  obtain ⟨e, he, hframe⟩ := List.mem_filterMap.mp hw
  cases e with
  | write type seq payload =>
    obtain rfl := Option.some.inj hframe
    cases (update_ring b env hring).2 _ _ _ he with
    | frame h => exact ⟨h.type_ok, h.seq_zero, h.fits⟩
  | _ => cases hframe

theorem counterTick_ring (id : UInt8) (hring : AsyncRing s) : AsyncRing (counterTick env s id) := by
  dsimp only [counterTick]
  split_ifs <;> exact hring

theorem encoderTick_ring (id : UInt8) (hring : AsyncRing s) : AsyncRing (encoderTick env s id) := by
  dsimp only [encoderTick]
  split_ifs <;> exact hring

end FirmwareResponses
