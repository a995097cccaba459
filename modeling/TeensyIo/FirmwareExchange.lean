import TeensyIo.FirmwareResponses
import Mathlib.Data.List.Forall2

/-! # Requests and responses

The loop of `main.cpp` seen from the wire: bytes are pushed into the parser, every packet it
emits is handled at once, and updates and interrupts come in between. The packets emitted and
the frames written are kept in the order they occur. -/
namespace FirmwareExchange

open WireCommands FirmwareState FirmwareUpdate FirmwareDevice FirmwareResponses MachineRuns
open FirmwareProtocol (Packet PacketParser kMaxPayloadSize)

structure Exchange where
  parser : PacketParser := {}
  state : State := {}
  emitted : List Packet := []
  written : List Written := []

inductive Input where
  | byte (env : Env) (x : UInt8)
  | update (env : Env)
  | counterTick (env : Env) (id : UInt8)
  | encoderTick (env : Env) (id : UInt8)

def Input.bytes : Input → List UInt8
  | .byte _ x => [x]
  | _ => []

namespace Exchange

/-- The state after a call and the frames of the call. -/
def record (e : Exchange) (out : Outcome) : Exchange :=
  { e with state := out.1, written := e.written ++ framesWritten out.2 }

def handle (b : Board) (e : Exchange) (env : Env) (p : Packet) : Exchange :=
  { e with emitted := e.emitted ++ [p] }.record (FirmwareCommands.handle b env e.state p)

def step (b : Board) (e : Exchange) : Input → Exchange
  | .byte env x =>
    let pushed := e.parser.push x
    let e := { e with parser := pushed.1 }
    match pushed.2 with
    | none => e
    | some p => e.handle b env p
  | .update env => e.record (update b env e.state)
  | .counterTick env id => { e with state := counterTick env e.state id }
  | .encoderTick env id => { e with state := encoderTick env e.state id }

end Exchange

def IsResponse (w : Written) : Prop := w.type = .ack ∨ w.type = .nack ∨ w.type = .data

instance (w : Written) : Decidable (IsResponse w) := inferInstanceAs (Decidable (_ ∨ _ ∨ _))

/-- The Ack, Nack and Data frames among those written. -/
def responses (written : List Written) : List Written := written.filter (IsResponse ·)

theorem responses_append (ws vs : List Written) :
    responses (ws ++ vs) = responses ws ++ responses vs := List.filter_append ..

theorem responses_unsolicited {ws : List Written} (h : ∀ w ∈ ws, Unsolicited w) :
    responses ws = [] := by
  refine List.filter_eq_nil_iff.mpr fun w hw => ?_
  rcases (h w hw).type_ok with htype | htype <;> simp [IsResponse, htype]

theorem responses_answer {seq : UInt16} {w : Written} (h : Answers seq w) :
    responses [w] = [w] := by
  have hresponse : IsResponse w := h.type_ok
  simp [responses, hresponse]

/-- Responses and packets match one to one, in order. -/
structure Matched (e : Exchange) : Prop where
  ring : AsyncRing e.state
  answered : List.Forall₂ (fun p w => Answers p.seq w) e.emitted (responses e.written)

theorem matched_initial : Matched {} := ⟨fun _ => asyncFrame_empty, .nil⟩

theorem Matched.handle {b : Board} {e : Exchange} (h : Matched e) (env : Env) (p : Packet) :
    Matched (e.handle b env p) where
  ring := handle_ring b env e.state p h.ring
  answered := by
    obtain ⟨w, hframes, hanswers⟩ := handle_answers b env e.state p
    simp only [Exchange.handle, Exchange.record]
    rw [hframes, responses_append, responses_answer hanswers]
    exact List.rel_append h.answered (.cons hanswers .nil)

theorem Matched.update {b : Board} {e : Exchange} (h : Matched e) (env : Env) :
    Matched (e.step b (.update env)) where
  ring := (update_ring b env h.ring).1
  answered := by
    have hnone := responses_unsolicited (update_unsolicited b env e.state h.ring)
    simp only [Exchange.step, Exchange.record]
    rw [responses_append, hnone, List.append_nil]
    exact h.answered

theorem Matched.step {b : Board} {e : Exchange} (h : Matched e) (i : Input) :
    Matched (e.step b i) := by
  cases i with
  | byte env x =>
    have hpushed : Matched { e with parser := (e.parser.push x).1 } := ⟨h.ring, h.answered⟩
    rw [Exchange.step]
    cases (e.parser.push x).2 with
    | none => exact hpushed
    | some p => exact hpushed.handle env p
  | update env => exact h.update env
  | counterTick env id => exact ⟨counterTick_ring env e.state id h.ring, h.answered⟩
  | encoderTick env id => exact ⟨encoderTick_ring env e.state id h.ring, h.answered⟩

/-- The parser sees the bytes and nothing else. -/
theorem parsed (b : Board) (e : Exchange) (inputs : List Input) :
    let pushed := e.parser.pushAll (inputs.flatMap Input.bytes)
    (after (Exchange.step b) e inputs).parser = pushed.1 ∧
      (after (Exchange.step b) e inputs).emitted = e.emitted ++ pushed.2 := by
  induction inputs generalizing e with
  | nil => simp [PacketParser.pushAll]
  | cons i inputs ih =>
    obtain ⟨hparser, hemitted⟩ := ih (e.step b i)
    rw [after_cons]
    cases i with
    | byte env x =>
      cases hpush : (e.parser.push x).2 with
      | none =>
        simp only [Exchange.step, hpush] at hparser hemitted ⊢
        simp [Input.bytes, PacketParser.pushAll, hparser, hemitted, hpush]
      | some p =>
        simp only [Exchange.step, hpush, Exchange.handle, Exchange.record] at hparser hemitted ⊢
        simp [Input.bytes, PacketParser.pushAll, hparser, hemitted, hpush]
    | _ => exact ⟨hparser, hemitted⟩

theorem seqs_of_answers {packets : List Packet} {written : List Written}
    (h : List.Forall₂ (fun p w => Answers p.seq w) packets written) :
    written.map Written.seq = packets.map Packet.seq ∧
      ∀ w ∈ written, w.payload.length ≤ kMaxPayloadSize := by
  induction h with
  | nil => simp
  | cons hw _ ih =>
    refine ⟨by simp [hw.seq_eq, ih.1], fun v hv => ?_⟩
    rcases List.mem_cons.mp hv with rfl | hv
    · exact hw.fits
    · exact ih.2 v hv

/-- Whatever bytes arrive, with updates and interrupts anywhere between them: the responses
carry exactly the numbers of the packets the parser emits, in order; and no update writes
anything but events and telemetry under the number zero. -/
theorem one_response_per_packet (b : Board) (inputs : List Input) :
    let e := after (Exchange.step b) {} inputs
    e.emitted = (PacketParser.pushAll {} (inputs.flatMap Input.bytes)).2 ∧
      (responses e.written).map Written.seq = e.emitted.map Packet.seq ∧
      (∀ w ∈ responses e.written, w.payload.length ≤ kMaxPayloadSize) ∧
      ∀ env, ∀ w ∈ framesWritten (update b env e.state).2, Unsolicited w := by
  intro e
  have hm : Matched e := after_preserves (fun _ i h => h.step i) matched_initial inputs
  obtain ⟨hseqs, hfits⟩ := seqs_of_answers hm.answered
  exact ⟨(parsed b {} inputs).2, hseqs, hfits,
    fun env => update_unsolicited b env e.state hm.ring⟩

end FirmwareExchange
