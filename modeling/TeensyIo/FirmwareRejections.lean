import TeensyIo.FirmwareResponses

/-! # Rejected commands

A command answered by anything but an acknowledgement leaves the firmware and its pins as they
were. The pins here carry more than the interrupts and duties: how each is configured and what
level is driven. -/
namespace FirmwareRejections

open WireCommands FirmwareState FirmwareCommands FirmwareRequests FirmwareOutcomes
open FirmwareDevice FirmwareResponses MachineRuns
open FirmwareProtocol (Packet)

structure Pins extends Hardware where
  mode : UInt8 → Option PinMode := fun _ => none
  level : UInt8 → Option Bool := fun _ => none
  frequency : UInt8 → Option UInt32 := fun _ => none

def Pins.apply (p : Pins) (e : Effect) : Pins :=
  let p := { p with toHardware := p.toHardware.apply e }
  match e with
  | .pinMode pin mode => { p with mode := setAt p.mode pin (some mode) }
  | .digitalWrite pin high => { p with level := setAt p.level pin (some high) }
  | .analogWriteFrequency pin frequency =>
    { p with frequency := setAt p.frequency pin (some frequency) }
  | _ => p

def Pins.run (p : Pins) (effects : List Effect) : Pins := effects.foldl apply p

theorem Pins.run_append (p : Pins) (es fs : List Effect) : p.run (es ++ fs) = (p.run es).run fs :=
  List.foldl_append ..

/-- Bus traffic touches no pin. -/
theorem Pins.run_traffic (p : Pins) {es : List Effect} (h : ∀ e ∈ es, BusTraffic e) :
    p.run es = p := by
  induction es with
  | nil => rfl
  | cons e es ih =>
    have he : p.apply e = p := by
      cases e with
      | transmit sender bus address data => rfl
      | requestFrom bus address length => rfl
      | _ => exact (h _ List.mem_cons_self).elim
    have hrest := ih fun f hf => h f (List.mem_cons_of_mem e hf)
    rw [Pins.run, List.foldl_cons, he]
    exact hrest

theorem harmless_pins {s : State} {seq : UInt16} {out : Outcome} {w : Written}
    (h : Harmless s seq out w) (p : Pins) : p.run out.2 = p := by
  obtain ⟨traffic, htraffic, heffects⟩ := h.effects
  rw [heffects, Pins.run_append, p.run_traffic htraffic]
  rfl

/-- The command is answered by a Nack or by data. -/
def Unacknowledged (effects : List Effect) : Prop :=
  ∃ w ∈ framesWritten effects, w.type = .nack ∨ w.type = .data

theorem handle_harmless (b : Board) (env : Env) (s : State) (p : Packet)
    (h : Unacknowledged (handle b env s p).2) :
    ∃ w, Harmless s p.seq (handle b env s p) w := by
  rcases handle_cases b env s p with ⟨code, -, hrun⟩ | ⟨r, -, hrun⟩
  · rw [hrun]
    exact ⟨_, harmless_alone s (answers_nack code)⟩
  · rw [hrun] at h ⊢
    rcases executed_frames b env s (execute_spec b env s p.seq r) with hack | hharmless
    · obtain ⟨w, hw, htype⟩ := h
      rw [hack] at hw
      obtain rfl := List.mem_singleton.mp hw
      simp at htype
    · exact hharmless

/-- In every reachable state, and whatever the pins have been made to do: a packet answered by
a Nack or a Data frame changes neither the firmware's state nor any pin, and before the answer
there is nothing but traffic on an I2C bus. -/
theorem rejected_changes_nothing (b : Board) (events : List Event) (env : Env) (p : Packet)
    (pins : Pins) :
    let s := (after (Device.step b) {} events).state
    let out := handle b env s p
    Unacknowledged out.2 →
      out.1 = s ∧ pins.run out.2 = pins ∧
        ∃ traffic w, (∀ e ∈ traffic, BusTraffic e) ∧
          out.2 = traffic ++ [.write w.type w.seq w.payload] ∧ Answers p.seq w := by
  intro s out hout
  obtain ⟨w, hw⟩ := handle_harmless b env s p hout
  obtain ⟨traffic, htraffic, heffects⟩ := hw.effects
  exact ⟨hw.state, harmless_pins hw pins, traffic, w, htraffic, heffects, hw.answers⟩

/-- A DAC on bus 0 whose device does not answer: the bus has been used, nothing else. -/
theorem failed_dac_write_changes_nothing :
    let s := (after (Device.step sampleBoard) {}
      (commands [[0x70, 0, 0, 0, 0, 0], [0x73, 0, 0, 96, 1, 12]])).state
    let out := handle sampleBoard { envAt 0 with endTransmission := 2 } s
      (commandPacket 3 [0x74, 0, 0, 0xFF, 0x0F])
    out.2 = [.transmit .writeDacRaw 0 96 [0x0F, 0xFF], nack 3 .resourceUnavailable] ∧
      out.1 = s := by
  intro s out
  have heffects : out.2 =
      [.transmit .writeDacRaw 0 96 [0x0F, 0xFF], nack 3 .resourceUnavailable] := by
    decide +kernel
  have hnack : Unacknowledged out.2 := by
    rw [heffects]
    exact ⟨⟨.nack, 3, [6]⟩, by decide, Or.inl rfl⟩
  exact ⟨heffects, (rejected_changes_nothing sampleBoard _ _ _ {} hnack).1⟩

end FirmwareRejections
