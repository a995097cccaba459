import TeensyIo.HostOperations
import TeensyIo.WireCompatibility

/-! # Arguments on both sides

The handler finds in the packet of an operation just the request the operation means. The
numbers on the way back are the same for both sides as well. -/
namespace ArgumentAgreement

open WireCommands LittleEndian HostProtocol HostClient HostResources HostOperations
open WireCompatibility FirmwareState FirmwareRequests RequestLayouts
open FirmwareProtocol (PacketParser)
open FirmwareCommands (handle)

/-! ### The way to the handler -/

/-- Whatever its number, a command reaches the handler of a parser between two frames as a
request that is meant. -/
def Understood (h : Host) (op : Operation) (command : Command) : Prop :=
  ∀ (number : ℕ) (parser : PacketParser), parser.state = .start →
    ∃ encoded p r, encodePacket (commandPacket number command.1 command.2) = .ok encoded ∧
      (parser.pushAll encoded).2 = [p] ∧ Meant h op r ∧
      ∀ b env s, handle b env s p = execute b env s p.seq r

theorem understood_of_laid {h : Host} {op : Operation} {id : CommandId} {bytes : List UInt8}
    {r : Request} (hsize : bytes.length < maxPayloadSize) (hl : Laid r id bytes)
    (hm : Meant h op r) : Understood h op (id, bytes) := by
  intro number parser hstart
  have hsendable : Sendable (commandPacket number id bytes) := ⟨sequence_lt number, hsize⟩
  have hlist : ∀ q ∈ [commandPacket number id bytes], Sendable q := by simpa using hsendable
  obtain ⟨hpackets, -⟩ := parser_stream hlist hstart
  rw [List.flatMap_singleton] at hpackets
  obtain ⟨p, hp, hview⟩ := List.map_eq_singleton_iff.mp hpackets
  obtain ⟨type, htype, hfields⟩ := Option.map_eq_some_iff.mp hview
  have hcommand : type = .command := congrArg HostProtocol.Packet.type hfields
  have hbytes : p.bytes = id.toByte :: bytes := congrArg HostProtocol.Packet.payload hfields
  have hbyte : p.type = PacketType.command.toByte := by
    rw [← hcommand, PacketType.toByte_of_ofByte htype]
  refine ⟨_, p, r, encodePacket_sendable hsendable, hp, hm, fun b env s => ?_⟩
  rw [handle_eq, decode_laid hl hbyte hbytes, answer]

/-! ### The way back -/

/-- The numbers in the payloads of the firmware, as the client reads them. -/
structure NumbersAgree : Prop where
  counterRead : ∀ s seq id payload,
    .write .data seq payload ∈ (FirmwareCommands.counterRead s seq id).2 →
      responseI32 payload = .ok (s.counters id).count.toInt
  counterFrequency : ∀ s seq id payload,
    .write .data seq payload ∈ (FirmwareCommands.counterFrequency s seq id).2 →
      let periodUs := (s.counters id).periodUs
      responseU32 payload = .ok (if periodUs = 0 then 0 else 1000000000 / periodUs).toNat
  encoderRead : ∀ s seq id payload,
    .write .data seq payload ∈ (FirmwareCommands.encoderRead s seq id).2 →
      responseI32 payload = .ok (s.encoders id).position.toInt
  analogRead : ∀ b env s seq pin payload,
    .write .data seq payload ∈ (FirmwareCommands.analogRead b env s seq pin).2 →
      let raw := (FirmwareCommands.analogMean env s 0 pin).toUInt16
      analogPair payload = (raw.toNat, (raw.toUInt32 * 10000 / kAdcMaxValue).toUInt16.toNat)
  telemetry : ∀ b env s occasion slot value seq,
    FirmwareCommands.readResourceValue b env s occasion slot.kind slot.id = some value →
      ∃ kind, ResourceKind.ofByte slot.kind = some kind ∧
        telemetryFrame ⟨.telemetry, seq, FirmwareUpdate.telemetryPayload slot value⟩ =
          some ⟨kind, slot.id, value.toInt⟩
  event : ∀ b env s occasion slot value micros seq,
    FirmwareCommands.readResourceValue b env s occasion slot.kind slot.id = some value →
      ∃ kind, ResourceKind.ofByte slot.kind = some kind ∧
        edgeEvent ⟨.event, seq, FirmwareUpdate.eventPayload slot value micros⟩ =
          some ⟨kind, slot.id, value.toInt, micros.toNat⟩

theorem length_writeI32 (v : Int32) : (FirmwareCommands.writeI32 v).length = 4 := rfl

theorem length_writeU32 (v : UInt32) : (FirmwareCommands.writeU32 v).length = 4 := rfl

theorem length_writeU16 (v : UInt16) : (FirmwareCommands.writeU16 v).length = 2 := rfl

theorem unpackI32_append (v : Int32) (rest : List UInt8) :
    unpackI32 (FirmwareCommands.writeI32 v ++ rest) = v.toInt := by
  have hlt : v.toUInt32.toNat < 256 ^ 4 := v.toUInt32.toNat_lt
  rw [unpackI32, List.take_left' (length_writeI32 v), FirmwareCommands.writeI32, bytes_of_int32,
    value_toBytes_of_lt hlt, signed32_toNat]

theorem unpackI32_writeI32 (v : Int32) : unpackI32 (FirmwareCommands.writeI32 v) = v.toInt := by
  have h := unpackI32_append v []
  rwa [List.append_nil] at h

theorem unpackU32_writeU32 (v : UInt32) : unpackU32 (FirmwareCommands.writeU32 v) = v.toNat := by
  have hlt : v.toNat < 256 ^ 4 := v.toNat_lt
  rw [unpackU32, List.take_of_length_le (length_writeU32 v).le, FirmwareCommands.writeU32,
    bytes_of_uint32, value_toBytes_of_lt hlt]

theorem responseI32_writeI32 (v : Int32) :
    responseI32 (FirmwareCommands.writeI32 v) = .ok v.toInt := by
  rw [responseI32, if_neg (by rw [length_writeI32]; omega), unpackI32_writeI32]

theorem responseU32_writeU32 (v : UInt32) :
    responseU32 (FirmwareCommands.writeU32 v) = .ok v.toNat := by
  rw [responseU32, if_neg (by rw [length_writeU32]; omega), unpackU32_writeU32]

theorem value_writeU16 (v : UInt16) : value (FirmwareCommands.writeU16 v) = v.toNat := by
  have hlt : v.toNat < 256 ^ 2 := v.toNat_lt
  rw [FirmwareCommands.writeU16, bytes_of_uint16, value_toBytes_of_lt hlt]

/-- Only resources of a known kind have a value. -/
theorem kind_of_value {b : Board} {env : Env} {s : State} {occasion : ℕ} {kind id : UInt8}
    {v : Int32} (h : FirmwareCommands.readResourceValue b env s occasion kind id = some v) :
    ∃ known, ResourceKind.ofByte kind = some known := by
  cases hkind : ResourceKind.ofByte kind with
  | none => simp [FirmwareCommands.readResourceValue, hkind] at h
  | some known => exact ⟨known, rfl⟩

/-- A response that is read from a slot: either a refusal or the data. -/
theorem data_of_mem {seq : UInt16} {payload bytes : List UInt8} {s : State} {code : ErrorCode}
    {c : Prop} [Decidable c]
    (h : .write .data seq payload ∈ (if c then FirmwareCommands.refuse s seq code
      else (s, [FirmwareCommands.data seq bytes])).2) : payload = bytes := by
  split_ifs at h
  · simp [FirmwareCommands.refuse, FirmwareCommands.nack] at h
  · simpa [FirmwareCommands.data] using h

theorem numbersAgree : NumbersAgree where
  counterRead s seq id payload hmem := by
    obtain rfl := data_of_mem hmem
    exact responseI32_writeI32 (s.counters id).count
  counterFrequency s seq id payload hmem := by
    obtain rfl := data_of_mem hmem
    intro periodUs
    exact responseU32_writeU32 _
  encoderRead s seq id payload hmem := by
    obtain rfl := data_of_mem hmem
    exact responseI32_writeI32 (s.encoders id).position
  analogRead b env s seq pin payload hmem := by
    obtain rfl := data_of_mem hmem
    intro raw
    rw [analogPair, List.take_left' (length_writeU16 _), List.drop_left' (length_writeU16 _),
      List.take_of_length_le (length_writeU16 _).le, value_writeU16, value_writeU16]
  telemetry b env s occasion slot v seq hvalue := by
    obtain ⟨kind, hkind⟩ := kind_of_value hvalue
    have hlong : 6 ≤ (FirmwareUpdate.telemetryPayload slot v).length := by
      simp [FirmwareUpdate.telemetryPayload, length_writeI32]
    refine ⟨kind, hkind, ?_⟩
    rw [telemetryFrame, if_pos ⟨rfl, hlong⟩]
    change (ResourceKind.ofByte slot.kind).map (fun kind => (⟨kind, slot.id,
      unpackI32 (FirmwareCommands.writeI32 v)⟩ : TelemetryFrame)) = _
    rw [hkind, unpackI32_writeI32]
    rfl
  event b env s occasion slot v micros seq hvalue := by
    obtain ⟨kind, hkind⟩ := kind_of_value hvalue
    have hlong : 10 ≤ (FirmwareUpdate.eventPayload slot v micros).length := by
      simp [FirmwareUpdate.eventPayload, length_writeI32, length_writeU32]
    refine ⟨kind, hkind, ?_⟩
    rw [edgeEvent, if_pos ⟨rfl, hlong⟩]
    change (ResourceKind.ofByte slot.kind).map (fun kind => (⟨kind, slot.id,
      unpackI32 (FirmwareCommands.writeI32 v ++ FirmwareCommands.writeU32 micros),
      unpackU32 (FirmwareCommands.writeU32 micros)⟩ : EdgeEvent)) = _
    rw [hkind, unpackI32_append, unpackU32_writeU32]
    rfl

/-- An operation of the host raises without a word or sends one command, which the handler
takes for what was meant; and the client reads the numbers the firmware has written. -/
theorem argument_agreement :
    (∀ respond h op,
      ((∃ error, (runOperation respond h op).1 = .error error) ∧
        (runOperation respond h op).2.log = h.log) ∨
      ∃ command, (runOperation respond h op).2.log = h.log ++ [command] ∧
        Understood h op command) ∧
    NumbersAgree := by
  refine ⟨fun respond h op => ?_, numbersAgree⟩
  refine (runOperation_sends respond h op).imp_right ?_
  rintro ⟨id, bytes, r, hsent, hsize, hlaid, hmeant⟩
  exact ⟨(id, bytes), hsent, understood_of_laid hsize hlaid hmeant⟩

/-- Attaching the first counter to pin 6 on rising edges. -/
theorem counter_attach_understood :
    ∃ command encoded p,
      (runOperation (fun _ => .ok []) {} (.counterAttach "flow" (.number 6) "rising")).2.log =
        [command] ∧
      encodePacket (commandPacket 1 command.1 command.2) = .ok encoded ∧
      (PacketParser.pushAll {} encoded).2 = [p] ∧
      ∀ b env s, handle b env s p = execute b env s p.seq (.configCounter 0 6 0) := by
  rcases argument_agreement.1 (fun _ => .ok []) {} (.counterAttach "flow" (.number 6) "rising")
    with ⟨⟨error, herror⟩, -⟩ | ⟨command, hsent, hunderstood⟩
  · cases herror
  · obtain ⟨encoded, p, r, hencoded, hparsed, hmeant, hhandled⟩ := hunderstood 1 {} rfl
    refine ⟨command, encoded, p, hsent, hencoded, hparsed, ?_⟩
    cases hmeant with
    | counterAttach hid hpin hcode =>
      obtain rfl := byte_eq (c := 0) (congrArg Nat.cast hid)
      obtain rfl := byte_eq (c := 6) (Except.ok.inj hpin).symm
      obtain rfl := byte_eq (c := 0) (Option.some.inj hcode).symm
      exact hhandled

end ArgumentAgreement
