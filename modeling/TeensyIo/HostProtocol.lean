import TeensyIo.WireCommands
import TeensyIo.WireFrame

/-! # The host's side of the protocol

`protocol/packet.py`. Python integers are naturals here and a raised exception is an
`error`; the decoder's buffer survives the exception. -/
namespace HostProtocol

open WireCommands WireFrame StreamScanner LittleEndian

def startByte : UInt8 := 0xA5
def protocolVersion : UInt8 := 0x01
def maxPayloadSize : ℕ := 128

/-- The exceptions the client library raises or lets through. -/
inductive PyError where
  | protocolError | valueError | keyError | runtimeError | structError | overflowError
  | invalidPinError | invalidModeError | emergencyStopActiveError | commandRejectedError
  | queueFullError | timeoutError | indexError | typeError | attributeError
  deriving DecidableEq, Repr

structure Packet where
  type : PacketType
  seq : ℕ
  payload : List UInt8 := []
  deriving DecidableEq, Repr

def crcBit (crc : ℕ) : ℕ :=
  if crc &&& 0x8000 ≠ 0 then ((crc <<< 1) ^^^ 0x1021) &&& 0xFFFF else (crc <<< 1) &&& 0xFFFF

def crcByte (crc : ℕ) (byte : UInt8) : ℕ := crcBit^[8] (crc ^^^ (byte.toNat <<< 8))

def crc16Ccitt (data : List UInt8) : ℕ := data.foldl crcByte 0xFFFF

/-- `crc.to_bytes(2, "little")` raises where the number does not fit. -/
def encodePacket (packet : Packet) : Except PyError (List UInt8) :=
  if packet.payload.length > maxPayloadSize then .error .protocolError
  else
    let header :=
      [protocolVersion, packet.type.toByte, UInt8.ofNat (packet.seq &&& 0xFF),
        UInt8.ofNat ((packet.seq >>> 8) &&& 0xFF), UInt8.ofNat (packet.payload.length &&& 0xFF),
        UInt8.ofNat ((packet.payload.length >>> 8) &&& 0xFF)]
    let crc := crc16Ccitt (header ++ packet.payload)
    if crc < 65536 then .ok ([startByte] ++ header ++ packet.payload ++ toBytes 2 crc)
    else .error .overflowError

/-- How one pass of the loop of `feed` ends. -/
inductive Turn where
  | stop (buffer : List UInt8)
  | next (buffer : List UInt8)
  | found (packet : Packet) (buffer : List UInt8)
  | raised (error : PyError) (buffer : List UInt8)
  deriving DecidableEq, Repr

/-- The pass from the version check on, for a buffer that begins with the start byte and
holds at least nine bytes. -/
def feedFrame (buffer : List UInt8) : Turn :=
  if buffer.getD 1 0 ≠ protocolVersion then .next (buffer.drop 1)
  else
    let length := (buffer.getD 5 0).toNat ||| ((buffer.getD 6 0).toNat <<< 8)
    if length > maxPayloadSize then .next (buffer.drop 1)
    else
      let frameLen := 1 + 6 + length + 2
      if buffer.length < frameLen then .stop buffer
      else
        let frame := buffer.take frameLen
        let crcExpected := value (frame.drop (frameLen - 2))
        let crcActual := crc16Ccitt ((frame.take (frameLen - 2)).drop 1)
        if crcActual ≠ crcExpected then .next (buffer.drop 1)
        else
          let payload := (frame.take (frameLen - 2)).drop 7
          match PacketType.ofByte (frame.getD 2 0) with
          | none => .raised .valueError buffer
          | some type =>
            .found ⟨type, (frame.getD 3 0).toNat ||| ((frame.getD 4 0).toNat <<< 8), payload⟩
              (buffer.drop frameLen)

def feedTurn (buffer : List UInt8) : Turn :=
  match buffer.idxOf? startByte with
  | none => .stop []
  | some startIndex =>
    let buffer := buffer.drop startIndex
    if buffer.length < 9 then .stop buffer else feedFrame buffer

/-- A pass after which the loop goes on has taken something out of the buffer. -/
def Turn.Shortens (n : ℕ) : Turn → Prop
  | .next rest => rest.length < n
  | .found _ rest => rest.length < n
  | _ => True

theorem feedFrame_shortens {buffer : List UInt8} (hb : 9 ≤ buffer.length) :
    (feedFrame buffer).Shortens buffer.length := by
  have hdrop : ∀ n, 0 < n → (buffer.drop n).length < buffer.length := by
    intro n hn
    rw [List.length_drop]
    omega
  unfold feedFrame
  dsimp only
  split_ifs
  · exact hdrop 1 (by omega)
  · exact hdrop 1 (by omega)
  · trivial
  · exact hdrop 1 (by omega)
  · split
    · trivial
    · exact hdrop _ (by omega)

theorem feedTurn_shortens (buffer : List UInt8) : (feedTurn buffer).Shortens buffer.length := by
  unfold feedTurn
  split
  · trivial
  · rename_i startIndex _
    dsimp only
    split_ifs with hl
    · trivial
    · have hle : (buffer.drop startIndex).length ≤ buffer.length := by simp
      have h := feedFrame_shortens (Nat.le_of_not_lt hl)
      revert h
      cases feedFrame (buffer.drop startIndex) with
      | next rest => exact fun h => Nat.lt_of_lt_of_le h hle
      | found p rest => exact fun h => Nat.lt_of_lt_of_le h hle
      | stop rest => exact id
      | raised e rest => exact id

/-- The `while True` loop: what it returns or raises, and the buffer it leaves. -/
def feedLoop (buffer : List UInt8) (packets : List Packet) :
    Except PyError (List Packet) × List UInt8 :=
  match _h : feedTurn buffer with
  | .stop rest => (.ok packets, rest)
  | .next rest => feedLoop rest packets
  | .found packet rest => feedLoop rest (packets ++ [packet])
  | .raised error rest => (.error error, rest)
termination_by buffer.length
decreasing_by
  all_goals
    have hs := feedTurn_shortens buffer
    rw [_h] at hs
    exact hs

structure PacketDecoder where
  buffer : List UInt8 := []
  deriving DecidableEq, Repr

def PacketDecoder.feed (decoder : PacketDecoder) (data : List UInt8) :
    Except PyError (List Packet) × PacketDecoder :=
  let result := feedLoop (decoder.buffer ++ data) []
  (result.1, ⟨result.2⟩)

end HostProtocol
