import TeensyIo.CheckedMemory
import TeensyIo.FirmwareProtocol

/-! # The protocol with checked accesses

`Packet.cpp`, `PacketWriter.cpp` and `PacketParser.cpp` once more, down to their loops and the
accesses to their buffers. None of them faults, so they compute what `FirmwareProtocol` says. -/
namespace CheckedProtocol

open WireFrame CheckedMemory
open FirmwareProtocol (Packet PacketParser PacketParser.reset PacketWriter.header Tracks crcBit
  kStartByte kMaxPayloadSize)

/-- `crc ^= byte << 8` and the loop over the bits. -/
def crcByte (crc : UInt16) (byte : UInt8) : Option UInt16 :=
  countTo 256 8 (fun _ crc => some (crcBit crc)) (crc ^^^ (byte.toUInt16 <<< 8))

def crc16Ccitt (data : List UInt8) (length : ℕ) : Option UInt16 :=
  countTo 4294967296 length (fun i crc => data[i]?.bind fun byte => crcByte crc byte) 0xFFFF

theorem crcByte_eq (crc : UInt16) (byte : UInt8) :
    crcByte crc byte = some (FirmwareProtocol.crcByte crc byte) :=
  countTo_pure (by decide) (fun crc _ => crcBit crc) _

theorem crc16Ccitt_eq {data : List UInt8} {length : ℕ} (hlength : length ≤ data.length)
    (hsmall : length < 4294967296) :
    crc16Ccitt data length = some (FirmwareProtocol.crc16Ccitt (data.take length)) := by
  obtain ⟨crc, hrun, rfl⟩ := countTo_rule (s := 0xFFFF)
    (fun i crc => data[i]?.bind fun byte => crcByte crc byte)
    (fun i crc => crc = (data.take i).foldl FirmwareProtocol.crcByte 0xFFFF) hsmall
    (fun i hi crc hcrc => by
      refine ⟨_, ?_, rfl⟩
      rw [List.getElem?_eq_getElem (by omega : i < data.length), Option.bind_some, crcByte_eq,
        List.take_succ_eq_append_getElem (by omega), List.foldl_append, ← hcrc]
      rfl) rfl
  exact hrun

/-! ### Writing -/

/-- The buffer over which a checksum is computed, before it is filled. -/
def crcBuffer : List UInt8 := List.replicate (6 + kMaxPayloadSize) 0

/-- `payload` is the array that the pointer points to. -/
def write (type : UInt8) (seq : UInt16) (payload : List UInt8) (length : UInt16) :
    Option (List UInt8) := do
  let header := PacketWriter.header type seq length
  let buffer ← countTo 256 6 (copyTurn header 0) crcBuffer
  let buffer ← countTo 65536 length.toNat (copyTurn payload 6) buffer
  let crc ← crc16Ccitt buffer (6 + length.toNat)
  let sent ← loadFirst payload length.toNat
  some ([kStartByte] ++ header ++ sent ++
    [(crc &&& 0xFF).toUInt8, ((crc >>> 8) &&& 0xFF).toUInt8])

theorem header_copied {header : List UInt8} (hheader : header.length = 6) :
    countTo 256 6 (copyTurn header 0) crcBuffer =
      some (header ++ List.replicate kMaxPayloadSize 0) := by
  have hcopy := countTo_copy (by decide : 6 < 256) hheader.ge []
    (List.replicate kMaxPayloadSize 0) (List.length_replicate (n := 6) (a := (0 : UInt8)))
  rw [List.nil_append, List.nil_append, List.replicate_append_replicate, ← hheader,
    List.take_length, hheader] at hcopy
  exact hcopy

theorem payload_copied {header payload : List UInt8} (hheader : header.length = 6) {length : ℕ}
    (hpayload : length ≤ payload.length) (hmax : length ≤ kMaxPayloadSize) :
    countTo 65536 length (copyTurn payload 6) (header ++ List.replicate kMaxPayloadSize 0) =
      some (header ++ (payload.take length ++ List.replicate (kMaxPayloadSize - length) 0)) := by
  have hlt : length < 65536 := by
    change length ≤ 128 at hmax
    omega
  have hcopy := countTo_copy hlt hpayload header (List.replicate (kMaxPayloadSize - length) 0)
    (List.length_replicate (n := length) (a := (0 : UInt8)))
  rw [List.replicate_append_replicate, Nat.add_sub_cancel' hmax, hheader] at hcopy
  exact hcopy

/-- The checksum over what has been copied. -/
theorem crc_copied {header payload : List UInt8} (hheader : header.length = 6) {length : ℕ}
    (hpayload : length ≤ payload.length) (hmax : length ≤ kMaxPayloadSize) :
    crc16Ccitt (header ++ (payload.take length ++ List.replicate (kMaxPayloadSize - length) 0))
        (6 + length) = some (FirmwareProtocol.crc16Ccitt (header ++ payload.take length)) := by
  have htake : (payload.take length).length = length := List.length_take_of_le hpayload
  have hcovered : (header ++ (payload.take length ++
      List.replicate (kMaxPayloadSize - length) 0)).take (6 + length) =
        header ++ payload.take length := by
    rw [← List.append_assoc]
    apply List.take_left'
    rw [List.length_append, hheader, htake]
  rw [crc16Ccitt_eq, hcovered]
  · simp only [List.length_append, hheader, htake]
    omega
  · change length ≤ 128 at hmax
    omega

theorem write_eq (type : UInt8) (seq : UInt16) {payload : List UInt8} {length : UInt16}
    (hpayload : length.toNat ≤ payload.length) (hmax : length.toNat ≤ kMaxPayloadSize) :
    write type seq payload length =
      some (FirmwareProtocol.PacketWriter.write type seq (payload.take length.toNat)) := by
  have hheader : (PacketWriter.header type seq length).length = 6 := rfl
  have hlength : UInt16.ofNat (payload.take length.toNat).length = length := by
    rw [List.length_take_of_le hpayload, UInt16.ofNat_toNat]
  simp only [write, header_copied hheader, payload_copied hheader hpayload hmax,
    crc_copied hheader hpayload hmax, loadFirst_of_le hpayload, Option.bind_eq_bind,
    Option.bind_some]
  rw [FirmwareProtocol.PacketWriter.write, hlength]

/-! ### Reading -/

/-- `push` with the two states that access the buffers written out. -/
def push (s : PacketParser) (byte : UInt8) : Option (PacketParser × Option Packet) :=
  match s.state with
  | .payload =>
    if h : s.payloadIndex.toNat < kMaxPayloadSize then
      let current := { s.current with payload := s.current.payload.set s.payloadIndex.toNat byte }
      let index := s.payloadIndex + 1
      some ({ s with
        current := current
        payloadIndex := index
        state := if index ≥ current.length then .crcLo else .payload }, none)
    else none
  | .crcHi => do
    let expected := s.crcLo.toUInt16 ||| (byte.toUInt16 <<< 8)
    let buffer ← storeAll crcBuffer 0
      (PacketWriter.header s.current.type s.current.seq s.current.length)
    let buffer ← countTo 65536 s.current.length.toNat (copyTurn s.current.payload.toList 6) buffer
    let actual ← crc16Ccitt buffer (6 + s.current.length.toNat)
    if actual = expected then some (PacketParser.reset, some s.current)
    else some (PacketParser.reset, none)
  | _ => some (s.push byte)

theorem header_stored {header : List UInt8} (hheader : header.length = 6) :
    storeAll crcBuffer 0 header = some (header ++ List.replicate kMaxPayloadSize 0) := by
  have hlength : (List.replicate 6 (0 : UInt8)).length = header.length := by
    rw [List.length_replicate, hheader]
  have hstore := storeAll_append [] (List.replicate kMaxPayloadSize 0) hlength
  rw [List.nil_append, List.nil_append, List.replicate_append_replicate] at hstore
  exact hstore

/-- What the states of the parser promise about its buffer. -/
structure Bounded (s : PacketParser) : Prop where
  index_lt : s.state = .payload → s.payloadIndex.toNat < kMaxPayloadSize
  length_le : s.state = .crcHi → s.current.length.toNat ≤ kMaxPayloadSize

/-- A parser that runs on from its initial state keeps them. -/
theorem bounded_of_tracks {s : PacketParser} {pending : List UInt8} (ht : Tracks s pending) :
    Bounded s := by
  cases ht with
  | start _ hstart => exact ⟨fun h => by simp [hstart] at h, fun h => by simp [hstart] at h⟩
  | payload c h got hlength hgot =>
    refine ⟨fun _ => ?_, nofun⟩
    have hmax : h.length.toNat ≤ 128 := hlength
    change (UInt16.ofNat got.length).toNat < 128
    rw [UInt16.toNat_ofNat']
    omega
  | crcHi h got c hlength _ => exact ⟨nofun, fun _ => hlength⟩
  | _ => exact ⟨nofun, nofun⟩

theorem push_eq {s : PacketParser} (hs : Bounded s) (byte : UInt8) :
    push s byte = some (s.push byte) := by
  cases hstate : s.state with
  | payload =>
    have hlt := hs.index_lt hstate
    have hset : s.current.payload.setIfInBounds s.payloadIndex.toNat byte =
        s.current.payload.set s.payloadIndex.toNat byte := by
      ext i hi
      rw [Vector.getElem_setIfInBounds hi, Vector.getElem_set hlt hi]
    simp only [push, hstate, dif_pos hlt, PacketParser.push, hset]
  | crcHi =>
    have hle := hs.length_le hstate
    have hlist : s.current.payload.toList.length = kMaxPayloadSize := Vector.length_toList
    have hheader : (PacketWriter.header s.current.type s.current.seq
      s.current.length).length = 6 := rfl
    simp only [push, hstate, header_stored hheader,
      payload_copied hheader (hlist.symm ▸ hle) hle, crc_copied hheader (hlist.symm ▸ hle) hle,
      Option.bind_eq_bind, Option.bind_some]
    rw [PacketParser.push]
    simp only [hstate, PacketParser.actual, Packet.bytes]
    exact (apply_ite some _ _ _).symm
  | _ => simp only [push, hstate]

end CheckedProtocol
