import TeensyIo.FirmwareRequests
import TeensyIo.LittleEndian

/-! # Layouts of requests

The bytes of every request behind its command byte, and that the handler reads a request out of
each packet laid out for it. The host side of the agreement is stated against this table. -/
namespace RequestLayouts

open WireCommands LittleEndian FirmwareState FirmwareCommands FirmwareRequests
open FirmwareProtocol (Packet)

inductive Laid : Request → CommandId → List UInt8 → Prop where
  | ping : Laid .ping .ping []
  | getInfo : Laid .getInfo .getInfo []
  | heartbeat : Laid .heartbeat .heartbeat []
  | resetConfig : Laid .resetConfig .resetConfig []
  | emergencyStop : Laid .emergencyStop .emergencyStop []
  | clearEmergencyStop : Laid .clearEmergencyStop .clearEmergencyStop []
  | configDigitalInput (pin pull : UInt8) :
    Laid (.configDigitalInput pin pull) .configDigitalInput [pin, pull]
  | configDigitalOutput (pin initial : UInt8) :
    Laid (.configDigitalOutput pin (initial != 0)) .configDigitalOutput [pin, initial]
  | digitalRead (pin : UInt8) : Laid (.digitalRead pin) .digitalRead [pin]
  | digitalWrite (pin value : UInt8) :
    Laid (.digitalWrite pin (value != 0)) .digitalWrite [pin, value]
  | configPwm (pin : UInt8) (frequency : UInt32) (duty : UInt8) :
    Laid (.configPwm pin frequency duty) .configPwm ([pin] ++ toBytes 4 frequency.toNat ++ [duty])
  | pwmWrite (pin duty : UInt8) : Laid (.pwmWrite pin duty) .pwmWrite [pin, duty]
  | pwmDisable (pin : UInt8) : Laid (.pwmDisable pin) .pwmDisable [pin]
  | configAnalog (pin samples : UInt8) :
    Laid (.configAnalog pin samples) .configAnalog [pin, samples]
  | analogRead (pin : UInt8) : Laid (.analogRead pin) .analogRead [pin]
  | configCounter (id pin edge : UInt8) :
    Laid (.configCounter id pin edge) .configCounter [id, pin, edge]
  | counterRead (id : UInt8) : Laid (.counterRead id) .counterRead [id]
  | counterReset (id : UInt8) : Laid (.counterReset id) .counterReset [id]
  | counterFrequency (id : UInt8) : Laid (.counterFrequency id) .counterFrequency [id]
  | configEncoder (id pinA pinB mode : UInt8) :
    Laid (.configEncoder id pinA pinB mode) .configEncoder [id, pinA, pinB, mode]
  | encoderRead (id : UInt8) : Laid (.encoderRead id) .encoderRead [id]
  | encoderReset (id : UInt8) : Laid (.encoderReset id) .encoderReset [id]
  | subscribe (kind id : UInt8) (rateHz : UInt16) (flags : UInt8) :
    Laid (.subscribe kind id rateHz flags) .subscribe
      ([kind, id] ++ toBytes 2 rateHz.toNat ++ [flags])
  | unsubscribe (kind id : UInt8) : Laid (.unsubscribe kind id) .unsubscribe [kind, id]
  | configI2cBus (bus : UInt8) (frequency : UInt32) :
    Laid (.configI2cBus bus frequency) .configI2cBus ([bus] ++ toBytes 4 frequency.toNat)
  | i2cWrite (bus address length : UInt8) (bytes : List UInt8) :
    length.toNat = bytes.length →
      Laid (.i2cWrite bus address bytes) .i2cWrite ([bus, address, length] ++ bytes)
  | i2cRead (bus address length : UInt8) :
    Laid (.i2cRead bus address length) .i2cRead [bus, address, length]
  | configDac (id bus address channels resolution : UInt8) :
    Laid (.configDac id bus address channels resolution) .configDac
      [id, bus, address, channels, resolution]
  | dacWriteRaw (id channel : UInt8) (value : UInt16) :
    Laid (.dacWriteRaw id channel value) .dacWriteRaw ([id, channel] ++ toBytes 2 value.toNat)
  | dacWriteNormalized (id channel : UInt8) (normalized : UInt16) :
    Laid (.dacWriteNormalized id channel normalized) .dacWriteNormalized
      ([id, channel] ++ toBytes 2 normalized.toNat)

/-! ### Reading a packet -/

variable {p : Packet} {xs : List UInt8}

theorem length_of_bytes (h : p.bytes = xs) : xs.length ≤ p.length.toNat := by
  rw [← h, Packet.bytes]
  exact List.length_take_le _ _

/-- What stands in the payload array behind the announced length is never looked at here. -/
theorem take_payload (h : p.bytes = xs) : p.payload.toList.take xs.length = xs := by
  rw [← h, Packet.bytes, List.length_take, ← List.take_eq_take_min]

theorem byte_of_bytes (h : p.bytes = xs) {i : ℕ} (hi : i < xs.length) :
    byte p i = xs.getD i 0 := by
  conv_rhs => rw [← take_payload h]
  rw [byte, List.getD_eq_getElem?_getD, List.getD_eq_getElem?_getD, List.getElem?_take_of_lt hi]

theorem taking_of_bytes (h : p.bytes = xs) {n : UInt16} (hn : n.toNat ≤ xs.length) (r : Request) :
    taking n p r = .ok r := by
  have hlength := length_of_bytes h
  rw [taking, if_neg]
  rw [UInt16.lt_iff_toNat_lt]
  omega

theorem byte_of_drop (h : p.bytes = xs) {i k : ℕ} {ys zs : List UInt8}
    (hdrop : xs.drop i = ys ++ zs) (hk : k < ys.length) : byte p (i + k) = ys.getD k 0 := by
  have hlength := congrArg List.length hdrop
  rw [List.length_drop, List.length_append] at hlength
  rw [byte_of_bytes h (by omega), ← List.getD_append ys zs 0 k hk, ← hdrop]
  simp [List.getD_eq_getElem?_getD]

theorem word16_of_bytes (h : p.bytes = xs) {i : ℕ} {v : UInt16} {ys : List UInt8}
    (hdrop : xs.drop i = toBytes 2 v.toNat ++ ys) : word16 p i = v := by
  have h0 : byte p i = UInt8.ofNat v.toNat := byte_of_drop h hdrop (k := 0) (by simp)
  have h1 : byte p (i + 1) = UInt8.ofNat (v.toNat / 256) := byte_of_drop h hdrop (by simp)
  rw [word16, h0, h1, uint16_roundtrip]

theorem word32_of_bytes (h : p.bytes = xs) {i : ℕ} {v : UInt32} {ys : List UInt8}
    (hdrop : xs.drop i = toBytes 4 v.toNat ++ ys) : word32 p i = v := by
  have h0 : byte p i = (toBytes 4 v.toNat).getD 0 0 := byte_of_drop h hdrop (k := 0) (by simp)
  have hvalue : value [byte p i, byte p (i + 1), byte p (i + 2), byte p (i + 3)] =
      value (toBytes 4 v.toNat) := by
    rw [h0, byte_of_drop h hdrop (by simp), byte_of_drop h hdrop (by simp),
      byte_of_drop h hdrop (by simp)]
    rfl
  have hlt : v.toNat < 256 ^ 4 := v.toNat_lt
  apply UInt32.toNat_inj.mp
  rw [word32, uint32_of_bytes, hvalue, value_toBytes_of_lt hlt]

theorem i2cBytes_of_bytes (head : List UInt8) {bytes : List UInt8} (h : p.bytes = head ++ bytes)
    (hhead : head.length = 4) (hlength : (byte p 3).toNat = bytes.length) :
    i2cBytes p = some bytes := by
  have hcovered := length_of_bytes h
  have htake := take_payload h
  rw [List.length_append, hhead] at hcovered htake
  rw [i2cBytes, if_neg (by omega), hlength]
  congr 1
  rw [List.take_drop, htake, ← hhead, List.drop_left]

theorem decode_of_bytes {id : CommandId} {bytes : List UInt8}
    (htype : p.type = PacketType.command.toByte) (h : p.bytes = id.toByte :: bytes) :
    decode p = requestOf p id := by
  have hfirst : byte p 0 = id.toByte := byte_of_bytes h (by simp)
  have hlength := length_of_bytes h
  have hpos : p.length ≠ 0 := by
    intro hzero
    simp [hzero] at hlength
  rw [decode, if_neg (by simp [htype, hpos]), hfirst, CommandId.ofByte_toByte]

/-- The handler's length check passes and its reads give the request back. -/
theorem decode_laid {r : Request} {id : CommandId} {bytes : List UInt8} (hl : Laid r id bytes)
    (htype : p.type = PacketType.command.toByte) (h : p.bytes = id.toByte :: bytes) :
    decode p = .ok r := by
  rw [decode_of_bytes htype h]
  cases hl with
  | ping => rfl
  | getInfo => rfl
  | heartbeat => rfl
  | resetConfig => rfl
  | emergencyStop => rfl
  | clearEmergencyStop => rfl
  | configPwm pin frequency duty =>
    rw [requestOf, taking_of_bytes h (by simp), word32_of_bytes h rfl, byte_of_bytes h (by simp),
      byte_of_bytes h (by simp)]
    rfl
  | subscribe kind id rateHz flags =>
    rw [requestOf, taking_of_bytes h (by simp), word16_of_bytes h rfl, byte_of_bytes h (by simp),
      byte_of_bytes h (by simp), byte_of_bytes h (by simp)]
    rfl
  | configI2cBus bus frequency =>
    rw [requestOf, taking_of_bytes h (by simp), word32_of_bytes h rfl, byte_of_bytes h (by simp)]
    rfl
  | dacWriteRaw id channel value =>
    rw [requestOf, taking_of_bytes h (by simp), word16_of_bytes h rfl, byte_of_bytes h (by simp),
      byte_of_bytes h (by simp)]
    rfl
  | dacWriteNormalized id channel normalized =>
    rw [requestOf, taking_of_bytes h (by simp), word16_of_bytes h rfl, byte_of_bytes h (by simp),
      byte_of_bytes h (by simp)]
    rfl
  | i2cWrite bus address length bytes hlength =>
    have h1 : byte p 1 = bus := byte_of_bytes h (by simp)
    have h2 : byte p 2 = address := byte_of_bytes h (by simp)
    have h3 : byte p 3 = length := byte_of_bytes h (by simp)
    have hbytes : i2cBytes p = some bytes :=
      i2cBytes_of_bytes [_, bus, address, length] h rfl (by rw [h3, hlength])
    have hcovered := length_of_bytes h
    have hlong : ¬ p.length < 4 := by
      rw [UInt16.lt_iff_toNat_lt]
      simp at hcovered ⊢
      omega
    rw [requestOf, if_neg hlong, hbytes, h1, h2]
  | _ =>
    rw [requestOf, taking_of_bytes h (by simp)]
    simp [byte_of_bytes h]

end RequestLayouts
