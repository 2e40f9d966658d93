import MiniServiceDiscover.WordSum
import Mathlib.Data.Nat.Basic
import Mathlib.Order.Basic

set_option autoImplicit false

/-! The packet all three implementations exchange: four little-endian words, the
JSON text behind them, and zeros up to `packetLen` bytes. -/
namespace MiniServiceDiscover.WireFormat
open WordSum

def packetLen : ℕ := 1024

def headLen : ℕ := 8

def payloadLen : ℕ := packetLen - headLen

def infoHead : UInt16 := 0xFFEE

/-- The action types of the protocol, numbered as in every implementation. -/
inductive Action where
  | registerService
  | unregisterService
  | inquiry
  | actionSucc
  | actionFail
  deriving DecidableEq, Repr

def Action.code : Action → UInt16
  | .registerService => 0
  | .unregisterService => 1
  | .inquiry => 2
  | .actionSucc => 3
  | .actionFail => 4

theorem Action.code_injective : Function.Injective Action.code := by
  intro a b h
  cases a <;> cases b <;> first | rfl | exact absurd h (by decide)

def headBytes (head action len checksum : UInt16) : List UInt8 :=
  [lowByte head, highByte head, lowByte action, highByte action, lowByte len, highByte len,
    lowByte checksum, highByte checksum]

/-- Word `k` of the header at the front of a buffer. -/
def field (k : ℕ) (data : List UInt8) : UInt16 :=
  word (data.getD (2 * k) 0) (data.getD (2 * k + 1) 0)

def payload (data : List UInt8) : List UInt8 := data.drop headLen

def packet (head json : List UInt8) : List UInt8 :=
  head ++ (json.take payloadLen ++ List.replicate (payloadLen - json.length) 0)

section Packets
variable (head action len checksum : UInt16) (json : List UInt8)

theorem field_headBytes_head (rest : List UInt8) :
    field 0 (headBytes head action len checksum ++ rest) = head := word_bytes head

theorem field_headBytes_action (rest : List UInt8) :
    field 1 (headBytes head action len checksum ++ rest) = action := word_bytes action

theorem field_headBytes_len (rest : List UInt8) :
    field 2 (headBytes head action len checksum ++ rest) = len := word_bytes len

theorem field_headBytes_checksum (rest : List UInt8) :
    field 3 (headBytes head action len checksum ++ rest) = checksum := word_bytes checksum

theorem payload_headBytes (rest : List UInt8) :
    payload (headBytes head action len checksum ++ rest) = rest := rfl

theorem packet_length : (packet (headBytes head action len checksum) json).length = packetLen := by
  simp only [packet, headBytes, List.length_append, List.length_cons, List.length_nil,
    List.length_take, List.length_replicate, payloadLen, packetLen, headLen]
  omega

theorem field_take (k : ℕ) (hk : k < 4) (data : List UInt8) :
    field k (data.take headLen) = field k data := by
  simp only [field, List.getD_eq_getElem?_getD, headLen]
  rw [List.getElem?_take_of_lt (by omega), List.getElem?_take_of_lt (by omega)]

theorem payload_length {data : List UInt8} (hd : data.length = packetLen) :
    (payload data).length = payloadLen := by
  rw [payload, List.length_drop, hd]
  rfl

theorem payload_packet_fits (h : json.length ≤ payloadLen) :
    payload (packet (headBytes head action len checksum) json) =
      json ++ List.replicate (payloadLen - json.length) 0 := by
  rw [packet, payload_headBytes, List.take_of_length_le h]

end Packets

end MiniServiceDiscover.WireFormat
