import MiniServiceDiscover.JsonMeaning
import MiniServiceDiscover.WireFormat

set_option autoImplicit false

/-! A service as the three programs understand it, and the packets that carry it between
them: one object in JSON, behind a header with the sum that the sender takes. -/
namespace MiniServiceDiscover.ServiceWire
open JsonText UnicodeText JsonMeaning WordSum WireFormat

/-- A string without the character that ends a C string. -/
structure Str where
  chars : List Char
  noNul : '\x00' ∉ chars
  deriving DecidableEq

def Str.empty : Str := ⟨[], List.not_mem_nil⟩

def Str.bytes (s : Str) : List UInt8 := utf8 s.chars

@[ext] structure Service where
  device : Str
  name : Str
  ip : Str
  info : Str
  port : UInt16
  deriving DecidableEq

def Service.record (s : Service) : List (List Char × Datum) :=
  [("device_name".toList, .text s.device.chars), ("service_name".toList, .text s.name.chars),
    ("ip".toList, .text s.ip.chars), ("info".toList, .text s.info.chars),
    ("port".toList, .number s.port.toNat)]

def wirePacket (sum : List UInt8 → UInt16) (action : Action) (text : List UInt8) : List UInt8 :=
  packet (headBytes infoHead action.code text.length.toUInt16 (sum text)) text

def reasonRecord (reason : Str) : List (List Char × Datum) :=
  [("reason".toList, .text reason.chars)]

/-- The action of a packet that tells of an outcome. -/
def outcome (isSucc : Bool) : Action := if isSucc then .actionSucc else .actionFail

/-- The packet holds this text for the record, and a zero behind it. -/
structure Carries (sum : List UInt8 → UInt16) (action : Action) (record : List (List Char × Datum))
    (text pkt : List UInt8) : Prop where
  prints : ∃ r, Prints text r ∧ r.Perm record
  room : text.length < payloadLen
  packet : pkt = wirePacket sum action text

section Strings

theorem utf8_noNul {s : List Char} (h : '\x00' ∉ s) : (0 : UInt8) ∉ utf8 s := by
  intro h0
  obtain ⟨c, hc, h0⟩ := List.mem_flatMap.1 h0
  by_cases hlow : c.toNat < 0x80
  · rw [utf8EncodeChar_ascii hlow, List.mem_singleton] at h0
    have hb : c.toNat.toUInt8.toNat = c.toNat := UInt8.toNat_ofNat_of_lt' (hlow.trans (by decide))
    rw [← h0] at hb
    have hzero : ('\x00' : Char).toNat = c.toNat := hb
    rw [Char.toNat_inj.1 hzero] at h
    exact h hc
  · exact absurd (utf8EncodeChar_high (by omega) 0 h0) (by decide)

theorem Str.bytes_noNul (s : Str) : (0 : UInt8) ∉ s.bytes := utf8_noNul s.noNul

theorem Str.bytes_injective {s t : Str} (h : s.bytes = t.bytes) : s = t := by
  obtain ⟨cs, hs⟩ := s
  obtain ⟨ct, ht⟩ := t
  obtain rfl := utf8_injective h
  rfl

theorem record_keys (s : Service) : (s.record.map Prod.fst).Nodup := by
  change ["device_name".toList, "service_name".toList, "ip".toList, "info".toList,
    "port".toList].Nodup
  decide

end Strings

section Packets
variable {sum : List UInt8 → UInt16} {action : Action} {record : List (List Char × Datum)}
  {text pkt : List UInt8}

theorem Carries.length_toNat (h : Carries sum action record text pkt) :
    text.length.toUInt16.toNat = text.length :=
  UInt16.toNat_ofNat_of_lt' (h.room.trans (by decide))

theorem Carries.pkt_length (h : Carries sum action record text pkt) : pkt.length = packetLen := by
  rw [h.packet]
  exact packet_length _ _ _ _ _

theorem Carries.field_head (h : Carries sum action record text pkt) : field 0 pkt = infoHead := by
  rw [h.packet]
  exact field_headBytes_head _ _ _ _ _

theorem Carries.field_action (h : Carries sum action record text pkt) :
    field 1 pkt = action.code := by
  rw [h.packet]
  exact field_headBytes_action _ _ _ _ _

theorem Carries.field_len (h : Carries sum action record text pkt) :
    field 2 pkt = text.length.toUInt16 := by
  rw [h.packet]
  exact field_headBytes_len _ _ _ _ _

theorem Carries.field_sum (h : Carries sum action record text pkt) : field 3 pkt = sum text := by
  rw [h.packet]
  exact field_headBytes_checksum _ _ _ _ _

theorem Carries.payload (h : Carries sum action record text pkt) :
    WireFormat.payload pkt = text ++ List.replicate (payloadLen - text.length) 0 := by
  rw [h.packet]
  exact payload_packet_fits _ _ _ _ _ h.room.le

theorem Carries.zero_mem (h : Carries sum action record text pkt) :
    (0 : UInt8) ∈ WireFormat.payload pkt := by
  rw [h.payload]
  exact List.mem_append_right _ (List.mem_replicate.2 ⟨Nat.sub_ne_zero_of_lt h.room, rfl⟩)

theorem Carries.counted (h : Carries sum action record text pkt) :
    (WireFormat.payload pkt).take text.length = text := by
  rw [h.payload, List.take_left]

/-- The zeros behind the text have no top bit. -/
theorem Carries.highCount_payload (h : Carries sum action record text pkt) :
    highCount (WireFormat.payload pkt) = highCount text := by
  have hzeros : ∀ n, highCount (List.replicate n 0) = 0 := fun n => by
    refine List.countP_eq_zero.2 fun b hb => ?_
    rw [List.eq_of_mem_replicate hb]
    decide
  rw [h.payload, highCount, List.countP_append]
  exact (congrArg (List.countP isHigh text + ·) (hzeros _)).trans (Nat.add_zero _)

end Packets

end MiniServiceDiscover.ServiceWire
