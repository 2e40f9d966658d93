import MiniServiceDiscover.GoProtocal
import MiniServiceDiscover.JavaProtocal

set_option autoImplicit false

/-! Packets that cross from Java to Go and back: the layouts agree, the checksums
differ by `256` for each byte with its top bit set. -/
namespace MiniServiceDiscover.JavaGoInterop
open JsonText WordSum WireFormat GoProtocal JavaProtocal

/-- Go accepts the packet the Java encoder builds around the payload. -/
def GoAcceptsJava (action : Action) (json : List UInt8) : Prop :=
  ∃ pkt head, getPkt (infoType action) (signed json) = .ok pkt ∧
    checkAndGetServiceInfoHead (unsigned pkt) = .ok (some head) ∧
      head.action = action.code ∧ head.jsonLen.toNat = json.length

/-- Java reads the action off the packet Go builds around the payload. -/
def JavaAcceptsGo (action : Action) (json : List UInt8) : Prop :=
  decodeAction (signed (dataBuffer action.code json)) = .ok (infoType action)

section Packets
variable (action : Action) {json : List UInt8}

theorem signedPacket_accepted_iff (checksum : UInt16) (h : json.length ≤ payloadLen) :
    Accepted (packet (headBytes infoHead action.code json.length.toUInt16 checksum) json) ↔
      wordSum zeroExtend json = checksum := by
  have hn := toNat_length_fits h
  simp only [Accepted, headOf, packet, field_headBytes_head, field_headBytes_len,
    field_headBytes_checksum, true_and, payload_headBytes, hn, List.take_of_length_le h]
  rw [List.take_left]

theorem goAcceptsJava_iff (h : json.length ≤ payloadLen) :
    GoAcceptsJava action json ↔ wordSum signExtend json = wordSum zeroExtend json := by
  have hn := toNat_length_fits h
  obtain ⟨pkt, hp, hu⟩ := getPkt_signed action h
  have hlen : (unsigned pkt).length = udpCommBufLen := by
    rw [hu]
    exact packet_length _ _ _ _ _
  have hacc := signedPacket_accepted_iff action (wordSum signExtend json) h
  rw [← hu] at hacc
  have hh : headOf (unsigned pkt) =
      ⟨infoHead, action.code, json.length.toUInt16, wordSum signExtend json⟩ := by
    rw [hu, headOf, packet, field_headBytes_head, field_headBytes_action, field_headBytes_len,
      field_headBytes_checksum]
  constructor
  · rintro ⟨pkt', head, hp', hc, -, -⟩
    obtain rfl := Except.ok.inj (hp.symm.trans hp')
    exact (hacc.1 (checkAndGetServiceInfoHead_some hlen hc).2.1).symm
  · intro hs
    refine ⟨pkt, ⟨infoHead, action.code, json.length.toUInt16, wordSum signExtend json⟩, hp, ?_,
      rfl, hn⟩
    rw [checkAndGetServiceInfoHead_eq hlen, if_pos (hacc.2 hs.symm), hh, if_neg]
    rintro ⟨-, hl⟩
    change payloadLen < json.length.toUInt16.toNat at hl
    omega

theorem toInt16_injective {a b : UInt16} : a.toInt16 = b.toInt16 ↔ a = b :=
  ⟨fun h => congrArg Int16.toUInt16 h, congrArg UInt16.toInt16⟩

theorem code_toInt16 : action.code.toInt16 = infoType action := by
  cases action <;> rfl

theorem length_toInt (h : json.length ≤ payloadLen) :
    json.length.toUInt16.toInt16.toInt.toNat = json.length := by
  have hl : json.length < 2 ^ 15 := h.trans_lt (by decide)
  change (Int16.ofNat json.length).toInt.toNat = _
  rw [Int16.toInt_ofNat_of_lt hl, Int.toNat_natCast]

theorem javaAcceptsGo_iff (h : json.length ≤ payloadLen) :
    JavaAcceptsGo action json ↔ wordSum signExtend json = wordSum zeroExtend json := by
  have hlen := dataBuffer_length action.code json
  have hh := headOf_dataBuffer action.code json
  have h1 : field 1 (dataBuffer action.code json) = action.code := congrArg ServiceHead.action hh
  have h2 : field 2 (dataBuffer action.code json) = json.length.toUInt16 :=
    congrArg ServiceHead.jsonLen hh
  have h3 : field 3 (dataBuffer action.code json) = wordSum zeroExtend json :=
    congrArg ServiceHead.checkSum hh
  have hd := decodeAction_signed (dataBuffer action.code json) (by rw [hlen]; decide) (by
    rw [h2, length_toInt h, hlen]
    exact (Nat.add_le_add_left h headLen).trans (by decide))
  rw [h1, h2, h3, length_toInt h, payload_dataBuffer _ h, List.take_left, code_toInt16] at hd
  simp only [toInt16_injective] at hd
  rw [JavaAcceptsGo, hd, Except.ok.injEq]
  constructor
  · intro he
    by_contra hs
    rw [if_neg hs] at he
    exact infoType_ne_invalid action he.symm
  · exact fun hs => if_pos hs

end Packets

/-- Either side accepts the other's packet exactly when the number of payload
bytes with the top bit set is a multiple of `256`. -/
theorem interoperate_iff (action : Action) (json : List UInt8) (h : json.length ≤ payloadLen) :
    (GoAcceptsJava action json ↔ highCount json % 256 = 0) ∧
      (JavaAcceptsGo action json ↔ highCount json % 256 = 0) :=
  ⟨(goAcceptsJava_iff action h).trans (signed_eq_unsigned_iff json),
    (javaAcceptsGo_iff action h).trans (signed_eq_unsigned_iff json)⟩

section Examples

def plain : List UInt8 := ascii "\x7b\"reason\":\"e\"\x7d"

/-- The object `plain` with an accented letter, two bytes in UTF-8. -/
def accented : List UInt8 := ascii "\x7b\"reason\":\"" ++ [0xC3, 0xA9] ++ ascii "\"\x7d"

theorem interoperate_iff_plain :
    (GoAcceptsJava .actionFail plain ↔ highCount plain % 256 = 0) ∧
      (JavaAcceptsGo .actionFail plain ↔ highCount plain % 256 = 0) :=
  interoperate_iff .actionFail plain (by decide)

theorem accented_rejected :
    ¬ GoAcceptsJava .actionFail accented ∧ ¬ JavaAcceptsGo .actionFail accented := by
  have hl : accented.length ≤ payloadLen := by decide
  have hs : wordSum signExtend accented ≠ wordSum zeroExtend accented := by decide
  exact ⟨fun h => hs ((goAcceptsJava_iff _ hl).1 h), fun h => hs ((javaAcceptsGo_iff _ hl).1 h)⟩

end Examples

end MiniServiceDiscover.JavaGoInterop
