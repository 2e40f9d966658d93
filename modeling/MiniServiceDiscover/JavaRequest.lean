import MiniServiceDiscover.JavaGoInterop
import MiniServiceDiscover.JavaReceive

set_option autoImplicit false

/-! The Java decoders taken apart: the text of a payload, and whether it parses and has
all the members. -/
namespace MiniServiceDiscover.JavaRequest
open WireFormat JavaProtocal JavaProvider JavaDaemon JavaReceive

/-- The decoder accepts the packet with this action. -/
def Accepted (action : Action) (data : JavaBytes) : Prop := decodeAction data = .ok (infoType action)

instance (action : Action) (data : JavaBytes) : Decidable (Accepted action data) := by
  unfold Accepted
  infer_instance

section Payload
variable (oj : OrgJson)

/-- The text `getServiceInfo` parses. -/
def payloadText (data : JavaBytes) : Except Thrown JavaString := do
  let head ← (ProtocalHead.ofBytes data).mapError Thrown.codec
  stringOf oj data getSize head.len.toInt

/-- None of the five reads throws. -/
structure MembersPresent (json : oj.Json) : Prop where
  dev : (oj.getString json "device_name").isSome
  name : (oj.getString json "service_name").isSome
  ip : (oj.getString json "ip").isSome
  info : (oj.getString json "info").isSome
  port : (oj.getInt json "port").isSome

instance (json : oj.Json) : Decidable (MembersPresent oj json) :=
  decidable_of_iff ((oj.getString json "device_name").isSome ∧
      (oj.getString json "service_name").isSome ∧ (oj.getString json "ip").isSome ∧
      (oj.getString json "info").isSome ∧ (oj.getInt json "port").isSome)
    ⟨fun ⟨dev, name, ip, info, port⟩ => ⟨dev, name, ip, info, port⟩,
      fun ⟨dev, name, ip, info, port⟩ => ⟨dev, name, ip, info, port⟩⟩

/-- The payload parses, and no member is missing. -/
def FullyDecodes (data : JavaBytes) (info : ServiceInfo) : Prop :=
  ∃ text json, payloadText oj data = .ok text ∧ oj.newJson text = some json ∧
    MembersPresent oj json ∧ readMembers oj json = info

/-- The parse or one of the reads throws a `JSONException`. -/
def Incomplete (data : JavaBytes) : Prop :=
  ∃ text, payloadText oj data = .ok text ∧
    ∀ json, oj.newJson text = some json → ¬ MembersPresent oj json

variable {oj} {data : JavaBytes} {info : ServiceInfo}

theorem getServiceInfo_payloadText (oj : OrgJson) (data : JavaBytes) : getServiceInfo oj data =
    (payloadText oj data).map fun text => match oj.newJson text with
      | none => .fresh
      | some jsonObj => readMembers oj jsonObj := by
  rw [getServiceInfo, payloadText]
  cases (ProtocalHead.ofBytes data).mapError Thrown.codec with
  | error e => rfl
  | ok head =>
    change (stringOf oj data getSize head.len.toInt >>= _) =
      Except.map _ (stringOf oj data getSize head.len.toInt)
    cases stringOf oj data getSize head.len.toInt with
    | error e => rfl
    | ok text => rfl

/-- An object with its members gives each string. -/
theorem MembersPresent.read {json : oj.Json} (h : MembersPresent oj json) :
    ∃ dev name ip text port,
      readMembers oj json = ⟨some dev, some name, some ip, some text, port⟩ := by
  obtain ⟨dev, hdev⟩ := Option.isSome_iff_exists.1 h.dev
  obtain ⟨name, hname⟩ := Option.isSome_iff_exists.1 h.name
  obtain ⟨ip, hip⟩ := Option.isSome_iff_exists.1 h.ip
  obtain ⟨text, htext⟩ := Option.isSome_iff_exists.1 h.info
  obtain ⟨port, hport⟩ := Option.isSome_iff_exists.1 h.port
  refine ⟨dev, name, ip, text, port, ?_⟩
  simp only [readMembers, hdev, hname, hip, htext, hport]

theorem FullyDecodes.getServiceInfo (h : FullyDecodes oj data info) :
    JavaDaemon.getServiceInfo oj data = .ok info := by
  obtain ⟨text, json, ht, hj, -, rfl⟩ := h
  rw [getServiceInfo_payloadText, ht]
  simp only [Except.map, hj]

theorem FullyDecodes.named (h : FullyDecodes oj data info) :
    ∃ i : NamedInfo, i.info = info := by
  obtain ⟨text, json, -, -, hm, rfl⟩ := h
  obtain ⟨dev, name, ip, text, port, hr⟩ := hm.read
  rw [hr]
  exact ⟨⟨_, dev, name, rfl, rfl⟩, rfl⟩

/-- What is decoded is complete, or some read threw. -/
theorem fullyDecodes_or_incomplete (h : getServiceInfo oj data = .ok info) :
    FullyDecodes oj data info ∨ Incomplete oj data := by
  rw [getServiceInfo_payloadText] at h
  cases ht : payloadText oj data with
  | error e =>
    rw [ht] at h
    cases h
  | ok text =>
    by_cases hm : ∃ json, oj.newJson text = some json ∧ MembersPresent oj json
    · obtain ⟨json, hj, hm⟩ := hm
      left
      refine ⟨text, json, ht, hj, hm, ?_⟩
      rw [ht] at h
      simp only [Except.map, hj] at h
      exact Except.ok.inj h
    · exact .inr ⟨text, ht, fun json hj hmem => hm ⟨json, hj, hmem⟩⟩

theorem Incomplete.getServiceInfo (h : Incomplete oj data) :
    ∃ info, JavaDaemon.getServiceInfo oj data = .ok info := by
  obtain ⟨text, ht, -⟩ := h
  rw [getServiceInfo_payloadText, ht]
  exact ⟨_, rfl⟩

end Payload

section RoundTrip
open WordSum JavaGoInterop
variable (oj : OrgJson) (action : Action) {json : List UInt8}

theorem signed_unsigned (data : JavaBytes) : signed (unsigned data) = data := by
  rw [signed, unsigned, List.map_map]
  exact List.map_id data

theorem length_toInt_eq (h : json.length ≤ payloadLen) :
    json.length.toUInt16.toInt16.toInt = json.length :=
  Int16.toInt_ofNat_of_lt (h.trans_lt (by decide))

/-- What the encoders build decodes to the action and the text it was built from. -/
theorem getPkt_decodes (json : List UInt8) (h : json.length ≤ payloadLen) : ∃ pkt,
    getPkt (infoType action) (signed json) = .ok pkt ∧ pkt.length = protocalLen ∧
      decodeAction pkt = .ok (infoType action) ∧
      payloadText oj pkt = .ok (oj.newString (signed json)) := by
  obtain ⟨pkt, hp, hu⟩ := getPkt_signed action h
  have hpkt := signed_unsigned pkt
  obtain ⟨data, hdata⟩ : ∃ data, data = packet (headBytes infoHead action.code
    json.length.toUInt16 (wordSum signExtend json)) json := ⟨_, rfl⟩
  rw [hu, ← hdata] at hpkt
  have hlen : data.length = packetLen := hdata ▸ packet_length _ _ _ _ _
  have h1 : field 1 data = action.code := hdata ▸ field_headBytes_action _ _ _ _ _
  have h2 : field 2 data = json.length.toUInt16 := hdata ▸ field_headBytes_len _ _ _ _ _
  have h3 : field 3 data = wordSum signExtend json := hdata ▸ field_headBytes_checksum _ _ _ _ _
  have hpay : (payload data).take json.length = json := by
    rw [hdata, payload_packet_fits _ _ _ _ _ h, List.take_left]
  have hfits : headLen + json.length ≤ data.length := by
    rw [hlen]
    exact Nat.add_le_add_left h headLen
  refine ⟨pkt, hp, ?_, ?_, ?_⟩
  · rw [← hpkt, signed_length, hlen]
    rfl
  · rw [← hpkt, decodeAction_signed data (by rw [hlen]; decide)
      (by rw [h2, length_toInt h]; exact hfits), h1, h2, h3, length_toInt h, hpay, if_pos rfl,
      code_toInt16]
  · rw [← hpkt, payloadText, ofBytes_signed (by rw [hlen]; decide)]
    change stringOf oj (signed data) headLen (field 2 data).toInt16.toInt = _
    have htake : ((signed data).drop headLen).take json.length = signed json := by
      rw [signed, ← List.map_drop, ← List.map_take]
      exact congrArg signed hpay
    rw [h2, length_toInt_eq h, stringOf, if_neg, Int.toNat_natCast, htake]
    rw [signed_length]
    omega

end RoundTrip

section Bare

/-- A header that counts no payload. -/
def barePacket (action : Int8) : JavaBytes :=
  [-18, -1, action, 0, 0, 0, 0, 0] ++ List.replicate payloadLen 0

theorem barePacket_length (action : Int8) : (barePacket action).length = protocalLen := by
  rw [barePacket, List.length_append, List.length_replicate]
  rfl

theorem lenOf_barePacket (action : Int8) : lenOf (barePacket action) = 0 := by
  change (shortOf 0 0).toInt = 0
  decide

theorem fits_barePacket (action : Int8) : LenFits (barePacket action) := by
  rw [LenFits, lenOf_barePacket]
  decide

theorem decodeAction_barePacket (action : Int8) :
    decodeAction (barePacket action) = .ok (shortOf 0 action) := by
  have hs : SumRight (barePacket action) := by
    rw [SumRight, counted_of_zero (lenOf_barePacket action)]
    change (0 : Int16) = shortOf 0 0
    decide
  rw [decodeAction_eq (barePacket_length action), if_pos (fits_barePacket action), if_pos hs]
  rfl

end Bare

section ReadsBack
open JavaJsonText

/-- The library prints an info that fits a packet, and reads it back. -/
def ReadsBack (info : ServiceInfo) : Prop :=
  (textJson.print (serviceMap info)).length ≤ payloadLen ∧
    ∃ json ∈ textJson.newJson (textJson.newString (textJson.print (serviceMap info))),
      MembersPresent textJson json ∧ readMembers textJson json = info

instance (info : ServiceInfo) : Decidable (ReadsBack info) := by
  unfold ReadsBack
  infer_instance

theorem ReadsBack.pkt {info : ServiceInfo} (h : ReadsBack info) (action : Action) : ∃ pkt,
    getPkt (infoType action) (textJson.print (serviceMap info)) = .ok pkt ∧
      pkt.length = protocalLen ∧ decodeAction pkt = .ok (infoType action) ∧
      FullyDecodes textJson pkt info := by
  obtain ⟨hlen, json, hjson, hm, hr⟩ := h
  obtain ⟨pkt, hp, hl, ha, ht⟩ := getPkt_decodes textJson action
    (objectText (serviceMap info)) ((signed_length _).symm.trans_le hlen)
  exact ⟨pkt, hp, hl, ha, _, json, ht, hjson, hm, hr⟩

end ReadsBack

end MiniServiceDiscover.JavaRequest
