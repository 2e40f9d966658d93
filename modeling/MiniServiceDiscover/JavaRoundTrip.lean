import MiniServiceDiscover.JavaRequest
import MiniServiceDiscover.JavaSweep
import MiniServiceDiscover.JavaUnicodeText

set_option autoImplicit false

/-! The Java codec against itself: signed bytes are summed and reassembled on both
sides alike, so whatever fits a packet comes back. -/
namespace MiniServiceDiscover.JavaRoundTrip
open UnicodeText WireFormat JavaProtocal JavaProvider JavaDaemon JavaRequest JavaSweep
open JavaUnicodeText

/-- A string without lone surrogates. -/
structure Text where
  str : JavaString
  wellFormed : WellFormed str

structure TextInfo where
  dev : Text
  name : Text
  ip : Text
  info : Text
  port : Int32

def TextInfo.service (i : TextInfo) : ServiceInfo :=
  ⟨some i.dev.str, some i.name.str, some i.ip.str, some i.info.str, i.port⟩

section Packets
variable {oj : OrgJson} {toString : List (String × Field) → JavaString}
  {getBytes : JavaString → JavaBytes} {pkt : JavaBytes}

theorem mapError_eq_ok {α ε ε' : Type} {x : Except ε α} {f : ε → ε'} {a : α} :
    x.mapError f = .ok a ↔ x = .ok a := by
  cases x with
  | error e => exact ⟨(fun h => nomatch h), fun h => nomatch h⟩
  | ok b => exact ⟨fun h => congrArg _ (Except.ok.inj h), fun h => congrArg _ (Except.ok.inj h)⟩

/-- A packet that could be built holds the whole text. -/
theorem getPkt_fits {action : Int16} {jsonData : JavaBytes} (h : getPkt action jsonData = .ok pkt) :
    jsonData.length ≤ payloadLen := by
  obtain ⟨head, -, hp⟩ := getPkt_eq action jsonData
  by_contra hlong
  rw [hp, if_neg hlong] at h
  cases h

/-- What the map's object becomes on the way through a packet. -/
theorem getPkt_delivers (inverts : Inverts oj toString getBytes) (action : Action)
    {map : List (String × Field)} (unique : (map.map Prod.fst).Nodup)
    (whole : ∀ m ∈ map, Whole m.2) (h : getPkt (infoType action) (oj.print map) = .ok pkt) :
    decodeAction pkt = .ok (infoType action) ∧ ∃ text json, payloadText oj pkt = .ok text ∧
      oj.newJson text = some json ∧ ∀ m ∈ map, GivesBack oj json m := by
  obtain ⟨json, hjson, hread⟩ := inverts.newJson map unique whole
  obtain ⟨s, hs⟩ := inverts.wellFormed map whole
  have hprint : oj.print map = signed (utf8 s) := by
    rw [inverts.print, ← hs, inverts.getBytes]
  rw [hprint] at h
  have hlen : (utf8 s).length ≤ payloadLen := (signed_length _).symm.trans_le (getPkt_fits h)
  obtain ⟨pkt', hp, -, ha, ht⟩ := getPkt_decodes oj action (utf8 s) hlen
  obtain rfl := Except.ok.inj (hp.symm.trans h)
  refine ⟨ha, toString map, json, ?_, hjson, hread⟩
  rw [ht, inverts.newString, hs]

theorem serviceMap_keys (info : ServiceInfo) : ((serviceMap info).map Prod.fst).Nodup := by
  change ["device_name", "service_name", "ip", "info", "port"].Nodup
  decide

theorem serviceMap_whole (i : TextInfo) : ∀ m ∈ serviceMap i.service, Whole m.2 := by
  simp only [serviceMap, TextInfo.service, List.forall_mem_cons, Whole]
  exact ⟨i.dev.wellFormed, i.name.wellFormed, i.ip.wellFormed, i.info.wellFormed, trivial,
    fun _ hm => absurd hm List.not_mem_nil⟩

/-- An object that gives back the five members is read as the info they came from. -/
theorem fullyDecodes_of_givesBack {i : TextInfo} {text : JavaString} {json : oj.Json}
    (ht : payloadText oj pkt = .ok text) (hjson : oj.newJson text = some json)
    (hread : ∀ m ∈ serviceMap i.service, GivesBack oj json m) :
    FullyDecodes oj pkt i.service := by
  simp only [serviceMap, TextInfo.service, List.forall_mem_cons, GivesBack] at hread
  obtain ⟨hdev, hname, hip, hinfo, hport, -⟩ := hread
  have present : MembersPresent oj json :=
    ⟨Option.isSome_of_eq_some hdev, Option.isSome_of_eq_some hname, Option.isSome_of_eq_some hip,
      Option.isSome_of_eq_some hinfo, Option.isSome_of_eq_some hport⟩
  refine ⟨text, json, ht, hjson, present, ?_⟩
  simp only [readMembers, hdev, hname, hip, hinfo, hport, TextInfo.service]

theorem service_delivered (inverts : Inverts oj toString getBytes) (action : Action) {i : TextInfo}
    (h : (getPkt (infoType action) (oj.print (serviceMap i.service))).mapError Thrown.codec =
      .ok pkt) :
    decodeAction pkt = .ok (infoType action) ∧ getServiceInfo oj pkt = .ok i.service := by
  obtain ⟨ha, text, json, ht, hjson, hread⟩ := getPkt_delivers inverts action
    (serviceMap_keys i.service) (serviceMap_whole i) (mapError_eq_ok.1 h)
  exact ⟨ha, (fullyDecodes_of_givesBack ht hjson hread).getServiceInfo⟩

/-- The copy into an array of the header's length throws only where the text is not read
either. -/
theorem getResult_of_text {text : JavaString} {json : oj.Json} {reason : JavaString}
    (ht : payloadText oj pkt = .ok text) (hjson : oj.newJson text = some json)
    (hread : oj.getString json "reason" = some reason) : getResult oj pkt = .ok reason := by
  rw [payloadText] at ht
  rw [getResult]
  cases hhead : ProtocalHead.ofBytes pkt with
  | error e =>
    rw [hhead] at ht
    cases ht
  | ok head =>
    rw [hhead] at ht
    change stringOf oj pkt getSize head.len.toInt = .ok text at ht
    change (if head.len < 0 then _ else _) = _
    have hlen : ¬ head.len < 0 := by
      intro hneg
      rw [stringOf, if_pos (.inl (Int16.lt_iff_toInt_lt.1 hneg))] at ht
      cases ht
    have hin : ¬ (pkt.length : ℤ) < getSize + head.len.toInt := by
      intro hout
      rw [stringOf, if_pos (.inr hout)] at ht
      cases ht
    rw [if_neg hlen, if_neg hin, ht]
    simp only [Except.mapError, bind, Except.bind, pure, Except.pure, hjson, hread, Option.getD_some]

end Packets

/-- Every packet the encoders return decodes to its action and to what it was built from. -/
theorem codec_roundTrips (oj : OrgJson) {toString : List (String × Field) → JavaString}
    {getBytes : JavaString → JavaBytes} (inverts : Inverts oj toString getBytes) :
    (∀ (i : TextInfo) (pkt : JavaBytes), getRegisterPkt oj i.service = .ok pkt →
      decodeAction pkt = .ok (infoType .registerService) ∧
        getServiceInfo oj pkt = .ok i.service) ∧
    (∀ (i : TextInfo) (pkt : JavaBytes), getServicePkt oj i.service = .ok pkt →
      decodeAction pkt = .ok (infoType .actionSucc) ∧ getServiceInfo oj pkt = .ok i.service) ∧
    (∀ (reason : Text) (pkt : JavaBytes), getResultPkt oj false reason.str = .ok pkt →
      decodeAction pkt = .ok (infoType .actionFail) ∧ getResult oj pkt = .ok reason.str) := by
  refine ⟨fun i pkt h => service_delivered inverts .registerService h,
    fun i pkt h => service_delivered inverts .actionSucc h, fun reason pkt h => ?_⟩
  have hkeys : ([("reason", Field.string (some reason.str))].map Prod.fst).Nodup :=
    List.nodup_singleton _
  have hwhole : ∀ m ∈ [("reason", Field.string (some reason.str))], Whole m.2 :=
    List.forall_mem_singleton.2 reason.wellFormed
  obtain ⟨ha, text, json, ht, hjson, hread⟩ :=
    getPkt_delivers inverts .actionFail hkeys hwhole (mapError_eq_ok.1 h)
  have hreason : oj.getString json "reason" = some reason.str :=
    hread _ (List.mem_singleton_self _)
  exact ⟨ha, getResult_of_text ht hjson hreason⟩

section Examples

/-- `café`: its last character takes two bytes, those of `printer` three, that of
`smile` four. -/
def cafe : Text := ⟨[0x63, 0x61, 0x66, 0xE9], by decide⟩

def printer : Text := ⟨[0x6253, 0x5370], by decide⟩

def smile : Text := ⟨[0x6F, 0x6B, 0x20, 0xD83D, 0xDE00], by decide⟩

def cafeInfo : TextInfo := ⟨cafe, printer, cafe, smile, -1⟩

theorem getPkt_mapText (action : Action) (map : List (String × Field))
    (h : (mapText map).length ≤ payloadLen) :
    ∃ pkt, (getPkt (infoType action) (unicodeJson.print map)).mapError Thrown.codec = .ok pkt := by
  obtain ⟨pkt, hp, -⟩ := getPkt_decodes unicodeJson action (mapText map) h
  refine ⟨pkt, ?_⟩
  rw [print_eq, hp]
  rfl

theorem codec_roundTrips_cafe :
    (∃ pkt, getRegisterPkt unicodeJson cafeInfo.service = .ok pkt ∧
      decodeAction pkt = .ok (infoType .registerService) ∧
      getServiceInfo unicodeJson pkt = .ok cafeInfo.service) ∧
    (∃ pkt, getServicePkt unicodeJson cafeInfo.service = .ok pkt ∧
      decodeAction pkt = .ok (infoType .actionSucc) ∧
      getServiceInfo unicodeJson pkt = .ok cafeInfo.service) ∧
    ∃ pkt, getResultPkt unicodeJson false smile.str = .ok pkt ∧
      decodeAction pkt = .ok (infoType .actionFail) ∧
      getResult unicodeJson pkt = .ok smile.str := by
  obtain ⟨register, service, result⟩ := codec_roundTrips unicodeJson unicodeJson_inverts
  have hlen : (mapText (serviceMap cafeInfo.service)).length ≤ payloadLen := by decide
  obtain ⟨pkt₁, h₁⟩ := getPkt_mapText .registerService _ hlen
  obtain ⟨pkt₂, h₂⟩ := getPkt_mapText .actionSucc _ hlen
  obtain ⟨pkt₃, h₃⟩ := getPkt_mapText .actionFail [("reason", .string (some smile.str))] (by decide)
  exact ⟨⟨pkt₁, h₁, register cafeInfo pkt₁ h₁⟩, ⟨pkt₂, h₂, service cafeInfo pkt₂ h₂⟩,
    ⟨pkt₃, h₃, result smile pkt₃ h₃⟩⟩

end Examples

end MiniServiceDiscover.JavaRoundTrip
