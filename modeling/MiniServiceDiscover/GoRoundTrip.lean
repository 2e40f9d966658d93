import MiniServiceDiscover.GoCapacity

set_option autoImplicit false

/-! The Go packets with one string, inquiries and results: their text always fits, and
the receiver gets back what was put in. -/
namespace MiniServiceDiscover.GoRoundTrip
open JsonText GoJson GoProtocal GoCapacity WireFormat WordSum

/-- The packet has this text whole, is accepted with this action, and its last brace is
that of the text. -/
structure Delivers (data : Bytes) (action : UInt16) (text : Bytes) : Prop where
  length : data.length = udpCommBufLen
  fits : serviceHeadLen + text.length ≤ udpCommBufLen
  accepted : ∃ head, checkAndGetServiceInfoHead data = .ok (some head) ∧ head.action = action ∧
    head.jsonLen.toNat = text.length ∧ head.checkSum = wordSum zeroExtend text ∧
    wordSum zeroExtend ((payload data).take head.jsonLen.toNat) = head.checkSum
  text : getJson (payload data) = .ok text

section Packets

theorem dataBuffer_delivers (action : UInt16) (ms : List (List Elem × Scalar))
    (h : (objectText compact ms).length ≤ payloadLen) :
    Delivers (dataBuffer action (objectText compact ms)) action (objectText compact ms) := by
  have hsize : serviceHeadLen + payloadLen = udpCommBufLen := rfl
  have hlen := toNat_length_fits h
  refine ⟨dataBuffer_length _ _, by omega,
    ⟨_, checkAndGetServiceInfoHead_dataBuffer action h, rfl, hlen, rfl, ?_⟩, ?_⟩
  · simp only
    rw [hlen, payload_dataBuffer action h, List.take_left]
  · obtain ⟨body, hb⟩ := objectText_ends compact ms
    rw [hb] at h ⊢
    exact getJson_dataBuffer action h

theorem inquiryInfo_fits (name : Bytes) : (inquiryInfo name).marshal.length ≤ payloadLen := by
  have h := jsonCost_le (inquiryInfo name)
  have hn := getValidStr_length name
  have hpay : payloadLen = 1016 := rfl
  rw [marshal_length]
  simp only [ServiceInfo.size, inquiryInfo, infoMaxLen, List.length_nil] at h hn ⊢
  omega

/-- Two braces, the quoted key, a colon and the quoted reason. -/
theorem resultInfo_length (r : ResultInfo) : r.marshal.length = 13 + escapedLen r.reason := by
  simp only [ResultInfo.marshal, objectText, ResultInfo.members, membersText, memberText, compact,
    Scalar.text, List.length_cons, List.length_append, List.length_nil, marshalString_length,
    key_length, show (ascii "reason").length = 6 by decide]
  omega

theorem resultInfo_fits (reason : Bytes) :
    (ResultInfo.marshal ⟨getValidStr reason⟩).length ≤ payloadLen := by
  have h := escapedLen_le (getValidStr reason)
  have hn := getValidStr_length reason
  have hpay : payloadLen = 1016 := rfl
  rw [resultInfo_length]
  simp only [infoMaxLen] at hn ⊢
  omega

end Packets

/-- For every string: an inquiry carries its first hundred bytes and nothing else, a result
its action and the first hundred bytes of its reason, both coerced to UTF-8. -/
theorem inquiry_result_roundTrip :
    (∀ name : Bytes, ∃ data, getInquiryService name = .ok data ∧
      Delivers data Action.inquiry.code (inquiryInfo name).marshal ∧
      getServiceInfo (payload data) =
        .ok (some ⟨[], Utf8Runes.coerce (getValidStr name), [], 0, []⟩)) ∧
    ∀ (action : UInt16) (reason : Bytes),
      Delivers (getResult action reason) action (ResultInfo.marshal ⟨getValidStr reason⟩) ∧
      getResultInfo (payload (getResult action reason)) =
        .ok (some ⟨Utf8Runes.coerce (getValidStr reason)⟩) := by
  constructor
  · intro name
    have hfits := inquiryInfo_fits name
    exact ⟨_, rfl, dataBuffer_delivers _ _ hfits, getServiceInfo_dataBuffer _ hfits⟩
  · intro action reason
    have hfits := resultInfo_fits reason
    exact ⟨dataBuffer_delivers action _ hfits, getResultInfo_dataBuffer action hfits⟩

/-- A name that ends in a brace, and is cut within a character. -/
example : getValidStr (List.replicate 99 0x7D ++ [0xC3, 0xA9]) = List.replicate 99 0x7D ++ [0xC3] := by
  decide

end MiniServiceDiscover.GoRoundTrip
