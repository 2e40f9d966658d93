import MiniServiceDiscover.GoInquiry

set_option autoImplicit false

/-! What the two Go callers make of one reply, and the contents of a receive
buffer on which no receiver panics. -/
namespace MiniServiceDiscover.GoReply
open JsonText GoJson GoProtocal GoDaemon GoInquiry WireFormat

/-- One pass of the loop in `GetInquiryResult`: a service to append, or `none`
where the loop is left. -/
def inquiryReply (data : Bytes) : Except GoPanic (Option ServiceInfo) := do
  match ← checkAndGetServiceInfoHead data with
  | none => pure none
  | some head =>
    let rest ← slice data serviceHeadLen data.length
    if head.action = Action.actionSucc.code then
      match ← getServiceInfo rest with
      | none => throw .nilDereference
      | some i => pure (some i)
    else
      let _ ← getResultInfo rest
      pure none

def checksumFail : Bytes := ascii "ProcessData checksum fail"

/-- The tail of `GetResult`: success, and the reason of a failure. -/
def resultReply (data : Bytes) : Except GoPanic (Bool × Bytes) := do
  match ← checkAndGetServiceInfoHead data with
  | none => pure (false, checksumFail)
  | some head =>
    if head.action = Action.actionSucc.code then pure (true, [])
    else
      let rest ← slice data serviceHeadLen data.length
      match ← getResultInfo rest with
      | none => pure (false, [])
      | some info => pure (false, info.reason)

/-- The text a receiver decodes: the payload up to its last closing brace. -/
def textOf (data : Bytes) : Bytes := (payload data).take (jsonEnd 0 0 (payload data))

/-- Every receiver gets through this buffer. -/
structure PanicFree (data : Bytes) : Prop where
  check : ∃ r, checkAndGetServiceInfoHead data = .ok r
  serviceInfo : ∃ r, getServiceInfo (payload data) = .ok r
  resultInfo : ∃ r, getResultInfo (payload data) = .ok r
  daemon : ∃ r, decodeData data = .ok r
  client : ∃ r, inquiryReply data = .ok r
  server : ∃ r, resultReply data = .ok r

/-- The counted length stays within the buffer. -/
def LengthFits (data : Bytes) : Prop :=
  (headOf data).head = infoHead → (headOf data).jsonLen.toNat ≤ payloadLen

instance (data : Bytes) : Decidable (LengthFits data) := by
  unfold LengthFits
  infer_instance

def SuccUndecodable (data : Bytes) : Prop :=
  Accepted data ∧ (headOf data).action = Action.actionSucc.code ∧
    ServiceInfo.unmarshal (textOf data) = none

section Receivers
variable {data : Bytes}

theorem getJson_payload (hd : data.length = udpCommBufLen) :
    getJson (payload data) = .ok (textOf data) := by
  have hle := jsonEnd_le (payload data) 0 0 (Nat.le_refl _)
  rw [payload_length hd, Nat.zero_add] at hle
  have hcap : ¬ jsonEnd 0 0 (payload data) > udpCommBufLen :=
    Nat.not_lt.2 (hle.trans (by decide))
  rw [getJson, if_neg hcap, slice_ok (Nat.zero_le _) (by rw [payload_length hd]; exact hle)]
  rfl

theorem getServiceInfo_payload (hd : data.length = udpCommBufLen) :
    getServiceInfo (payload data) = .ok (ServiceInfo.unmarshal (textOf data)) := by
  rw [getServiceInfo, getJson_payload hd]
  rfl

theorem getResultInfo_payload (hd : data.length = udpCommBufLen) :
    getResultInfo (payload data) = .ok (ResultInfo.unmarshal (textOf data)) := by
  rw [getResultInfo, getJson_payload hd]
  rfl

theorem checkAndGetServiceInfoHead_fits (hd : data.length = udpCommBufLen)
    (hf : LengthFits data) : checkAndGetServiceInfoHead data =
      .ok (if Accepted data then some (headOf data) else none) := by
  rw [checkAndGetServiceInfoHead_eq hd, if_neg fun h => Nat.not_lt.2 (hf h.1) h.2]
  split_ifs <;> rfl

theorem checkAndGetServiceInfoHead_panics (hd : data.length = udpCommBufLen)
    (hf : ¬ LengthFits data) : checkAndGetServiceInfoHead data = .error .sliceBounds := by
  obtain ⟨hh, hl⟩ := Classical.not_imp.1 hf
  rw [checkAndGetServiceInfoHead_eq hd, if_pos ⟨hh, Nat.lt_of_not_le hl⟩]

theorem decodeData_fits (hd : data.length = udpCommBufLen) (hf : LengthFits data) :
    decodeData data = .ok (if Accepted data then
      (ServiceInfo.unmarshal (textOf data)).map fun i => (headOf data, i) else none) := by
  rw [decodeData_eq hd, if_neg fun h => Nat.not_lt.2 (hf h.1) h.2, getServiceInfo_payload hd]
  split_ifs <;> rfl

theorem inquiryReply_fits (hd : data.length = udpCommBufLen) (hf : LengthFits data) :
    inquiryReply data =
      if Accepted data ∧ (headOf data).action = Action.actionSucc.code then
        match ServiceInfo.unmarshal (textOf data) with
        | none => .error .nilDereference
        | some i => .ok (some i)
      else .ok none := by
  rw [inquiryReply, checkAndGetServiceInfoHead_fits hd hf]
  by_cases ha : Accepted data
  · rw [if_pos ha]
    change (slice data serviceHeadLen data.length >>= _) = _
    rw [slice_payload hd]
    by_cases hs : (headOf data).action = Action.actionSucc.code
    · change (if _ then getServiceInfo (payload data) >>= _ else _) = _
      rw [if_pos hs, if_pos ⟨ha, hs⟩, getServiceInfo_payload hd]
      cases ServiceInfo.unmarshal (textOf data) <;> rfl
    · change (if _ then _ else getResultInfo (payload data) >>= _) = _
      rw [if_neg hs, if_neg fun h => hs h.2, getResultInfo_payload hd]
      rfl
  · rw [if_neg ha, if_neg fun h => ha h.1]
    rfl

theorem resultReply_fits (hd : data.length = udpCommBufLen) (hf : LengthFits data) :
    resultReply data = .ok (
      if Accepted data then
        if (headOf data).action = Action.actionSucc.code then (true, [])
        else (false, ((ResultInfo.unmarshal (textOf data)).map ResultInfo.reason).getD [])
      else (false, checksumFail)) := by
  rw [resultReply, checkAndGetServiceInfoHead_fits hd hf]
  by_cases ha : Accepted data
  · rw [if_pos ha, if_pos ha]
    by_cases hs : (headOf data).action = Action.actionSucc.code
    · change (if _ then _ else _) = _
      rw [if_pos hs, if_pos hs]
      rfl
    · change (if _ then _ else slice data serviceHeadLen data.length >>= _) = _
      rw [if_neg hs, if_neg hs, slice_payload hd]
      change (getResultInfo (payload data) >>= _) = _
      rw [getResultInfo_payload hd]
      cases ResultInfo.unmarshal (textOf data) <;> rfl
  · rw [if_neg ha, if_neg ha]
    rfl

end Receivers

/-- No receiver panics exactly on the buffers whose counted length fits and
which are not an accepted success with a text that does not decode. -/
theorem panicFree_iff (data : Bytes) (hd : data.length = udpCommBufLen) :
    PanicFree data ↔ LengthFits data ∧ ¬ SuccUndecodable data := by
  constructor
  · intro h
    have hf : LengthFits data := by
      by_contra hf
      obtain ⟨r, hr⟩ := h.check
      rw [checkAndGetServiceInfoHead_panics hd hf] at hr
      cases hr
    refine ⟨hf, ?_⟩
    rintro ⟨ha, hs, hu⟩
    obtain ⟨r, hr⟩ := h.client
    rw [inquiryReply_fits hd hf, if_pos ⟨ha, hs⟩, hu] at hr
    cases hr
  · rintro ⟨hf, hu⟩
    refine ⟨⟨_, checkAndGetServiceInfoHead_fits hd hf⟩, ⟨_, getServiceInfo_payload hd⟩,
      ⟨_, getResultInfo_payload hd⟩, ⟨_, decodeData_fits hd hf⟩, ?_, ⟨_, resultReply_fits hd hf⟩⟩
    rw [inquiryReply_fits hd hf]
    by_cases hs : Accepted data ∧ (headOf data).action = Action.actionSucc.code
    · rw [if_pos hs]
      cases hi : ServiceInfo.unmarshal (textOf data) with
      | none => exact absurd ⟨hs.1, hs.2, hi⟩ hu
      | some i => exact ⟨_, rfl⟩
    · rw [if_neg hs]
      exact ⟨_, rfl⟩

section Examples

theorem panicFree_iff_playMusicInquiry : PanicFree playMusicInquiry ↔
    LengthFits playMusicInquiry ∧ ¬ SuccUndecodable playMusicInquiry :=
  panicFree_iff playMusicInquiry (dataBuffer_length _ _)

/-- A header that counts more bytes than a buffer has. -/
def overlongData : Bytes := packet (headBytes infoHead Action.inquiry.code 0xFFFF 0) []

/-- A success without a text. -/
def emptySucc : Bytes := packet (headBytes infoHead Action.actionSucc.code 0 0) []

theorem textOf_emptySucc : textOf emptySucc = [] := by
  have hp : payload emptySucc = List.replicate payloadLen 0 :=
    payload_packet_fits _ _ _ _ _ (Nat.zero_le _)
  rw [textOf, hp, jsonEnd_zeros]
  rfl

theorem receivers_panic :
    overlongData.length = udpCommBufLen ∧ emptySucc.length = udpCommBufLen ∧
    decodeData overlongData = .error .sliceBounds ∧
    inquiryReply emptySucc = .error .nilDereference ∧
    ¬ PanicFree overlongData ∧ ¬ PanicFree emptySucc := by
  have ho : overlongData.length = udpCommBufLen := packet_length _ _ _ _ _
  have he : emptySucc.length = udpCommBufLen := packet_length _ _ _ _ _
  have hd : decodeData overlongData = .error .sliceBounds := by
    rw [decodeData_eq ho, if_pos (by decide)]
  have hc : inquiryReply emptySucc = .error .nilDereference := by
    rw [inquiryReply_fits he (by decide), if_pos (by decide), textOf_emptySucc]
    rfl
  refine ⟨ho, he, hd, hc, fun h => ?_, fun h => ?_⟩
  · obtain ⟨r, hr⟩ := h.daemon
    rw [hd] at hr
    cases hr
  · obtain ⟨r, hr⟩ := h.client
    rw [hc] at hr
    cases hr

end Examples

end MiniServiceDiscover.GoReply
