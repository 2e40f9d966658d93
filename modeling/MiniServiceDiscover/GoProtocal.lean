import MiniServiceDiscover.GoJson
import MiniServiceDiscover.WireFormat

set_option autoImplicit false

/-! The Go codec: headers, the text of a payload, and the packets of every
request and reply. -/
namespace MiniServiceDiscover.GoProtocal
open JsonText GoJson WordSum WireFormat

/-- What stops a goroutine: a slice beyond its backing array, or a read through
a nil pointer. -/
inductive GoPanic where
  | sliceBounds
  | nilDereference
  deriving DecidableEq, Repr

def slice (data : Bytes) (low high : ℕ) : Except GoPanic Bytes :=
  if low ≤ high ∧ high ≤ data.length then .ok ((data.take high).drop low)
  else .error .sliceBounds

/-- `copy(dst[offset:], src)`: what does not fit is dropped. -/
def goCopy (dst : Bytes) (offset : ℕ) (src : Bytes) : Bytes :=
  dst.take offset ++ src.take (dst.length - offset) ++ dst.drop (offset + src.length)

def udpCommBufLen : ℕ := packetLen

def serviceHeadLen : ℕ := headLen

def infoMaxLen : ℕ := 100

def serviceNoFound : Bytes := ascii "service no found"

structure ServiceHead where
  head : UInt16
  action : UInt16
  jsonLen : UInt16
  checkSum : UInt16
  deriving DecidableEq, Repr

/-- The struct's memory on a little-endian host. -/
def serviceHeadToBytes (h : ServiceHead) : Bytes :=
  headBytes h.head h.action h.jsonLen h.checkSum

def bytesToServiceHead (data : Bytes) : Except GoPanic ServiceHead := do
  let h ← slice data 0 serviceHeadLen
  pure ⟨field 0 h, field 1 h, field 2 h, field 3 h⟩

/-- The loop of `getJson`: the position behind the last closing brace. -/
def jsonEnd (i last : ℕ) : Bytes → ℕ
  | [] => last
  | d :: data => jsonEnd (i + 1) (if d = closeBrace then i + 1 else last) data

def getJson (data : Bytes) : Except GoPanic Bytes :=
  let last := jsonEnd 0 0 data
  slice data 0 (if last > udpCommBufLen then udpCommBufLen else last)

def checkAndGetServiceInfoHead (data : Bytes) : Except GoPanic (Option ServiceHead) := do
  let h ← bytesToServiceHead data
  if h.head ≠ infoHead then
    pure none
  else
    let d ← slice data serviceHeadLen (serviceHeadLen + h.jsonLen.toNat)
    pure (if wordSum zeroExtend d = h.checkSum then some h else none)

def getServiceInfo (data : Bytes) : Except GoPanic (Option ServiceInfo) := do
  let text ← getJson data
  pure (ServiceInfo.unmarshal text)

def getResultInfo (data : Bytes) : Except GoPanic (Option ResultInfo) := do
  let text ← getJson data
  pure (ResultInfo.unmarshal text)

def getServiceHead (action : UInt16) (data : Bytes) : Bytes :=
  serviceHeadToBytes ⟨infoHead, action, data.length.toUInt16, wordSum zeroExtend data⟩

/-- The buffer both `GetServiceData` and `GetResultData` fill. -/
def dataBuffer (action : UInt16) (info : Bytes) : Bytes :=
  let h := getServiceHead action info
  goCopy (goCopy (List.replicate udpCommBufLen 0) 0 h) h.length info

/-- `Marshal` has no error to report for a struct of strings and one integer. -/
def serviceInfoToBytes : Option ServiceInfo → Except GoPanic Bytes
  | none => .error .nilDereference
  | some info => .ok info.marshal

def getServiceData (action : Action) (s : Option ServiceInfo) : Except GoPanic Bytes := do
  let info ← serviceInfoToBytes s
  pure (dataBuffer action.code info)

def getValidStr (str : Bytes) : Bytes :=
  if str.length > infoMaxLen then str.take infoMaxLen else str

def registerInfo (devName serviceName ip : Bytes) (port : UInt16) (info : Bytes) : ServiceInfo where
  deviceName := getValidStr devName
  serviceName := getValidStr serviceName
  ip := getValidStr ip
  port := port
  info := getValidStr info

def getRegisterService (devName serviceName ip : Bytes) (port : UInt16) (info : Bytes) :
    Except GoPanic Bytes :=
  getServiceData .registerService (some (registerInfo devName serviceName ip port info))

def unRegisterInfo (devName serviceName : Bytes) : ServiceInfo where
  deviceName := getValidStr devName
  serviceName := getValidStr serviceName
  ip := []
  port := 0
  info := []

def getUnRegisterService (devName serviceName : Bytes) : Except GoPanic Bytes :=
  getServiceData .unregisterService (some (unRegisterInfo devName serviceName))

def inquiryInfo (serviceName : Bytes) : ServiceInfo where
  deviceName := []
  serviceName := getValidStr serviceName
  ip := []
  port := 0
  info := []

def getInquiryService (serviceName : Bytes) : Except GoPanic Bytes :=
  getServiceData .inquiry (some (inquiryInfo serviceName))

def resultInfoToBytes (info : ResultInfo) : Bytes := info.marshal

def getResultData (action : UInt16) (s : ResultInfo) : Bytes :=
  dataBuffer action (resultInfoToBytes s)

def getResult (action : UInt16) (reason : Bytes) : Bytes :=
  getResultData action ⟨getValidStr reason⟩

section Slices
variable {data : Bytes}

theorem slice_ok {low high : ℕ} (hl : low ≤ high) (hh : high ≤ data.length) :
    slice data low high = .ok ((data.take high).drop low) := if_pos ⟨hl, hh⟩

theorem slice_panics {low high : ℕ} (hh : data.length < high) :
    slice data low high = .error .sliceBounds := if_neg (by omega)

theorem jsonEnd_le (data : Bytes) (i last : ℕ) (h : last ≤ i) :
    jsonEnd i last data ≤ i + data.length := by
  induction data generalizing i last with
  | nil => exact h
  | cons d data ih =>
    have := ih (i + 1) (if d = closeBrace then i + 1 else last) (by split_ifs <;> omega)
    rw [jsonEnd, List.length_cons]
    omega

theorem jsonEnd_append (i last : ℕ) (rest : Bytes) :
    jsonEnd i last (data ++ rest) = jsonEnd (i + data.length) (jsonEnd i last data) rest := by
  induction data generalizing i last with
  | nil => rfl
  | cons d data ih =>
    rw [List.cons_append, jsonEnd, ih, jsonEnd, List.length_cons]
    congr 1
    omega

theorem jsonEnd_zeros (n i last : ℕ) : jsonEnd i last (List.replicate n 0) = last := by
  induction n generalizing i with
  | zero => rfl
  | succ n ih =>
    rw [List.replicate_succ, jsonEnd, if_neg (by decide), ih]

theorem getJson_end_le : (if jsonEnd 0 0 data > udpCommBufLen then udpCommBufLen
    else jsonEnd 0 0 data) ≤ data.length := by
  have h := jsonEnd_le data 0 0 (Nat.le_refl _)
  split_ifs <;> omega

/-- The text of a payload is a prefix of it, so cutting it never panics. -/
theorem getJson_ok (data : Bytes) : ∃ n, n ≤ data.length ∧ getJson data = .ok (data.take n) :=
  ⟨_, getJson_end_le, slice_ok (Nat.zero_le _) getJson_end_le⟩

theorem getServiceInfo_ok (data : Bytes) : ∃ n, n ≤ data.length ∧
    getServiceInfo data = .ok (ServiceInfo.unmarshal (data.take n)) := by
  obtain ⟨n, hn, h⟩ := getJson_ok data
  refine ⟨n, hn, ?_⟩
  rw [getServiceInfo, h]
  rfl

/-- Behind a text that ends in a closing brace, padding is not read. -/
theorem getJson_padded (body : Bytes) (n : ℕ) (h : body.length < udpCommBufLen) :
    getJson (body ++ [closeBrace] ++ List.replicate n 0) = .ok (body ++ [closeBrace]) := by
  have he : jsonEnd 0 0 (body ++ [closeBrace] ++ List.replicate n 0) = body.length + 1 := by
    rw [jsonEnd_append, jsonEnd_zeros, jsonEnd_append, jsonEnd, if_pos rfl, jsonEnd,
      Nat.zero_add]
  rw [getJson, he, if_neg (by omega), slice_ok (Nat.zero_le _) (by simp)]
  congr 1
  rw [List.drop_zero]
  exact List.take_left' (by simp)

end Slices

section Accept
variable {data : Bytes}

def headOf (data : Bytes) : ServiceHead :=
  ⟨field 0 data, field 1 data, field 2 data, field 3 data⟩

theorem bytesToServiceHead_ok (hd : data.length = udpCommBufLen) :
    bytesToServiceHead data = .ok (headOf data) := by
  have hs : slice data 0 serviceHeadLen = .ok ((data.take serviceHeadLen).drop 0) :=
    slice_ok (Nat.zero_le _) (by rw [hd]; decide)
  rw [bytesToServiceHead, hs, List.drop_zero, headOf, ← field_take 0 (by decide),
    ← field_take 1 (by decide), ← field_take 2 (by decide), ← field_take 3 (by decide)]
  rfl

/-- What the receiver accepts: the magic, and the sum of the bytes the header counts. -/
def Accepted (data : Bytes) : Prop :=
  (headOf data).head = infoHead ∧
    wordSum zeroExtend ((payload data).take (headOf data).jsonLen.toNat) = (headOf data).checkSum

instance (data : Bytes) : Decidable (Accepted data) := by
  unfold Accepted
  infer_instance

theorem checkAndGetServiceInfoHead_eq (hd : data.length = udpCommBufLen) :
    checkAndGetServiceInfoHead data =
      if (headOf data).head = infoHead ∧ payloadLen < (headOf data).jsonLen.toNat then
        .error .sliceBounds
      else if Accepted data then .ok (some (headOf data))
      else .ok none := by
  rw [checkAndGetServiceInfoHead, bytesToServiceHead_ok hd]
  change (if (headOf data).head ≠ infoHead then _ else _) = _
  by_cases hh : (headOf data).head = infoHead
  · rw [if_neg (not_not.2 hh)]
    by_cases hl : payloadLen < (headOf data).jsonLen.toNat
    · rw [if_pos ⟨hh, hl⟩, slice_panics]
      · rfl
      · rw [hd]
        simp only [udpCommBufLen, serviceHeadLen, payloadLen, packetLen, headLen] at hl ⊢
        omega
    · rw [if_neg (fun h => hl h.2), slice_ok (Nat.le_add_right _ _)]
      · simp only [Accepted, hh, true_and, payload, List.drop_take, Nat.add_sub_cancel_left]
        change Except.ok _ = _
        rw [apply_ite Except.ok]
        rfl
      · rw [hd]
        simp only [udpCommBufLen, serviceHeadLen, payloadLen, packetLen, headLen] at hl ⊢
        omega
  · rw [if_pos hh, if_neg (fun h => hh h.1), if_neg (fun h => hh h.1)]
    rfl

theorem checkAndGetServiceInfoHead_some {h : ServiceHead} (hd : data.length = udpCommBufLen)
    (hc : checkAndGetServiceInfoHead data = .ok (some h)) :
    h = headOf data ∧ Accepted data ∧ (headOf data).jsonLen.toNat ≤ payloadLen := by
  rw [checkAndGetServiceInfoHead_eq hd] at hc
  split_ifs at hc with h1 h2
  · simp only [Except.ok.injEq, Option.some.injEq] at hc
    exact ⟨hc.symm, h2, Nat.le_of_not_lt fun hl => h1 ⟨h2.1, hl⟩⟩
  · cases Except.ok.inj hc

end Accept

section Packets
variable (action : UInt16)

theorem goCopy_front (dst src : Bytes) : goCopy dst 0 src =
    src.take dst.length ++ dst.drop src.length := by
  rw [goCopy, List.take_zero, List.nil_append, Nat.sub_zero, Nat.zero_add]

theorem goCopy_behind (front rest src : Bytes) : goCopy (front ++ rest) front.length src =
    front ++ (src.take rest.length ++ rest.drop src.length) := by
  rw [goCopy, List.take_left, List.length_append, Nat.add_sub_cancel_left, List.drop_append,
    List.append_assoc, List.drop_of_length_le (Nat.le_add_right _ _), List.nil_append,
    Nat.add_sub_cancel_left]

theorem dataBuffer_eq_packet (info : Bytes) :
    dataBuffer action info = packet (headBytes infoHead action info.length.toUInt16
      (wordSum zeroExtend info)) info := by
  have hl : (getServiceHead action info).length = headLen := rfl
  have front : goCopy (List.replicate udpCommBufLen 0) 0 (getServiceHead action info) =
      getServiceHead action info ++ List.replicate payloadLen 0 := by
    rw [goCopy_front, List.length_replicate, List.take_of_length_le (by rw [hl]; decide),
      List.drop_replicate, hl]
    rfl
  change goCopy (goCopy _ 0 _) (getServiceHead action info).length info = _
  rw [front, goCopy_behind, List.length_replicate, List.drop_replicate]
  rfl

theorem dataBuffer_length (info : Bytes) : (dataBuffer action info).length = udpCommBufLen := by
  rw [dataBuffer_eq_packet]
  exact packet_length _ _ _ _ _

theorem headOf_dataBuffer (info : Bytes) : headOf (dataBuffer action info) =
    ⟨infoHead, action, info.length.toUInt16, wordSum zeroExtend info⟩ := by
  rw [dataBuffer_eq_packet, headOf, packet, field_headBytes_head, field_headBytes_action,
    field_headBytes_len, field_headBytes_checksum]

theorem payload_dataBuffer {info : Bytes} (h : info.length ≤ payloadLen) :
    payload (dataBuffer action info) = info ++ List.replicate (payloadLen - info.length) 0 := by
  rw [dataBuffer_eq_packet, payload_packet_fits _ _ _ _ _ h]

theorem toNat_length {info : Bytes} (h : info.length < 65536) :
    info.length.toUInt16.toNat = info.length := UInt16.toNat_ofNat_of_lt' h

theorem toNat_length_fits {info : Bytes} (h : info.length ≤ payloadLen) :
    info.length.toUInt16.toNat = info.length := toNat_length (h.trans_lt (by decide))

theorem dataBuffer_accepted {info : Bytes} (h : info.length ≤ payloadLen) :
    Accepted (dataBuffer action info) := by
  rw [Accepted, headOf_dataBuffer]
  refine ⟨rfl, ?_⟩
  simp only
  rw [toNat_length_fits h, payload_dataBuffer action h, List.take_left]

theorem dataBuffer_len_fits {info : Bytes} (h : info.length ≤ payloadLen) :
    (headOf (dataBuffer action info)).jsonLen.toNat ≤ payloadLen := by
  rw [headOf_dataBuffer]
  exact (toNat_length_fits h).symm ▸ h

/-- A text that fits is accepted by the receiver, with the same action. -/
theorem checkAndGetServiceInfoHead_dataBuffer {info : Bytes} (h : info.length ≤ payloadLen) :
    checkAndGetServiceInfoHead (dataBuffer action info) = .ok (some
      ⟨infoHead, action, info.length.toUInt16, wordSum zeroExtend info⟩) := by
  have hl := dataBuffer_len_fits action h
  rw [checkAndGetServiceInfoHead_eq (dataBuffer_length action info),
    if_neg fun hp => Nat.not_lt.2 hl hp.2, if_pos (dataBuffer_accepted action h),
    headOf_dataBuffer]

/-- A text that does not fit stops the receiver. -/
theorem checkAndGetServiceInfoHead_overlong {info : Bytes} (h : payloadLen < info.length)
    (hl : info.length < 65536) :
    checkAndGetServiceInfoHead (dataBuffer action info) = .error .sliceBounds := by
  rw [checkAndGetServiceInfoHead_eq (dataBuffer_length action info), headOf_dataBuffer, if_pos]
  exact ⟨rfl, (toNat_length hl).symm ▸ h⟩

end Packets

section Texts
variable (action : UInt16)

/-- An object text is its members up to the closing brace that ends it. -/
theorem objectText_ends (layout : Layout) (ms : List (List Elem × Scalar)) :
    ∃ body, objectText layout ms = body ++ [closeBrace] :=
  ⟨openBrace :: (membersText layout ms ++ layout.close), rfl⟩

theorem getJson_dataBuffer {body : Bytes} (h : (body ++ [closeBrace]).length ≤ payloadLen) :
    getJson (payload (dataBuffer action (body ++ [closeBrace]))) = .ok (body ++ [closeBrace]) := by
  rw [payload_dataBuffer action h]
  apply getJson_padded
  rw [List.length_append] at h
  exact Nat.lt_of_lt_of_le h (by decide)

theorem getServiceInfo_dataBuffer {i : ServiceInfo} (h : i.marshal.length ≤ payloadLen) :
    getServiceInfo (payload (dataBuffer action i.marshal)) = .ok (some i.coerce) := by
  obtain ⟨body, hb⟩ := objectText_ends compact i.members
  have hj := ServiceInfo.unmarshal_marshal i
  rw [ServiceInfo.marshal, hb] at h hj ⊢
  rw [getServiceInfo, getJson_dataBuffer action h]
  exact congrArg Except.ok hj

theorem getResultInfo_dataBuffer {r : ResultInfo} (h : r.marshal.length ≤ payloadLen) :
    getResultInfo (payload (dataBuffer action r.marshal)) =
      .ok (some ⟨Utf8Runes.coerce r.reason⟩) := by
  obtain ⟨body, hb⟩ := objectText_ends compact r.members
  have hj := ResultInfo.unmarshal_marshal r
  rw [ResultInfo.marshal, hb] at h hj ⊢
  rw [getResultInfo, getJson_dataBuffer action h]
  exact congrArg Except.ok hj

end Texts

end MiniServiceDiscover.GoProtocal
