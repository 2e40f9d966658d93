import MiniServiceDiscover.GoInquiry

set_option autoImplicit false

/-! How long a marshalled info is, and which infos therefore fit a packet. -/
namespace MiniServiceDiscover.GoCapacity
open JsonText JsonRoundTrip Utf8Runes GoJson GoProtocal GoDaemon GoInquiry WireFormat

def asciiCost (b : UInt8) : ℕ := if htmlSafe b then 1 else if shortEscape b then 2 else 6

/-- Bytes `Marshal` writes for one rune. -/
def runeCost : Rune → ℕ
  | .invalid _ => 6
  | .valid [b] => asciiCost b
  | .valid bytes =>
    if bytes = lineSeparator then 6 else if bytes = paragraphSeparator then 6 else bytes.length

def escapedLen (s : Bytes) : ℕ := ((runes s).map runeCost).sum

def portDigits (port : UInt16) : ℕ := Nat.log 10 port.toNat + 1

/-- The two braces, the quoted keys, the quotes of four values, colons and commas. -/
def frameLen : ℕ := 62

def jsonCost (i : ServiceInfo) : ℕ :=
  frameLen + escapedLen i.deviceName + escapedLen i.serviceName + escapedLen i.ip +
    portDigits i.port + escapedLen i.info

section Lengths

theorem asciiElem_length (b : UInt8) : (elemText (asciiElem b)).length = asciiCost b := by
  unfold asciiElem asciiCost
  split_ifs <;> rfl

theorem bytes_text (bytes : Bytes) : (bytes.map Elem.byte).flatMap elemText = bytes := by
  induction bytes with
  | nil => rfl
  | cons b bytes ih =>
    rw [List.map_cons, List.flatMap_cons, ih]
    rfl

theorem runeElems_length (r : Rune) : ((runeElems r).flatMap elemText).length = runeCost r := by
  cases r with
  | invalid b => rfl
  | valid bytes =>
    rcases runeElems_valid_cases bytes with
      ⟨b, rfl, h⟩ | ⟨rfl, h⟩ | ⟨rfl, h⟩ | ⟨h1, h2, hne, h⟩
    · rw [h, List.flatMap_singleton, asciiElem_length]
      rfl
    · rw [h]
      rfl
    · rw [h]
      rfl
    · rw [h, bytes_text, runeCost, if_neg h1, if_neg h2]
      exact fun b hb => hne b hb

theorem marshalString_length (s : Bytes) :
    (stringText (marshalString s)).length = escapedLen s + 2 := by
  have go : ∀ rs : List Rune,
      ((rs.flatMap runeElems).flatMap elemText).length = (rs.map runeCost).sum := by
    intro rs
    induction rs with
    | nil => rfl
    | cons r rs ih =>
      rw [List.flatMap_cons, List.flatMap_append, List.length_append, runeElems_length, ih]
      rfl
  rw [stringText, List.length_cons, List.length_append, marshalString, go]
  rfl

theorem key_length (name : String) : (stringText (key name)).length = (ascii name).length + 2 := by
  rw [stringText, key, bytes_text, List.length_cons, List.length_append]
  rfl

theorem marshal_length (i : ServiceInfo) : i.marshal.length = jsonCost i := by
  simp only [ServiceInfo.marshal, objectText, ServiceInfo.members, membersText, memberText,
    compact, Scalar.text, List.length_cons, List.length_append, List.length_nil,
    marshalString_length, decimal_length, key_length, jsonCost, portDigits, frameLen,
    show (ascii "device_name").length = 11 by decide,
    show (ascii "service_name").length = 12 by decide, show (ascii "ip").length = 2 by decide,
    show (ascii "port").length = 4 by decide, show (ascii "info").length = 4 by decide]
  omega

end Lengths

section Bounds

theorem runeCost_le {s : Bytes} {r : Rune} (h : r ∈ runes s) : runeCost r ≤ 6 := by
  cases r with
  | invalid b => exact Nat.le_refl _
  | valid bytes =>
    have hl := isRune_length_le (isRune_of_valid_mem h)
    rw [← runeElems_length]
    rcases runeElems_valid_cases bytes with
      ⟨b, rfl, hr⟩ | ⟨rfl, hr⟩ | ⟨rfl, hr⟩ | ⟨-, -, -, hr⟩
    · rw [hr, List.flatMap_singleton, asciiElem_length, asciiCost]
      split_ifs <;> decide
    · rw [hr]
      decide
    · rw [hr]
      decide
    · rw [hr, bytes_text]
      omega

theorem escapedLen_le (s : Bytes) : escapedLen s ≤ 6 * s.length := by
  have hsum := WordSum.sum_map_le runeCost 6 fun r (hr : r ∈ runes s) => runeCost_le hr
  exact hsum.trans (Nat.mul_le_mul_left 6 (runes_length_le s))

theorem portDigits_le (port : UInt16) : portDigits port ≤ 5 := by
  have hp : port.toNat < 10 ^ 5 := port.toNat_lt.trans (by decide)
  have := Nat.log_lt_of_lt_pow' (b := 10) (by decide) hp
  unfold portDigits
  omega

theorem jsonCost_le (i : ServiceInfo) : jsonCost i ≤ 67 + 6 * i.size := by
  have h1 := escapedLen_le i.deviceName
  have h2 := escapedLen_le i.serviceName
  have h3 := escapedLen_le i.ip
  have h4 := escapedLen_le i.info
  have h5 := portDigits_le i.port
  unfold jsonCost frameLen ServiceInfo.size
  omega

end Bounds

/-- The packet has room for its text, carries all of it, and is accepted. -/
structure Carries (packet : Bytes) (i : ServiceInfo) : Prop where
  room : serviceHeadLen + (headOf packet).jsonLen.toNat ≤ udpCommBufLen
  complete : (payload packet).take (headOf packet).jsonLen.toNat = i.marshal
  accepted : ∃ head, checkAndGetServiceInfoHead packet = .ok (some head)

section Packets

theorem dataBuffer_carries_iff (action : UInt16) (i : ServiceInfo) (h : jsonCost i < 65536) :
    Carries (dataBuffer action i.marshal) i ↔ jsonCost i ≤ payloadLen := by
  rw [← marshal_length] at h ⊢
  constructor
  · intro hc
    have hr := hc.room
    rw [headOf_dataBuffer] at hr
    change headLen + i.marshal.length.toUInt16.toNat ≤ packetLen at hr
    rw [toNat_length h] at hr
    unfold payloadLen
    omega
  · intro hf
    have hl : (headOf (dataBuffer action i.marshal)).jsonLen.toNat = i.marshal.length := by
      rw [headOf_dataBuffer]
      exact toNat_length h
    refine ⟨?_, ?_, _, checkAndGetServiceInfoHead_dataBuffer action hf⟩
    · rw [hl]
      unfold serviceHeadLen udpCommBufLen
      unfold payloadLen at hf
      have : headLen ≤ packetLen := by decide
      omega
    · rw [hl, payload_dataBuffer action hf, List.take_left]

theorem getValidStr_length (s : Bytes) : (getValidStr s).length ≤ infoMaxLen := by
  unfold getValidStr
  split_ifs with h
  · exact List.length_take_le _ _
  · omega

theorem registerInfo_jsonCost (devName serviceName ip : Bytes) (port : UInt16) (info : Bytes) :
    jsonCost (registerInfo devName serviceName ip port info) < 65536 := by
  have h := jsonCost_le (registerInfo devName serviceName ip port info)
  have h1 := getValidStr_length devName
  have h2 := getValidStr_length serviceName
  have h3 := getValidStr_length ip
  have h4 := getValidStr_length info
  simp only [ServiceInfo.size, registerInfo, infoMaxLen] at h h1 h2 h3 h4 ⊢
  omega

theorem unRegisterInfo_eq (devName serviceName : Bytes) :
    unRegisterInfo devName serviceName = registerInfo devName serviceName [] 0 [] := rfl

/-- A decoded info is at most three times as long as the text it came from. -/
theorem decoded_jsonCost {data : Bytes} {i : ServiceInfo} (hd : data.length = udpCommBufLen)
    (h : getServiceInfo (payload data) = .ok (some i)) : jsonCost i < 65536 := by
  obtain ⟨n, hn, hg⟩ := getServiceInfo_ok (payload data)
  rw [hg] at h
  have hb := (ServiceInfo.unmarshal_bounds (Except.ok.inj h)).2
  have hp : (payload data).length = payloadLen := by
    rw [payload, List.length_drop, hd]
    rfl
  have hc := jsonCost_le i
  rw [List.length_take, hp] at hb
  rw [hp] at hn
  have : payloadLen = 1016 := rfl
  omega

end Packets

/-- `r` is a packet that carries `i`. -/
def Sends (r : Except GoPanic Bytes) (i : ServiceInfo) : Prop :=
  ∃ packet, r = .ok packet ∧ Carries packet i

theorem sends_getServiceData_iff (action : Action) (i : ServiceInfo) (h : jsonCost i < 65536) :
    Sends (getServiceData action (some i)) i ↔ jsonCost i ≤ payloadLen := by
  rw [← dataBuffer_carries_iff action.code i h]
  constructor
  · rintro ⟨packet, hp, hc⟩
    obtain rfl := Except.ok.inj hp
    exact hc
  · exact fun hc => ⟨_, rfl, hc⟩

/-- The packets Go builds around an info: the two requests of a server, and the
replies around an info that was decoded from a packet. -/
inductive Encodes : Except GoPanic Bytes → ServiceInfo → Prop where
  | register (devName serviceName ip : Bytes) (port : UInt16) (info : Bytes) :
      Encodes (getRegisterService devName serviceName ip port info)
        (registerInfo devName serviceName ip port info)
  | unRegister (devName serviceName : Bytes) :
      Encodes (getUnRegisterService devName serviceName) (unRegisterInfo devName serviceName)
  | serviceData {data : Bytes} {head : ServiceHead} {i : ServiceInfo} (action : Action)
      (hd : data.length = udpCommBufLen) (h : decodeData data = .ok (some (head, i))) :
      Encodes (getServiceData action (some i)) i

/-- The Go encoders carry an info in one packet exactly when its escaped text has
at most `payloadLen` bytes. -/
theorem encoders_carry_iff (r : Except GoPanic Bytes) (i : ServiceInfo) (h : Encodes r i) :
    Sends r i ↔ frameLen + escapedLen i.deviceName + escapedLen i.serviceName + escapedLen i.ip +
      portDigits i.port + escapedLen i.info ≤ payloadLen := by
  cases h with
  | register devName serviceName ip port info =>
    exact sends_getServiceData_iff _ _ (registerInfo_jsonCost devName serviceName ip port info)
  | unRegister devName serviceName =>
    exact sends_getServiceData_iff .unregisterService (unRegisterInfo devName serviceName)
      (registerInfo_jsonCost devName serviceName [] 0 [])
  | serviceData action hd h =>
    exact sends_getServiceData_iff action i (decoded_jsonCost hd (decodeData_some hd h).2.2)

section Examples

theorem encoders_carry_iff_playMusic :
    Sends (getServiceData .actionSucc (some playMusic.coerce)) playMusic.coerce ↔
      frameLen + escapedLen playMusic.coerce.deviceName + escapedLen playMusic.coerce.serviceName +
        escapedLen playMusic.coerce.ip + portDigits playMusic.coerce.port +
          escapedLen playMusic.coerce.info ≤ payloadLen :=
  encoders_carry_iff _ _ (.serviceData .actionSucc
    (dataBuffer_length Action.registerService.code playMusic.marshal)
    (decodeData_dataBuffer _ (by decide)))

def brackets : Bytes := List.replicate 100 0x3C

/-- Two names of a hundred HTML characters pass the cut and outgrow the packet. -/
theorem getUnRegisterService_brackets :
    ¬ Sends (getUnRegisterService brackets brackets) (unRegisterInfo brackets brackets) ∧
    ∃ packet, getUnRegisterService brackets brackets = .ok packet ∧
      checkAndGetServiceInfoHead packet = .error .sliceBounds := by
  have hlong : payloadLen < jsonCost (unRegisterInfo brackets brackets) := by decide
  have hfew := registerInfo_jsonCost brackets brackets [] 0 []
  constructor
  · intro h
    exact Nat.not_le.2 hlong ((sends_getServiceData_iff .unregisterService _ hfew).1 h)
  · rw [← unRegisterInfo_eq, ← marshal_length] at hfew
    rw [← marshal_length] at hlong
    exact ⟨_, rfl, checkAndGetServiceInfoHead_overlong _ hlong hfew⟩

end Examples

end MiniServiceDiscover.GoCapacity
