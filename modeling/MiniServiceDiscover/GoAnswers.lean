import MiniServiceDiscover.GoCapacity
import MiniServiceDiscover.GoHistory
import MiniServiceDiscover.GoReply

set_option autoImplicit false

/-! What a caller finds in the packets a daemon wrote for its request. -/
namespace MiniServiceDiscover.GoAnswers
open JsonText Utf8Runes GoJson GoProtocal GoProvider GoDaemon GoInquiry GoHistory GoCapacity GoReply
open WireFormat KeyedList

/-- The registry of some daemon at some time. -/
def Reached (p : Provider) : Prop :=
  ∃ buffers, (∀ data ∈ buffers, data.length = udpCommBufLen) ∧ runBuffers buffers = .ok p

/-- A header can count the text of every entry. -/
def Countable (p : Provider) : Prop := ∀ i ∈ p, jsonCost i < 65536

section Registries

theorem reached_getProvider : Reached getProvider := ⟨[], by simp, rfl⟩

theorem reached_processData {p p' : Provider} {data : Bytes} (hp : Reached p)
    (hd : data.length = udpCommBufLen) (h : (processData p data).result = .ok p') :
    Reached p' := by
  obtain ⟨buffers, hb, hr⟩ := hp
  refine ⟨buffers ++ [data], fun b hm => ?_, (runBuffers_snoc hr data).trans h⟩
  rcases List.mem_append.1 hm with hm | hm
  · exact hb b hm
  · rw [List.mem_singleton.1 hm, hd]

theorem removeByName_mem {devName serviceName : Bytes} {p : Provider} {i : ServiceInfo}
    (h : i ∈ (removeByName devName serviceName p).2) : i ∈ p := by
  rw [removeByName_snd] at h
  exact List.mem_of_mem_eraseP h

theorem countable_processData {p p' : Provider} {data : Bytes} (hp : Countable p)
    (hd : data.length = udpCommBufLen) (h : (processData p data).result = .ok p') :
    Countable p' := by
  rcases processData_cases p data with ⟨e, hs⟩ | hs | ⟨info, ⟨head, hi, -⟩, hs⟩ | ⟨info, -, hs⟩ |
    ⟨info, -, hs⟩
  · rw [hs] at h
    cases h
  · rw [hs] at h
    exact Except.ok.inj h ▸ hp
  · rw [hs] at h
    obtain rfl := Except.ok.inj h
    intro i hm
    rcases List.mem_cons.1 hm with rfl | hm
    · exact decoded_jsonCost hd (decodeData_some hd hi).2.2
    · exact hp i (removeByName_mem hm)
  · rw [hs] at h
    obtain rfl := Except.ok.inj h
    exact fun i hm => hp i (removeByName_mem hm)
  · rw [hs] at h
    exact inquiry_result h ▸ hp

theorem Reached.countable {p : Provider} (h : Reached p) : Countable p := by
  obtain ⟨buffers, hb, hr⟩ := h
  induction buffers using List.reverseRecOn generalizing p with
  | nil =>
    obtain rfl := Except.ok.inj hr
    exact fun i hm => nomatch hm
  | append_singleton buffers data ih =>
    cases hq : runBuffers buffers with
    | error e =>
      rw [runBuffers_append, hq] at hr
      cases hr
    | ok q =>
      rw [runBuffers_snoc hq] at hr
      have hcq := ih (fun b hm => hb b (List.mem_append_left _ hm)) hq
      exact countable_processData hcq (hb data (by simp)) hr

end Registries

section Sent

theorem mem_sendServices {res : List (Option ServiceInfo)} {data : Bytes}
    (h : data ∈ (sendServices res).1) : ∃ e, some e ∈ res ∧ data = serviceData e := by
  induction res with
  | nil => cases h
  | cons i res ih =>
    cases i with
    | none => cases h
    | some e =>
      rcases List.mem_cons.1 h with hd | hd
      · exact ⟨e, List.mem_cons_self, hd⟩
      · obtain ⟨e', he, hd⟩ := ih hd
        exact ⟨e', List.mem_cons_of_mem _ he, hd⟩

theorem mem_getAll {serviceName : Bytes} {p : Provider} {e : ServiceInfo}
    (h : some e ∈ getAll serviceName p (List.replicate (getCount serviceName p) none)) :
    e ∈ p ∧ e.serviceName = serviceName := by
  rw [getAll_eq] at h
  obtain ⟨i, hi, hs⟩ := List.mem_map.1 h
  unfold slot at hs
  split_ifs at hs with hn
  obtain rfl := Option.some.inj hs
  exact ⟨List.mem_of_mem_take hi, of_decide_eq_true hn⟩

/-- Whether it panics or not, an inquiry sends entries of its name, or the failure. -/
theorem mem_inquiry_sent {p : Provider} {info : ServiceInfo} {data : Bytes}
    (h : data ∈ (inquiry p info).sent) :
    data = noFoundData ∨ ∃ e ∈ p, e.serviceName = info.serviceName ∧ data = serviceData e := by
  by_cases hm : matching info.serviceName p = []
  · rw [inquiry_none p info hm] at h
    exact .inl (List.mem_singleton.1 h)
  · rw [(inquiry_some p info hm).1] at h
    obtain ⟨e, he, hd⟩ := mem_sendServices h
    obtain ⟨hp, hn⟩ := mem_getAll he
    exact .inr ⟨e, hp, hn, hd⟩

end Sent

section Read

theorem inquiryReply_noFoundData : inquiryReply noFoundData = .ok none := by
  have hd : noFoundData.length = udpCommBufLen := dataBuffer_length _ _
  have ha : (headOf noFoundData).action = Action.actionFail.code := by
    rw [noFoundData, getResult, getResultData, headOf_dataBuffer]
  rw [inquiryReply_fits hd fun _ => dataBuffer_len_fits _ (by decide), if_neg]
  rintro ⟨-, hs⟩
  rw [ha] at hs
  exact absurd hs (by decide)

theorem serviceData_action (e : ServiceInfo) :
    (headOf (serviceData e)).action = Action.actionSucc.code := by
  rw [serviceData, headOf_dataBuffer]

theorem serviceData_text {e : ServiceInfo} (hl : e.marshal.length ≤ payloadLen) :
    ServiceInfo.unmarshal (textOf (serviceData e)) = some e.coerce := by
  have hu := getServiceInfo_dataBuffer Action.actionSucc.code hl
  rw [getServiceInfo_payload (dataBuffer_length _ _)] at hu
  exact Except.ok.inj hu

/-- A caller reads the entry that was sent, or panics. -/
theorem inquiryReply_serviceData {e i : ServiceInfo} (hc : jsonCost e < 65536)
    (h : inquiryReply (serviceData e) = .ok (some i)) : i = e.coerce := by
  have hd : (serviceData e).length = udpCommBufLen := dataBuffer_length _ _
  rw [← marshal_length] at hc
  by_cases hl : e.marshal.length ≤ payloadLen
  · rw [inquiryReply_fits hd fun _ => dataBuffer_len_fits _ hl,
      if_pos ⟨dataBuffer_accepted _ hl, serviceData_action e⟩, serviceData_text hl] at h
    exact (Option.some.inj (Except.ok.inj h)).symm
  · have hp := checkAndGetServiceInfoHead_overlong Action.actionSucc.code (Nat.lt_of_not_le hl) hc
    rw [inquiryReply, serviceData, hp] at h
    cases h

theorem requests_inquiry {serviceName request : Bytes}
    (h : getInquiryService serviceName = .ok request) :
    Requests .inquiry request (inquiryInfo serviceName).coerce := by
  obtain rfl := Except.ok.inj h
  have hc := jsonCost_le (inquiryInfo serviceName)
  have hs : (inquiryInfo serviceName).size ≤ infoMaxLen := by
    have hl := getValidStr_length serviceName
    simp only [ServiceInfo.size, inquiryInfo, List.length_nil]
    omega
  refine ⟨_, decodeData_dataBuffer _ ?_, by rw [headOf_dataBuffer]⟩
  rw [marshal_length]
  have : infoMaxLen = 100 ∧ payloadLen = 1016 := ⟨rfl, rfl⟩
  omega

/-- What a daemon sends for `InquiryService(n)` is read as an entry named `n`. -/
theorem inquiryReply_named {p : Provider} {serviceName request data : Bytes} {i : ServiceInfo}
    (hp : Reached p) (hq : getInquiryService serviceName = .ok request)
    (hm : data ∈ (processData p request).sent) (hr : inquiryReply data = .ok (some i))
    (hv : IsValid serviceName) (hl : serviceName.length ≤ infoMaxLen) :
    i.serviceName = serviceName := by
  obtain ⟨head, hd, ha⟩ := requests_inquiry hq
  rw [processData_inquiry hd ha] at hm
  rcases mem_inquiry_sent hm with hf | ⟨e, he, hn, hs⟩
  · rw [hf, inquiryReply_noFoundData] at hr
    cases Except.ok.inj hr
  · have hw : e.serviceName = serviceName := by
      rw [hn]
      change coerce (getValidStr serviceName) = serviceName
      rw [getValidStr, if_neg (Nat.not_lt.2 hl)]
      exact hv
    rw [hs] at hr
    rw [inquiryReply_serviceData (hp.countable e he) hr]
    change coerce e.serviceName = serviceName
    rw [hw]
    exact hv

end Read

end MiniServiceDiscover.GoAnswers
