import MiniServiceDiscover.GoDaemon

set_option autoImplicit false

/-! Completeness of an inquiry at the Go daemon: counting and filling agree
exactly when the matching entries stand in front. -/
namespace MiniServiceDiscover.GoInquiry
open JsonText GoJson GoProtocal GoProvider GoDaemon WireFormat KeyedList

/-- Whoever checks the packet accepts it, with this action. -/
def AcceptedAs (action : Action) (data : Bytes) : Prop :=
  ∃ head, checkAndGetServiceInfoHead data = .ok (some head) ∧ head.action = action.code

/-- One packet is sent, with this action. -/
def AnswersWith (action : Action) (sent : List Bytes) : Prop :=
  ∃ data, sent = [data] ∧ AcceptedAs action data

/-- An inquiry is answered with every entry of that name, or with one failure. -/
structure Answered (p : Provider) (serviceName : Bytes) (h : Handled) : Prop where
  noPanic : h.result = .ok p
  services : (∃ i ∈ p, i.serviceName = serviceName) →
    h.sent = (matching serviceName p).map serviceData
  succ : ∀ i ∈ matching serviceName p, i.marshal.length ≤ payloadLen →
    AcceptedAs .actionSucc (serviceData i)
  failure : h.sent = [noFoundData] ↔ ∀ i ∈ p, i.serviceName ≠ serviceName
  fail : AnswersWith .actionFail h.sent ↔ ∀ i ∈ p, i.serviceName ≠ serviceName

section Answers

/-- A packet whose text fits is accepted with its own action, and with no other. -/
theorem acceptedAs_dataBuffer {a : Action} {info : Bytes} (h : info.length ≤ payloadLen) :
    AcceptedAs a (dataBuffer a.code info) :=
  ⟨_, checkAndGetServiceInfoHead_dataBuffer a.code h, rfl⟩

theorem action_of_acceptedAs {a b : Action} {info : Bytes}
    (h : AcceptedAs b (dataBuffer a.code info)) : a = b := by
  obtain ⟨head, hc, ha⟩ := h
  obtain ⟨rfl, -, -⟩ := checkAndGetServiceInfoHead_some (dataBuffer_length _ _) hc
  rw [headOf_dataBuffer] at ha
  exact Action.code_injective ha

theorem succData_accepted : AcceptedAs .actionSucc succData := acceptedAs_dataBuffer (by decide)

theorem noFoundData_accepted : AcceptedAs .actionFail noFoundData := acceptedAs_dataBuffer (by decide)

theorem serviceData_accepted {i : ServiceInfo} (h : i.marshal.length ≤ payloadLen) :
    AcceptedAs .actionSucc (serviceData i) := acceptedAs_dataBuffer h

theorem not_fail_of_services {p : Provider} : ¬ AnswersWith .actionFail (p.map serviceData) := by
  rintro ⟨data, hs, haccepted⟩
  obtain ⟨i, -, rfl⟩ := List.mem_map.1 (hs ▸ List.mem_singleton_self data)
  cases action_of_acceptedAs haccepted

end Answers

theorem matching_nil_iff (p : Provider) (serviceName : Bytes) :
    matching serviceName p = [] ↔ ∀ i ∈ p, i.serviceName ≠ serviceName :=
  filter_key_nil_iff

section Inquiry
variable (p : Provider) (info : ServiceInfo)

theorem inquiry_none (h : matching info.serviceName p = []) :
    inquiry p info = ⟨[noFoundData], .ok p⟩ := by
  rw [inquiry, getCount_eq, h]
  rfl

theorem inquiry_some (h : matching info.serviceName p ≠ []) :
    (inquiry p info).sent = (sendServices (getAll info.serviceName p
      (List.replicate (getCount info.serviceName p) none))).1 ∧
    (inquiry p info).result = (sendServices (getAll info.serviceName p
      (List.replicate (getCount info.serviceName p) none))).2.map fun _ => p := by
  have hc : getCount info.serviceName p > 0 := by
    rw [getCount_eq]
    exact List.length_pos_iff.2 h
  rw [inquiry]
  simp only [if_pos hc, and_self]

theorem inquiry_matchesFirst (h : MatchesFirst (named info.serviceName) p) :
    Answered p info.serviceName (inquiry p info) := by
  by_cases hm : matching info.serviceName p = []
  · rw [inquiry_none p info hm]
    have hno := (matching_nil_iff p info.serviceName).1 hm
    exact ⟨rfl, fun ⟨i, hi, hn⟩ => absurd hn (hno i hi), fun _ _ => serviceData_accepted,
      iff_of_true rfl hno, iff_of_true ⟨_, rfl, noFoundData_accepted⟩ hno⟩
  · obtain ⟨hs, hr⟩ := inquiry_some p info hm
    rw [getAll_matchesFirst _ h, sendServices_some] at hs hr
    have hsome := mt (matching_nil_iff p info.serviceName).2 hm
    have hfail : ¬ AnswersWith .actionFail (inquiry p info).sent := hs ▸ not_fail_of_services
    refine ⟨hr, fun _ => hs, fun _ _ => serviceData_accepted, iff_of_false ?_ hsome,
      iff_of_false hfail hsome⟩
    exact fun hf => hfail ⟨_, hf, noFoundData_accepted⟩

/-- An entry of another name in front of a matching one leaves a slot empty. -/
theorem inquiry_panics (h : ¬ MatchesFirst (named info.serviceName) p) :
    (inquiry p info).result = .error .nilDereference := by
  have hm : matching info.serviceName p ≠ [] := by
    intro hm
    exact h (matchesFirst_of_filter_nil _ hm)
  obtain ⟨-, hr⟩ := inquiry_some p info hm
  rw [hr, sendServices_none (none_mem_getAll _ h)]
  rfl

end Inquiry

theorem processData_inquiry {p : Provider} {data : Bytes} {head : ServiceHead} {info : ServiceInfo}
    (h : decodeData data = .ok (some (head, info))) (ha : head.action = Action.inquiry.code) :
    processData p data = inquiry p info := by
  rw [processData, h]
  simp only [handleAction, ha]
  rfl

/-- In every reachable registry an accepted inquiry is answered completely if
and only if no entry of another name stands before a matching one. -/
theorem processData_answered_iff (ops : List Op) (data : Bytes) (head : ServiceHead)
    (info : ServiceInfo) (h : decodeData data = .ok (some (head, info)))
    (ha : head.action = Action.inquiry.code) :
    Answered (run ops) info.serviceName (processData (run ops) data) ↔
      MatchesFirst (named info.serviceName) (run ops) := by
  rw [processData_inquiry h ha]
  constructor
  · intro hans
    by_contra hm
    have := hans.noPanic
    rw [inquiry_panics _ _ hm] at this
    cases this
  · exact inquiry_matchesFirst (run ops) info

section Examples

def playMusic : ServiceInfo :=
  ⟨ascii "box1", ascii "play_music", ascii "192.168.1.116", 6666, ascii "pcm"⟩

def showPhoto : ServiceInfo :=
  ⟨ascii "box1", ascii "show_photo", ascii "192.168.1.116", 6667, []⟩

def mixedOps : List Op := [.addInfo playMusic, .addInfo showPhoto]

def playMusicInquiry : Bytes :=
  dataBuffer Action.inquiry.code (inquiryInfo (ascii "play_music")).marshal

theorem decodeData_playMusicInquiry : decodeData playMusicInquiry =
    .ok (some (headOf playMusicInquiry, (inquiryInfo (ascii "play_music")).coerce)) :=
  decodeData_dataBuffer _ (by decide)

theorem playMusicInquiry_action :
    (headOf playMusicInquiry).action = Action.inquiry.code := by
  rw [playMusicInquiry, headOf_dataBuffer]

theorem processData_answered_iff_playMusic :
    Answered (run mixedOps) (inquiryInfo (ascii "play_music")).coerce.serviceName
        (processData (run mixedOps) playMusicInquiry) ↔
      MatchesFirst (named (inquiryInfo (ascii "play_music")).coerce.serviceName) (run mixedOps) :=
  processData_answered_iff mixedOps playMusicInquiry _ _ decodeData_playMusicInquiry
    playMusicInquiry_action

/-- A photo service registered after the music service stops the daemon at the
next inquiry for music. -/
theorem processData_mixed_panics :
    decodeData playMusicInquiry =
      .ok (some (headOf playMusicInquiry, (inquiryInfo (ascii "play_music")).coerce)) ∧
    (processData (run mixedOps) playMusicInquiry).result = .error .nilDereference ∧
    ¬ Answered (run mixedOps) (ascii "play_music")
      (processData (run mixedOps) playMusicInquiry) := by
  have hp : (processData (run mixedOps) playMusicInquiry).result = .error .nilDereference := by
    rw [processData_inquiry decodeData_playMusicInquiry playMusicInquiry_action]
    exact inquiry_panics _ _ (by decide)
  refine ⟨decodeData_playMusicInquiry, hp, fun h => ?_⟩
  have := h.noPanic
  rw [hp] at this
  cases this

end Examples

end MiniServiceDiscover.GoInquiry
