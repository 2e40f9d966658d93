import MiniServiceDiscover.JavaJsonText

set_option autoImplicit false

/-! Completeness of an inquiry at the Java daemon: the count is of the matching
entries, the index is among all entries. -/
namespace MiniServiceDiscover.JavaInquiry
open JavaProtocal JavaProvider JavaDaemon JavaJsonText WireFormat KeyedList

def ServicePkt (oj : OrgJson) (i : NamedInfo) (pkt : JavaBytes) : Prop :=
  getServicePkt oj i.info = .ok pkt

/-- The packets sent for an inquiry: one for each entry of that name in list
order, or one failure. -/
structure Answered (oj : OrgJson) (registry : List NamedInfo) (serviceName : JavaString)
    (s : Sending) : Prop where
  services : (∃ i ∈ registry, i.name = serviceName) →
    List.Forall₂ (ServicePkt oj) (registry.filter (named serviceName)) s.sent
  failure : (∃ pkt, getResultPkt oj false serviceNoFound = .ok pkt ∧ s.sent = [pkt]) ↔
    ∀ i ∈ registry, i.name ≠ serviceName
  reply : s.sent ≠ []
  finishes : s.thrown = none

/-- The object printed from the info fits a packet. -/
def Fits (oj : OrgJson) (i : NamedInfo) : Prop := (oj.print (serviceMap i.info)).length ≤ payloadLen

section Packets
variable {oj : OrgJson}

/-- A packet shows the action it was built with. -/
theorem getPkt_action {a b : Int16} {json json' : JavaBytes} {pkt : JavaBytes}
    (ha : (getPkt a json).mapError Thrown.codec = .ok pkt)
    (hb : (getPkt b json').mapError Thrown.codec = .ok pkt) : shortLow a = shortLow b := by
  obtain ⟨head, hhead, hp⟩ := getPkt_eq a json
  obtain ⟨head', hhead', hp'⟩ := getPkt_eq b json'
  rw [hp] at ha
  rw [hp'] at hb
  split_ifs at ha
  · split_ifs at hb
    · have he := (Except.ok.inj ha).trans (Except.ok.inj hb).symm
      have hlow := congrArg (fun pkt : JavaBytes => pkt.getD 2 0) he
      rw [← hhead, ← hhead']
      exact hlow
    · cases hb
  · cases ha

theorem servicePkt_ne_failure {i : NamedInfo} {pkt : JavaBytes} (h : ServicePkt oj i pkt) :
    getResultPkt oj false serviceNoFound ≠ .ok pkt := by
  intro hf
  exact absurd (getPkt_action h hf) (by decide)

/-- The results of the daemon fit a packet. -/
def ResultsFit (oj : OrgJson) : Prop := ∀ reason ∈ [[], serviceNoFound],
  (oj.print [("reason", .string (some reason))]).length ≤ payloadLen

theorem resultsFit_of_documented (doc : Documented oj) : ResultsFit oj := by
  intro reason hr
  refine (doc.printLength _).trans ?_
  rcases List.mem_cons.1 hr with rfl | hr
  · decide
  · rw [List.mem_singleton.1 hr]
    decide

theorem ResultsFit.pkt (h : ResultsFit oj) (isSucc : Bool) {reason : JavaString}
    (hr : reason ∈ [[], serviceNoFound]) : ∃ pkt, getResultPkt oj isSucc reason = .ok pkt := by
  obtain ⟨head, -, hp⟩ := getPkt_eq (infoType (if isSucc then .actionSucc else .actionFail))
    (oj.print [("reason", .string (some reason))])
  rw [if_pos (h reason hr)] at hp
  exact ⟨_, congrArg (Except.mapError Thrown.codec) hp⟩

theorem noFoundPkt_ok (h : ResultsFit oj) :
    ∃ pkt, getResultPkt oj false serviceNoFound = .ok pkt :=
  h.pkt false (List.mem_cons_of_mem _ List.mem_cons_self)

end Packets

section Replies
variable (oj : OrgJson) (serviceName : JavaString)

/-- The packets of these infos, up to the first that cannot be built. -/
def sendAll : List NamedInfo → Sending
  | [] => ⟨[], none⟩
  | i :: rest =>
    match getServicePkt oj i.info with
    | .error e => ⟨[], some e⟩
    | .ok pkt => ⟨pkt :: (sendAll rest).sent, (sendAll rest).thrown⟩

theorem sendFrom_eq_sendAll (registry : List NamedInfo) (left i : ℕ) :
    sendFrom oj (infos registry) (some serviceName) left i =
      sendAll oj (((registry.drop i).take left).filter (named serviceName)) := by
  induction left generalizing i with
  | zero => rw [List.take_zero]; rfl
  | succ left ih =>
    rw [sendFrom, get_eq]
    rcases Nat.lt_or_ge i registry.length with hlt | hge
    · rw [List.getElem?_eq_getElem hlt, List.drop_eq_getElem_cons hlt, List.take_succ_cons]
      by_cases hn : named serviceName registry[i] = true
      · rw [ih (i + 1), Option.filter_some_pos hn, List.filter_cons_of_pos hn, sendAll]
        rfl
      · rw [Option.filter_some_neg (by simpa using hn), List.filter_cons_of_neg hn]
        exact ih (i + 1)
    · rw [List.getElem?_eq_none hge, List.drop_of_length_le hge]
      have hrest := ih (i + 1)
      rw [List.drop_of_length_le (hge.trans (Nat.le_succ i))] at hrest
      simpa using hrest

theorem inquiry_eq (registry : List NamedInfo) :
    inquiry oj (infos registry) (some serviceName) =
      if (registry.filter (named serviceName)).length > 0 then
        sendAll oj ((registry.take (registry.filter (named serviceName)).length).filter
          (named serviceName))
      else .one (getResultPkt oj false serviceNoFound) := by
  rw [inquiry, getCount_eq]
  simp only [sendFrom_eq_sendAll, List.drop_zero]

variable {oj serviceName}

theorem sendAll_length (l : List NamedInfo) : (sendAll oj l).sent.length ≤ l.length := by
  induction l with
  | nil => exact Nat.le_refl 0
  | cons i rest ih =>
    rw [sendAll]
    split
    · exact Nat.zero_le _
    · exact Nat.succ_le_succ ih

theorem sendAll_fits {l : List NamedInfo} (h : ∀ i ∈ l, Fits oj i) :
    List.Forall₂ (ServicePkt oj) l (sendAll oj l).sent ∧ (sendAll oj l).thrown = none := by
  induction l with
  | nil => exact ⟨.nil, rfl⟩
  | cons i rest ih =>
    obtain ⟨hs, ht⟩ := ih fun j hj => h j (List.mem_cons_of_mem i hj)
    obtain ⟨pkt, hp⟩ := (getServicePkt_iff oj i.info).2 (h i List.mem_cons_self)
    have hok : getServicePkt oj i.info = .ok pkt := hp
    rw [sendAll, hok]
    exact ⟨.cons hp hs, ht⟩

end Replies

section Completeness
variable {oj : OrgJson} {serviceName : JavaString} {registry : List NamedInfo}

/-- Infos that all fit a packet leave nothing that an inquiry could throw on. -/
theorem inquiry_fits (results : ResultsFit oj) (h : ∀ i ∈ registry, Fits oj i) :
    (inquiry oj (infos registry) (some serviceName)).thrown = none := by
  rw [inquiry_eq]
  split_ifs
  · exact (sendAll_fits fun i hi => h i (List.mem_of_mem_take (List.mem_filter.1 hi).1)).2
  · obtain ⟨pkt, hp⟩ := noFoundPkt_ok results
    rw [hp]
    rfl

theorem matchesFirst_of_answered
    (h : Answered oj registry serviceName (inquiry oj (infos registry) (some serviceName))) :
    MatchesFirst (named serviceName) registry ∧
      ∀ i ∈ registry, i.name = serviceName → Fits oj i := by
  by_cases hne : registry.filter (named serviceName) = []
  · have hno := filter_key_nil_iff.1 hne
    exact ⟨matchesFirst_of_filter_nil _ hne, fun i hi he => absurd he (hno i hi)⟩
  · have hs := h.services (exists_key_iff.1 hne)
    rw [inquiry_eq, if_pos (List.length_pos_iff.2 hne)] at hs
    have hlen := hs.length_eq
    have hle := hlen.le.trans (sendAll_length _)
    have hall : (registry.take (registry.filter (named serviceName)).length).filter
        (named serviceName) = registry.take (registry.filter (named serviceName)).length :=
      List.filter_sublist.eq_of_length_le
        ((List.length_take_le _ _).trans hle)
    refine ⟨(forall_take_count_iff _ _).1 (List.filter_eq_self.1 hall), fun i hi he => ?_⟩
    exact (getServicePkt_iff oj i.info).1
      (exists_forall₂_iff.1 ⟨_, hs⟩ i (List.mem_filter.2 ⟨hi, decide_eq_true he⟩))

theorem answered_of_matchesFirst (doc : Documented oj)
    (hm : MatchesFirst (named serviceName) registry)
    (hf : ∀ i ∈ registry, i.name = serviceName → Fits oj i) :
    Answered oj registry serviceName (inquiry oj (infos registry) (some serviceName)) := by
  rw [inquiry_eq]
  by_cases hne : registry.filter (named serviceName) = []
  · obtain ⟨pkt, hp⟩ := noFoundPkt_ok (resultsFit_of_documented doc)
    have hno := filter_key_nil_iff.1 hne
    rw [hne, if_neg (show ¬ ([] : List NamedInfo).length > 0 from Nat.lt_irrefl 0), hp]
    exact ⟨(fun ⟨i, hi, he⟩ => absurd he (hno i hi)), ⟨fun _ => hno, fun _ => ⟨pkt, hp, rfl⟩⟩,
      List.cons_ne_nil _ _, rfl⟩
  · rw [if_pos (List.length_pos_iff.2 hne), (take_count_eq_filter_iff _ _).2 hm,
      List.filter_filter]
    simp only [Bool.and_self]
    have hall : ∀ i ∈ registry.filter (named serviceName), Fits oj i :=
      fun i hi => hf i (List.mem_filter.1 hi).1 (of_decide_eq_true (List.mem_filter.1 hi).2)
    obtain ⟨hs, ht⟩ := sendAll_fits hall
    obtain ⟨i, hi, he⟩ := exists_key_iff.1 hne
    refine ⟨fun _ => hs, ⟨?_, fun hno => absurd he (hno i hi)⟩, ?_, ht⟩
    · rintro ⟨pkt, hp, hsent⟩
      rw [hsent] at hs
      obtain ⟨i, _, hpkt, -, -⟩ := List.forall₂_cons_right_iff.1 hs
      exact absurd hp (servicePkt_ne_failure hpkt)
    · intro hnil
      rw [hnil] at hs
      exact hne (List.forall₂_nil_right_iff.1 hs)

end Completeness

/-- An inquiry is answered exactly when no entry of another name stands before an
entry of the name, and the packets fit. -/
theorem inquiry_answered_iff (oj : OrgJson) (doc : Documented oj) (ops : List Op)
    (serviceName : JavaString) : ∃ list, run ops = .ok list ∧
      (Answered oj (abstractRun ops) serviceName (inquiry oj list (some serviceName)) ↔
        MatchesFirst (named serviceName) (abstractRun ops) ∧
          ∀ i ∈ abstractRun ops, i.name = serviceName → Fits oj i) :=
  ⟨_, (run_eq_abstractRun ops).1, matchesFirst_of_answered,
    fun h => answered_of_matchesFirst doc h.1 h.2⟩

section Examples

def box : JavaString := javaString "box1"

def playMusicName : JavaString := javaString "play_music"

def service (dev name : JavaString) : NamedInfo :=
  ⟨⟨some dev, some name, some (javaString "192.168.1.116"), some (javaString "pcm"), 6666⟩, dev, name,
    rfl, rfl⟩

/-- A photo service, and behind it a music service. -/
def mixedOps : List Op :=
  [.add (service box (javaString "show_photo")), .add (service box playMusicName)]

theorem inquiry_answered_iff_mixed : ∃ list, run mixedOps = .ok list ∧
    (Answered textJson (abstractRun mixedOps) playMusicName
        (inquiry textJson list (some playMusicName)) ↔
      MatchesFirst (named playMusicName) (abstractRun mixedOps) ∧
        ∀ i ∈ abstractRun mixedOps, i.name = playMusicName → Fits textJson i) :=
  inquiry_answered_iff textJson textJson_documented mixedOps playMusicName

/-- The inquiry for the second service is not answered at all. -/
theorem inquiry_mixed_silent : ∃ list, run mixedOps = .ok list ∧
    inquiry textJson list (some playMusicName) = ⟨[], none⟩ ∧
    ¬ Answered textJson (abstractRun mixedOps) playMusicName
      (inquiry textJson list (some playMusicName)) := by
  have hs : inquiry textJson (infos (abstractRun mixedOps)) (some playMusicName) = ⟨[], none⟩ := by
    rw [inquiry_eq]
    rfl
  refine ⟨_, (run_eq_abstractRun mixedOps).1, hs, fun h => ?_⟩
  rw [hs] at h
  exact h.reply rfl

end Examples

end MiniServiceDiscover.JavaInquiry
