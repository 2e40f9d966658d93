import MiniServiceDiscover.JavaRequest
import MiniServiceDiscover.JavaSweep

set_option autoImplicit false

/-! What one datagram can do to the Java daemon: an entry without names in the
registry, and an exception that ends the loop. -/
namespace MiniServiceDiscover.JavaDatagrams
open WireFormat JavaProtocal JavaProvider JavaDaemon JavaJsonText JavaReceive JavaRequest

def Named (info : ServiceInfo) : Prop := info.dev ≠ none ∧ info.name ≠ none

/-- The object printed from the info fits a packet. -/
def Prints (oj : OrgJson) (info : ServiceInfo) : Prop :=
  (oj.print (serviceMap info)).length ≤ payloadLen

/-- A pass of the loop finds this registry and this buffer. -/
def Handles (oj : OrgJson) (datagrams : List JavaBytes) (provider : ServiceInfoList)
    (buffer : JavaBytes) : Prop :=
  ∃ front datagram, front ++ [datagram] <+: datagrams ∧ (run oj front).running = true ∧
    provider = (run oj front).provider ∧ buffer = receive datagram (run oj front).buffer

def IncompleteRegister (oj : OrgJson) (buffer : JavaBytes) : Prop :=
  Accepted .registerService buffer ∧ Incomplete oj buffer

section Walks
variable {info : ServiceInfo} {list : ServiceInfoList} {e : Thrown}

theorem equals_error {a b : StringRef} (h : equals a b = .error e) : e = .nullPointer ∧ a = none := by
  cases a with
  | none =>
    cases h
    exact ⟨rfl, rfl⟩
  | some a => cases h

theorem sameService_error {devName serviceName : StringRef}
    (h : sameService info devName serviceName = .error e) : e = .nullPointer ∧ ¬ Named info := by
  rw [sameService] at h
  cases hd : equals info.dev devName with
  | error e' =>
    rw [hd] at h
    cases h
    obtain ⟨he, hnone⟩ := equals_error hd
    exact ⟨he, fun hn => hn.1 hnone⟩
  | ok same =>
    rw [hd] at h
    cases same with
    | false => cases h
    | true =>
      obtain ⟨he, hnone⟩ := equals_error h
      exact ⟨he, fun hn => hn.2 hnone⟩

/-- A walk throws at an entry without names only. -/
theorem remove_error {devName serviceName : StringRef}
    (h : remove devName serviceName list = .error e) :
    e = .nullPointer ∧ ∃ info ∈ list, ¬ Named info := by
  induction list with
  | nil => cases h
  | cons info rest ih =>
    rw [remove] at h
    cases hs : sameService info devName serviceName with
    | error e' =>
      rw [hs] at h
      cases h
      obtain ⟨he, hn⟩ := sameService_error hs
      exact ⟨he, info, List.mem_cons_self .., hn⟩
    | ok same =>
      rw [hs] at h
      cases same with
      | true => cases h
      | false =>
        cases hr : remove devName serviceName rest with
        | error e' =>
          change (remove devName serviceName rest >>= _) = _ at h
          rw [hr] at h
          cases h
          obtain ⟨he, info, hmem, hn⟩ := ih hr
          exact ⟨he, info, List.mem_cons_of_mem _ hmem, hn⟩
        | ok removed =>
          change (remove devName serviceName rest >>= _) = _ at h
          rw [hr] at h
          cases h

theorem remove_sublist {devName serviceName : StringRef} {removed : Bool × ServiceInfoList}
    (h : remove devName serviceName list = .ok removed) : removed.2.Sublist list := by
  induction list generalizing removed with
  | nil =>
    cases h
    exact List.Sublist.refl []
  | cons info rest ih =>
    rw [remove] at h
    cases hs : sameService info devName serviceName with
    | error e' =>
      rw [hs] at h
      cases h
    | ok same =>
      rw [hs] at h
      cases same with
      | true =>
        cases h
        exact List.sublist_cons_self info rest
      | false =>
        change (remove devName serviceName rest >>= _) = _ at h
        cases hr : remove devName serviceName rest with
        | error e' =>
          rw [hr] at h
          cases h
        | ok removed' =>
          rw [hr] at h
          cases h
          exact (ih hr).cons_cons info

theorem add_error (h : add info list = .error e) :
    e = .nullPointer ∧ ∃ info ∈ list, ¬ Named info := by
  rw [add] at h
  cases hr : remove info.dev info.name list with
  | error e' =>
    rw [hr] at h
    cases h
    exact remove_error hr
  | ok removed =>
    rw [hr] at h
    cases h

theorem add_mem {list' : ServiceInfoList} (h : add info list = .ok list') :
    ∀ x ∈ list', x ∈ list ∨ x = info := by
  rw [add] at h
  cases hr : remove info.dev info.name list with
  | error e' =>
    rw [hr] at h
    cases h
  | ok removed =>
    rw [hr] at h
    cases h
    intro x hx
    rcases List.mem_append.1 hx with hx | hx
    · exact .inl ((remove_sublist hr).subset hx)
    · exact .inr (List.mem_singleton.1 hx)

theorem countFrom_error {serviceName : StringRef} {i : ℕ}
    (h : countFrom serviceName i list = .error e) :
    e = .nullPointer ∧ ∃ info ∈ list, ¬ Named info := by
  induction list generalizing i with
  | nil => cases h
  | cons info rest ih =>
    rw [countFrom] at h
    cases hs : equals info.name serviceName with
    | error e' =>
      rw [hs] at h
      cases h
      obtain ⟨he, hnone⟩ := equals_error hs
      exact ⟨he, info, List.mem_cons_self .., fun hn => hn.2 hnone⟩
    | ok same =>
      rw [hs] at h
      obtain ⟨he, info, hmem, hn⟩ := ih h
      exact ⟨he, info, List.mem_cons_of_mem _ hmem, hn⟩

theorem getFrom_error {serviceName : StringRef} {index i : ℕ}
    (h : getFrom serviceName index i list = .error e) :
    e = .nullPointer ∧ ∃ info ∈ list, ¬ Named info := by
  induction list generalizing i with
  | nil => cases h
  | cons info rest ih =>
    rw [getFrom] at h
    cases hs : equals info.name serviceName with
    | error e' =>
      rw [hs] at h
      cases h
      obtain ⟨he, hnone⟩ := equals_error hs
      exact ⟨he, info, List.mem_cons_self .., fun hn => hn.2 hnone⟩
    | ok same =>
      rw [hs] at h
      change (if (same && i == index) = true then _ else _) = _ at h
      split at h
      · cases h
      · obtain ⟨he, info, hmem, hn⟩ := ih h
        exact ⟨he, info, List.mem_cons_of_mem _ hmem, hn⟩

theorem getFrom_mem {serviceName : StringRef} {index i : ℕ}
    (h : getFrom serviceName index i list = .ok (some info)) : info ∈ list := by
  induction list generalizing i with
  | nil => cases h
  | cons x rest ih =>
    rw [getFrom] at h
    cases hs : equals x.name serviceName with
    | error e' =>
      rw [hs] at h
      cases h
    | ok same =>
      rw [hs] at h
      change (if (same && i == index) = true then _ else _) = _ at h
      split at h
      · cases h
        exact List.mem_cons_self ..
      · exact List.mem_cons_of_mem _ (ih h)

end Walks

section Handling
variable {oj : OrgJson} {provider : ServiceInfoList} {b : JavaBytes} {e : Thrown}

/-- Why a pass throws: a walk meets an entry without names, or a packet does not hold
what is printed. -/
inductive Cause (oj : OrgJson) (provider : ServiceInfoList) : Thrown → Prop where
  | walk {info : ServiceInfo} (hi : info ∈ provider) (hn : ¬ Named info) :
      Cause oj provider .nullPointer
  | service {info : ServiceInfo} (hi : info ∈ provider) {e : Thrown}
      (h : getServicePkt oj info = .error e) : Cause oj provider e
  | result {isSucc : Bool} {reason : JavaString} (hr : reason ∈ [[], serviceNoFound]) {e : Thrown}
      (h : getResultPkt oj isSucc reason = .error e) : Cause oj provider e

theorem Cause.of_walk (h : e = .nullPointer ∧ ∃ info ∈ provider, ¬ Named info) :
    Cause oj provider e := by
  obtain ⟨rfl, info, hi, hn⟩ := h
  exact .walk hi hn

theorem one_thrown {isSucc : Bool} {reason : JavaString} (hr : reason ∈ [[], serviceNoFound])
    (h : (Sending.one (getResultPkt oj isSucc reason)).thrown = some e) : Cause oj provider e := by
  cases hp : getResultPkt oj isSucc reason with
  | error e' =>
    rw [hp] at h
    cases h
    exact .result hr hp
  | ok pkt =>
    rw [hp] at h
    cases h

theorem sendFrom_thrown {serviceName : StringRef} {left i : ℕ}
    (h : (sendFrom oj provider serviceName left i).thrown = some e) : Cause oj provider e := by
  induction left generalizing i with
  | zero => cases h
  | succ left ih =>
    rw [sendFrom] at h
    split at h
    · rename_i e' hg
      cases h
      exact .of_walk (getFrom_error hg)
    · exact ih h
    · rename_i info hg
      split at h
      · rename_i e' hp
        cases h
        exact .service (getFrom_mem hg) hp
      · exact ih h

theorem inquiry_thrown {serviceName : StringRef}
    (h : (inquiry oj provider serviceName).thrown = some e) : Cause oj provider e := by
  unfold inquiry at h
  split at h
  · rename_i e' hc
    cases h
    exact .of_walk (countFrom_error hc)
  · split at h
    · exact sendFrom_thrown h
    · exact one_thrown (by decide) h

theorem handleAction_thrown {action : Action} {info : ServiceInfo}
    (h : (handleAction oj action provider info).2.thrown = some e) : Cause oj provider e := by
  unfold handleAction at h
  split at h
  · split at h
    · rename_i e' ha
      cases h
      exact .of_walk (add_error ha)
    · exact one_thrown (by decide) h
  · split at h
    · rename_i e' hr
      cases h
      exact .of_walk (remove_error hr)
    · change (Sending.one (if _ then _ else _)).thrown = _ at h
      split at h
      · exact one_thrown (by decide) h
      · exact one_thrown (by decide) h
  · exact inquiry_thrown h
  · cases h

theorem caseOf_eq {code : Int16} {action : Action} (h : caseOf code = some action) :
    code = infoType action := by
  unfold caseOf at h
  split at h
  · cases h
    assumption
  · split at h
    · cases h
      assumption
    · split at h
      · cases h
        assumption
      · cases h

/-- What a pass throws comes from the decoders, or from what it does with the registry. -/
theorem handle_thrown (h : (handle oj provider b).sending.thrown = some e) :
    (∃ e', decodeAction b = .error e' ∧ e = .codec e') ∨
      ((∃ action, Accepted action b) ∧ getServiceInfo oj b = .error e) ∨ Cause oj provider e := by
  unfold handle at h
  split at h
  · rename_i e' ha
    cases h
    exact .inl ⟨e', ha, rfl⟩
  · rename_i code ha
    split at h
    · cases h
    · rename_i action hc
      split at h
      · rename_i e' hi
        cases h
        exact .inr (.inl ⟨⟨action, ha.trans (congrArg Except.ok (caseOf_eq hc))⟩, hi⟩)
      · exact .inr (.inr (handleAction_thrown h))

/-- An entry that a pass adds is what it has decoded from a registration. -/
theorem handle_provider {x : ServiceInfo} (h : x ∈ (handle oj provider b).provider) :
    x ∈ provider ∨ (Accepted .registerService b ∧ getServiceInfo oj b = .ok x) := by
  unfold handle at h
  split at h
  · exact .inl h
  · rename_i code ha
    split at h
    · exact .inl h
    · rename_i action hc
      split at h
      · exact .inl h
      · rename_i info hi
        change x ∈ (handleAction oj action provider info).1 at h
        have hcode := ha.trans (congrArg Except.ok (caseOf_eq hc))
        unfold handleAction at h
        split at h
        · split at h
          · exact .inl h
          · rename_i list hadd
            rcases add_mem hadd x h with hx | rfl
            · exact .inl hx
            · exact .inr ⟨hcode, hi⟩
        · split at h
          · exact .inl h
          · rename_i ret list hr
            exact .inl ((remove_sublist hr).subset h)
        · exact .inl h
        · exact .inl h

theorem resultPkt_ok (doc : Documented oj) (isSucc : Bool) {reason : JavaString}
    (hr : reason ∈ [[], serviceNoFound]) : ∃ pkt, getResultPkt oj isSucc reason = .ok pkt ∧
      Accepted (if isSucc then .actionSucc else .actionFail) pkt := by
  have hlen : (oj.print [("reason", .string (some reason))]).length ≤ payloadLen := by
    refine (doc.printLength _).trans ?_
    rcases List.mem_cons.1 hr with rfl | hr
    · decide
    · rw [List.mem_singleton.1 hr]
      decide
  obtain ⟨pkt, hp, -, ha, -⟩ := getPkt_decodes oj (if isSucc then .actionSucc else .actionFail)
    (unsigned (oj.print [("reason", .string (some reason))])) (by rwa [unsigned, List.length_map])
  rw [signed_unsigned] at hp
  refine ⟨pkt, ?_, ha⟩
  rw [getResultPkt, hp]
  rfl

/-- With the documented texts, a pass throws over an entry without names or one that
does not print into a packet. -/
theorem Cause.entry (doc : Documented oj) (h : Cause oj provider e) :
    (e = .nullPointer ∧ ∃ info ∈ provider, ¬ Named info) ∨
      (e ≠ .nullPointer ∧ ∃ info ∈ provider, ¬ Prints oj info) := by
  cases h with
  | walk hi hn => exact .inl ⟨rfl, _, hi, hn⟩
  | @service info hi _ hp =>
    right
    constructor
    · rintro rfl
      unfold getServicePkt at hp
      cases hg : getPkt (infoType .actionSucc) (oj.print (serviceMap info)) with
      | error e' =>
        rw [hg] at hp
        cases hp
      | ok pkt =>
        rw [hg] at hp
        cases hp
    · refine ⟨info, hi, fun hprint => ?_⟩
      obtain ⟨pkt, hok⟩ := (getServicePkt_iff oj info).2 hprint
      cases hp.symm.trans hok
  | @result isSucc reason hr _ hp =>
    obtain ⟨pkt, hok, -⟩ := resultPkt_ok doc isSucc hr
    cases hp.symm.trans hok

end Handling

section Rejection
variable {oj : OrgJson} {provider : ServiceInfoList} {b : JavaBytes}

/-- The daemon answers an incomplete registration with success, and stores it. -/
theorem incomplete_answered (doc : Documented oj) (hn : ∀ info ∈ provider, Named info)
    (h : IncompleteRegister oj b) :
    ∃ pkt ∈ (handle oj provider b).sending.sent, Accepted .actionSucc pkt := by
  obtain ⟨ha, hi⟩ := h
  obtain ⟨info, hinfo⟩ := hi.getServiceInfo
  obtain ⟨pkt, hp, hsucc⟩ := resultPkt_ok doc true (List.mem_cons_self ..)
  refine ⟨pkt, ?_, hsucc⟩
  obtain ⟨list, hadd⟩ : ∃ list, add info provider = .ok list := by
    cases hadd : add info provider with
    | ok list => exact ⟨list, rfl⟩
    | error e =>
      obtain ⟨-, x, hx, hx'⟩ := add_error hadd
      exact absurd (hn x hx) hx'
  have hsent : (handle oj provider b).sending = .one (getResultPkt oj true []) := by
    unfold handle
    rw [ha]
    simp only [show caseOf (infoType .registerService) = some .registerService by decide, hinfo]
    unfold handleAction
    simp only [hadd]
  rw [hsent, hp]
  exact List.mem_singleton_self pkt

/-- Incomplete registrations are rejected, no entry is without names, and no walk
throws. -/
structure RejectsIncomplete (oj : OrgJson) (datagrams : List JavaBytes) : Prop where
  rejects : ∀ provider b, Handles oj datagrams provider b → IncompleteRegister oj b →
    (handle oj provider b).provider = provider ∧
      ∀ pkt ∈ (handle oj provider b).sending.sent, ¬ Accepted .actionSucc pkt
  named : ∀ front, front <+: datagrams → ∀ info ∈ (run oj front).provider, Named info
  noNull : ∀ provider b, Handles oj datagrams provider b →
    (handle oj provider b).sending.thrown ≠ some .nullPointer

theorem getServiceInfo_error {e : Thrown} (h : getServiceInfo oj b = .error e) :
    e ≠ .nullPointer := by
  rintro rfl
  rw [getServiceInfo] at h
  cases hb : ProtocalHead.ofBytes b with
  | error e =>
    rw [hb] at h
    cases h
  | ok head =>
    rw [hb] at h
    change (stringOf oj b getSize head.len.toInt >>= _) = _ at h
    rw [stringOf] at h
    split at h <;> cases h

theorem run_concat (oj : OrgJson) (front : List JavaBytes) (datagram : JavaBytes) :
    run oj (front ++ [datagram]) = step oj (run oj front) datagram := by
  rw [JavaDaemon.run, List.foldl_append]
  rfl

theorem run_provider_induction {datagrams : List JavaBytes} {P : ServiceInfo → Prop}
    (h : ∀ provider b, Handles oj datagrams provider b → Accepted .registerService b →
      ∀ info, getServiceInfo oj b = .ok info → P info) (front : List JavaBytes)
    (hf : front <+: datagrams) : ∀ info ∈ (run oj front).provider, P info := by
  induction front using List.reverseRecOn with
  | nil => exact fun info hi => absurd hi List.not_mem_nil
  | append_singleton front datagram ih =>
    have ih := ih ((List.prefix_append front [datagram]).trans hf)
    intro info hi
    rw [run_concat] at hi
    by_cases hr : (run oj front).running = true
    · rw [step_running oj hr] at hi
      rcases handle_provider hi with hi | ⟨ha, hinfo⟩
      · exact ih info hi
      · exact h _ _ ⟨front, datagram, hf, hr, rfl, rfl⟩ ha info hinfo
    · rw [step, if_neg hr] at hi
      exact ih info hi

/-- The daemon rejects incomplete registrations only where it gets none: the first one
is stored, with whatever names were read before the missing member. -/
theorem rejectsIncomplete_iff (doc : Documented oj) (datagrams : List JavaBytes) :
    RejectsIncomplete oj datagrams ↔
      ∀ provider b, Handles oj datagrams provider b → ¬ IncompleteRegister oj b := by
  constructor
  · rintro h provider b hb hi
    have hb' := hb
    obtain ⟨front, datagram, hf, -, rfl, -⟩ := hb'
    have hn := h.named front ((List.prefix_append front [datagram]).trans hf)
    obtain ⟨pkt, hp, hs⟩ := incomplete_answered doc hn hi
    exact (h.rejects _ b hb hi).2 pkt hp hs
  · intro h
    have hnamed : ∀ front, front <+: datagrams → ∀ info ∈ (run oj front).provider, Named info := by
      refine run_provider_induction fun provider b hb ha info hinfo => ?_
      rcases fullyDecodes_or_incomplete hinfo with hd | hi
      · obtain ⟨i, rfl⟩ := hd.named
        exact ⟨by rw [i.hasDev]; exact Option.some_ne_none _,
          by rw [i.hasName]; exact Option.some_ne_none _⟩
      · exact absurd ⟨ha, hi⟩ (h provider b hb)
    refine ⟨fun provider b hb hi => absurd hi (h provider b hb), hnamed, fun provider b hb ht => ?_⟩
    obtain ⟨front, datagram, hf, -, rfl, -⟩ := hb
    have hn := hnamed front ((List.prefix_append front [datagram]).trans hf)
    rcases handle_thrown ht with ⟨_, -, he⟩ | ⟨-, he⟩ | hc
    · cases he
    · exact getServiceInfo_error he rfl
    · rcases hc.entry doc with ⟨-, info, hi, hno⟩ | ⟨he, -⟩
      · exact hno (hn info hi)
      · exact he rfl

end Rejection

section Exceptions
variable {oj : OrgJson} {b : JavaBytes}

/-- The checksum is right, and the action is no sentinel. -/
def Accepts (b : JavaBytes) : Prop := SumRight b ∧ shortAt 1 b ≠ infoTypeActionInvalid

/-- The decoders return, and what they fully decode goes into an answer. -/
structure ExceptionFree (oj : OrgJson) (b : JavaBytes) : Prop where
  decodes : ∃ action, decodeAction b = .ok action
  reads : ∀ action, decodeAction b = .ok action → action ≠ infoTypeActionInvalid →
    (∃ info, getServiceInfo oj b = .ok info) ∧ ∃ reason, JavaSweep.getResult oj b = .ok reason
  answers : ∀ action info, decodeAction b = .ok action → action ≠ infoTypeActionInvalid →
    FullyDecodes oj b info → ∃ pkt, getServicePkt oj info = .ok pkt

/-- The length counts no more than the payload has and, where the packet is accepted, is
not negative; and the members of an accepted payload print into a packet again. -/
structure WellCounted (oj : OrgJson) (b : JavaBytes) : Prop where
  fits : LenFits b
  counts : Accepts b → 0 ≤ lenOf b
  prints : Accepts b → ∀ json, oj.newJson (oj.newString (counted b)) = some json →
    MembersPresent oj json → Prints oj (readMembers oj json)

theorem getResult_eq (oj : OrgJson) (hb : b.length = protocalLen) (hf : LenFits b) :
    JavaSweep.getResult oj b = if lenOf b < 0 then .error .negativeArraySize
      else .ok (match oj.newJson (oj.newString (counted b)) with
        | none => []
        | some jsonObj => (oj.getString jsonObj "reason").getD []) := by
  rw [JavaSweep.getResult, ofBytes_eq (by rw [hb]; decide)]
  change (if shortAt 2 b < 0 then _ else _) = _
  have hneg : shortAt 2 b < 0 ↔ lenOf b < 0 := Int16.lt_iff_toInt_lt
  by_cases h : lenOf b < 0
  · rw [if_pos (hneg.2 h), if_pos h]
    rfl
  · have hin : ¬ (b.length : ℤ) < headLen + lenOf b := by
      unfold LenFits at hf
      rw [hb]
      simp only [payloadLen, packetLen, headLen, protocalLen] at hf ⊢
      omega
    rw [if_neg fun h' => h (hneg.1 h'), if_neg h]
    change (if (b.length : ℤ) < headLen + lenOf b then _ else _) = _
    rw [if_neg hin]
    change ((stringOf oj b headLen (lenOf b)).mapError _ >>= _) = _
    rw [stringOf, if_neg (not_or.2 ⟨h, hin⟩)]
    rfl

theorem payloadText_eq (oj : OrgJson) (hb : b.length = protocalLen) (hf : LenFits b)
    (h : 0 ≤ lenOf b) : payloadText oj b = .ok (oj.newString (counted b)) := by
  rw [payloadText, ofBytes_eq (by rw [hb]; decide)]
  change stringOf oj b headLen (lenOf b) = _
  rw [stringOf, if_neg]
  · rfl
  · unfold LenFits at hf
    rw [hb]
    simp only [payloadLen, packetLen, headLen, protocalLen] at hf ⊢
    omega

/-- Accepted buffers are those whose action is returned. -/
theorem accepts_iff (hb : b.length = protocalLen) (hf : LenFits b) : Accepts b ↔
    ∃ action, decodeAction b = .ok action ∧ action ≠ infoTypeActionInvalid := by
  rw [decodeAction_eq hb, if_pos hf]
  by_cases hs : SumRight b
  · rw [if_pos hs]
    exact ⟨fun h => ⟨_, rfl, h.2⟩, fun ⟨_, he, hne⟩ => ⟨hs, Except.ok.inj he ▸ hne⟩⟩
  · rw [if_neg hs]
    exact ⟨fun h => absurd h.1 hs, fun ⟨_, he, hne⟩ => absurd (Except.ok.inj he).symm hne⟩

/-- Handling a buffer is free of exceptions exactly when it is well counted. -/
theorem exceptionFree_iff_wellCounted (oj : OrgJson) (hb : b.length = protocalLen) :
    ExceptionFree oj b ↔ WellCounted oj b := by
  constructor
  · intro h
    obtain ⟨action, ha⟩ := h.decodes
    have hf : LenFits b := by
      by_contra hf
      rw [decodeAction_eq hb, if_neg hf] at ha
      cases ha
    have hcount : Accepts b → 0 ≤ lenOf b := by
      intro hacc
      obtain ⟨action, ha, hne⟩ := (accepts_iff hb hf).1 hacc
      obtain ⟨⟨info, hi⟩, -⟩ := h.reads action ha hne
      by_contra hneg
      rw [getServiceInfo_eq oj hb hf, if_pos (Int.not_le.1 hneg)] at hi
      cases hi
    refine ⟨hf, hcount, fun hacc json hj hm => ?_⟩
    obtain ⟨action, ha, hne⟩ := (accepts_iff hb hf).1 hacc
    exact (getServicePkt_iff oj _).1 (h.answers action _ ha hne
      ⟨_, json, payloadText_eq oj hb hf (hcount hacc), hj, hm, rfl⟩)
  · intro h
    have hacc : ∀ action, decodeAction b = .ok action → action ≠ infoTypeActionInvalid →
        Accepts b := fun action ha hne => (accepts_iff hb h.fits).2 ⟨action, ha, hne⟩
    refine ⟨?_, fun action ha hne => ?_, fun action info ha hne hd => ?_⟩
    · rw [decodeAction_eq hb, if_pos h.fits]
      exact ⟨_, rfl⟩
    · have hneg := Int.not_lt.2 (h.counts (hacc action ha hne))
      rw [getServiceInfo_eq oj hb h.fits, getResult_eq oj hb h.fits, if_neg hneg, if_neg hneg]
      exact ⟨⟨_, rfl⟩, _, rfl⟩
    · obtain ⟨text, json, ht, hj, hm, rfl⟩ := hd
      have hacc := hacc action ha hne
      rw [payloadText_eq oj hb h.fits (h.counts hacc)] at ht
      obtain rfl := Except.ok.inj ht
      exact (getServicePkt_iff oj _).2 (h.prints hacc json hj hm)

theorem handles_length {datagrams : List JavaBytes} {provider : ServiceInfoList}
    (h : Handles oj datagrams provider b) : b.length = protocalLen := by
  obtain ⟨front, datagram, -, -, -, rfl⟩ := h
  exact (receive_length datagram _).trans (run_settled oj front).length

/-- A loop that gets well-counted buffers, and no registration whose info is cut short and
does not print, is not ended by an index. -/
theorem loop_unindexed (doc : Documented oj) {datagrams : List JavaBytes}
    (h : ∀ provider b, Handles oj datagrams provider b → WellCounted oj b ∧
      (IncompleteRegister oj b → ∀ info, getServiceInfo oj b = .ok info → Prints oj info))
    {provider : ServiceInfoList} (hb : Handles oj datagrams provider b) {e : Thrown}
    (he : (handle oj provider b).sending.thrown = some e) : e = .nullPointer := by
  have hprints : ∀ front, front <+: datagrams → ∀ info ∈ (run oj front).provider,
      Prints oj info := by
    refine run_provider_induction fun provider b hb ha info hinfo => ?_
    obtain ⟨hw, hshort⟩ := h provider b hb
    have hl := handles_length hb
    rcases fullyDecodes_or_incomplete hinfo with hd | hi
    · exact (getServicePkt_iff oj info).1 (((exceptionFree_iff_wellCounted oj hl).2 hw).answers _ info
        ha (by decide) hd)
    · exact hshort ⟨ha, hi⟩ info hinfo
  obtain ⟨hw, -⟩ := h provider b hb
  have hfree := (exceptionFree_iff_wellCounted oj (handles_length hb)).2 hw
  rcases handle_thrown he with ⟨e', hd, -⟩ | ⟨⟨action, ha⟩, hd⟩ | hc
  · obtain ⟨action, ha⟩ := hfree.decodes
    cases ha.symm.trans hd
  · obtain ⟨⟨info, hi⟩, -⟩ := hfree.reads _ ha (infoType_ne_invalid action)
    cases hi.symm.trans hd
  · rcases hc.entry doc with ⟨he, -⟩ | ⟨-, info, hi, hno⟩
    · exact he
    · obtain ⟨front, datagram, hf, -, rfl, -⟩ := hb
      exact absurd (hprints front ((List.prefix_append front [datagram]).trans hf) info hi) hno

/-- An action the loop has a case for, over a length that is not well counted. -/
def Miscounted (b : JavaBytes) : Prop :=
  ¬ LenFits b ∨ (lenOf b < 0 ∧ ∃ action, caseOf (infoType action) = some action ∧ Accepted action b)

theorem miscounted_ends (oj : OrgJson) (provider : ServiceInfoList) (hb : b.length = protocalLen)
    (h : Miscounted b) : ∃ e, (handle oj provider b).sending.thrown = some e ∧ e ≠ .nullPointer := by
  by_cases hf : LenFits b
  · obtain ⟨hneg, action, hc, ha⟩ := h.resolve_left fun h => h hf
    have hi := getServiceInfo_eq oj hb hf
    rw [if_pos hneg] at hi
    refine ⟨.stringIndexOutOfBounds, ?_, Thrown.noConfusion⟩
    rw [handle, ha]
    simp only [hc, hi]
  · rw [handle_overlong oj provider hb hf]
    exact ⟨_, rfl, Thrown.noConfusion⟩

/-- Handling a buffer is free of exceptions exactly when it is well counted. A datagram
ends the loop by an index where a buffer is miscounted, and only where one is not well
counted or cuts an info short that does not print. -/
theorem exceptionFree_iff (doc : Documented oj) :
    (∀ b : JavaBytes, b.length = protocalLen → (ExceptionFree oj b ↔ WellCounted oj b)) ∧
    ∀ datagrams, (∀ provider b, Handles oj datagrams provider b → Miscounted b →
        ∃ e, (handle oj provider b).sending.thrown = some e ∧ e ≠ .nullPointer) ∧
      ((∀ provider b, Handles oj datagrams provider b → WellCounted oj b ∧
          (IncompleteRegister oj b → ∀ info, getServiceInfo oj b = .ok info → Prints oj info)) →
        ∀ provider b e, Handles oj datagrams provider b →
          (handle oj provider b).sending.thrown = some e → e = .nullPointer) :=
  ⟨fun _ hb => exceptionFree_iff_wellCounted oj hb,
    fun _ => ⟨fun provider _ hb hm => miscounted_ends oj provider (handles_length hb) hm,
      fun h _ _ _ hb he => loop_unindexed doc h hb he⟩⟩

end Exceptions

section Examples

theorem bareRegister_incomplete : IncompleteRegister textJson (barePacket 0) := by
  refine ⟨decodeAction_barePacket 0, textJson.newString (counted (barePacket 0)), ?_, ?_⟩
  · exact payloadText_eq textJson (barePacket_length 0) (fits_barePacket 0)
      (lenOf_barePacket 0).ge
  · rw [counted_of_zero (lenOf_barePacket 0)]
    have hnone : textJson.newJson (textJson.newString []) = none := rfl
    exact fun json hj => absurd (hnone.symm.trans hj) (Option.some_ne_none json).symm

/-- A registration without a payload, as the first datagram. -/
theorem bareRegister_handled : Handles textJson [barePacket 0] [] (barePacket 0) := by
  refine ⟨[], barePacket 0, List.prefix_rfl, rfl, rfl, ?_⟩
  have hl : init.buffer.length = protocalLen := init_settled.length
  change barePacket 0 = receive (barePacket 0) init.buffer
  rw [receive_long (hl.trans (barePacket_length 0).symm).le, hl, ← barePacket_length 0,
    List.take_length]

theorem rejectsIncomplete_iff_bareRegister : RejectsIncomplete textJson [barePacket 0] ↔
    ∀ provider b, Handles textJson [barePacket 0] provider b → ¬ IncompleteRegister textJson b :=
  rejectsIncomplete_iff textJson_documented [barePacket 0]

/-- It is answered with success and leaves an entry without names. -/
theorem bareRegister_stored : Handles textJson [barePacket 0] [] (barePacket 0) ∧
    IncompleteRegister textJson (barePacket 0) ∧
    (∃ pkt ∈ (handle textJson [] (barePacket 0)).sending.sent, Accepted .actionSucc pkt) ∧
    (handle textJson [] (barePacket 0)).provider = [.fresh] := by
  refine ⟨bareRegister_handled, bareRegister_incomplete, incomplete_answered textJson_documented
    (fun _ hi => absurd hi List.not_mem_nil) bareRegister_incomplete, ?_⟩
  have ha := decodeAction_barePacket 0
  have hi := getServiceInfo_eq textJson (barePacket_length 0) (fits_barePacket 0)
  rw [counted_of_zero (lenOf_barePacket 0), if_neg (Int.not_lt.2 (lenOf_barePacket 0).ge)] at hi
  rw [handle, ha, hi]
  rfl

/-- A header that counts 32767 bytes. -/
def overlongPacket : JavaBytes := [-18, -1, 0, 0, -1, 127, 0, 0] ++ List.replicate payloadLen 0

theorem overlongPacket_length : overlongPacket.length = protocalLen := by
  rw [overlongPacket, List.length_append, List.length_replicate]
  rfl

theorem exceptionFree_iff_overlong :
    ExceptionFree textJson overlongPacket ↔ WellCounted textJson overlongPacket :=
  (exceptionFree_iff textJson_documented).1 overlongPacket overlongPacket_length

theorem overlongPacket_throws :
    decodeAction overlongPacket = .error .arrayIndexOutOfBounds ∧
      ¬ ExceptionFree textJson overlongPacket := by
  have hf : ¬ LenFits overlongPacket := by
    have hlen : lenOf overlongPacket = 32767 := by
      change (shortOf 127 (-1)).toInt = 32767
      decide
    rw [LenFits, hlen]
    decide
  have ha := decodeAction_eq overlongPacket_length
  rw [if_neg hf] at ha
  refine ⟨ha, fun h => ?_⟩
  obtain ⟨action, hok⟩ := h.decodes
  cases ha.symm.trans hok

end Examples

end MiniServiceDiscover.JavaDatagrams
