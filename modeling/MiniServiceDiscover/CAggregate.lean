import MiniServiceDiscover.CCheckResult
import MiniServiceDiscover.CMemory

set_option autoImplicit false

/-! What an inquiry of the C client collects from the replies that it reads. -/
namespace MiniServiceDiscover.CAggregate
open CProtocal CList CListRefinement CSweep CCheckResult KeyedList StepRuns WireFormat

section Replies
variable (cj : CJson)

/-- The info of an accepted success reply that parses. -/
def service (pkt : List UInt8) : Option ServiceInfo :=
  match decodeAction pkt, getServiceInfo cj pkt with
  | .ok action, .ok info => if action = Action.actionSucc.code.toNat then info else none
  | _, _ => none

def services (pkts : List (List UInt8)) : List ServiceInfo := pkts.filterMap (service cj)

/-- A reply of full length that has both names when it reports a service. -/
structure Proper (pkt : List UInt8) : Prop where
  length : pkt.length = packetLen
  named : ∀ info, service cj pkt = some info →
    (∃ d, info.deviceName = some d) ∧ ∃ s, info.serviceName = some s

/-- The header counts no more bytes than the payload has, and a text that is parsed
ends in it. -/
structure InBounds (pkt : List UInt8) : Prop where
  counted : (field 2 pkt).toNat ≤ payloadLen
  terminated : SumRight pkt → field 1 pkt = Action.actionSucc.code ∨
    field 1 pkt = Action.actionFail.code → (0 : UInt8) ∈ payload pkt

/-- The list holds the last reply about every pair of names, in the order of these replies. -/
structure Aggregates (pkts : List (List UInt8)) (s : State) : Prop where
  defined : ∀ e, s.fault ≠ some (.codec e)
  list : ReadsAs s.list (lasts nameKey (services cj pkts))

/-- One entry for every pair of names, the last that was reported, and no other order. -/
theorem Aggregates.entries {cj : CJson} {pkts : List (List UInt8)} {s : State}
    (h : Aggregates cj pkts s) :
    ∃ xs, ReadsAs s.list xs ∧ KeyedList.Unique nameKey xs ∧ xs.Sublist (services cj pkts) ∧
      ∀ info, info ∈ xs ↔ ∃ front back, services cj pkts = front ++ info :: back ∧
        ¬ Present nameKey (nameKey info) back := by
  refine ⟨_, h.list, ?_, ?_, fun info => ?_⟩
  · exact lasts_unique nameKey _
  · exact lasts_sublist nameKey _
  · exact mem_lasts_iff nameKey _ info

end Replies

section CheckResult
variable {cj : CJson} {pkt : List UInt8} {s : State} {xs : List ServiceInfo}

theorem service_other {action : ℤ} (h : decodeAction pkt = .ok action)
    (hne : action ≠ Action.actionSucc.code.toNat) : service cj pkt = none := by
  rw [service, h]
  cases getServiceInfo cj pkt with
  | error e => rfl
  | ok info => exact if_neg hne

theorem service_succ {info : Option ServiceInfo}
    (h : decodeAction pkt = .ok (Action.actionSucc.code.toNat : ℤ))
    (hi : getServiceInfo cj pkt = .ok info) : service cj pkt = info := by
  rw [service, h, hi]
  exact if_pos rfl

theorem stringAt_ok (h : (0 : UInt8) ∈ payload pkt) : ∃ text, stringAt (payload pkt) = .ok text :=
  ⟨_, if_pos h⟩

/-- What a reply adds to the list: nothing, or its info behind the others. -/
def after (xs : List ServiceInfo) : Option ServiceInfo → List ServiceInfo
  | none => xs
  | some info => putBack nameKey info xs

theorem checkResult_succ (hc : isInquiry s.call = true) (hp : Proper cj pkt) (h : Stored s.list xs)
    (ha : decodeAction pkt = .ok (Action.actionSucc.code.toNat : ℤ)) (h0 : (0 : UInt8) ∈ payload pkt) :
    ∃ list, checkResult cj s pkt = .ok { s with list := list } ∧
      Stored list (after xs (service cj pkt)) := by
  obtain ⟨text, ht⟩ := stringAt_ok h0
  obtain ⟨info, hi⟩ : ∃ info, getServiceInfo cj pkt = .ok info := by
    rw [getServiceInfo, ht]
    exact ⟨_, rfl⟩
  rw [service_succ ha hi, checkResult_inquiry hc ha, hi]
  cases info with
  | none => exact ⟨s.list, rfl, h⟩
  | some info =>
    obtain ⟨⟨d, hd⟩, ⟨n, hn⟩⟩ := hp.named info (service_succ ha hi)
    obtain ⟨list, hl, hstored⟩ := h.add (h.length_le_top.trans (Nat.le_succ _)) ⟨info, d, n, hd, hn⟩
    have hl : listAdd (s.list.top + 1) s.list info = .ok list := hl
    refine ⟨list, ?_, hstored⟩
    change (listAdd (s.list.top + 1) s.list info).map _ = _
    rw [hl]
    rfl

theorem checkResult_fail (h : Stored s.list xs)
    (ha : decodeAction pkt = .ok (Action.actionFail.code.toNat : ℤ)) (h0 : (0 : UInt8) ∈ payload pkt) :
    ∃ list, checkResult cj s pkt = .ok { s with list := list } ∧
      Stored list (after xs (service cj pkt)) := by
  obtain ⟨text, ht⟩ := stringAt_ok h0
  obtain ⟨res, hr⟩ : ∃ res, getResult cj pkt = .ok res := by
    rw [getResult, ht]
    split
    · exact ⟨_, rfl⟩
    · exact ⟨_, rfl⟩
  refine ⟨s.list, ?_, by rwa [service_other ha (by decide)]⟩
  rw [checkResult_failed ha, hr]
  rfl

theorem checkResult_other {action : ℤ} (h : Stored s.list xs) (ha : decodeAction pkt = .ok action)
    (hsucc : action ≠ Action.actionSucc.code.toNat) (hfail : action ≠ Action.actionFail.code.toNat) :
    ∃ list, checkResult cj s pkt = .ok { s with list := list } ∧
      Stored list (after xs (service cj pkt)) := by
  exact ⟨s.list, checkResult_ignored ha hsucc hfail, by rwa [service_other ha hsucc]⟩

theorem decodeAction_counted (hp : Proper cj pkt) (hb : (field 2 pkt).toNat ≤ payloadLen) :
    decodeAction pkt =
      .ok (if SumRight pkt then ((field 1 pkt).toNat : ℤ) else infoTypeActionInvalid) :=
  decodeAction_fits ((payload_length hp.length).symm ▸ hb)

/-- One pass of the loop, for a reply that is read within its buffer. -/
theorem checkResult_spec (hc : isInquiry s.call = true) (hp : Proper cj pkt) (hb : InBounds pkt)
    (h : Stored s.list xs) : ∃ list, checkResult cj s pkt = .ok { s with list := list } ∧
      Stored list (after xs (service cj pkt)) := by
  have ha := decodeAction_counted hp hb.counted
  by_cases hsum : SumRight pkt
  · rw [if_pos hsum] at ha
    by_cases hsucc : field 1 pkt = Action.actionSucc.code
    · exact checkResult_succ hc hp h (hsucc ▸ ha) (hb.terminated hsum (.inl hsucc))
    · by_cases hfail : field 1 pkt = Action.actionFail.code
      · exact checkResult_fail h (hfail ▸ ha) (hb.terminated hsum (.inr hfail))
      · refine checkResult_other h ha ?_ ?_
        · exact fun he => hsucc (UInt16.toNat_inj.1 (Int.natCast_inj.1 he))
        · exact fun he => hfail (UInt16.toNat_inj.1 (Int.natCast_inj.1 he))
  · rw [if_neg hsum] at ha
    exact checkResult_other h ha (by decide) (by decide)

theorem checkResult_outside (hc : isInquiry s.call = true) (hp : Proper cj pkt)
    (hb : ¬ InBounds pkt) : ∃ e, checkResult cj s pkt = .error e := by
  by_cases hcount : (field 2 pkt).toNat ≤ payloadLen
  · have hterm : ¬ (SumRight pkt → field 1 pkt = Action.actionSucc.code ∨
        field 1 pkt = Action.actionFail.code → (0 : UInt8) ∈ payload pkt) :=
      fun ht => hb ⟨hcount, ht⟩
    push Not at hterm
    obtain ⟨hsum, hcase, h0⟩ := hterm
    have ha := decodeAction_counted hp hcount
    rw [if_pos hsum] at ha
    have ht : stringAt (payload pkt) = .error .unterminated := if_neg h0
    refine ⟨.unterminated, ?_⟩
    rcases hcase with h1 | h1
    · rw [h1] at ha
      rw [checkResult_inquiry hc ha, getServiceInfo, ht]
      rfl
    · rw [h1] at ha
      rw [checkResult_failed ha, getResult, if_pos h1, ht]
      rfl
  · refine ⟨.invalidPointer, ?_⟩
    rw [checkResult, decodeAction, checksumRight, if_neg (by rwa [payload_length hp.length])]
    rfl

end CheckResult

section Runs
variable {cj : CJson} {s u : State}

/-- Every reply so far was read in bounds and its info is in the list, or the last one
was not. -/
structure Collected (cj : CJson) (pkts : List (List UInt8)) (s : State) : Prop where
  inquiry : isInquiry s.call = true
  sound : ((∀ e, s.fault ≠ some (.codec e)) ∧ (∀ pkt ∈ pkts, InBounds pkt) ∧
      Stored s.list (lasts nameKey (services cj pkts))) ∨
    ((∃ e, s.fault = some (.codec e)) ∧ ∃ pkt ∈ pkts, ¬ InBounds pkt)

theorem lasts_services_concat (cj : CJson) (pkts : List (List UInt8)) (pkt : List UInt8) :
    lasts nameKey (services cj (pkts ++ [pkt])) =
      after (lasts nameKey (services cj pkts)) (service cj pkt) := by
  rw [services, List.filterMap_append, services]
  cases h : service cj pkt with
  | none => rw [List.filterMap_cons_none h, List.filterMap_nil, List.append_nil, after]
  | some info => rw [List.filterMap_cons_some h, List.filterMap_nil, lasts_concat, after]

theorem quiet_collected {pkts : List (List UInt8)} {a : Act} (h : Collected cj pkts s)
    (hf : s.fault = none) (hq : Quiet s u a) : Collected cj pkts u := by
  rcases h.sound with ⟨-, hb, hl⟩ | ⟨⟨e, he⟩, -⟩
  · exact ⟨hq.call ▸ h.inquiry, .inl ⟨hq.defined, hb, hq.list ▸ hl⟩⟩
  · cases hf.symm.trans he

theorem read_collected {pkts : List (List UInt8)} {pkt : List UInt8} (h : Collected cj pkts s)
    (hf : s.fault = none) (hp : Proper cj pkt) :
    Collected cj (pkts ++ [pkt]) (CSweep.read cj s (some pkt)) := by
  rcases h.sound with ⟨hd, hbounds, hl⟩ | ⟨⟨e, he⟩, -⟩
  · by_cases hb : InBounds pkt
    · obtain ⟨list, hcheck, hstored⟩ :=
        checkResult_spec (s := { s with readEnd := true }) h.inquiry hp hb hl
      rw [CSweep.read]
      simp only [hcheck]
      refine ⟨h.inquiry, .inl ⟨hd, ?_, ?_⟩⟩
      · rw [List.forall_mem_append]
        exact ⟨hbounds, List.forall_mem_singleton.2 hb⟩
      · rwa [lasts_services_concat]
    · obtain ⟨e, he⟩ : ∃ e, checkResult cj { s with readEnd := true } pkt = .error e :=
        checkResult_outside h.inquiry hp hb
      rw [CSweep.read]
      simp only [he]
      exact ⟨h.inquiry, .inr ⟨⟨e, rfl⟩, pkt, List.mem_append_right _ (List.mem_singleton_self pkt),
        hb⟩⟩
  · cases hf.symm.trans he

/-- From the entry of `check_result`, along every run over proper replies. -/
theorem run_collected {e : State} {acts : List Act} (hc : isInquiry e.call = true)
    (entry : e.pc = .getRecPkt)
    (run : Runs (CSweep.step cj) (fun _ _ => True) e (.getRecPkt true :: acts) s)
    (proper : ∀ pkt ∈ replies acts, Proper cj pkt) : Collected cj (replies acts) s := by
  refine run_replies entry run
    (fun pkts s => (∀ pkt ∈ pkts, Proper cj pkt) → Collected cj pkts s) ?_ ?_ ?_ proper
  · intro hf _
    have hdefined : ∀ c, (getRecPkt e true).fault ≠ some (.codec c) := by
      intro c hcodec
      cases hf.symm.trans hcodec
    exact ⟨hc, .inl ⟨hdefined, fun _ hm => absurd hm List.not_mem_nil, initList_stored⟩⟩
  · exact fun pkts s u a h hf hq hproper => quiet_collected (h hproper) hf hq
  · intro pkts s pkt h hf hproper
    rw [List.forall_mem_append] at hproper
    exact read_collected (h hproper.1) hf (hproper.2 pkt (List.mem_singleton_self pkt))

end Runs

/-- Exactly when all replies are read within their buffers, the list of an inquiry holds
the last success reply about every pair of names, in the order of these replies. Where
no two of them are about the same pair, the order of arrival does not change the set. -/
theorem aggregates_iff (cj : CJson) {e s : State} {acts : List Act}
    (inquiry : isInquiry e.call = true) (entry : e.pc = .getRecPkt)
    (run : Runs (CSweep.step cj) (fun _ _ => True) e (.getRecPkt true :: acts) s)
    (proper : ∀ pkt ∈ replies acts, Proper cj pkt) :
    (Aggregates cj (replies acts) s ↔ ∀ pkt ∈ replies acts, InBounds pkt) ∧
    ((∀ pkt ∈ replies acts, InBounds pkt) → KeyedList.Unique nameKey (services cj (replies acts)) →
      ∀ (e' s' : State) (acts' : List Act), isInquiry e'.call = true → e'.pc = .getRecPkt →
        Runs (CSweep.step cj) (fun _ _ => True) e' (.getRecPkt true :: acts') s' →
        (replies acts').Perm (replies acts) →
          ∃ xs xs', ReadsAs s.list xs ∧ ReadsAs s'.list xs' ∧ xs'.Perm xs) := by
  have hcol := run_collected inquiry entry run proper
  refine ⟨⟨fun h => ?_, fun h => ?_⟩, fun hbounds hkeys e' s' acts' hc' hp' run' hperm => ?_⟩
  · rcases hcol.sound with ⟨-, hb, -⟩ | ⟨⟨e, he⟩, -⟩
    · exact hb
    · exact absurd he (h.defined e)
  · rcases hcol.sound with ⟨hd, -, hl⟩ | ⟨-, pkt, hm, hb⟩
    · exact ⟨hd, hl.readsAs⟩
    · exact absurd (h pkt hm) hb
  · have hcol' := run_collected hc' hp' run' fun pkt hm => proper pkt (hperm.subset hm)
    have hservices : (services cj (replies acts')).Perm (services cj (replies acts)) :=
      hperm.filterMap (service cj)
    have hkeys' : KeyedList.Unique nameKey (services cj (replies acts')) :=
      (hservices.map nameKey).nodup_iff.2 hkeys
    rcases hcol.sound with ⟨-, -, hl⟩ | ⟨-, pkt, hm, hb⟩
    · rcases hcol'.sound with ⟨-, -, hl'⟩ | ⟨-, pkt, hm, hb⟩
      · rw [lasts_eq_self nameKey hkeys] at hl
        rw [lasts_eq_self nameKey hkeys'] at hl'
        exact ⟨_, _, hl.readsAs, hl'.readsAs, hservices⟩
      · exact absurd (hbounds pkt (hperm.subset hm)) hb
    · exact absurd (hbounds pkt hm) hb

section Examples
open CRoundTrip CJsonText CMemory

/-- An inquiry for `box1` whose thread has been created. -/
def entry (data : List UInt8) : State :=
  { init (.inquiryService (some box.str)) with
    pc := .getRecPkt, client := .allocated, pkt := .allocated, data := data, created := true
    task := some .fresh }

theorem entry_reads (data pkt : List UInt8) :
    Runs (CSweep.step textCJson) (fun _ _ => True) (entry data)
      [.getRecPkt true, .read (some pkt)]
      (read textCJson (getRecPkt (entry data) true) (some pkt)) :=
  .next trivial rfl (.next trivial rfl (.refl _))

theorem boxReply : ∃ pkt, getInquiryResultPkt textCJson boxInfo = .ok pkt ∧
    pkt.length = packetLen ∧ service textCJson pkt = some boxInfo := by
  have hl := print_length box box box box 6666 textCJson_documented
  have hfill := fillPkt_ok textCJson Action.actionSucc.code hl.le
  obtain ⟨pkt, hpkt, -, haction, hinfo⟩ :=
    (fillPkt_roundTrips_iff box box box box 6666 textCJson_documented .actionSucc).2 (by decide)
  refine ⟨pkt, (getInquiryResultPkt_text box box box box 6666).trans hpkt, ?_,
    service_succ haction hinfo⟩
  obtain rfl := Except.ok.inj (hfill.symm.trans hpkt)
  exact packet_length _ _ _ _ _

theorem aggregates_iff_boxReply : ∃ pkt, getInquiryResultPkt textCJson boxInfo = .ok pkt ∧
    (Aggregates textCJson (replies [.read (some pkt)])
      (read textCJson (getRecPkt (entry []) true) (some pkt)) ↔
        ∀ p ∈ replies [.read (some pkt)], InBounds p) := by
  obtain ⟨pkt, hpkt, hlen, hservice⟩ := boxReply
  refine ⟨pkt, hpkt, (aggregates_iff textCJson (e := entry []) rfl rfl (entry_reads [] pkt) ?_).1⟩
  refine List.forall_mem_singleton.2 ⟨hlen, fun info hi => ?_⟩
  obtain rfl := Option.some.inj (hservice.symm.trans hi)
  exact ⟨⟨_, rfl⟩, ⟨_, rfl⟩⟩

theorem entry_reached {data : List UInt8}
    (hd : CProtocal.getInquiryPkt textCJson (some box.str) = .ok data) :
    Runs (CSweep.step textCJson) (fun _ _ => True) (init (.inquiryService (some box.str)))
      [.initClient true, .getPkt true, .write true] (entry data) := by
  have hget := getPkt_built (.inquiryService (some box.str)) hd
  exact .next trivial rfl (.next trivial hget (.next trivial rfl (.refl _)))

/-- A reply of bytes `0xFF` to an inquiry: the checksum is read far behind the buffer, and
no list comes of it. -/
theorem onesReply_not_aggregated : ∃ data s,
    Runs (CSweep.step textCJson) (fun _ _ => True) (init (.inquiryService (some box.str)))
      [.initClient true, .getPkt true, .write true] (entry data) ∧
    Runs (CSweep.step textCJson) (fun _ _ => True) (entry data)
      [.getRecPkt true, .read (some (flatPacket 0xFF))] s ∧
    (∀ pkt ∈ replies [.read (some (flatPacket 0xFF))], Proper textCJson pkt) ∧
    ¬ Aggregates textCJson (replies [.read (some (flatPacket 0xFF))]) s := by
  obtain ⟨data, hd⟩ := getInquiryPkt_text textCJson_documented box
  have hlen := flatPacket_length 0xFF
  have h2 : field 2 (flatPacket 0xFF) = 0xFFFF := by
    rw [← (holds_flat 0xFF).headWord (k := 2) (by decide)]
    decide
  have hcount : ¬ (field 2 (flatPacket 0xFF)).toNat ≤ payloadLen := by
    rw [h2]
    decide
  have hdecode : CProtocal.decodeAction (flatPacket 0xFF) = .error .invalidPointer := by
    rw [CProtocal.decodeAction, CProtocal.checksumRight, if_neg (by rwa [payload_length hlen])]
    rfl
  have hproper : Proper textCJson (flatPacket 0xFF) := by
    refine ⟨hlen, fun info hi => ?_⟩
    rw [service, hdecode] at hi
    cases hi
  obtain ⟨e, he⟩ := checkResult_outside (s := { getRecPkt (entry data) true with readEnd := true })
    rfl hproper fun hb => hcount hb.counted
  refine ⟨data, _, entry_reached hd, entry_reads data _, List.forall_mem_singleton.2 hproper, ?_⟩
  intro h
  refine h.defined e ?_
  rw [CSweep.read]
  simp only [he]

end Examples

end MiniServiceDiscover.CAggregate
