import MiniServiceDiscover.CDaemon
import MiniServiceDiscover.CListRefinement
import MiniServiceDiscover.CRoundTrip

set_option autoImplicit false

/-! Completeness of an inquiry at the C daemon: the index counts every node, the
loop takes the first gap for the end. -/
namespace MiniServiceDiscover.CInquiry
open JsonText CProtocal PointerChain CList CListRefinement CDaemon WireFormat KeyedList Fallible

def named (serviceName : CString) (i : NamedInfo) : Bool := decide (i.serviceName = serviceName)

section ListGet
variable {l : ServiceInfoList} (serviceName : CString)

theorem getFrom_past {index i fuel : ℕ} {start : Option Ptr} {nodes : List Node}
    (h : Chain l.heap start (cellsOf nodes)) (hf : nodes.length ≤ fuel) (hi : index < i) :
    getFrom l (some serviceName) index fuel i start = .ok none := by
  induction nodes generalizing fuel i start with
  | nil =>
    obtain rfl : start = none := h
    cases fuel <;> rfl
  | cons c nodes ih =>
    obtain ⟨rfl, next, hcell, hrest⟩ := h
    obtain ⟨fuel, rfl⟩ := Nat.exists_eq_add_of_lt (Nat.lt_of_lt_of_le (Nat.succ_pos _) hf)
    rw [List.length_cons] at hf
    rw [Nat.zero_add, getFrom, load_ok hcell]
    change (if i = index then _ else getFrom l (some serviceName) index fuel (i + 1) next) = _
    rw [if_neg (by omega)]
    exact ih hrest (by omega) (by omega)

/-- The node at the index, if it has the name; the index counts all nodes. -/
theorem getFrom_eq {index i fuel : ℕ} {start : Option Ptr} {nodes : List Node}
    (h : Chain l.heap start (cellsOf nodes)) (hf : nodes.length ≤ fuel) (hi : i ≤ index) :
    getFrom l (some serviceName) index fuel i start =
      .ok (((infos nodes)[index - i]?.filter (named serviceName)).map NamedInfo.info) := by
  induction nodes generalizing fuel i start with
  | nil =>
    obtain rfl : start = none := h
    cases fuel <;> rfl
  | cons c nodes ih =>
    obtain ⟨rfl, next, hcell, hrest⟩ := h
    obtain ⟨fuel, rfl⟩ := Nat.exists_eq_add_of_lt (Nat.lt_of_lt_of_le (Nat.succ_pos _) hf)
    rw [List.length_cons] at hf
    rw [Nat.zero_add, getFrom, load_ok hcell]
    by_cases he : i = index
    · subst he
      change (if i = i then (strEqual c.2.info.serviceName (some serviceName) >>= fun same =>
        if same = true then pure (some c.2.info)
        else getFrom l (some serviceName) i fuel (i + 1) next) else _) = _
      rw [if_pos rfl, c.2.hasServiceName, strEqual, Nat.sub_self]
      by_cases hn : c.2.serviceName = serviceName
      · rw [decide_eq_true (by rw [hn])]
        simp only [infos, List.map_cons, List.getElem?_cons_zero]
        rw [Option.filter_some_pos (by simpa [named] using hn)]
        rfl
      · rw [decide_eq_false (by simpa using hn)]
        have hg : getFrom l (some serviceName) i fuel (i + 1) next = .ok none :=
          getFrom_past serviceName hrest (by omega) (by omega)
        simp only [infos, List.map_cons, List.getElem?_cons_zero]
        rw [Option.filter_some_neg (by simpa [named] using hn)]
        exact hg
    · change (if i = index then _ else getFrom l (some serviceName) index fuel (i + 1) next) = _
      rw [if_neg he, ih hrest (by omega) (by omega)]
      obtain ⟨k, hk⟩ := Nat.exists_eq_add_of_lt (Nat.lt_of_le_of_ne hi he)
      have h1 : index - i = (index - (i + 1)) + 1 := by omega
      rw [h1]
      rfl

theorem listGet_eq {nodes : List Node} {fuel : ℕ} (h : Represents l nodes)
    (hf : nodes.length ≤ fuel) (index : ℕ) :
    listGet fuel l (some serviceName) index =
      .ok (((infos nodes)[index]?.filter (named serviceName)).map NamedInfo.info) :=
  getFrom_eq serviceName h.chain hf (Nat.zero_le index)

end ListGet

section Replies
variable (cj : CJson) (serviceName : CString)

/-- What the inquiry loop sends over the infos that are left: it stops at the
first of another name. -/
def replies (isGetService : Bool) : List NamedInfo → Except CFault (List (List UInt8))
  | [] => if isGetService then pure [] else do
      let pkt ← getResultPkt cj false (some serviceNoFound)
      pure [pkt]
  | i :: rest =>
    if named serviceName i then do
      let pkt ← getInquiryResultPkt cj i.info
      let sent ← replies true rest
      pure (pkt :: sent)
    else if isGetService then pure [] else do
      let pkt ← getResultPkt cj false (some serviceNoFound)
      pure [pkt]

theorem inquiryFrom_eq_replies {l : ServiceInfoList} {nodes : List Node} {listFuel fuel i : ℕ}
    (h : Represents l nodes) (hl : nodes.length ≤ listFuel) (isGetService : Bool)
    (hi : i ≤ (infos nodes).length) (hf : (infos nodes).length < i + fuel) :
    inquiryFrom cj listFuel l (some serviceName) fuel i isGetService =
      replies cj serviceName isGetService ((infos nodes).drop i) := by
  induction fuel generalizing i isGetService with
  | zero => omega
  | succ fuel ih =>
    rw [inquiryFrom, listGet_eq serviceName h hl]
    rcases Nat.lt_or_ge i (infos nodes).length with hlt | hge
    · rw [List.drop_eq_getElem_cons hlt, List.getElem?_eq_getElem hlt, replies]
      by_cases hn : named serviceName (infos nodes)[i] = true
      · rw [if_pos hn, Option.filter_some_pos hn, ← ih true hlt (by omega)]
        rfl
      · rw [if_neg hn, Option.filter_some_neg (by simpa using hn)]
        rfl
    · rw [List.drop_of_length_le hge, List.getElem?_eq_none hge]
      rfl

theorem serveInquiry_eq_replies {l : ServiceInfoList} {nodes : List Node} {listFuel fuel : ℕ}
    (h : Represents l nodes) (hl : nodes.length ≤ listFuel) (hf : nodes.length < fuel) :
    serveInquiry cj listFuel fuel l (some serviceName) =
      replies cj serviceName false (infos nodes) := by
  have hlen : (infos nodes).length = nodes.length := List.length_map _
  exact inquiryFrom_eq_replies cj serviceName h hl false (Nat.zero_le _) (by omega)

/-- The packet of an info. -/
def ResultPkt (i : NamedInfo) (pkt : List UInt8) : Prop := getInquiryResultPkt cj i.info = .ok pkt

theorem replies_true_iff (registry : List NamedInfo) (sent : List (List UInt8)) :
    replies cj serviceName true registry = .ok sent ↔
      List.Forall₂ (ResultPkt cj) (registry.takeWhile (named serviceName)) sent := by
  induction registry generalizing sent with
  | nil =>
    change Except.ok [] = Except.ok sent ↔ _
    simp [eq_comm]
  | cons i rest ih =>
    rw [replies]
    by_cases hn : named serviceName i = true
    · rw [if_pos hn, List.takeWhile_cons_of_pos hn, List.forall₂_cons_left_iff]
      cases hp : getInquiryResultPkt cj i.info with
      | error e =>
        constructor
        · intro h
          cases h
        · rintro ⟨pkt, sent', hpkt, -, -⟩
          rw [ResultPkt, hp] at hpkt
          cases hpkt
      | ok pkt =>
        change (replies cj serviceName true rest >>= fun sent => pure (pkt :: sent)) = _ ↔ _
        constructor
        · intro h
          cases hr : replies cj serviceName true rest with
          | error e =>
            rw [hr] at h
            cases h
          | ok sent' =>
            rw [hr] at h
            exact ⟨pkt, sent', hp, (ih sent').1 hr, (Except.ok.inj h).symm⟩
        · rintro ⟨pkt', sent', hpkt, hsent, rfl⟩
          obtain rfl := Except.ok.inj (hp.symm.trans hpkt)
          rw [(ih sent').2 hsent]
          rfl
    · rw [if_neg hn, List.takeWhile_cons_of_neg hn]
      change Except.ok [] = Except.ok sent ↔ _
      simp [eq_comm]

theorem replies_first {registry : List NamedInfo}
    (h : registry.takeWhile (named serviceName) ≠ []) :
    replies cj serviceName false registry = replies cj serviceName true registry := by
  cases registry with
  | nil => exact absurd rfl h
  | cons i rest =>
    by_cases hn : named serviceName i = true
    · rw [replies, replies, if_pos hn, if_pos hn]
    · exact absurd (List.takeWhile_cons_of_neg hn) h

theorem replies_none {registry : List NamedInfo} (h : registry.takeWhile (named serviceName) = []) :
    replies cj serviceName false registry =
      (getResultPkt cj false (some serviceNoFound)).map fun pkt => [pkt] := by
  cases registry with
  | nil => rfl
  | cons i rest =>
    by_cases hn : named serviceName i = true
    · rw [List.takeWhile_cons_of_pos hn] at h
      cases h
    · rw [replies, if_neg hn]
      rfl

end Replies

section Packets
variable {cj : CJson}

theorem fillPkt_action {action : UInt16} {root : List (Key × Field)} {pkt : List UInt8}
    (h : fillPkt cj action root = .ok pkt) : field 1 pkt = action := by
  unfold fillPkt at h
  simp only at h
  split_ifs at h
  obtain rfl := Except.ok.inj h
  exact field_headBytes_action _ _ _ _ _

/-- The info has its four strings, they fit the local buffers, and the object
printed from them fits a packet. -/
def Encodable (cj : CJson) (i : ServiceInfo) : Prop :=
  ∃ deviceName serviceName ip info : CString, i = ⟨some deviceName, some serviceName, some ip,
      some info, i.port⟩ ∧
    deviceName.bytes.length < infoMaxLen ∧ serviceName.bytes.length < infoMaxLen ∧
    ip.bytes.length < infoMaxLen ∧ info.bytes.length < infoMaxLen ∧
    (cj.print (serviceRoot deviceName serviceName ip info i.port)).bytes.length ≤ payloadLen

theorem getInquiryResultPkt_eq_ok {i : ServiceInfo} {pkt : List UInt8} :
    getInquiryResultPkt cj i = .ok pkt ↔ ∃ deviceName serviceName ip info : CString,
      (i.deviceName = some deviceName ∧ deviceName.bytes.length < infoMaxLen) ∧
      (i.serviceName = some serviceName ∧ serviceName.bytes.length < infoMaxLen) ∧
      (i.ip = some ip ∧ ip.bytes.length < infoMaxLen) ∧
      (i.info = some info ∧ info.bytes.length < infoMaxLen) ∧
      fillPkt cj Action.actionSucc.code (serviceRoot deviceName serviceName ip info i.port) =
        .ok pkt := by
  rw [getInquiryResultPkt]
  simp only [bind_eq_ok, strncpyBuf_eq_ok]
  constructor
  · rintro ⟨d, hd, s, hs, ip, hip, info, hinfo, h⟩
    exact ⟨d, s, ip, info, hd, hs, hip, hinfo, h⟩
  · rintro ⟨d, s, ip, info, hd, hs, hip, hinfo, h⟩
    exact ⟨d, hd, s, hs, ip, hip, info, hinfo, h⟩

theorem getInquiryResultPkt_ok_iff (doc : cj.Documented) (i : ServiceInfo) :
    (∃ pkt, getInquiryResultPkt cj i = .ok pkt) ↔ Encodable cj i := by
  constructor
  · rintro ⟨pkt, hp⟩
    obtain ⟨d, s, ip, info, ⟨hd, hdl⟩, ⟨hs, hsl⟩, ⟨hip, hipl⟩, ⟨hinfo, hinfol⟩, h⟩ :=
      getInquiryResultPkt_eq_ok.1 hp
    obtain ⟨_, _, _, _, port⟩ := i
    obtain rfl := hd
    obtain rfl := hs
    obtain rfl := hip
    obtain rfl := hinfo
    refine ⟨d, s, ip, info, rfl, hdl, hsl, hipl, hinfol, ?_⟩
    by_contra hlong
    have hlen := doc.printLength (serviceRoot d s ip info port)
    rw [serviceRoot_printCost] at hlen
    have h1 := stringCost_le d
    have h2 := stringCost_le s
    have h3 := stringCost_le ip
    have h4 := stringCost_le info
    have hfew : (cj.print (serviceRoot d s ip info port)).bytes.length < 65536 := by
      unfold infoMaxLen at hdl hsl hipl hinfol
      omega
    rw [fillPkt_overflow cj _ (Nat.lt_of_not_le hlong) hfew] at h
    cases h
  · rintro ⟨d, s, ip, info, hi, hd, hs, hip, hinfo, hl⟩
    refine ⟨_, getInquiryResultPkt_eq_ok.2 ⟨d, s, ip, info, ⟨congrArg ServiceInfo.deviceName hi, hd⟩,
      ⟨congrArg ServiceInfo.serviceName hi, hs⟩, ⟨congrArg ServiceInfo.ip hi, hip⟩,
      ⟨congrArg ServiceInfo.info hi, hinfo⟩, fillPkt_ok cj _ hl⟩⟩

theorem resultPkt_action {i : NamedInfo} {pkt : List UInt8} (h : ResultPkt cj i pkt) :
    field 1 pkt = Action.actionSucc.code := by
  obtain ⟨d, s, ip, info, -, -, -, -, hf⟩ := getInquiryResultPkt_eq_ok.1 h
  exact fillPkt_action hf

theorem noFoundPkt_ok (doc : cj.Documented) :
    ∃ pkt, getResultPkt cj false (some serviceNoFound) = .ok pkt ∧
      field 1 pkt = Action.actionFail.code := by
  have hl := doc.printLength [(.reason, .string serviceNoFound)]
  have hc : printCost [(.reason, .string serviceNoFound)] ≤ payloadLen := by decide
  have hp := fillPkt_ok cj Action.actionFail.code (hl.trans hc)
  refine ⟨_, ?_, fillPkt_action hp⟩
  rw [getResultPkt, strncpyBuf_ok (by decide)]
  exact hp

end Packets

/-- The packets sent for an inquiry: one for each info of that name in list
order, or one failure. -/
structure Answered (cj : CJson) (registry : List NamedInfo) (serviceName : CString)
    (sent : List (List UInt8)) : Prop where
  services : (∃ i ∈ registry, i.serviceName = serviceName) →
    List.Forall₂ (ResultPkt cj) (registry.filter (named serviceName)) sent
  failure : (∃ pkt, getResultPkt cj false (some serviceNoFound) = .ok pkt ∧ sent = [pkt]) ↔
    ∀ i ∈ registry, i.serviceName ≠ serviceName

/-- The inquiry ends, without a fault, and is answered. -/
def Completes (cj : CJson) (l : ServiceInfoList) (registry : List NamedInfo)
    (serviceName : CString) : Prop :=
  ∃ sent, Answered cj registry serviceName sent ∧ ∀ listFuel fuel, registry.length ≤ listFuel →
    registry.length < fuel → serveInquiry cj listFuel fuel l (some serviceName) = .ok sent

section Completeness
variable {cj : CJson} {serviceName : CString} {registry : List NamedInfo}

/-- Infos that all fit a packet leave nothing that an inquiry could fault on. -/
theorem replies_ok (doc : cj.Documented) (serviceName : CString)
    (h : ∀ i ∈ registry, Encodable cj i.info) :
    ∃ sent, replies cj serviceName false registry = .ok sent := by
  by_cases hnil : registry.takeWhile (named serviceName) = []
  · obtain ⟨pkt, hno, -⟩ := noFoundPkt_ok doc
    rw [replies_none cj serviceName hnil, hno]
    exact ⟨_, rfl⟩
  · have hpkts : ∀ i ∈ registry.takeWhile (named serviceName), ∃ pkt, ResultPkt cj i pkt :=
      fun i hi => (getInquiryResultPkt_ok_iff doc i.info).2 (h i (List.takeWhile_subset _ hi))
    obtain ⟨sent, hsent⟩ := exists_forall₂_iff.2 hpkts
    rw [replies_first cj serviceName hnil]
    exact ⟨sent, (replies_true_iff cj serviceName registry sent).2 hsent⟩

theorem matchesFirst_of_answered (doc : cj.Documented) {sent : List (List UInt8)}
    (hsent : replies cj serviceName false registry = .ok sent)
    (hans : Answered cj registry serviceName sent) :
    MatchesFirst (named serviceName) registry ∧
      ∀ i ∈ registry, i.serviceName = serviceName → Encodable cj i.info := by
  obtain ⟨noFound, hno, -⟩ := noFoundPkt_ok doc
  by_cases ht : registry.takeWhile (named serviceName) = []
  · rw [replies_none cj serviceName ht, hno] at hsent
    have hnone := hans.failure.1 ⟨noFound, hno, (Except.ok.inj hsent).symm⟩
    exact ⟨matchesFirst_of_filter_nil _ (filter_key_nil_iff.2 hnone),
      fun i hi hn => absurd hn (hnone i hi)⟩
  · rw [replies_first cj serviceName ht, replies_true_iff] at hsent
    have hf : registry.filter (named serviceName) ≠ [] := fun hf =>
      ht (List.sublist_nil.1 (hf ▸ takeWhile_sublist_filter _ registry))
    have hall := hans.services (exists_key_iff.1 hf)
    refine ⟨matchesFirst_of_length_le _ (hall.length_eq.trans hsent.length_eq.symm).le, ?_⟩
    intro i hi hn
    have hmem : i ∈ registry.filter (named serviceName) :=
      List.mem_filter.2 ⟨hi, decide_eq_true hn⟩
    obtain ⟨pkt, hp⟩ := exists_forall₂_iff.1 ⟨sent, hall⟩ i hmem
    exact (getInquiryResultPkt_ok_iff doc i.info).1 ⟨pkt, hp⟩

theorem answered_of_matchesFirst (doc : cj.Documented)
    (hm : MatchesFirst (named serviceName) registry)
    (henc : ∀ i ∈ registry, i.serviceName = serviceName → Encodable cj i.info) :
    ∃ sent, replies cj serviceName false registry = .ok sent ∧
      Answered cj registry serviceName sent := by
  obtain ⟨noFound, hno, hnoAction⟩ := noFoundPkt_ok doc
  have htf := (takeWhile_eq_filter_iff (named serviceName) registry).2 hm
  by_cases hf : registry.filter (named serviceName) = []
  · refine ⟨[noFound], ?_, ?_, ?_⟩
    · rw [replies_none cj serviceName (htf.trans hf), hno]
      rfl
    · exact fun hex => absurd hf (exists_key_iff.2 hex)
    · exact ⟨fun _ => filter_key_nil_iff.1 hf, fun _ => ⟨noFound, hno, rfl⟩⟩
  · have hpkts : ∀ i ∈ registry.filter (named serviceName), ∃ pkt, ResultPkt cj i pkt := by
      intro i hi
      obtain ⟨hmem, hn⟩ := List.mem_filter.1 hi
      exact (getInquiryResultPkt_ok_iff doc i.info).2 (henc i hmem (of_decide_eq_true hn))
    obtain ⟨sent, hall⟩ := exists_forall₂_iff.2 hpkts
    have hrun : replies cj serviceName false registry = .ok sent := by
      rw [replies_first cj serviceName (htf ▸ hf), replies_true_iff, htf]
      exact hall
    refine ⟨sent, hrun, fun _ => hall, ?_, fun hnone => absurd (filter_key_nil_iff.2 hnone) hf⟩
    rintro ⟨pkt, hp, rfl⟩
    obtain rfl := Except.ok.inj (hno.symm.trans hp)
    obtain ⟨i, rest, hi⟩ := List.exists_cons_of_ne_nil hf
    rw [hi, List.forall₂_cons_left_iff] at hall
    obtain ⟨pkt, _, hpkt, -, he⟩ := hall
    have hsucc := resultPkt_action hpkt
    rw [← (List.cons.inj he).1, hnoAction] at hsucc
    cases Action.code_injective hsucc

theorem replies_answered_iff (doc : cj.Documented) :
    (∃ sent, replies cj serviceName false registry = .ok sent ∧
        Answered cj registry serviceName sent) ↔
      MatchesFirst (named serviceName) registry ∧
        ∀ i ∈ registry, i.serviceName = serviceName → Encodable cj i.info :=
  ⟨fun ⟨_, hsent, hans⟩ => matchesFirst_of_answered doc hsent hans,
    fun ⟨hm, henc⟩ => answered_of_matchesFirst doc hm henc⟩

theorem completes_iff (doc : cj.Documented) {l : ServiceInfoList} {nodes : List Node}
    (h : Represents l nodes) : Completes cj l (infos nodes) serviceName ↔
      MatchesFirst (named serviceName) (infos nodes) ∧
        ∀ i ∈ infos nodes, i.serviceName = serviceName → Encodable cj i.info := by
  have hlen : (infos nodes).length = nodes.length := List.length_map _
  rw [← replies_answered_iff doc]
  constructor
  · rintro ⟨sent, hans, hserve⟩
    have hs := hserve _ _ (Nat.le_refl _) (Nat.lt_succ_self _)
    rw [serveInquiry_eq_replies cj serviceName h hlen.ge (Nat.lt_succ_of_le hlen.ge)] at hs
    exact ⟨sent, hs, hans⟩
  · rintro ⟨sent, hs, hans⟩
    refine ⟨sent, hans, ?_⟩
    intro listFuel fuel hl hf
    rw [serveInquiry_eq_replies cj serviceName h (hlen.ge.trans hl) (hlen.ge.trans_lt hf)]
    exact hs

end Completeness

/-- For every list the calls can build, an inquiry completes if and only if no
info of another name stands before a matching one and every matching info can be
encoded. -/
theorem serveInquiry_completes_iff (cj : CJson) (doc : cj.Documented) (ops : List Op) (extra : ℕ)
    (serviceName : CString) :
    ∃ l, run (ops.length + extra) ops = .ok l ∧
      (Completes cj l (abstractRun ops) serviceName ↔
        MatchesFirst (named serviceName) (abstractRun ops) ∧
          ∀ i ∈ abstractRun ops, i.serviceName = serviceName → Encodable cj i.info) := by
  obtain ⟨l, nodes, hrun, hrep, hinfos⟩ := run_spec ops (Nat.le_add_right ops.length extra)
  exact ⟨l, hrun, hinfos ▸ completes_iff doc hrep⟩

section Examples

def playMusicName : CString := ⟨ascii "play_music", by decide⟩

def showPhotoName : CString := ⟨ascii "show_photo", by decide⟩

def boxName : CString := CRoundTrip.box.str

def service (serviceName : CString) : NamedInfo :=
  ⟨⟨some boxName, some serviceName, some .empty, some .empty, 6666⟩, boxName, serviceName, rfl, rfl⟩

def mixedOps : List Op := [.listAdd (service showPhotoName), .listAdd (service playMusicName)]

theorem serveInquiry_completes_iff_mixed : ∃ l, run (mixedOps.length + 0) mixedOps = .ok l ∧
    (Completes CJsonText.textCJson l (abstractRun mixedOps) playMusicName ↔
      MatchesFirst (named playMusicName) (abstractRun mixedOps) ∧
        ∀ i ∈ abstractRun mixedOps, i.serviceName = playMusicName →
          Encodable CJsonText.textCJson i.info) :=
  serveInquiry_completes_iff CJsonText.textCJson CJsonText.textCJson_documented mixedOps 0
    playMusicName

/-- Behind a photo service, the music service is reported as not found. -/
theorem serveInquiry_mixed : ∃ l pkt, run 2 mixedOps = .ok l ∧
    abstractRun mixedOps = [service showPhotoName, service playMusicName] ∧
    getResultPkt CJsonText.textCJson false (some serviceNoFound) = .ok pkt ∧
    serveInquiry CJsonText.textCJson 2 3 l (some playMusicName) = .ok [pkt] ∧
    ¬ Completes CJsonText.textCJson l (abstractRun mixedOps) playMusicName := by
  obtain ⟨l, nodes, hrun, hrep, hinfos⟩ :=
    run_spec mixedOps (show mixedOps.length ≤ 2 from Nat.le_refl 2)
  obtain ⟨pkt, hno, -⟩ := noFoundPkt_ok CJsonText.textCJson_documented
  have habs : abstractRun mixedOps = [service showPhotoName, service playMusicName] := rfl
  have hlen : nodes.length = 2 := by
    rw [← List.length_map (f := Prod.snd)]
    exact congrArg List.length (hinfos.trans habs)
  refine ⟨l, pkt, hrun, habs, hno, ?_, ?_⟩
  · rw [serveInquiry_eq_replies _ _ hrep hlen.le (Nat.lt_succ_of_le hlen.le), hinfos, habs,
      replies_none _ _ (List.takeWhile_cons_of_neg (by decide)), hno]
    rfl
  · rw [← hinfos, completes_iff CJsonText.textCJson_documented hrep, hinfos, habs]
    exact fun h => absurd h.1 (by decide)

end Examples

end MiniServiceDiscover.CInquiry
