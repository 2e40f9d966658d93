import MiniServiceDiscover.CInquiry

set_option autoImplicit false

/-! Null pointers in the C daemon: an info may lack any of its strings, and the
list compares what it is given. -/
namespace MiniServiceDiscover.CRegistry
open JsonText CProtocal PointerChain CList CListRefinement CDaemon CInquiry CJsonText CRoundTrip
open WordSum WireFormat KeyedList Fallible

/-- All four strings are there. -/
structure CompleteInfo (i : ServiceInfo) : Prop where
  deviceName : ∃ s, i.deviceName = some s
  serviceName : ∃ s, i.serviceName = some s
  ip : ∃ s, i.ip = some s
  info : ∃ s, i.info = some s

/-- Every node holds a complete info. -/
def CompleteList (l : ServiceInfoList) : Prop :=
  ∃ cells, Chain l.heap l.head cells ∧ ∀ c ∈ cells, ∃ i, c.2 = some i ∧ CompleteInfo i

def Holds (l : ServiceInfoList) (i : ServiceInfo) : Prop :=
  ∃ cells, Chain l.heap l.head cells ∧ ∃ p, (p, some i) ∈ cells

/-- Neither a null pointer was read nor did a loop lack passes. -/
structure NullFree {α : Type} (x : Except CFault α) : Prop where
  null : x ≠ .error .nullPointer
  fuel : x ≠ .error .outOfFuel

/-- The packet is accepted with this action, and its text parses. -/
structure Requests (cj : CJson) (pkt : List UInt8) (action : Action) (info : ServiceInfo) : Prop where
  action : decodeAction pkt = .ok (action.code.toNat : ℤ)
  info : getServiceInfo cj pkt = .ok (some info)

/-- The strings the handling of a packet needs are there: all of a registration;
of the others, those that are compared with what the list holds. -/
structure Harmless (cj : CJson) (l : ServiceInfoList) (pkt : List UInt8) : Prop where
  register : ∀ info, Requests cj pkt .registerService info → CompleteInfo info
  unregister : ∀ info, Requests cj pkt .unregisterService info → ∀ i, Holds l i →
    ∃ d, info.deviceName = some d ∧ (i.deviceName = some d → ∃ s, info.serviceName = some s)
  inquiry : ∀ info, Requests cj pkt .inquiry info → ∀ i, Holds l i →
    ∃ s, info.serviceName = some s

section Loop
variable (cj : CJson) (fuel : ℕ)

/-- The list after one packet. -/
def serve (l : ServiceInfoList) (recPkt : List UInt8) : Except CFault ServiceInfoList :=
  (serverLoop cj fuel fuel l recPkt).map Prod.snd

def serves (pkts : List (List UInt8)) : Except CFault ServiceInfoList :=
  pkts.foldlM (serve cj fuel) initList

end Loop

/-- No null pointer has been compared or copied, and the list is complete. -/
structure Sound (r : Except CFault ServiceInfoList) : Prop where
  nullFree : NullFree r
  complete : ∀ l, r = .ok l → CompleteList l

section Faults

theorem nullFree_ok {α : Type} (a : α) : NullFree (.ok a : Except CFault α) :=
  ⟨by simp, by simp⟩

theorem nullFree_error {α : Type} {e : CFault} (hnull : e ≠ .nullPointer) (hfuel : e ≠ .outOfFuel) :
    NullFree (.error e : Except CFault α) :=
  ⟨fun h => hnull (Except.error.inj h), fun h => hfuel (Except.error.inj h)⟩

theorem NullFree.bind {α β : Type} {x : Except CFault α} {f : α → Except CFault β}
    (h : NullFree x) (hf : ∀ a, x = .ok a → NullFree (f a)) : NullFree (x >>= f) := by
  cases x with
  | error e =>
    exact nullFree_error (fun he => h.null (congrArg Except.error he))
      fun he => h.fuel (congrArg Except.error he)
  | ok a => exact hf a rfl

theorem NullFree.map {α β : Type} {x : Except CFault α} (h : NullFree x) (f : α → β) :
    NullFree (x.map f) := by
  cases x with
  | error e =>
    exact nullFree_error (fun he => h.null (congrArg Except.error he))
      fun he => h.fuel (congrArg Except.error he)
  | ok a => exact nullFree_ok _

theorem strncpyBuf_nullFree (s : CString) : NullFree (strncpyBuf (some s)) := by
  rw [strncpyBuf]
  split_ifs
  · exact nullFree_ok s
  · exact nullFree_error (by simp) (by simp)

theorem fillPkt_nullFree (cj : CJson) (action : UInt16) (root : List (Key × Field)) :
    NullFree (fillPkt cj action root) := by
  unfold fillPkt
  simp only
  split_ifs
  · exact nullFree_ok _
  · exact nullFree_error (by simp) (by simp)

theorem getResultPkt_nullFree (cj : CJson) (isSucc : Bool) (reason : CString) :
    NullFree (getResultPkt cj isSucc (some reason)) :=
  (strncpyBuf_nullFree reason).bind fun _ _ => fillPkt_nullFree _ _ _

theorem getInquiryResultPkt_nullFree (cj : CJson) {i : ServiceInfo} (h : CompleteInfo i) :
    NullFree (getInquiryResultPkt cj i) := by
  obtain ⟨⟨d, hd⟩, ⟨s, hs⟩, ⟨ip, hip⟩, ⟨info, hinfo⟩⟩ := h
  rw [getInquiryResultPkt, hd, hs, hip, hinfo]
  exact (strncpyBuf_nullFree d).bind fun _ _ => (strncpyBuf_nullFree s).bind fun _ _ =>
    (strncpyBuf_nullFree ip).bind fun _ _ => (strncpyBuf_nullFree info).bind fun _ _ =>
      fillPkt_nullFree _ _ _

theorem decodeAction_nullFree (pkt : List UInt8) : NullFree (decodeAction pkt) := by
  have hc : NullFree (checksumRight pkt) := by
    rw [checksumRight]
    split_ifs
    · exact nullFree_ok _
    · exact nullFree_error (by simp) (by simp)
  exact hc.bind fun _ _ => nullFree_ok _

theorem getServiceInfo_nullFree (cj : CJson) (pkt : List UInt8) :
    NullFree (getServiceInfo cj pkt) := by
  have hs : NullFree (stringAt (payload pkt)) := by
    rw [stringAt]
    split_ifs
    · exact nullFree_ok _
    · exact nullFree_error (by simp) (by simp)
  exact hs.bind fun _ _ => nullFree_ok _

end Faults

section Nodes
variable {l : ServiceInfoList} {nodes : List Node}

def CompleteNodes (nodes : List Node) : Prop := ∀ c ∈ nodes, CompleteInfo c.2.info

theorem completeList_iff (h : Represents l nodes) : CompleteList l ↔ CompleteNodes nodes := by
  constructor
  · rintro ⟨cells, hch, hc⟩ c hm
    rw [hch.unique h.chain] at hc
    obtain ⟨i, hi, hcomplete⟩ := hc _ (List.mem_map.2 ⟨c, hm, rfl⟩)
    rwa [Option.some.inj hi]
  · intro hc
    refine ⟨cellsOf nodes, h.chain, fun c hm => ?_⟩
    obtain ⟨d, hd, rfl⟩ := List.mem_map.1 hm
    exact ⟨d.2.info, rfl, hc d hd⟩

theorem holds_iff (h : Represents l nodes) (i : ServiceInfo) :
    Holds l i ↔ ∃ c ∈ nodes, c.2.info = i := by
  constructor
  · rintro ⟨cells, hch, p, hp⟩
    rw [hch.unique h.chain] at hp
    obtain ⟨c, hc, he⟩ := List.mem_map.1 hp
    exact ⟨c, hc, Option.some.inj (Prod.mk.inj he).2⟩
  · rintro ⟨c, hc, rfl⟩
    exact ⟨cellsOf nodes, h.chain, c.1, List.mem_map.2 ⟨c, hc, rfl⟩⟩

/-- The names are there wherever the nodes ask for them. -/
def Comparable (nodes : List Node) (deviceName serviceName : CharPtr) : Prop :=
  ∀ c ∈ nodes, ∃ d, deviceName = some d ∧ (c.2.deviceName = d → ∃ s, serviceName = some s)

theorem comparable_some (nodes : List Node) (deviceName serviceName : CString) :
    Comparable nodes (some deviceName) (some serviceName) :=
  fun _ _ => ⟨deviceName, rfl, fun _ => ⟨serviceName, rfl⟩⟩

theorem sameService_noDevice (i : NamedInfo) (next : Option Ptr) (serviceName : CharPtr) :
    sameService ⟨some i.info, next⟩ none serviceName = .error .nullPointer := by
  simp only [sameService, i.hasDeviceName, strEqual]
  rfl

theorem sameService_noService (i : NamedInfo) (next : Option Ptr) (deviceName : CString) :
    sameService ⟨some i.info, next⟩ (some deviceName) none =
      if i.deviceName = deviceName then .error .nullPointer else .ok false := by
  simp only [sameService, i.hasDeviceName, i.hasServiceName, strEqual]
  by_cases h : i.deviceName = deviceName
  · rw [decide_eq_true h, if_pos h]
    rfl
  · rw [decide_eq_false h, if_neg h]
    rfl

theorem comparable_cons {c : Node} {deviceName : CString} (h : c.2.deviceName ≠ deviceName) :
    Comparable (c :: nodes) (some deviceName) none ↔ Comparable nodes (some deviceName) none :=
  ⟨fun hc x hx => hc x (List.mem_cons_of_mem c hx),
    fun hc => List.forall_mem_cons.2 ⟨⟨deviceName, rfl, fun he => absurd he h⟩, hc⟩⟩

/-- A search with a missing name passes every node or reads the null pointer. -/
theorem removeFrom_unnamed {deviceName serviceName : CharPtr} {prev start : Option Ptr} {fuel : ℕ}
    (hn : deviceName = none ∨ serviceName = none) (h : Chain l.heap start (cellsOf nodes))
    (hf : nodes.length ≤ fuel) :
    (Comparable nodes deviceName serviceName →
      removeFrom deviceName serviceName l fuel prev start = .ok (-1, l)) ∧
    (¬ Comparable nodes deviceName serviceName →
      removeFrom deviceName serviceName l fuel prev start = .error .nullPointer) := by
  induction nodes generalizing fuel prev start with
  | nil =>
    obtain rfl : start = none := h
    refine ⟨fun _ => ?_, fun hc => absurd (fun _ hm => absurd hm List.not_mem_nil) hc⟩
    cases fuel <;> rfl
  | cons c nodes ih =>
    obtain ⟨rfl, next, hcell, hrest⟩ := h
    obtain ⟨fuel, rfl⟩ := Nat.exists_eq_add_of_lt (Nat.lt_of_lt_of_le (Nat.succ_pos _) hf)
    rw [List.length_cons] at hf
    rw [Nat.zero_add, removeFrom, load_ok hcell]
    change (_ → (sameService ⟨some c.2.info, next⟩ _ _ >>= _) = _) ∧
      (_ → (sameService ⟨some c.2.info, next⟩ _ _ >>= _) = _)
    cases deviceName with
    | none =>
      rw [sameService_noDevice]
      refine ⟨fun hc => ?_, fun _ => rfl⟩
      obtain ⟨d, hd, -⟩ := hc c List.mem_cons_self
      cases hd
    | some d =>
      obtain rfl := hn.resolve_left (Option.some_ne_none d)
      rw [sameService_noService]
      by_cases hd : c.2.deviceName = d
      · rw [if_pos hd]
        refine ⟨fun hc => ?_, fun _ => rfl⟩
        obtain ⟨d', hd', hs⟩ := hc c List.mem_cons_self
        obtain ⟨s, hs⟩ := hs (hd.trans (Option.some.inj hd'))
        cases hs
      · rw [if_neg hd, comparable_cons hd]
        exact ih hrest (by omega)

theorem listRemove_unnamed {deviceName serviceName : CharPtr} {fuel : ℕ}
    (hn : deviceName = none ∨ serviceName = none) (h : Represents l nodes)
    (hf : nodes.length ≤ fuel) :
    (Comparable nodes deviceName serviceName →
      listRemove fuel l deviceName serviceName = .ok (-1, l)) ∧
    (¬ Comparable nodes deviceName serviceName →
      listRemove fuel l deviceName serviceName = .error .nullPointer) :=
  removeFrom_unnamed hn h.chain hf

/-- An info without both names that gets past the comparisons is stored. -/
theorem listAdd_unnamed {info : ServiceInfo} {fuel : ℕ}
    (hn : info.deviceName = none ∨ info.serviceName = none) (h : Represents l nodes)
    (hf : nodes.length ≤ fuel) :
    listAdd fuel l info = .error .nullPointer ∨
      ∃ l', listAdd fuel l info = .ok l' ∧ Holds l' info := by
  have hr := getNode_represents h info
  obtain ⟨hyes, hno⟩ := listRemove_unnamed hn hr hf
  by_cases hc : Comparable nodes info.deviceName info.serviceName
  · obtain ⟨l', hl, hlinked⟩ : ∃ l', linkNode (getNode l info).2 l.top = .ok l' ∧
        Linked l' (cellsOf nodes) l.top info :=
      linkNode_linked hr.shaped h.shaped.top_not_mem h.shaped.tail_ne_top
        (write_same l.heap l.top _)
    refine .inr ⟨l', ?_, _, hlinked.chain, l.top, List.mem_append_right _ (by simp)⟩
    rw [listAdd]
    rw [hyes hc]
    exact hl
  · left
    rw [listAdd]
    rw [hno hc]
    rfl

theorem not_completeList_of_holds {i : ServiceInfo} (h : Holds l i) (hi : ¬ CompleteInfo i) :
    ¬ CompleteList l := by
  rintro ⟨cells, hch, hc⟩
  obtain ⟨cells', hch', p, hp⟩ := h
  rw [hch'.unique hch] at hp
  obtain ⟨j, hj, hcomplete⟩ := hc _ hp
  exact hi (Option.some.inj hj ▸ hcomplete)

/-- `list_add` of an incomplete info reads a null pointer or leaves the list incomplete. -/
theorem listAdd_incomplete {info : ServiceInfo} {fuel : ℕ} (hi : ¬ CompleteInfo info)
    (h : Represents l nodes) (hf : nodes.length ≤ fuel) :
    listAdd fuel l info = .error .nullPointer ∨
      ∃ l', listAdd fuel l info = .ok l' ∧ ¬ CompleteList l' := by
  by_cases hn : info.deviceName = none ∨ info.serviceName = none
  · rcases listAdd_unnamed hn h hf with he | ⟨l', hl, hh⟩
    · exact .inl he
    · exact .inr ⟨l', hl, not_completeList_of_holds hh hi⟩
  · rw [not_or] at hn
    obtain ⟨d, hd⟩ := Option.ne_none_iff_exists'.1 hn.1
    obtain ⟨s, hs⟩ := Option.ne_none_iff_exists'.1 hn.2
    obtain ⟨l', hl, hr⟩ := listAdd_spec h hf ⟨info, d, s, hd, hs⟩
    refine .inr ⟨l', hl, not_completeList_of_holds ((holds_iff hr info).2 ?_) hi⟩
    exact ⟨_, List.mem_append_right _ (List.mem_singleton.2 rfl), rfl⟩

theorem listAdd_complete {info : ServiceInfo} {fuel : ℕ} (hi : CompleteInfo info)
    (h : Represents l nodes) (hc : CompleteNodes nodes) (hf : nodes.length ≤ fuel) :
    ∃ l' nodes', listAdd fuel l info = .ok l' ∧ Represents l' nodes' ∧ CompleteNodes nodes' ∧
      nodes'.length ≤ nodes.length + 1 := by
  obtain ⟨d, hd⟩ := hi.deviceName
  obtain ⟨s, hs⟩ := hi.serviceName
  obtain ⟨l', hl, hr⟩ := listAdd_spec h hf ⟨info, d, s, hd, hs⟩
  refine ⟨l', _, hl, hr, ?_, ?_⟩
  · intro c hm
    rcases List.mem_append.1 hm with hm | hm
    · exact hc c (List.mem_filter.1 hm).1
    · rw [List.mem_singleton.1 hm]
      exact hi
  · rw [List.length_append]
    exact Nat.succ_le_succ (List.length_filter_le _ _)

theorem listRemove_comparable {deviceName serviceName : CharPtr} {fuel : ℕ}
    (hk : Comparable nodes deviceName serviceName) (h : Represents l nodes)
    (hc : CompleteNodes nodes) (hf : nodes.length ≤ fuel) :
    ∃ i l' nodes', listRemove fuel l deviceName serviceName = .ok (i, l') ∧
      Represents l' nodes' ∧ CompleteNodes nodes' ∧ nodes'.length ≤ nodes.length := by
  by_cases hn : deviceName = none ∨ serviceName = none
  · exact ⟨-1, l, nodes, (listRemove_unnamed hn h hf).1 hk, h, hc, Nat.le_refl _⟩
  · rw [not_or] at hn
    obtain ⟨d, rfl⟩ := Option.ne_none_iff_exists'.1 hn.1
    obtain ⟨s, rfl⟩ := Option.ne_none_iff_exists'.1 hn.2
    obtain ⟨l', hl, hr, -⟩ := listRemove_spec d s h hf
    exact ⟨_, l', _, hl, hr, fun c hm => hc c (List.mem_filter.1 hm).1, List.length_filter_le _ _⟩

theorem listRemove_incomparable {deviceName serviceName : CharPtr} {fuel : ℕ}
    (hk : ¬ Comparable nodes deviceName serviceName) (h : Represents l nodes)
    (hf : nodes.length ≤ fuel) :
    listRemove fuel l deviceName serviceName = .error .nullPointer := by
  refine (listRemove_unnamed ?_ h hf).2 hk
  by_contra hn
  rw [not_or] at hn
  obtain ⟨d, rfl⟩ := Option.ne_none_iff_exists'.1 hn.1
  obtain ⟨s, rfl⟩ := Option.ne_none_iff_exists'.1 hn.2
  exact hk (comparable_some nodes d s)

end Nodes

section Inquiry
variable {cj : CJson} {l : ServiceInfoList} {nodes : List Node}

theorem replies_nullFree (serviceName : CString) {registry : List NamedInfo}
    (h : ∀ i ∈ registry, CompleteInfo i.info) (isGetService : Bool) :
    NullFree (replies cj serviceName isGetService registry) := by
  have stop : NullFree (if isGetService then pure [] else do
      let pkt ← getResultPkt cj false (some serviceNoFound)
      pure [pkt] : Except CFault (List (List UInt8))) := by
    split_ifs
    · exact nullFree_ok _
    · exact (getResultPkt_nullFree cj false serviceNoFound).bind fun _ _ => nullFree_ok _
  induction registry generalizing isGetService with
  | nil => exact stop
  | cons i rest ih =>
    rw [replies]
    by_cases hn : named serviceName i = true
    · rw [if_pos hn]
      refine (getInquiryResultPkt_nullFree cj (h i List.mem_cons_self)).bind fun _ _ => ?_
      refine (ih (fun j hj => h j (List.mem_cons_of_mem i hj)) true ?_).bind
        fun _ _ => nullFree_ok _
      exact nullFree_ok _
    · rw [if_neg hn]
      exact stop

theorem complete_infos (hc : CompleteNodes nodes) : ∀ i ∈ infos nodes, CompleteInfo i.info := by
  intro i hi
  obtain ⟨c, hm, rfl⟩ := List.mem_map.1 hi
  exact hc c hm

theorem serveInquiry_named (serviceName : CString) {fuel : ℕ} (h : Represents l nodes)
    (hc : CompleteNodes nodes) (hf : nodes.length < fuel) :
    NullFree (serveInquiry cj fuel fuel l (some serviceName)) := by
  rw [serveInquiry_eq_replies cj serviceName h hf.le hf]
  exact replies_nullFree serviceName (complete_infos hc) false

/-- An inquiry without a name finds nothing in an empty list. -/
theorem serveInquiry_empty {fuel : ℕ} (serviceName : CharPtr) (h : Represents l [])
    (hf : 0 < fuel) : NullFree (serveInquiry cj fuel fuel l serviceName) := by
  obtain ⟨fuel, rfl⟩ := Nat.exists_eq_add_of_lt hf
  have hhead : l.head = none := h.chain
  have hget : listGet (0 + fuel + 1) l serviceName 0 = .ok none := by
    rw [listGet, hhead]
    rfl
  rw [serveInquiry, inquiryFrom, hget]
  exact (getResultPkt_nullFree cj false serviceNoFound).bind fun _ _ => nullFree_ok _

theorem serveInquiry_unnamed {fuel : ℕ} {c : Node} (h : Represents l (c :: nodes))
    (hf : 0 < fuel) : serveInquiry cj fuel fuel l none = .error .nullPointer := by
  obtain ⟨fuel, rfl⟩ := Nat.exists_eq_add_of_lt hf
  obtain ⟨hhead, next, hcell, -⟩ := h.chain
  have hget : listGet (0 + fuel + 1) l none 0 = .error .nullPointer := by
    rw [listGet, hhead, getFrom, load_ok hcell]
    change (strEqual c.2.info.serviceName none >>= _) = _
    rw [c.2.hasServiceName]
    rfl
  rw [serveInquiry, inquiryFrom, hget]
  rfl

end Inquiry

section Steps
variable {cj : CJson} {fuel : ℕ} {l : ServiceInfoList} {pkt : List UInt8} {info : ServiceInfo}

def resultAction (isSucc : Bool) : Action := if isSucc then .actionSucc else .actionFail

def reasonRoot (reason : CString) : List (Key × Field) := [(.reason, .string reason)]

theorem reasonText_length (doc : cj.Documented) {reason : CString}
    (hr : reason.bytes.length < infoMaxLen) :
    (cj.print (reasonRoot reason)).bytes.length < payloadLen := by
  have hl := doc.printLength (reasonRoot reason)
  have hs := stringCost_le reason
  have hk : Key.reason.name.length = 6 := rfl
  have hmax : infoMaxLen = 100 := rfl
  have hpay : payloadLen = 1016 := rfl
  simp only [reasonRoot, printCost, List.map_cons, List.map_nil, List.sum_cons, List.sum_nil,
    Field.cost, hk] at hl ⊢
  omega

/-- A short reason always fits its packet. -/
theorem getResultPkt_eq (doc : cj.Documented) (isSucc : Bool) {reason : CString}
    (hr : reason.bytes.length < infoMaxLen) : getResultPkt cj isSucc (some reason) =
      .ok (printedPkt (resultAction isSucc) (cj.print (reasonRoot reason)).bytes) := by
  rw [getResultPkt, strncpyBuf_ok hr]
  change fillPkt cj _ (reasonRoot reason) = _
  rw [fillPkt_ok cj _ (reasonText_length doc hr).le]
  cases isSucc <;> rfl

theorem resultPkt_ok (doc : cj.Documented) (isSucc : Bool) (reason : CString)
    (hr : reason.bytes.length < infoMaxLen) : ∃ p, getResultPkt cj isSucc (some reason) = .ok p :=
  ⟨_, getResultPkt_eq doc isSucc hr⟩

theorem serverLoop_register {p : List UInt8} (h : Requests cj pkt .registerService info)
    (hp : getResultPkt cj true (some .empty) = .ok p) :
    serverLoop cj fuel fuel l pkt = (listAdd fuel l info).map fun l' => ([p], l') := by
  rw [serverLoop, h.action]
  change (getServiceInfo cj pkt >>= _) = _
  rw [h.info]
  change (listAdd fuel l info >>= _) = _
  rw [hp]
  cases listAdd fuel l info <;> rfl

theorem serve_register (doc : cj.Documented) (h : Requests cj pkt .registerService info) :
    serve cj fuel l pkt = listAdd fuel l info := by
  obtain ⟨p, hp⟩ := resultPkt_ok doc true .empty (by decide)
  rw [serve, serverLoop_register h hp]
  cases listAdd fuel l info <;> rfl

theorem serve_unregister (doc : cj.Documented) (h : Requests cj pkt .unregisterService info) :
    serve cj fuel l pkt = (listRemove fuel l info.deviceName info.serviceName).map Prod.snd := by
  obtain ⟨p, hp⟩ := resultPkt_ok doc true .empty (by decide)
  obtain ⟨q, hq⟩ := resultPkt_ok doc false serviceNoFound (by decide)
  rw [serve, serverLoop, h.action]
  change Except.map Prod.snd (getServiceInfo cj pkt >>= _) = _
  rw [h.info]
  change Except.map Prod.snd (listRemove fuel l info.deviceName info.serviceName >>= _) = _
  rw [hp, hq]
  cases listRemove fuel l info.deviceName info.serviceName with
  | error e => rfl
  | ok r =>
    obtain ⟨i, l'⟩ := r
    change Except.map Prod.snd (if i ≥ 0 then Except.ok ([p], l') else Except.ok ([q], l')) = _
    split_ifs <;> rfl

theorem serve_inquiry (h : Requests cj pkt .inquiry info) :
    serve cj fuel l pkt = (serveInquiry cj fuel fuel l info.serviceName).map fun _ => l := by
  rw [serve, serverLoop, h.action]
  change Except.map Prod.snd (getServiceInfo cj pkt >>= _) = _
  rw [h.info]
  change Except.map Prod.snd (serveInquiry cj fuel fuel l info.serviceName >>= _) = _
  cases serveInquiry cj fuel fuel l info.serviceName <;> rfl

/-- A handling that keeps the list unless a text parses. -/
theorem unparsed_ignored {x : Except CFault (Option ServiceInfo)}
    {f : Option ServiceInfo → Except CFault (List (List UInt8) × ServiceInfoList)}
    (hx : NullFree x) (hf : f none = .ok ([], l)) (hn : ∀ info, x ≠ .ok (some info)) :
    NullFree ((x >>= f).map Prod.snd) ∧ ∀ l', (x >>= f).map Prod.snd = .ok l' → l' = l := by
  rcases x with e | _ | info
  · exact ⟨hx.bind (f := f) (fun _ h => nomatch h) |>.map _, nofun⟩
  · change NullFree ((f none).map Prod.snd) ∧ ∀ l', (f none).map Prod.snd = .ok l' → l' = l
    rw [hf]
    exact ⟨nullFree_ok _, fun l' h => (Except.ok.inj h).symm⟩
  · exact absurd rfl (hn info)

/-- Every other packet leaves the list alone. -/
theorem serve_ignored (hr : ∀ info, ¬ Requests cj pkt .registerService info)
    (hu : ∀ info, ¬ Requests cj pkt .unregisterService info)
    (hi : ∀ info, ¬ Requests cj pkt .inquiry info) :
    NullFree (serve cj fuel l pkt) ∧ ∀ l', serve cj fuel l pkt = .ok l' → l' = l := by
  have hd := decodeAction_nullFree pkt
  have hs := getServiceInfo_nullFree cj pkt
  rw [serve, serverLoop]
  cases ha : decodeAction pkt with
  | error e =>
    rw [ha] at hd
    exact ⟨(hd.bind (f := fun _ => .ok ([], l)) fun _ h => nomatch h).map _, nofun⟩
  | ok type =>
    change NullFree (Except.map Prod.snd (ite _ _ _)) ∧
      ∀ l', Except.map Prod.snd (ite _ _ _) = Except.ok l' → l' = l
    by_cases h0 : type = Action.registerService.code.toNat
    · rw [if_pos h0]
      exact unparsed_ignored hs rfl fun info h => hr info ⟨h0 ▸ ha, h⟩
    rw [if_neg h0]
    by_cases h1 : type = Action.unregisterService.code.toNat
    · rw [if_pos h1]
      exact unparsed_ignored hs rfl fun info h => hu info ⟨h1 ▸ ha, h⟩
    rw [if_neg h1]
    by_cases h2 : type = Action.inquiry.code.toNat
    · rw [if_pos h2]
      exact unparsed_ignored hs rfl fun info h => hi info ⟨h2 ▸ ha, h⟩
    rw [if_neg h2]
    exact ⟨nullFree_ok l, fun l' h => (Except.ok.inj h).symm⟩

end Steps

section Runs
variable {cj : CJson} {fuel : ℕ} {l : ServiceInfoList} {nodes : List Node} {pkt : List UInt8}

/-- The list a run of `n` packets leaves is sound, and no longer than the run. -/
structure Reached (n : ℕ) (r : Except CFault ServiceInfoList) : Prop where
  nullFree : NullFree r
  nodes : ∀ l, r = .ok l → ∃ nodes, Represents l nodes ∧ CompleteNodes nodes ∧ nodes.length ≤ n

theorem Reached.sound {n : ℕ} {r : Except CFault ServiceInfoList} (h : Reached n r) : Sound r := by
  refine ⟨h.nullFree, fun l hl => ?_⟩
  obtain ⟨nodes, hrep, hc, -⟩ := h.nodes l hl
  exact (completeList_iff hrep).2 hc

theorem comparable_iff (h : Represents l nodes) (deviceName serviceName : CharPtr) :
    Comparable nodes deviceName serviceName ↔ ∀ i, Holds l i →
      ∃ d, deviceName = some d ∧ (i.deviceName = some d → ∃ s, serviceName = some s) := by
  constructor
  · intro hk i hi
    obtain ⟨c, hc, rfl⟩ := (holds_iff h i).1 hi
    obtain ⟨d, hd, hs⟩ := hk c hc
    exact ⟨d, hd, fun he => hs (Option.some.inj (c.2.hasDeviceName.symm.trans he))⟩
  · intro hk c hc
    obtain ⟨d, hd, hs⟩ := hk c.2.info ((holds_iff h c.2.info).2 ⟨c, hc, rfl⟩)
    exact ⟨d, hd, fun he => hs (c.2.hasDeviceName.trans (congrArg some he))⟩

theorem serve_harmless (doc : cj.Documented) (h : Represents l nodes) (hc : CompleteNodes nodes)
    (hf : nodes.length < fuel) (hh : Harmless cj l pkt) :
    Reached (nodes.length + 1) (serve cj fuel l pkt) := by
  by_cases hr : ∃ info, Requests cj pkt .registerService info
  · obtain ⟨info, hreq⟩ := hr
    obtain ⟨l', nodes', hl, hrep, hcomplete, hlen⟩ :=
      listAdd_complete (hh.register info hreq) h hc hf.le
    rw [serve_register doc hreq, hl]
    exact ⟨nullFree_ok l', fun l'' he => ⟨nodes', Except.ok.inj he ▸ hrep, hcomplete, hlen⟩⟩
  by_cases hu : ∃ info, Requests cj pkt .unregisterService info
  · obtain ⟨info, hreq⟩ := hu
    obtain ⟨i, l', nodes', hl, hrep, hcomplete, hlen⟩ :=
      listRemove_comparable ((comparable_iff h _ _).2 (hh.unregister info hreq)) h hc hf.le
    rw [serve_unregister doc hreq, hl]
    exact ⟨nullFree_ok l', fun l'' he => ⟨nodes', Except.ok.inj he ▸ hrep, hcomplete,
      hlen.trans (Nat.le_succ _)⟩⟩
  have kept : ∀ l', l' = l → ∃ nodes', Represents l' nodes' ∧ CompleteNodes nodes' ∧
      nodes'.length ≤ nodes.length + 1 :=
    fun l' he => ⟨nodes, he ▸ h, hc, Nat.le_succ _⟩
  by_cases hi : ∃ info, Requests cj pkt .inquiry info
  · obtain ⟨info, hreq⟩ := hi
    have hfree : NullFree (serveInquiry cj fuel fuel l info.serviceName) := by
      cases nodes with
      | nil => exact serveInquiry_empty _ h hf
      | cons c nodes =>
        obtain ⟨s, hs⟩ := hh.inquiry info hreq c.2.info
          ((holds_iff h c.2.info).2 ⟨c, List.mem_cons_self, rfl⟩)
        rw [hs]
        exact serveInquiry_named s h hc hf
    rw [serve_inquiry hreq]
    refine ⟨hfree.map _, fun l' he => kept l' ?_⟩
    obtain ⟨sent, -, rfl⟩ := map_eq_ok.1 he
    rfl
  · have hig : NullFree (serve cj fuel l pkt) ∧ ∀ l', serve cj fuel l pkt = .ok l' → l' = l :=
      serve_ignored (not_exists.1 hr) (not_exists.1 hu) (not_exists.1 hi)
    exact ⟨hig.1, fun l' he => kept l' (hig.2 l' he)⟩

/-- A packet that lacks a string it needs is felt at once. -/
theorem serve_harmful (doc : cj.Documented) (h : Represents l nodes) (hf : nodes.length < fuel)
    (hh : ¬ Harmless cj l pkt) :
    serve cj fuel l pkt = .error .nullPointer ∨
      ∃ l', serve cj fuel l pkt = .ok l' ∧ ¬ CompleteList l' := by
  by_contra hno
  refine hh ⟨fun info hreq => ?_, fun info hreq => ?_, fun info hreq => ?_⟩
  · by_contra hi
    rw [serve_register doc hreq] at hno
    exact hno (listAdd_incomplete hi h hf.le)
  · rw [← comparable_iff h]
    by_contra hk
    rw [serve_unregister doc hreq, listRemove_incomparable hk h hf.le] at hno
    exact hno (.inl rfl)
  · intro i hi
    obtain ⟨c, hc, -⟩ := (holds_iff h i).1 hi
    cases hs : info.serviceName with
    | some s => exact ⟨s, rfl⟩
    | none =>
      cases nodes with
      | nil => cases hc
      | cons d nodes =>
        rw [serve_inquiry hreq, hs, serveInquiry_unnamed h (Nat.lt_of_le_of_lt (Nat.zero_le _) hf)]
          at hno
        exact absurd (.inl rfl) hno

theorem serves_snoc (front : List (List UInt8)) (pkt : List UInt8) :
    serves cj fuel (front ++ [pkt]) = serves cj fuel front >>= fun l => serve cj fuel l pkt := by
  rw [serves, List.foldlM_append]
  change (serves cj fuel front >>= fun l => serve cj fuel l pkt >>= pure) = _
  simp only [bind_pure]

/-- Along a run of harmless packets the list stays complete. -/
theorem serves_reached (doc : cj.Documented) (front : List (List UInt8)) (hf : front.length < fuel)
    (h : ∀ f pkt, f ++ [pkt] <+: front → ∀ l, serves cj fuel f = .ok l → Harmless cj l pkt) :
    Reached front.length (serves cj fuel front) := by
  induction front using List.reverseRecOn with
  | nil =>
    exact ⟨nullFree_ok _, fun l hl => ⟨[], Except.ok.inj hl ▸ initList_represents,
      (fun _ hm => nomatch hm), Nat.le_refl _⟩⟩
  | append_singleton front pkt ih =>
    rw [List.length_append, List.length_singleton] at hf ⊢
    have hreach := ih (by omega) fun f p hp => h f p (hp.trans (List.prefix_append _ _))
    have hstep : ∀ l, serves cj fuel front = .ok l →
        Reached (front.length + 1) (serve cj fuel l pkt) := by
      intro l hl
      obtain ⟨nodes, hrep, hc, hlen⟩ := hreach.nodes l hl
      have hlt : nodes.length < fuel := by omega
      have hs := serve_harmless doc hrep hc hlt (h front pkt (List.prefix_refl _) l hl)
      refine ⟨hs.nullFree, fun l' hl' => ?_⟩
      obtain ⟨nodes', hrep', hc', hlen'⟩ := hs.nodes l' hl'
      exact ⟨nodes', hrep', hc', by omega⟩
    rw [serves_snoc]
    refine ⟨hreach.nullFree.bind fun l hl => (hstep l hl).nullFree, fun l' hl' => ?_⟩
    obtain ⟨l, hl, hs⟩ := bind_eq_ok.1 hl'
    exact (hstep l hl).nodes l' hs

end Runs

/-- The registry stays complete and no null pointer is compared or copied, along
every run, exactly when every packet has the strings its handling needs. -/
theorem serves_sound_iff (cj : CJson) (doc : cj.Documented) (pkts : List (List UInt8))
    (extra : ℕ) :
    (∀ front, front <+: pkts → Sound (serves cj (pkts.length + 1 + extra) front)) ↔
      ∀ front pkt, front ++ [pkt] <+: pkts →
        ∀ l, serves cj (pkts.length + 1 + extra) front = .ok l → Harmless cj l pkt := by
  have hfuel : ∀ front : List (List UInt8), front <+: pkts →
      front.length < pkts.length + 1 + extra := fun front hp => by
    have := hp.length_le
    omega
  constructor
  · intro hsound front
    induction hn : front.length using Nat.strongRecOn generalizing front with
    | _ n ih =>
      intro pkt hp l hl
      have hfront := (List.prefix_append front [pkt]).trans hp
      have hreach := serves_reached doc front (hfuel front hfront) fun f p hfp => by
        have hlen := hfp.length_le
        rw [List.length_append, List.length_singleton] at hlen
        exact ih f.length (by omega) f rfl p (hfp.trans hfront)
      obtain ⟨nodes, hrep, -, hlen⟩ := hreach.nodes l hl
      have hs := hsound _ hp
      rw [serves_snoc, hl] at hs
      by_contra hh
      rcases serve_harmful doc hrep (Nat.lt_of_le_of_lt hlen (hfuel front hfront)) hh with
        he | ⟨l', he, hbad⟩
      · exact hs.nullFree.null he
      · exact hbad (hs.complete l' he)
  · intro hh front hp
    exact (serves_reached doc front (hfuel front hp) fun f p hfp =>
      hh f p (hfp.trans hp)).sound

section Examples

def nothing : ServiceInfo := ⟨none, none, none, none, 0⟩

def emptyObject : CString := ⟨ascii "{}", by decide⟩

/-- A registration without any member. -/
def emptyRegister : List UInt8 := printedPkt .registerService emptyObject.bytes

def boxRoot : List (Key × Field) := serviceRoot box.str box.str box.str box.str 6666

def boxInquiry : List UInt8 := printedPkt .inquiry (textCJson.print boxRoot).bytes

theorem getServiceInfo_parsed (cj : CJson) {pkt : List UInt8} {s : CString} (json : cj.Tree)
    (h : stringAt (payload pkt) = .ok s) (hp : cj.parse s = some json) :
    getServiceInfo cj pkt = .ok (some ⟨stringItem cj json .deviceName, stringItem cj json .serviceName,
      stringItem cj json .ip, stringItem cj json .info, portItem cj json⟩) := by
  rw [getServiceInfo, h]
  change Except.ok ((cj.parse s).map _) = _
  rw [hp, Option.map_some]

theorem requests_emptyRegister : Requests textCJson emptyRegister .registerService nothing := by
  have hs : stringAt (payload emptyRegister) = .ok emptyObject :=
    printedPkt_stringAt .registerService (by decide)
  have hc : checksumRight emptyRegister = .ok true := by
    rw [emptyRegister, printedPkt_checksumRight .registerService (by decide)]
    decide
  have hp : textCJson.parse emptyObject = some ([] : List (List Elem × Value)) := rfl
  exact ⟨printedPkt_decodeAction .registerService hc, getServiceInfo_parsed textCJson [] hs hp⟩

/-- An info with these names. -/
def namesInfo (d s : Text) : NamedInfo :=
  ⟨⟨some d.str, some s.str, some box.str, some box.str, 6666⟩, d.str, s.str, rfl, rfl⟩

def namesPkt (action : Action) (d s : Text) : List UInt8 :=
  printedPkt action (textCJson.print (serviceRoot d.str s.str box.str box.str 6666)).bytes

theorem requests_namesPkt (action : Action) {d s : Text}
    (plain : highCount d.str.bytes = 0 ∧ highCount s.str.bytes = 0) :
    Requests textCJson (namesPkt action d s) action (namesInfo d s).info := by
  have hl := print_length d s box box 6666 textCJson_documented
  have hhigh := print_high d s box box 6666 textCJson_documented
  have hbox : highCount box.str.bytes = 0 := by decide
  have hc : checksumRight (namesPkt action d s) = .ok true := by
    rw [namesPkt, printedPkt_checksumRight action hl.le, Except.ok.injEq, beq_iff_eq]
    refine ((signed_eq_unsigned_iff _).2 ?_).symm
    rw [hhigh, plain.1, plain.2, hbox]
  exact ⟨printedPkt_decodeAction action hc,
    printedPkt_getServiceInfo action textCJson_documented _ _ _ _ _ hl⟩

def boxPkt (action : Action) : List UInt8 := printedPkt action (textCJson.print boxRoot).bytes

theorem requests_box (action : Action) : Requests textCJson (boxPkt action) action boxInfo :=
  requests_namesPkt action ⟨by decide, by decide⟩

theorem requests_boxInquiry : Requests textCJson boxInquiry .inquiry boxInfo :=
  requests_box .inquiry

/-- The list that holds the info without any string. -/
def nothingList : ServiceInfoList := ⟨write initList.heap 0 ⟨some nothing, none⟩, 1, some 0, some 0⟩

theorem serves_pair {cj : CJson} {fuel : ℕ} {l : ServiceInfoList} {e : CFault}
    {p q : List UInt8} (hp : serve cj fuel initList p = .ok l)
    (hq : serve cj fuel l q = .error e) :
    serves cj fuel [p] = .ok l ∧ serves cj fuel [p, q] = .error e := by
  have h1 : serves cj fuel [p] = .ok l := by
    rw [serves, List.foldlM_cons, hp]
    rfl
  refine ⟨h1, ?_⟩
  have h2 : serves cj fuel ([p] ++ [q]) = _ := serves_snoc [p] q
  rw [h1] at h2
  exact h2.trans hq

theorem serve_emptyRegister : serve textCJson 3 initList emptyRegister = .ok nothingList := by
  have hadd : listAdd 3 initList nothing = .ok nothingList := rfl
  rw [serve_register textCJson_documented requests_emptyRegister, hadd]

theorem serve_boxInquiry : serve textCJson 3 nothingList boxInquiry = .error .nullPointer := by
  have hget : serveInquiry textCJson 3 3 nothingList boxInfo.serviceName = .error .nullPointer := rfl
  rw [serve_inquiry requests_boxInquiry, hget]
  rfl

theorem serves_sound_iff_emptyRegister :
    (∀ front, front <+: [emptyRegister, boxInquiry] → Sound (serves textCJson 3 front)) ↔
      ∀ front pkt, front ++ [pkt] <+: [emptyRegister, boxInquiry] →
        ∀ l, serves textCJson 3 front = .ok l → Harmless textCJson l pkt :=
  serves_sound_iff textCJson textCJson_documented [emptyRegister, boxInquiry] 0

/-- A registration of `{}` is stored with four null pointers, and the next
inquiry compares one of them. -/
theorem emptyRegister_crashes :
    serves textCJson 3 [emptyRegister] = .ok nothingList ∧ ¬ CompleteList nothingList ∧
    serves textCJson 3 [emptyRegister, boxInquiry] = .error .nullPointer ∧
    ¬ ∀ front, front <+: [emptyRegister, boxInquiry] → Sound (serves textCJson 3 front) := by
  have hbad : ¬ CompleteList nothingList := by
    refine not_completeList_of_holds (i := nothing) ⟨[(0, some nothing)], ⟨rfl, none, rfl, rfl⟩, 0,
      List.mem_singleton.2 rfl⟩ fun h => ?_
    obtain ⟨s, hs⟩ := h.deviceName
    cases hs
  obtain ⟨h1, h2⟩ := serves_pair serve_emptyRegister serve_boxInquiry
  exact ⟨h1, hbad, h2, fun h => hbad ((h [emptyRegister] ⟨[boxInquiry], rfl⟩).complete _ h1)⟩

end Examples

end MiniServiceDiscover.CRegistry
