import MiniServiceDiscover.CAggregate
import MiniServiceDiscover.CHeapLeaks

set_option autoImplicit false

/-! The C client on its heap: what an inquiry collects, and what is left of it once its list
has been given back. -/
namespace MiniServiceDiscover.CHeapClient
open CProtocal (CJson CharPtr)
open PointerChain BlockMemory Fallible WireFormat KeyedList CListRefinement CHistory CAggregate
open CSweep (State isInquiry)
open CHeap CHeapList CHeapDaemon CHeapLeaks

section Bounds
variable {l : CList.ServiceInfoList} {xs : List CProtocal.ServiceInfo}
  {cells : List (Ptr × Option CProtocal.ServiceInfo)} {n n' : ℕ}

/-- More passes than a list has nodes are never made. -/
theorem removeFrom_bound {deviceName serviceName : CharPtr} {prev start : Option Ptr}
    (h : Chain l.heap start cells) (hn : cells.length ≤ n) (hn' : cells.length ≤ n') :
    CList.removeFrom deviceName serviceName l n prev start =
      CList.removeFrom deviceName serviceName l n' prev start := by
  induction cells generalizing n n' prev start with
  | nil =>
    obtain rfl : start = none := h
    rw [CList.removeFrom, CList.removeFrom]
  | cons c cells ih =>
    obtain ⟨rfl, next, hcell, hrest⟩ := h
    obtain ⟨n, rfl⟩ := Nat.exists_eq_add_of_le' (Nat.lt_of_lt_of_le (Nat.succ_pos _) hn)
    obtain ⟨n', rfl⟩ := Nat.exists_eq_add_of_le' (Nat.lt_of_lt_of_le (Nat.succ_pos _) hn')
    have hnext : ∀ prev, CList.removeFrom deviceName serviceName l n prev next =
        CList.removeFrom deviceName serviceName l n' prev next := fun prev =>
      ih hrest (Nat.le_of_succ_le_succ hn) (Nat.le_of_succ_le_succ hn')
    rw [CList.removeFrom, CList.removeFrom, load_ok hcell]
    simp only [bind, Except.bind, hnext]

theorem listAdd_bound (h : Lists l xs) (hn : xs.length ≤ n) (hn' : xs.length ≤ n')
    (info : CProtocal.ServiceInfo) : CList.listAdd n l info = CList.listAdd n' l info := by
  obtain ⟨cells, hshaped, hlen⟩ := h.bounded
  have hchain := (getNode_shaped hshaped info).chain
  rw [CList.listAdd, CList.listAdd, CList.listRemove, CList.listRemove,
    removeFrom_bound hchain (hlen ▸ hn) (hlen ▸ hn')]

theorem length_le_top (h : Lists l xs) : xs.length ≤ l.top := by
  obtain ⟨cells, hshaped, hlen⟩ := h.bounded
  have hsub : ∀ p ∈ cells.map Prod.fst, p < l.top := by
    intro p hp
    by_contra hge
    have hsome := hshaped.chain.allocated hp
    rw [hshaped.fresh p (Nat.le_of_not_lt hge)] at hsome
    cases hsome
  have hle := List.subperm_of_subset hshaped.chain.nodup fun p hp => List.mem_range.2 (hsub p hp)
  have hlength := hle.length_le
  rw [List.length_map, List.length_range] at hlength
  omega

end Bounds

section Replies
variable {cj : CJson} {m₀ m : Memory Block} {p d : Ptr} {bytes : List UInt8}

/-- A result that has been allocated, and nothing else. -/
structure NewResult (m₀ m : Memory Block) (p : Ptr) (reason : Option Ptr) : Prop where
  grows : Grows m₀ m (reason.toList ++ [p]).length
  block : m.block p = some (.result reason)
  blocks : ∀ q ∈ reason.toList ++ [p], m₀.top ≤ q ∧ (m.block q).isSome
  nodup : (reason.toList ++ [p]).Nodup

theorem getResult_simulates (h : PktAt m p d bytes) :
    Simulates m (getResult cj p) (CProtocal.getResult cj bytes) fun o m' _ =>
      (o = none ∧ m' = m) ∨ ∃ res reason, o = some res ∧ NewResult m m' res reason := by
  refine Simulates.step h.pktData ?_
  refine (simulates_lift m _).before fun r m₁ r' h₁ => ?_
  obtain ⟨rfl, rfl⟩ := h₁
  cases r with
  | none => exact returns_pure (.inl ⟨rfl, rfl⟩)
  | some r =>
    have hg₀ := grows_push m₁ (.result none)
    refine Returns.step (malloc_eq m₁ _) ?_
    refine (strdup_returns _ r.reason).bind fun reason m₂ h₂ => ?_
    obtain ⟨hg₂, ht₂, hb₂⟩ := h₂
    have hblock : m₂.block m₁.top = some (.result none) := hg₂.keeps push_top
    have hlive : (m₂.block m₁.top).isSome := Option.isSome_iff_exists.2 ⟨_, hblock⟩
    have hne : ∀ q ∈ reason.toList, q ≠ m₁.top := fun q hq =>
      (Nat.lt_of_succ_le (hb₂.2 q hq).1).ne'
    have hgrows := (hg₀.trans hg₂).put le_rfl (.result reason) hlive
    refine Returns.step (write_eq hlive) (returns_pure (.inr ⟨m₁.top, reason, rfl, ?_,
      put_same _ _, fun q hq => ?_, ?_⟩))
    · rw [List.length_append, List.length_singleton, ht₂.length, Nat.add_comm]
      exact hgrows
    · rcases List.mem_append.1 hq with hq | hq
      · obtain ⟨s, hs⟩ := ht₂.live q hq
        refine ⟨(Nat.le_succ _).trans (hb₂.2 q hq).1, ?_⟩
        rw [put_other _ _ (hne q hq), hs]
        rfl
      · obtain rfl := List.mem_singleton.1 hq
        rw [put_same]
        exact ⟨le_rfl, rfl⟩
    · refine List.nodup_append.2 ⟨hb₂.1.imp fun h => h.ne, List.nodup_singleton _, ?_⟩
      intro q hq r hr
      obtain rfl := List.mem_singleton.1 hr
      exact hne q hq

theorem freeResult_returns {reason : Option Ptr} (h : NewResult m₀ m p reason) :
    Returns m (freeResult p) fun _ m' => Grows m₀ m' 0 := by
  have hfree : freeResult p m = freeAll (reason.toList ++ [p]) m := by
    have hseq : (freeAll (reason.toList ++ [p]) : CProg Unit) = (do
        freeOpt reason
        free p) := by
      rw [freeAll_append, freeAll_singleton]
      rfl
    rw [hseq]
    exact step_eq (read_eq h.block rfl)
  obtain ⟨_, m', hm, hgrows⟩ := h.grows.freeAll (ε := CProtocal.CFault) h.blocks h.nodup
  exact ⟨(), m', hfree.trans hm, hgrows⟩

/-- A failure that is read leaves nothing on the heap. -/
theorem failed_simulates (h : PktAt m p d bytes) :
    Simulates m (do
        match ← getResult cj p with
        | none => pure ()
        | some res => freeResult res)
      (CProtocal.getResult cj bytes) fun _ m' _ => Grows m m' 0 := by
  refine (getResult_simulates h).before fun o m' r ho => ?_
  rcases ho with ⟨rfl, rfl⟩ | ⟨res, reason, rfl, new⟩
  · exact returns_pure (Grows.refl m')
  · exact freeResult_returns new

end Replies

section Passes
variable {cj : CJson} {m : Memory Block} {recPkt list : Ptr} {s s' : State}
  {xs : List CProtocal.ServiceInfo} {pkt : List UInt8}

/-- What a reply adds to the list of the client, whatever strings its info lacks. -/
theorem checkResult_lists (hc : isInquiry s.call = true) (h : Lists s.list xs)
    (hr : CSweep.checkResult cj s pkt = .ok s') :
    isInquiry s'.call = true ∧ Lists s'.list (after xs (service cj pkt)) := by
  obtain ⟨action, ha, -⟩ := bind_eq_ok.1 hr
  by_cases hsucc : action = Action.actionSucc.code.toNat
  · rw [CCheckResult.checkResult_inquiry hc (hsucc ▸ ha)] at hr
    obtain ⟨info, hi, hr⟩ := bind_eq_ok.1 hr
    rw [service_succ (hsucc ▸ ha) hi]
    cases info with
    | none =>
      obtain rfl := Except.ok.inj hr
      exact ⟨hc, h⟩
    | some info =>
      obtain ⟨l, hadd, rfl⟩ := map_eq_ok.1 hr
      exact ⟨hc, h.add hadd⟩
  rw [service_other ha hsucc]
  by_cases hfail : action = Action.actionFail.code.toNat
  · rw [CCheckResult.checkResult_failed (hfail ▸ ha)] at hr
    obtain ⟨r, -, rfl⟩ := map_eq_ok.1 hr
    exact ⟨hc, h⟩
  · rw [CCheckResult.checkResult_ignored ha hsucc hfail] at hr
    obtain rfl := Except.ok.inj hr
    exact ⟨hc, h⟩

/-- One packet: nothing stays of it but the service that goes into the list. -/
theorem checkPass_simulates (h : Serving m recPkt list s.list) (hc : isInquiry s.call = true)
    (hl : Lists s.list xs) {fuel : ℕ} (hf : xs.length ≤ fuel) (pkt : List UInt8) :
    Simulates m (checkPass cj fuel recPkt list pkt) (CSweep.checkResult cj s pkt)
      fun _ m' s' => Serving m' recPkt list s'.list ∧
        m'.count = m.count + needed (service cj pkt).toList := by
  obtain ⟨m₁, a, d, hset, hput, v, hcount⟩ := h.receives pkt
  refine Simulates.step hset (Simulates.step hput.pktData ?_)
  rw [CSweep.checkResult, ← hcount]
  refine (simulates_lift m₁ _).known.bind fun type m₂ type' h => ?_
  obtain ⟨htype, rfl, rfl⟩ := h
  have same : ∀ {m' : Memory Block}, Grows m₂ m' 0 → service cj pkt = none →
      Serving m' recPkt list s.list ∧
        m'.count = m₂.count + needed (service cj pkt).toList := fun hgrows hnone => by
    rw [hnone]
    exact ⟨Serving.grows ⟨⟨a, v⟩, d, pkt, hput⟩ hgrows, hgrows.count⟩
  by_cases hsucc : type = Action.actionSucc.code.toNat
  · rw [if_pos hsucc, if_pos hsucc, if_pos hc]
    have hserved : ∀ {o}, CProtocal.getServiceInfo cj pkt = .ok o → service cj pkt = o :=
      service_succ (hsucc ▸ htype)
    refine parsed_simulates hput (fun hnone => same (Grows.refl m₂) (hserved hnone))
      fun info i m' hread new => ?_
    rw [listAdd_bound hl ((length_le_top hl).trans (Nat.le_succ _)) hf, hserved hread]
    exact Simulates.made (add_simulates v hput new fuel)
  rw [if_neg hsucc, if_neg hsucc]
  have hnone : service cj pkt = none := service_other htype hsucc
  by_cases hfail : type = Action.actionFail.code.toNat
  · rw [if_pos hfail, if_pos hfail]
    exact Simulates.made ((failed_simulates hput).mono fun _ m' _ hgrows => same hgrows hnone)
  · rw [if_neg hfail, if_neg hfail]
    exact simulates_pure (same (Grows.refl m₂) hnone)

theorem needed_append (xs ys : List CProtocal.ServiceInfo) :
    needed (xs ++ ys) = needed xs + needed ys := by
  rw [needed, List.map_append, List.sum_append]
  rfl

theorem services_cons (cj : CJson) (pkt : List UInt8) (pkts : List (List UInt8)) :
    services cj (pkt :: pkts) = (service cj pkt).toList ++ services cj pkts := by
  rw [services]
  cases h : service cj pkt with
  | none => exact List.filterMap_cons_none h
  | some info => exact List.filterMap_cons_some h

theorem checkPasses_simulate {fuel : ℕ} (front : List (List UInt8)) {pkts : List (List UInt8)}
    (h : Serving m recPkt list s.list) (hc : isInquiry s.call = true)
    (hl : Lists s.list (lasts nameKey (services cj front)))
    (hf : (front ++ pkts).length ≤ fuel) :
    Simulates m (pkts.forM fun pkt => checkPass cj fuel recPkt list pkt)
      (pkts.foldlM (CSweep.checkResult cj) s) fun _ m' s' =>
        Serving m' recPkt list s'.list ∧
          Lists s'.list (lasts nameKey (services cj (front ++ pkts))) ∧
          m'.count = m.count + needed (services cj pkts) := by
  induction pkts generalizing m s front with
  | nil =>
    rw [List.append_nil]
    exact simulates_pure ⟨h, hl, rfl⟩
  | cons pkt pkts ih =>
    have hle : (lasts nameKey (services cj front)).length ≤ fuel := by
      have hservices : (services cj front).length ≤ front.length := List.length_filterMap_le _ _
      have hlasts := (lasts_sublist nameKey (services cj front)).length_le
      rw [List.length_append] at hf
      omega
    rw [List.foldlM_cons]
    refine (checkPass_simulates h hc hl hle pkt).known.bind fun _ m' s' h' => ?_
    obtain ⟨hr, hserving, hcount⟩ := h'
    obtain ⟨hc', hl'⟩ := checkResult_lists hc hl hr
    rw [← lasts_services_concat] at hl'
    rw [List.append_cons] at hf
    refine (ih (front ++ [pkt]) hserving hc' hl' hf).mono fun _ m'' s'' hrest => ?_
    rw [List.append_cons, services_cons, needed_append, hrest.2.2, hcount, Nat.add_assoc]
    exact ⟨hrest.1, hrest.2.1, rfl⟩

end Passes

section Deinit
variable {m : Memory Block} {b : ℕ} {list : Ptr} {l : CList.ServiceInfoList} {a : Addresses}
  {cells : List (Ptr × Option CProtocal.ServiceInfo)}

/-- What `deinit_list` frees of these nodes, in its order. -/
def owned (a : Addresses) (cells : List (Ptr × Option CProtocal.ServiceInfo)) : List Ptr :=
  cells.flatMap fun c => [a.info c.1, a.node c.1]

/-- The node and its info are where they should be. -/
def HeldAt (m : Memory Block) (a : Addresses) (l : CList.ServiceInfoList) (p : Ptr) : Prop :=
  ∃ c, l.heap p = some c ∧ (m.block (a.info p)).isSome ∧
    m.block (a.node p) = some (.node ⟨some (a.info p), c.next.map a.node⟩)

theorem HeldAt.put {p q : Ptr} (h : HeldAt m a l p) (hlive : (m.block q).isSome)
    (hinfo : a.info p ≠ q) (hnode : a.node p ≠ q) : HeldAt (m.put q none hlive) a l p := by
  obtain ⟨c, hc, hsome, hblock⟩ := h
  refine ⟨c, hc, ?_, (put_other _ _ hnode).trans hblock⟩
  rwa [put_other _ _ hinfo]

theorem deinitFrom_eq {start : Option Ptr} {fuel : ℕ} (h : Chain l.heap start cells)
    (hheld : ∀ c ∈ cells, HeldAt m a l c.1) (hnodup : (owned a cells).Nodup)
    (hf : cells.length ≤ fuel) :
    deinitFrom fuel (start.map a.node) m = freeAll (owned a cells) m := by
  induction cells generalizing m start fuel with
  | nil =>
    obtain rfl : start = none := h
    cases fuel with
    | zero => rfl
    | succ fuel => rfl
  | cons c cells ih =>
    obtain ⟨p, value⟩ := c
    obtain ⟨rfl, next, hcell, hrest⟩ := h
    obtain ⟨fuel, rfl⟩ := Nat.exists_eq_add_of_le' (Nat.lt_of_lt_of_le (Nat.succ_pos _) hf)
    rw [List.forall_mem_cons] at hheld
    obtain ⟨⟨c, hc, hinfo, hblock⟩, hcells⟩ := hheld
    obtain rfl := Option.some.inj (hcell.symm.trans hc)
    change ([a.info p, a.node p] ++ owned a cells).Nodup at hnodup
    obtain ⟨hpair, hnodup, hdisjoint⟩ := List.nodup_append.1 hnodup
    have hne : a.node p ≠ a.info p := fun he => by simp [he] at hpair
    have hlive : ((m.put (a.info p) none hinfo).block (a.node p)).isSome := by
      rw [put_other _ _ hne, hblock]
      rfl
    have hread : (BlockMemory.read Block.node? (a.node p) : CProg (Cell (Option Ptr))) m =
        .ok (⟨some (a.info p), next.map a.node⟩, m) := read_eq hblock rfl
    have hfree : freeOpt (some (a.info p)) m = .ok ((), m.put (a.info p) none hinfo) :=
      (congrFun (freeAll_singleton (a.info p)) m).trans (free_eq hinfo)
    have hleft : deinitFrom (fuel + 1) (some (a.node p)) m =
        deinitFrom fuel (next.map a.node) ((m.put (a.info p) none hinfo).put (a.node p) none
          hlive) :=
      (step_eq hread).trans ((step_eq hfree).trans (step_eq (free_eq hlive)))
    have hright : freeAll (owned a ((p, value) :: cells)) m =
        (freeAll (owned a cells) : CProg Unit) ((m.put (a.info p) none hinfo).put (a.node p) none
          hlive) :=
      (step_eq (free_eq hinfo)).trans (step_eq (free_eq hlive))
    refine hleft.trans ((ih hrest (fun c hc => ?_) hnodup (Nat.le_of_succ_le_succ hf)).trans
      hright.symm)
    have hother : ∀ q ∈ [a.info p, a.node p], a.info c.1 ≠ q ∧ a.node c.1 ≠ q := fun q hq =>
      ⟨(hdisjoint q hq _ (List.mem_flatMap.2 ⟨c, hc, by simp⟩)).symm,
        (hdisjoint q hq _ (List.mem_flatMap.2 ⟨c, hc, by simp⟩)).symm⟩
    obtain ⟨hi, hn⟩ := hother (a.info p) (by simp)
    obtain ⟨hi', hn'⟩ := hother (a.node p) (by simp)
    exact ((hcells c hc).put hinfo hi hn).put hlive hi' hn'

theorem View.heldAt (v : View m b list l a) {p : Ptr} (hp : (l.heap p).isSome) :
    HeldAt m a l p := by
  obtain ⟨c, hc⟩ := Option.isSome_iff_exists.1 hp
  obtain ⟨-, i, -, hblock, -, ps, hinfo, -⟩ := v.node p c hc
  exact ⟨c, hc, Option.isSome_iff_exists.2 ⟨_, hinfo⟩, hblock⟩

/-- No node is an info, and no two nodes share one. -/
theorem View.owned_nodup (v : View m b list l a) {start : Option Ptr}
    (h : Chain l.heap start cells) : (owned a cells).Nodup := by
  have hsome : ∀ c ∈ cells, (l.heap c.1).isSome := fun c hc =>
    h.allocated (List.mem_map_of_mem hc)
  have hkinds : ∀ p q, (l.heap p).isSome → (l.heap q).isSome → a.info p ≠ a.node q := by
    intro p q hp hq he
    obtain ⟨c, hc⟩ := Option.isSome_iff_exists.1 hp
    obtain ⟨-, i, -, -, -, ps, hinfo, -⟩ := v.node p c hc
    obtain ⟨c', -, -, hblock⟩ := View.heldAt v hq
    rw [he, hblock] at hinfo
    cases Option.some.inj hinfo
  refine List.nodup_flatMap.2 ⟨fun c hc => ?_, ?_⟩
  · exact List.nodup_cons.2 ⟨fun hm => hkinds _ _ (hsome c hc) (hsome c hc)
      (List.mem_singleton.1 hm), List.nodup_singleton _⟩
  · refine (List.pairwise_map.1 h.nodup).imp_of_mem fun {c c'} hc hc' hne => ?_
    have hp := hsome c hc
    have hq := hsome c' hc'
    simp only [Function.onFun, List.disjoint_cons_left, List.mem_cons, List.not_mem_nil, or_false,
      not_or]
    exact ⟨⟨fun he => hne (v.infos _ _ hp hq he), hkinds _ _ hp hq⟩,
      ⟨fun he => hkinds _ _ hq hp he.symm, fun he => hne (v.nodes _ _ hp hq he)⟩,
      List.disjoint_nil_left _⟩

/-- Every node in the list is freed with its info, and the list itself. -/
theorem deinitList_returns {xs : List CProtocal.ServiceInfo} (v : View m b list l a)
    (h : Lists l xs) {fuel : ℕ} (hf : xs.length ≤ fuel) :
    Returns m (deinitList fuel list) fun _ m' => m'.count + (2 * xs.length + 1) = m.count := by
  obtain ⟨cells, hshaped, hlen⟩ := h.bounded
  have hheld : ∀ c ∈ cells, HeldAt m a l c.1 := fun c hc =>
    View.heldAt v (hshaped.chain.allocated (List.mem_map_of_mem hc))
  have hnodup := View.owned_nodup v hshaped.chain
  have hlive : ∀ q ∈ owned a cells, (m.block q).isSome ∧ q ≠ list := by
    intro q hq
    obtain ⟨c, hc, hq⟩ := List.mem_flatMap.1 hq
    obtain ⟨cell, hcell, -, hblock⟩ := hheld c hc
    obtain ⟨-, i, -, -, -, ps, hinfo, -⟩ := v.node c.1 cell hcell
    rw [List.mem_pair] at hq
    rcases hq with rfl | rfl
    · refine ⟨Option.isSome_iff_exists.2 ⟨_, hinfo⟩, fun he => ?_⟩
      rw [he, v.list] at hinfo
      cases Option.some.inj hinfo
    · refine ⟨Option.isSome_iff_exists.2 ⟨_, hblock⟩, fun he => ?_⟩
      rw [he, v.list] at hblock
      cases Option.some.inj hblock
  obtain ⟨_, m', hm, -, hrest, hcount⟩ :=
    returns_freeAll (ε := CProtocal.CFault) (fun q hq => (hlive q hq).1) hnodup
  have heq := deinitFrom_eq hshaped.chain hheld hnodup (hlen ▸ hf)
  have hlist : (m'.block list).isSome := by
    rw [hrest list fun hm => (hlive list hm).2 rfl, v.list]
    rfl
  refine Returns.step (read_eq v.list rfl) (Returns.step (heq.trans hm) ?_)
  refine returns_free hlist ?_
  have hlength : (owned a cells).length = 2 * xs.length := by
    rw [owned, List.length_flatMap, ← hlen]
    simp [Nat.mul_comm]
  have hfreed := put_none_count hlist
  omega

end Deinit

/-- The client on its heap fails only where the client with a list does, and with the same
error. Where it does not fail, its list can be given back, and what then is left of the inquiry
are the strings of every service it has read, and the node and the info of every one that
another has replaced. -/
theorem client_blocks (cj : CJson) {fuel : ℕ} {pkts : List (List UInt8)} {s : State}
    (inquiry : isInquiry s.call = true) (start : s.list = CList.initList)
    (hf : pkts.length ≤ fuel) :
    (∀ e, pkts.foldlM (CSweep.checkResult cj) s = .error e →
      checkResult cj fuel pkts Memory.empty = .error (.fault e)) ∧
    ∀ s', pkts.foldlM (CSweep.checkResult cj) s = .ok s' → ∃ list m m',
      checkResult cj fuel pkts Memory.empty = .ok (list, m) ∧
      (∃ a, View m m.top list s'.list a) ∧
      deinitList fuel list m = .ok ((), m') ∧
      m'.count + 2 * (lasts nameKey (services cj pkts)).length = needed (services cj pkts) := by
  have hruns : Simulates Memory.empty (checkResult cj fuel pkts)
      (pkts.foldlM (CSweep.checkResult cj) s) fun list m s' =>
        (∃ a, View m m.top list s'.list a) ∧
        Lists s'.list (lasts nameKey (services cj pkts)) ∧
        m.count = 1 + needed (services cj pkts) := by
    refine Simulates.after (start_returns ⟨id, id⟩) fun pkt m h => ?_
    rw [← start] at h
    refine Simulates.step (malloc_eq m _) ?_
    refine (checkPasses_simulate [] h.1 inquiry (start ▸ initList_lists) hf).before
      fun _ m₁ s' hs => ?_
    obtain ⟨⟨⟨a, v⟩, d, bytes, hpkt⟩, hlists, hcount⟩ := hs
    refine hpkt.freePkt.bind fun _ m₂ h₂ => ?_
    obtain ⟨htop, hrest, hfreed⟩ := h₂
    have hkeeps : Keeps Seen m₁.top m₁ m₂ := by
      intro q _ x hx hq
      refine (hrest q (fun he => ?_) fun he => ?_).trans hq
      · rw [he, hpkt.pkt] at hq
        obtain rfl := Option.some.inj hq
        exact hx
      · rw [he, hpkt.data] at hq
        obtain rfl := Option.some.inj hq
        exact hx
    refine returns_pure ⟨⟨a, htop ▸ v.keeps hkeeps⟩, hlists, ?_⟩
    rw [hcount, h.2] at hfreed
    omega
  refine ⟨fun e he => hruns.error he, fun s' hs => ?_⟩
  obtain ⟨list, m, hchecked, ⟨a, v⟩, hlists, hcount⟩ := hruns.ok hs
  have hle : (lasts nameKey (services cj pkts)).length ≤ fuel :=
    ((lasts_sublist nameKey _).length_le.trans (List.length_filterMap_le _ _)).trans hf
  obtain ⟨_, m', hdeinit, hleft⟩ := deinitList_returns v hlists hle
  exact ⟨list, m, m', hchecked, ⟨a, v⟩, hdeinit, by omega⟩

section Examples
open CJsonText CRoundTrip
open CProtocal (getInquiryResultPkt)

/-- An inquiry that one service answers leaves the four strings of this service behind. -/
theorem client_blocks_boxReply : ∃ pkt list m m',
    getInquiryResultPkt textCJson boxInfo = .ok pkt ∧
      checkResult textCJson 1 [pkt] Memory.empty = .ok (list, m) ∧
      deinitList 1 list m = .ok ((), m') ∧ m'.count = 4 := by
  obtain ⟨pkt, hpkt, -, hservice⟩ := boxReply
  have hread : CProtocal.decodeAction pkt = .ok (Action.actionSucc.code.toNat : ℤ) ∧
      CProtocal.getServiceInfo textCJson pkt = .ok (some boxInfo) := by
    rw [service] at hservice
    split at hservice
    next action info ha hi =>
      split_ifs at hservice with hsucc
      exact ⟨hsucc ▸ ha, hservice ▸ hi⟩
    next => cases hservice
  have hfold : ∃ s', [pkt].foldlM (CSweep.checkResult textCJson)
      (CSweep.init (.inquiryService (some box.str))) = .ok s' := by
    rw [List.foldlM_cons, CCheckResult.checkResult_inquiry rfl hread.1, hread.2]
    exact ⟨_, rfl⟩
  obtain ⟨s', hs⟩ := hfold
  obtain ⟨list, m, m', hchecked, -, hdeinit, hleft⟩ :=
    (@client_blocks textCJson 1 [pkt] _ rfl rfl le_rfl).2 s' hs
  have hservices : services textCJson [pkt] = [boxInfo] := by
    rw [services_cons, hservice]
    rfl
  rw [hservices] at hleft
  exact ⟨pkt, list, m, m', hpkt, hchecked, hdeinit, Nat.add_right_cancel hleft⟩

end Examples

end MiniServiceDiscover.CHeapClient
