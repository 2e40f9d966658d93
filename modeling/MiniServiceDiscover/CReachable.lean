import MiniServiceDiscover.CRegistry

set_option autoImplicit false

/-! The lists the C daemon can reach, whatever strings their infos lack: linked from head to
tail, and with no two entries of the same names. -/
namespace MiniServiceDiscover.CReachable
open CProtocal PointerChain CList CListRefinement CRegistry KeyedList Fallible

abbrev Slot := Ptr × Option ServiceInfo

/-- The names of an info that has both. -/
def namesOf (i : ServiceInfo) : Option Pair :=
  match i.deviceName, i.serviceName with
  | some deviceName, some serviceName => some (deviceName, serviceName)
  | _, _ => none

def slotNames (c : Slot) : Option Pair := c.2.bind namesOf

structure Keyed (l : ServiceInfoList) (cells : List Slot) : Prop where
  shaped : Shaped l cells
  filled : ∀ c ∈ cells, ∃ i, c.2 = some i
  unique : (cells.filterMap slotNames).Nodup

/-- The node at `p`, linked or not, holds this info. -/
def InfoAt (l : ServiceInfoList) (p : Ptr) (i : ServiceInfo) : Prop :=
  ∃ next, l.heap p = some ⟨some i, next⟩

/-- Every node still holds what it held. -/
def Keeps (l l' : ServiceInfoList) : Prop := ∀ p i, InfoAt l p i → InfoAt l' p i

/-- Every info of the list has both names. -/
def AllNamed (l : ServiceInfoList) : Prop :=
  ∀ i, Holds l i → (∃ d, i.deviceName = some d) ∧ ∃ s, i.serviceName = some s

section Names

theorem namesOf_eq_some {i : ServiceInfo} {k : Pair} (h : namesOf i = some k) :
    i.deviceName = some k.1 ∧ i.serviceName = some k.2 := by
  unfold namesOf at h
  split at h
  · cases h
    exact ⟨‹_›, ‹_›⟩
  · cases h

theorem namesOf_info (i : NamedInfo) : namesOf i.info = some (pairOf i) := by
  rw [namesOf, i.hasDeviceName, i.hasServiceName]
  rfl

/-- A comparison that returns tells whether the names are these. -/
theorem sameService_names {i : ServiceInfo} {deviceName serviceName : CString} {b : Bool}
    (h : sameService ⟨some i, none⟩ (some deviceName) (some serviceName) = .ok b) :
    namesOf i = some (deviceName, serviceName) ↔ b = true := by
  cases hd : i.deviceName with
  | none =>
    simp only [sameService, hd, strEqual] at h
    cases h
  | some d =>
    have hdevice : sameService ⟨some i, none⟩ (some deviceName) (some serviceName) =
        if d = deviceName then strEqual i.serviceName (some serviceName) else .ok false := by
      simp only [sameService, hd, strEqual]
      by_cases he : d = deviceName
      · rw [decide_eq_true he, if_pos he]
        rfl
      · rw [decide_eq_false he, if_neg he]
        rfl
    rw [hdevice] at h
    by_cases he : d = deviceName
    · rw [if_pos he] at h
      cases hs : i.serviceName with
      | none =>
        rw [hs] at h
        cases h
      | some s =>
        rw [hs, strEqual] at h
        obtain rfl := Except.ok.inj h
        rw [namesOf, hd, hs, decide_eq_true_iff, Option.some.injEq, Prod.mk.injEq]
        exact and_iff_right he
    · rw [if_neg he] at h
      obtain rfl := Except.ok.inj h
      refine iff_of_false (fun hn => he ?_) Bool.false_ne_true
      exact Option.some.inj (hd.symm.trans (namesOf_eq_some hn).1)

end Names

section Lists
variable {l : ServiceInfoList} {cells : List Slot} {deviceName serviceName : CharPtr} {fuel : ℕ}
  {r : ℤ × ServiceInfoList}

/-- A search that returns passed entries with other names; the one it found, if any, is
unlinked. `front` are the cells passed before. -/
theorem removeFrom_returns (front : List Slot) {start : Option Ptr}
    (h : Shaped l (front ++ cells)) (hch : Chain l.heap start cells)
    (hr : removeFrom deviceName serviceName l fuel (front.getLast?.map Prod.fst) start = .ok r) :
    (r.2 = l ∧ ∀ x ∈ cells, sameService ⟨x.2, none⟩ deviceName serviceName = .ok false) ∨
      ∃ pre c post, cells = pre ++ c :: post ∧
        (∀ x ∈ pre, sameService ⟨x.2, none⟩ deviceName serviceName = .ok false) ∧
        sameService ⟨c.2, none⟩ deviceName serviceName = .ok true ∧
        Shaped r.2 (front ++ (pre ++ post)) ∧ Untouched l r.2 (front ++ cells) := by
  induction cells generalizing front fuel start with
  | nil =>
    obtain rfl : start = none := hch
    rw [removeFrom] at hr
    exact .inl ⟨congrArg Prod.snd (Except.ok.inj hr).symm, fun _ hm => absurd hm List.not_mem_nil⟩
  | cons c rest ih =>
    obtain ⟨rfl, next, hcell, hrest⟩ := hch
    cases fuel with
    | zero =>
      rw [removeFrom] at hr
      cases hr
    | succ fuel =>
      rw [removeFrom, load_ok hcell] at hr
      change (sameService ⟨c.2, none⟩ deviceName serviceName >>= _) = _ at hr
      obtain ⟨same, hs, hr⟩ := bind_eq_ok.1 hr
      cases same with
      | true =>
        obtain ⟨l', hl, hr⟩ := bind_eq_ok.1 hr
        obtain rfl := Except.ok.inj hr
        refine .inr ⟨[], c, rest, rfl, fun _ hm => absurd hm List.not_mem_nil, hs, ?_⟩
        rcases List.eq_nil_or_concat front with rfl | ⟨before, q, hfront⟩
        · obtain ⟨l'', hl', hshaped, huntouched⟩ := unlink_head h hcell
          obtain rfl := Except.ok.inj (hl'.symm.trans hl)
          exact ⟨hshaped, huntouched⟩
        · rw [List.concat_eq_append] at hfront
          subst hfront
          rw [List.append_assoc] at h ⊢
          rw [List.getLast?_concat] at hl
          obtain ⟨l'', hl', hshaped, huntouched⟩ := unlink_middle h hcell
          obtain rfl := Except.ok.inj (hl'.symm.trans hl)
          rw [List.append_assoc]
          exact ⟨hshaped, huntouched⟩
      | false =>
        have hnext : removeFrom deviceName serviceName l fuel
            ((front ++ [c]).getLast?.map Prod.fst) next = .ok r := by
          rwa [List.getLast?_concat]
        have hsplit : front ++ c :: rest = front ++ [c] ++ rest := by
          rw [List.append_assoc]
          rfl
        rw [hsplit] at h ⊢
        rcases ih (front ++ [c]) h hrest hnext with
          ⟨hl, hpassed⟩ | ⟨pre, x, post, rfl, hpre, hx, hshaped, hu⟩
        · exact .inl ⟨hl, List.forall_mem_cons.2 ⟨hs, hpassed⟩⟩
        · refine .inr ⟨c :: pre, x, post, rfl, List.forall_mem_cons.2 ⟨hs, hpre⟩, hx, ?_, hu⟩
          rwa [List.append_assoc] at hshaped

/-- The names a removal was asked for are gone. -/
theorem Keyed.listRemove (h : Keyed l cells)
    (hr : listRemove fuel l deviceName serviceName = .ok r) :
    ∃ cells', Keyed r.2 cells' ∧ cells'.Sublist cells ∧ Untouched l r.2 cells ∧
      ∀ k : Pair, deviceName = some k.1 → serviceName = some k.2 →
        k ∉ cells'.filterMap slotNames := by
  have passed : ∀ k : Pair, deviceName = some k.1 → serviceName = some k.2 → ∀ c ∈ cells, ∀ b,
      sameService ⟨c.2, none⟩ deviceName serviceName = .ok b → (slotNames c = some k ↔ b = true) := by
    intro k hd hs c hc b hb
    obtain ⟨i, hi⟩ := h.filled c hc
    rw [hi, hd, hs] at hb
    rw [slotNames, hi]
    exact sameService_names hb
  rcases removeFrom_returns [] h.shaped h.shaped.chain hr with
    ⟨hl, hpassed⟩ | ⟨pre, c, post, rfl, hpre, hc, hshaped, hu⟩
  · refine ⟨cells, hl ▸ h, List.Sublist.refl _, ?_, ?_⟩
    · rw [hl]
      exact ⟨rfl, fun _ _ ht => ⟨rfl, ht⟩⟩
    · intro k hd hs hm
      obtain ⟨x, hx, hk⟩ := List.mem_filterMap.1 hm
      exact Bool.false_ne_true ((passed k hd hs x hx false (hpassed x hx)).1 hk)
  · have hsub : (pre ++ post).Sublist (pre ++ c :: post) :=
      (List.sublist_cons_self c post).append_left pre
    refine ⟨pre ++ post, ⟨hshaped, fun x hx => h.filled x (hsub.subset hx), ?_⟩, hsub, hu, ?_⟩
    · exact h.unique.sublist (hsub.filterMap slotNames)
    · intro k hd hs hm
      have hck : slotNames c = some k := (passed k hd hs c (by simp) true hc).2 rfl
      rw [List.filterMap_append, List.mem_append] at hm
      rcases hm with hm | hm
      · obtain ⟨x, hx, hk⟩ := List.mem_filterMap.1 hm
        exact Bool.false_ne_true ((passed k hd hs x (by simp [hx]) false (hpre x hx)).1 hk)
      · have hun := h.unique
        rw [List.filterMap_append, List.filterMap_cons_some hck] at hun
        exact (List.nodup_cons.1 (List.nodup_append.1 hun).2.1).1 hm

theorem Keyed.listAdd {info : ServiceInfo} {l' : ServiceInfoList} (h : Keyed l cells)
    (hr : CList.listAdd fuel l info = .ok l') :
    ∃ cells', Keyed l' (cells' ++ [(l.top, some info)]) ∧ cells'.Sublist cells := by
  obtain ⟨r, hremove, hlink⟩ := bind_eq_ok.1 hr
  have hnode : Keyed (getNode l info).2 cells := ⟨getNode_shaped h.shaped info, h.filled, h.unique⟩
  obtain ⟨cells', hkeyed, hsub, hu, hgone⟩ := hnode.listRemove hremove
  obtain ⟨hheap, htail⟩ := hu.2 l.top h.shaped.top_not_mem h.shaped.tail_ne_top
  have hout : l.top ∉ cells'.map Prod.fst := fun hm =>
    h.shaped.top_not_mem ((hsub.map Prod.fst).subset hm)
  obtain ⟨l'', hl, hlinked⟩ := linkNode_linked hkeyed.shaped hout htail
    (hheap.trans (write_same l.heap l.top _))
  obtain rfl := Except.ok.inj (hl.symm.trans hlink)
  refine ⟨cells', ⟨hlinked.shaped, ?_, ?_⟩, hsub⟩
  · rw [List.forall_mem_append]
    exact ⟨hkeyed.filled, List.forall_mem_singleton.2 ⟨info, rfl⟩⟩
  · rw [List.filterMap_append]
    cases hk : namesOf info with
    | none =>
      have hslot : slotNames (l.top, some info) = none := hk
      rw [List.filterMap_cons_none hslot, List.filterMap_nil, List.append_nil]
      exact hkeyed.unique
    | some k =>
      have hslot : slotNames (l.top, some info) = some k := hk
      obtain ⟨hd, hs⟩ := namesOf_eq_some hk
      rw [List.filterMap_cons_some hslot, List.filterMap_nil, List.nodup_append]
      refine ⟨hkeyed.unique, List.nodup_singleton _, ?_⟩
      rintro a ha b hb rfl
      rw [List.mem_singleton] at hb
      subst hb
      exact hgone a hd hs ha

end Lists

section Nodes
variable {l l' : ServiceInfoList} {fuel : ℕ}

theorem Keeps.refl (l : ServiceInfoList) : Keeps l l := fun _ _ h => h

theorem Keeps.trans {l'' : ServiceInfoList} (h : Keeps l l') (h' : Keeps l' l'') : Keeps l l'' :=
  fun p i hi => h' p i (h p i hi)

theorem storeNext_keeps {p : Ptr} {next : Option Ptr} (h : storeNext l p next = .ok l') :
    Keeps l l' := by
  obtain ⟨node, hload, he⟩ := bind_eq_ok.1 h
  obtain rfl := Except.ok.inj he
  rintro q i ⟨qnext, hq⟩
  by_cases hqp : q = p
  · subst hqp
    rw [load, hq] at hload
    obtain rfl := Except.ok.inj hload
    exact ⟨next, write_same l.heap q _⟩
  · exact ⟨qnext, (write_other hqp _).trans hq⟩

theorem unlink_keeps {prev next : Option Ptr} (h : unlink l prev next = .ok l') : Keeps l l' := by
  cases prev with
  | none =>
    obtain rfl := Except.ok.inj h
    exact Keeps.refl l
  | some q =>
    cases next with
    | some p => exact storeNext_keeps h
    | none =>
      obtain ⟨l₁, hstore, he⟩ := bind_eq_ok.1 h
      obtain rfl := Except.ok.inj he
      have hkeeps : Keeps l l₁ := storeNext_keeps hstore
      exact hkeeps

theorem removeFrom_keeps {deviceName serviceName : CharPtr} {prev start : Option Ptr}
    {r : ℤ × ServiceInfoList}
    (h : removeFrom deviceName serviceName l fuel prev start = .ok r) : Keeps l r.2 := by
  induction fuel generalizing prev start with
  | zero =>
    cases start with
    | none =>
      rw [removeFrom] at h
      obtain rfl := Except.ok.inj h
      exact Keeps.refl l
    | some p =>
      rw [removeFrom] at h
      cases h
  | succ fuel ih =>
    cases start with
    | none =>
      rw [removeFrom] at h
      obtain rfl := Except.ok.inj h
      exact Keeps.refl l
    | some p =>
      rw [removeFrom] at h
      obtain ⟨node, -, h⟩ := bind_eq_ok.1 h
      obtain ⟨same, -, h⟩ := bind_eq_ok.1 h
      cases same with
      | true =>
        obtain ⟨l₁, hunlink, he⟩ := bind_eq_ok.1 h
        obtain rfl := Except.ok.inj he
        exact unlink_keeps hunlink
      | false => exact ih h

theorem linkNode_keeps {node : Ptr} (h : linkNode l node = .ok l') : Keeps l l' := by
  obtain ⟨head, hhead⟩ : ∃ head, (if l.head = none then { l with head := some node } else l) =
      { l with head := head } := by
    split_ifs
    · exact ⟨_, rfl⟩
    · exact ⟨l.head, rfl⟩
  rw [linkNode, hhead] at h
  cases ht : l.tail with
  | none =>
    simp only [ht] at h
    obtain rfl := Except.ok.inj h
    exact Keeps.refl l
  | some t =>
    simp only [ht] at h
    obtain ⟨l₁, hstore, he⟩ := bind_eq_ok.1 h
    obtain rfl := Except.ok.inj he
    have hkeeps : Keeps { l with head := head } l₁ := storeNext_keeps (ht ▸ hstore)
    exact hkeeps

/-- A new node lies where none was. -/
theorem getNode_keeps (fresh : ∀ p, l.top ≤ p → l.heap p = none) (info : ServiceInfo) :
    Keeps l (getNode l info).2 := by
  rintro p i ⟨next, hp⟩
  have hne : p ≠ l.top := by
    rintro rfl
    rw [fresh l.top (Nat.le_refl _)] at hp
    cases hp
  exact ⟨next, (write_other hne _).trans hp⟩

theorem listAdd_keeps (fresh : ∀ p, l.top ≤ p → l.heap p = none) {info : ServiceInfo}
    (h : listAdd fuel l info = .ok l') : Keeps l l' := by
  obtain ⟨r, hremove, hlink⟩ := bind_eq_ok.1 h
  exact (getNode_keeps fresh info).trans ((removeFrom_keeps hremove).trans (linkNode_keeps hlink))

end Nodes

section Runs
variable {cj : CJson} {fuel : ℕ} {l : ServiceInfoList}

theorem initList_keyed : Keyed initList [] :=
  ⟨initList_represents.shaped, fun _ hm => absurd hm List.not_mem_nil, List.nodup_nil⟩

/-- What one packet can do to the list. -/
theorem serve_cases (doc : cj.Documented) {l' : ServiceInfoList} {pkt : List UInt8}
    (hs : serve cj fuel l pkt = .ok l') :
    (∃ info, listAdd fuel l info = .ok l') ∨
      (∃ deviceName serviceName r, listRemove fuel l deviceName serviceName = .ok r ∧ r.2 = l') ∨
      l' = l := by
  by_cases hr : ∃ info, Requests cj pkt .registerService info
  · obtain ⟨info, hreq⟩ := hr
    rw [serve_register doc hreq] at hs
    exact .inl ⟨info, hs⟩
  by_cases hu : ∃ info, Requests cj pkt .unregisterService info
  · obtain ⟨info, hreq⟩ := hu
    rw [serve_unregister doc hreq] at hs
    obtain ⟨r, hremove, he⟩ := map_eq_ok.1 hs
    exact .inr (.inl ⟨_, _, r, hremove, he⟩)
  by_cases hi : ∃ info, Requests cj pkt .inquiry info
  · obtain ⟨info, hreq⟩ := hi
    rw [serve_inquiry hreq] at hs
    obtain ⟨sent, -, he⟩ := map_eq_ok.1 hs
    exact .inr (.inr he.symm)
  · exact .inr (.inr
      ((serve_ignored (not_exists.1 hr) (not_exists.1 hu) (not_exists.1 hi)).2 l' hs))

theorem Keyed.serve (doc : cj.Documented) {cells : List Slot} {l' : ServiceInfoList}
    {pkt : List UInt8} (h : Keyed l cells) (hs : serve cj fuel l pkt = .ok l') :
    ∃ cells', Keyed l' cells' ∧ cells'.length ≤ cells.length + 1 := by
  rcases serve_cases doc hs with ⟨info, hadd⟩ | ⟨deviceName, serviceName, r, hremove, rfl⟩ | rfl
  · obtain ⟨cells', hkeyed, hsub⟩ := h.listAdd hadd
    refine ⟨_, hkeyed, ?_⟩
    rw [List.length_append]
    exact Nat.succ_le_succ hsub.length_le
  · obtain ⟨cells', hkeyed, hsub, -⟩ := h.listRemove hremove
    exact ⟨cells', hkeyed, hsub.length_le.trans (Nat.le_succ _)⟩
  · exact ⟨cells, h, Nat.le_succ _⟩

theorem Keyed.serve_keeps (doc : cj.Documented) {cells : List Slot} {l' : ServiceInfoList}
    {pkt : List UInt8} (h : Keyed l cells) (hs : CRegistry.serve cj fuel l pkt = .ok l') :
    Keeps l l' := by
  rcases serve_cases doc hs with ⟨info, hadd⟩ | ⟨deviceName, serviceName, r, hremove, rfl⟩ | rfl
  · exact listAdd_keeps h.shaped.fresh hadd
  · exact removeFrom_keeps hremove
  · exact Keeps.refl l'

/-- Along every run of packets. -/
theorem serves_keyed (doc : cj.Documented) {front : List (List UInt8)}
    (h : serves cj fuel front = .ok l) : ∃ cells, Keyed l cells ∧ cells.length ≤ front.length := by
  induction front using List.reverseRecOn generalizing l with
  | nil => exact ⟨[], Except.ok.inj h ▸ initList_keyed, Nat.le_refl _⟩
  | append_singleton front pkt ih =>
    rw [serves_snoc] at h
    obtain ⟨l₀, hl₀, hserve⟩ := bind_eq_ok.1 h
    obtain ⟨cells, hkeyed, hlen⟩ := ih hl₀
    obtain ⟨cells', hkeyed', hlen'⟩ := hkeyed.serve doc hserve
    refine ⟨cells', hkeyed', ?_⟩
    rw [List.length_append]
    exact hlen'.trans (Nat.succ_le_succ hlen)

end Runs

section Named
variable {l : ServiceInfoList} {cells : List Slot}

theorem exists_nodes (h : ∀ c ∈ cells, ∃ i : NamedInfo, c.2 = some i.info) :
    ∃ nodes, cellsOf nodes = cells := by
  induction cells with
  | nil => exact ⟨[], rfl⟩
  | cons c cells ih =>
    rw [List.forall_mem_cons] at h
    obtain ⟨⟨i, hi⟩, hcells⟩ := h
    obtain ⟨nodes, rfl⟩ := ih hcells
    refine ⟨(c.1, i) :: nodes, ?_⟩
    rw [cellsOf, List.map_cons, ← hi]
    rfl

theorem slotNames_cellsOf (nodes : List Node) :
    (cellsOf nodes).filterMap slotNames = (infos nodes).map pairOf := by
  induction nodes with
  | nil => rfl
  | cons c nodes ih =>
    have hc : slotNames (c.1, some c.2.info) = some (pairOf c.2) := namesOf_info c.2
    rw [cellsOf, List.map_cons, List.filterMap_cons_some hc, infos, List.map_cons, List.map_cons]
    exact congrArg _ ih

/-- Where every info of the list has both names, it is a registry. -/
theorem Keyed.stored (h : Keyed l cells) (named : AllNamed l) :
    ∃ xs, Stored l xs ∧ xs.length = cells.length := by
  have hnodes : ∀ c ∈ cells, ∃ i : NamedInfo, c.2 = some i.info := by
    intro c hc
    obtain ⟨i, hi⟩ := h.filled c hc
    have hholds : Holds l i := ⟨cells, h.shaped.chain, c.1, hi ▸ hc⟩
    obtain ⟨⟨d, hd⟩, ⟨s, hs⟩⟩ := named i hholds
    exact ⟨⟨i, d, s, hd, hs⟩, hi⟩
  obtain ⟨nodes, rfl⟩ := exists_nodes hnodes
  have hunique := h.unique
  rw [slotNames_cellsOf] at hunique
  refine ⟨_, ⟨nodes, h.shaped.represents hunique, rfl⟩, ?_⟩
  rw [List.length_map, infos, List.length_map, cellsOf, List.length_map]

end Named

end MiniServiceDiscover.CReachable
