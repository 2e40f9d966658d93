import MiniServiceDiscover.CList
import MiniServiceDiscover.KeyedList
import Mathlib.Data.List.Perm.Subperm

set_option autoImplicit false

/-! The pointer list against the abstract registry: delete the entry with the
key, then append; the stale tail of an emptied list included. -/
namespace MiniServiceDiscover.CListRefinement
open CProtocal PointerChain CList KeyedList

abbrev Pair := CString × CString

def pairOf (i : NamedInfo) : Pair := (i.deviceName, i.serviceName)

/-- A node of the list: its address and its info. -/
abbrev Node := Ptr × NamedInfo

def cellsOf (nodes : List Node) : List (Ptr × Option ServiceInfo) :=
  nodes.map fun c => (c.1, some c.2.info)

def ptrs (nodes : List Node) : List Ptr := nodes.map Prod.fst

def infos (nodes : List Node) : List NamedInfo := nodes.map Prod.snd

def deleteNodes (k : Pair) (nodes : List Node) : List Node := nodes.filter fun c => pairOf c.2 ≠ k

/-- The list holds these nodes. `tail` is their last one, and in an empty list
whatever node was removed last. -/
structure Represents (l : ServiceInfoList) (nodes : List Node) : Prop where
  chain : Chain l.heap l.head (cellsOf nodes)
  fresh : ∀ p, l.top ≤ p → l.heap p = none
  stale : ∀ t, l.tail = some t → (l.heap t).isSome
  last : ∀ c, nodes.getLast? = some c → l.tail = some c.1
  unique : KeyedList.Unique pairOf (infos nodes)

/-- Cells from `head` to `tail`, whatever they hold. -/
structure Shaped (l : ServiceInfoList) (cells : List (Ptr × Option ServiceInfo)) : Prop where
  chain : Chain l.heap l.head cells
  fresh : ∀ p, l.top ≤ p → l.heap p = none
  stale : ∀ t, l.tail = some t → (l.heap t).isSome
  last : ∀ c, cells.getLast? = some c → l.tail = some c.1

section Nodes

theorem cellsOf_append (a b : List Node) : cellsOf (a ++ b) = cellsOf a ++ cellsOf b :=
  List.map_append

theorem cellsOf_ptrs (nodes : List Node) : (cellsOf nodes).map Prod.fst = ptrs nodes := by
  rw [cellsOf, List.map_map]
  rfl

theorem infos_deleteNodes (k : Pair) (nodes : List Node) :
    infos (deleteNodes k nodes) = delete pairOf k (infos nodes) := by
  rw [infos, deleteNodes, infos, delete, List.filter_map]
  rfl

theorem present_iff (k : Pair) (nodes : List Node) :
    Present pairOf k (infos nodes) ↔ ∃ c ∈ nodes, pairOf c.2 = k := by
  constructor
  · rintro ⟨i, hi, hk⟩
    obtain ⟨c, hc, rfl⟩ := List.mem_map.1 hi
    exact ⟨c, hc, hk⟩
  · rintro ⟨c, hc, hk⟩
    exact ⟨c.2, List.mem_map.2 ⟨c, hc, rfl⟩, hk⟩

theorem deleteNodes_absent {k : Pair} {nodes : List Node} (h : ¬ Present pairOf k (infos nodes)) :
    deleteNodes k nodes = nodes := by
  rw [present_iff] at h
  apply List.filter_eq_self.2
  intro c hc
  simpa using fun hk => h ⟨c, hc, hk⟩

theorem deleteNodes_split {pre post : List Node} {c : Node}
    (h : KeyedList.Unique pairOf (infos (pre ++ c :: post))) :
    deleteNodes (pairOf c.2) (pre ++ c :: post) = pre ++ post := by
  simp only [KeyedList.Unique, infos, List.map_append, List.map_cons, List.map_map,
    List.nodup_append, List.nodup_cons] at h
  obtain ⟨-, ⟨hpost, -⟩, hpre⟩ := h
  have keeps : ∀ nodes : List Node, (∀ x ∈ nodes, pairOf x.2 ≠ pairOf c.2) →
      nodes.filter (fun x => pairOf x.2 ≠ pairOf c.2) = nodes := by
    intro nodes hn
    exact List.filter_eq_self.2 fun x hx => by simpa using hn x hx
  rw [deleteNodes, List.filter_append, List.filter_cons_of_neg (by simp), keeps pre, keeps post]
  · intro x hx he
    exact hpost (List.mem_map.2 ⟨x, hx, he⟩)
  · intro x hx
    exact hpre _ (List.mem_map.2 ⟨x, hx, rfl⟩) _ (by simp)

end Nodes

section Heap
variable {l : ServiceInfoList} {cells : List (Ptr × Option ServiceInfo)}

theorem Represents.shaped {nodes : List Node} (h : Represents l nodes) :
    Shaped l (cellsOf nodes) := by
  refine ⟨h.chain, h.fresh, h.stale, fun c hc => ?_⟩
  rw [cellsOf, List.getLast?_map] at hc
  obtain ⟨x, hx, rfl⟩ := Option.map_eq_some_iff.1 hc
  exact h.last x hx

theorem Shaped.represents {nodes : List Node} (h : Shaped l (cellsOf nodes))
    (unique : KeyedList.Unique pairOf (infos nodes)) : Represents l nodes := by
  refine ⟨h.chain, h.fresh, h.stale, fun c hc => ?_, unique⟩
  refine h.last (c.1, some c.2.info) ?_
  rw [cellsOf, List.getLast?_map, hc]
  rfl

theorem load_ok {p : Ptr} {node : Cell (Option ServiceInfo)} (h : l.heap p = some node) :
    load l p = .ok node := by
  rw [load, h]

theorem storeNext_ok {p : Ptr} {node : Cell (Option ServiceInfo)} (h : l.heap p = some node)
    (next : Option Ptr) :
    storeNext l p next = .ok { l with heap := write l.heap p { node with next := next } } := by
  rw [storeNext, load_ok h]
  rfl

theorem write_fresh {p : Ptr} (hf : ∀ q, l.top ≤ q → l.heap q = none) (hp : (l.heap p).isSome)
    (c : Cell (Option ServiceInfo)) : ∀ q, l.top ≤ q → write l.heap p c q = none := by
  intro q hq
  have hn := hf q hq
  rw [write_other, hn]
  rintro rfl
  rw [hn] at hp
  cases hp

theorem write_isSome {p q : Ptr} (h : (l.heap q).isSome) (c : Cell (Option ServiceInfo)) :
    (write l.heap p c q).isSome := by
  by_cases hqp : q = p
  · rw [hqp, write_same]
    rfl
  · rw [write_other hqp]
    exact h

/-- The next node comes to lie outside the list. -/
theorem Shaped.top_not_mem (h : Shaped l cells) : l.top ∉ cells.map Prod.fst := by
  intro hm
  have ha := Segment.allocated h.chain hm
  rw [h.fresh l.top (Nat.le_refl _)] at ha
  cases ha

theorem Represents.top_not_mem {nodes : List Node} (h : Represents l nodes) :
    l.top ∉ ptrs nodes :=
  cellsOf_ptrs nodes ▸ h.shaped.top_not_mem

theorem Represents.length_le_top {nodes : List Node} (h : Represents l nodes) :
    nodes.length ≤ l.top := by
  have hnodup : (ptrs nodes).Nodup := cellsOf_ptrs nodes ▸ h.chain.nodup
  have hsub : ptrs nodes ⊆ List.range l.top := by
    intro p hp
    rw [List.mem_range]
    by_contra hge
    rw [← cellsOf_ptrs] at hp
    have ha := Segment.allocated h.chain hp
    rw [h.fresh p (Nat.not_lt.1 hge)] at ha
    cases ha
  have hle := (hnodup.subperm hsub).length_le
  rwa [List.length_range, ptrs, List.length_map] at hle

theorem sameService_named (i : NamedInfo) (next : Option Ptr) (deviceName serviceName : CString) :
    sameService ⟨some i.info, next⟩ (some deviceName) (some serviceName) =
      .ok (decide (pairOf i = (deviceName, serviceName))) := by
  simp only [sameService, i.hasDeviceName, i.hasServiceName, strEqual, pairOf, Prod.mk.injEq,
    Bool.decide_and]
  change (if decide (i.deviceName = deviceName) = true then _ else _) = _
  by_cases h : i.deviceName = deviceName
  · simp [h]
  · simp only [h, decide_false, Bool.false_eq_true, if_false, Bool.false_and]
    rfl

end Heap

section Remove
variable {l : ServiceInfoList} {deviceName serviceName : CString}

theorem removeFrom_step (fuel : ℕ) (prev : Option Ptr) {start : Option Ptr} {c : Node}
    {rest : List Node} (h : Chain l.heap start (cellsOf (c :: rest)))
    (hc : pairOf c.2 ≠ (deviceName, serviceName)) :
    ∃ next, removeFrom (some deviceName) (some serviceName) l (fuel + 1) prev start =
      removeFrom (some deviceName) (some serviceName) l fuel (some c.1) next ∧
        Chain l.heap next (cellsOf rest) := by
  obtain ⟨rfl, next, hcell, hrest⟩ := h
  refine ⟨next, ?_, hrest⟩
  rw [removeFrom, load_ok hcell]
  change (sameService ⟨some c.2.info, next⟩ _ _ >>= _) = _
  rw [sameService_named, decide_eq_false hc]
  rfl

theorem removeFrom_absent {nodes : List Node} {fuel : ℕ} {prev start : Option Ptr}
    (h : Chain l.heap start (cellsOf nodes)) (hf : nodes.length ≤ fuel)
    (hk : ∀ c ∈ nodes, pairOf c.2 ≠ (deviceName, serviceName)) :
    removeFrom (some deviceName) (some serviceName) l fuel prev start = .ok (-1, l) := by
  induction nodes generalizing fuel prev start with
  | nil =>
    obtain rfl : start = none := h
    cases fuel <;> rfl
  | cons c rest ih =>
    obtain ⟨fuel, rfl⟩ := Nat.exists_eq_add_of_lt (Nat.lt_of_lt_of_le (Nat.succ_pos _) hf)
    rw [Nat.zero_add]
    obtain ⟨next, hstep, hrest⟩ := removeFrom_step fuel prev h (hk c (by simp))
    rw [hstep]
    rw [List.length_cons] at hf
    exact ih hrest (by omega) fun x hx => hk x (by simp [hx])

/-- The node passed last before a position. -/
def lastPtr : Option Ptr → List Node → Option Ptr
  | prev, [] => prev
  | _, c :: nodes => lastPtr (some c.1) nodes

theorem lastPtr_append (prev : Option Ptr) (nodes : List Node) (c : Node) :
    lastPtr prev (nodes ++ [c]) = some c.1 := by
  induction nodes generalizing prev with
  | nil => rfl
  | cons x nodes ih => exact ih (some x.1)

theorem removeFrom_found {pre post : List Node} {c : Node} {fuel : ℕ} {prev start next : Option Ptr}
    (h : Chain l.heap start (cellsOf (pre ++ c :: post))) (hf : pre.length < fuel)
    (hk : ∀ x ∈ pre, pairOf x.2 ≠ (deviceName, serviceName))
    (hc : pairOf c.2 = (deviceName, serviceName)) (hcell : l.heap c.1 = some ⟨some c.2.info, next⟩) :
    removeFrom (some deviceName) (some serviceName) l fuel prev start =
      (unlink l (lastPtr prev pre) next).map fun l => (0, l) := by
  induction pre generalizing fuel prev start with
  | nil =>
    obtain ⟨fuel, rfl⟩ := Nat.exists_eq_add_of_lt hf
    obtain rfl : start = some c.1 := h.1
    rw [removeFrom, load_ok hcell]
    change (sameService ⟨some c.2.info, next⟩ _ _ >>= _) = _
    rw [sameService_named, decide_eq_true hc]
    change (unlink l prev next >>= _) = (unlink l prev next).map _
    cases unlink l prev next <;> rfl
  | cons x pre ih =>
    obtain ⟨fuel, rfl⟩ := Nat.exists_eq_add_of_lt (Nat.lt_of_le_of_lt (Nat.zero_le _) hf)
    rw [Nat.zero_add] at hf ⊢
    obtain ⟨next', hstep, hrest⟩ := removeFrom_step fuel prev h (hk x (by simp))
    rw [hstep]
    rw [List.length_cons] at hf
    exact ih hrest (by omega) fun y hy => hk y (by simp [hy])

/-- What a removal leaves alone outside the list. -/
def Frame (l l' : ServiceInfoList) (nodes : List Node) : Prop :=
  l'.top = l.top ∧ ∀ p, p ∉ ptrs nodes → l.tail ≠ some p →
    l'.heap p = l.heap p ∧ l'.tail ≠ some p

theorem Frame.refl (l : ServiceInfoList) (nodes : List Node) : Frame l l nodes :=
  ⟨rfl, fun _ _ ht => ⟨rfl, ht⟩⟩

/-- The same for any cells. -/
def Untouched (l l' : ServiceInfoList) (cells : List (Ptr × Option ServiceInfo)) : Prop :=
  l'.top = l.top ∧ ∀ p, p ∉ cells.map Prod.fst → l.tail ≠ some p →
    l'.heap p = l.heap p ∧ l'.tail ≠ some p

theorem Untouched.frame {l' : ServiceInfoList} {nodes : List Node}
    (h : Untouched l l' (cellsOf nodes)) : Frame l l' nodes := by
  rwa [Untouched, cellsOf_ptrs] at h

section Cells
variable {pre post : List (Ptr × Option ServiceInfo)} {q c : Ptr × Option ServiceInfo}
  {next : Option Ptr}

theorem unlink_head (h : Shaped l (c :: post)) (hcell : l.heap c.1 = some ⟨c.2, next⟩) :
    ∃ l', unlink l none next = .ok l' ∧ Shaped l' post ∧ Untouched l l' (c :: post) := by
  obtain ⟨-, next', hcell', hpost⟩ := h.chain
  obtain rfl : next = next' := congrArg Cell.next (Option.some.inj (hcell.symm.trans hcell'))
  refine ⟨{ l with head := next }, rfl, ⟨hpost, h.fresh, h.stale, ?_⟩, rfl,
    fun _ _ ht => ⟨rfl, ht⟩⟩
  intro x hx
  apply h.last x
  rw [List.getLast?_cons, hx]
  rfl

theorem ne_of_not_mem {p q : Ptr} {ps : List Ptr} (hp : p ∉ ps) (hq : q ∈ ps) : p ≠ q := by
  rintro rfl
  exact hp hq

theorem relink_middle (h : Chain l.heap l.head (pre ++ q :: c :: post))
    (hcell : l.heap c.1 = some ⟨c.2, next⟩) :
    Chain l.heap next post ∧ (∃ nextq, l.heap q.1 = some ⟨q.2, nextq⟩) ∧
      Chain (write l.heap q.1 ⟨q.2, next⟩) l.head (pre ++ q :: post) := by
  obtain ⟨nextq, -, hq, -, next', hcell', hpost⟩ := h.split
  obtain rfl : next = next' := congrArg Cell.next (Option.some.inj (hcell.symm.trans hcell'))
  have hnd := h.nodup
  rw [List.map_append, List.map_cons, List.nodup_append, List.nodup_cons] at hnd
  have hqpost : q.1 ∉ post.map Prod.fst := fun hm => hnd.2.1.1 (List.mem_cons_of_mem _ hm)
  exact ⟨hpost, ⟨nextq, hq⟩, h.relink hpost hqpost⟩

theorem unlink_middle (h : Shaped l (pre ++ q :: c :: post))
    (hcell : l.heap c.1 = some ⟨c.2, next⟩) :
    ∃ l', unlink l (some q.1) next = .ok l' ∧ Shaped l' (pre ++ q :: post) ∧
      Untouched l l' (pre ++ q :: c :: post) := by
  obtain ⟨hpost, ⟨nextq, hq⟩, hchain⟩ := relink_middle h.chain hcell
  have hst := storeNext_ok hq next
  have hsome : (l.heap q.1).isSome := Option.isSome_iff_exists.2 ⟨_, hq⟩
  have hmem : q.1 ∈ (pre ++ q :: c :: post).map Prod.fst := by simp
  cases post with
  | nil =>
    obtain rfl : next = none := hpost
    refine ⟨{ l with heap := write l.heap q.1 ⟨q.2, none⟩, tail := some q.1 }, ?_,
      ⟨hchain, write_fresh h.fresh hsome _, ?_, ?_⟩, rfl, ?_⟩
    · rw [unlink, hst]
      rfl
    · rintro t ht
      obtain rfl := Option.some.inj ht
      exact write_isSome hsome _
    · intro x hx
      rw [List.getLast?_concat, Option.some.injEq] at hx
      rw [hx]
    · intro p hp ht
      refine ⟨write_other (ne_of_not_mem hp hmem) _, ?_⟩
      intro he
      obtain rfl := Option.some.inj he
      exact hp hmem
  | cons d post =>
    obtain rfl : next = some d.1 := hpost.1
    refine ⟨{ l with heap := write l.heap q.1 ⟨q.2, some d.1⟩ }, hst,
      ⟨hchain, write_fresh h.fresh hsome _, fun t ht => write_isSome (h.stale t ht) _, ?_⟩,
      rfl, ?_⟩
    · intro x hx
      apply h.last x
      rw [List.getLast?_append] at hx ⊢
      exact hx
    · intro p hp ht
      exact ⟨write_other (ne_of_not_mem hp hmem) _, ht⟩

end Cells

theorem exists_split {k : Pair} {nodes : List Node} (h : Present pairOf k (infos nodes)) :
    ∃ pre c post, nodes = pre ++ c :: post ∧ pairOf c.2 = k ∧ ∀ x ∈ pre, pairOf x.2 ≠ k := by
  rw [present_iff] at h
  induction nodes with
  | nil => simp at h
  | cons x nodes ih =>
    by_cases hx : pairOf x.2 = k
    · exact ⟨[], x, nodes, rfl, hx, by simp⟩
    · obtain ⟨c, hc, hk⟩ := h
      rcases List.mem_cons.1 hc with rfl | hc
      · exact absurd hk hx
      · obtain ⟨pre, d, post, rfl, hd, hpre⟩ := ih ⟨c, hc, hk⟩
        refine ⟨x :: pre, d, post, rfl, hd, ?_⟩
        intro y hy
        rcases List.mem_cons.1 hy with rfl | hy
        · exact hx
        · exact hpre y hy

/-- `list_remove` deletes the key, and reports whether it was there. -/
theorem listRemove_spec (deviceName serviceName : CString) {nodes : List Node} {fuel : ℕ}
    (h : Represents l nodes) (hf : nodes.length ≤ fuel) :
    ∃ l', listRemove fuel l (some deviceName) (some serviceName) =
        .ok (if Present pairOf (deviceName, serviceName) (infos nodes) then 0 else -1, l') ∧
      Represents l' (deleteNodes (deviceName, serviceName) nodes) ∧ Frame l l' nodes ∧
      (¬ Present pairOf (deviceName, serviceName) (infos nodes) → l' = l) := by
  by_cases hp : Present pairOf (deviceName, serviceName) (infos nodes)
  · obtain ⟨pre, c, post, rfl, hc, hpre⟩ := exists_split hp
    have hdel : deleteNodes (deviceName, serviceName) (pre ++ c :: post) = pre ++ post :=
      hc ▸ deleteNodes_split h.unique
    have hch := h.chain
    rw [cellsOf_append] at hch
    obtain ⟨next, -, hcell, -⟩ := hch.split
    have hfound : removeFrom (some deviceName) (some serviceName) l fuel none l.head =
        (unlink l (lastPtr none pre) next).map fun l => (0, l) := removeFrom_found h.chain
      (by rw [List.length_append, List.length_cons] at hf; omega) hpre hc hcell
    have hun : KeyedList.Unique pairOf (infos (pre ++ post)) := by
      rw [← hdel, infos_deleteNodes]
      exact delete_unique pairOf h.unique _
    rw [if_pos hp, hdel, listRemove, hfound]
    have hs := h.shaped
    rw [cellsOf_append] at hs
    rcases List.eq_nil_or_concat pre with rfl | ⟨front, q, hq⟩
    · obtain ⟨l', hl, hr, hfr⟩ := unlink_head hs hcell
      refine ⟨l', ?_, hr.represents hun, hfr.frame, fun hn => absurd hp hn⟩
      rw [lastPtr, hl]
      rfl
    · rw [List.concat_eq_append] at hq
      subst hq
      rw [cellsOf_append, List.append_assoc] at hs
      obtain ⟨l', hl, hr, hfr⟩ := unlink_middle hs hcell
      rw [lastPtr_append]
      refine ⟨l', ?_, Shaped.represents ?_ hun, Untouched.frame ?_, fun hn => absurd hp hn⟩
      · rw [hl]
        rfl
      · rwa [cellsOf_append, cellsOf_append, List.append_assoc]
      · rwa [cellsOf_append, cellsOf_append, List.append_assoc]
  · rw [if_neg hp, deleteNodes_absent hp]
    refine ⟨l, ?_, h, Frame.refl l nodes, fun _ => rfl⟩
    rw [present_iff] at hp
    exact removeFrom_absent h.chain hf fun c hc hk => hp ⟨c, hc, hk⟩

end Remove

section Add
variable {l : ServiceInfoList} {cells : List (Ptr × Option ServiceInfo)}

theorem Shaped.tail_ne_top (h : Shaped l cells) : l.tail ≠ some l.top := by
  intro ht
  have hs := h.stale _ ht
  rw [h.fresh l.top (Nat.le_refl _)] at hs
  cases hs

theorem getNode_shaped (h : Shaped l cells) (info : ServiceInfo) :
    Shaped (getNode l info).2 cells := by
  refine ⟨Segment.write h.chain h.top_not_mem _, ?_, ?_, h.last⟩
  · intro p hp
    change l.top + 1 ≤ p at hp
    change write l.heap l.top _ p = none
    rw [write_other (Nat.ne_of_gt hp), h.fresh p (Nat.le_of_succ_le hp)]
  · exact fun t ht => write_isSome (h.stale t ht) _

theorem getNode_represents {nodes : List Node} (h : Represents l nodes) (info : ServiceInfo) :
    Represents (getNode l info).2 nodes :=
  (getNode_shaped h.shaped info).represents h.unique

/-- The list ends in the cell at `p`. -/
structure Linked (l : ServiceInfoList) (cells : List (Ptr × Option ServiceInfo)) (p : Ptr)
    (info : ServiceInfo) : Prop where
  chain : Chain l.heap l.head (cells ++ [(p, some info)])
  fresh : ∀ q, l.top ≤ q → l.heap q = none
  stored : (l.heap p).isSome
  tail : l.tail = some p

theorem Linked.shaped {p : Ptr} {info : ServiceInfo} (h : Linked l cells p info) :
    Shaped l (cells ++ [(p, some info)]) := by
  refine ⟨h.chain, h.fresh, ?_, ?_⟩
  · intro t ht
    obtain rfl := Option.some.inj (h.tail.symm.trans ht)
    exact h.stored
  · intro c hc
    rw [List.getLast?_concat, Option.some.injEq] at hc
    rw [h.tail, ← hc]

/-- An empty list takes the node as its head, whatever `tail` still points to. -/
theorem linkNode_empty {p : Ptr} {info : ServiceInfo} (h : Shaped l []) (ht : l.tail ≠ some p)
    (hcell : l.heap p = some ⟨some info, none⟩) :
    ∃ l', linkNode l p = .ok l' ∧ Linked l' [] p info := by
  have hsome : (l.heap p).isSome := Option.isSome_iff_exists.2 ⟨_, hcell⟩
  have hhead : l.head = none := h.chain
  cases htail : l.tail with
  | none =>
    refine ⟨{ l with head := some p, tail := some p }, ?_,
      ⟨⟨rfl, none, hcell, rfl⟩, h.fresh, hsome, rfl⟩⟩
    simp only [linkNode, hhead, if_true, htail]
  | some t =>
    obtain ⟨node, hnode⟩ := Option.isSome_iff_exists.1 (h.stale t htail)
    have hpt : p ≠ t := fun he => ht (he ▸ htail)
    refine ⟨⟨write l.heap t { node with next := some p }, l.top, some p, some p⟩, ?_,
      ⟨⟨rfl, none, (write_other hpt _).trans hcell, rfl⟩,
        write_fresh h.fresh (h.stale t htail) _, write_isSome hsome _, rfl⟩⟩
    have hs := storeNext_ok (l := ⟨l.heap, l.top, some p, some t⟩) hnode (some p)
    simp only [linkNode, hhead, if_true, htail]
    rw [hs]
    rfl

theorem linkNode_behind {c : Ptr × Option ServiceInfo} {p : Ptr} {info : ServiceInfo}
    (h : Shaped l (cells ++ [c])) (hpc : p ≠ c.1)
    (hcell : l.heap p = some ⟨some info, none⟩) :
    ∃ l', linkNode l p = .ok l' ∧ Linked l' (cells ++ [c]) p info := by
  have hsome : (l.heap p).isSome := Option.isSome_iff_exists.2 ⟨_, hcell⟩
  have htail : l.tail = some c.1 := h.last c List.getLast?_concat
  have hhead : l.head ≠ none := h.chain.eq_nil_iff.not.1 (by simp)
  obtain ⟨next, -, hc, -⟩ := h.chain.split
  have hcs : (l.heap c.1).isSome := Option.isSome_iff_exists.2 ⟨_, hc⟩
  have hnew : Chain l.heap (some p) [(p, some info)] := ⟨rfl, none, hcell, rfl⟩
  have hrelink := h.chain.relink hnew (by simpa using Ne.symm hpc)
  refine ⟨{ l with heap := write l.heap c.1 ⟨c.2, some p⟩, tail := some p }, ?_,
    ⟨?_, write_fresh h.fresh hcs _, write_isSome hsome _, rfl⟩⟩
  · rw [linkNode, if_neg hhead]
    simp only [htail]
    rw [storeNext_ok hc]
    rfl
  · rw [List.append_assoc]
    exact hrelink

/-- Linking a fresh node behind `tail` appends it, whether the list has nodes or
was emptied and left its tail behind. -/
theorem linkNode_linked {p : Ptr} {info : ServiceInfo} (h : Shaped l cells)
    (hp : p ∉ cells.map Prod.fst) (ht : l.tail ≠ some p)
    (hcell : l.heap p = some ⟨some info, none⟩) :
    ∃ l', linkNode l p = .ok l' ∧ Linked l' cells p info := by
  rcases List.eq_nil_or_concat cells with rfl | ⟨front, c, hcells⟩
  · exact linkNode_empty h ht hcell
  · rw [List.concat_eq_append] at hcells
    subst hcells
    exact linkNode_behind h (ne_of_not_mem hp (by simp)) hcell

theorem linkNode_spec {nodes : List Node} {p : Ptr} {i : NamedInfo} (h : Represents l nodes)
    (hp : p ∉ ptrs nodes) (ht : l.tail ≠ some p) (hcell : l.heap p = some ⟨some i.info, none⟩)
    (hk : ¬ Present pairOf (pairOf i) (infos nodes)) :
    ∃ l', linkNode l p = .ok l' ∧ Represents l' (nodes ++ [(p, i)]) := by
  have hun : KeyedList.Unique pairOf (infos (nodes ++ [(p, i)])) := by
    have hput := putBack_unique pairOf h.unique i
    rw [putBack, delete_eq_self pairOf hk] at hput
    rw [infos, List.map_append]
    exact hput
  obtain ⟨l', hl, hlinked⟩ := linkNode_linked h.shaped (by rwa [cellsOf_ptrs]) ht hcell
  refine ⟨l', hl, Shaped.represents ?_ hun⟩
  rw [cellsOf_append]
  exact hlinked.shaped

/-- `list_add` deletes the key and appends the info at a new address. -/
theorem listAdd_spec {nodes : List Node} {fuel : ℕ} (h : Represents l nodes)
    (hf : nodes.length ≤ fuel) (i : NamedInfo) :
    ∃ l', listAdd fuel l i.info = .ok l' ∧
      Represents l' (deleteNodes (pairOf i) nodes ++ [(l.top, i)]) := by
  have htail := h.shaped.tail_ne_top
  obtain ⟨l', hrem, hrep, ⟨-, hframe⟩, -⟩ := listRemove_spec i.deviceName
    i.serviceName (getNode_represents h i.info) hf
  obtain ⟨hheap, htail'⟩ := hframe l.top h.top_not_mem htail
  have hdel : l.top ∉ ptrs (deleteNodes (i.deviceName, i.serviceName) nodes) := by
    intro hm
    obtain ⟨c, hc, he⟩ := List.mem_map.1 hm
    exact h.top_not_mem (List.mem_map.2 ⟨c, (List.mem_filter.1 hc).1, he⟩)
  have habs : ¬ Present pairOf (pairOf i)
      (infos (deleteNodes (i.deviceName, i.serviceName) nodes)) := by
    rw [infos_deleteNodes]
    exact not_present_delete pairOf _ _
  obtain ⟨l'', hlink, hrep'⟩ := linkNode_spec hrep hdel htail'
    (hheap.trans (write_same l.heap l.top _)) habs
  refine ⟨l'', ?_, hrep'⟩
  rw [listAdd, i.hasDeviceName, i.hasServiceName, hrem]
  exact hlink

end Add

section Runs

/-- What the calls do to the abstract registry. -/
def applyOp (registry : List NamedInfo) : Op → List NamedInfo
  | .listAdd i => putBack pairOf i registry
  | .listRemove deviceName serviceName => delete pairOf (deviceName, serviceName) registry

def abstractRun (ops : List Op) : List NamedInfo := ops.foldl applyOp []

theorem initList_represents : Represents initList [] :=
  ⟨rfl, fun _ _ => rfl, (fun _ h => nomatch h), (fun _ h => nomatch h), List.nodup_nil⟩

theorem applyOp_length (registry : List NamedInfo) (op : Op) :
    (applyOp registry op).length ≤ registry.length + 1 := by
  cases op with
  | listAdd i =>
    simp only [applyOp, putBack, List.length_append, List.length_singleton]
    exact Nat.succ_le_succ (List.length_filter_le _ _)
  | listRemove deviceName serviceName => exact (List.length_filter_le _ _).trans (Nat.le_succ _)

theorem abstractRun_append (ops : List Op) (op : Op) :
    abstractRun (ops ++ [op]) = applyOp (abstractRun ops) op := by
  rw [abstractRun, List.foldl_append]
  rfl

theorem abstractRun_length (ops : List Op) : (abstractRun ops).length ≤ ops.length := by
  induction ops using List.reverseRecOn with
  | nil => exact Nat.le_refl _
  | append_singleton ops op ih =>
    rw [abstractRun_append, List.length_append]
    exact (applyOp_length _ op).trans (Nat.succ_le_succ ih)

theorem step_spec {l : ServiceInfoList} {nodes : List Node} {fuel : ℕ} (h : Represents l nodes)
    (hf : nodes.length ≤ fuel) (op : Op) :
    ∃ l' nodes', step fuel l op = .ok l' ∧ Represents l' nodes' ∧
      infos nodes' = applyOp (infos nodes) op := by
  cases op with
  | listAdd i =>
    obtain ⟨l', hl, hr⟩ := listAdd_spec h hf i
    refine ⟨l', _, hl, hr, ?_⟩
    rw [infos, List.map_append, applyOp, putBack, ← infos_deleteNodes]
    rfl
  | listRemove deviceName serviceName =>
    obtain ⟨l', hl, hr, -⟩ := listRemove_spec deviceName serviceName h hf
    refine ⟨l', _, ?_, hr, infos_deleteNodes _ _⟩
    rw [step, hl]
    rfl

theorem run_spec (ops : List Op) {fuel : ℕ} (hf : ops.length ≤ fuel) :
    ∃ l nodes, run fuel ops = .ok l ∧ Represents l nodes ∧ infos nodes = abstractRun ops := by
  induction ops using List.reverseRecOn with
  | nil => exact ⟨initList, [], rfl, initList_represents, rfl⟩
  | append_singleton ops op ih =>
    rw [List.length_append] at hf
    obtain ⟨l, nodes, hrun, hrep, hinfos⟩ := ih (by omega)
    have hlen : nodes.length ≤ ops.length := by
      rw [← List.length_map (f := Prod.snd)]
      exact (congrArg List.length hinfos).le.trans (abstractRun_length ops)
    have hfuel : nodes.length ≤ fuel := by omega
    obtain ⟨l', nodes', hstep, hrep', hinfos'⟩ := step_spec hrep hfuel op
    refine ⟨l', nodes', ?_, hrep', ?_⟩
    · rw [run] at hrun ⊢
      rw [List.foldlM_append, hrun]
      change (step fuel l op >>= pure) = _
      rw [hstep]
      rfl
    · rw [hinfos', hinfos, abstractRun_append]

end Runs

section Stored
variable {l : ServiceInfoList} {xs : List ServiceInfo}

def nameKey (i : ServiceInfo) : CharPtr × CharPtr := (i.deviceName, i.serviceName)

/-- The infos in the order of the list, read from its head. -/
def ReadsAs (l : ServiceInfoList) (xs : List ServiceInfo) : Prop :=
  ∃ cells, Chain l.heap l.head cells ∧ cells.map Prod.snd = xs.map some

/-- A well-formed list of infos with both names. -/
def Stored (l : ServiceInfoList) (xs : List ServiceInfo) : Prop :=
  ∃ nodes, Represents l nodes ∧ (infos nodes).map NamedInfo.info = xs

theorem infos_values (nodes : List Node) :
    (cellsOf nodes).map Prod.snd = ((infos nodes).map NamedInfo.info).map some := by
  rw [cellsOf, infos, List.map_map, List.map_map, List.map_map]
  rfl

theorem Stored.readsAs (h : Stored l xs) : ReadsAs l xs := by
  obtain ⟨nodes, hr, rfl⟩ := h
  exact ⟨cellsOf nodes, hr.chain, infos_values nodes⟩

theorem Stored.eq_of_readsAs {ys : List ServiceInfo} (h : Stored l xs) (hy : ReadsAs l ys) :
    ys = xs := by
  obtain ⟨nodes, hr, rfl⟩ := h
  obtain ⟨cells, hch, he⟩ := hy
  rw [hch.unique hr.chain, infos_values] at he
  exact (List.map_injective_iff.2 (Option.some_injective _) he).symm

theorem initList_stored : Stored initList [] := ⟨[], initList_represents, rfl⟩

theorem Stored.length_le_top (h : Stored l xs) : xs.length ≤ l.top := by
  obtain ⟨nodes, hr, rfl⟩ := h
  rw [List.length_map, infos, List.length_map]
  exact hr.length_le_top

theorem nameKey_info (i : NamedInfo) :
    nameKey i.info = (some i.deviceName, some i.serviceName) := by
  rw [nameKey, i.hasDeviceName, i.hasServiceName]

theorem nameKey_eq_iff (i : NamedInfo) (k : Pair) :
    nameKey i.info = (some k.1, some k.2) ↔ pairOf i = k := by
  rw [nameKey_info, pairOf, Prod.mk.injEq, Option.some.injEq, Option.some.injEq, Prod.ext_iff]

theorem map_delete (k : Pair) (l : List NamedInfo) : (delete pairOf k l).map NamedInfo.info =
    delete nameKey (some k.1, some k.2) (l.map NamedInfo.info) := by
  have hf : (fun x => decide (nameKey x ≠ (some k.1, some k.2))) ∘ NamedInfo.info =
      fun x : NamedInfo => decide (pairOf x ≠ k) :=
    funext fun x => decide_eq_decide.2 (not_congr (nameKey_eq_iff x k))
  rw [delete, delete, List.filter_map, hf]

theorem Stored.add {fuel : ℕ} (h : Stored l xs) (hf : xs.length ≤ fuel) (i : NamedInfo) :
    ∃ l', listAdd fuel l i.info = .ok l' ∧ Stored l' (putBack nameKey i.info xs) := by
  obtain ⟨nodes, hr, rfl⟩ := h
  rw [List.length_map, infos, List.length_map] at hf
  obtain ⟨l', hl, hr'⟩ := listAdd_spec hr hf i
  refine ⟨l', hl, _, hr', ?_⟩
  rw [infos, List.map_append, List.map_append, putBack, nameKey_info,
    ← map_delete (i.deviceName, i.serviceName), ← infos_deleteNodes]
  rfl

/-- `list_remove` deletes the names, and reports whether they were there. -/
theorem Stored.remove {fuel : ℕ} (h : Stored l xs) (hf : xs.length ≤ fuel)
    (deviceName serviceName : CString) :
    ∃ l', listRemove fuel l (some deviceName) (some serviceName) =
        .ok (if Present nameKey (some deviceName, some serviceName) xs then 0 else -1, l') ∧
      Stored l' (delete nameKey (some deviceName, some serviceName) xs) := by
  obtain ⟨nodes, hr, rfl⟩ := h
  rw [List.length_map, infos, List.length_map] at hf
  obtain ⟨l', hl, hr', -⟩ := listRemove_spec deviceName serviceName hr hf
  have hpresent : Present pairOf (deviceName, serviceName) (infos nodes) ↔
      Present nameKey (some deviceName, some serviceName) ((infos nodes).map NamedInfo.info) := by
    simp only [Present, List.mem_map, exists_exists_and_eq_and, ← nameKey_eq_iff]
  refine ⟨l', ?_, _, hr', ?_⟩
  · rw [hl, if_congr hpresent rfl rfl]
  · rw [infos_deleteNodes, map_delete]

end Stored

/-- The list is finite and acyclic from `head`, holds the infos of the registry
in order, ends in `tail` unless it is empty, and a removal reports and does what
the registry says. -/
structure Refines (fuel : ℕ) (l : ServiceInfoList) (registry : List NamedInfo) : Prop where
  nodes : ∃ nodes : List Node, Chain l.heap l.head (cellsOf nodes) ∧ (ptrs nodes).Nodup ∧
    infos nodes = registry ∧ (l.head ≠ none → l.tail = nodes.getLast?.map Prod.fst)
  unique : KeyedList.Unique pairOf registry
  remove : ∀ deviceName serviceName : CString, ∃ result l',
    listRemove fuel l (some deviceName) (some serviceName) = .ok (result, l') ∧
      (result = 0 ↔ Present pairOf (deviceName, serviceName) registry) ∧
      (result = 0 ∨ result = -1) ∧ (result = -1 → l' = l)

theorem Represents.refines {l : ServiceInfoList} {nodes : List Node} {fuel : ℕ}
    (h : Represents l nodes) (hf : nodes.length ≤ fuel) : Refines fuel l (infos nodes) := by
  refine ⟨⟨nodes, h.chain, ?_, rfl, ?_⟩, h.unique, ?_⟩
  · rw [← cellsOf_ptrs]
    exact h.chain.nodup
  · intro hh
    rcases List.eq_nil_or_concat nodes with rfl | ⟨front, c, rfl⟩
    · exact absurd h.chain hh
    · rw [List.concat_eq_append] at h ⊢
      rw [List.getLast?_concat]
      exact h.last c List.getLast?_concat
  · intro deviceName serviceName
    obtain ⟨l', hl, -, -, hkeep⟩ := listRemove_spec deviceName serviceName h hf
    by_cases hp : Present pairOf (deviceName, serviceName) (infos nodes)
    · rw [if_pos hp] at hl
      exact ⟨0, l', hl, ⟨fun _ => hp, fun _ => rfl⟩, .inl rfl, fun he => absurd he (by decide)⟩
    · rw [if_neg hp] at hl
      exact ⟨-1, l', hl, ⟨fun he => absurd he (by decide), fun hp' => absurd hp' hp⟩, .inr rfl,
        fun _ => hkeep hp⟩

/-- After every sequence of calls the pointer list refines the abstract registry;
as many loop passes as there were calls are enough. -/
theorem run_refines (ops : List Op) (extra : ℕ) :
    ∃ l, run (ops.length + extra) ops = .ok l ∧ Refines (ops.length + extra) l (abstractRun ops) := by
  obtain ⟨l, nodes, hrun, hrep, hinfos⟩ := run_spec ops (Nat.le_add_right ops.length extra)
  have hlen : nodes.length ≤ ops.length := by
    rw [← List.length_map (f := Prod.snd)]
    exact (congrArg List.length hinfos).le.trans (abstractRun_length ops)
  exact ⟨l, hrun, hinfos ▸ hrep.refines (hlen.trans (Nat.le_add_right _ _))⟩

end MiniServiceDiscover.CListRefinement
