import MiniServiceDiscover.CHeap
import MiniServiceDiscover.CList

set_option autoImplicit false

/-! The list on the heap of the whole program, against the list whose nodes hold their infos:
its functions do the same to both. -/
namespace MiniServiceDiscover.CHeapList
open CProtocal (CharPtr CString CFault)
open PointerChain BlockMemory CHeap

section Reading

/-- The pointer is null, or leads to a string below the bound. -/
def TextAt (m : Memory Block) (b : ℕ) : Option Ptr → CharPtr → Prop :=
  Option.Rel fun p s => p < b ∧ m.block p = some (.text s)

structure Fields (m : Memory Block) (b : ℕ) (ps : CHeap.ServiceInfo)
    (i : CProtocal.ServiceInfo) : Prop where
  deviceName : TextAt m b ps.deviceName i.deviceName
  serviceName : TextAt m b ps.serviceName i.serviceName
  ip : TextAt m b ps.ip i.ip
  info : TextAt m b ps.info i.info
  port : ps.port = i.port

def InfoAt (m : Memory Block) (b : ℕ) (p : Ptr) (i : CProtocal.ServiceInfo) : Prop :=
  p < b ∧ ∃ ps, m.block p = some (.info ps) ∧ Fields m b ps i

/-- Blocks of these kinds below the bound are left as they are. -/
def Keeps (kind : Block → Prop) (b : ℕ) (m m' : Memory Block) : Prop :=
  ∀ p < b, ∀ x, kind x → m.block p = some x → m'.block p = some x

/-- What a service is read from. -/
def Content : Block → Prop
  | .text _ => True
  | .info _ => True
  | _ => False

variable {m m' : Memory Block} {b b' : ℕ}

theorem TextAt.mono {p : Option Ptr} {s : CharPtr} (h : TextAt m b p s) (hb : b ≤ b') :
    TextAt m b' p s := by
  cases h with
  | some hp => exact .some ⟨hp.1.trans_le hb, hp.2⟩
  | none => exact .none

theorem TextAt.keeps {p : Option Ptr} {s : CharPtr} (h : TextAt m b p s)
    (hm : Keeps Content b m m') : TextAt m' b p s := by
  cases h with
  | some hp => exact .some ⟨hp.1, hm _ hp.1 _ trivial hp.2⟩
  | none => exact .none

theorem keeps_of_grows {n : ℕ} (h : Grows m m' n) (kind : Block → Prop) (hb : b ≤ m.top) :
    Keeps kind b m m' :=
  fun p hp _ _ hm => (h.below p (hp.trans_le hb)).trans hm

theorem TextAt.grows {n : ℕ} {o : Option Ptr} {s : CharPtr} (h : TextAt m m.top o s)
    (hm : Grows m m' n) : TextAt m' m'.top o s :=
  (h.keeps (keeps_of_grows hm Content le_rfl)).mono hm.top

theorem TextAt.put {p : Ptr} {o : Option Ptr} {s : CharPtr} {x : CHeap.ServiceInfo} {y : Block}
    (h : TextAt m b o s) (hp : m.block p = some (.info x)) (hlive : (m.block p).isSome) :
    TextAt (m.put p (some y) hlive) b o s := by
  cases h with
  | none => exact .none
  | some hq =>
    refine .some ⟨hq.1, (put_other _ hlive fun he => ?_).trans hq.2⟩
    rw [he, hp] at hq
    cases Option.some.inj hq.2

theorem TextAt.length {o : Option Ptr} {s : CharPtr} (h : TextAt m b o s) :
    o.toList.length = s.toList.length := by
  cases h <;> rfl

theorem TextAt.live {o : Option Ptr} {s : CharPtr} (h : TextAt m b o s) :
    ∀ q ∈ o.toList, ∃ s, m.block q = some (.text s) := by
  cases h with
  | none => exact fun q hq => absurd hq List.not_mem_nil
  | some hp =>
    intro q hq
    obtain rfl := List.mem_singleton.1 hq
    exact ⟨_, hp.2⟩

theorem Fields.mono {ps : CHeap.ServiceInfo} {i : CProtocal.ServiceInfo} (h : Fields m b ps i)
    (hb : b ≤ b') : Fields m b' ps i :=
  ⟨h.deviceName.mono hb, h.serviceName.mono hb, h.ip.mono hb, h.info.mono hb, h.port⟩

theorem Fields.keeps {ps : CHeap.ServiceInfo} {i : CProtocal.ServiceInfo} (h : Fields m b ps i)
    (hm : Keeps Content b m m') : Fields m' b ps i :=
  ⟨h.deviceName.keeps hm, h.serviceName.keeps hm, h.ip.keeps hm, h.info.keeps hm, h.port⟩

theorem InfoAt.mono {p : Ptr} {i : CProtocal.ServiceInfo} (h : InfoAt m b p i) (hb : b ≤ b') :
    InfoAt m b' p i := by
  obtain ⟨hp, ps, hblock, hfields⟩ := h
  exact ⟨hp.trans_le hb, ps, hblock, hfields.mono hb⟩

theorem InfoAt.keeps {p : Ptr} {i : CProtocal.ServiceInfo} (h : InfoAt m b p i)
    (hm : Keeps Content b m m') : InfoAt m' b p i := by
  obtain ⟨hp, ps, hblock, hfields⟩ := h
  exact ⟨hp, ps, hm _ hp _ trivial hblock, hfields.keeps hm⟩

theorem Keeps.trans {kind : Block → Prop} {m'' : Memory Block} (h : Keeps kind b m m')
    (h' : Keeps kind b m' m'') : Keeps kind b m m'' :=
  fun p hp x hx hm => h' p hp x hx (h p hp x hx hm)

theorem Keeps.weaken {kind kind' : Block → Prop} (h : Keeps kind b m m')
    (hk : ∀ x, kind' x → kind x) (hb : b' ≤ b) : Keeps kind' b' m m' :=
  fun p hp x hx hm => h p (hp.trans_le hb) x (hk x hx) hm

end Reading

section Relinking

/-- What `list_remove` and the end of `list_add` write to. -/
def Links : Block → Prop
  | .node _ => True
  | .list _ => True
  | _ => False

/-- Nodes and lists are written to, and nothing is allocated or freed. -/
structure Relinks (m m' : Memory Block) : Prop where
  top : m'.top = m.top
  count : m'.count = m.count
  keeps : ∀ b, Keeps (fun x => ¬ Links x) b m m'

variable {m m' m'' : Memory Block}

theorem Relinks.refl (m : Memory Block) : Relinks m m := ⟨rfl, rfl, fun _ _ _ _ _ h => h⟩

theorem Relinks.trans (h : Relinks m m') (h' : Relinks m' m'') : Relinks m m'' :=
  ⟨h'.top.trans h.top, h'.count.trans h.count, fun b => (h.keeps b).trans (h'.keeps b)⟩

theorem Relinks.content (h : Relinks m m') (b : ℕ) : Keeps Content b m m' := by
  refine (h.keeps b).weaken (fun x hx hlinks => ?_) le_rfl
  cases x <;> first | exact hx | exact hlinks

theorem relinks_put {p : Ptr} {x y : Block} (h : m.block p = some x) (hx : Links x)
    (hp : (m.block p).isSome) : Relinks m (m.put p (some y) hp) where
  top := rfl
  count := put_some_count hp
  keeps b q _ z hz hq := by
    have hne : q ≠ p := fun he => by
      subst he
      obtain rfl := Option.some.inj (h.symm.trans hq)
      exact hz hx
    rw [put_other _ _ hne, hq]

end Relinking

section Views

/-- Where the nodes of a list and their infos are. -/
structure Addresses where
  node : Ptr → Ptr
  info : Ptr → Ptr

/-- Every pointer of the list leads to a node. -/
structure Closed (l : CList.ServiceInfoList) : Prop where
  fresh : ∀ q, l.top ≤ q → l.heap q = none
  head : ∀ q ∈ l.head, (l.heap q).isSome
  tail : ∀ q ∈ l.tail, (l.heap q).isSome
  next : ∀ p c, l.heap p = some c → ∀ q ∈ c.next, (l.heap q).isSome

/-- The block is the list, below the bound with all it leads to, in reach or not. -/
structure View (m : Memory Block) (b : ℕ) (list : Ptr) (l : CList.ServiceInfoList)
    (a : Addresses) : Prop where
  below : list < b
  list : m.block list = some (.list ⟨l.head.map a.node, l.tail.map a.node⟩)
  node : ∀ q c, l.heap q = some c → a.node q < b ∧ ∃ i, c.value = some i ∧
    m.block (a.node q) = some (.node ⟨some (a.info q), c.next.map a.node⟩) ∧
    InfoAt m b (a.info q) i
  nodes : ∀ q r, (l.heap q).isSome → (l.heap r).isSome → a.node q = a.node r → q = r
  infos : ∀ q r, (l.heap q).isSome → (l.heap r).isSome → a.info q = a.info r → q = r
  closed : Closed l

variable {m m' : Memory Block} {b b' : ℕ} {list : Ptr} {l : CList.ServiceInfoList}
  {a : Addresses}

theorem View.mono (v : View m b list l a) (hb : b ≤ b') : View m b' list l a where
  below := v.below.trans_le hb
  list := v.list
  node q c hq := by
    obtain ⟨hlt, i, hi, hblock, hinfo⟩ := v.node q c hq
    exact ⟨hlt.trans_le hb, i, hi, hblock, hinfo.mono hb⟩
  nodes := v.nodes
  infos := v.infos
  closed := v.closed

/-- What a view is read from. -/
def Seen : Block → Prop
  | .text _ => True
  | .info _ => True
  | .node _ => True
  | .list _ => True
  | _ => False

theorem View.keeps (v : View m b list l a) (hm : Keeps Seen b m m') : View m' b list l a where
  below := v.below
  list := hm _ v.below _ trivial v.list
  node q c hq := by
    obtain ⟨hlt, i, hi, hblock, hinfo⟩ := v.node q c hq
    have hcontent : Keeps Content b m m' :=
      hm.weaken (fun x hx => by cases x <;> first | exact trivial | exact hx) le_rfl
    exact ⟨hlt, i, hi, hm _ hlt _ trivial hblock, hinfo.keeps hcontent⟩
  nodes := v.nodes
  infos := v.infos
  closed := v.closed

theorem isSome_write {q r : Ptr} {c : Cell (Option CProtocal.ServiceInfo)}
    (hq : (l.heap q).isSome) : (PointerChain.write l.heap q c r).isSome ↔ (l.heap r).isSome := by
  by_cases hr : r = q
  · subst hr
    rw [write_same]
    exact iff_of_true rfl hq
  · rw [write_other hr]

theorem Closed.setNext (h : Closed l) {q : Ptr} {c : Cell (Option CProtocal.ServiceInfo)}
    (hq : l.heap q = some c) {next : Option Ptr} (hnext : ∀ r ∈ next, (l.heap r).isSome) :
    Closed { l with heap := PointerChain.write l.heap q { c with next := next } } := by
  have hsome : (l.heap q).isSome := Option.isSome_iff_exists.2 ⟨c, hq⟩
  refine ⟨fun r hr => ?_, fun r hr => (isSome_write hsome).2 (h.head r hr),
    fun r hr => (isSome_write hsome).2 (h.tail r hr), fun p c' hp r hr => (isSome_write hsome).2 ?_⟩
  · by_contra hne
    have hrsome := (isSome_write hsome).1 (Option.isSome_iff_ne_none.2 hne)
    rw [h.fresh r hr] at hrsome
    cases hrsome
  · by_cases hpq : p = q
    · subst hpq
      obtain rfl := Option.some.inj ((write_same _ _ _).symm.trans hp)
      exact hnext r hr
    · exact h.next p c' ((write_other hpq _).symm.trans hp) r hr

theorem View.setNode (v : View m b list l a) {q : Ptr} {c : Cell (Option CProtocal.ServiceInfo)}
    (hq : l.heap q = some c) {next : Option Ptr} (hnext : ∀ r ∈ next, (l.heap r).isSome)
    (hp : (m.block (a.node q)).isSome) :
    View (m.put (a.node q) (some (.node ⟨some (a.info q), next.map a.node⟩)) hp) b list
      { l with heap := PointerChain.write l.heap q { c with next := next } } a := by
  obtain ⟨hlt, i, hi, hblock, hinfo⟩ := v.node q c hq
  have hsome : (l.heap q).isSome := Option.isSome_iff_exists.2 ⟨c, hq⟩
  have hcontent := (relinks_put (y := .node ⟨some (a.info q), next.map a.node⟩) hblock trivial
    hp).content b
  refine ⟨v.below, ?_, fun r c' hr => ?_, fun r r' h h' => ?_, fun r r' h h' => ?_,
    v.closed.setNext hq hnext⟩
  · have hne : list ≠ a.node q := fun he => by
      rw [← he, v.list] at hblock
      cases Option.some.inj hblock
    rw [put_other _ _ hne, v.list]
  · by_cases hrq : r = q
    · subst hrq
      obtain rfl := Option.some.inj ((write_same _ _ _).symm.trans hr)
      exact ⟨hlt, i, hi, put_same _ _, hinfo.keeps hcontent⟩
    · have hold : l.heap r = some c' := (write_other hrq _).symm.trans hr
      obtain ⟨hltr, j, hj, hblockr, hinfor⟩ := v.node r c' hold
      have hne : a.node r ≠ a.node q := fun he =>
        hrq (v.nodes r q (Option.isSome_iff_exists.2 ⟨c', hold⟩) hsome he)
      exact ⟨hltr, j, hj, (put_other _ _ hne).trans hblockr, hinfor.keeps hcontent⟩
  · exact v.nodes r r' ((isSome_write hsome).1 h) ((isSome_write hsome).1 h')
  · exact v.infos r r' ((isSome_write hsome).1 h) ((isSome_write hsome).1 h')

theorem View.setList (v : View m b list l a) {head tail : Option Ptr}
    (hhead : ∀ q ∈ head, (l.heap q).isSome) (htail : ∀ q ∈ tail, (l.heap q).isSome)
    (hp : (m.block list).isSome) :
    View (m.put list (some (.list ⟨head.map a.node, tail.map a.node⟩)) hp) b list
      { l with head := head, tail := tail } a := by
  have hcontent := (relinks_put (y := .list ⟨head.map a.node, tail.map a.node⟩) v.list trivial
    hp).content b
  refine ⟨v.below, put_same _ _, fun q c hq => ?_, v.nodes, v.infos,
    ⟨v.closed.fresh, hhead, htail, v.closed.next⟩⟩
  obtain ⟨hlt, i, hi, hblock, hinfo⟩ := v.node q c hq
  have hne : a.node q ≠ list := fun he => by
    rw [he, v.list] at hblock
    cases Option.some.inj hblock
  exact ⟨hlt, i, hi, (put_other _ _ hne).trans hblock, hinfo.keeps hcontent⟩

end Views

section Removing
variable {m : Memory Block} {b : ℕ} {list : Ptr} {l : CList.ServiceInfoList} {a : Addresses}

/-- The same list after some of its links have been written. -/
structure Relinked (b : ℕ) (list : Ptr) (a : Addresses) (m : Memory Block)
    (l : CList.ServiceInfoList) (m' : Memory Block) (l' : CList.ServiceInfoList) : Prop where
  view : View m' b list l' a
  relinks : Relinks m m'
  nodes : ∀ q, (l.heap q).isSome → (l'.heap q).isSome

theorem Relinked.trans {m' m'' : Memory Block} {l' l'' : CList.ServiceInfoList}
    (h : Relinked b list a m l m' l') (h' : Relinked b list a m' l' m'' l'') :
    Relinked b list a m l m'' l'' :=
  ⟨h'.view, h.relinks.trans h'.relinks, fun q hq => h'.nodes q (h.nodes q hq)⟩

theorem storeNext_simulates (v : View m b list l a) {q : Ptr} (hq : (l.heap q).isSome)
    {next : Option Ptr} (hnext : ∀ r ∈ next, (l.heap r).isSome) :
    Simulates m (storeNext (a.node q) (next.map a.node)) (CList.storeNext l q next)
      fun _ m' l' => Relinked b list a m l m' l' := by
  obtain ⟨c, hc⟩ := Option.isSome_iff_exists.1 hq
  obtain ⟨-, i, -, hblock, -⟩ := v.node q c hc
  have hlive : (m.block (a.node q)).isSome := Option.isSome_iff_exists.2 ⟨_, hblock⟩
  have hright : CList.storeNext l q next =
      .ok { l with heap := PointerChain.write l.heap q { c with next := next } } := by
    rw [CList.storeNext, CList.load, hc]
    rfl
  have hreturns : Returns m (storeNext (a.node q) (next.map a.node)) fun _ m' =>
      Relinked b list a m l m'
        { l with heap := PointerChain.write l.heap q { c with next := next } } := by
    refine Returns.step (read_eq hblock rfl) ?_
    exact returns_write hlive ⟨v.setNode hc hnext hlive, relinks_put hblock trivial hlive,
      fun r hr => (isSome_write hq).2 hr⟩
  rw [hright]
  exact hreturns.simulates

theorem storeList_returns (v : View m b list l a) {head tail : Option Ptr}
    (hhead : ∀ q ∈ head, (l.heap q).isSome) (htail : ∀ q ∈ tail, (l.heap q).isSome) :
    Returns m (BlockMemory.write list (.list ⟨head.map a.node, tail.map a.node⟩) : CProg Unit)
      fun _ m' => Relinked b list a m l m' { l with head := head, tail := tail } := by
  have hlive : (m.block list).isSome := Option.isSome_iff_exists.2 ⟨_, v.list⟩
  exact returns_write hlive ⟨v.setList hhead htail hlive, relinks_put v.list trivial hlive,
    fun _ hq => hq⟩

theorem storeHead_returns (v : View m b list l a) (head : Option Ptr)
    (hhead : ∀ q ∈ head, (l.heap q).isSome) :
    Returns m (storeHead list (head.map a.node)) fun _ m' =>
      Relinked b list a m l m' { l with head := head } :=
  Returns.step (read_eq v.list rfl) (storeList_returns v hhead v.closed.tail)

theorem storeTail_returns (v : View m b list l a) (tail : Option Ptr)
    (htail : ∀ q ∈ tail, (l.heap q).isSome) :
    Returns m (storeTail list (tail.map a.node)) fun _ m' =>
      Relinked b list a m l m' { l with tail := tail } :=
  Returns.step (read_eq v.list rfl) (storeList_returns v v.closed.head htail)

theorem unlink_simulates (v : View m b list l a) {prev next : Option Ptr}
    (hprev : ∀ q ∈ prev, (l.heap q).isSome) (hnext : ∀ q ∈ next, (l.heap q).isSome) :
    Simulates m (unlink list (prev.map a.node) (next.map a.node)) (CList.unlink l prev next)
      fun _ m' l' => Relinked b list a m l m' l' := by
  cases prev with
  | none => exact (storeHead_returns v next hnext).simulates
  | some q =>
    have hq : (l.heap q).isSome := hprev q rfl
    cases next with
    | some p => exact storeNext_simulates v hq hnext
    | none =>
      refine (storeNext_simulates v hq hnext).bind fun _ m' l' h => ?_
      have htail := storeTail_returns h.view (some q) fun r hr => by
        obtain rfl := Option.some.inj hr
        exact h.nodes q hq
      exact (htail.mono fun _ m'' h' => h.trans h').simulates

variable {dp sp : Option Ptr} {deviceName serviceName : CharPtr} {b' : ℕ}

theorem strEqual_simulates {p q : Option Ptr} {s t : CharPtr} (hs : TextAt m b p s)
    (ht : TextAt m b' q t) :
    Simulates m (strEqual p q) (CProtocal.strEqual s t) fun r m' r' => r = r' ∧ m' = m := by
  cases hs with
  | none => exact .fails _ rfl rfl
  | some hp =>
    cases ht with
    | none => exact .fails _ rfl rfl
    | some hq =>
      refine Simulates.step (read_eq hp.2 rfl) (Simulates.step (read_eq hq.2 rfl) ?_)
      exact simulates_pure ⟨rfl, rfl⟩

theorem sameService_simulates {info : Ptr} {i : CProtocal.ServiceInfo} {next : Option Ptr}
    {next' : Option Ptr} (hi : InfoAt m b info i) (hd : TextAt m b' dp deviceName)
    (hs : TextAt m b' sp serviceName) :
    Simulates m (sameService ⟨some info, next'⟩ dp sp)
      (CList.sameService ⟨some i, next⟩ deviceName serviceName) fun r m' r' => r = r' ∧ m' = m := by
  obtain ⟨-, ps, hblock, hfields⟩ := hi
  refine Simulates.step (read_eq hblock rfl) ?_
  refine (strEqual_simulates hfields.deviceName hd).bind fun r m' r' h => ?_
  obtain ⟨rfl, rfl⟩ := h
  cases r with
  | false => exact simulates_pure ⟨rfl, rfl⟩
  | true => exact strEqual_simulates hfields.serviceName hs

/-- The loop of `list_remove`, from any node. -/
theorem removeFrom_simulates (v : View m b list l a) (hd : TextAt m b' dp deviceName)
    (hs : TextAt m b' sp serviceName) (fuel : ℕ) (prev node : Option Ptr)
    (hprev : ∀ q ∈ prev, (l.heap q).isSome) (hnode : ∀ q ∈ node, (l.heap q).isSome) :
    Simulates m (removeFrom list dp sp fuel (prev.map a.node) (node.map a.node))
      (CList.removeFrom deviceName serviceName l fuel prev node) fun r m' rl =>
        r = rl.1 ∧ Relinked b list a m l m' rl.2 := by
  induction fuel generalizing prev node with
  | zero =>
    cases node with
    | none => exact simulates_pure ⟨rfl, v, Relinks.refl m, fun _ hq => hq⟩
    | some p => exact .fails _ rfl rfl
  | succ fuel ih =>
    cases node with
    | none => exact simulates_pure ⟨rfl, v, Relinks.refl m, fun _ hq => hq⟩
    | some p =>
      obtain ⟨⟨value, next⟩, hc⟩ := Option.isSome_iff_exists.1 (hnode p rfl)
      obtain ⟨-, i, rfl, hblock, hinfo⟩ := v.node p _ hc
      have hnext := v.closed.next p _ hc
      have hload : CList.load l p = .ok ⟨some i, next⟩ := by
        rw [CList.load, hc]
      rw [CList.removeFrom, hload]
      refine Simulates.step (read_eq hblock rfl) ?_
      refine (sameService_simulates hinfo hd hs).bind fun r m' r' h => ?_
      obtain ⟨rfl, rfl⟩ := h
      cases r with
      | true =>
        refine (unlink_simulates v hprev hnext).bind fun _ m'' l' h => ?_
        exact simulates_pure ⟨rfl, h⟩
      | false =>
        exact ih (some p) next (fun q hq => by
          obtain rfl := Option.some.inj hq
          exact hnode p rfl) hnext

theorem listRemove_simulates (v : View m b list l a) (hd : TextAt m b' dp deviceName)
    (hs : TextAt m b' sp serviceName) (fuel : ℕ) :
    Simulates m (listRemove fuel list dp sp) (CList.listRemove fuel l deviceName serviceName)
      fun r m' rl => r = rl.1 ∧ Relinked b list a m l m' rl.2 := by
  refine Simulates.step (read_eq v.list rfl) ?_
  exact removeFrom_simulates v hd hs fuel none l.head (fun q hq => nomatch hq) v.closed.head

end Removing

section Adding
variable {m : Memory Block} {b : ℕ} {list : Ptr} {l : CList.ServiceInfoList} {a : Addresses}

theorem linkTail_simulates (v : View m b list l a) {n : Ptr} (hn : (l.heap n).isSome) :
    Simulates m (match l.tail.map a.node with
      | none => storeTail list (some (a.node n))
      | some t => do
        storeNext t (some (a.node n))
        storeTail list (some (a.node n)))
      (match l.tail with
      | none => .ok { l with tail := some n }
      | some t => do
        let l ← CList.storeNext l t (some n)
        pure { l with tail := some n })
      fun _ m' l' => Relinked b list a m l m' l' := by
  have hpoints : ∀ q ∈ some n, (l.heap q).isSome := fun q hq => by
    obtain rfl := Option.some.inj hq
    exact hn
  cases htail : l.tail with
  | none => exact (storeTail_returns v (some n) hpoints).simulates
  | some t =>
    have ht : (l.heap t).isSome := v.closed.tail t htail
    refine (storeNext_simulates v ht hpoints).bind fun _ m' l' h => ?_
    have hstore := storeTail_returns h.view (some n) fun q hq => h.nodes q (hpoints q hq)
    exact (hstore.mono fun _ m'' h' => h.trans h').simulates

theorem linkNode_simulates (v : View m b list l a) {n : Ptr} (hn : (l.heap n).isSome) :
    Simulates m (linkNode list (a.node n)) (CList.linkNode l n)
      fun _ m' l' => Relinked b list a m l m' l' := by
  refine Simulates.step (read_eq v.list rfl) ?_
  cases hhead : l.head with
  | none =>
    rw [CList.linkNode, if_pos hhead]
    have hstore := storeHead_returns v (some n) fun q hq => by
      obtain rfl := Option.some.inj hq
      exact hn
    refine Simulates.after hstore fun _ m' h => ?_
    exact (linkTail_simulates h.view hn).mono fun _ m'' l' h' => h.trans h'
  | some p =>
    have hne : l.head ≠ none := by
      rw [hhead]
      exact Option.some_ne_none p
    rw [CList.linkNode, if_neg hne]
    exact linkTail_simulates v hn

/-- Addresses that know of one node more. -/
def Addresses.add (a : Addresses) (n node info : Ptr) : Addresses :=
  ⟨Function.update a.node n node, Function.update a.info n info⟩

theorem map_add {n node info : Ptr} (hn : l.heap n = none) {o : Option Ptr}
    (ho : ∀ q ∈ o, (l.heap q).isSome) : o.map (a.add n node info).node = o.map a.node := by
  cases o with
  | none => rfl
  | some q =>
    have hne : q ≠ n := fun he => by
      have hq := ho q rfl
      rw [he, hn] at hq
      cases hq
    exact congrArg some (Function.update_of_ne hne _ _)

theorem isSome_push {n q : Ptr} {c : Cell (Option CProtocal.ServiceInfo)}
    (hq : (l.heap q).isSome) : (PointerChain.write l.heap n c q).isSome := by
  by_cases he : q = n
  · subst he
    rw [write_same]
    rfl
  · rwa [write_other he]

theorem Closed.getNode (h : Closed l) (i : CProtocal.ServiceInfo) :
    Closed (CList.getNode l i).2 := by
  refine ⟨fun q hq => ?_, fun q hq => isSome_push (h.head q hq),
    fun q hq => isSome_push (h.tail q hq), fun p c hp q hq => ?_⟩
  · have hlt : l.top < q := hq
    exact (write_other hlt.ne' _).trans (h.fresh q hlt.le)
  · by_cases he : p = l.top
    · subst he
      obtain rfl := Option.some.inj ((write_same _ _ _).symm.trans hp)
      cases hq
    · exact isSome_push (h.next p c ((write_other he _).symm.trans hp) q hq)

theorem update_injective {f : Ptr → Ptr} {n x : Ptr}
    (hf : ∀ q r, (l.heap q).isSome → (l.heap r).isSome → f q = f r → q = r)
    (hx : ∀ q, (l.heap q).isSome → f q ≠ x) {c : Cell (Option CProtocal.ServiceInfo)} (q r : Ptr)
    (hq : (PointerChain.write l.heap n c q).isSome)
    (hr : (PointerChain.write l.heap n c r).isSome)
    (h : Function.update f n x q = Function.update f n x r) : q = r := by
  by_cases hqn : q = n <;> by_cases hrn : r = n
  · rw [hqn, hrn]
  · rw [hqn, Function.update_self, Function.update_of_ne hrn] at h
    rw [write_other hrn] at hr
    exact absurd h.symm (hx r hr)
  · rw [hrn, Function.update_self, Function.update_of_ne hqn] at h
    rw [write_other hqn] at hq
    exact absurd h (hx q hq)
  · rw [Function.update_of_ne hqn, Function.update_of_ne hrn] at h
    rw [write_other hqn] at hq
    rw [write_other hrn] at hr
    exact hf q r hq hr h

/-- The node that `list_add` allocates, before it is linked. -/
theorem View.getNode (v : View m b list l a) {info : Ptr} {i : CProtocal.ServiceInfo}
    (hnew : b ≤ info) (hi : InfoAt m m.top info i) (hb : b ≤ m.top)
    (hp : ((m.push (.node ⟨none, none⟩)).block m.top).isSome) :
    View ((m.push (.node ⟨none, none⟩)).put m.top (some (.node ⟨some info, none⟩)) hp)
      (m.top + 1) list (CList.getNode l i).2 (a.add l.top m.top info) := by
  have hgrows := (grows_push m (.node ⟨none, none⟩)).put le_rfl (.node ⟨some info, none⟩) hp
  have hfresh := v.closed.fresh l.top le_rfl
  have hinfo := (hi.keeps (keeps_of_grows hgrows Content le_rfl)).mono (Nat.le_succ m.top)
  have v' := (v.keeps (keeps_of_grows hgrows Seen hb)).mono (hb.trans (Nat.le_succ m.top))
  have old : ∀ q, (l.heap q).isSome → a.node q < b ∧ a.info q < b := fun q hq => by
    obtain ⟨c, hc⟩ := Option.isSome_iff_exists.1 hq
    obtain ⟨hlt, i', -, -, hlt', -⟩ := v.node q c hc
    exact ⟨hlt, hlt'⟩
  refine ⟨v'.below, ?_, fun q c hq => ?_,
    update_injective v.nodes fun q hq => ((old q hq).1.trans_le hb).ne,
    update_injective v.infos fun q hq => ((old q hq).2.trans_le hnew).ne, v.closed.getNode i⟩
  · change _ = some (Block.list ⟨l.head.map (a.add l.top m.top info).node,
      l.tail.map (a.add l.top m.top info).node⟩)
    rw [map_add hfresh v.closed.head, map_add hfresh v.closed.tail, v'.list]
  · by_cases he : q = l.top
    · subst he
      obtain rfl := Option.some.inj ((write_same _ _ _).symm.trans hq)
      have hnode : (a.add l.top m.top info).node l.top = m.top := Function.update_self _ _ _
      have haddr : (a.add l.top m.top info).info l.top = info := Function.update_self _ _ _
      rw [hnode, haddr]
      exact ⟨Nat.lt_succ_self _, i, rfl, put_same _ _, hinfo⟩
    · have hold : l.heap q = some c := (write_other he _).symm.trans hq
      have hnode : (a.add l.top m.top info).node q = a.node q := Function.update_of_ne he _ _
      have haddr : (a.add l.top m.top info).info q = a.info q := Function.update_of_ne he _ _
      rw [hnode, haddr, map_add hfresh (v.closed.next q c hold)]
      exact v'.node q c hold

/-- What `list_add` leaves behind: the new node, and nothing less. -/
structure Added (list : Ptr) (m m' : Memory Block) (l' : CList.ServiceInfoList) : Prop where
  view : ∃ a', View m' m'.top list l' a'
  top : m'.top = m.top + 1
  count : m'.count = m.count + 1
  keeps : Keeps (fun x => ¬ Links x) m.top m m'

theorem listAdd_simulates (v : View m b list l a) {info : Ptr} {i : CProtocal.ServiceInfo}
    (hnew : b ≤ info) (hi : InfoAt m m.top info i) (fuel : ℕ) :
    Simulates m (listAdd fuel list info) (CList.listAdd fuel l i) fun _ m' l' =>
      Added list m m' l' := by
  have hb : b ≤ m.top := hnew.trans hi.1.le
  have hp : ((m.push (.node ⟨none, none⟩)).block m.top).isSome := by
    rw [push_top]
    rfl
  have hgrows := (grows_push m (.node ⟨none, none⟩)).put le_rfl (.node ⟨some info, none⟩) hp
  have v' := v.getNode hnew hi hb hp
  obtain ⟨-, ps, hblock, hfields⟩ := hi.keeps (keeps_of_grows hgrows Content le_rfl)
  refine Simulates.step (malloc_eq m _) ?_
  refine Simulates.step (write_eq hp) (Simulates.step (read_eq hblock rfl) ?_)
  refine (listRemove_simulates v' hfields.deviceName hfields.serviceName fuel).bind
    fun r m' rl h => ?_
  have hnode : (a.add l.top m.top info).node l.top = m.top := Function.update_self _ _ _
  have hsome : (rl.2.heap l.top).isSome := h.2.nodes l.top (by
    change (PointerChain.write l.heap l.top _ l.top).isSome
    rw [write_same]
    rfl)
  have hlink := linkNode_simulates h.2.view hsome
  rw [hnode] at hlink
  refine hlink.mono fun _ m'' l' h' => ?_
  have hrelinks := h.2.relinks.trans h'.relinks
  have htop : m''.top = m.top + 1 := hrelinks.top
  exact ⟨⟨_, htop ▸ h'.view⟩, htop, hrelinks.count.trans hgrows.count,
    (keeps_of_grows hgrows _ le_rfl).trans (hrelinks.keeps m.top)⟩

end Adding

section Getting
variable {m : Memory Block} {b b' : ℕ} {list : Ptr} {l : CList.ServiceInfoList} {a : Addresses}
  {sp : Option Ptr} {serviceName : CharPtr}

/-- The loop of `list_get`, from any node: the pointer of the info, with nothing changed. -/
theorem getFrom_simulates (v : View m b list l a) (hs : TextAt m b' sp serviceName) (index : ℕ)
    (fuel i : ℕ) {node : Option Ptr} (hnode : ∀ q ∈ node, (l.heap q).isSome) :
    Simulates m (getFrom sp index fuel i (node.map a.node))
      (CList.getFrom l serviceName index fuel i node) fun o m' o' =>
        Option.Rel (InfoAt m b) o o' ∧ m' = m := by
  induction fuel generalizing i node with
  | zero =>
    cases node with
    | none => exact simulates_pure ⟨.none, rfl⟩
    | some p => exact .fails _ rfl rfl
  | succ fuel ih =>
    cases node with
    | none => exact simulates_pure ⟨.none, rfl⟩
    | some p =>
      obtain ⟨⟨value, next⟩, hc⟩ := Option.isSome_iff_exists.1 (hnode p rfl)
      obtain ⟨-, info, rfl, hblock, hinfo⟩ := v.node p _ hc
      have hnext := v.closed.next p _ hc
      have hload : CList.load l p = .ok ⟨some info, next⟩ := by
        rw [CList.load, hc]
      rw [CList.getFrom, hload]
      refine Simulates.step (read_eq hblock rfl) ?_
      change Simulates m (if i = index then _ else _) (if i = index then _ else _) _
      by_cases hi : i = index
      · rw [if_pos hi, if_pos hi]
        obtain ⟨ps, hps, hfields⟩ := hinfo.2
        refine Simulates.step (read_eq hps rfl) ?_
        refine (strEqual_simulates hfields.serviceName hs).bind fun r m' r' h => ?_
        obtain ⟨rfl, rfl⟩ := h
        cases r with
        | true => exact simulates_pure ⟨.some hinfo, rfl⟩
        | false => exact ih (i + 1) hnext
      · rw [if_neg hi, if_neg hi]
        exact ih (i + 1) hnext

theorem listGet_simulates (v : View m b list l a) (hs : TextAt m b' sp serviceName)
    (index fuel : ℕ) :
    Simulates m (listGet fuel list sp index) (CList.listGet fuel l serviceName index)
      fun o m' o' => Option.Rel (InfoAt m b) o o' ∧ m' = m :=
  Simulates.step (read_eq v.list rfl) (getFrom_simulates v hs index fuel 0 v.closed.head)

end Getting

end MiniServiceDiscover.CHeapList
