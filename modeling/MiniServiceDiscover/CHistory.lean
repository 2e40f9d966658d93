import MiniServiceDiscover.CUnregister

set_option autoImplicit false

/-! The C registry as a function of the packets the daemon has served, and which of its
infos it tells to whoever asks. Any string of an info may be missing, as long as no null
pointer has been compared or copied. -/
namespace MiniServiceDiscover.CHistory
open CProtocal PointerChain CList CListRefinement CDaemon CRegistry CReachable KeyedList WireFormat
open Fallible

/-- The list holds these infos in this order, from its head to its tail. -/
structure Lists (l : ServiceInfoList) (xs : List ServiceInfo) : Prop where
  cells : ∃ cells, Shaped l cells ∧ cells.map Prod.snd = xs.map some
  unique : Unique nameKey xs

def called (serviceName : CharPtr) (i : ServiceInfo) : Bool :=
  decide (i.serviceName = serviceName)

section Requests
variable (cj : CJson)

def Registers (pkt : List UInt8) (v : ServiceInfo) : Prop := Requests cj pkt .registerService v

def Unregisters (pkt : List UInt8) (v : ServiceInfo) : Prop := Requests cj pkt .unregisterService v

noncomputable abbrev change (pkt : List UInt8) : Change ServiceInfo (CharPtr × CharPtr) :=
  changeOf nameKey (Registers cj) (Unregisters cj) pkt

/-- The one packet that is sent is a result with this reason. -/
def Answers (isSucc : Bool) (reason : CString) (sent : List (List UInt8)) : Prop :=
  ∃ p, getResultPkt cj isSucc (some reason) = .ok p ∧ sent = [p]

/-- The packet has registered the info, and no later one carries its names. -/
def Registered (pkts : List (List UInt8)) (i : ℕ) (v : ServiceInfo) : Prop :=
  InForce nameKey (Registers cj) (Unregisters cj) pkts i v

/-- What a list after these packets answers to the next one. -/
structure Handles (xs : List ServiceInfo) (pkt : List UInt8) (sent : List (List UInt8)) : Prop where
  register : ∀ info, Requests cj pkt .registerService info → Answers cj true .empty sent
  unregister : ∀ info, Requests cj pkt .unregisterService info →
    (Present nameKey (nameKey info) xs → Answers cj true .empty sent) ∧
      (¬ Present nameKey (nameKey info) xs → Answers cj false serviceNoFound sent)
  inquiry : ∀ info, Requests cj pkt .inquiry info →
    (xs.takeWhile (called info.serviceName) = [] →
      Answers cj false serviceNoFound sent) ∧
    (xs.takeWhile (called info.serviceName) ≠ [] →
      List.Forall₂ (fun x p => getInquiryResultPkt cj x = .ok p)
        (xs.takeWhile (called info.serviceName)) sent)
  rejected : (∀ info, ¬ Requests cj pkt .registerService info) →
    (∀ info, ¬ Requests cj pkt .unregisterService info) →
    (∀ info, ¬ Requests cj pkt .inquiry info) → sent = []

theorem requests_unique {cj : CJson} {pkt : List UInt8} {a b : Action} {i j : ServiceInfo}
    (h : Requests cj pkt a i) (h' : Requests cj pkt b j) : a = b ∧ i = j := by
  have hi : some i = some j := Except.ok.inj (h.info.symm.trans h'.info)
  have ha : (a.code.toNat : ℤ) = b.code.toNat := Except.ok.inj (h.action.symm.trans h'.action)
  exact ⟨Action.code_injective (UInt16.toNat_inj.1 (Int.ofNat.inj ha)), Option.some.inj hi⟩

theorem exclusive : Exclusive (Registers cj) (Unregisters cj) where
  puts_unique _ _ _ h h' := (requests_unique h h').2
  drops_unique _ _ _ h h' := (requests_unique h h').2
  apart _ _ _ h h' := (nomatch (requests_unique h h').1)

end Requests

section Comparisons

/-- A comparison that returns has met no null pointer. -/
theorem strEqual_ok {a b : CharPtr} {r : Bool} (h : strEqual a b = .ok r) : a = b ↔ r = true := by
  cases a with
  | none => cases h
  | some a =>
    cases b with
    | none => cases h
    | some b =>
      obtain rfl := Except.ok.inj h
      rw [Option.some.injEq, decide_eq_true_iff]

theorem sameService_key {i : ServiceInfo} {next : Option Ptr} {deviceName serviceName : CharPtr}
    {b : Bool} (h : sameService ⟨some i, next⟩ deviceName serviceName = .ok b) :
    nameKey i = (deviceName, serviceName) ↔ b = true := by
  obtain ⟨same, hdevice, h⟩ := bind_eq_ok.1 h
  rw [nameKey, Prod.mk.injEq, strEqual_ok hdevice]
  cases same with
  | true => exact (and_iff_right rfl).trans (strEqual_ok h)
  | false =>
    obtain rfl := Except.ok.inj h
    exact iff_of_false (fun hn => Bool.false_ne_true hn.1) Bool.false_ne_true

end Comparisons

section Lists
variable {l : ServiceInfoList} {cells : List Slot} {xs : List ServiceInfo}
  {deviceName serviceName : CharPtr} {fuel : ℕ}

/-- A search that returns says whether it met a cell with the names. -/
theorem removeFrom_code {prev start : Option Ptr} {r : ℤ × ServiceInfoList}
    (h : Chain l.heap start cells)
    (hr : removeFrom deviceName serviceName l fuel prev start = .ok r) :
    0 ≤ r.1 ↔ ∃ c ∈ cells, sameService ⟨c.2, none⟩ deviceName serviceName = .ok true := by
  induction cells generalizing fuel prev start with
  | nil =>
    obtain rfl : start = none := h
    rw [removeFrom] at hr
    obtain rfl := Except.ok.inj hr
    refine iff_of_false (show ¬ (0 : ℤ) ≤ -1 by decide) ?_
    rintro ⟨c, hc, -⟩
    exact List.not_mem_nil hc
  | cons c cells ih =>
    obtain ⟨rfl, next, hcell, hrest⟩ := h
    cases fuel with
    | zero =>
      rw [removeFrom] at hr
      cases hr
    | succ fuel =>
      rw [removeFrom, load_ok hcell] at hr
      change (sameService ⟨c.2, none⟩ deviceName serviceName >>= _) = _ at hr
      obtain ⟨same, hs, hr⟩ := bind_eq_ok.1 hr
      cases same with
      | true =>
        obtain ⟨l', -, hr⟩ := bind_eq_ok.1 hr
        obtain rfl := Except.ok.inj hr
        exact iff_of_true (Int.le_refl 0) ⟨c, List.mem_cons_self, hs⟩
      | false =>
        rw [ih hrest hr, List.exists_mem_cons_iff, hs]
        exact (or_iff_right fun he => Bool.false_ne_true (Except.ok.inj he)).symm

/-- `list_remove` deletes the names it was given, and reports whether they were there. -/
theorem listRemove_deletes {r : ℤ × ServiceInfoList} (h : Shaped l cells)
    (hx : cells.map Prod.snd = xs.map some) (unique : Unique nameKey xs)
    (hr : listRemove fuel l deviceName serviceName = .ok r) :
    (∃ cells', Shaped r.2 cells' ∧
      cells'.map Prod.snd = (delete nameKey (deviceName, serviceName) xs).map some ∧
      cells'.Sublist cells ∧ Untouched l r.2 cells) ∧
      (0 ≤ r.1 ↔ Present nameKey (deviceName, serviceName) xs) := by
  have key : ∀ c ∈ cells, ∀ b, sameService ⟨c.2, none⟩ deviceName serviceName = .ok b →
      ∃ x, c.2 = some x ∧ (nameKey x = (deviceName, serviceName) ↔ b = true) := by
    intro c hc b hb
    obtain ⟨x, -, he⟩ := List.mem_map.1 (hx ▸ List.mem_map_of_mem (f := Prod.snd) hc)
    rw [← he] at hb
    exact ⟨x, he.symm, sameService_key hb⟩
  have hcode := removeFrom_code h.chain hr
  rcases removeFrom_returns [] h h.chain hr with
    ⟨hl, hpassed⟩ | ⟨pre, c, post, rfl, hpre, hc, hshaped, hu⟩
  · have habsent : ¬ Present nameKey (deviceName, serviceName) xs := by
      rintro ⟨x, hmem, hk⟩
      have hm : some x ∈ cells.map Prod.snd := hx ▸ List.mem_map_of_mem hmem
      obtain ⟨c, hc, he⟩ := List.mem_map.1 hm
      obtain ⟨y, hy, hkey⟩ := key c hc false (hpassed c hc)
      obtain rfl := Option.some.inj (hy.symm.trans he)
      exact Bool.false_ne_true (hkey.1 hk)
    refine ⟨⟨cells, hl ▸ h, ?_, List.Sublist.refl _, hl ▸ ⟨rfl, fun _ _ ht => ⟨rfl, ht⟩⟩⟩, ?_⟩
    · rw [delete_eq_self nameKey habsent, hx]
    · refine iff_of_false (fun h0 => ?_) habsent
      obtain ⟨c, hc, he⟩ := hcode.1 h0
      exact Bool.false_ne_true (Except.ok.inj ((hpassed c hc).symm.trans he))
  · obtain ⟨x, hcx, hkey⟩ := key c (by simp) true hc
    have hk := hkey.2 rfl
    rw [List.map_append, List.map_cons, hcx] at hx
    obtain ⟨xpre, xrest, rfl, hxpre, hxrest⟩ := List.map_eq_append_iff.1 hx.symm
    obtain ⟨y, xpost, rfl, hy, hxpost⟩ := List.map_eq_cons_iff.1 hxrest
    obtain rfl := Option.some.inj hy
    refine ⟨⟨pre ++ post, hshaped, ?_, (List.sublist_cons_self c post).append_left pre, hu⟩, ?_⟩
    · rw [← hk, delete_split nameKey unique, List.map_append, List.map_append, hxpre, hxpost]
    · exact iff_of_true (hcode.2 ⟨c, by simp, hc⟩) ⟨y, by simp, hk⟩

theorem Lists.remove {r : ℤ × ServiceInfoList} (h : Lists l xs)
    (hr : listRemove fuel l deviceName serviceName = .ok r) :
    Lists r.2 (delete nameKey (deviceName, serviceName) xs) ∧
      (0 ≤ r.1 ↔ Present nameKey (deviceName, serviceName) xs) := by
  obtain ⟨cells, hshaped, hx⟩ := h.cells
  obtain ⟨⟨cells', hshaped', hx', -, -⟩, hcode⟩ := listRemove_deletes hshaped hx h.unique hr
  exact ⟨⟨⟨cells', hshaped', hx'⟩, delete_unique nameKey h.unique _⟩, hcode⟩

theorem Lists.add {info : ServiceInfo} {l' : ServiceInfoList} (h : Lists l xs)
    (hr : listAdd fuel l info = .ok l') : Lists l' (putBack nameKey info xs) := by
  obtain ⟨cells, hshaped, hx⟩ := h.cells
  obtain ⟨r, hremove, hlink⟩ := bind_eq_ok.1 hr
  obtain ⟨⟨cells', hshaped', hx', hsub, hu⟩, -⟩ :=
    listRemove_deletes (getNode_shaped hshaped info) hx h.unique hremove
  obtain ⟨hheap, htail⟩ := hu.2 l.top hshaped.top_not_mem hshaped.tail_ne_top
  have hout : l.top ∉ cells'.map Prod.fst := fun hm =>
    hshaped.top_not_mem ((hsub.map Prod.fst).subset hm)
  obtain ⟨l'', hl, hlinked⟩ := linkNode_linked hshaped' hout htail
    (hheap.trans (write_same l.heap l.top _))
  obtain rfl := Except.ok.inj (hl.symm.trans hlink)
  refine ⟨⟨_, hlinked.shaped, ?_⟩, putBack_unique nameKey h.unique info⟩
  rw [List.map_append, hx', putBack, List.map_append]
  rfl

theorem initList_lists : Lists initList [] :=
  ⟨⟨[], initList_represents.shaped, rfl⟩, List.nodup_nil⟩

end Lists

section Inquiry
variable {cj : CJson} {l : ServiceInfoList} {xs : List ServiceInfo} {cells : List Slot}
  {serviceName : CharPtr}

/-- What a walk for an index returns is the info at that index, if it has the name. -/
theorem getFrom_returns {index i fuel : ℕ} {start : Option Ptr} {o : Option ServiceInfo}
    (h : Chain l.heap start cells) (hx : cells.map Prod.snd = xs.map some)
    (hr : getFrom l serviceName index fuel i start = .ok o) :
    (index < i → o = none) ∧
      (i ≤ index → o = xs[index - i]?.filter (called serviceName)) := by
  induction cells generalizing fuel i start xs with
  | nil =>
    obtain rfl : start = none := h
    obtain rfl : xs = [] := List.map_eq_nil_iff.1 hx.symm
    rw [getFrom] at hr
    obtain rfl := Except.ok.inj hr
    exact ⟨fun _ => rfl, fun _ => rfl⟩
  | cons c cells ih =>
    obtain ⟨rfl, next, hcell, hrest⟩ := h
    obtain ⟨x, ys, rfl, hc, hys⟩ := List.map_eq_cons_iff.1 hx.symm
    cases fuel with
    | zero =>
      rw [getFrom] at hr
      cases hr
    | succ fuel =>
      rw [getFrom, load_ok (hc ▸ hcell)] at hr
      change (if i = index then (strEqual x.serviceName serviceName >>= fun same =>
        if same = true then pure (some x) else getFrom l serviceName index fuel (i + 1) next)
        else getFrom l serviceName index fuel (i + 1) next) = _ at hr
      by_cases he : i = index
      · subst he
        rw [if_pos rfl] at hr
        obtain ⟨same, hs, hr⟩ := bind_eq_ok.1 hr
        refine ⟨fun hlt => absurd hlt (Nat.lt_irrefl _), fun _ => ?_⟩
        rw [Nat.sub_self, List.getElem?_cons_zero]
        cases same with
        | true =>
          obtain rfl := Except.ok.inj hr
          have hp : called serviceName x = true := decide_eq_true ((strEqual_ok hs).2 rfl)
          rw [Option.filter_some_pos hp]
        | false =>
          rw [Option.filter_some_neg (by simp [called, strEqual_ok hs])]
          exact (ih hrest hys.symm hr).1 (Nat.lt_succ_self _)
      · rw [if_neg he] at hr
        obtain ⟨hpast, hahead⟩ := ih hrest hys.symm hr
        refine ⟨fun hlt => hpast (by omega), fun hle => ?_⟩
        obtain ⟨k, hk⟩ := Nat.exists_eq_add_of_lt (Nat.lt_of_le_of_ne hle he)
        rw [hahead (by omega), show index - i = (index - (i + 1)) + 1 by omega,
          List.getElem?_cons_succ]

theorem listGet_returns {index fuel : ℕ} {o : Option ServiceInfo} (h : Lists l xs)
    (hr : listGet fuel l serviceName index = .ok o) :
    o = xs[index]?.filter (called serviceName) := by
  obtain ⟨cells, hshaped, hx⟩ := h.cells
  exact (getFrom_returns hshaped.chain hx hr).2 (Nat.zero_le index)

/-- The loop sends a result for each info up to the first of another name; where it has sent
none, the result of a failure. -/
theorem inquiryFrom_returns {listFuel fuel i : ℕ} {isGetService : Bool} {sent : List (List UInt8)}
    (h : Lists l xs)
    (hr : inquiryFrom cj listFuel l serviceName fuel i isGetService = .ok sent) :
    (isGetService = false → (xs.drop i).takeWhile (called serviceName) = [] →
      Answers cj false serviceNoFound sent) ∧
    (isGetService = true ∨ (xs.drop i).takeWhile (called serviceName) ≠ [] →
      List.Forall₂ (fun x p => getInquiryResultPkt cj x = .ok p)
        ((xs.drop i).takeWhile (called serviceName)) sent) := by
  induction fuel generalizing i isGetService sent with
  | zero => cases hr
  | succ fuel ih =>
    rw [inquiryFrom] at hr
    obtain ⟨o, ho, hr⟩ := bind_eq_ok.1 hr
    obtain rfl := listGet_returns h ho
    cases hf : xs[i]?.filter (called serviceName) with
    | none =>
      have hnil : (xs.drop i).takeWhile (called serviceName) = [] := by
        rcases Nat.lt_or_ge i xs.length with hlt | hge
        · rw [List.getElem?_eq_getElem hlt] at hf
          rw [List.drop_eq_getElem_cons hlt, List.takeWhile_cons_of_neg]
          intro hp
          rw [Option.filter_some_pos hp] at hf
          cases hf
        · rw [List.drop_of_length_le hge, List.takeWhile_nil]
      rw [hf] at hr
      rw [hnil]
      cases isGetService with
      | true =>
        obtain rfl := Except.ok.inj hr
        exact ⟨fun h0 => Bool.noConfusion h0, fun _ => .nil⟩
      | false =>
        obtain ⟨p, hp, hr⟩ := bind_eq_ok.1 hr
        exact ⟨fun _ _ => ⟨p, hp, (Except.ok.inj hr).symm⟩,
          fun h0 => (h0.resolve_left Bool.false_ne_true rfl).elim⟩
    | some x =>
      obtain ⟨hx, hp⟩ := Option.filter_eq_some_iff.1 hf
      obtain ⟨hlt, rfl⟩ := List.getElem?_eq_some_iff.1 hx
      rw [hf] at hr
      obtain ⟨p, hpkt, hr⟩ := bind_eq_ok.1 hr
      obtain ⟨rest, hrest, hr⟩ := bind_eq_ok.1 hr
      obtain rfl := Except.ok.inj hr
      rw [List.drop_eq_getElem_cons hlt, List.takeWhile_cons_of_pos hp]
      exact ⟨fun _ h0 => absurd h0 (List.cons_ne_nil _ _),
        fun _ => .cons hpkt ((ih hrest).2 (.inl rfl))⟩

theorem serveInquiry_returns {listFuel fuel : ℕ} {sent : List (List UInt8)} (h : Lists l xs)
    (hr : serveInquiry cj listFuel fuel l serviceName = .ok sent) :
    (xs.takeWhile (called serviceName) = [] → Answers cj false serviceNoFound sent) ∧
    (xs.takeWhile (called serviceName) ≠ [] →
      List.Forall₂ (fun x p => getInquiryResultPkt cj x = .ok p)
        (xs.takeWhile (called serviceName)) sent) := by
  obtain ⟨hnone, hsome⟩ := inquiryFrom_returns h hr
  exact ⟨hnone rfl, fun hne => hsome (.inr hne)⟩

end Inquiry

/-- No loop lacked passes. -/
abbrev Ends {α : Type} (x : Except CFault α) : Prop := Avoids .outOfFuel x

section Passes

theorem load_ends (l : ServiceInfoList) (p : Ptr) : Ends (load l p) := by
  unfold load
  split
  · exact avoids_ok _
  · exact avoids_error (by decide)

theorem storeNext_ends (l : ServiceInfoList) (p : Ptr) (next : Option Ptr) :
    Ends (storeNext l p next) :=
  (load_ends l p).bind fun _ _ => avoids_ok _

theorem strEqual_ends (a b : CharPtr) : Ends (strEqual a b) := by
  cases a with
  | none => exact avoids_error (by decide)
  | some a =>
    cases b with
    | none => exact avoids_error (by decide)
    | some b => exact avoids_ok _

theorem sameService_ends (node : Cell (Option ServiceInfo)) (deviceName serviceName : CharPtr) :
    Ends (sameService node deviceName serviceName) := by
  unfold sameService
  split
  · exact avoids_ok _
  · refine (strEqual_ends _ _).bind fun same _ => ?_
    split_ifs
    · exact strEqual_ends _ _
    · exact avoids_ok _

theorem unlink_ends (l : ServiceInfoList) (prev next : Option Ptr) : Ends (unlink l prev next) := by
  unfold unlink
  split
  · split
    · exact storeNext_ends _ _ _
    · exact (storeNext_ends _ _ _).bind fun _ _ => avoids_ok _
  · exact avoids_ok _

theorem linkNode_ends (l : ServiceInfoList) (node : Ptr) : Ends (linkNode l node) := by
  unfold linkNode
  simp only
  split
  · exact avoids_ok _
  · exact (storeNext_ends _ _ _).bind fun _ _ => avoids_ok _

theorem strncpyBuf_ends (p : CharPtr) : Ends (strncpyBuf p) := by
  cases p with
  | none => exact avoids_error (by decide)
  | some s => exact (strncpyBuf_nullFree s).fuel

theorem getInquiryResultPkt_ends (cj : CJson) (i : ServiceInfo) :
    Ends (getInquiryResultPkt cj i) :=
  (strncpyBuf_ends _).bind fun _ _ => (strncpyBuf_ends _).bind fun _ _ =>
    (strncpyBuf_ends _).bind fun _ _ => (strncpyBuf_ends _).bind fun _ _ =>
      (fillPkt_nullFree _ _ _).fuel

end Passes

section Bounds
variable {cj : CJson} {l : ServiceInfoList} {cells : List Slot} {xs : List ServiceInfo}
  {deviceName serviceName : CharPtr} {fuel : ℕ}

theorem removeFrom_ends {prev start : Option Ptr} (h : Chain l.heap start cells)
    (hf : cells.length ≤ fuel) : Ends (removeFrom deviceName serviceName l fuel prev start) := by
  induction cells generalizing fuel prev start with
  | nil =>
    obtain rfl : start = none := h
    rw [removeFrom]
    exact avoids_ok _
  | cons c cells ih =>
    obtain ⟨rfl, next, hcell, hrest⟩ := h
    obtain ⟨fuel, rfl⟩ := Nat.exists_eq_add_of_le' (Nat.lt_of_lt_of_le (Nat.succ_pos _) hf)
    rw [removeFrom, load_ok hcell]
    refine (sameService_ends ⟨c.2, next⟩ _ _).bind fun same _ => ?_
    split_ifs
    · exact (unlink_ends _ _ _).bind fun _ _ => avoids_ok _
    · exact ih hrest (Nat.le_of_succ_le_succ hf)

theorem getFrom_ends {index i : ℕ} {start : Option Ptr} (h : Chain l.heap start cells)
    (hf : cells.length ≤ fuel) : Ends (getFrom l serviceName index fuel i start) := by
  induction cells generalizing fuel i start with
  | nil =>
    obtain rfl : start = none := h
    rw [getFrom]
    exact avoids_ok _
  | cons c cells ih =>
    obtain ⟨rfl, next, hcell, hrest⟩ := h
    obtain ⟨fuel, rfl⟩ := Nat.exists_eq_add_of_le' (Nat.lt_of_lt_of_le (Nat.succ_pos _) hf)
    have hnext : Ends (getFrom l serviceName index fuel (i + 1) next) :=
      ih hrest (Nat.le_of_succ_le_succ hf)
    rw [getFrom, load_ok hcell]
    cases hc : c.2 with
    | none => exact hnext
    | some info =>
      change Ends (if i = index then (strEqual info.serviceName serviceName >>= fun same =>
        if same = true then pure (some info) else getFrom l serviceName index fuel (i + 1) next)
        else getFrom l serviceName index fuel (i + 1) next)
      split_ifs
      · refine (strEqual_ends _ _).bind fun same _ => ?_
        split_ifs
        · exact avoids_ok _
        · exact hnext
      · exact hnext

/-- The length of the list bounds the passes over it. -/
theorem Lists.bounded (h : Lists l xs) : ∃ cells, Shaped l cells ∧ cells.length = xs.length := by
  obtain ⟨cells, hshaped, hx⟩ := h.cells
  have hlen := congrArg List.length hx
  rw [List.length_map, List.length_map] at hlen
  exact ⟨cells, hshaped, hlen⟩

theorem listRemove_ends (h : Lists l xs) (hf : xs.length ≤ fuel) :
    Ends (listRemove fuel l deviceName serviceName) := by
  obtain ⟨cells, hshaped, hlen⟩ := h.bounded
  exact removeFrom_ends hshaped.chain (hlen ▸ hf)

theorem listGet_ends (index : ℕ) (h : Lists l xs) (hf : xs.length ≤ fuel) :
    Ends (listGet fuel l serviceName index) := by
  obtain ⟨cells, hshaped, hlen⟩ := h.bounded
  exact getFrom_ends hshaped.chain (hlen ▸ hf)

theorem listAdd_ends {info : ServiceInfo} (h : Lists l xs) (hf : xs.length ≤ fuel) :
    Ends (listAdd fuel l info) := by
  obtain ⟨cells, hshaped, hlen⟩ := h.bounded
  exact (removeFrom_ends (getNode_shaped hshaped info).chain (hlen ▸ hf)).bind
    fun _ _ => linkNode_ends _ _

/-- The index of the inquiry never gets past the end of the list. -/
theorem inquiryFrom_ends {listFuel i : ℕ} (isGetService : Bool) (h : Lists l xs)
    (hl : xs.length ≤ listFuel) (hi : i ≤ xs.length) (hf : xs.length < i + fuel) :
    Ends (inquiryFrom cj listFuel l serviceName fuel i isGetService) := by
  induction fuel generalizing i isGetService with
  | zero => omega
  | succ fuel ih =>
    rw [inquiryFrom]
    refine (listGet_ends i h hl).bind fun o ho => ?_
    cases o with
    | none =>
      change Ends (if isGetService then pure [] else _)
      split_ifs
      · exact avoids_ok _
      · exact Avoids.bind (getResultPkt_nullFree cj false serviceNoFound).fuel fun _ _ => avoids_ok _
    | some x =>
      have hlt : i < xs.length := by
        have hx := (Option.filter_eq_some_iff.1 (listGet_returns h ho).symm).1
        exact (List.getElem?_eq_some_iff.1 hx).1
      exact (getInquiryResultPkt_ends cj x).bind fun _ _ =>
        (ih true hlt (by omega)).bind fun _ _ => avoids_ok _

end Bounds

section Packets
variable {cj : CJson} {fuel : ℕ} {l : ServiceInfoList} {xs : List ServiceInfo}
  {pkt : List UInt8} {r : List (List UInt8) × ServiceInfoList}

theorem handles_register {info : ServiceInfo} {sent : List (List UInt8)}
    (h : Requests cj pkt .registerService info) (hs : Answers cj true .empty sent) :
    Handles cj xs pkt sent where
  register _ _ := hs
  unregister _ h' := (nomatch (requests_unique h h').1)
  inquiry _ h' := (nomatch (requests_unique h h').1)
  rejected hr _ _ := absurd h (hr info)

theorem handles_unregister {info : ServiceInfo} {sent : List (List UInt8)}
    (h : Requests cj pkt .unregisterService info)
    (hs : (Present nameKey (nameKey info) xs → Answers cj true .empty sent) ∧
      (¬ Present nameKey (nameKey info) xs → Answers cj false serviceNoFound sent)) :
    Handles cj xs pkt sent where
  register _ h' := (nomatch (requests_unique h h').1)
  unregister _ h' := (requests_unique h h').2 ▸ hs
  inquiry _ h' := (nomatch (requests_unique h h').1)
  rejected _ hu _ := absurd h (hu info)

theorem handles_inquiry {info : ServiceInfo} {sent : List (List UInt8)}
    (h : Requests cj pkt .inquiry info)
    (hs : (xs.takeWhile (called info.serviceName) = [] → Answers cj false serviceNoFound sent) ∧
      (xs.takeWhile (called info.serviceName) ≠ [] →
        List.Forall₂ (fun x p => getInquiryResultPkt cj x = .ok p)
          (xs.takeWhile (called info.serviceName)) sent)) :
    Handles cj xs pkt sent where
  register _ h' := (nomatch (requests_unique h h').1)
  unregister _ h' := (nomatch (requests_unique h h').1)
  inquiry _ h' := (requests_unique h h').2 ▸ hs
  rejected _ _ hi := absurd h (hi info)

/-- A branch that asks for the text of the packet and finds none sends nothing. -/
theorem unparsed_returns {f : Option ServiceInfo → Except CFault (List (List UInt8) × ServiceInfoList)}
    (hf : f none = .ok ([], l)) (hn : ∀ info, getServiceInfo cj pkt ≠ .ok (some info))
    (hr : (getServiceInfo cj pkt >>= f) = .ok r) : r = ([], l) := by
  obtain ⟨o, ho, hr⟩ := bind_eq_ok.1 hr
  cases o with
  | none => exact (Except.ok.inj (hf.symm.trans hr)).symm
  | some info => exact absurd ho (hn info)

/-- A packet that asks for nothing is not answered. -/
theorem serverLoop_ignored (hreg : ∀ info, ¬ Requests cj pkt .registerService info)
    (hunreg : ∀ info, ¬ Requests cj pkt .unregisterService info)
    (hinq : ∀ info, ¬ Requests cj pkt .inquiry info)
    (hr : serverLoop cj fuel fuel l pkt = .ok r) : r = ([], l) := by
  rw [serverLoop] at hr
  obtain ⟨type, ha, hr⟩ := bind_eq_ok.1 hr
  by_cases h0 : type = Action.registerService.code.toNat
  · rw [if_pos h0] at hr
    exact unparsed_returns rfl (fun info h => hreg info ⟨h0 ▸ ha, h⟩) hr
  rw [if_neg h0] at hr
  by_cases h1 : type = Action.unregisterService.code.toNat
  · rw [if_pos h1] at hr
    exact unparsed_returns rfl (fun info h => hunreg info ⟨h1 ▸ ha, h⟩) hr
  rw [if_neg h1] at hr
  by_cases h2 : type = Action.inquiry.code.toNat
  · rw [if_pos h2] at hr
    exact unparsed_returns rfl (fun info h => hinq info ⟨h2 ▸ ha, h⟩) hr
  rw [if_neg h2] at hr
  exact (Except.ok.inj hr).symm

theorem serverLoop_inquiry {info : ServiceInfo} (h : Requests cj pkt .inquiry info) :
    serverLoop cj fuel fuel l pkt =
      (serveInquiry cj fuel fuel l info.serviceName).map fun sent => (sent, l) := by
  rw [serverLoop, h.action]
  change (getServiceInfo cj pkt >>= _) = _
  rw [h.info]
  change (serveInquiry cj fuel fuel l info.serviceName >>= _) = _
  cases serveInquiry cj fuel fuel l info.serviceName <;> rfl

/-- One pass of the loop that returns, by what the packet asks for. -/
theorem serverLoop_returns (h : Lists l xs) (hr : serverLoop cj fuel fuel l pkt = .ok r) :
    Lists r.2 (applyBack nameKey xs (change cj pkt)) ∧ Handles cj xs pkt r.1 := by
  by_cases hreg : ∃ info, Requests cj pkt .registerService info
  · obtain ⟨info, hreq⟩ := hreg
    rw [serverLoop, hreq.action] at hr
    change (getServiceInfo cj pkt >>= _) = _ at hr
    rw [hreq.info] at hr
    change (listAdd fuel l info >>= _) = _ at hr
    obtain ⟨l', hadd, hr⟩ := bind_eq_ok.1 hr
    obtain ⟨p, hp, hr⟩ := bind_eq_ok.1 hr
    obtain rfl := Except.ok.inj hr
    rw [change, changeOf_put nameKey (exclusive cj) hreq]
    exact ⟨h.add hadd, handles_register hreq ⟨p, hp, rfl⟩⟩
  by_cases hunreg : ∃ info, Requests cj pkt .unregisterService info
  · obtain ⟨info, hreq⟩ := hunreg
    rw [serverLoop, hreq.action] at hr
    change (getServiceInfo cj pkt >>= _) = _ at hr
    rw [hreq.info] at hr
    change (listRemove fuel l info.deviceName info.serviceName >>= _) = _ at hr
    obtain ⟨⟨i, l'⟩, hremove, hr⟩ := bind_eq_ok.1 hr
    obtain ⟨hlists, hcode⟩ := h.remove hremove
    rw [change, changeOf_drop nameKey (exclusive cj) hreq]
    change (if i ≥ 0 then getResultPkt cj true (some .empty) >>= _
      else getResultPkt cj false (some serviceNoFound) >>= _) = _ at hr
    by_cases hi : i ≥ 0
    · rw [if_pos hi] at hr
      obtain ⟨p, hp, hr⟩ := bind_eq_ok.1 hr
      obtain rfl := Except.ok.inj hr
      exact ⟨hlists, handles_unregister hreq
        ⟨fun _ => ⟨p, hp, rfl⟩, fun habsent => absurd (hcode.1 hi) habsent⟩⟩
    · rw [if_neg hi] at hr
      obtain ⟨p, hp, hr⟩ := bind_eq_ok.1 hr
      obtain rfl := Except.ok.inj hr
      exact ⟨hlists, handles_unregister hreq
        ⟨fun hpresent => absurd (hcode.2 hpresent) hi, fun _ => ⟨p, hp, rfl⟩⟩⟩
  have hkeep : change cj pkt = .keep :=
    changeOf_keep nameKey (not_exists.1 hreg) (not_exists.1 hunreg)
  rw [hkeep]
  by_cases hinq : ∃ info, Requests cj pkt .inquiry info
  · obtain ⟨info, hreq⟩ := hinq
    rw [serverLoop_inquiry hreq] at hr
    obtain ⟨sent, hsent, rfl⟩ := map_eq_ok.1 hr
    exact ⟨h, handles_inquiry hreq (serveInquiry_returns h hsent)⟩
  · obtain rfl := serverLoop_ignored (not_exists.1 hreg) (not_exists.1 hunreg)
      (not_exists.1 hinq) hr
    exact ⟨h, fun info hreq => absurd ⟨info, hreq⟩ hreg, fun info hreq => absurd ⟨info, hreq⟩ hunreg,
      fun info hreq => absurd ⟨info, hreq⟩ hinq, fun _ _ _ => rfl⟩

/-- The list is shorter than the fuel, and so no loop of a pass over it lacks passes. -/
theorem serverLoop_ends (pkt : List UInt8) (h : Lists l xs) (hf : xs.length < fuel) :
    Ends (serverLoop cj fuel fuel l pkt) := by
  have hresult : ∀ isSucc reason, Ends (getResultPkt cj isSucc (some reason)) :=
    fun isSucc reason => (getResultPkt_nullFree cj isSucc reason).fuel
  have hparse : ∀ {f : Option ServiceInfo → Except CFault (List (List UInt8) × ServiceInfoList)},
      (∀ o, Ends (f o)) → Ends (getServiceInfo cj pkt >>= f) :=
    fun hf => Avoids.bind (getServiceInfo_nullFree cj pkt).fuel fun o _ => hf o
  rw [serverLoop]
  refine Avoids.bind (decodeAction_nullFree pkt).fuel fun type _ => ?_
  split_ifs
  · refine hparse fun o => ?_
    cases o with
    | none => exact avoids_ok _
    | some info =>
      exact (listAdd_ends h hf.le).bind fun _ _ => (hresult _ _).bind fun _ _ => avoids_ok _
  · refine hparse fun o => ?_
    cases o with
    | none => exact avoids_ok _
    | some info =>
      refine (listRemove_ends h hf.le).bind fun r _ => ?_
      change Ends (if r.1 ≥ 0 then _ else _)
      split_ifs
      · exact (hresult _ _).bind fun _ _ => avoids_ok _
      · exact (hresult _ _).bind fun _ _ => avoids_ok _
  · refine hparse fun o => ?_
    cases o with
    | none => exact avoids_ok _
    | some info =>
      exact (inquiryFrom_ends false h hf.le (Nat.zero_le _) (by omega)).bind fun _ _ => avoids_ok _
  · exact avoids_ok _

theorem serves_lists {front : List (List UInt8)} (hr : serves cj fuel front = .ok l) :
    Lists l (replayBack nameKey (front.map (change cj))) := by
  induction front using List.reverseRecOn generalizing l with
  | nil =>
    obtain rfl := Except.ok.inj hr
    exact initList_lists
  | append_singleton front pkt ih =>
    rw [serves_snoc] at hr
    obtain ⟨l₀, hfront, hserve⟩ := bind_eq_ok.1 hr
    obtain ⟨r, hloop, rfl⟩ := map_eq_ok.1 hserve
    rw [List.map_append, List.map_singleton, replayBack_append]
    exact (serverLoop_returns (ih hfront) hloop).1

theorem serves_ends {front : List (List UInt8)} (hf : front.length < fuel) :
    Ends (serves cj fuel front) := by
  induction front using List.reverseRecOn with
  | nil => exact avoids_ok _
  | append_singleton front pkt ih =>
    rw [List.length_append, List.length_singleton] at hf
    rw [serves_snoc]
    refine (ih (by omega)).bind fun l hl => Avoids.map ?_ Prod.snd
    have hlen := replayBack_length nameKey (front.map (change cj))
    rw [List.length_map] at hlen
    exact serverLoop_ends pkt (serves_lists hl) (by omega)

end Packets

/-- As long as no fault stops it, the list of the C daemon is the history of its requests:
what they registered and did not take back, oldest first; and it answers every packet from it. -/
theorem serves_chronicle (cj : CJson) {fuel : ℕ} (pkts : List (List UInt8))
    (enough : pkts.length < fuel) :
    Ends (serves cj fuel pkts) ∧ ∀ l, serves cj fuel pkts = .ok l → ∃ xs, ReadsAs l xs ∧
      Chronicle nameKey (Registers cj) (Unregisters cj) pkts xs ∧
      ∀ pkt, Ends (serverLoop cj fuel fuel l pkt) ∧
        ∀ r, serverLoop cj fuel fuel l pkt = .ok r → Handles cj xs pkt r.1 := by
  refine ⟨serves_ends enough, fun l hl => ?_⟩
  have hlists := serves_lists hl
  have hlen := replayBack_length nameKey (pkts.map (change cj))
  rw [List.length_map] at hlen
  obtain ⟨cells, hshaped, hx⟩ := hlists.cells
  exact ⟨_, ⟨cells, hshaped.chain, hx⟩,
    replayBack_chronicle nameKey (exclusive cj) pkts,
    fun pkt => ⟨serverLoop_ends pkt hlists (by omega),
      fun r hr => (serverLoop_returns hlists hr).2⟩⟩

/-- An inquiry is told of a service exactly when every service registered no later and still
in force has the name it asks for; of none, it is told that the name was not found. -/
theorem serves_tells_iff (cj : CJson) {fuel : ℕ} {pkts : List (List UInt8)}
    {l : ServiceInfoList} {pkt : List UInt8} {info : ServiceInfo}
    {r : List (List UInt8) × ServiceInfoList} (reached : serves cj fuel pkts = .ok l)
    (asks : Requests cj pkt .inquiry info) (answered : serverLoop cj fuel fuel l pkt = .ok r) :
    r.2 = l ∧ ∃ told : List ServiceInfo,
      (∀ v, v ∈ told ↔ ∃ i, Registered cj pkts i v ∧ ∀ j w, j ≤ i → Registered cj pkts j w →
        w.serviceName = info.serviceName) ∧
      (told = [] → Answers cj false serviceNoFound r.1) ∧
      (told ≠ [] → List.Forall₂ (fun x p => getInquiryResultPkt cj x = .ok p) told r.1) := by
  rw [serverLoop_inquiry asks] at answered
  obtain ⟨sent, hsent, rfl⟩ := map_eq_ok.1 answered
  obtain ⟨hnone, hsome⟩ := serveInquiry_returns (serves_lists reached) hsent
  refine ⟨rfl, _, fun v => ?_, hnone, hsome⟩
  rw [mem_takeWhile_replayBack]
  simp only [Registered, inForce_iff_live nameKey (exclusive cj), called,
    decide_eq_true_eq, not_lt]

section Registrations
variable {cj : CJson} {fuel : ℕ} {pkts : List (List UInt8)} {infos : List NamedInfo}

/-- A daemon that hears only registrations adds one info after the other. -/
theorem serves_registrations (doc : cj.Documented)
    (h : List.Forall₂ (fun pkt i => Requests cj pkt .registerService i.info) pkts infos) :
    serves cj fuel pkts = run fuel (infos.map .listAdd) := by
  have hfrom : ∀ l, pkts.foldlM (serve cj fuel) l =
      (infos.map Op.listAdd).foldlM (CList.step fuel) l := by
    induction h with
    | nil => exact fun _ => rfl
    | cons hreq _ ih =>
      intro l
      rw [List.map_cons, List.foldlM_cons, List.foldlM_cons, serve_register doc hreq]
      exact bind_congr fun l' => ih l'
  exact hfrom initList

/-- It answers an inquiry, if what it holds fits its packets. -/
theorem inquiry_answered (doc : cj.Documented) {pkt : List UInt8} {info : ServiceInfo}
    {serviceName : CString}
    (h : List.Forall₂ (fun pkt i => Requests cj pkt .registerService i.info) pkts infos)
    (hf : pkts.length < fuel) (asks : Requests cj pkt .inquiry info)
    (hname : info.serviceName = some serviceName)
    (fits : ∀ i ∈ infos, CInquiry.Encodable cj i.info) :
    ∃ l sent, serves cj fuel pkts = .ok l ∧ serverLoop cj fuel fuel l pkt = .ok (sent, l) := by
  have hlen : (infos.map Op.listAdd).length = pkts.length := by
    rw [List.length_map, h.length_eq]
  obtain ⟨l, nodes, hrun, hrep, hinfos⟩ := run_spec (infos.map .listAdd) (hlen.trans_le hf.le)
  have hnodes : nodes.length ≤ pkts.length := by
    rw [← hlen, ← List.length_map (f := Prod.snd)]
    exact (congrArg List.length hinfos).le.trans (abstractRun_length _)
  have hheld : ∀ i ∈ CListRefinement.infos nodes, CInquiry.Encodable cj i.info := by
    intro i hi
    rw [hinfos, abstractRun, List.foldl_map] at hi
    exact fits i ((mem_of_mem_putBacks pairOf hi).resolve_right List.not_mem_nil)
  obtain ⟨sent, hsent⟩ := CInquiry.replies_ok doc serviceName hheld
  refine ⟨l, sent, (serves_registrations doc h).trans hrun, ?_⟩
  rw [serverLoop_inquiry asks, hname, CInquiry.serveInquiry_eq_replies cj serviceName hrep
    (hnodes.trans hf.le) (hnodes.trans_lt hf), hsent]
  rfl

end Registrations

section Examples
open CJsonText CRoundTrip JsonText WordSum
open CUnregister (boxList serves_box)

theorem serves_chronicle_box : ∃ xs, ReadsAs boxList xs ∧
    Chronicle nameKey (Registers textCJson) (Unregisters textCJson) [boxPkt .registerService]
      xs := by
  obtain ⟨xs, hreads, hchronicle, -⟩ := (serves_chronicle textCJson [boxPkt .registerService]
    (show 1 < 3 by decide)).2 boxList serves_box
  exact ⟨xs, hreads, hchronicle⟩

def photo : Text := ⟨⟨ascii "photo", by decide⟩, by decide, plain_of_all (by decide)⟩

/-- Between two services of the name stands one of another. -/
def mixed : List (Text × Text) := [(box, box), (box, photo), (photo, box)]

def mixedPkts : List (List UInt8) := mixed.map fun n => namesPkt .registerService n.1 n.2

def mixedInfos : List NamedInfo := mixed.map fun n => namesInfo n.1 n.2

theorem requests_mixed :
    List.Forall₂ (fun pkt i => Requests textCJson pkt .registerService i.info) mixedPkts
      mixedInfos := by
  rw [mixedPkts, mixedInfos, List.forall₂_map_left_iff, List.forall₂_map_right_iff,
    List.forall₂_same]
  have hplain : ∀ n ∈ mixed, highCount n.1.str.bytes = 0 ∧ highCount n.2.str.bytes = 0 := by decide
  exact fun n hn => requests_namesPkt _ (hplain n hn)

theorem mixed_encodable : ∀ i ∈ mixedInfos, CInquiry.Encodable textCJson i.info := by
  intro i hi
  obtain ⟨⟨d, s⟩, -, rfl⟩ := List.mem_map.1 hi
  exact ⟨d.str, s.str, box.str, box.str, rfl, Nat.lt_succ_of_le d.short, Nat.lt_succ_of_le s.short,
    by decide, by decide, (print_length d s box box 6666 textCJson_documented).le⟩

/-- Whoever asks for the name of the first and the last is told of the first. -/
theorem serves_tells_iff_mixed : ∃ l r, serves textCJson 4 mixedPkts = .ok l ∧
    serverLoop textCJson 4 4 l boxInquiry = .ok r ∧ r.2 = l ∧ ∃ told : List ServiceInfo,
      (∀ v, v ∈ told ↔ ∃ i, Registered textCJson mixedPkts i v ∧
        ∀ j w, j ≤ i → Registered textCJson mixedPkts j w → w.serviceName = boxInfo.serviceName) ∧
      (told = [] → Answers textCJson false serviceNoFound r.1) ∧
      (told ≠ [] → List.Forall₂ (fun x p => getInquiryResultPkt textCJson x = .ok p) told r.1) := by
  obtain ⟨l, sent, hl, hr⟩ := inquiry_answered textCJson_documented requests_mixed
    (Nat.lt_succ_self 3) requests_boxInquiry rfl mixed_encodable
  exact ⟨l, _, hl, hr, serves_tells_iff textCJson hl requests_boxInquiry hr⟩

end Examples

end MiniServiceDiscover.CHistory
