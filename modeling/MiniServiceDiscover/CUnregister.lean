import MiniServiceDiscover.CCheckResult
import MiniServiceDiscover.CReachable

set_option autoImplicit false

/-! An unregistration that the address sweep delivers many times: the C daemon's list and
replies, and what the server makes of the replies in any order. -/
namespace MiniServiceDiscover.CUnregister
open CProtocal CList CListRefinement CDaemon CRegistry CReachable CSweep CCheckResult CRoundTrip
open KeyedList StepRuns WireFormat WordSum

/-- What reaches the daemon: a copy of the unregistration, or a request of somebody else. -/
inductive Delivery where
  | copy
  | other (pkt : List UInt8)
  deriving DecidableEq, Repr

def others : List Delivery → List (List UInt8)
  | [] => []
  | .copy :: ds => others ds
  | .other pkt :: ds => pkt :: others ds

def copies : List Delivery → ℕ
  | [] => 0
  | .copy :: ds => copies ds + 1
  | .other _ :: ds => copies ds

section Daemon
variable (cj : CJson) (fuel : ℕ)

/-- The packets that answer the copies, and the list behind the last delivery. -/
def deliver (unregisterPkt : List UInt8) :
    List Delivery → ServiceInfoList → Except CFault (List (List UInt8) × ServiceInfoList)
  | [], l => pure ([], l)
  | .copy :: ds, l => do
    let (sent, l) ← serverLoop cj fuel fuel l unregisterPkt
    let (rest, l) ← deliver unregisterPkt ds l
    pure (sent ++ rest, l)
  | .other pkt :: ds, l => do
    let l ← serve cj fuel l pkt
    deliver unregisterPkt ds l

def serveAll (l : ServiceInfoList) (pkts : List (List UInt8)) : Except CFault ServiceInfoList :=
  pkts.foldlM (serve cj fuel) l

/-- An accepted registration or unregistration of another pair. -/
def AboutOther (k : Pair) (pkt : List UInt8) : Prop := ∃ i : NamedInfo, pairOf i ≠ k ∧
  (Requests cj pkt .registerService i.info ∨ Requests cj pkt .unregisterService i.info)

end Daemon

def ptrKey (k : Pair) : CharPtr × CharPtr := (some k.1, some k.2)

def Registered (l : ServiceInfoList) (k : Pair) : Prop :=
  ∃ xs, ReadsAs l xs ∧ Present nameKey (ptrKey k) xs

/-- The pair is gone from the list, which is otherwise the other one. -/
structure AsWithout (k : Pair) (l without : ServiceInfoList) : Prop where
  absent : ¬ Registered l k
  rest : ∃ xs, ReadsAs without xs ∧ ReadsAs l (delete nameKey (ptrKey k) xs)

/-- Only the first copy can be answered with success, and it is when the pair is there. -/
structure Answered (found : Prop) (first : List UInt8) (later : List (List UInt8)) : Prop where
  valid : decodeAction first = .ok (Action.actionSucc.code.toNat : ℤ) ∨
    decodeAction first = .ok (Action.actionFail.code.toNat : ℤ)
  succ : decodeAction first = .ok (Action.actionSucc.code.toNat : ℤ) ↔ found
  rest : ∀ p ∈ later, decodeAction p = .ok (Action.actionFail.code.toNat : ℤ)

/-- A call that gets these replies in any order returns `0` exactly when the pair was
found. -/
def Told (cj : CJson) (found : Prop) (sent : List (List UInt8)) : Prop :=
  ∀ (e s : State) (acts : List Act), isInquiry e.call = false → e.ret = -1 → e.pc = .getRecPkt →
    Runs (CSweep.step cj) (fun _ _ => True) e (.getRecPkt true :: acts) s →
      (replies acts).Perm sent → (∀ c, s.fault ≠ some (.codec c)) ∧ (s.ret = 0 ↔ found)

/-- Requests about other pairs, then the first copy, then any mix of both. -/
def Tolerates (cj : CJson) (fuel : ℕ) (unregisterPkt : List UInt8) (k : Pair)
    (l : ServiceInfoList) (before : List (List UInt8)) (rest : List Delivery) : Prop :=
  ∃ arrival first later after without,
    serveAll cj fuel l before = .ok arrival ∧
    deliver cj fuel unregisterPkt (.copy :: rest) arrival = .ok (first :: later, after) ∧
    serveAll cj fuel l (before ++ others rest) = .ok without ∧
    AsWithout k after without ∧ later.length = copies rest ∧
    Answered (Registered arrival k) first later ∧
    Told cj (Registered arrival k) (first :: later)

section Replies
variable {cj : CJson} {s u : State}

/-- A reply that the server can read, with its action. -/
structure Reply (cj : CJson) (isSucc : Bool) (pkt : List UInt8) : Prop where
  action : decodeAction pkt = .ok ((resultAction isSucc).code.toNat : ℤ)
  readable : ∃ res, getResult cj pkt = .ok res

theorem getResultPkt_reply (doc : cj.Documented) (isSucc : Bool) (reason : CString)
    (hr : reason.bytes.length < infoMaxLen) (hhigh : highCount reason.bytes = 0) :
    ∃ p, getResultPkt cj isSucc (some reason) = .ok p ∧ Reply cj isSucc p := by
  have hl := reasonText_length doc hr
  have hsum : highCount (cj.print (reasonRoot reason)).bytes = 0 := by
    rw [doc.rawHigh]
    simp only [reasonRoot, List.map_cons, List.map_nil, List.sum_cons, List.sum_nil, Field.highCount,
      hhigh, Nat.add_zero]
  have hsame := (signed_eq_unsigned_iff (cj.print (reasonRoot reason)).bytes).2 (by rw [hsum])
  have hc := (printedPkt_checksumRight (resultAction isSucc) hl.le).trans
    (congrArg Except.ok (beq_iff_eq.2 hsame.symm))
  refine ⟨_, getResultPkt_eq doc isSucc hr, printedPkt_decodeAction _ hc, ?_⟩
  rw [getResult, printedPkt_stringAt _ hl]
  split
  · exact ⟨_, rfl⟩
  · exact ⟨_, rfl⟩

theorem resultAction_succ_iff (isSucc : Bool) :
    ((resultAction isSucc).code.toNat : ℤ) = Action.actionSucc.code.toNat ↔ isSucc = true := by
  cases isSucc <;> decide

theorem Reply.succ_iff {isSucc : Bool} {pkt : List UInt8} (h : Reply cj isSucc pkt) :
    decodeAction pkt = .ok (Action.actionSucc.code.toNat : ℤ) ↔ isSucc = true := by
  rw [h.action, Except.ok.injEq, resultAction_succ_iff]

/-- One pass over a reply: success sets the result, failure leaves it. -/
theorem checkResult_reply {isSucc : Bool} {pkt : List UInt8} (hc : isInquiry s.call = false)
    (h : Reply cj isSucc pkt) :
    checkResult cj s pkt = .ok { s with ret := if isSucc then 0 else s.ret } := by
  obtain ⟨res, hres⟩ := h.readable
  cases isSucc with
  | true =>
    have ha : decodeAction pkt = .ok (Action.actionSucc.code.toNat : ℤ) := h.action
    exact checkResult_told hc ha
  | false =>
    have ha : decodeAction pkt = .ok (Action.actionFail.code.toNat : ℤ) := h.action
    rw [checkResult_failed ha, hres]
    rfl

/-- The result is `0` once a success was read, and `-1` before. -/
structure Tally (pkts : List (List UInt8)) (s : State) : Prop where
  call : isInquiry s.call = false
  defined : ∀ c, s.fault ≠ some (.codec c)
  range : s.ret = 0 ∨ s.ret = -1
  succ : s.ret = 0 ↔ ∃ p ∈ pkts, decodeAction p = .ok (Action.actionSucc.code.toNat : ℤ)

theorem read_tally {pkts : List (List UInt8)} {isSucc : Bool} {pkt : List UInt8} (h : Tally pkts s)
    (hp : Reply cj isSucc pkt) : Tally (pkts ++ [pkt]) (CSweep.read cj s (some pkt)) := by
  have hcheck := checkResult_reply (s := { s with readEnd := true }) h.call hp
  rw [CSweep.read]
  simp only [hcheck]
  refine ⟨h.call, h.defined, ?_, ?_⟩
  · cases isSucc with
    | true => exact .inl rfl
    | false => exact h.range
  · have hmem : (∃ p ∈ pkts ++ [pkt], decodeAction p = .ok (Action.actionSucc.code.toNat : ℤ)) ↔
        s.ret = 0 ∨ isSucc = true := by
      rw [h.succ, ← hp.succ_iff]
      simp only [List.mem_append, List.mem_singleton, or_and_right, exists_or, exists_eq_left]
    rw [hmem]
    cases isSucc with
    | true => exact iff_of_true rfl (.inr rfl)
    | false => exact (or_iff_left Bool.false_ne_true).symm

theorem run_tally {e : State} {acts : List Act} (hc : isInquiry e.call = false) (hret : e.ret = -1)
    (entry : e.pc = .getRecPkt)
    (run : Runs (CSweep.step cj) (fun _ _ => True) e (.getRecPkt true :: acts) s)
    (hreplies : ∀ p ∈ replies acts, ∃ isSucc, Reply cj isSucc p) : Tally (replies acts) s := by
  refine run_replies entry run
    (fun pkts s => (∀ p ∈ pkts, ∃ isSucc, Reply cj isSucc p) → Tally pkts s) ?_ ?_ ?_ hreplies
  · intro hf _
    refine ⟨hc, fun c hcodec => ?_, .inr hret, ?_⟩
    · cases hf.symm.trans hcodec
    · refine iff_of_false ?_ fun ⟨p, hm, _⟩ => absurd hm List.not_mem_nil
      rw [getRecPkt, if_pos rfl, hret]
      decide
  · intro pkts s u a h _ hq hall
    have ht := h hall
    exact ⟨hq.call ▸ ht.call, hq.defined, hq.ret ▸ ht.range, hq.ret ▸ ht.succ⟩
  · intro pkts s pkt h _ hall
    rw [List.forall_mem_append] at hall
    obtain ⟨isSucc, hp⟩ := hall.2 pkt (List.mem_singleton_self pkt)
    exact read_tally (h hall.1) hp

/-- Replies of which only the first can be a success, in any order. -/
theorem told_of_replies {found : Bool} {first : List UInt8} {later : List (List UInt8)}
    (hfirst : Reply cj found first) (hlater : ∀ p ∈ later, Reply cj false p) :
    Told cj (found = true) (first :: later) := by
  intro e s acts hc hret entry run hperm
  have hall : ∀ p ∈ replies acts, ∃ isSucc, Reply cj isSucc p := by
    intro p hp
    rcases List.mem_cons.1 (hperm.subset hp) with rfl | hp
    · exact ⟨found, hfirst⟩
    · exact ⟨false, hlater p hp⟩
  have ht := run_tally hc hret entry run hall
  refine ⟨ht.defined, ht.succ.trans ⟨?_, ?_⟩⟩
  · rintro ⟨p, hp, ha⟩
    rcases List.mem_cons.1 (hperm.subset hp) with rfl | hp
    · exact hfirst.succ_iff.1 ha
    · exact absurd ((hlater p hp).succ_iff.1 ha) Bool.false_ne_true
  · exact fun h => ⟨first, hperm.symm.subset (List.mem_cons_self ..), hfirst.succ_iff.2 h⟩

end Replies

section Lists
variable {cj : CJson} (fuel : ℕ) {l : ServiceInfoList} {xs : List ServiceInfo} {pkt : List UInt8}

theorem registered_iff (h : Stored l xs) (k : Pair) :
    Registered l k ↔ Present nameKey (ptrKey k) xs := by
  constructor
  · rintro ⟨ys, hy, hp⟩
    rwa [h.eq_of_readsAs hy] at hp
  · exact fun hp => ⟨xs, h.readsAs, hp⟩

/-- The daemon's pass over an unregistration with both names. -/
theorem serverLoop_unregister (doc : cj.Documented) {i : NamedInfo}
    (h : Requests cj pkt .unregisterService i.info) (hl : Stored l xs) (hf : xs.length ≤ fuel) :
    ∃ p l', serverLoop cj fuel fuel l pkt = .ok ([p], l') ∧
      Stored l' (delete nameKey (ptrKey (pairOf i)) xs) ∧
      Reply cj (decide (Present nameKey (ptrKey (pairOf i)) xs)) p := by
  obtain ⟨p, hp, hsucc⟩ := getResultPkt_reply doc true .empty (by decide) (by decide)
  obtain ⟨q, hq, hfail⟩ := getResultPkt_reply doc false serviceNoFound (by decide)
    (by decide)
  obtain ⟨l', hremove, hstored⟩ := hl.remove hf i.deviceName i.serviceName
  have hloop : serverLoop cj fuel fuel l pkt =
      if Present nameKey (ptrKey (pairOf i)) xs then .ok ([p], l') else .ok ([q], l') := by
    rw [serverLoop, h.action]
    change (getServiceInfo cj pkt >>= _) = _
    rw [h.info]
    change (listRemove fuel l i.info.deviceName i.info.serviceName >>= _) = _
    rw [i.hasDeviceName, i.hasServiceName, hremove, hp, hq, ptrKey, pairOf]
    split_ifs <;> rfl
  rw [hloop]
  by_cases hpresent : Present nameKey (ptrKey (pairOf i)) xs
  · rw [if_pos hpresent, decide_eq_true hpresent]
    exact ⟨p, l', rfl, hstored, hsucc⟩
  · rw [if_neg hpresent, decide_eq_false hpresent]
    exact ⟨q, l', rfl, hstored, hfail⟩

/-- A request with both names is one change of the registry. -/
theorem serve_named (doc : cj.Documented) {i : NamedInfo}
    (h : Requests cj pkt .registerService i.info ∨ Requests cj pkt .unregisterService i.info) :
    ∃ c : Change ServiceInfo (CharPtr × CharPtr),
      (∀ k, c.Touches nameKey k → k = nameKey i.info) ∧
      ∀ l xs, Stored l xs → xs.length ≤ fuel →
        ∃ l', serve cj fuel l pkt = .ok l' ∧ Stored l' (applyBack nameKey xs c) := by
  rcases h with h | h
  · refine ⟨.put i.info, fun k hk => hk.symm, fun l xs hl hf => ?_⟩
    rw [serve_register doc h]
    exact hl.add hf i
  · refine ⟨.drop (nameKey i.info), fun k hk => hk.symm, fun l xs hl hf => ?_⟩
    obtain ⟨l', hremove, hstored⟩ := hl.remove hf i.deviceName i.serviceName
    rw [serve_unregister doc h, i.hasDeviceName, i.hasServiceName, hremove, nameKey_info]
    exact ⟨l', rfl, hstored⟩

theorem serve_other (doc : cj.Documented) {k : Pair} (h : AboutOther cj k pkt) :
    ∃ c : Change ServiceInfo (CharPtr × CharPtr), ¬ c.Touches nameKey (ptrKey k) ∧
      ∀ l xs, Stored l xs → xs.length ≤ fuel →
        ∃ l', serve cj fuel l pkt = .ok l' ∧ Stored l' (applyBack nameKey xs c) := by
  obtain ⟨i, hne, hreq⟩ := h
  obtain ⟨c, htouch, hserve⟩ := serve_named fuel doc hreq
  refine ⟨c, fun ht => hne ?_, hserve⟩
  exact (nameKey_eq_iff i k).1 (htouch _ ht).symm

end Lists

section Runs
variable {cj : CJson} {fuel : ℕ}

theorem serveAll_append (l : ServiceInfoList) (front back : List (List UInt8)) :
    serveAll cj fuel l (front ++ back) =
      serveAll cj fuel l front >>= fun l => serveAll cj fuel l back :=
  List.foldlM_append

theorem serveAll_others (fuel : ℕ) (doc : cj.Documented) {k : Pair} {pkts : List (List UInt8)}
    (hother : ∀ pkt ∈ pkts, AboutOther cj k pkt) {l : ServiceInfoList} {xs : List ServiceInfo}
    (hl : Stored l xs) (hf : xs.length + pkts.length ≤ fuel) :
    ∃ l' ys, serveAll cj fuel l pkts = .ok l' ∧ Stored l' ys ∧
      ys.length ≤ xs.length + pkts.length := by
  induction pkts generalizing l xs with
  | nil => exact ⟨l, xs, rfl, hl, Nat.le_refl _⟩
  | cons pkt pkts ih =>
    rw [List.forall_mem_cons] at hother
    rw [List.length_cons] at hf
    obtain ⟨c, -, hserve⟩ := serve_other fuel doc hother.1
    obtain ⟨l₁, hl₁, hstored⟩ := hserve l xs hl (by omega)
    have hlen := applyBack_length nameKey xs c
    obtain ⟨l', ys, hall, hys, hle⟩ := ih hother.2 hstored (by omega)
    refine ⟨l', ys, ?_, hys, by rw [List.length_cons]; omega⟩
    rw [serveAll, List.foldlM_cons, hl₁]
    exact hall

/-- Behind the first copy: the list follows the one without copies, less the pair, and
every further copy fails. -/
theorem deliver_absent (fuel : ℕ) (doc : cj.Documented) {unregisterPkt : List UInt8} {i : NamedInfo}
    (request : Requests cj unregisterPkt .unregisterService i.info) {ds : List Delivery}
    (hother : ∀ pkt ∈ others ds, AboutOther cj (pairOf i) pkt) {l w : ServiceInfoList}
    {ys : List ServiceInfo} (hl : Stored l (delete nameKey (ptrKey (pairOf i)) ys))
    (hw : Stored w ys) (hf : ys.length + ds.length ≤ fuel) :
    ∃ sent l' w' zs, deliver cj fuel unregisterPkt ds l = .ok (sent, l') ∧
      serveAll cj fuel w (others ds) = .ok w' ∧
      Stored l' (delete nameKey (ptrKey (pairOf i)) zs) ∧ Stored w' zs ∧
      sent.length = copies ds ∧ ∀ p ∈ sent, Reply cj false p := by
  induction ds generalizing l w ys with
  | nil => exact ⟨[], l, w, ys, rfl, rfl, hl, hw, rfl, fun _ hm => absurd hm List.not_mem_nil⟩
  | cons d ds ih =>
    rw [List.length_cons] at hf
    have hdel := delete_length nameKey (ptrKey (pairOf i)) ys
    cases d with
    | copy =>
      have habsent := not_present_delete nameKey (ptrKey (pairOf i)) ys
      obtain ⟨p, l₁, hloop, hstored, hreply⟩ := serverLoop_unregister fuel doc request hl (by omega)
      rw [delete_eq_self nameKey habsent] at hstored
      rw [decide_eq_false habsent] at hreply
      obtain ⟨sent, l', w', zs, hdeliver, hserve, hl', hw', hlen, hfail⟩ :=
        ih hother hstored hw (by omega)
      refine ⟨p :: sent, l', w', zs, ?_, hserve, hl', hw', ?_, ?_⟩
      · rw [deliver, hloop]
        change (deliver cj fuel unregisterPkt ds l₁ >>= _) = _
        rw [hdeliver]
        rfl
      · rw [List.length_cons, hlen, copies]
      · exact List.forall_mem_cons.2 ⟨hreply, hfail⟩
    | other pkt =>
      rw [others, List.forall_mem_cons] at hother
      obtain ⟨c, htouch, hserve⟩ := serve_other fuel doc hother.1
      obtain ⟨l₁, hl₁, hstored⟩ := hserve l _ hl (by omega)
      obtain ⟨w₁, hw₁, hstoredw⟩ := hserve w ys hw (by omega)
      rw [← delete_applyBack nameKey htouch] at hstored
      have hlen := applyBack_length nameKey ys c
      obtain ⟨sent, l', w', zs, hdeliver, hall, hl', hw', hcopies, hfail⟩ :=
        ih hother.2 hstored hstoredw (by omega)
      refine ⟨sent, l', w', zs, ?_, ?_, hl', hw', hcopies, hfail⟩
      · rw [deliver, hl₁]
        exact hdeliver
      · rw [others, serveAll, List.foldlM_cons, hw₁]
        exact hall

end Runs

/-- However often an unregistration is delivered, and whatever requests about other pairs
come between: the pair is gone and the rest of the list is as without the copies, only the
first copy succeeds, if the pair was there, and the server reports just that. -/
theorem unregister_tolerant (cj : CJson) (doc : cj.Documented) {fuel : ℕ}
    {front before : List (List UInt8)} {rest : List Delivery} {unregisterPkt : List UInt8}
    {i : NamedInfo} {l : ServiceInfoList}
    (enough : front.length + before.length + rest.length + 1 ≤ fuel)
    (reached : serves cj fuel front = .ok l) (named : AllNamed l)
    (request : Requests cj unregisterPkt .unregisterService i.info)
    (other : ∀ pkt ∈ before ++ others rest, AboutOther cj (pairOf i) pkt) :
    Tolerates cj fuel unregisterPkt (pairOf i) l before rest := by
  rw [List.forall_mem_append] at other
  obtain ⟨cells, hkeyed, hcells⟩ := serves_keyed doc reached
  obtain ⟨xs, hl, hlen⟩ := hkeyed.stored named
  obtain ⟨arrival, ys, hbefore, harrival, hys⟩ := serveAll_others fuel doc other.1 hl
    (by omega)
  obtain ⟨first, l₁, hloop, hstored, hfirst⟩ :=
    serverLoop_unregister fuel doc request harrival (by omega)
  obtain ⟨later, after, without, zs, hdeliver, hserve, hafter, hwithout, hcopies, hlater⟩ :=
    deliver_absent fuel doc request other.2 hstored harrival (by omega)
  have hfound : Registered arrival (pairOf i) ↔
      decide (Present nameKey (ptrKey (pairOf i)) ys) = true := by
    rw [decide_eq_true_iff, registered_iff harrival]
  refine ⟨arrival, first, later, after, without, hbefore, ?_, ?_, ⟨?_, ?_⟩, hcopies,
    ⟨?_, ?_, ?_⟩, ?_⟩
  · rw [deliver, hloop]
    change (deliver cj fuel unregisterPkt rest l₁ >>= _) = _
    rw [hdeliver]
    rfl
  · rw [serveAll_append, hbefore]
    exact hserve
  · rw [registered_iff hafter]
    exact not_present_delete nameKey _ zs
  · exact ⟨zs, hwithout.readsAs, hafter.readsAs⟩
  · by_cases hp : Present nameKey (ptrKey (pairOf i)) ys
    · rw [decide_eq_true hp] at hfirst
      exact .inl hfirst.action
    · rw [decide_eq_false hp] at hfirst
      exact .inr hfirst.action
  · rw [hfirst.succ_iff, hfound]
  · exact fun p hp => (hlater p hp).action
  · have htold := told_of_replies hfirst hlater
    rwa [← hfound] at htold

section Examples
open CJsonText

def boxNamed : NamedInfo := ⟨boxInfo, box.str, box.str, rfl, rfl⟩

def boxList : ServiceInfoList :=
  ⟨PointerChain.write initList.heap 0 ⟨some boxInfo, none⟩, 1, some 0, some 0⟩

theorem serves_box : serves textCJson 3 [boxPkt .registerService] = .ok boxList := by
  have hadd : listAdd 3 initList boxInfo = .ok boxList := rfl
  rw [serves, List.foldlM_cons, serve_register textCJson_documented (requests_box _), hadd]
  rfl

/-- A registered service is unregistered twice. -/
theorem unregister_tolerant_box : Tolerates textCJson 3 (boxPkt .unregisterService) (box.str, box.str)
    boxList [] [.copy] := by
  refine @unregister_tolerant textCJson textCJson_documented 3 [boxPkt .registerService] [] [.copy]
    (boxPkt .unregisterService) boxNamed boxList (by decide) serves_box ?_ (requests_box _)
    fun _ hm => absurd hm List.not_mem_nil
  rintro info ⟨cells, hch, p, hm⟩
  have hchain : PointerChain.Chain boxList.heap boxList.head [(0, some boxInfo)] :=
    ⟨rfl, none, rfl, rfl⟩
  rw [hch.unique hchain, List.mem_singleton] at hm
  cases hm
  exact ⟨⟨_, rfl⟩, ⟨_, rfl⟩⟩

end Examples

end MiniServiceDiscover.CUnregister
