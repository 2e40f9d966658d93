import MiniServiceDiscover.Fallible
import MiniServiceDiscover.JavaDatagrams
import MiniServiceDiscover.JavaInquiry

set_option autoImplicit false

/-! The Java registry as a function of what the buffer of the daemon has held, and which of
its infos an inquiry is told. Any string of an info may be missing, as long as the thread
runs. -/
namespace MiniServiceDiscover.JavaHistory
open JavaProtocal JavaProvider JavaDaemon JavaRequest JavaDatagrams JavaReceive WireFormat
open Fallible KeyedList

def infoKey (i : ServiceInfo) : StringRef × StringRef := (i.dev, i.name)

def called (serviceName : StringRef) (i : ServiceInfo) : Bool := decide (i.name = serviceName)

/-- What the buffer holds each time the loop has received. -/
def buffers (b : JavaBytes) : List JavaBytes → List JavaBytes
  | [] => []
  | d :: datagrams => receive d b :: buffers (receive d b) datagrams

section Requests
variable (oj : OrgJson)

/-- The buffer is accepted with this action, and is decoded to this info. -/
structure Requests (b : JavaBytes) (action : Action) (info : ServiceInfo) : Prop where
  accepted : Accepted action b
  info : getServiceInfo oj b = .ok info

def Registers (b : JavaBytes) (v : ServiceInfo) : Prop := Requests oj b .registerService v

def Unregisters (b : JavaBytes) (v : ServiceInfo) : Prop := Requests oj b .unregisterService v

noncomputable abbrev change (b : JavaBytes) : Change ServiceInfo (StringRef × StringRef) :=
  changeOf infoKey (Registers oj) (Unregisters oj) b

/-- The one packet that is sent is a result with this reason. -/
def Answers (isSucc : Bool) (reason : JavaString) (sent : List JavaBytes) : Prop :=
  ∃ p, getResultPkt oj isSucc reason = .ok p ∧ sent = [p]

/-- Buffer `i` has registered the info, and no later one carries its names. -/
def Registered (bs : List JavaBytes) (i : ℕ) (v : ServiceInfo) : Prop :=
  InForce infoKey (Registers oj) (Unregisters oj) bs i v

/-- As many entries from the front as there are entries of the name, less the others. -/
def told (serviceName : StringRef) (xs : List ServiceInfo) : List ServiceInfo :=
  (xs.take (xs.filter (called serviceName)).length).filter (called serviceName)

/-- What a registry answers to the next buffer. -/
structure Handles (xs : List ServiceInfo) (b : JavaBytes) (sent : List JavaBytes) : Prop where
  register : ∀ info, Requests oj b .registerService info → Answers oj true [] sent
  unregister : ∀ info, Requests oj b .unregisterService info →
    (Present infoKey (infoKey info) xs → Answers oj true [] sent) ∧
      (¬ Present infoKey (infoKey info) xs → Answers oj false serviceNoFound sent)
  inquiry : ∀ info, Requests oj b .inquiry info →
    (xs.filter (called info.name) = [] → Answers oj false serviceNoFound sent) ∧
      (xs.filter (called info.name) ≠ [] →
        List.Forall₂ (fun x p => getServicePkt oj x = .ok p) (told info.name xs) sent)
  rejected : (∀ info, ¬ Requests oj b .registerService info) →
    (∀ info, ¬ Requests oj b .unregisterService info) →
    (∀ info, ¬ Requests oj b .inquiry info) → sent = []

variable {oj}

theorem infoType_injective {a b : Action} (h : infoType a = infoType b) : a = b := by
  cases a <;> cases b <;> first | rfl | exact absurd h (by decide)

theorem requests_unique {b : JavaBytes} {a a' : Action} {i j : ServiceInfo}
    (h : Requests oj b a i) (h' : Requests oj b a' j) : a = a' ∧ i = j :=
  ⟨infoType_injective (Except.ok.inj (h.accepted.symm.trans h'.accepted)),
    Except.ok.inj (h.info.symm.trans h'.info)⟩

variable (oj) in
theorem exclusive : Exclusive (Registers oj) (Unregisters oj) where
  puts_unique _ _ _ h h' := (requests_unique h h').2
  drops_unique _ _ _ h h' := (requests_unique h h').2
  apart _ _ _ h h' := (nomatch (requests_unique h h').1)

end Requests

section Comparisons

/-- A comparison that returns was made on a string. -/
theorem equals_ok {a b : StringRef} {r : Bool} (h : equals a b = .ok r) : a = b ↔ r = true := by
  cases a with
  | none => cases h
  | some a =>
    obtain rfl := Except.ok.inj h
    rw [decide_eq_true_iff, eq_comm]

theorem sameService_key {i : ServiceInfo} {devName serviceName : StringRef} {b : Bool}
    (h : sameService i devName serviceName = .ok b) :
    infoKey i = (devName, serviceName) ↔ b = true := by
  obtain ⟨same, hdev, h⟩ := bind_eq_ok.1 h
  rw [infoKey, Prod.mk.injEq, equals_ok hdev]
  cases same with
  | true => exact (and_iff_right rfl).trans (equals_ok h)
  | false =>
    obtain rfl := Except.ok.inj h
    exact iff_of_false (fun hn => Bool.false_ne_true hn.1) Bool.false_ne_true

end Comparisons

section Registry
variable {xs : List ServiceInfo} {devName serviceName : StringRef}

/-- `remove` deletes the names it was given, and reports whether they were there. -/
theorem remove_deletes {r : Bool × ServiceInfoList} (h : KeyedList.Unique infoKey xs)
    (hr : remove devName serviceName xs = .ok r) :
    r.2 = delete infoKey (devName, serviceName) xs ∧
      (r.1 = true ↔ Present infoKey (devName, serviceName) xs) := by
  induction xs generalizing r with
  | nil =>
    obtain rfl := Except.ok.inj hr
    exact ⟨rfl, iff_of_false Bool.false_ne_true fun ⟨_, hm, _⟩ => List.not_mem_nil hm⟩
  | cons i rest ih =>
    obtain ⟨habsent, hrest⟩ := (unique_cons infoKey).1 h
    obtain ⟨same, hsame, hr⟩ := bind_eq_ok.1 hr
    rw [delete_cons, present_cons]
    cases same with
    | true =>
      obtain rfl := Except.ok.inj hr
      have hk := (sameService_key hsame).2 rfl
      rw [if_pos hk, delete_eq_self infoKey (hk ▸ habsent)]
      exact ⟨rfl, iff_of_true rfl (.inl hk)⟩
    | false =>
      obtain ⟨removed, hremoved, hr⟩ := bind_eq_ok.1 hr
      obtain rfl := Except.ok.inj hr
      have hk : ¬ infoKey i = (devName, serviceName) :=
        fun hk => Bool.false_ne_true ((sameService_key hsame).1 hk)
      obtain ⟨hlist, hfound⟩ := ih hrest hremoved
      rw [if_neg hk, hlist]
      exact ⟨rfl, hfound.trans (or_iff_right hk).symm⟩

theorem add_puts {info : ServiceInfo} {list : ServiceInfoList} (h : KeyedList.Unique infoKey xs)
    (hr : add info xs = .ok list) : list = putBack infoKey info xs := by
  obtain ⟨removed, hremoved, hr⟩ := bind_eq_ok.1 hr
  obtain rfl := Except.ok.inj hr
  rw [(remove_deletes h hremoved).1]
  rfl

theorem countFrom_returns {i n : ℕ} (hr : countFrom serviceName i xs = .ok n) :
    n = i + (xs.filter (called serviceName)).length := by
  induction xs generalizing i with
  | nil => exact (Except.ok.inj hr).symm
  | cons x rest ih =>
    obtain ⟨same, hsame, hr⟩ := bind_eq_ok.1 hr
    rw [ih hr]
    cases same with
    | true =>
      have hp : called serviceName x = true := decide_eq_true ((equals_ok hsame).2 rfl)
      rw [List.filter_cons_of_pos hp, List.length_cons, if_pos rfl]
      omega
    | false =>
      have hp : ¬ called serviceName x = true :=
        fun hp => Bool.false_ne_true ((equals_ok hsame).1 (of_decide_eq_true hp))
      rw [List.filter_cons_of_neg hp, if_neg Bool.false_ne_true]

theorem getFrom_returns {index i : ℕ} {o : Option ServiceInfo}
    (hr : getFrom serviceName index i xs = .ok o) : (index < i → o = none) ∧
      (i ≤ index → o = xs[index - i]?.filter (called serviceName)) := by
  induction xs generalizing i with
  | nil =>
    obtain rfl := Except.ok.inj hr
    exact ⟨fun _ => rfl, fun _ => rfl⟩
  | cons x rest ih =>
    obtain ⟨same, hsame, hr⟩ := bind_eq_ok.1 hr
    by_cases he : i = index
    · subst he
      refine ⟨fun hlt => absurd hlt (Nat.lt_irrefl _), fun _ => ?_⟩
      rw [Nat.sub_self, List.getElem?_cons_zero]
      cases same with
      | true =>
        rw [beq_self_eq_true, Bool.and_true, if_pos rfl] at hr
        obtain rfl := Except.ok.inj hr
        have hp : called serviceName x = true := decide_eq_true ((equals_ok hsame).2 rfl)
        rw [Option.filter_some_pos hp]
      | false =>
        rw [Bool.false_and, if_neg Bool.false_ne_true] at hr
        rw [Option.filter_some_neg (by simp [called, equals_ok hsame])]
        exact (ih hr).1 (Nat.lt_succ_self i)
    · rw [beq_eq_false_iff_ne.2 he, Bool.and_false, if_neg Bool.false_ne_true] at hr
      obtain ⟨hpast, hahead⟩ := ih hr
      refine ⟨fun hlt => hpast (by omega), fun hle => ?_⟩
      rw [hahead (by omega), show index - i = (index - (i + 1)) + 1 by omega,
        List.getElem?_cons_succ]

theorem getCount_returns {n : ℕ} (hr : getCount serviceName xs = .ok n) :
    n = (xs.filter (called serviceName)).length :=
  (countFrom_returns hr).trans (Nat.zero_add _)

theorem get_returns {index : ℕ} {o : Option ServiceInfo}
    (hr : JavaProvider.get serviceName index xs = .ok o) :
    o = xs[index]?.filter (called serviceName) :=
  (getFrom_returns hr).2 (Nat.zero_le index)

end Registry

section Loop
variable {oj : OrgJson} {xs : List ServiceInfo} {b : JavaBytes}

theorem one_returns {x : Except Thrown JavaBytes} (h : (Sending.one x).thrown = none) :
    ∃ p, x = .ok p ∧ (Sending.one x).sent = [p] := by
  cases x with
  | error e => cases h
  | ok p => exact ⟨p, rfl, rfl⟩

/-- The indices that are left are those of the entries to look at. -/
theorem sendFrom_returns {serviceName : StringRef} {left i : ℕ}
    (h : (sendFrom oj xs serviceName left i).thrown = none) :
    List.Forall₂ (fun x p => getServicePkt oj x = .ok p)
      (((xs.drop i).take left).filter (called serviceName))
      (sendFrom oj xs serviceName left i).sent := by
  induction left generalizing i with
  | zero =>
    rw [List.take_zero]
    exact .nil
  | succ left ih =>
    rw [sendFrom] at h ⊢
    cases hg : JavaProvider.get serviceName i xs with
    | error e =>
      rw [hg] at h
      cases h
    | ok o =>
      rw [hg] at h
      have ho := get_returns hg
      rcases Nat.lt_or_ge i xs.length with hlt | hge
      · rw [List.getElem?_eq_getElem hlt] at ho
        rw [List.drop_eq_getElem_cons hlt, List.take_succ_cons]
        by_cases hp : called serviceName xs[i] = true
        · rw [Option.filter_some_pos hp] at ho
          subst ho
          rw [List.filter_cons_of_pos hp]
          cases hpkt : getServicePkt oj xs[i] with
          | error e =>
            simp only [hpkt] at h
            cases h
          | ok p =>
            simp only [hpkt] at h ⊢
            exact .cons hpkt (ih h)
        · rw [Option.filter_some_neg (by simpa using hp)] at ho
          subst ho
          rw [List.filter_cons_of_neg hp]
          exact ih h
      · rw [List.getElem?_eq_none hge] at ho
        subst ho
        rw [List.drop_of_length_le hge]
        have hrest := ih h
        rw [List.drop_of_length_le (hge.trans (Nat.le_succ i)), List.take_nil] at hrest
        rw [List.take_nil]
        exact hrest

theorem inquiry_returns {serviceName : StringRef}
    (h : (inquiry oj xs serviceName).thrown = none) :
    (xs.filter (called serviceName) = [] →
      Answers oj false serviceNoFound (inquiry oj xs serviceName).sent) ∧
    (xs.filter (called serviceName) ≠ [] →
      List.Forall₂ (fun x p => getServicePkt oj x = .ok p) (told serviceName xs)
        (inquiry oj xs serviceName).sent) := by
  unfold inquiry at h ⊢
  cases hc : getCount serviceName xs with
  | error e =>
    rw [hc] at h
    cases h
  | ok n =>
    obtain rfl := getCount_returns hc
    rw [hc] at h
    simp only at h ⊢
    by_cases hnil : xs.filter (called serviceName) = []
    · have hzero : ¬ (xs.filter (called serviceName)).length > 0 := by
        rw [hnil]
        exact Nat.lt_irrefl 0
      rw [if_neg hzero] at h ⊢
      obtain ⟨p, hp, hsent⟩ := one_returns h
      exact ⟨fun _ => ⟨p, hp, hsent⟩, fun hne => absurd hnil hne⟩
    · have hpos : (xs.filter (called serviceName)).length > 0 := List.length_pos_iff.2 hnil
      rw [if_pos hpos] at h ⊢
      exact ⟨fun h0 => absurd h0 hnil, fun _ => sendFrom_returns h⟩

theorem handle_requests {action : Action} {info : ServiceInfo} (h : Requests oj b action info)
    (hc : caseOf (infoType action) = some action) :
    handle oj xs b = ⟨some (infoType action), some info, (handleAction oj action xs info).1,
      (handleAction oj action xs info).2⟩ := by
  rw [handle, h.accepted]
  simp only [hc, h.info]

/-- A pass that goes on after a buffer that asks for nothing has done nothing. -/
theorem handle_ignored (hreg : ∀ info, ¬ Requests oj b .registerService info)
    (hunreg : ∀ info, ¬ Requests oj b .unregisterService info)
    (hinq : ∀ info, ¬ Requests oj b .inquiry info)
    (h : (handle oj xs b).sending.thrown = none) :
    (handle oj xs b).provider = xs ∧ (handle oj xs b).sending.sent = [] := by
  unfold handle at h ⊢
  split at h
  · cases h
  · rename_i code ha
    split at h
    · exact ⟨rfl, rfl⟩
    · rename_i action hc
      split at h
      · cases h
      · rename_i info hi
        have hreq : Requests oj b action info := ⟨ha.trans (congrArg Except.ok (caseOf_eq hc)), hi⟩
        obtain rfl := caseOf_eq hc
        cases action with
        | registerService => exact absurd hreq (hreg info)
        | unregisterService => exact absurd hreq (hunreg info)
        | inquiry => exact absurd hreq (hinq info)
        | actionSucc => cases hc
        | actionFail => cases hc

/-- One pass of the loop that goes on, by what the buffer asks for. -/
theorem handle_returns (unique : KeyedList.Unique infoKey xs)
    (h : (handle oj xs b).sending.thrown = none) :
    (handle oj xs b).provider = applyBack infoKey xs (change oj b) ∧
      Handles oj xs b (handle oj xs b).sending.sent := by
  by_cases hreg : ∃ info, Requests oj b .registerService info
  · obtain ⟨info, hreq⟩ := hreg
    rw [handle_requests hreq rfl, handleAction] at h ⊢
    rw [change, changeOf_put infoKey (exclusive oj) hreq]
    cases hadd : JavaProvider.add info xs with
    | error e =>
      rw [hadd] at h
      cases h
    | ok list =>
      rw [hadd] at h
      obtain ⟨p, hp, hsent⟩ := one_returns h
      refine ⟨add_puts unique hadd, fun _ _ => ⟨p, hp, hsent⟩,
        fun _ h' => (nomatch (requests_unique hreq h').1),
        fun _ h' => (nomatch (requests_unique hreq h').1),
        fun hr _ _ => absurd hreq (hr info)⟩
  by_cases hunreg : ∃ info, Requests oj b .unregisterService info
  · obtain ⟨info, hreq⟩ := hunreg
    rw [handle_requests hreq rfl, handleAction] at h ⊢
    rw [change, changeOf_drop infoKey (exclusive oj) hreq]
    cases hremove : JavaProvider.remove info.dev info.name xs with
    | error e =>
      rw [hremove] at h
      cases h
    | ok r =>
      obtain ⟨ret, list⟩ := r
      obtain ⟨hlist, hret⟩ := remove_deletes unique hremove
      rw [hremove] at h
      obtain ⟨p, hp, hsent⟩ := one_returns h
      have hanswers : (Present infoKey (infoKey info) xs → Answers oj true [] [p]) ∧
          (¬ Present infoKey (infoKey info) xs → Answers oj false serviceNoFound [p]) := by
        refine ⟨fun hpresent => ?_, fun habsent => ?_⟩
        · rw [if_pos (hret.2 hpresent)] at hp
          exact ⟨p, hp, rfl⟩
        · rw [if_neg fun ht => habsent (hret.1 ht)] at hp
          exact ⟨p, hp, rfl⟩
      rw [← hsent] at hanswers
      exact ⟨hlist, fun _ h' => (nomatch (requests_unique hreq h').1),
        fun _ h' => (requests_unique hreq h').2 ▸ hanswers,
        fun _ h' => (nomatch (requests_unique hreq h').1),
        fun _ hr _ => absurd hreq (hr info)⟩
  have hkeep : change oj b = .keep :=
    changeOf_keep infoKey (not_exists.1 hreg) (not_exists.1 hunreg)
  rw [hkeep]
  by_cases hinq : ∃ info, Requests oj b .inquiry info
  · obtain ⟨info, hreq⟩ := hinq
    rw [handle_requests hreq rfl] at h ⊢
    exact ⟨rfl, fun info hreq => absurd ⟨info, hreq⟩ hreg, fun info hreq => absurd ⟨info, hreq⟩ hunreg,
      fun _ h' => (requests_unique hreq h').2 ▸ inquiry_returns h,
      fun _ _ hi => absurd hreq (hi info)⟩
  · obtain ⟨hprovider, hsent⟩ := handle_ignored (not_exists.1 hreg) (not_exists.1 hunreg)
      (not_exists.1 hinq) h
    exact ⟨hprovider, fun info hreq => absurd ⟨info, hreq⟩ hreg,
      fun info hreq => absurd ⟨info, hreq⟩ hunreg, fun info hreq => absurd ⟨info, hreq⟩ hinq,
      fun _ _ _ => hsent⟩

end Loop

section Runs
variable {oj : OrgJson}

theorem buffers_concat (b : JavaBytes) (front : List JavaBytes) (d : JavaBytes) :
    buffers b (front ++ [d]) =
      buffers b front ++ [receive d (front.foldl (fun b d => receive d b) b)] := by
  induction front generalizing b with
  | nil => rfl
  | cons c front ih => exact congrArg (receive c b :: ·) (ih (receive c b))

/-- A thread that still runs has handled every datagram. -/
theorem run_history {datagrams : List JavaBytes} (running : (run oj datagrams).running = true) :
    (run oj datagrams).buffer = datagrams.foldl (fun b d => receive d b) init.buffer ∧
      (run oj datagrams).provider =
        replayBack infoKey ((buffers init.buffer datagrams).map (change oj)) := by
  induction datagrams using List.reverseRecOn with
  | nil => exact ⟨rfl, rfl⟩
  | append_singleton front d ih =>
    rw [run_concat] at running ⊢
    by_cases hr : (run oj front).running = true
    · obtain ⟨hbuffer, hprovider⟩ := ih hr
      rw [step_running oj hr] at running ⊢
      have hunique : KeyedList.Unique infoKey (run oj front).provider :=
        hprovider ▸ replayBack_unique infoKey _
      have hdone := (handle_returns hunique (Option.isNone_iff_eq_none.1 running)).1
      rw [List.foldl_append, buffers_concat, List.map_append, List.map_singleton,
        replayBack_append, ← hbuffer, ← hprovider]
      exact ⟨rfl, hdone⟩
    · rw [step, if_neg hr] at running
      exact absurd running hr

end Runs

/-- As long as its thread runs, the registry of the Java daemon is the history of what its
buffer has held: what was registered and not taken back, oldest first; and it answers
every buffer from it, unless it throws. -/
theorem run_chronicle (oj : OrgJson) {datagrams : List JavaBytes}
    (running : (run oj datagrams).running = true) :
    Chronicle infoKey (Registers oj) (Unregisters oj) (buffers init.buffer datagrams)
        (run oj datagrams).provider ∧
      ∀ b, (handle oj (run oj datagrams).provider b).sending.thrown = none →
        Handles oj (run oj datagrams).provider b
          (handle oj (run oj datagrams).provider b).sending.sent := by
  rw [(run_history running).2]
  exact ⟨replayBack_chronicle infoKey (exclusive oj) _,
    fun b h => (handle_returns (replayBack_unique infoKey _) h).2⟩

/-- An inquiry is told of a service in force with its name exactly when fewer services in
force are older than it than there are services in force with the name. So where all of
them are too new it is told nothing at all. -/
theorem run_tells_iff (oj : OrgJson) {datagrams : List JavaBytes} {b : JavaBytes}
    {info : ServiceInfo} (running : (run oj datagrams).running = true)
    (asks : Requests oj b .inquiry info)
    (answered : (handle oj (run oj datagrams).provider b).sending.thrown = none) :
    ∃ infos : List ServiceInfo,
      (∀ v, v ∈ infos ↔ v.name = info.name ∧
        ∃ i, Registered oj (buffers init.buffer datagrams) i v ∧
          {j | j < i ∧ ∃ w, Registered oj (buffers init.buffer datagrams) j w}.ncard <
          {j | ∃ w, Registered oj (buffers init.buffer datagrams) j w ∧
            w.name = info.name}.ncard) ∧
      ((∀ i v, Registered oj (buffers init.buffer datagrams) i v → v.name ≠ info.name) →
        Answers oj false serviceNoFound (handle oj (run oj datagrams).provider b).sending.sent) ∧
      ((∃ i v, Registered oj (buffers init.buffer datagrams) i v ∧ v.name = info.name) →
        List.Forall₂ (fun x p => getServicePkt oj x = .ok p) infos
          (handle oj (run oj datagrams).provider b).sending.sent) := by
  obtain ⟨hchronicle, hhandles⟩ := run_chronicle oj running
  obtain ⟨hnone, hsome⟩ := (hhandles b answered).inquiry info asks
  have hindexed := hchronicle.indexed infoKey (exclusive oj)
  have hcount := hindexed.ncard_matching (called info.name)
  simp only [called, decide_eq_true_eq] at hcount
  refine ⟨told info.name (run oj datagrams).provider, fun v => ?_, fun hno => hnone ?_,
    fun hex => hsome ?_⟩
  · rw [told, List.mem_filter, hindexed.mem_take_iff, called, decide_eq_true_eq, and_comm]
    simp only [Registered, hcount]
  · refine List.filter_eq_nil_iff.2 fun v hv hc => ?_
    obtain ⟨i, hi⟩ := (hchronicle.mem_iff v).1 hv
    exact hno i v hi (of_decide_eq_true hc)
  · obtain ⟨i, v, hi, hn⟩ := hex
    exact List.ne_nil_of_mem (List.mem_filter.2 ⟨(hchronicle.mem_iff v).2 ⟨i, hi⟩, decide_eq_true hn⟩)

section Registrations
variable {oj : OrgJson} {s : State} {is : List NamedInfo} {d : JavaBytes}

/-- The thread runs, and holds no others than these infos. -/
structure Holds (s : State) (is : List NamedInfo) : Prop where
  running : s.running = true
  buffer : s.buffer.length = protocalLen
  provider : ∃ registry, KeyedList.Unique pairOf registry ∧ s.provider = infos registry ∧
    ∀ i ∈ registry, i ∈ is

/-- A whole packet that registers one of the infos. -/
def RegistersOne (oj : OrgJson) (is : List NamedInfo) (d : JavaBytes) : Prop :=
  ∃ i ∈ is, d.length = protocalLen ∧ Requests oj d .registerService i.info

theorem init_holds : Holds init is :=
  ⟨rfl, List.length_replicate, [], KeyedList.unique_nil pairOf, rfl,
    fun _ hi => absurd hi List.not_mem_nil⟩

theorem step_holds (results : JavaInquiry.ResultsFit oj) (h : Holds s is)
    (hd : RegistersOne oj is d) : Holds (step oj s d) is := by
  obtain ⟨hrunning, hbuffer, registry, hunique, hprovider, hsub⟩ := h
  obtain ⟨i, hi, hl, hreq⟩ := hd
  have hreceive : receive d s.buffer = d := by
    rw [receive_long (hbuffer.trans hl.symm).le, hbuffer, ← hl, List.take_length]
  obtain ⟨p, hp⟩ := results.pkt true (List.mem_cons_self : [] ∈ [[], serviceNoFound])
  have hdone : handleAction oj .registerService (infos registry) i.info =
      (infos (putBack pairOf i registry), .one (getResultPkt oj true [])) := by
    rw [handleAction]
    simp only [add_eq_putBack hunique i]
  have hhandle : handle oj s.provider d = _ := handle_requests hreq rfl
  rw [hprovider, hdone, hp] at hhandle
  rw [step_running oj hrunning, hreceive, hprovider, hhandle]
  refine ⟨rfl, hl, putBack pairOf i registry, putBack_unique pairOf hunique i, rfl, fun j hj => ?_⟩
  rcases List.mem_append.1 hj with hj | hj
  · exact hsub j ((mem_delete pairOf).1 hj).1
  · exact List.mem_singleton.1 hj ▸ hi

theorem run_holds (results : JavaInquiry.ResultsFit oj) {datagrams : List JavaBytes}
    (h : ∀ d ∈ datagrams, RegistersOne oj is d) : Holds (run oj datagrams) is := by
  induction datagrams using List.reverseRecOn with
  | nil => exact init_holds
  | append_singleton front d ih =>
    rw [run_concat]
    exact step_holds results (ih fun x hx => h x (List.mem_append_left _ hx))
      (h d (List.mem_append_right _ (List.mem_singleton_self d)))

/-- A daemon that has heard only registrations answers an inquiry, if what it holds fits
its packets. -/
theorem inquiry_finishes (results : JavaInquiry.ResultsFit oj) {datagrams : List JavaBytes}
    {b : JavaBytes} {info : ServiceInfo} {serviceName : JavaString}
    (h : ∀ d ∈ datagrams, RegistersOne oj is d) (asks : Requests oj b .inquiry info)
    (hname : info.name = some serviceName) (fits : ∀ i ∈ is, JavaInquiry.Fits oj i) :
    (run oj datagrams).running = true ∧
      (handle oj (run oj datagrams).provider b).sending.thrown = none := by
  obtain ⟨hrunning, -, registry, -, hprovider, hsub⟩ := run_holds results h
  refine ⟨hrunning, ?_⟩
  rw [handle_requests asks rfl, hprovider]
  change (inquiry oj (infos registry) info.name).thrown = none
  rw [hname]
  exact JavaInquiry.inquiry_fits results fun i hi => fits i (hsub i hi)

end Registrations

section Examples
open JavaInquiry JavaJsonText

/-- Between two services of the name stands one of another. -/
def mixed : List NamedInfo :=
  [service box playMusicName, service box (javaString "show_photo"),
    service (javaString "box2") playMusicName]

theorem mixed_reads : ∀ i ∈ mixed, ReadsBack i.info := by decide +kernel

theorem registered_mixed : ∃ pkts b info,
    List.Forall₂ (fun i pkt => Requests textJson pkt .registerService i.info) mixed pkts ∧
    Requests textJson b .inquiry info ∧ info.name = some playMusicName ∧
    (run textJson pkts).running = true ∧
    (handle textJson (run textJson pkts).provider b).sending.thrown = none := by
  have hpkts : ∀ i ∈ mixed, ∃ pkt : JavaBytes, pkt.length = protocalLen ∧
      Requests textJson pkt .registerService i.info := by
    intro i hi
    obtain ⟨pkt, -, hl, ha, hd⟩ := (mixed_reads i hi).pkt .registerService
    exact ⟨pkt, hl, ha, hd.getServiceInfo⟩
  obtain ⟨pkts, hall⟩ := exists_forall₂_iff.2 hpkts
  obtain ⟨b, -, -, hb, hbd⟩ := (mixed_reads _ List.mem_cons_self).pkt .inquiry
  have hinq : Requests textJson b .inquiry _ := ⟨hb, hbd.getServiceInfo⟩
  obtain ⟨hrunning, hdone⟩ := inquiry_finishes
    (resultsFit_of_documented textJson_documented)
    (fun d hd => exists_of_forall₂ hall hd) hinq rfl fun i hi => (mixed_reads i hi).1
  exact ⟨pkts, b, _, hall.imp fun _ _ h => h.2, hinq, rfl, hrunning, hdone⟩

theorem run_chronicle_mixed : ∃ pkts,
    List.Forall₂ (fun i pkt => Registers textJson pkt i.info) mixed pkts ∧
    Chronicle infoKey (Registers textJson) (Unregisters textJson) (buffers init.buffer pkts)
      (run textJson pkts).provider := by
  obtain ⟨pkts, -, -, hall, -, -, hrunning, -⟩ := registered_mixed
  exact ⟨pkts, hall, (run_chronicle textJson hrunning).1⟩

theorem run_tells_iff_mixed : ∃ pkts b info infos,
    List.Forall₂ (fun i pkt => Registers textJson pkt i.info) mixed pkts ∧
    Requests textJson b .inquiry info ∧ info.name = some playMusicName ∧
    (∀ v, v ∈ infos ↔ v.name = info.name ∧
      ∃ i, Registered textJson (buffers init.buffer pkts) i v ∧
        {j | j < i ∧ ∃ w, Registered textJson (buffers init.buffer pkts) j w}.ncard <
        {j | ∃ w, Registered textJson (buffers init.buffer pkts) j w ∧
          w.name = info.name}.ncard) ∧
    ((∃ i v, Registered textJson (buffers init.buffer pkts) i v ∧ v.name = info.name) →
      List.Forall₂ (fun x p => getServicePkt textJson x = .ok p) infos
        (handle textJson (run textJson pkts).provider b).sending.sent) := by
  obtain ⟨pkts, b, info, hall, hinq, hname, hrunning, hdone⟩ := registered_mixed
  obtain ⟨infos, htold, -, hsome⟩ := run_tells_iff textJson hrunning hinq hdone
  exact ⟨pkts, b, info, infos, hall, hinq, hname, htold, hsome⟩

end Examples

end MiniServiceDiscover.JavaHistory
