import MiniServiceDiscover.GoRoundTrip
import MiniServiceDiscover.GoSweep

set_option autoImplicit false

/-! An inquiry of the Go client that several daemons answer: what it returns for each
order in which their replies arrive. -/
namespace MiniServiceDiscover.GoOrder
open JsonText GoJson GoProtocal GoDaemon GoReply GoSweep GoRoundTrip StepRuns WireFormat
open GoAnswers (serviceData_action serviceData_text)
open GoCaller (Call)

/-- A service or a failure that the client accepts. -/
structure ValidReply (data : Bytes) : Prop where
  length : data.length = udpCommBufLen
  fits : LengthFits data
  accepted : Accepted data
  kind : ((headOf data).action = Action.actionSucc.code ∧
      ∃ i, ServiceInfo.unmarshal (textOf data) = some i) ∨
    (headOf data).action = Action.actionFail.code

/-- The service that a valid reply reports. -/
def service (data : Bytes) : Option ServiceInfo :=
  if (headOf data).action = Action.actionSucc.code then ServiceInfo.unmarshal (textOf data) else none

def services (replies : List Bytes) : List ServiceInfo := replies.filterMap service

def readResult : Act → Option ReadResult
  | .read r => some r
  | _ => none

def reads (acts : List Act) : List ReadResult := acts.filterMap readResult

/-- The reads give the replies in this order, and time out behind the last. -/
def Arrive (order : List Bytes) (rs : List ReadResult) : Prop :=
  ∀ (j : ℕ) (r : ReadResult), rs[j]? = some r →
    (∀ d, order[j]? = some d → 0 < r.n ∧ r.data = d) ∧ (order[j]? = none → r.n = 0)

/-- A call of `GetInquiryResult` to which the replies arrive in this order, and which
returns these infos. -/
def Returns (order : List Bytes) (infos : List ServiceInfo) : Prop :=
  ∃ (e s : State) (serviceName : Bytes) (acts : List Act) (report : Report),
    e.caller = .clientData ∧
    Runs step (fun _ _ => True) e (.start (.inquiryService serviceName) :: acts) s ∧
    (∀ c, Act.start c ∉ acts) ∧ Arrive order (reads acts) ∧
    s.log = e.log ++ [report] ∧ report.outcome = .infos infos

section Passes

/-- What one pass of the loop appends; `none` where the loop is left. -/
def pass (r : ReadResult) : Option ServiceInfo :=
  if 0 < r.n then
    match inquiryReply r.data with
    | .ok i => i
    | .error _ => none
  else none

/-- The loop went through the reads before the last, and left at it. -/
def Left (rs : List ReadResult) (infos : List ServiceInfo) : Prop :=
  ∃ front r, rs = front ++ [r] ∧ (∀ x ∈ front, pass x ≠ none) ∧ pass r = none ∧
    infos = front.filterMap pass

/-- The call as far as it has come, by the statement it stands at. -/
def Progress (log : List Report) (rs : List ReadResult) (s : State) : Prop :=
  s.caller = .clientData ∧
  match s.pc with
  | .launched => s.log = log ∧ (∀ x ∈ rs, pass x ≠ none) ∧ s.infos = rs.filterMap pass
  | .reading => s.log = log ∧ (∀ x ∈ rs, pass x ≠ none) ∧ s.infos = rs.filterMap pass
  | .received => s.log = log ∧ ∃ front, rs = front ++ [s.last] ∧ (∀ x ∈ front, pass x ≠ none) ∧
      s.infos = front.filterMap pass
  | .waiting => s.log = log ∧ Left rs s.infos
  | .idle => ∃ report infos, s.log = log ++ [report] ∧ report.outcome = .infos infos ∧ Left rs infos
  | .panicked => s.log = log

variable {s u : State} {log : List Report} {rs : List ReadResult}

/-- What the call itself can see has not changed. -/
structure Unseen (s u : State) : Prop where
  caller : u.caller = s.caller
  pc : u.pc = s.pc
  log : u.log = s.log
  last : u.last = s.last
  infos : u.infos = s.infos

theorem Progress.unseen (h : Progress log rs s) (hu : Unseen s u) : Progress log rs u := by
  unfold Progress at h ⊢
  rwa [hu.caller, hu.pc, hu.log, hu.last, hu.infos]

theorem task_unseen {i : ℕ} (h : task s i = some u) : Unseen s u := by
  unfold task at h
  split at h
  · cases h
  · split at h
    · unfold sendQuit at h
      split at h
      · cases h
        exact ⟨rfl, rfl, rfl, rfl, rfl⟩
      · split at h
        · cases h
          exact ⟨rfl, rfl, rfl, rfl, rfl⟩
        · cases h
    · cases h
      exact ⟨rfl, rfl, rfl, rfl, rfl⟩

theorem quit_unseen (s : State) : Unseen s (quit s) := by
  unfold quit
  split
  · exact ⟨rfl, rfl, rfl, rfl, rfl⟩
  · exact ⟨rfl, rfl, rfl, rfl, rfl⟩

theorem conclude_progress (token : Option ℕ) (hc : s.caller = .clientData) (hl : s.log = log)
    (hleft : Left rs s.infos) : Progress log rs (conclude s token) := by
  have ho : outcome s = .ok (.infos s.infos) := by
    rw [outcome, hc]
  unfold conclude
  cases hcall : s.calls[s.call]? with
  | none => exact ⟨hc, hl⟩
  | some c =>
    rw [ho]
    exact ⟨hc, _, s.infos, by rw [hl], rfl, hleft⟩

theorem leave_progress (hc : s.caller = .clientData) (hl : s.log = log)
    (hleft : Left rs s.infos) : Progress log rs (leave s) := by
  unfold leave
  split
  · exact conclude_progress none hc hl hleft
  · exact ⟨hc, hl, hleft⟩

theorem examine_progress {front : List ReadResult} (hc : s.caller = .clientData) (hl : s.log = log)
    (hrs : rs = front ++ [s.last]) (hfront : ∀ x ∈ front, pass x ≠ none)
    (hinfos : s.infos = front.filterMap pass) : Progress log rs (examine s) := by
  have hleave : pass s.last = none → Progress log rs (leave s) := fun hp =>
    leave_progress hc hl ⟨front, s.last, hrs, hfront, hp, hinfos⟩
  unfold examine
  split
  case isTrue hn =>
    split
    · exact ⟨hc, hl⟩
    · rename_i hr
      exact hleave (by rw [pass, if_pos hn, hr])
    · rename_i i hr
      have hp : pass s.last = some i := by rw [pass, if_pos hn, hr]
      refine ⟨hc, hl, ?_, ?_⟩
      · rw [hrs, List.forall_mem_append]
        exact ⟨hfront, List.forall_mem_singleton.2 (by rw [hp]; exact Option.some_ne_none i)⟩
      · rw [hrs, List.filterMap_append, ← hinfos, List.filterMap_cons_some hp, List.filterMap_nil]
  case isFalse hn => exact hleave (by rw [pass, if_neg hn])

theorem read_progress {r : ReadResult} (h : Progress log rs s) (hu : clientRead s r = some u) :
    Progress log (rs ++ [r]) u := by
  obtain ⟨hc, h⟩ := h
  unfold clientRead at hu
  split at hu
  case isFalse => cases hu
  case isTrue hp =>
    rw [hp] at h
    obtain ⟨hl, hall, hinfos⟩ := h
    have hclient : ¬ (s.caller = .serverData ∧ s.broadcastValid = true) := by
      rw [hc]
      exact fun hs => GoCaller.Caller.noConfusion hs.1
    simp only [if_neg hclient, Option.some.injEq] at hu
    subst hu
    exact ⟨hc, hl, rs, rfl, hall, hinfos⟩

theorem setRecEnd_progress (h : Progress log rs s) (hu : setRecEnd s = some u) :
    Progress log rs u := by
  obtain ⟨hc, h⟩ := h
  unfold setRecEnd at hu
  split at hu
  case isFalse => cases hu
  case isTrue hp =>
    rw [hp] at h
    obtain ⟨hl, front, hrs, hfront, hinfos⟩ := h
    split at hu
    · rename_i hserver
      rw [hc] at hserver
      cases hserver
    · cases hu
      exact examine_progress (s := { s with recEnd := true }) hc hl hrs hfront hinfos

theorem join_progress (h : Progress log rs s) (hu : join s = some u) : Progress log rs u := by
  obtain ⟨hc, h⟩ := h
  unfold join at hu
  split at hu
  case isFalse => cases hu
  case isTrue hp =>
    rw [hp] at h
    obtain ⟨hl, hleft⟩ := h
    split at hu
    · rename_i token rest _
      cases hu
      exact conclude_progress (s := { s with broadcastQuit := rest }) (some token) hc hl hleft
    · split at hu
      · cases hu
        exact conclude_progress none hc hl hleft
      · cases hu

theorem clearRecEnd_progress (h : Progress log rs s) (hu : clearRecEnd s = some u) :
    Progress log rs u := by
  obtain ⟨hc, h⟩ := h
  unfold clearRecEnd at hu
  split at hu
  case isFalse => cases hu
  case isTrue hp =>
    rw [hp] at h
    cases hu
    exact ⟨hc, h⟩

theorem step_progress {a : Act} (h : Progress log rs s) (ha : ∀ c, a ≠ .start c)
    (hu : step s a = some u) : Progress log (rs ++ (readResult a).toList) u := by
  have keep : ∀ v, Progress log rs v → Progress log (rs ++ (none : Option ReadResult).toList) v := by
    intro v hv
    rwa [Option.toList_none, List.append_nil]
  unfold step at hu
  split at hu
  · cases hu
  cases a with
  | start c => exact absurd rfl (ha c)
  | read r => exact read_progress h hu
  | clearRecEnd => exact keep u (clearRecEnd_progress h hu)
  | setRecEnd => exact keep u (setRecEnd_progress h hu)
  | join => exact keep u (join_progress h hu)
  | task i => exact keep u (h.unseen (task_unseen hu))
  | quit => exact keep u (h.unseen (Option.some.inj hu ▸ quit_unseen s))

theorem reads_concat (acts : List Act) (a : Act) :
    reads (acts ++ [a]) = reads acts ++ (readResult a).toList := by
  rw [reads, List.filterMap_append, reads]
  cases h : readResult a with
  | none => rw [List.filterMap_cons_none h, Option.toList_none, List.filterMap_nil]
  | some r => rw [List.filterMap_cons_some h, Option.toList_some, List.filterMap_nil]

theorem start_progress {c : Call} (hc : s.caller = .clientData) (hu : start s c = some u) :
    Progress s.log [] u := by
  have hnone : ∀ x ∈ ([] : List ReadResult), pass x ≠ none := fun _ hm => absurd hm List.not_mem_nil
  obtain ⟨-, rfl | ⟨-, pc, hpc, rfl⟩ | ⟨-, data, -, rfl⟩⟩ := start_cases hu
  · exact ⟨hc, rfl⟩
  · rcases hpc with rfl | rfl
    · exact ⟨hc, rfl, hnone, rfl⟩
    · exact ⟨hc, rfl, hnone, rfl⟩
  · exact ⟨hc, rfl, hnone, rfl⟩

theorem run_progress {c : Call} {acts : List Act} (hc : s.caller = .clientData)
    (run : Runs step (fun _ _ => True) s (.start c :: acts) u) (halone : ∀ c, Act.start c ∉ acts) :
    Progress s.log (reads acts) u := by
  obtain ⟨v, hstep, tail⟩ : ∃ v, step s (.start c) = some v ∧
      Runs step (fun _ _ => True) v acts u := by
    cases run with
    | next _ h tail => exact ⟨_, h, tail⟩
  have hstart : start s c = some v := by
    unfold step at hstep
    split at hstep
    · cases hstep
    · exact hstep
  refine tail.history (fun front u => (∀ c, Act.start c ∉ front) → Progress s.log (reads front) u)
    (fun _ => start_progress hc hstart) ?_ halone
  intro front v a w hv _ hstep hfront
  rw [reads_concat]
  refine step_progress (hv fun c hm => hfront c (List.mem_append_left _ hm)) ?_ hstep
  rintro c rfl
  exact hfront c (List.mem_append_right _ (List.mem_singleton_self _))

/-- A call that has returned left its loop, and returned what the passes before gave. -/
theorem left_of_returned {c : Call} {acts : List Act} {report : Report}
    {infos : List ServiceInfo} (hc : s.caller = .clientData)
    (run : Runs step (fun _ _ => True) s (.start c :: acts) u) (halone : ∀ c, Act.start c ∉ acts)
    (hlog : u.log = s.log ++ [report]) (ho : report.outcome = .infos infos) :
    Left (reads acts) infos := by
  have hne : u.log ≠ s.log := by
    rw [hlog]
    intro he
    have := congrArg List.length he
    rw [List.length_append, List.length_singleton] at this
    omega
  obtain ⟨-, h⟩ := run_progress hc run halone
  cases hp : u.pc with
  | idle =>
    rw [hp] at h
    obtain ⟨report', infos', hl', ho', hleft⟩ := h
    have hr := List.append_cancel_left (hlog.symm.trans hl')
    obtain rfl := (List.cons.inj hr).1
    obtain rfl : infos = infos' := by
      rw [ho] at ho'
      injection ho'
    exact hleft
  | launched | reading | received | waiting =>
    rw [hp] at h
    exact absurd h.1 hne
  | panicked =>
    rw [hp] at h
    exact absurd h hne

end Passes

section Orders
variable {order : List Bytes} {rs : List ReadResult} {infos : List ServiceInfo}

/-- What a pass over valid replies appends before the first failure. -/
def uptoFailure (order : List Bytes) : List ServiceInfo :=
  services (order.takeWhile fun d => (service d).isSome)

theorem ValidReply.service_succ {data : Bytes} (h : ValidReply data)
    (ha : (headOf data).action = Action.actionSucc.code) : ∃ i, service data = some i := by
  rcases h.kind with ⟨-, i, hi⟩ | hf
  · exact ⟨i, (if_pos ha).trans hi⟩
  · rw [ha] at hf
    exact absurd hf (by decide)

theorem service_fail {data : Bytes} (ha : (headOf data).action = Action.actionFail.code) :
    service data = none := by
  rw [service, ha, if_neg (by decide)]

theorem inquiryReply_valid {data : Bytes} (h : ValidReply data) :
    inquiryReply data = .ok (service data) := by
  rw [inquiryReply_fits h.length h.fits, service]
  rcases h.kind with ⟨hs, i, hi⟩ | hf
  · rw [if_pos ⟨h.accepted, hs⟩, if_pos hs, hi]
  · have hne : (headOf data).action ≠ Action.actionSucc.code := by
      rw [hf]
      decide
    rw [if_neg fun hs => hne hs.2, if_neg hne]

theorem pass_valid {r : ReadResult} (hn : 0 < r.n) (h : ValidReply r.data) :
    pass r = service r.data := by
  rw [pass, if_pos hn, inquiryReply_valid h]

/-- What a daemon sends about an entry whose text fits. -/
theorem serviceData_valid {i : ServiceInfo} (h : i.marshal.length ≤ payloadLen) :
    ValidReply (serviceData i) ∧ service (serviceData i) = some i.coerce := by
  have hlen : (serviceData i).length = udpCommBufLen := dataBuffer_length _ _
  have hs := serviceData_action i
  have htext := serviceData_text h
  exact ⟨⟨hlen, fun _ => dataBuffer_len_fits _ h, dataBuffer_accepted _ h, .inl ⟨hs, _, htext⟩⟩,
    (if_pos hs).trans htext⟩

/-- What a daemon without the service sends. -/
theorem noFoundData_valid : ValidReply noFoundData := by
  have h : (ResultInfo.marshal ⟨getValidStr serviceNoFound⟩).length ≤ payloadLen :=
    resultInfo_fits serviceNoFound
  refine ⟨dataBuffer_length _ _, fun _ => dataBuffer_len_fits _ h, dataBuffer_accepted _ h, .inr ?_⟩
  rw [noFoundData, GoProtocal.getResult, getResultData, headOf_dataBuffer]

theorem uptoFailure_some {d : Bytes} {i : ServiceInfo} (h : service d = some i) :
    uptoFailure (d :: order) = i :: uptoFailure order := by
  have hd : (service d).isSome = true := by
    rw [h]
    rfl
  rw [uptoFailure, services, List.takeWhile_cons, if_pos hd, List.filterMap_cons_some h]
  rfl

theorem uptoFailure_none {d : Bytes} (h : service d = none) : uptoFailure (d :: order) = [] := by
  have hd : ¬ (service d).isSome = true := by
    rw [h]
    exact Bool.false_ne_true
  rw [uptoFailure, services, List.takeWhile_cons, if_neg hd, List.filterMap_nil]

theorem arrive_cons {d : Bytes} {r : ReadResult} :
    Arrive (d :: order) (r :: rs) ↔ (0 < r.n ∧ r.data = d) ∧ Arrive order rs := by
  constructor
  · intro h
    exact ⟨(h 0 r rfl).1 d rfl, fun j r' hj => h (j + 1) r' hj⟩
  · rintro ⟨hr, h⟩ j r' hj
    cases j with
    | zero =>
      obtain rfl := Option.some.inj hj
      exact ⟨fun d' hd' => Option.some.inj hd' ▸ hr, fun hn => absurd hn (Option.some_ne_none d)⟩
    | succ j => exact h j r' hj

theorem arrive_nil {r : ReadResult} (h : r.n = 0) : Arrive [] [r] := by
  intro j r' hj
  obtain rfl := List.mem_singleton.1 (List.mem_of_getElem? hj)
  refine ⟨fun d hd => ?_, fun _ => h⟩
  rw [List.getElem?_nil] at hd
  cases hd

theorem arrive_none (order : List Bytes) : Arrive order [] := by
  intro j r hj
  cases hj

/-- A loop that has been left returns what came before the first failure. -/
theorem left_eq (valid : ∀ d ∈ order, ValidReply d) (ha : Arrive order rs) (h : Left rs infos) :
    infos = uptoFailure order := by
  obtain ⟨front, r, rfl, hfront, hr, rfl⟩ := h
  induction front generalizing order with
  | nil =>
    cases order with
    | nil => rfl
    | cons d order =>
      obtain ⟨⟨hn, rfl⟩, -⟩ := arrive_cons.1 ha
      rw [pass_valid hn (valid _ (List.mem_cons_self ..))] at hr
      exact (uptoFailure_none hr).symm
  | cons x front ih =>
    rw [List.forall_mem_cons] at hfront
    cases order with
    | nil =>
      have hx : x.n = 0 := (ha 0 x rfl).2 rfl
      exact absurd (if_neg (by rw [hx]; exact Nat.lt_irrefl 0)) hfront.1
    | cons d order =>
      obtain ⟨⟨hn, rfl⟩, htail⟩ := arrive_cons.1 ha
      rw [List.forall_mem_cons] at valid
      have hpass := pass_valid hn valid.1
      cases hs : service x.data with
      | none => exact absurd (hpass.trans hs) hfront.1
      | some i =>
        rw [List.filterMap_cons_some (hpass.trans hs), uptoFailure_some hs,
          ih valid.2 htail hfront.2]

/-- Without a failure the whole order is read. -/
theorem uptoFailure_all (h : ∀ d ∈ order, ∃ i, service d = some i) :
    uptoFailure order = services order := by
  rw [uptoFailure, List.takeWhile_eq_self_iff.2]
  intro d hd
  obtain ⟨i, hi⟩ := h d hd
  rw [hi]
  rfl

theorem uptoFailure_failures (h : ∀ d ∈ order, service d = none) : uptoFailure order = [] := by
  cases order with
  | nil => rfl
  | cons d order => exact uptoFailure_none (h d (List.mem_cons_self ..))

theorem returns_eq (valid : ∀ d ∈ order, ValidReply d) (h : Returns order infos) :
    infos = uptoFailure order := by
  obtain ⟨e, s, name, acts, report, hc, run, halone, ha, hlog, ho⟩ := h
  exact left_eq valid ha (left_of_returned hc run halone hlog ho)

end Orders

section Existence
variable {s : State} {name data : Bytes} {last r : ReadResult} {infos : List ServiceInfo}
  {recEnd : Bool}
  {firstReads : List ℕ}

/-- The first call of a client, whose goroutine has not begun. -/
def inquiring (name data : Bytes) (pc : Pc) (last : ReadResult) (infos : List ServiceInfo)
    (recEnd : Bool) (firstReads : List ℕ) : State :=
  { init .clientData false with
    pc := pc, last := last, infos := infos, recEnd := recEnd, tasks := [⟨0, data, .fresh⟩]
    calls := [.inquiryService name], firstReads := firstReads }

def returned (name : Bytes) (infos : List ServiceInfo) : Report :=
  ⟨0, .inquiryService name, .infos infos, some 0⟩

def finishActs : List Act := [.task 0, .task 0, .task 0, .join]

/-- Behind the loop the goroutine finds the flag set and sends its token. -/
theorem waiting_returns (name data : Bytes) (last : ReadResult) (infos : List ServiceInfo)
    (firstReads : List ℕ) : ∃ s, Runs step (fun _ _ => True)
    (inquiring name data .waiting last infos true firstReads) finishActs s ∧
      s.log = [returned name infos] :=
  ⟨_, .next trivial rfl (.next trivial rfl (.next trivial rfl (.next trivial rfl (.refl _)))), rfl⟩

theorem examine_some {i : ServiceInfo} (hn : 0 < s.last.n)
    (h : inquiryReply s.last.data = .ok (some i)) :
    examine s = { s with pc := .reading, infos := s.infos ++ [i] } := by
  unfold examine
  rw [if_pos hn, h]

theorem examine_none (h : s.last.n = 0 ∨ inquiryReply s.last.data = .ok none) :
    examine s = leave s := by
  unfold examine
  by_cases hn : 0 < s.last.n
  · rw [if_pos hn, h.resolve_left (Nat.ne_of_gt hn)]
  · rw [if_neg hn]

theorem reads_some {i : ServiceInfo} (hn : 0 < r.n) (h : inquiryReply r.data = .ok (some i)) :
    Runs step (fun _ _ => True) (inquiring name data .reading last infos recEnd firstReads)
      [.read r, .setRecEnd]
      (inquiring name data .reading r (infos ++ [i]) true (firstReads ++ [0])) := by
  have hs : examine (inquiring name data .received r infos true (firstReads ++ [0])) = _ :=
    examine_some hn h
  exact .next trivial rfl (.next trivial (congrArg some hs) (.refl _))

theorem reads_none (h : r.n = 0 ∨ inquiryReply r.data = .ok none) :
    Runs step (fun _ _ => True) (inquiring name data .reading last infos recEnd firstReads)
      [.read r, .setRecEnd]
      (inquiring name data .waiting r infos true (firstReads ++ [0])) := by
  have hs : examine (inquiring name data .received r infos true (firstReads ++ [0])) = _ :=
    examine_none h
  exact .next trivial rfl (.next trivial (congrArg some hs) (.refl _))

/-- From the head of the loop the call returns, however the replies arrive. -/
theorem loop_returns (name data : Bytes) {order : List Bytes} (valid : ∀ d ∈ order, ValidReply d)
    (last : ReadResult) (infos : List ServiceInfo) (recEnd : Bool) (firstReads : List ℕ) :
    ∃ acts s, Runs step (fun _ _ => True)
        (inquiring name data .reading last infos recEnd firstReads) acts s ∧
      (∀ c, Act.start c ∉ acts) ∧ Arrive order (reads acts) ∧
      s.log = [returned name (infos ++ uptoFailure order)] := by
  have hfinish : ∀ c, Act.start c ∉ finishActs := fun c hm => by
    simp only [finishActs, List.mem_cons, reduceCtorEq, List.not_mem_nil, or_false] at hm
  have hstart : ∀ (c : Call) (r : ReadResult) (acts : List Act), Act.start c ∉ acts →
      Act.start c ∉ .read r :: .setRecEnd :: acts := by
    intro c r acts h hm
    rcases List.mem_cons.1 hm with he | hm
    · cases he
    rcases List.mem_cons.1 hm with he | hm
    · cases he
    · exact h hm
  have hleave : ∀ (last r : ReadResult) (infos : List ServiceInfo) (recEnd : Bool)
      (firstReads : List ℕ), r.n = 0 ∨ inquiryReply r.data = .ok none →
      ∃ s, Runs step (fun _ _ => True) (inquiring name data .reading last infos recEnd firstReads)
        (.read r :: .setRecEnd :: finishActs) s ∧ s.log = [returned name infos] := by
    intro last r infos recEnd firstReads hr
    obtain ⟨s, hrun, hlog⟩ := waiting_returns name data r infos (firstReads ++ [0])
    exact ⟨s, (reads_none hr).trans hrun, hlog⟩
  induction order generalizing last infos recEnd firstReads with
  | nil =>
    obtain ⟨s, hrun, hlog⟩ := hleave last ⟨0, [], none⟩ infos recEnd firstReads (.inl rfl)
    exact ⟨_, s, hrun, fun c => hstart c _ _ (hfinish c), arrive_nil rfl,
      by rw [hlog, uptoFailure, List.takeWhile_nil, services, List.filterMap_nil, List.append_nil]⟩
  | cons d order ih =>
    rw [List.forall_mem_cons] at valid
    have hreply := inquiryReply_valid valid.1
    cases hs : service d with
    | none =>
      rw [hs] at hreply
      obtain ⟨s, hrun, hlog⟩ := hleave last ⟨1, d, none⟩ infos recEnd firstReads (.inr hreply)
      exact ⟨_, s, hrun, fun c => hstart c _ _ (hfinish c),
        arrive_cons.2 ⟨⟨Nat.one_pos, rfl⟩, arrive_none order⟩,
        by rw [hlog, uptoFailure_none hs, List.append_nil]⟩
    | some i =>
      rw [hs] at hreply
      have hone : Runs step (fun _ _ => True)
          (inquiring name data .reading last infos recEnd firstReads)
          [.read ⟨1, d, none⟩, .setRecEnd]
          (inquiring name data .reading ⟨1, d, none⟩ (infos ++ [i]) true (firstReads ++ [0])) :=
        reads_some Nat.one_pos hreply
      obtain ⟨acts, s, hrun, halone, harrive, hlog⟩ :=
        ih valid.2 ⟨1, d, none⟩ (infos ++ [i]) true (firstReads ++ [0])
      refine ⟨_, s, hone.trans hrun, fun c => hstart c _ _ (halone c),
        arrive_cons.2 ⟨⟨Nat.one_pos, rfl⟩, harrive⟩, ?_⟩
      rw [hlog, uptoFailure_some hs, List.append_assoc]
      rfl

theorem inquiry_returns {order : List Bytes} (valid : ∀ d ∈ order, ValidReply d) :
    Returns order (uptoFailure order) := by
  obtain ⟨acts, s, hrun, halone, harrive, hlog⟩ := loop_returns []
    (dataBuffer Action.inquiry.code (inquiryInfo []).marshal) valid ⟨0, [], none⟩ [] false []
  refine ⟨init .clientData false, s, [], .clearRecEnd :: acts, _, rfl,
    .next trivial rfl (.next trivial rfl hrun), ?_, harrive, hlog, rfl⟩
  intro c hm
  rcases List.mem_cons.1 hm with he | hm
  · cases he
  · exact halone c hm

end Existence

/-- An inquiry to which valid replies arrive always returns, and it returns the services
of all of them for every order of arrival exactly when they are all services or all
failures: the first failure ends the loop. -/
theorem inquiry_order_iff (replies : List Bytes) (valid : ∀ d ∈ replies, ValidReply d) :
    (∀ order : List Bytes, order.Perm replies → ∃ infos, Returns order infos) ∧
    ((∀ (order : List Bytes) (infos : List ServiceInfo), order.Perm replies → Returns order infos →
        infos.Perm (services replies)) ↔
      (∀ d ∈ replies, (headOf d).action = Action.actionSucc.code) ∨
        ∀ d ∈ replies, (headOf d).action = Action.actionFail.code) := by
  have hvalid : ∀ order : List Bytes, order.Perm replies → ∀ d ∈ order, ValidReply d :=
    fun order hperm d hd => valid d (hperm.subset hd)
  refine ⟨fun order hperm => ⟨_, inquiry_returns (hvalid order hperm)⟩, ⟨fun h => ?_, ?_⟩⟩
  · by_contra hno
    rw [not_or] at hno
    push Not at hno
    obtain ⟨⟨b, hb, hfail⟩, ⟨d, hd, hsucc⟩⟩ := hno
    have hbfail := (valid b hb).kind.resolve_left fun hs => hfail hs.1
    have hperm : (b :: replies.erase b).Perm replies := (List.perm_cons_erase hb).symm
    have hnone := h _ _ hperm (inquiry_returns (hvalid _ hperm))
    rw [uptoFailure_none (service_fail hbfail)] at hnone
    have hdsucc := ((valid d hd).kind.resolve_right hsucc).1
    obtain ⟨i, hi⟩ := (valid d hd).service_succ hdsucc
    have hmem : i ∈ services replies := List.mem_filterMap.2 ⟨d, hd, hi⟩
    exact absurd (hnone.symm.subset hmem) List.not_mem_nil
  · rintro (hall | hall) order infos hperm hreturns
    · rw [returns_eq (hvalid order hperm) hreturns, uptoFailure_all]
      · exact hperm.filterMap service
      · exact fun d hd => (hvalid order hperm d hd).service_succ (hall d (hperm.subset hd))
    · have hnone : ∀ d ∈ replies, service d = none := fun d hd => service_fail (hall d hd)
      rw [returns_eq (hvalid order hperm) hreturns,
        uptoFailure_failures fun d hd => hnone d (hperm.subset hd), services,
        List.filterMap_eq_nil_iff.2 hnone]

section Examples
open GoInquiry (playMusic)

def mixedReplies : List Bytes := [serviceData playMusic, noFoundData]

theorem mixedReplies_valid : ∀ d ∈ mixedReplies, ValidReply d :=
  List.forall_mem_cons.2 ⟨(serviceData_valid (by decide)).1,
    List.forall_mem_singleton.2 noFoundData_valid⟩

theorem inquiry_order_iff_mixed :
    (∀ order : List Bytes, order.Perm mixedReplies → ∃ infos, Returns order infos) ∧
    ((∀ (order : List Bytes) (infos : List ServiceInfo), order.Perm mixedReplies →
        Returns order infos → infos.Perm (services mixedReplies)) ↔
      (∀ d ∈ mixedReplies, (headOf d).action = Action.actionSucc.code) ∨
        ∀ d ∈ mixedReplies, (headOf d).action = Action.actionFail.code) :=
  inquiry_order_iff mixedReplies mixedReplies_valid

/-- A daemon that does not know the service hides the one that another reports, when it
answers first. -/
theorem failure_hides_service :
    Returns [serviceData playMusic, noFoundData] [playMusic.coerce] ∧
    Returns [noFoundData, serviceData playMusic] [] ∧
    ¬ ∀ (order : List Bytes) (infos : List ServiceInfo), order.Perm mixedReplies →
      Returns order infos → infos.Perm (services mixedReplies) := by
  have hsucc := (serviceData_valid (i := playMusic) (by decide)).2
  have hfail : service noFoundData = none := service_fail <| by
    rw [noFoundData, GoProtocal.getResult, getResultData, headOf_dataBuffer]
  have hfirst := inquiry_returns mixedReplies_valid
  rw [mixedReplies, uptoFailure_some hsucc, uptoFailure_none hfail] at hfirst
  have hperm : [noFoundData, serviceData playMusic].Perm mixedReplies := List.Perm.swap _ _ _
  have hsecond := inquiry_returns fun d hd => mixedReplies_valid d (hperm.subset hd)
  rw [uptoFailure_none hfail] at hsecond
  refine ⟨hfirst, hsecond, fun h => ?_⟩
  have hnil := h _ _ hperm hsecond
  rw [mixedReplies, services, List.filterMap_cons_some hsucc] at hnil
  exact absurd hnil.symm.eq_nil (List.cons_ne_nil _ _)

end Examples

end MiniServiceDiscover.GoOrder
