import MiniServiceDiscover.GoAnswers
import MiniServiceDiscover.GoCaller

set_option autoImplicit false

/-! Which replies a call reports: those of its own request, as long as no other
reply gets to the socket before it has read. -/
namespace MiniServiceDiscover.GoCorrelation
open JsonText Utf8Runes GoJson GoProtocal GoProvider GoDaemon GoInquiry GoHistory GoReply
open GoAnswers GoCaller WireFormat StepRuns

/-- The running call may still read: it has not yet, or it is an inquiry with a reply to
take up. -/
def listening (s : State) : Bool :=
  match s.pc, s.caller, s.reply with
  | .launched, _, _ => true
  | .reading, _, _ => true
  | .received, .clientData, some _ => true
  | _, _, _ => false

/-- A call starts with no reply waiting at the socket, and while it may still read
only replies to its own request get there. -/
def Timely (s : State) : Act → Prop
  | .start _ => s.queue = []
  | .deliver i => listening s = true → ∀ r, s.replies[i]? = some r → r.call = s.call
  | _ => True

/-- Some daemon wrote the reply when it handled the request of the call. -/
def AnswersCall (c : Call) (r : Reply) : Prop :=
  ∃ request p, c.sendData = .ok request ∧ Reached p ∧ r.data ∈ (processData p request).sent

/-- The service one reply adds to the infos of an inquiry. -/
def service (r : Reply) : Option ServiceInfo :=
  match inquiryReply r.data with
  | .ok o => o
  | .error _ => none

/-- The outcome is what the code makes of these replies and nothing else. -/
def FromReplies (used : List Reply) (o : Outcome) : Caller → Prop
  | .serverData => used = [] ∧ o = .result false readNothing ∨
      ∃ r succ failReason, used = [r] ∧ resultReply r.data = .ok (succ, failReason) ∧
        o = .result succ failReason
  | .clientData => o = .infos (used.filterMap service)

structure Correlated (e : Report) : Prop where
  answers : ∀ r ∈ e.used, r.call = e.number ∧ AnswersCall e.call r
  outcome : FromReplies e.used e.outcome e.call.caller
  named : ∀ serviceName infos, e.call = .inquiryService serviceName →
    e.outcome = .infos infos → IsValid serviceName → serviceName.length ≤ infoMaxLen →
      ∀ i ∈ infos, i.serviceName = serviceName
  unregistered : ∀ devName serviceName failReason,
    e.call = .unRegisterService devName serviceName → e.outcome = .result true failReason →
      ∃ r ∈ e.used, r.call = e.number ∧ resultReply r.data = .ok (true, failReason)

def Requested (calls : List Call) (k : ℕ) (data : Bytes) : Prop :=
  ∃ c, calls[k]? = some c ∧ c.sendData = .ok data

def Answers (calls : List Call) (r : Reply) : Prop := ∃ c, calls[r.call]? = some c ∧ AnswersCall c r

/-- What the locals of the running call hold at each program point. -/
def Progress (s : State) : Prop :=
  match s.pc with
  | .launched => s.used = [] ∧ s.infos = []
  | .reading => s.infos = s.used.filterMap service ∧ (s.caller = .serverData → s.used = [])
  | .received => ∃ front, s.used = front ++ s.reply.toList ∧ s.infos = front.filterMap service ∧
      (s.caller = .serverData → front = [])
  | .waiting => (s.caller = .serverData → s.used = s.reply.toList) ∧
      (s.caller = .clientData → s.infos = s.used.filterMap service)
  | _ => True

structure Inv (s : State) : Prop where
  sweeps : ∀ w ∈ s.sweeps, Requested s.calls w.call w.data
  requests : ∀ r ∈ s.requests, Requested s.calls r.call r.data
  replies : ∀ r ∈ s.replies, Answers s.calls r
  queue : ∀ r ∈ s.queue, Answers s.calls r
  used : ∀ r ∈ s.used, Answers s.calls r
  daemons : ∀ host p, s.daemons host = some p → Reached p
  running : s.pc ≠ .idle → s.pc ≠ .panicked → ∃ c, s.calls[s.call]? = some c ∧ c.caller = s.caller
  progress : Progress s
  ownQueue : listening s = true → ∀ r ∈ s.queue, r.call = s.call
  ownUsed : s.pc ≠ .idle → ∀ r ∈ s.used, r.call = s.call
  log : ∀ e ∈ s.log, s.calls[e.number]? = some e.call ∧ Correlated e

section Calls
variable {s u : State}

theorem listening_launched (h : s.pc = .launched) : listening s = true := by
  rw [listening, h]

theorem listening_reading (h : s.pc = .reading) : listening s = true := by
  rw [listening, h]

theorem listening_received {r : Reply} (hp : s.pc = .received) (hc : s.caller = .clientData)
    (hr : s.reply = some r) : listening s = true := by
  rw [listening, hp, hc, hr]

theorem sendData_ok (c : Call) : ∃ data, c.sendData = .ok data := by
  cases c <;> exact ⟨_, rfl⟩

/-- A call number keeps its call. -/
theorem getElem?_snoc {calls : List Call} {k : ℕ} {c : Call} (h : calls[k]? = some c) (d : Call) :
    (calls ++ [d])[k]? = some c := by
  obtain ⟨hk, -⟩ := List.getElem?_eq_some_iff.1 h
  rw [List.getElem?_append_left hk, h]

theorem Requested.snoc {calls : List Call} {k : ℕ} {data : Bytes} (h : Requested calls k data)
    (d : Call) : Requested (calls ++ [d]) k data :=
  h.imp fun _ hc => ⟨getElem?_snoc hc.1 d, hc.2⟩

theorem Answers.snoc {calls : List Call} {r : Reply} (h : Answers calls r) (d : Call) :
    Answers (calls ++ [d]) r :=
  h.imp fun _ hc => ⟨getElem?_snoc hc.1 d, hc.2⟩

theorem start_inv (h : Inv s) (c : Call) (hq : s.queue = []) (hs : start s c = some u) : Inv u := by
  obtain ⟨data, hd⟩ := sendData_ok c
  unfold start at hs
  split_ifs at hs with hc
  rw [hd] at hs
  obtain rfl := Option.some.inj hs
  have hnew : (s.calls ++ [c])[s.calls.length]? = some c := by simp
  constructor
  case sweeps =>
    intro w hw
    rcases List.mem_append.1 hw with hw | hw
    · exact (h.sweeps w hw).snoc c
    · rw [List.mem_singleton.1 hw]
      exact ⟨c, hnew, hd⟩
  case requests => exact fun r hr => (h.requests r hr).snoc c
  case replies => exact fun r hr => (h.replies r hr).snoc c
  case queue => exact fun r hr => (h.queue r hr).snoc c
  case used => exact fun r hr => nomatch hr
  case daemons => exact h.daemons
  case running => exact fun _ _ => ⟨c, hnew, hc.2⟩
  case progress => exact ⟨rfl, rfl⟩
  case ownQueue =>
    intro _ r hr
    rw [hq] at hr
    cases hr
  case ownUsed => exact fun _ r hr => nomatch hr
  case log => exact fun e he => ⟨getElem?_snoc (h.log e he).1 c, (h.log e he).2⟩

theorem clearRecEnd_inv (h : Inv s) (hs : clearRecEnd s = some u) : Inv u := by
  unfold clearRecEnd at hs
  split_ifs at hs with hp
  obtain rfl := Option.some.inj hs
  have hpr := h.progress
  rw [Progress, hp] at hpr
  obtain ⟨hu, hi⟩ := hpr
  have hown := h.ownQueue (listening_launched hp)
  have hrun := h.running (by rw [hp]; decide) (by rw [hp]; decide)
  refine { h with running := fun _ _ => hrun, progress := ?_, ownQueue := fun _ => hown,
                  ownUsed := fun _ => h.ownUsed (by rw [hp]; decide) }
  exact ⟨by rw [hu, hi]; rfl, fun _ => hu⟩

theorem clientRead_inv (h : Inv s) (hs : clientRead s = some u) : Inv u := by
  unfold clientRead at hs
  split at hs
  · rename_i r queue hp hq
    obtain rfl := Option.some.inj hs
    have hown := h.ownQueue (listening_reading hp)
    have hans := h.queue
    have hpr := h.progress
    rw [hq] at hown hans
    rw [Progress, hp] at hpr
    refine { h with queue := fun x hx => hans x (List.mem_cons_of_mem _ hx), used := ?_,
                    running := fun _ _ => h.running (by rw [hp]; decide) (by rw [hp]; decide),
                    progress := ⟨s.used, rfl, hpr⟩,
                    ownQueue := fun _ x hx => hown x (List.mem_cons_of_mem _ hx), ownUsed := ?_ }
    · intro x hx
      rcases List.mem_append.1 hx with hx | hx
      · exact h.used x hx
      · rw [List.mem_singleton.1 hx]
        exact hans r List.mem_cons_self
    · intro _ x hx
      rcases List.mem_append.1 hx with hx | hx
      · exact h.ownUsed (by rw [hp]; decide) x hx
      · rw [List.mem_singleton.1 hx]
        exact hown r List.mem_cons_self
  · cases hs

theorem timeout_inv (h : Inv s) (hs : timeout s = some u) : Inv u := by
  unfold timeout at hs
  split_ifs at hs with hp
  obtain rfl := Option.some.inj hs
  have hpr := h.progress
  rw [Progress, hp] at hpr
  have hown := h.ownQueue (listening_reading hp)
  exact { h with running := fun _ _ => h.running (by rw [hp]; decide) (by rw [hp]; decide),
                 progress := ⟨s.used, (List.append_nil _).symm, hpr⟩, ownQueue := fun _ => hown,
                 ownUsed := fun _ => h.ownUsed (by rw [hp]; decide) }

theorem service_some {r : Reply} {o : Option ServiceInfo} (h : inquiryReply r.data = .ok o) :
    service r = o := by
  rw [service, h]

/-- One pass of the loop: an info more, the end of the loop, or a panic. -/
theorem examine_inv (h : Inv s) (hp : s.pc = .received) (hc : s.caller = .clientData) :
    Inv (examine s) := by
  have hrun := h.running (by rw [hp]; decide) (by rw [hp]; decide)
  have hused := h.ownUsed (by rw [hp]; decide)
  have hns : s.caller ≠ .serverData := by rw [hc]; decide
  obtain ⟨front, hu, hi, -⟩ : ∃ front, s.used = front ++ s.reply.toList ∧
      s.infos = front.filterMap service ∧ (s.caller = .serverData → front = []) := by
    have hpr := h.progress
    rwa [Progress, hp] at hpr
  unfold examine
  split
  · rename_i hr
    refine { h with running := fun _ _ => hrun, progress := ⟨fun he => absurd he hns, fun _ => ?_⟩,
                    ownQueue := (fun hl => nomatch hl), ownUsed := fun _ => hused }
    rw [hr, Option.toList_none, List.append_nil] at hu
    exact hi.trans (congrArg _ hu.symm)
  · rename_i r hr
    rw [hr, Option.toList_some] at hu
    split
    · exact { h with running := fun _ hn => absurd rfl hn, progress := trivial,
                     ownQueue := (fun hl => nomatch hl), ownUsed := fun _ => hused }
    · rename_i hq
      refine { h with running := fun _ _ => hrun, progress := ⟨fun he => absurd he hns, fun _ => ?_⟩,
                      ownQueue := (fun hl => nomatch hl), ownUsed := fun _ => hused }
      change s.infos = s.used.filterMap service
      rw [hu, hi, List.filterMap_append, List.filterMap_cons_none (service_some hq),
        List.filterMap_nil, List.append_nil]
    · rename_i i hq
      refine { h with running := fun _ _ => hrun, progress := ⟨?_, fun he => absurd he hns⟩,
                      ownQueue := fun _ => h.ownQueue (listening_received hp hc hr),
                      ownUsed := fun _ => hused }
      change s.infos ++ [i] = s.used.filterMap service
      rw [hu, hi, List.filterMap_append, List.filterMap_cons_some (service_some hq),
        List.filterMap_nil]

theorem setRecEnd_inv (h : Inv s) (hs : setRecEnd s = some u) : Inv u := by
  unfold setRecEnd at hs
  split_ifs at hs with hp
  split at hs
  · rename_i hc
    obtain rfl := Option.some.inj hs
    have hpr := h.progress
    rw [Progress, hp] at hpr
    obtain ⟨front, hu, -, hf⟩ := hpr
    refine { h with running := fun _ _ => h.running (by rw [hp]; decide) (by rw [hp]; decide),
                    progress := ⟨fun _ => ?_, fun he => ?_⟩, ownQueue := (fun hl => nomatch hl),
                    ownUsed := fun _ => h.ownUsed (by rw [hp]; decide) }
    · rw [hu, hf hc, List.nil_append]
    · exact absurd (hc.symm.trans he) (by decide)
  · rename_i hc
    obtain rfl := Option.some.inj hs
    have hset : Inv { s with recEnd := true } := { h with }
    exact examine_inv hset hp hc

end Calls

section Reports
variable {s u : State}

theorem outcome_fromReplies (h : Inv s) (hp : s.pc = .waiting) {o : Outcome}
    (ho : outcome s = .ok o) : FromReplies s.used o s.caller := by
  have hpr := h.progress
  rw [Progress, hp] at hpr
  obtain ⟨hserver, hclient⟩ := hpr
  unfold outcome at ho
  split at ho
  · rename_i hc
    obtain rfl := Except.ok.inj ho
    rw [hc]
    exact congrArg Outcome.infos (hclient hc)
  · rename_i hc hr
    obtain rfl := Except.ok.inj ho
    rw [hr] at hserver
    rw [hc]
    exact .inl ⟨hserver hc, rfl⟩
  · rename_i r hc hr
    rw [hr] at hserver
    cases hres : resultReply r.data with
    | error e =>
      rw [hres] at ho
      cases ho
    | ok res =>
      rw [hres] at ho
      obtain rfl := Except.ok.inj ho
      rw [hc]
      exact .inr ⟨r, res.1, res.2, hserver hc, hres, rfl⟩

/-- Replies to one request, and an outcome made from them, make a correlated report. -/
theorem correlated_of_answers {e : Report}
    (ha : ∀ r ∈ e.used, r.call = e.number ∧ AnswersCall e.call r)
    (ho : FromReplies e.used e.outcome e.call.caller) : Correlated e := by
  refine ⟨ha, ho, ?_, ?_⟩
  · intro serviceName infos hc hi hv hl i hm
    rw [hi, hc] at ho
    obtain rfl : infos = e.used.filterMap service := Outcome.infos.inj ho
    obtain ⟨r, hr, hs⟩ := List.mem_filterMap.1 hm
    obtain ⟨request, p, hq, hp, hsent⟩ := (ha r hr).2
    rw [hc] at hq
    have hread : inquiryReply r.data = .ok (some i) := by
      unfold service at hs
      split at hs
      · rename_i o ho
        rw [ho, hs]
      · cases hs
    exact inquiryReply_named hp hq hsent hread hv hl
  · intro devName serviceName failReason hc hres
    rw [hres, hc] at ho
    rcases ho with ⟨-, hf⟩ | ⟨r, succ, reason, hu, hr, hf⟩
    · cases hf
    · obtain ⟨rfl, rfl⟩ := Outcome.result.inj hf
      have hm : r ∈ e.used := by rw [hu]; exact List.mem_singleton_self r
      exact ⟨r, hm, (ha r hm).1, hr⟩

theorem join_inv (h : Inv s) (hs : join s = some u) : Inv u := by
  unfold join at hs
  split_ifs at hs with hp
  split at hs
  · rename_i c o hc ho
    obtain rfl := Option.some.inj hs
    refine { h with running := fun hn => absurd rfl hn, progress := trivial,
                    ownQueue := (fun hl => nomatch hl), ownUsed := fun hn => absurd rfl hn,
                    log := fun e he => ?_ }
    rcases List.mem_append.1 he with he | he
    · exact h.log e he
    · rw [List.mem_singleton.1 he]
      have hfrom := outcome_fromReplies h hp.1 ho
      obtain ⟨c', hc', hcaller⟩ := h.running (by rw [hp.1]; decide) (by rw [hp.1]; decide)
      rw [← hcaller, ← Option.some.inj (hc.symm.trans hc')] at hfrom
      refine ⟨hc, correlated_of_answers (fun r hr => ?_) hfrom⟩
      have hcall := h.ownUsed (by rw [hp.1]; decide) r hr
      obtain ⟨c', hc', ha⟩ := h.used r hr
      rw [hcall, hc] at hc'
      exact ⟨hcall, Option.some.inj hc' ▸ ha⟩
  · obtain rfl := Option.some.inj hs
    exact { h with running := fun _ hn => absurd rfl hn, progress := trivial,
                   ownQueue := (fun hl => nomatch hl),
                   ownUsed := fun _ => h.ownUsed (by rw [hp.1]; decide) }

end Reports

section Sweeps
variable {s u : State}

theorem sweep_inv (h : Inv s) (i : ℕ) (hs : sweep s i = some u) : Inv u := by
  unfold sweep at hs
  split at hs
  · cases hs
  · cases hs
  · rename_i w hw _
    have hreq := h.sweeps w (List.mem_of_getElem? hw)
    have hset : ∀ pc, ∀ w' ∈ s.sweeps.set i { w with pc := pc },
        Requested s.calls w'.call w'.data := by
      intro pc w' hw'
      rcases List.mem_or_eq_of_mem_set hw' with hw' | rfl
      · exact h.sweeps w' hw'
      · exact hreq
    split at hs
    · obtain rfl := Option.some.inj hs
      exact { h with sweeps := hset _ }
    · obtain rfl := Option.some.inj hs
      exact { h with sweeps := hset _ }
    · obtain rfl := Option.some.inj hs
      refine { h with sweeps := hset _, requests := fun r hr => ?_ }
      rcases List.mem_append.1 hr with hr | hr
      · exact h.requests r hr
      · rw [List.mem_singleton.1 hr]
        exact hreq
    · split_ifs at hs
      obtain rfl := Option.some.inj hs
      exact { h with sweeps := fun w' hw' => h.sweeps w' (List.mem_of_mem_eraseIdx hw') }

end Sweeps

section Network
variable {s u : State}

theorem daemons_update {daemons : ℕ → Option Provider} {host : ℕ} {p : Provider} {data : Bytes}
    (h : ∀ host p, daemons host = some p → Reached p) (hp : daemons host = some p)
    (hd : data.length = udpCommBufLen) (host' : ℕ) (p' : Provider)
    (hu : Function.update daemons host (processData p data).result.toOption host' = some p') :
    Reached p' := by
  by_cases he : host' = host
  · rw [he, Function.update_self] at hu
    cases hr : (processData p data).result with
    | error e =>
      rw [hr] at hu
      cases hu
    | ok q =>
      rw [hr] at hu
      obtain rfl := Option.some.inj hu
      exact reached_processData (h host p hp) hd hr
  · rw [Function.update_of_ne he] at hu
    exact h host' p' hu

theorem sendData_length {c : Call} {data : Bytes} (h : c.sendData = .ok data) :
    data.length = udpCommBufLen := by
  cases c <;> (obtain rfl := Except.ok.inj h; exact dataBuffer_length _ _)

theorem handle_inv (h : Inv s) (i : ℕ) (hs : handle s i = some u) : Inv u := by
  obtain ⟨r, hr, hu⟩ := Option.map_eq_some_iff.1 hs
  obtain ⟨c, hc, hd⟩ := h.requests r (List.mem_of_getElem? hr)
  have hrest : ∀ x ∈ s.requests.eraseIdx i, Requested s.calls x.call x.data :=
    fun x hx => h.requests x (List.mem_of_mem_eraseIdx hx)
  split at hu
  · subst hu
    exact { h with requests := hrest }
  · rename_i p hp
    subst hu
    refine { h with requests := hrest, replies := fun x hx => ?_,
                    daemons := daemons_update h.daemons hp (sendData_length hd) }
    rcases List.mem_append.1 hx with hx | hx
    · exact h.replies x hx
    · obtain ⟨data, hm, rfl⟩ := List.mem_map.1 hx
      exact ⟨c, hc, r.data, p, hd, h.daemons _ _ hp, hm⟩

theorem deliver_inv (h : Inv s) (i : ℕ)
    (ht : listening s = true → ∀ r, s.replies[i]? = some r → r.call = s.call)
    (hs : deliver s i = some u) : Inv u := by
  obtain ⟨r, hr, rfl⟩ := Option.map_eq_some_iff.1 hs
  refine { h with replies := fun x hx => h.replies x (List.mem_of_mem_eraseIdx hx),
                  queue := fun x hx => ?_, ownQueue := fun hl x hx => ?_ }
  · rcases List.mem_append.1 hx with hx | hx
    · exact h.queue x hx
    · rw [List.mem_singleton.1 hx]
      exact h.replies r (List.mem_of_getElem? hr)
  · rcases List.mem_append.1 hx with hx | hx
    · exact h.ownQueue hl x hx
    · rw [List.mem_singleton.1 hx]
      exact ht hl r hr

theorem loseRequest_inv (h : Inv s) (i : ℕ) (hs : loseRequest s i = some u) : Inv u := by
  obtain ⟨r, -, rfl⟩ := Option.map_eq_some_iff.1 hs
  exact { h with requests := fun x hx => h.requests x (List.mem_of_mem_eraseIdx hx) }

theorem loseReply_inv (h : Inv s) (i : ℕ) (hs : loseReply s i = some u) : Inv u := by
  obtain ⟨r, -, rfl⟩ := Option.map_eq_some_iff.1 hs
  exact { h with replies := fun x hx => h.replies x (List.mem_of_mem_eraseIdx hx) }

theorem other_inv (h : Inv s) (host : ℕ) (data : Bytes) (hs : other s host data = some u) :
    Inv u := by
  unfold other at hs
  split_ifs at hs with hd
  obtain ⟨p, hp, rfl⟩ := Option.map_eq_some_iff.1 hs
  exact { h with daemons := daemons_update h.daemons hp hd }

end Network

section Runs
variable {s u : State}

theorem init_inv (caller : Caller) (hosts : ℕ → Bool) : Inv (init caller hosts) where
  sweeps := fun _ h => nomatch h
  requests := fun _ h => nomatch h
  replies := fun _ h => nomatch h
  queue := fun _ h => nomatch h
  used := fun _ h => nomatch h
  daemons := by
    intro host p hp
    change (if hosts host then some getProvider else none) = some p at hp
    split_ifs at hp
    exact Option.some.inj hp ▸ reached_getProvider
  running := fun h => absurd rfl h
  progress := trivial
  ownQueue := fun h => nomatch h
  ownUsed := fun h => absurd rfl h
  log := fun _ h => nomatch h

theorem step_inv (h : Inv s) (a : Act) (ht : Timely s a) (hs : step s a = some u) : Inv u := by
  cases a with
  | start c => exact start_inv h c ht hs
  | clearRecEnd => exact clearRecEnd_inv h hs
  | read => exact clientRead_inv h hs
  | timeout => exact timeout_inv h hs
  | setRecEnd => exact setRecEnd_inv h hs
  | join => exact join_inv h hs
  | sweep i => exact sweep_inv h i hs
  | handle i => exact handle_inv h i hs
  | deliver i => exact deliver_inv h i ht hs
  | loseRequest i => exact loseRequest_inv h i hs
  | loseReply i => exact loseReply_inv h i hs
  | other host data => exact other_inv h host data hs

theorem runs_inv {caller : Caller} {hosts : ℕ → Bool} {acts : List Act}
    (h : Runs step Timely (init caller hosts) acts s) : Inv s :=
  h.invariant Inv (init_inv caller hosts) fun _ a _ hi hg hs => step_inv hi a hg hs

end Runs

/-- In every run of timely steps, whatever the daemons, the sweeps, the losses and
the order of the datagrams, each call reports only what daemons answered to its
own request. -/
theorem reports_correlated (caller : Caller) (hosts : ℕ → Bool) (acts : List Act) (s : State)
    (h : Runs step Timely (init caller hosts) acts s) (e : Report) (he : e ∈ s.log) :
    s.calls[e.number]? = some e.call ∧ Correlated e :=
  (runs_inv h).log e he

section Stale

theorem resultReply_succData : resultReply succData = .ok (true, []) := by
  have hd : succData.length = udpCommBufLen := dataBuffer_length _ _
  have hl : (ResultInfo.marshal ⟨getValidStr []⟩).length ≤ payloadLen := by decide
  have ha : Accepted succData := dataBuffer_accepted _ hl
  have hs : (headOf succData).action = Action.actionSucc.code := by
    rw [succData, getResult, getResultData, headOf_dataBuffer]
  rw [resultReply_fits hd fun _ => dataBuffer_len_fits _ hl, if_pos ha, if_pos hs]

theorem start_eq {s : State} {c : Call} {data : Bytes} (hp : s.pc = .idle)
    (hc : c.caller = s.caller) (hd : c.sendData = .ok data) :
    start s c = some { s with
      pc := .launched, reply := none, infos := []
      sweeps := s.sweeps ++ [⟨.reset, data, s.calls.length⟩]
      calls := s.calls ++ [c], call := s.calls.length, used := [] } := by
  rw [start, if_pos ⟨hp, hc⟩, hd]

theorem join_eq {s : State} {c : Call} {o : Outcome} (hp : s.pc = .waiting)
    (ht : 0 < s.broadcastQuit) (hc : s.calls[s.call]? = some c) (ho : outcome s = .ok o) :
    join s = some { s with
      pc := .idle, broadcastQuit := s.broadcastQuit - 1
      log := s.log ++ [⟨s.call, c, o, s.used⟩] } := by
  rw [join, if_pos ⟨hp, ht⟩, hc, ho]

theorem outcome_succ {s : State} {r : Reply} (hc : s.caller = .serverData) (hr : s.reply = some r)
    (hd : r.data = succData) : outcome s = .ok (.result true []) := by
  rw [outcome]
  simp only [hc, hr, hd, resultReply_succData]
  rfl

/-- One call that reads at once and whose sweep sends nothing. -/
def hastyActs (c : Call) : List Act :=
  [.start c, .clearRecEnd, .read, .setRecEnd, .sweep 0, .sweep 0, .sweep 0, .join]

/-- Whatever is asked next, a success left at the socket is reported for it. -/
theorem stale_success {s : State} (c : Call) {r : Reply} {rest : List Reply}
    (hc : c.caller = .serverData) (hcaller : s.caller = .serverData) (hp : s.pc = .idle)
    (hw : s.sweeps = []) (ht : s.broadcastQuit = 0) (hq : s.queue = r :: rest)
    (hr : r.data = succData) :
    ∃ u, Runs step (fun _ _ => True) s (hastyActs c) u ∧
      u.log = s.log ++ [⟨s.calls.length, c, .result true [], [r]⟩] := by
  obtain ⟨data, hd⟩ := sendData_ok c
  obtain ⟨caller, pc, reply, infos, recEnd, quit, subIP, sweeps, requests, replies, queue, daemons,
    calls, call, used, log⟩ := s
  subst hcaller hp hw ht hq
  have hlast : (calls ++ [c])[calls.length]? = some c := by simp
  refine ⟨⟨.serverData, .idle, some r, [], true, 0, 1, [], requests, replies, rest, daemons,
    calls ++ [c], calls.length, [r], log ++ [⟨calls.length, c, .result true [], [r]⟩]⟩, ?_, rfl⟩
  refine .next trivial (start_eq rfl hc hd) ?_
  refine .next trivial rfl ?_
  refine .next trivial rfl ?_
  refine .next trivial rfl ?_
  refine .next trivial rfl ?_
  refine .next trivial rfl ?_
  refine .next trivial rfl ?_
  exact .next trivial (join_eq rfl Nat.zero_lt_one hlast (outcome_succ rfl rfl hr)) (.refl _)

end Stale

section Examples

def playMusicCall : Call :=
  .registerService (ascii "box1") (ascii "play_music") (ascii "192.168.1.116") 6666 (ascii "pcm")

theorem playMusicCall_sendData : playMusicCall.sendData = .ok playMusicRegister := rfl

theorem processData_playMusicRegister :
    processData getProvider playMusicRegister = ⟨[succData], .ok [playMusic.coerce]⟩ :=
  processData_register requests_playMusicRegister getProvider

def twoHosts (host : ℕ) : Bool := host == 1 || host == 2

theorem handle_eq {s : State} {i : ℕ} {r : Request} {p : Provider} {sent : List Bytes}
    {result : Except GoPanic Provider} (hr : s.requests[i]? = some r)
    (hp : s.daemons r.dst = some p) (hh : processData p r.data = ⟨sent, result⟩) :
    handle s i = some { s with
      requests := s.requests.eraseIdx i
      replies := s.replies ++ sent.map fun data => ⟨r.dst, data, r.call⟩
      daemons := Function.update s.daemons r.dst result.toOption } := by
  rw [handle, hr, Option.map_some]
  simp only [hp, hh]

def requestActs : List Act :=
  [.start playMusicCall, .clearRecEnd, .sweep 0, .sweep 0, .sweep 0, .sweep 0, .sweep 0,
    .handle 0, .handle 0]

def replyActs : List Act := [.deliver 0, .deliver 0, .read, .setRecEnd, .sweep 0, .sweep 0, .join]

/-- Two daemons have taken the registration, and their answers are under way. -/
def answered : State where
  caller := .serverData
  pc := .reading
  reply := none
  infos := []
  recEnd := false
  broadcastQuit := 0
  subIP := 3
  sweeps := [⟨.check false, playMusicRegister, 0⟩]
  requests := []
  replies := [⟨1, succData, 0⟩, ⟨2, succData, 0⟩]
  queue := []
  daemons := Function.update (Function.update (init .serverData twoHosts).daemons
    1 (some [playMusic.coerce])) 2 (some [playMusic.coerce])
  calls := [playMusicCall]
  call := 0
  used := []
  log := []

/-- The call has returned, and the second answer is still at the socket. -/
def registered : State :=
  { answered with
    pc := .idle
    reply := some ⟨1, succData, 0⟩
    recEnd := true
    sweeps := []
    replies := []
    queue := [⟨2, succData, 0⟩]
    used := [⟨1, succData, 0⟩]
    log := [⟨0, playMusicCall, .result true [], [⟨1, succData, 0⟩]⟩] }

theorem runs_answered : Runs step Timely (init .serverData twoHosts) requestActs answered := by
  refine .next rfl (start_eq rfl rfl playMusicCall_sendData) ?_
  refine .next trivial rfl ?_
  refine .next trivial rfl ?_
  refine .next trivial rfl ?_
  refine .next trivial rfl ?_
  refine .next trivial rfl ?_
  refine .next trivial rfl ?_
  refine .next trivial (handle_eq rfl rfl processData_playMusicRegister) ?_
  exact .next trivial (handle_eq rfl rfl processData_playMusicRegister) (.refl _)

theorem runs_registered : Runs step Timely answered replyActs registered := by
  refine .next (fun _ _ h => Option.some.inj h ▸ rfl) rfl ?_
  refine .next (fun _ _ h => Option.some.inj h ▸ rfl) rfl ?_
  refine .next trivial rfl ?_
  refine .next trivial rfl ?_
  refine .next trivial rfl ?_
  refine .next trivial rfl ?_
  have hjoin : join { registered with pc := .waiting, broadcastQuit := 1, log := [] } =
      some registered := join_eq rfl Nat.zero_lt_one rfl (outcome_succ rfl rfl rfl)
  exact .next trivial hjoin (.refl _)

theorem reports_correlated_register :
    registered.calls[0]? = some playMusicCall ∧
      Correlated ⟨0, playMusicCall, .result true [], [⟨1, succData, 0⟩]⟩ :=
  reports_correlated .serverData twoHosts _ registered (runs_answered.trans runs_registered) _
    (List.mem_singleton_self _)

def neverRegistered : Call := .unRegisterService (ascii "box9") (ascii "show_photo")

/-- The second answer to the registration makes the next call report that a service
nobody registered is gone. -/
theorem unRegister_stale : ∃ s, Runs step (fun _ _ => True) (init .serverData twoHosts)
    (requestActs ++ replyActs ++ hastyActs neverRegistered) s ∧
    ∃ e ∈ s.log, e.number = 1 ∧ e.call = neverRegistered ∧ e.outcome = .result true [] ∧
      e.used = [⟨2, succData, 0⟩] ∧ ¬ Correlated e := by
  obtain ⟨s, hr, hl⟩ := stale_success (s := registered) neverRegistered rfl rfl rfl rfl rfl rfl rfl
  refine ⟨s, ((runs_answered.trans runs_registered).mono fun _ _ _ => trivial).trans hr,
    ⟨1, neverRegistered, .result true [], [⟨2, succData, 0⟩]⟩, ?_, rfl, rfl, rfl, rfl, ?_⟩
  · rw [hl]
    exact List.mem_append_right _ (List.mem_singleton_self _)
  · intro h
    have hcall := (h.answers _ (List.mem_singleton_self _)).1
    exact absurd hcall (by decide)

end Examples

end MiniServiceDiscover.GoCorrelation
