import MiniServiceDiscover.GoCorrelation

set_option autoImplicit false

/-! What the calls of a Go application tell of the daemons: a service that an inquiry
returns stood in a registry while the inquiry ran, and what a registration or an
unregistration reports is what a daemon did while the call ran. -/
namespace MiniServiceDiscover.GoDiscovery
open JsonText GoJson GoProtocal GoProvider GoDaemon GoInquiry GoHistory GoCapacity GoReply
open GoAnswers GoCaller GoCorrelation WireFormat StepRuns KeyedList

/-- The call of this number has been started and has not returned. -/
structure During (s : State) (number : ℕ) : Prop where
  started : s.calls.length = number + 1
  running : s.log.length = number

/-- The daemon that wrote the reply, its registry before, and the request it wrote it for. -/
structure Wrote (s : State) (i : ℕ) (r : Reply) (p : Provider) (request : Bytes) : Prop where
  asked : s.requests[i]? = some ⟨r.src, request, r.call⟩
  daemon : s.daemons r.src = some p
  sent : r.data ∈ (processData p request).sent

/-- While the call runs, the daemon at `host` takes its request and goes from `p` to `q`. -/
def Took (s₀ : State) (acts : List Act) (number host : ℕ) (p : Provider) (q : Option Provider) :
    Prop :=
  ∃ front i rest s u request, acts = front ++ .handle i :: rest ∧ Runs step Timely s₀ front s ∧
    handle s i = some u ∧ During s number ∧ s.requests[i]? = some ⟨host, request, number⟩ ∧
    s.daemons host = some p ∧ u.daemons host = q

/-- The reply was written in a state of the run in which no more calls had been started
or had returned than in `s`. -/
def Born (s₀ : State) (acts : List Act) (s : State) (r : Reply) : Prop :=
  ∃ front i rest sm p request, acts = front ++ .handle i :: rest ∧
    Runs step Timely s₀ front sm ∧ Wrote sm i r p request ∧
    sm.calls <+: s.calls ∧ sm.log.length ≤ s.log.length

/-- The reply is an answer to the call, written while the call ran. -/
def Answered (s₀ : State) (acts : List Act) (number : ℕ) (c : Call) (r : Reply) : Prop :=
  ∃ p q request, Took s₀ acts number r.src p q ∧ c.sendData = .ok request ∧
    r.data ∈ (processData p request).sent ∧ q = (processData p request).result.toOption

/-- The replies that have been written and not lost. -/
def pool (s : State) : List Reply := s.replies ++ s.queue ++ s.used

/-- How many calls have been started and have returned. -/
structure Counts (s : State) : Prop where
  idle : s.pc = .idle → s.calls.length = s.log.length
  running : s.pc ≠ .idle → s.calls.length = s.log.length + 1 ∧ s.call = s.log.length

/-- The step neither starts a call nor ends one. -/
structure Between (s u : State) : Prop where
  calls : u.calls = s.calls
  call : u.call = s.call
  log : u.log = s.log
  idle : u.pc = .idle ↔ s.pc = .idle

section Steps
variable {s u : State} {a : Act}

theorem mem_pool {r : Reply} : r ∈ pool s ↔ r ∈ s.replies ∨ r ∈ s.queue ∨ r ∈ s.used := by
  simp only [pool, List.mem_append, or_assoc]

theorem examine_between (h : s.pc = .received) :
    Between s (examine s) ∧ pool (examine s) = pool s := by
  unfold examine
  split
  · exact ⟨⟨rfl, rfl, rfl, iff_of_false nofun (by rw [h]; nofun)⟩, rfl⟩
  · split <;> exact ⟨⟨rfl, rfl, rfl, iff_of_false nofun (by rw [h]; nofun)⟩, rfl⟩

theorem setRecEnd_between (h : setRecEnd s = some u) : Between s u ∧ pool u = pool s := by
  unfold setRecEnd at h
  split_ifs at h with hp
  split at h
  · obtain rfl := Option.some.inj h
    exact ⟨⟨rfl, rfl, rfl, iff_of_false nofun (by rw [hp]; nofun)⟩, rfl⟩
  · obtain rfl := Option.some.inj h
    have hset : Between s { s with recEnd := true } := ⟨rfl, rfl, rfl, Iff.rfl⟩
    obtain ⟨⟨h1, h2, h3, h4⟩, hpool⟩ := examine_between (s := { s with recEnd := true }) hp
    exact ⟨⟨h1, h2, h3, h4.trans hset.idle⟩, hpool⟩

theorem clientRead_between (h : clientRead s = some u) :
    Between s u ∧ ∀ r ∈ pool u, r ∈ pool s := by
  unfold clientRead at h
  split at h
  · rename_i r queue hp hq
    obtain rfl := Option.some.inj h
    refine ⟨⟨rfl, rfl, rfl, iff_of_false nofun (by rw [hp]; nofun)⟩, fun x hx => ?_⟩
    rw [mem_pool] at hx ⊢
    rw [hq, List.mem_cons]
    rcases hx with hx | hx | hx
    · exact .inl hx
    · exact .inr (.inl (.inr hx))
    · rcases List.mem_append.1 hx with hx | hx
      · exact .inr (.inr hx)
      · exact .inr (.inl (.inl (List.mem_singleton.1 hx)))
  · cases h

theorem sweep_between {i : ℕ} (h : sweep s i = some u) : Between s u ∧ pool u = pool s := by
  unfold sweep at h
  split at h
  · cases h
  · cases h
  · split at h
    · obtain rfl := Option.some.inj h
      exact ⟨⟨rfl, rfl, rfl, Iff.rfl⟩, rfl⟩
    · obtain rfl := Option.some.inj h
      exact ⟨⟨rfl, rfl, rfl, Iff.rfl⟩, rfl⟩
    · obtain rfl := Option.some.inj h
      exact ⟨⟨rfl, rfl, rfl, Iff.rfl⟩, rfl⟩
    · split_ifs at h
      obtain rfl := Option.some.inj h
      exact ⟨⟨rfl, rfl, rfl, Iff.rfl⟩, rfl⟩

theorem handle_between {i : ℕ} (h : handle s i = some u) :
    Between s u ∧ ∀ r ∈ pool u, r ∈ pool s ∨ ∃ p request, Wrote s i r p request := by
  obtain ⟨q, hq, hu⟩ := Option.map_eq_some_iff.1 h
  split at hu
  · subst hu
    exact ⟨⟨rfl, rfl, rfl, Iff.rfl⟩, fun _ hr => .inl hr⟩
  · rename_i p hp
    subst hu
    refine ⟨⟨rfl, rfl, rfl, Iff.rfl⟩, fun r hr => ?_⟩
    rw [mem_pool] at hr ⊢
    rcases hr with hr | hr | hr
    · rcases List.mem_append.1 hr with hr | hr
      · exact .inl (.inl hr)
      · obtain ⟨data, hdata, rfl⟩ := List.mem_map.1 hr
        exact .inr ⟨p, q.data, hq, hp, hdata⟩
    · exact .inl (.inr (.inl hr))
    · exact .inl (.inr (.inr hr))

theorem deliver_between {i : ℕ} (h : deliver s i = some u) :
    Between s u ∧ ∀ r ∈ pool u, r ∈ pool s := by
  obtain ⟨r, hr, rfl⟩ := Option.map_eq_some_iff.1 h
  refine ⟨⟨rfl, rfl, rfl, Iff.rfl⟩, fun x hx => ?_⟩
  rw [mem_pool] at hx ⊢
  rcases hx with hx | hx | hx
  · exact .inl (List.mem_of_mem_eraseIdx hx)
  · rcases List.mem_append.1 hx with hx | hx
    · exact .inr (.inl hx)
    · exact .inl (List.mem_singleton.1 hx ▸ List.mem_of_getElem? hr)
  · exact .inr (.inr hx)

theorem loseReply_between {i : ℕ} (h : loseReply s i = some u) :
    Between s u ∧ ∀ r ∈ pool u, r ∈ pool s := by
  obtain ⟨r, -, rfl⟩ := Option.map_eq_some_iff.1 h
  refine ⟨⟨rfl, rfl, rfl, Iff.rfl⟩, fun x hx => ?_⟩
  rw [mem_pool] at hx ⊢
  exact hx.imp_left List.mem_of_mem_eraseIdx

/-- A step starts a call, ends one, or does neither, and only a daemon writes replies. -/
theorem step_cases (h : step s a = some u) :
    (∃ c, s.pc = .idle ∧ u.pc ≠ .idle ∧ u.calls = s.calls ++ [c] ∧ u.call = s.calls.length ∧
      u.log = s.log ∧ ∀ r ∈ pool u, r ∈ pool s) ∨
    (∃ c o, s.pc = .waiting ∧ u.pc = .idle ∧ u.calls = s.calls ∧
      u.log = s.log ++ [⟨s.call, c, o, s.used⟩] ∧ pool u = pool s) ∨
    Between s u ∧ ∀ r ∈ pool u, r ∈ pool s ∨ ∃ i p request, a = .handle i ∧ Wrote s i r p request := by
  cases a with
  | start c =>
    left
    change start s c = some u at h
    obtain ⟨data, hd⟩ := sendData_ok c
    unfold start at h
    split_ifs at h with hc
    rw [hd] at h
    obtain rfl := Option.some.inj h
    refine ⟨c, hc.1, nofun, rfl, rfl, rfl, fun r hr => ?_⟩
    rw [mem_pool] at hr ⊢
    rcases hr with hr | hr | hr
    · exact .inl hr
    · exact .inr (.inl hr)
    · cases hr
  | join =>
    change join s = some u at h
    unfold join at h
    split_ifs at h with hp
    split at h
    · rename_i c o hc ho
      obtain rfl := Option.some.inj h
      exact .inr (.inl ⟨c, o, hp.1, rfl, rfl, rfl, rfl⟩)
    · obtain rfl := Option.some.inj h
      exact .inr (.inr ⟨⟨rfl, rfl, rfl, iff_of_false nofun (by rw [hp.1]; nofun)⟩,
        fun _ hr => .inl hr⟩)
  | clearRecEnd =>
    change clearRecEnd s = some u at h
    unfold clearRecEnd at h
    split_ifs at h with hp
    obtain rfl := Option.some.inj h
    exact .inr (.inr ⟨⟨rfl, rfl, rfl, iff_of_false nofun (by rw [hp]; nofun)⟩, fun _ hr => .inl hr⟩)
  | timeout =>
    change timeout s = some u at h
    unfold timeout at h
    split_ifs at h with hp
    obtain rfl := Option.some.inj h
    exact .inr (.inr ⟨⟨rfl, rfl, rfl, iff_of_false nofun (by rw [hp]; nofun)⟩, fun _ hr => .inl hr⟩)
  | read =>
    obtain ⟨hb, hr⟩ := clientRead_between h
    exact .inr (.inr ⟨hb, fun r hm => .inl (hr r hm)⟩)
  | setRecEnd =>
    obtain ⟨hb, hr⟩ := setRecEnd_between h
    exact .inr (.inr ⟨hb, fun r hm => .inl (hr ▸ hm)⟩)
  | sweep i =>
    obtain ⟨hb, hr⟩ := sweep_between h
    exact .inr (.inr ⟨hb, fun r hm => .inl (hr ▸ hm)⟩)
  | handle i =>
    obtain ⟨hb, hr⟩ := handle_between h
    refine .inr (.inr ⟨hb, fun r hm => (hr r hm).imp_right ?_⟩)
    rintro ⟨p, request, hw⟩
    exact ⟨i, p, request, rfl, hw⟩
  | deliver i =>
    obtain ⟨hb, hr⟩ := deliver_between h
    exact .inr (.inr ⟨hb, fun r hm => .inl (hr r hm)⟩)
  | loseRequest i =>
    obtain ⟨r, -, rfl⟩ := Option.map_eq_some_iff.1 h
    exact .inr (.inr ⟨⟨rfl, rfl, rfl, Iff.rfl⟩, fun _ hr => .inl hr⟩)
  | loseReply i =>
    obtain ⟨hb, hr⟩ := loseReply_between h
    exact .inr (.inr ⟨hb, fun r hm => .inl (hr r hm)⟩)
  | other host data =>
    change other s host data = some u at h
    unfold other at h
    split_ifs at h
    obtain ⟨p, -, rfl⟩ := Option.map_eq_some_iff.1 h
    exact .inr (.inr ⟨⟨rfl, rfl, rfl, Iff.rfl⟩, fun _ hr => .inl hr⟩)

theorem step_grows (h : step s a = some u) :
    s.calls <+: u.calls ∧ s.log.length ≤ u.log.length := by
  rcases step_cases h with ⟨c, -, -, hc, -, hl, -⟩ | ⟨c, o, -, -, hc, hl, -⟩ | ⟨hb, -⟩
  · rw [hc, hl]
    exact ⟨List.prefix_append _ _, Nat.le_refl _⟩
  · rw [hc, hl, List.length_append]
    exact ⟨List.prefix_refl _, Nat.le_add_right _ _⟩
  · rw [hb.calls, hb.log]
    exact ⟨List.prefix_refl _, Nat.le_refl _⟩

theorem step_counts (hs : Counts s) (h : step s a = some u) : Counts u := by
  rcases step_cases h with ⟨c, hp, hu, hc, hn, hl, -⟩ | ⟨c, o, hp, hu, hc, hl, -⟩ | ⟨hb, -⟩
  · have heq := hs.idle hp
    refine ⟨fun he => absurd he hu, fun _ => ?_⟩
    rw [hc, hn, hl, List.length_append]
    exact ⟨by rw [heq]; rfl, heq⟩
  · obtain ⟨heq, -⟩ := hs.running (by rw [hp]; nofun)
    refine ⟨fun _ => ?_, fun hne => absurd hu hne⟩
    rw [hc, hl, List.length_append]
    exact heq
  · refine ⟨fun he => ?_, fun hne => ?_⟩
    · rw [hb.calls, hb.log]
      exact hs.idle (hb.idle.1 he)
    · rw [hb.calls, hb.call, hb.log]
      exact hs.running (mt hb.idle.2 hne)

end Steps

/-- Where the replies come from that the run has not lost, and those of its reports. -/
structure Sourced (s₀ : State) (acts : List Act) (s : State) : Prop where
  runs : Runs step Timely s₀ acts s
  counts : Counts s
  born : ∀ r ∈ pool s, Born s₀ acts s r
  reported : ∀ e ∈ s.log, ∀ r ∈ e.used, Answered s₀ acts e.number e.call r

section Runs
variable {caller : Caller} {hosts : ℕ → Bool} {acts : List Act} {s u : State} {a : Act}

theorem Born.extend {s₀ : State} {r : Reply} (h : Born s₀ acts s r) (hc : s.calls <+: u.calls)
    (hl : s.log.length ≤ u.log.length) (a : Act) : Born s₀ (acts ++ [a]) u r := by
  obtain ⟨front, i, rest, sm, p, request, hacts, hrun, hw, hcalls, hlog⟩ := h
  refine ⟨front, i, rest ++ [a], sm, p, request, ?_, hrun, hw, hcalls.trans hc, hlog.trans hl⟩
  rw [hacts, List.append_assoc, List.cons_append]

theorem Took.extend {s₀ : State} {number host : ℕ} {p : Provider} {q : Option Provider}
    (h : Took s₀ acts number host p q) (a : Act) : Took s₀ (acts ++ [a]) number host p q := by
  obtain ⟨front, i, rest, s, u, request, hacts, hrest⟩ := h
  exact ⟨front, i, rest ++ [a], s, u, request, by rw [hacts, List.append_assoc, List.cons_append],
    hrest⟩

theorem Answered.extend {s₀ : State} {number : ℕ} {c : Call} {r : Reply}
    (h : Answered s₀ acts number c r) (a : Act) : Answered s₀ (acts ++ [a]) number c r := by
  obtain ⟨p, q, request, htook, hrest⟩ := h
  exact ⟨p, q, request, htook.extend a, hrest⟩

theorem runs_counts (h : Runs step Timely (init caller hosts) acts s) : Counts s :=
  h.invariant Counts ⟨fun _ => rfl, fun hne => absurd rfl hne⟩
    fun _ _ _ hs _ hstep => step_counts hs hstep

theorem handle_daemon {i : ℕ} {r : Request} {p : Provider} (hr : s.requests[i]? = some r)
    (hp : s.daemons r.dst = some p) : ∃ u, handle s i = some u ∧
      u.daemons r.dst = (processData p r.data).result.toOption := by
  rw [handle, hr, Option.map_some]
  simp only [hp, Option.some.injEq, exists_eq_left', Function.update_self]

/-- A reply that a running call has read was written while it ran. -/
theorem Born.answered {r : Reply} (h : Born (init caller hosts) acts s r) (counts : Counts s)
    (hp : s.pc ≠ .idle) (hr : r.call = s.call) {c : Call} (hc : s.calls[s.call]? = some c) :
    Answered (init caller hosts) acts s.call c r := by
  obtain ⟨front, i, rest, sm, p, request, hacts, hfront, hw, hcalls, hlog⟩ := h
  obtain ⟨hlen, hcall⟩ := counts.running hp
  obtain ⟨c', hc', hd⟩ := (runs_inv hfront).requests _ (List.mem_of_getElem? hw.asked)
  obtain ⟨hlt, hget⟩ := List.getElem?_eq_some_iff.1 hc'
  have hsame : c' = c := by
    have hs := hcalls.getElem hlt
    rw [hget] at hs
    have := List.getElem?_eq_some_iff.2 ⟨hlt.trans_le hcalls.length_le, hs.symm⟩
    rw [hr, hc] at this
    exact (Option.some.inj this).symm
  have hduring : During sm s.call := by
    have hle : sm.calls.length ≤ sm.log.length + 1 := by
      by_cases hidle : sm.pc = .idle
      · exact ((runs_counts hfront).idle hidle).le.trans (Nat.le_succ _)
      · exact ((runs_counts hfront).running hidle).1.le
    have := hcalls.length_le
    change r.call < sm.calls.length at hlt
    constructor <;> omega
  obtain ⟨u, hu, hq⟩ := handle_daemon hw.asked hw.daemon
  refine ⟨p, _, request, ⟨front, i, rest, sm, u, request, hacts, hfront, hu, hduring, ?_,
    hw.daemon, hq⟩, hsame ▸ hd, hw.sent, rfl⟩
  rw [hw.asked, hr]

theorem runs_sourced (h : Runs step Timely (init caller hosts) acts s) :
    Sourced (init caller hosts) acts s := by
  refine h.history (Sourced (init caller hosts))
    ⟨.refl _, runs_counts (.refl _), (fun _ hr => nomatch hr), (fun _ he => nomatch he)⟩ ?_
  intro front s a u hs hg hstep
  obtain ⟨hcalls, hlog⟩ := step_grows hstep
  have hrun : Runs step Timely (init caller hosts) (front ++ [a]) u :=
    hs.runs.trans (.next hg hstep (.refl u))
  have hold : ∀ r ∈ pool s, Born (init caller hosts) (front ++ [a]) u r :=
    fun r hr => (hs.born r hr).extend hcalls hlog a
  have hpast : ∀ e ∈ s.log, ∀ r ∈ e.used,
      Answered (init caller hosts) (front ++ [a]) e.number e.call r :=
    fun e he r hr => (hs.reported e he r hr).extend a
  refine ⟨hrun, step_counts hs.counts hstep, ?_, ?_⟩
  · intro r hr
    rcases step_cases hstep with ⟨c, -, -, -, -, -, hpool⟩ | ⟨c, o, -, -, -, -, hpool⟩ | ⟨-, hpool⟩
    · exact hold r (hpool r hr)
    · exact hold r (hpool ▸ hr)
    · rcases hpool r hr with hr | ⟨i, p, request, rfl, hw⟩
      · exact hold r hr
      · exact ⟨front, i, [], s, p, request, rfl, hs.runs, hw, hcalls, hlog⟩
  · intro e he r hr
    rcases step_cases hstep with ⟨c, -, -, -, -, hl, -⟩ | ⟨c, o, hp, -, hc, hl, -⟩ | ⟨hb, -⟩
    · exact hpast e (hl ▸ he) r hr
    · rw [hl] at he
      rcases List.mem_append.1 he with he | he
      · exact hpast e he r hr
      · have hne : s.pc ≠ .idle := by
          rw [hp]
          nofun
        obtain rfl := List.mem_singleton.1 he
        have hcall : s.calls[s.call]? = some c := by
          have hin := (runs_inv hrun).log ⟨s.call, c, o, s.used⟩ (by rw [hl]; simp)
          exact hc ▸ hin.1
        have hown : r.call = s.call := (runs_inv hs.runs).ownUsed hne r hr
        have hborn : Born (init caller hosts) front s r :=
          hs.born r (mem_pool.2 (.inr (.inr hr)))
        exact (hborn.answered hs.counts hne hown hcall).extend a
    · exact hpast e (hb.log ▸ he) r hr

theorem Took.reached {number host : ℕ} {p : Provider} {q : Option Provider}
    (h : Took (init caller hosts) acts number host p q) : Reached p := by
  obtain ⟨front, i, rest, s, u, request, -, hfront, -, -, -, hp, -⟩ := h
  exact (runs_inv hfront).daemons host p hp

end Runs

section Entries

theorem coerce_of_valid {i : ServiceInfo} (h : i.Valid) : i.coerce = i := by
  obtain ⟨h1, h2, h3, h4⟩ := h
  unfold ServiceInfo.coerce
  rw [show Utf8Runes.coerce i.deviceName = i.deviceName from h1,
    show Utf8Runes.coerce i.serviceName = i.serviceName from h2,
    show Utf8Runes.coerce i.ip = i.ip from h3, show Utf8Runes.coerce i.info = i.info from h4]

theorem reached_history {p : Provider} (h : Reached p) : ∃ buffers, IsHistory buffers p ∧
    ∀ data ∈ buffers, data.length = udpCommBufLen :=
  h.imp fun _ hb => ⟨runBuffers_isHistory hb.2, hb.1⟩

theorem Reached.unique {p : Provider} (h : Reached p) : Unique pairOf p := by
  obtain ⟨buffers, hist, -⟩ := reached_history h
  exact hist.unique

/-- What a daemon lists it has decoded, so it is UTF-8. -/
theorem Reached.valid {p : Provider} (h : Reached p) {i : ServiceInfo} (hi : i ∈ p) : i.Valid := by
  obtain ⟨buffers, hist, hlen⟩ := reached_history h
  obtain ⟨k, ⟨data, hdata, head, hd, -⟩, -⟩ := (hist.mem_iff i).1 hi
  have hl := hlen data (List.mem_of_getElem? hdata)
  have hinfo := (decodeData_some hl hd).2.2
  rw [getServiceInfo_payload hl] at hinfo
  exact (ServiceInfo.unmarshal_bounds (Except.ok.inj hinfo)).1

/-- A daemon takes a packet that its own library built, or panics. -/
theorem processData_own {p : Provider} {action : UInt16} {i : ServiceInfo} {data : Bytes}
    (hc : jsonCost i < 65536) (hs : data ∈ (processData p (dataBuffer action i.marshal)).sent) :
    decodeData (dataBuffer action i.marshal) =
      .ok (some (headOf (dataBuffer action i.marshal), i.coerce)) := by
  by_cases hl : i.marshal.length ≤ payloadLen
  · exact decodeData_dataBuffer action hl
  · rw [← marshal_length] at hc
    have hover := checkAndGetServiceInfoHead_overlong action (Nat.lt_of_not_le hl) hc
    have hdec : decodeData (dataBuffer action i.marshal) = .error .sliceBounds := by
      rw [decodeData, hover]
      rfl
    rw [processData, hdec] at hs
    cases hs

theorem resultReply_noFoundData : resultReply noFoundData = .ok (false, serviceNoFound) := by
  have hd : noFoundData.length = udpCommBufLen := dataBuffer_length _ _
  have hl : (ResultInfo.marshal ⟨getValidStr serviceNoFound⟩).length ≤ payloadLen := by decide
  have ha : Accepted noFoundData := dataBuffer_accepted _ hl
  have hs : (headOf noFoundData).action ≠ Action.actionSucc.code := by
    rw [noFoundData, getResult, getResultData, headOf_dataBuffer]
    decide
  have ht : ResultInfo.unmarshal (textOf noFoundData) = some ⟨serviceNoFound⟩ := by
    have hget := getResultInfo_dataBuffer Action.actionFail.code hl
    change getResultInfo (payload noFoundData) = _ at hget
    rw [getResultInfo_payload hd] at hget
    exact Except.ok.inj hget
  rw [resultReply_fits hd fun _ => dataBuffer_len_fits _ hl, if_pos ha, if_neg hs, ht]
  rfl

end Entries

/-- What the result of a call says of a daemon that went from `p` to `q`. -/
inductive Says (p : Provider) : Option Provider → Call → Bool → Bytes → Prop where
  | registered (devName serviceName ip : Bytes) (port : UInt16) (info : Bytes) :
      Says p (some (putFront pairOf (registerInfo devName serviceName ip port info).coerce p))
        (.registerService devName serviceName ip port info) true []
  | unregistered (devName serviceName : Bytes)
      (present : Present pairOf (pairOf (unRegisterInfo devName serviceName).coerce) p) :
      Says p (some (delete pairOf (pairOf (unRegisterInfo devName serviceName).coerce) p))
        (.unRegisterService devName serviceName) true []
  | absent (devName serviceName : Bytes)
      (absent : ¬ Present pairOf (pairOf (unRegisterInfo devName serviceName).coerce) p) :
      Says p (some p) (.unRegisterService devName serviceName) false serviceNoFound

section Results
variable {p : Provider} {request data : Bytes} {succ : Bool} {failReason : Bytes}

theorem getRegisterService_eq (devName serviceName ip : Bytes) (port : UInt16) (info : Bytes) :
    getRegisterService devName serviceName ip port info =
      .ok (dataBuffer Action.registerService.code
        (registerInfo devName serviceName ip port info).marshal) := rfl

theorem getUnRegisterService_eq (devName serviceName : Bytes) :
    getUnRegisterService devName serviceName =
      .ok (dataBuffer Action.unregisterService.code (unRegisterInfo devName serviceName).marshal) :=
  rfl

theorem registerService_says {devName serviceName ip : Bytes} {port : UInt16} {info : Bytes}
    (hp : Unique pairOf p) (hq : getRegisterService devName serviceName ip port info = .ok request)
    (hs : data ∈ (processData p request).sent) (hr : resultReply data = .ok (succ, failReason)) :
    Says p (processData p request).result.toOption
      (.registerService devName serviceName ip port info) succ failReason := by
  rw [getRegisterService_eq] at hq
  obtain rfl := Except.ok.inj hq
  have hd := processData_own (registerInfo_jsonCost devName serviceName ip port info) hs
  have hreq : Requests .registerService
      (dataBuffer Action.registerService.code
        (registerInfo devName serviceName ip port info).marshal)
      (registerInfo devName serviceName ip port info).coerce := ⟨_, hd, by rw [headOf_dataBuffer]⟩
  rw [processData_register hreq] at hs ⊢
  have hdata : data = succData := List.mem_singleton.1 hs
  rw [hdata, resultReply_succData] at hr
  obtain ⟨rfl, rfl⟩ := Prod.mk.inj (Except.ok.inj hr)
  change Says p (some (addInfo _ p)) _ _ _
  rw [addInfo_eq_putFront hp]
  exact .registered devName serviceName ip port info

theorem unRegisterService_says {devName serviceName : Bytes} (hp : Unique pairOf p)
    (hq : getUnRegisterService devName serviceName = .ok request)
    (hs : data ∈ (processData p request).sent) (hr : resultReply data = .ok (succ, failReason)) :
    Says p (processData p request).result.toOption (.unRegisterService devName serviceName) succ
      failReason := by
  rw [getUnRegisterService_eq] at hq
  obtain rfl := Except.ok.inj hq
  have hc : jsonCost (unRegisterInfo devName serviceName) < 65536 := by
    rw [unRegisterInfo_eq]
    exact registerInfo_jsonCost devName serviceName [] 0 []
  have hd := processData_own hc hs
  have hreq : Requests .unregisterService
      (dataBuffer Action.unregisterService.code (unRegisterInfo devName serviceName).marshal)
      (unRegisterInfo devName serviceName).coerce := ⟨_, hd, by rw [headOf_dataBuffer]⟩
  rw [processData_unregister hreq] at hs ⊢
  rw [unregister_sent] at hs
  have hdata := List.mem_singleton.1 hs
  change Says p (some (removeByName _ _ p).2) _ _ _
  rw [removeByName_eq_delete hp]
  by_cases hpresent : Present pairOf (pairOf (unRegisterInfo devName serviceName).coerce) p
  · rw [hdata, if_pos hpresent, resultReply_succData] at hr
    obtain ⟨rfl, rfl⟩ := Prod.mk.inj (Except.ok.inj hr)
    exact .unregistered devName serviceName hpresent
  · rw [hdata, if_neg hpresent, resultReply_noFoundData] at hr
    obtain ⟨rfl, rfl⟩ := Prod.mk.inj (Except.ok.inj hr)
    change Says p (some (delete pairOf (pairOf _) p)) _ _ _
    rw [delete_eq_self pairOf hpresent]
    exact .absent devName serviceName hpresent

theorem call_says {c : Call} (hc : c.caller = .serverData) (hp : Unique pairOf p)
    (hq : c.sendData = .ok request) (hs : data ∈ (processData p request).sent)
    (hr : resultReply data = .ok (succ, failReason)) :
    Says p (processData p request).result.toOption c succ failReason := by
  cases c with
  | registerService devName serviceName ip port info => exact registerService_says hp hq hs hr
  | unRegisterService devName serviceName => exact unRegisterService_says hp hq hs hr
  | inquiryService serviceName => cases hc

/-- What an inquiry reads from a daemon's answer stands in the daemon's registry. -/
theorem inquiryReply_listed {serviceName : Bytes} {i : ServiceInfo} (hp : Reached p)
    (hq : getInquiryService serviceName = .ok request) (hs : data ∈ (processData p request).sent)
    (hr : inquiryReply data = .ok (some i)) :
    i ∈ p ∧ i.serviceName = (inquiryInfo serviceName).coerce.serviceName := by
  obtain ⟨head, hd, ha⟩ := requests_inquiry hq
  rw [processData_inquiry hd ha] at hs
  rcases mem_inquiry_sent hs with hf | ⟨e, he, hn, hdata⟩
  · rw [hf, inquiryReply_noFoundData] at hr
    cases Except.ok.inj hr
  · rw [hdata] at hr
    have hi := inquiryReply_serviceData (hp.countable e he) hr
    rw [coerce_of_valid (Reached.valid hp he)] at hi
    exact ⟨hi ▸ he, hi ▸ hn⟩

end Results

section Reports
variable (caller : Caller) (hosts : ℕ → Bool) (acts : List Act) (s : State)

/-- Every service that `InquiryService(n)` returns stood under the name `n` in the registry of
a daemon while the call ran. -/
theorem inquiry_reports (h : Runs step Timely (init caller hosts) acts s) (e : Report)
    (he : e ∈ s.log) (serviceName : Bytes) (hc : e.call = .inquiryService serviceName)
    (infos : List ServiceInfo) (ho : e.outcome = .infos infos) (i : ServiceInfo) (hi : i ∈ infos) :
    ∃ host p q, Took (init caller hosts) acts e.number host p q ∧ i ∈ p ∧
      i.serviceName = (inquiryInfo serviceName).coerce.serviceName := by
  obtain ⟨-, hcorr⟩ := reports_correlated caller hosts acts s h e he
  have hfrom := hcorr.outcome
  rw [ho, hc] at hfrom
  obtain rfl : infos = e.used.filterMap service := Outcome.infos.inj hfrom
  obtain ⟨r, hr, hs⟩ := List.mem_filterMap.1 hi
  obtain ⟨p, q, request, htook, hq, hsent, -⟩ := (runs_sourced h).reported e he r hr
  rw [hc] at hq
  have hread : inquiryReply r.data = .ok (some i) := by
    unfold service at hs
    split at hs
    · rename_i o ho
      rw [ho, hs]
    · cases hs
  exact ⟨r.src, p, q, htook, inquiryReply_listed htook.reached hq hsent hread⟩

/-- A registration or an unregistration that has returned read nothing, or says what a daemon
did with its registry while the call ran. -/
theorem result_reports (h : Runs step Timely (init caller hosts) acts s) (e : Report)
    (he : e ∈ s.log) (succ : Bool) (failReason : Bytes)
    (ho : e.outcome = .result succ failReason) :
    succ = false ∧ failReason = readNothing ∨
      ∃ host p q, Took (init caller hosts) acts e.number host p q ∧
        Says p q e.call succ failReason := by
  obtain ⟨-, hcorr⟩ := reports_correlated caller hosts acts s h e he
  have hfrom := hcorr.outcome
  rw [ho] at hfrom
  cases hcaller : e.call.caller with
  | clientData =>
    rw [hcaller] at hfrom
    cases hfrom
  | serverData =>
    rw [hcaller] at hfrom
    rcases hfrom with ⟨-, hnone⟩ | ⟨r, succ', reason, hused, hres, hr⟩
    · obtain ⟨rfl, rfl⟩ := Outcome.result.inj hnone
      exact .inl ⟨rfl, rfl⟩
    · obtain ⟨rfl, rfl⟩ := Outcome.result.inj hr
      have hmem : r ∈ e.used := by
        rw [hused]
        exact List.mem_singleton_self r
      obtain ⟨p, q, request, htook, hq, hsent, rfl⟩ := (runs_sourced h).reported e he r hmem
      exact .inr ⟨r.src, p, _, htook, call_says hcaller (Reached.unique htook.reached) hq hsent hres⟩

theorem result_reports_register : ∃ host p q,
    Took (init .serverData twoHosts) (requestActs ++ replyActs) 0 host p q ∧
      Says p q playMusicCall true [] := by
  have h := result_reports .serverData twoHosts _ registered (runs_answered.trans runs_registered)
    _ (List.mem_singleton_self _) true [] rfl
  exact h.resolve_left nofun

def playMusicSearch : Call := .inquiryService (ascii "play_music")

theorem processData_playMusicInquiry :
    processData [playMusic.coerce] playMusicInquiry =
      ⟨[serviceData playMusic.coerce], .ok [playMusic.coerce]⟩ := by
  rw [processData_inquiry decodeData_playMusicInquiry playMusicInquiry_action]
  rfl

theorem inquiryReply_playMusic :
    inquiryReply (serviceData playMusic.coerce) = .ok (some playMusic.coerce) := by
  have hl : playMusic.coerce.marshal.length ≤ payloadLen := by decide
  have hd : (serviceData playMusic.coerce).length = udpCommBufLen := dataBuffer_length _ _
  rw [inquiryReply_fits hd fun _ => dataBuffer_len_fits _ hl,
    if_pos ⟨dataBuffer_accepted _ hl, serviceData_action _⟩, serviceData_text hl]
  rfl

theorem other_eq {s : State} {host : ℕ} {data : Bytes} {p : Provider} {sent : List Bytes}
    {result : Except GoPanic Provider} (hd : data.length = udpCommBufLen)
    (hp : s.daemons host = some p) (hh : processData p data = ⟨sent, result⟩) :
    other s host data =
      some { s with daemons := Function.update s.daemons host result.toOption } := by
  rw [other, if_pos hd, hp, Option.map_some, hh]

theorem setRecEnd_eq {s : State} {r : Reply} {i : ServiceInfo} (hp : s.pc = .received)
    (hc : s.caller = .clientData) (hr : s.reply = some r)
    (hi : inquiryReply r.data = .ok (some i)) :
    setRecEnd s = some { s with pc := .reading, recEnd := true, infos := s.infos ++ [i] } := by
  rw [setRecEnd, if_pos hp, hc]
  simp only [examine, hr, hi]

/-- The daemon at host `1` lists the service, and its answer has been read. -/
def searched : State :=
  { init .clientData twoHosts with
    pc := .reading
    reply := some ⟨1, serviceData playMusic.coerce, 0⟩
    infos := [playMusic.coerce]
    recEnd := true
    subIP := 2
    sweeps := [⟨.check false, playMusicInquiry, 0⟩]
    daemons := Function.update (Function.update (init .clientData twoHosts).daemons
      1 (some [playMusic.coerce])) 1 (some [playMusic.coerce])
    calls := [playMusicSearch]
    used := [⟨1, serviceData playMusic.coerce, 0⟩] }

def searchActs : List Act :=
  [.other 1 playMusicRegister, .start playMusicSearch, .clearRecEnd, .sweep 0, .sweep 0, .sweep 0,
    .handle 0, .deliver 0, .read, .setRecEnd]

def endActs : List Act := [.timeout, .setRecEnd, .sweep 0, .sweep 0, .join]

def found : State :=
  { searched with
    pc := .idle
    reply := none
    sweeps := []
    log := [⟨0, playMusicSearch, .infos [playMusic.coerce],
      [⟨1, serviceData playMusic.coerce, 0⟩]⟩] }

theorem runs_searched : Runs step Timely (init .clientData twoHosts) searchActs searched := by
  refine .next trivial (other_eq (dataBuffer_length _ _) rfl processData_playMusicRegister) ?_
  refine .next rfl (start_eq rfl rfl rfl) ?_
  refine .next trivial rfl ?_
  refine .next trivial rfl ?_
  refine .next trivial rfl ?_
  refine .next trivial rfl ?_
  refine .next trivial (handle_eq rfl rfl processData_playMusicInquiry) ?_
  refine .next (fun _ _ h => Option.some.inj h ▸ rfl) rfl ?_
  refine .next trivial rfl ?_
  exact .next trivial (setRecEnd_eq rfl rfl rfl inquiryReply_playMusic) (.refl _)

theorem runs_found : Runs step Timely searched endActs found := by
  refine .next trivial rfl ?_
  refine .next trivial rfl ?_
  refine .next trivial rfl ?_
  refine .next trivial rfl ?_
  exact .next trivial (join_eq rfl Nat.zero_lt_one rfl rfl) (.refl _)

theorem inquiry_reports_playMusic : ∃ host p q,
    Took (init .clientData twoHosts) (searchActs ++ endActs) 0 host p q ∧ playMusic.coerce ∈ p ∧
      playMusic.coerce.serviceName = (inquiryInfo (ascii "play_music")).coerce.serviceName :=
  inquiry_reports .clientData twoHosts _ found (runs_searched.trans runs_found) _
    (List.mem_singleton_self _) (ascii "play_music") rfl [playMusic.coerce] rfl playMusic.coerce
    (List.mem_singleton_self _)

end Reports

section Discovered
variable (serviceName : Bytes)

/-- The packets go out up to the first slot that was not filled. -/
theorem sendServices_slots (p : Provider) :
    (sendServices (p.map (slot serviceName))).1 =
      (p.takeWhile (named serviceName)).map serviceData := by
  induction p with
  | nil => rfl
  | cons i p ih =>
    by_cases hn : named serviceName i = true
    · rw [List.map_cons, slot, if_pos hn, List.takeWhile_cons_of_pos hn, List.map_cons, ← ih]
      rfl
    · rw [List.map_cons, slot, if_neg hn, List.takeWhile_cons_of_neg hn]
      rfl

theorem inquiry_sent_eq (p : Provider) (info : ServiceInfo)
    (h : matching info.serviceName p ≠ []) :
    (inquiry p info).sent = (p.takeWhile (named info.serviceName)).map serviceData := by
  have hle : (p.takeWhile (named info.serviceName)).length ≤
      (matching info.serviceName p).length := (takeWhile_sublist_filter _ p).length_le
  rw [(inquiry_some p info h).1, getAll_eq, sendServices_slots, takeWhile_take _ hle]

/-- A service is told to whoever asks for its name exactly when every service that was
registered after it and is listed has the same name. -/
theorem inquiry_tells_iff (buffers : List Bytes) (p : Provider) (h : runBuffers buffers = .ok p)
    (data : Bytes) (info : ServiceInfo) (hq : Requests .inquiry data info)
    (hsome : ∃ i ∈ p, i.serviceName = info.serviceName) :
    ∃ told : List ServiceInfo, (processData p data).sent = told.map serviceData ∧ told <+: p ∧
      ∀ x, x ∈ told ↔ ∃ i, Current buffers i x ∧ ∀ j y, ¬ j < i → Current buffers j y →
        y.serviceName = info.serviceName := by
  obtain ⟨head, hd, ha⟩ := hq
  rw [processData_inquiry hd ha]
  refine ⟨_, inquiry_sent_eq p info (exists_key_iff.2 hsome), List.takeWhile_prefix _,
    fun x => ?_⟩
  rw [runBuffers_eq_replayFront h, mem_takeWhile_replayFront]
  simp only [current_iff_live, named, decide_eq_true_eq]

def playMusicBox2 : ServiceInfo :=
  ⟨ascii "box2", ascii "play_music", ascii "192.168.1.117", 6666, []⟩

/-- Music, photos and music again: the photos hide the first. -/
def mixedBuffers : List Bytes := [playMusic, showPhoto, playMusicBox2].map registerData

def mixedProvider : Provider := [playMusicBox2.coerce, showPhoto.coerce, playMusic.coerce]

theorem runBuffers_mixed : runBuffers mixedBuffers = .ok mixedProvider := by
  rw [mixedBuffers, runBuffers_registers (by decide)]
  exact congrArg Except.ok (by decide +kernel)

theorem inquiry_tells_iff_playMusic : ∃ told : List ServiceInfo,
    (processData mixedProvider playMusicInquiry).sent = told.map serviceData ∧
      told <+: mixedProvider ∧ ∀ x, x ∈ told ↔ ∃ i, Current mixedBuffers i x ∧
        ∀ j y, ¬ j < i → Current mixedBuffers j y →
          y.serviceName = (inquiryInfo (ascii "play_music")).coerce.serviceName :=
  inquiry_tells_iff mixedBuffers mixedProvider runBuffers_mixed playMusicInquiry _
    ⟨_, decodeData_playMusicInquiry, playMusicInquiry_action⟩
    ⟨playMusic.coerce, List.mem_of_elem_eq_true (by decide), by decide⟩

end Discovered

end MiniServiceDiscover.GoDiscovery
