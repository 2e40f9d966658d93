import MiniServiceDiscover.Daemons

set_option autoImplicit false

/-! An inquiry of any of the programs at any of the daemons: of which services it is told,
and which programs can read the answers. -/
namespace MiniServiceDiscover.Discovery
open KeyedList WordSum WireFormat ServiceWire Interop Daemons CProtocal JavaDaemon JavaProtocal

section Answers
variable (cj : CJson) (oj : OrgJson)

/-- The daemon runs through these packets, and answers the next one with what is sent. -/
def Answers (pkts : List (List UInt8)) (pkt : List UInt8) (sent : List (List UInt8)) :
    Program → Prop
  | .c => ∃ fuel l l', CRegistry.serves cj fuel pkts = .ok l ∧
      CDaemon.serverLoop cj fuel fuel l pkt = .ok (sent, l')
  | .go => ∃ p p', GoHistory.runBuffers pkts = .ok p ∧
      GoDaemon.processData p pkt = ⟨sent, .ok p'⟩
  | .java => (run oj (pkts.map signed)).running = true ∧
      (handle oj (run oj (pkts.map signed)).provider (signed pkt)).sending = ⟨sent.map signed, none⟩

end Answers

/-- The services in force with the name. -/
def found (name : Str) (services : List Service) : List Service := services.filter (named name)

/-- The services an inquiry is told of: in C and Go those up to the first of another name,
seen from the end where new ones are not put. -/
def told (name : Str) (services : List Service) : Program → List Service
  | .c => services.takeWhile (named name)
  | .go => services.reverse.takeWhile (named name)
  | .java => found name (services.take (found name services).length)

/-- Where the inquiry is told that nothing was found: the Java daemon counts first. -/
def Misses (name : Str) (services : List Service) : Program → Prop
  | .c => told name services .c = []
  | .go => told name services .go = []
  | .java => found name services = []

section Names
variable (name : Str)

theorem c_called (s : Service) :
    CHistory.called (some (CWire.cString name)) (CWire.infoOf s) = named name s := by
  refine decide_eq_decide.2 ⟨fun h => CWire.cString_injective (Option.some.inj h), fun h => ?_⟩
  subst h
  rfl

theorem go_named (s : Service) : GoProvider.named name.bytes (GoWire.infoOf s) = named name s := by
  refine decide_eq_decide.2 ⟨fun h => Str.bytes_injective h, fun h => ?_⟩
  subst h
  rfl

theorem java_called (s : Service) :
    JavaHistory.called (some (JavaWire.javaString name)) (JavaWire.infoOf s) = named name s := by
  refine decide_eq_decide.2 ⟨fun h => JavaWire.javaString_injective (Option.some.inj h), fun h => ?_⟩
  subst h
  rfl

theorem c_told (services : List Service) :
    (services.map CWire.infoOf).takeWhile (CHistory.called (some (CWire.cString name))) =
      (told name services .c).map CWire.infoOf := by
  rw [List.takeWhile_map]
  exact congrArg (List.map _) (congrArg (services.takeWhile ·) (funext (c_called name)))

theorem java_found (services : List Service) :
    (services.map JavaWire.infoOf).filter (JavaHistory.called (some (JavaWire.javaString name))) =
      (found name services).map JavaWire.infoOf := by
  rw [List.filter_map]
  exact congrArg (List.map _) (congrArg (services.filter ·) (funext (java_called name)))

theorem java_told (services : List Service) :
    JavaHistory.told (some (JavaWire.javaString name)) (services.map JavaWire.infoOf) =
      (told name services .java).map JavaWire.infoOf := by
  rw [JavaHistory.told, java_found, List.length_map, ← List.map_take, java_found]
  rfl

theorem go_matchesFirst (services : List Service) :
    MatchesFirst (GoProvider.named name.bytes) ((services.map GoWire.infoOf).reverse) ↔
      MatchesFirst (named name) services.reverse := by
  rw [← List.map_reverse, MatchesFirst, MatchesFirst, List.pairwise_map]
  simp only [go_named]

theorem go_matching (services : List Service) :
    GoProvider.matching name.bytes ((services.map GoWire.infoOf).reverse) =
      (found name services.reverse).map GoWire.infoOf := by
  rw [← List.map_reverse, GoProvider.matching, List.filter_map]
  exact congrArg (List.map _) (congrArg (services.reverse.filter ·) (funext (go_named name)))

/-- Nobody is told of a service that is not in force, or of another name. -/
theorem mem_told {services : List Service} {q : Program} {t : Service}
    (h : t ∈ told name services q) : t ∈ services ∧ t.name = name := by
  cases q with
  | c =>
    have hname : named name t = true := List.mem_takeWhile_imp h
    exact ⟨List.takeWhile_subset _ h, of_decide_eq_true hname⟩
  | go =>
    have hname : named name t = true := List.mem_takeWhile_imp h
    exact ⟨List.mem_reverse.1 (List.takeWhile_subset _ h), of_decide_eq_true hname⟩
  | java =>
    obtain ⟨htake, hname⟩ := List.mem_filter.1 h
    exact ⟨List.mem_of_mem_take htake, of_decide_eq_true hname⟩

end Names

section Requests
variable (cj : CJson) (oj : OrgJson)

/-- All that is sent is this outcome. -/
def Tells (isSucc : Bool) (reason : Str) (sent : List (List UInt8)) (q : Program) : Prop :=
  ∃ reply, sent = [reply] ∧ q.EncodesResult cj oj isSucc reason reply

/-- What a daemon that holds these services sends back. -/
def Replies (services : List Service) (q : Program) : Action → Service → List (List UInt8) → Prop
  | .registerService, _, sent => Tells cj oj true .empty sent q
  | .unregisterService, s, sent =>
      (Present key (key s) services → Tells cj oj true .empty sent q) ∧
        (¬ Present key (key s) services → Tells cj oj false noFound sent q)
  | .inquiry, s, sent =>
      (Misses s.name services q ∧ Tells cj oj false noFound sent q) ∨
        (¬ Misses s.name services q ∧
          List.Forall₂ (fun t reply => q.Encodes cj oj .actionSucc t reply)
            (told s.name services q) sent)
  | _, _, sent => sent = []

variable {cj oj} {pkts : List (List UInt8)} {requests : List (Option (Action × Service))}
  {pkt : List UInt8} {action : Action} {s : Service} {sent : List (List UInt8)}

theorem c_tells {isSucc : Bool} {reason : Str} {r : CString} (hr : r = CWire.cString reason)
    (h : CHistory.Answers cj isSucc r sent) : Tells cj oj isSucc reason sent .c := by
  subst hr
  obtain ⟨p, hp, hsent⟩ := h
  exact ⟨p, hsent, hp⟩

theorem java_tells {isSucc : Bool} {reason : Str} {r : JavaProvider.JavaString}
    (hr : r = JavaWire.javaString reason) (h : JavaHistory.Answers oj isSucc r (sent.map signed)) :
    Tells cj oj isSucc reason sent .java := by
  subst hr
  obtain ⟨p, hp, hsent⟩ := h
  obtain ⟨reply, rest, rfl, hreply, hrest⟩ := List.map_eq_cons_iff.1 hsent
  obtain rfl := List.map_eq_nil_iff.1 hrest
  obtain rfl := hreply
  exact ⟨reply, rfl, hp⟩

/-- An entry of a key in one of the forms is one of the registry. -/
theorem present_map {α κ : Type} {k : α → κ} {f : Service → α} {g : Str × Str → κ}
    (injective : Function.Injective g) (keys : ∀ s, k (f s) = g (key s)) (s : Service)
    (services : List Service) :
    Present k (k (f s)) (services.map f) ↔ Present key (key s) services := by
  constructor
  · rintro ⟨x, hx, hk⟩
    obtain ⟨t, ht, rfl⟩ := List.mem_map.1 hx
    rw [keys, keys] at hk
    exact ⟨t, ht, injective hk⟩
  · rintro ⟨t, ht, hk⟩
    exact ⟨f t, List.mem_map_of_mem ht, by rw [keys, keys, hk]⟩

theorem c_replies (json : ReadJson cj oj) (heard : List.Forall₂ (Heard cj oj) pkts requests)
    (asks : Heard cj oj pkt (some (action, s))) (h : Answers cj oj pkts pkt sent .c) :
    Replies cj oj (registry requests) .c action s sent := by
  obtain ⟨fuel, l, l', hserves, hloop⟩ := h
  have hreads : CRegistry.Requests cj pkt action (CWire.infoOf s) := asks.reads json .c
  have hhandles := (CHistory.serverLoop_returns (c_lists json heard hserves) hloop).2
  have hpresent := present_map (k := CListRefinement.nameKey) (f := CWire.infoOf) cKey_injective
    (fun _ => rfl) s (registry requests)
  have hnone : CProtocal.serviceNoFound = CWire.cString noFound := rfl
  have hother : ∀ a, a ≠ action → ∀ info, ¬ CRegistry.Requests cj pkt a info :=
    fun a ha info h' => ha (CHistory.requests_unique hreads h').1.symm
  cases action with
  | registerService => exact c_tells rfl (hhandles.register _ hreads)
  | unregisterService =>
    obtain ⟨hyes, hno⟩ := hhandles.unregister _ hreads
    exact ⟨fun hp => c_tells rfl (hyes (hpresent.2 hp)),
      fun hp => c_tells hnone (hno (mt hpresent.1 hp))⟩
  | inquiry =>
    obtain ⟨hno, hyes⟩ := hhandles.inquiry _ hreads
    rw [show (CWire.infoOf s).serviceName = some (CWire.cString s.name) from rfl,
      c_told] at hno hyes
    by_cases hnil : told s.name (registry requests) .c = []
    · exact .inl ⟨hnil, c_tells hnone (hno (List.map_eq_nil_iff.2 hnil))⟩
    · refine .inr ⟨hnil, ?_⟩
      have hall := List.forall₂_map_left_iff.1 (hyes (mt List.map_eq_nil_iff.1 hnil))
      exact hall.imp fun t reply hreply => CWire.Encodes.answer t hreply
  | actionSucc =>
    exact hhandles.rejected (hother _ (by decide)) (hother _ (by decide)) (hother _ (by decide))
  | actionFail =>
    exact hhandles.rejected (hother _ (by decide)) (hother _ (by decide)) (hother _ (by decide))

theorem java_replies (json : ReadJson cj oj) (heard : List.Forall₂ (Heard cj oj) pkts requests)
    (asks : Heard cj oj pkt (some (action, s))) (h : Answers cj oj pkts pkt sent .java) :
    Replies cj oj (registry requests) .java action s sent := by
  obtain ⟨hrunning, hsending⟩ := h
  have hreads : JavaHistory.Requests oj (signed pkt) action (JavaWire.infoOf s) :=
    asks.reads json .java
  have hunique : KeyedList.Unique JavaHistory.infoKey (run oj (pkts.map signed)).provider := by
    rw [(JavaHistory.run_history hrunning).2]
    exact replayBack_unique _ _
  have hhandles := (JavaHistory.handle_returns hunique (congrArg Sending.thrown hsending)).2
  rw [hsending, java_provider json heard hrunning] at hhandles
  have hpresent := present_map (k := JavaHistory.infoKey) (f := JavaWire.infoOf) javaKey_injective
    (fun _ => rfl) s (registry requests)
  have hnone : JavaDaemon.serviceNoFound = JavaWire.javaString noFound := rfl
  have hother : ∀ a, a ≠ action → ∀ info, ¬ JavaHistory.Requests oj (signed pkt) a info :=
    fun a ha info h' => ha (JavaHistory.requests_unique hreads h').1.symm
  cases action with
  | registerService => exact java_tells rfl (hhandles.register _ hreads)
  | unregisterService =>
    obtain ⟨hyes, hno⟩ := hhandles.unregister _ hreads
    exact ⟨fun hp => java_tells rfl (hyes (hpresent.2 hp)),
      fun hp => java_tells hnone (hno (mt hpresent.1 hp))⟩
  | inquiry =>
    obtain ⟨hno, hyes⟩ := hhandles.inquiry _ hreads
    rw [show (JavaWire.infoOf s).name = some (JavaWire.javaString s.name) from rfl,
      java_found] at hno hyes
    by_cases hnil : found s.name (registry requests) = []
    · exact .inl ⟨hnil, java_tells hnone (hno (List.map_eq_nil_iff.2 hnil))⟩
    · refine .inr ⟨hnil, ?_⟩
      have hall := hyes (mt List.map_eq_nil_iff.1 hnil)
      rw [java_told, List.forall₂_map_left_iff, List.forall₂_map_right_iff] at hall
      exact hall.imp fun t reply hreply => JavaWire.Encodes.answer t hreply
  | actionSucc =>
    exact List.map_eq_nil_iff.1
      (hhandles.rejected (hother _ (by decide)) (hother _ (by decide)) (hother _ (by decide)))
  | actionFail =>
    exact List.map_eq_nil_iff.1
      (hhandles.rejected (hother _ (by decide)) (hother _ (by decide)) (hother _ (by decide)))

/-- What the Go daemon answers to an inquiry, and when it does. -/
theorem go_inquiry {p p' : GoProvider.Provider} {services : List Service}
    (hp : p = (services.map GoWire.infoOf).reverse)
    (h : GoDaemon.inquiry p (GoWire.infoOf s) = ⟨sent, .ok p'⟩) :
    MatchesFirst (named s.name) services.reverse ∧ Replies cj oj services .go .inquiry s sent := by
  subst hp
  have hfirst : MatchesFirst (GoProvider.named s.name.bytes)
      (services.map GoWire.infoOf).reverse := by
    by_contra hlate
    have hpanic := GoInquiry.inquiry_panics _ (GoWire.infoOf s) hlate
    rw [h] at hpanic
    cases hpanic
  have hmatches := (go_matchesFirst s.name services).1 hfirst
  have htold : told s.name services .go = found s.name services.reverse :=
    (takeWhile_eq_filter_iff _ _).2 hmatches
  have hmatching := go_matching s.name services
  refine ⟨hmatches, ?_⟩
  rw [Replies, Misses, htold]
  by_cases hnil : found s.name services.reverse = []
  · rw [hnil] at hmatching
    rw [GoInquiry.inquiry_none _ (GoWire.infoOf s) hmatching] at h
    obtain ⟨rfl, -⟩ := GoDaemon.Handled.mk.inj h
    exact .inl ⟨hnil, _, rfl, noFound_encoded⟩
  · have hanswered := GoInquiry.inquiry_matchesFirst _ (GoWire.infoOf s) hfirst
    rw [h] at hanswered
    have hex : ∃ i ∈ (services.map GoWire.infoOf).reverse, i.serviceName = s.name.bytes := by
      by_contra hno
      rw [(GoInquiry.matching_nil_iff _ s.name.bytes).2 fun i hi hn => hno ⟨i, hi, hn⟩] at hmatching
      exact hnil (List.map_eq_nil_iff.1 hmatching.symm)
    have hsent : sent = (GoProvider.matching s.name.bytes _).map GoDaemon.serviceData :=
      hanswered.services hex
    refine .inr ⟨hnil, ?_⟩
    rw [hsent, hmatching, List.map_map, List.forall₂_map_right_iff, List.forall₂_same]
    exact fun t _ => GoWire.Encodes.answer t rfl

theorem go_quiet {p p' : GoProvider.Provider} {info : GoJson.ServiceInfo}
    (hreads : GoHistory.Requests action pkt info) (hreg : action ≠ .registerService)
    (hunreg : action ≠ .unregisterService) (hinq : action ≠ .inquiry)
    (h : GoDaemon.processData p pkt = ⟨sent, .ok p'⟩) : sent = [] := by
  rcases GoHistory.processData_cases p pkt with ⟨e, he⟩ | he | ⟨i, hi, -⟩ | ⟨i, hi, -⟩ | ⟨i, hi, -⟩
  · rw [he] at h
    cases h
  · rw [he] at h
    exact (GoDaemon.Handled.mk.inj h).1.symm
  · exact absurd (go_requests_unique hreads hi).1 hreg
  · exact absurd (go_requests_unique hreads hi).1 hunreg
  · exact absurd (go_requests_unique hreads hi).1 hinq

theorem go_replies (json : ReadJson cj oj) (heard : List.Forall₂ (Heard cj oj) pkts requests)
    (asks : Heard cj oj pkt (some (action, s))) (h : Answers cj oj pkts pkt sent .go) :
    Replies cj oj (registry requests) .go action s sent := by
  obtain ⟨p, p', hruns, hprocess⟩ := h
  have hreads : GoHistory.Requests action pkt (GoWire.infoOf s) := asks.reads json .go
  have hprovider := go_provider json heard hruns
  have hsucc : Program.go.EncodesResult cj oj true .empty GoDaemon.succData := ⟨by decide, rfl⟩
  cases action with
  | registerService =>
    rw [GoHistory.processData_register hreads] at hprocess
    obtain ⟨rfl, -⟩ := GoDaemon.Handled.mk.inj hprocess
    exact ⟨_, rfl, hsucc⟩
  | unregisterService =>
    have hpresent := present_map (k := GoProvider.pairOf) (f := GoWire.infoOf) goKey_injective
      (fun _ => rfl) s (registry requests)
    have hsent := GoHistory.unregister_sent p (GoWire.infoOf s)
    rw [GoHistory.processData_unregister hreads] at hprocess
    rw [hprocess] at hsent
    have hmem : Present GoProvider.pairOf (GoProvider.pairOf (GoWire.infoOf s)) p ↔
        Present key (key s) (registry requests) := by
      rw [← hpresent, hprovider, Present, Present]
      simp only [List.mem_reverse]
    refine ⟨fun hp => ⟨_, ?_, hsucc⟩, fun hp => ⟨_, ?_, noFound_encoded⟩⟩
    · rw [if_pos (hmem.2 hp)] at hsent
      exact hsent
    · rw [if_neg (mt hmem.1 hp)] at hsent
      exact hsent
  | inquiry =>
    obtain ⟨head, hdecode, haction⟩ := hreads
    rw [GoInquiry.processData_inquiry hdecode haction] at hprocess
    exact (go_inquiry hprovider hprocess).2
  | actionSucc => exact go_quiet hreads (by decide) (by decide) (by decide) hprocess
  | actionFail => exact go_quiet hreads (by decide) (by decide) (by decide) hprocess

theorem answers_replies (json : ReadJson cj oj) (heard : List.Forall₂ (Heard cj oj) pkts requests)
    (asks : Heard cj oj pkt (some (action, s))) {q : Program}
    (h : Answers cj oj pkts pkt sent q) : Replies cj oj (registry requests) q action s sent := by
  cases q with
  | c => exact c_replies json heard asks h
  | go => exact go_replies json heard asks h
  | java => exact java_replies json heard asks h

end Requests

/-- Each service of the name is answered for once, and nothing else; where there is none,
the answer is that it was not found. -/
def Complete (cj : CJson) (oj : OrgJson) (name : Str) (services : List Service) (q : Program)
    (sent : List (List UInt8)) : Prop :=
  (found name services = [] ∧ Tells cj oj false noFound sent q) ∨
    (found name services ≠ [] ∧ ∃ ts, ts.Perm (found name services) ∧
      List.Forall₂ (fun t reply => q.Encodes cj oj .actionSucc t reply) ts sent)

section Told
variable {cj : CJson} {oj : OrgJson} {services : List Service} {s t : Service}
  {sent : List (List UInt8)}

/-- A daemon that tells of all of them is complete. -/
theorem complete_of_told {q : Program} (h : Replies cj oj services q .inquiry s sent)
    (htold : (told s.name services q).Perm (found s.name services)) :
    Complete cj oj s.name services q sent := by
  have hnil : told s.name services q = [] ↔ found s.name services = [] := by
    rw [← List.length_eq_zero_iff, htold.length_eq, List.length_eq_zero_iff]
  have hmiss : Misses s.name services q ↔ found s.name services = [] := by
    cases q with
    | c => exact hnil
    | go => exact hnil
    | java => exact Iff.rfl
  rcases h with ⟨hm, htells⟩ | ⟨hm, hall⟩
  · exact .inl ⟨hmiss.1 hm, htells⟩
  · exact .inr ⟨mt hmiss.2 hm, _, htold, hall⟩

/-- In C no packet is both an outcome and a service. -/
theorem c_result_ne_answer {pkt : List UInt8}
    (h : Program.c.EncodesResult cj oj false noFound pkt) :
    ¬ Program.c.Encodes cj oj .actionSucc t pkt := by
  intro hanswer
  have hencodes : CWire.Encodes cj .actionSucc t pkt := hanswer
  cases hencodes with
  | answer _ hpkt =>
    obtain ⟨_, _, _, _, -, -, -, -, hfill⟩ := CInquiry.getInquiryResultPkt_eq_ok.1 hpkt
    obtain ⟨_, -, hresult⟩ := Fallible.bind_eq_ok.1 h
    have hactions : Action.actionFail.code = Action.actionSucc.code :=
      (CInquiry.fillPkt_action hresult).symm.trans (CInquiry.fillPkt_action hfill)
    cases Action.code_injective hactions

/-- The C daemon is complete exactly when it tells of every service of the name. -/
theorem c_complete_iff (h : Replies cj oj services .c .inquiry s sent) :
    Complete cj oj s.name services .c sent ↔
      told s.name services .c = found s.name services := by
  have hsub : (told s.name services .c).Sublist (found s.name services) :=
    takeWhile_sublist_filter (named s.name) services
  constructor
  · rintro (⟨hnil, -⟩ | ⟨hne, ts, hperm, hts⟩)
    · rw [hnil] at hsub ⊢
      exact List.sublist_nil.1 hsub
    · rcases h with ⟨-, reply, rfl, hresult⟩ | ⟨-, hall⟩
      · obtain ⟨t, _, hanswer, -, -⟩ := List.forall₂_cons_right_iff.1 hts
        exact absurd hanswer (c_result_ne_answer hresult)
      · exact hsub.eq_of_length_le (hperm.length_eq.symm.trans
          (hts.length_eq.trans hall.length_eq.symm)).le
  · intro htold
    exact complete_of_told h (.of_eq htold)

end Told

section Completeness
variable {cj : CJson} {oj : OrgJson} {pkts : List (List UInt8)}
  {requests : List (Option (Action × Service))} {pkt : List UInt8} {s : Service}

/-- The Go daemon answers exactly when the services asked for stand last of all. -/
theorem go_answers_iff (json : ReadJson cj oj) (heard : List.Forall₂ (Heard cj oj) pkts requests)
    (asks : Heard cj oj pkt (some (.inquiry, s))) {p : GoProvider.Provider}
    (alive : GoHistory.runBuffers pkts = .ok p) :
    (∃ sent, Answers cj oj pkts pkt sent .go) ↔
      MatchesFirst (named s.name) (registry requests).reverse := by
  obtain ⟨head, hdecode, haction⟩ : GoHistory.Requests .inquiry pkt (GoWire.infoOf s) :=
    asks.reads json .go
  constructor
  · rintro ⟨sent, p', p'', hruns, hprocess⟩
    rw [GoInquiry.processData_inquiry hdecode haction] at hprocess
    exact (@go_inquiry cj oj _ _ _ _ _ (go_provider json heard hruns) hprocess).1
  intro hlast
  have hfirst : MatchesFirst (GoProvider.named s.name.bytes) p := by
    rw [go_provider json heard alive]
    exact (go_matchesFirst s.name (registry requests)).2 hlast
  have hresult := (GoInquiry.inquiry_matchesFirst p (GoWire.infoOf s) hfirst).noPanic
  refine ⟨(GoDaemon.inquiry p (GoWire.infoOf s)).sent, p, p, alive, ?_⟩
  rw [GoInquiry.processData_inquiry hdecode haction]
  exact congrArg (GoDaemon.Handled.mk _) hresult

theorem java_told_all {name : Str} {services : List Service}
    (h : MatchesFirst (named name) services) :
    told name services .java = found name services := by
  have htake : services.take (found name services).length = found name services :=
    (take_count_eq_filter_iff _ services).2 h
  rw [told, htake]
  exact List.filter_eq_self.2 fun t ht => (List.mem_filter.1 ht).2

end Completeness

section Registrations
variable {cj : CJson} {oj : OrgJson} {pkts : List (List UInt8)} {services : List Service}
  {pkt : List UInt8} {s : Service}

def registrations (services : List Service) : List (Option (Action × Service)) :=
  services.map fun s => some (.registerService, s)

/-- A C daemon that has heard only registrations answers, if the services fit its packets. -/
theorem c_answers (json : ReadJson cj oj)
    (heard : List.Forall₂ (Heard cj oj) pkts (registrations services))
    (asks : Heard cj oj pkt (some (.inquiry, s)))
    (fits : ∀ t ∈ services, CInquiry.Encodable cj (CWire.infoOf t)) :
    ∃ sent, Answers cj oj pkts pkt sent .c := by
  let named (t : Service) : CList.NamedInfo :=
    ⟨CWire.infoOf t, CWire.cString t.device, CWire.cString t.name, rfl, rfl⟩
  have hrequests : List.Forall₂ (fun pkt (i : CList.NamedInfo) =>
      CRegistry.Requests cj pkt .registerService i.info) pkts (services.map named) := by
    rw [List.forall₂_map_right_iff]
    exact (List.forall₂_map_right_iff.1 heard).imp fun _ t ht => ht.reads json .c
  obtain ⟨l, sent, hserves, hloop⟩ := CHistory.inquiry_answered json.documented hrequests
    (Nat.lt_succ_self _) (asks.reads json .c) rfl (List.forall_mem_map.2 fits)
  exact ⟨sent, _, l, l, hserves, hloop⟩

theorem java_answers (json : ReadJson cj oj) (results : JavaInquiry.ResultsFit oj)
    (heard : List.Forall₂ (Heard cj oj) pkts (registrations services))
    (asks : Heard cj oj pkt (some (.inquiry, s)))
    (fits : ∀ t ∈ services, (oj.print (serviceMap (JavaWire.infoOf t))).length ≤ payloadLen) :
    ∃ sent, Answers cj oj pkts pkt sent .java := by
  let named (t : Service) : JavaProvider.NamedInfo :=
    ⟨JavaWire.infoOf t, JavaWire.javaString t.device, JavaWire.javaString t.name, rfl, rfl⟩
  have hregisters : ∀ d ∈ pkts.map signed,
      JavaHistory.RegistersOne oj (services.map named) d := by
    intro d hd
    obtain ⟨pkt, hpkt, rfl⟩ := List.mem_map.1 hd
    obtain ⟨t, ht, hheard⟩ := exists_of_forall₂ (List.forall₂_map_right_iff.1 heard).flip hpkt
    exact ⟨named t, List.mem_map_of_mem ht, (signed_length pkt).trans (hheard.length json),
      hheard.reads json .java⟩
  obtain ⟨hrunning, hdone⟩ := JavaHistory.inquiry_finishes results hregisters (asks.reads json .java)
    rfl (List.forall_mem_map.2 fits)
  refine ⟨(handle oj (run oj (pkts.map signed)).provider (signed pkt)).sending.sent.map unsigned,
    hrunning, ?_⟩
  rw [List.map_map, funext JavaRequest.signed_unsigned (f := signed ∘ unsigned), List.map_id',
    ← hdone]

end Registrations

/-- Whichever daemon hears a request, it answers from the one registry, and tells of no
service that is not in force, or of another name. -/
theorem answers_from_registry (cj : CJson) (oj : OrgJson) (json : ReadJson cj oj)
    (pkts : List (List UInt8)) (requests : List (Option (Action × Service)))
    (heard : List.Forall₂ (Heard cj oj) pkts requests) (pkt : List UInt8) (action : Action)
    (s : Service) (asks : Heard cj oj pkt (some (action, s))) (q : Program)
    (sent : List (List UInt8)) (answers : Answers cj oj pkts pkt sent q) :
    Replies cj oj (registry requests) q action s sent ∧
      ∀ t ∈ told s.name (registry requests) q, t ∈ registry requests ∧ t.name = s.name :=
  ⟨answers_replies json heard asks answers, fun _ ht => mem_told s.name ht⟩

/-- All three daemons answer for every service of a name exactly when all services in force
have the name, or none has. -/
theorem every_daemon_tells_iff (cj : CJson) (oj : OrgJson) (json : ReadJson cj oj)
    (pkts : List (List UInt8)) (requests : List (Option (Action × Service)))
    (heard : List.Forall₂ (Heard cj oj) pkts requests) (pkt : List UInt8) (s : Service)
    (asks : Heard cj oj pkt (some (.inquiry, s))) (p : GoProvider.Provider)
    (alive : GoHistory.runBuffers pkts = .ok p) (sentC sentJava : List (List UInt8))
    (answersC : Answers cj oj pkts pkt sentC .c)
    (answersJava : Answers cj oj pkts pkt sentJava .java) :
    (Complete cj oj s.name (registry requests) .c sentC ∧
        Complete cj oj s.name (registry requests) .java sentJava ∧
        ∃ sent, Answers cj oj pkts pkt sent .go ∧
          Complete cj oj s.name (registry requests) .go sent) ↔
      (∀ t ∈ registry requests, t.name = s.name) ∨ ∀ t ∈ registry requests, t.name ≠ s.name := by
  have hnames := matchesFirst_reverse_iff (named s.name) (registry requests)
  simp only [named, decide_eq_true_eq] at hnames
  have hgo := go_answers_iff json heard asks alive
  have hc := c_complete_iff (answers_replies json heard asks answersC)
  constructor
  · rintro ⟨hcomplete, -, sent, hanswers, -⟩
    exact hnames.1 ⟨(takeWhile_eq_filter_iff _ _).1 (hc.1 hcomplete), hgo.1 ⟨sent, hanswers⟩⟩
  · intro h
    obtain ⟨hfirst, hlast⟩ := hnames.2 h
    obtain ⟨sent, hanswers⟩ := hgo.2 hlast
    have hreversed : told s.name (registry requests) .go =
        (found s.name (registry requests)).reverse :=
      ((takeWhile_eq_filter_iff _ _).2 hlast).trans List.filter_reverse
    refine ⟨hc.2 ((takeWhile_eq_filter_iff _ _).2 hfirst), ?_, sent, hanswers, ?_⟩
    · exact complete_of_told (answers_replies json heard asks answersJava)
        (.of_eq (java_told_all hfirst))
    · refine complete_of_told (answers_replies json heard asks hanswers) ?_
      rw [hreversed]
      exact List.reverse_perm _

section Examples
open CJsonText JavaUnicodeText

def musicAsked : Service := ⟨.empty, boxMusic.name, .empty, .empty, 0⟩

def musicInquiry : List UInt8 := goPacket .inquiry musicAsked

theorem musicInquiry_encoded {cj : CJson} {oj : OrgJson} :
    Program.go.Encodes cj oj .inquiry musicAsked musicInquiry :=
  .inquiry boxMusic.name ⟨by decide, by decide, by decide, by decide⟩ rfl

theorem musicInquiry_plain : (0 : UInt8) ∈ payload musicInquiry ∧
    highCount (payload musicInquiry) % 256 = 0 := by
  have hroom : (GoWire.infoOf musicAsked).marshal.length < payloadLen := by decide
  have hplain : highCount (GoWire.infoOf musicAsked).marshal = 0 := by decide +kernel
  rw [musicInquiry]
  exact goPacket_plain hroom hplain

theorem musicInquiry_heard :
    Heard textCJson unicodeJson musicInquiry (some (.inquiry, musicAsked)) :=
  .sent .go musicInquiry_encoded musicInquiry_plain.1 musicInquiry_plain.2

theorem musicInquiry_answered : Answers textCJson unicodeJson [boxMusicRegister] musicInquiry
    [goPacket .actionSucc boxMusic] .go := by
  obtain ⟨head, hdecode, haction⟩ :
      GoHistory.Requests .inquiry musicInquiry (GoWire.infoOf musicAsked) :=
    musicInquiry_heard.reads textLibraries .go
  have hanswered := GoInquiry.inquiry_matchesFirst [GoWire.infoOf boxMusic]
    (GoWire.infoOf musicAsked) (List.pairwise_singleton _ _)
  have hmatching := go_matching boxMusic.name [boxMusic]
  have hsent := hanswered.services ⟨_, List.mem_singleton_self _, rfl⟩
  refine ⟨_, [GoWire.infoOf boxMusic], boxMusic_alive, ?_⟩
  rw [GoInquiry.processData_inquiry hdecode haction]
  exact congrArg₂ GoDaemon.Handled.mk (hsent.trans (congrArg _ hmatching)) hanswered.noPanic

theorem answers_from_registry_boxMusic : Replies textCJson unicodeJson [boxMusic] .go .inquiry
    musicAsked [goPacket .actionSucc boxMusic] :=
  (answers_from_registry _ _ textLibraries _ _ boxMusic_heard _ _ _ musicInquiry_heard .go _
    musicInquiry_answered).1

/-- Between two music services stands a photo service. -/
def mixed : List Service :=
  [boxMusic, { boxMusic with name := ⟨"show_photo".toList, by decide⟩ },
    { boxMusic with device := ⟨"box2".toList, by decide⟩ }]

def mixedPkts : List (List UInt8) := mixed.map (goPacket .registerService)

theorem mixed_short : ∀ s ∈ mixed, GoWire.Short s := by
  have hshort : ∀ s ∈ mixed, s.device.bytes.length ≤ GoProtocal.infoMaxLen ∧
      s.name.bytes.length ≤ GoProtocal.infoMaxLen ∧ s.ip.bytes.length ≤ GoProtocal.infoMaxLen ∧
      s.info.bytes.length ≤ GoProtocal.infoMaxLen := by decide
  intro s hs
  obtain ⟨hdevice, hname, hip, hinfo⟩ := hshort s hs
  exact ⟨hdevice, hname, hip, hinfo⟩

theorem mixed_plain : ∀ s ∈ mixed, (GoWire.infoOf s).marshal.length < payloadLen ∧
    highCount (GoWire.infoOf s).marshal = 0 := by decide +kernel

theorem mixed_heard :
    List.Forall₂ (Heard textCJson unicodeJson) mixedPkts (registrations mixed) := by
  rw [mixedPkts, registrations, List.forall₂_map_left_iff, List.forall₂_map_right_iff,
    List.forall₂_same]
  intro s hs
  obtain ⟨hroom, hplain⟩ := mixed_plain s hs
  obtain ⟨hzero, hcount⟩ := @goPacket_plain .registerService _ hroom hplain
  exact .sent .go (goRegister_encoded (mixed_short s hs)) hzero hcount

theorem mixed_alive : ∃ p, GoHistory.runBuffers mixedPkts = .ok p := by
  have hroom : ∀ i ∈ mixed.map GoWire.infoOf, i.marshal.length ≤ payloadLen :=
    List.forall_mem_map.2 fun s hs => (mixed_plain s hs).1.le
  have hpkts : mixedPkts = (mixed.map GoWire.infoOf).map GoHistory.registerData := by
    rw [List.map_map]
    rfl
  rw [hpkts]
  exact ⟨_, GoHistory.runBuffers_registers hroom⟩

theorem mixed_encodable : ∀ s ∈ mixed, CInquiry.Encodable textCJson (CWire.infoOf s) := by
  have hfits : ∀ s ∈ mixed, (CWire.cString s.device).bytes.length < infoMaxLen ∧
      (CWire.cString s.name).bytes.length < infoMaxLen ∧
      (CWire.cString s.ip).bytes.length < infoMaxLen ∧
      (CWire.cString s.info).bytes.length < infoMaxLen ∧
      (textCJson.print (CWire.rootOf s)).bytes.length ≤ payloadLen := by decide +kernel
  exact fun s hs => ⟨_, _, _, _, rfl, hfits s hs⟩

theorem mixed_fits : ∀ s ∈ mixed,
    (unicodeJson.print (serviceMap (JavaWire.infoOf s))).length ≤ payloadLen := by decide +kernel

theorem unicodeJson_resultsFit : JavaInquiry.ResultsFit unicodeJson := by
  unfold JavaInquiry.ResultsFit
  decide +kernel

theorem registry_mixed : registry (registrations mixed) = mixed := by decide +kernel

theorem every_daemon_tells_iff_mixed : ∃ p sentC sentJava,
    GoHistory.runBuffers mixedPkts = .ok p ∧
    Answers textCJson unicodeJson mixedPkts musicInquiry sentC .c ∧
    Answers textCJson unicodeJson mixedPkts musicInquiry sentJava .java ∧
    ((Complete textCJson unicodeJson musicAsked.name mixed .c sentC ∧
        Complete textCJson unicodeJson musicAsked.name mixed .java sentJava ∧
        ∃ sent, Answers textCJson unicodeJson mixedPkts musicInquiry sent .go ∧
          Complete textCJson unicodeJson musicAsked.name mixed .go sent) ↔
      (∀ t ∈ mixed, t.name = musicAsked.name) ∨ ∀ t ∈ mixed, t.name ≠ musicAsked.name) := by
  obtain ⟨p, alive⟩ := mixed_alive
  obtain ⟨sentC, hc⟩ := c_answers textLibraries mixed_heard musicInquiry_heard mixed_encodable
  obtain ⟨sentJava, hjava⟩ := java_answers textLibraries unicodeJson_resultsFit mixed_heard
    musicInquiry_heard mixed_fits
  have hiff := every_daemon_tells_iff _ _ textLibraries _ _ mixed_heard _ _ musicInquiry_heard p
    alive sentC sentJava hc hjava
  rw [registry_mixed] at hiff
  exact ⟨p, sentC, sentJava, alive, hc, hjava, hiff⟩

end Examples

end MiniServiceDiscover.Discovery
