import Mathlib.Logic.Relation
import MiniServiceDiscover.Discovery

set_option autoImplicit false

/-! Clients, servers and daemons of the three programs on one net, whose datagrams are lost,
delayed, repeated and put in any order. -/
namespace MiniServiceDiscover.Network
open KeyedList WordSum WireFormat ServiceWire Interop Daemons Discovery CProtocal JavaDaemon

/-- A packet that a client or a server sends from its socket, to any hosts and any times. -/
structure Call where
  socket : ℕ
  action : Action
  service : Service
  packet : List UInt8

structure Reply where
  socket : ℕ
  packet : List UInt8

/-- What the daemon of a host has heard, and what it was asked by it. -/
structure Host where
  packets : List (List UInt8)
  requests : List (Option (Action × Service))

/-- `found` is what the clients have read, `outcomes` what the servers have. -/
structure Net where
  calls : List Call
  host : ℕ → Host
  replies : List Reply
  found : List (ℕ × Service)
  outcomes : List (ℕ × Bool)

def init : Net := ⟨[], fun _ => ⟨[], []⟩, [], [], []⟩

/-- Which programs own the sockets and run on the hosts. -/
structure Setup where
  owner : ℕ → Program
  isClient : ℕ → Bool
  daemon : ℕ → Program

/-- The host has heard one packet more. -/
def Net.heard (n : Net) (i : ℕ) (packet : List UInt8) (request : Option (Action × Service))
    (replies : List Reply) : Net :=
  { n with
    host := Function.update n.host i
      ⟨(n.host i).packets ++ [packet], (n.host i).requests ++ [request]⟩
    replies := n.replies ++ replies }

section Steps
variable (cj : CJson) (oj : OrgJson) (u : Setup)

inductive Step : Net → Net → Prop where
  /-- Clients inquire, servers do all else. -/
  | call {n : Net} (c : Call)
      (encoded : (u.owner c.socket).Encodes cj oj c.action c.service c.packet)
      (room : (0 : UInt8) ∈ payload c.packet) (plain : highCount (payload c.packet) % 256 = 0)
      (kind : c.action = .inquiry ↔ u.isClient c.socket = true) :
      Step n { n with calls := n.calls ++ [c] }
  /-- A host hears a call, once more or for the first time, and answers its socket. -/
  | hear {n : Net} (i : ℕ) {c : Call} (called : c ∈ n.calls) {sent : List (List UInt8)}
      (answers : Answers cj oj (n.host i).packets c.packet sent (u.daemon i)) :
      Step n (n.heard i c.packet (some (c.action, c.service)) (sent.map (Reply.mk c.socket)))
  /-- A host hears a packet of somebody else that registers nothing. -/
  | noise {n : Net} (i : ℕ) {packet : List UInt8} (ignored : Heard cj oj packet none)
      {sent : List (List UInt8)}
      (answers : Answers cj oj (n.host i).packets packet sent (u.daemon i)) :
      Step n (n.heard i packet none [])
  | find {n : Net} {r : Reply} {t : Service} (arrives : r ∈ n.replies)
      (client : u.isClient r.socket = true)
      (reads : (u.owner r.socket).Reads cj oj .actionSucc t r.packet) :
      Step n { n with found := n.found ++ [(r.socket, t)] }
  | learn {n : Net} {r : Reply} {isSucc : Bool} {reason : Str} (arrives : r ∈ n.replies)
      (server : u.isClient r.socket = false)
      (reads : (u.owner r.socket).ReadsResult cj oj isSucc reason r.packet) :
      Step n { n with outcomes := n.outcomes ++ [(r.socket, isSucc)] }

end Steps

section Invariant
variable (cj : CJson) (oj : OrgJson) (u : Setup)

/-- After these requests, the host has heard this one. -/
def After (n : Net) (i : ℕ) (before : List (Option (Action × Service))) (c : Call) : Prop :=
  (before ++ [some (c.action, c.service)]) <+: (n.host i).requests

/-- Whose call the reply answers, and from which registry. -/
def Sourced (n : Net) (r : Reply) : Prop :=
  ∃ c ∈ n.calls, c.socket = r.socket ∧ ∃ i before sent, After n i before c ∧
    Replies cj oj (registry before) (u.daemon i) c.action c.service sent ∧ r.packet ∈ sent

structure Inv (n : Net) : Prop where
  calls : ∀ c ∈ n.calls, Heard cj oj c.packet (some (c.action, c.service)) ∧
    (c.action = .inquiry ↔ u.isClient c.socket = true)
  hosts : ∀ i, List.Forall₂ (Heard cj oj) (n.host i).packets (n.host i).requests
  asked : ∀ i action s, some (action, s) ∈ (n.host i).requests →
    ∃ c ∈ n.calls, c.action = action ∧ c.service = s
  replies : ∀ r ∈ n.replies, Sourced cj oj u n r
  found : ∀ f ∈ n.found, ∃ r ∈ n.replies, r.socket = f.1 ∧ u.isClient f.1 = true ∧
    (u.owner f.1).Reads cj oj .actionSucc f.2 r.packet
  outcomes : ∀ o ∈ n.outcomes, ∃ r ∈ n.replies, r.socket = o.1 ∧ u.isClient o.1 = false ∧
    ∃ reason, (u.owner o.1).ReadsResult cj oj o.2 reason r.packet

end Invariant

section Runs
variable {cj : CJson} {oj : OrgJson} {u : Setup} {n m : Net}

theorem init_inv : Inv cj oj u init where
  calls _ h := absurd h List.not_mem_nil
  hosts _ := .nil
  asked _ _ _ h := absurd h List.not_mem_nil
  replies _ h := absurd h List.not_mem_nil
  found _ h := absurd h List.not_mem_nil
  outcomes _ h := absurd h List.not_mem_nil

section Hearing
variable (n : Net) (i : ℕ) (packet : List UInt8) (request : Option (Action × Service))
  (replies : List Reply)

theorem heard_self : (n.heard i packet request replies).host i =
    ⟨(n.host i).packets ++ [packet], (n.host i).requests ++ [request]⟩ :=
  Function.update_self i _ n.host

theorem heard_other {j : ℕ} (h : j ≠ i) :
    (n.heard i packet request replies).host j = n.host j :=
  Function.update_of_ne h _ n.host

theorem heard_requests (j : ℕ) :
    (n.host j).requests <+: ((n.heard i packet request replies).host j).requests := by
  by_cases hj : j = i
  · subst hj
    rw [heard_self]
    exact List.prefix_append _ _
  · rw [heard_other _ _ _ _ _ hj]

end Hearing

/-- Nothing that a reply comes from is ever taken back. -/
theorem Sourced.grows {r : Reply} (h : Sourced cj oj u n r) (calls : n.calls <+: m.calls)
    (hosts : ∀ i, (n.host i).requests <+: (m.host i).requests) : Sourced cj oj u m r := by
  obtain ⟨c, hc, hsocket, i, before, sent, hafter, hreplies, hsent⟩ := h
  exact ⟨c, calls.subset hc, hsocket, i, before, sent, hafter.trans (hosts i), hreplies, hsent⟩

theorem Inv.heard (inv : Inv cj oj u n) {i : ℕ} {packet : List UInt8}
    {request : Option (Action × Service)} {replies : List Reply}
    (h : Heard cj oj packet request)
    (asked : ∀ action s, request = some (action, s) →
      ∃ c ∈ n.calls, c.action = action ∧ c.service = s)
    (sourced : ∀ r ∈ replies, Sourced cj oj u (n.heard i packet request replies) r) :
    Inv cj oj u (n.heard i packet request replies) where
  calls := inv.calls
  hosts j := by
    by_cases hj : j = i
    · subst hj
      rw [heard_self]
      exact List.rel_append (inv.hosts j) (.cons h .nil)
    · rw [heard_other _ _ _ _ _ hj]
      exact inv.hosts j
  asked j action s hs := by
    by_cases hj : j = i
    · subst hj
      rw [heard_self] at hs
      rcases List.mem_append.1 hs with hs | hs
      · exact inv.asked j action s hs
      · exact asked action s (List.mem_singleton.1 hs).symm
    · rw [heard_other _ _ _ _ _ hj] at hs
      exact inv.asked j action s hs
  replies r hr := by
    rcases List.mem_append.1 hr with hr | hr
    · exact (inv.replies r hr).grows (List.prefix_refl _) (heard_requests n i _ _ _)
    · exact sourced r hr
  found f hf := by
    obtain ⟨r, hr, h⟩ := inv.found f hf
    exact ⟨r, List.mem_append_left _ hr, h⟩
  outcomes o ho := by
    obtain ⟨r, hr, h⟩ := inv.outcomes o ho
    exact ⟨r, List.mem_append_left _ hr, h⟩

theorem step_inv (json : ReadJson cj oj) (inv : Inv cj oj u n) (h : Step cj oj u n m) :
    Inv cj oj u m := by
  cases h with
  | call c encoded room plain kind =>
    have hgrows : n.calls <+: n.calls ++ [c] := List.prefix_append _ _
    exact {
      calls := fun c' hc' => by
        rcases List.mem_append.1 hc' with hc' | hc'
        · exact inv.calls c' hc'
        · obtain rfl := List.mem_singleton.1 hc'
          exact ⟨.sent _ encoded room plain, kind⟩
      hosts := inv.hosts
      asked := fun i action s hs => by
        obtain ⟨c', hc', h⟩ := inv.asked i action s hs
        exact ⟨c', hgrows.subset hc', h⟩
      replies := fun r hr => (inv.replies r hr).grows hgrows fun _ => List.prefix_refl _
      found := inv.found
      outcomes := inv.outcomes }
  | @hear i c called sent answers =>
    have hheard := (inv.calls c called).1
    refine inv.heard hheard (fun action s hs => ?_) fun r hr => ?_
    · obtain ⟨rfl, rfl⟩ := Prod.mk.inj (Option.some.inj hs)
      exact ⟨c, called, rfl, rfl⟩
    · obtain ⟨packet, hpacket, rfl⟩ := List.mem_map.1 hr
      refine ⟨c, called, rfl, i, (n.host i).requests, sent, ?_,
        answers_replies json (inv.hosts i) hheard answers, hpacket⟩
      rw [After, heard_self]
  | noise i ignored answers =>
    exact inv.heard ignored nofun fun r hr => absurd hr List.not_mem_nil
  | find arrives client reads =>
    exact {
      calls := inv.calls
      hosts := inv.hosts
      asked := inv.asked
      replies := inv.replies
      found := fun f hf => by
        rcases List.mem_append.1 hf with hf | hf
        · exact inv.found f hf
        · obtain rfl := List.mem_singleton.1 hf
          exact ⟨_, arrives, rfl, client, reads⟩
      outcomes := inv.outcomes }
  | @learn _ _ reason arrives server reads =>
    exact {
      calls := inv.calls
      hosts := inv.hosts
      asked := inv.asked
      replies := inv.replies
      found := inv.found
      outcomes := fun o ho => by
        rcases List.mem_append.1 ho with ho | ho
        · exact inv.outcomes o ho
        · obtain rfl := List.mem_singleton.1 ho
          exact ⟨_, arrives, rfl, server, _, reads⟩ }

theorem run_inv (json : ReadJson cj oj) (h : Relation.ReflTransGen (Step cj oj u) init n) :
    Inv cj oj u n := by
  induction h with
  | refl => exact init_inv
  | tail _ hstep ih => exact step_inv json ih hstep

end Runs

section Reading
variable {cj : CJson} {oj : OrgJson} {u : Setup} {n : Net}

/-- A service in force has been registered. -/
theorem registered_of_mem {requests : List (Option (Action × Service))} {t : Service}
    (h : t ∈ registry requests) : some (.registerService, t) ∈ requests := by
  obtain ⟨i, hput, -⟩ := (mem_replayBack_iff key _ t).1 h
  rw [List.getElem?_map] at hput
  obtain ⟨request, hrequest, hasked⟩ := Option.map_eq_some_iff.1 hput
  have hmem := List.mem_of_getElem? hrequest
  rcases request with _ | ⟨action, s⟩
  · cases hasked
  · cases action with
    | registerService =>
      obtain rfl := Change.put.inj hasked
      exact hmem
    | unregisterService => cases hasked
    | inquiry => cases hasked
    | actionSucc => cases hasked
    | actionFail => cases hasked

theorem After.mem {i : ℕ} {before : List (Option (Action × Service))} {c : Call}
    (h : After n i before c) {r : Option (Action × Service)} (hr : r ∈ before) :
    r ∈ (n.host i).requests :=
  h.subset (List.mem_append_left _ hr)

theorem outcome_injective {a b : Bool} (h : outcome a = outcome b) : a = b := by
  cases a <;> cases b <;> first | rfl | cases h

/-- What the owner of a socket reads off a result is the result that was sent. -/
theorem outcome_of_tells (json : ReadJson cj oj) {p q : Program} {isSucc told : Bool}
    {reason reason' : Str} {sent : List (List UInt8)} {packet : List UInt8}
    (h : Tells cj oj told reason' sent q) (hp : packet ∈ sent) (room : (0 : UInt8) ∈ payload packet)
    (reads : p.ReadsResult cj oj isSucc reason packet) : isSucc = told := by
  obtain ⟨reply, rfl, hencodes⟩ := h
  obtain rfl := List.mem_singleton.1 hp
  obtain ⟨text, hcarries⟩ := encodesResult_carries json hencodes room
  exact outcome_injective (readsResult_action hcarries reads)

/-- No result is read as a service. -/
theorem not_service_of_tells (json : ReadJson cj oj) {p q : Program} {reason : Str} {t : Service}
    {sent : List (List UInt8)} {packet : List UInt8} (h : Tells cj oj false reason sent q)
    (hp : packet ∈ sent) (room : (0 : UInt8) ∈ payload packet) :
    ¬ p.Reads cj oj .actionSucc t packet := by
  intro reads
  obtain ⟨reply, rfl, hencodes⟩ := h
  obtain rfl := List.mem_singleton.1 hp
  obtain ⟨text, hcarries⟩ := encodesResult_carries json hencodes room
  cases reads_action hcarries reads

/-- A service read off an answer is one of those that the daemon tells of. -/
theorem told_of_reads (json : ReadJson cj oj) {p q : Program} {services : List Service}
    {s t : Service} {sent : List (List UInt8)} {packet : List UInt8}
    (h : Replies cj oj services q .inquiry s sent) (hp : packet ∈ sent)
    (room : (0 : UInt8) ∈ payload packet) (reads : p.Reads cj oj .actionSucc t packet) :
    t ∈ told s.name services q := by
  rcases h with ⟨-, hno⟩ | ⟨-, hall⟩
  · exact absurd reads (not_service_of_tells json hno hp room)
  · obtain ⟨t', ht', hencodes⟩ := exists_of_forall₂ hall hp
    obtain ⟨text, hcarries⟩ := encodes_carries json hencodes room
    exact reads_unique json hcarries reads ▸ ht'

end Reading

/-- Whatever the interleaving, every service that a client has read, it has asked for by its
name, a server has registered it just so, and some daemon held it when it heard the inquiry. -/
theorem found_is_registered (cj : CJson) (oj : OrgJson) (json : ReadJson cj oj) (u : Setup) (n : Net)
    (reached : Relation.ReflTransGen (Step cj oj u) init n)
    (room : ∀ r ∈ n.replies, (0 : UInt8) ∈ payload r.packet) (socket : ℕ) (t : Service)
    (found : (socket, t) ∈ n.found) :
    ∃ c ∈ n.calls, c.socket = socket ∧ c.action = .inquiry ∧ c.service.name = t.name ∧
      (∃ c' ∈ n.calls, c'.action = .registerService ∧ c'.service = t) ∧
      ∃ i before, After n i before c ∧ t ∈ told c.service.name (registry before) (u.daemon i) := by
  have inv := run_inv json reached
  obtain ⟨r, hr, rfl, hclient, hreads⟩ := inv.found _ found
  obtain ⟨c, hc, hsocket, i, before, sent, hafter, hreplies, hsent⟩ := inv.replies r hr
  have haction : c.action = .inquiry := (inv.calls c hc).2.2 (hsocket ▸ hclient)
  rw [haction] at hreplies
  have htold := told_of_reads json hreplies hsent (room r hr) hreads
  obtain ⟨hforce, hname⟩ := mem_told c.service.name htold
  have hregistered := inv.asked i _ _ (hafter.mem (registered_of_mem hforce))
  exact ⟨c, hc, hsocket, haction, hname.symm, hregistered, i, before, hafter, htold⟩

/-- Whatever the interleaving, an outcome that a server has read is one of its own calls': a
success of a registration, or of an unregistration that some daemon could carry out, and a
failure of an unregistration for which some daemon found nothing. -/
theorem outcome_is_true (cj : CJson) (oj : OrgJson) (json : ReadJson cj oj) (u : Setup) (n : Net)
    (reached : Relation.ReflTransGen (Step cj oj u) init n)
    (room : ∀ r ∈ n.replies, (0 : UInt8) ∈ payload r.packet) (socket : ℕ) (isSucc : Bool)
    (told : (socket, isSucc) ∈ n.outcomes) :
    ∃ c ∈ n.calls, c.socket = socket ∧ ∃ i before, After n i before c ∧
      ((c.action = .registerService ∧ isSucc = true) ∨
        (c.action = .unregisterService ∧
          (isSucc = true ↔ Present key (key c.service) (registry before)))) := by
  have inv := run_inv json reached
  obtain ⟨r, hr, rfl, hserver, reason, hreads⟩ := inv.outcomes _ told
  obtain ⟨c, hc, hsocket, i, before, sent, hafter, hreplies, hsent⟩ := inv.replies r hr
  refine ⟨c, hc, hsocket, i, before, hafter, ?_⟩
  have hroom := room r hr
  cases haction : c.action with
  | registerService =>
    rw [haction] at hreplies
    exact .inl ⟨rfl, outcome_of_tells json hreplies hsent hroom hreads⟩
  | unregisterService =>
    rw [haction] at hreplies
    refine .inr ⟨rfl, ?_⟩
    by_cases hp : Present key (key c.service) (registry before)
    · exact iff_of_true (outcome_of_tells json (hreplies.1 hp) hsent hroom hreads) hp
    · have hfail : isSucc = false := outcome_of_tells json (hreplies.2 hp) hsent hroom hreads
      exact iff_of_false (fun htrue => nomatch hfail.symm.trans htrue) hp
  | inquiry =>
    have hclient := (inv.calls c hc).2.1 haction
    rw [hsocket, hserver] at hclient
    cases hclient
  | actionSucc =>
    rw [haction] at hreplies
    rw [show sent = [] from hreplies] at hsent
    exact absurd hsent List.not_mem_nil
  | actionFail =>
    rw [haction] at hreplies
    rw [show sent = [] from hreplies] at hsent
    exact absurd hsent List.not_mem_nil

section Examples
open CJsonText JavaUnicodeText

/-- One host, a server and a client, all in Go. -/
def goSetup : Setup := ⟨fun _ => .go, fun k => decide (k = 1), fun _ => .go⟩

def registerCall : Call := ⟨0, .registerService, boxMusic, boxMusicRegister⟩

def inquiryCall : Call := ⟨1, .inquiry, musicAsked, musicInquiry⟩

theorem server_calls (n : Net) : Step textCJson unicodeJson goSetup n
    { n with calls := n.calls ++ [registerCall] } := by
  refine .call registerCall boxMusic_encoded boxMusicRegister_plain.1 ?_ (by decide)
  simpa only [registerCall] using boxMusicRegister_plain.2

theorem client_calls (n : Net) : Step textCJson unicodeJson goSetup n
    { n with calls := n.calls ++ [inquiryCall] } := by
  refine .call inquiryCall musicInquiry_encoded musicInquiry_plain.1 ?_ (by decide)
  simpa only [inquiryCall] using musicInquiry_plain.2

theorem boxMusic_registered : Answers textCJson unicodeJson [] boxMusicRegister
    [GoDaemon.succData] .go := by
  have hreads : GoHistory.Requests .registerService boxMusicRegister (GoWire.infoOf boxMusic) :=
    (List.forall₂_cons.1 boxMusic_heard).1.reads textLibraries .go
  exact ⟨GoProvider.getProvider, _, rfl, GoHistory.processData_register hreads _⟩

theorem succData_carries : ∃ text, Carries (wordSum zeroExtend) (outcome true)
    (reasonRecord .empty) text GoDaemon.succData :=
  GoWire.result_carries (by decide) rfl

theorem succData_learnt :
    Program.go.ReadsResult textCJson unicodeJson true .empty GoDaemon.succData := by
  obtain ⟨text, hcarries⟩ := succData_carries
  exact (readsResult_iff textLibraries .go hcarries).2 rfl

theorem goPacket_boxMusic_plain : (0 : UInt8) ∈ payload (goPacket .actionSucc boxMusic) ∧
    highCount (payload (goPacket .actionSucc boxMusic)) % 256 = 0 := by
  have hroom : (GoWire.infoOf boxMusic).marshal.length < payloadLen := by decide
  have hplain : highCount (GoWire.infoOf boxMusic).marshal = 0 := by decide +kernel
  exact goPacket_plain hroom hplain

theorem boxMusic_answer {cj : CJson} {oj : OrgJson} :
    Program.go.Encodes cj oj .actionSucc boxMusic (goPacket .actionSucc boxMusic) :=
  .answer boxMusic rfl

theorem boxMusic_found :
    Program.go.Reads textCJson unicodeJson .actionSucc boxMusic (goPacket .actionSucc boxMusic) :=
  (encodes_reads textLibraries .go boxMusic_answer goPacket_boxMusic_plain.1).2
    (.inr goPacket_boxMusic_plain.2)

/-- The server registers, and learns that it has. -/
theorem server_run : ∃ n, Relation.ReflTransGen (Step textCJson unicodeJson goSetup) init n ∧
    n.calls = [registerCall] ∧ (n.host 0).packets = [boxMusicRegister] ∧
    n.replies = [⟨0, GoDaemon.succData⟩] ∧ n.found = [] ∧ n.outcomes = [(0, true)] := by
  have hhear := Step.hear (u := goSetup) (n := { init with calls := [registerCall] }) 0
    (List.mem_singleton_self registerCall) boxMusic_registered
  have hlearn := Step.learn (u := goSetup) (r := ⟨0, GoDaemon.succData⟩)
    (n := Net.heard { init with calls := [registerCall] } 0 boxMusicRegister
      (some (.registerService, boxMusic)) [⟨0, GoDaemon.succData⟩])
    (List.mem_singleton_self _) rfl succData_learnt
  exact ⟨_, ((Relation.ReflTransGen.single (server_calls init)).tail hhear).tail hlearn, rfl,
    congrArg Host.packets (heard_self _ _ _ _ [⟨0, GoDaemon.succData⟩]), rfl, rfl, rfl⟩

/-- The client finds the service. -/
theorem boxMusic_run : ∃ n, Relation.ReflTransGen (Step textCJson unicodeJson goSetup) init n ∧
    n.replies = [⟨0, GoDaemon.succData⟩, ⟨1, goPacket .actionSucc boxMusic⟩] ∧
    n.found = [(1, boxMusic)] ∧ n.outcomes = [(0, true)] := by
  obtain ⟨⟨calls, host, replies, found, outcomes⟩, hrun, rfl, hpackets, rfl, rfl, rfl⟩ := server_run
  have hanswers : Answers textCJson unicodeJson (host 0).packets musicInquiry
      [goPacket .actionSucc boxMusic] .go := by
    rw [show (host 0).packets = [boxMusicRegister] from hpackets]
    exact musicInquiry_answered
  have hhear := Step.hear (u := goSetup) (c := inquiryCall)
    (n := ⟨[registerCall, inquiryCall], host, [⟨0, GoDaemon.succData⟩], [], [(0, true)]⟩) 0
    (List.mem_cons_of_mem _ (List.mem_singleton_self _)) hanswers
  have hfind := Step.find (u := goSetup) (r := ⟨1, goPacket .actionSucc boxMusic⟩)
    (n := Net.heard ⟨[registerCall, inquiryCall], host, [⟨0, GoDaemon.succData⟩], [], [(0, true)]⟩
      0 musicInquiry (some (.inquiry, musicAsked)) [⟨1, goPacket .actionSucc boxMusic⟩])
    (List.mem_cons_of_mem _ (List.mem_singleton_self _)) rfl boxMusic_found
  exact ⟨_, ((hrun.tail (client_calls _)).tail hhear).tail hfind, rfl, rfl, rfl⟩

theorem boxMusic_room {n : Net}
    (h : n.replies = [⟨0, GoDaemon.succData⟩, ⟨1, goPacket .actionSucc boxMusic⟩]) :
    ∀ r ∈ n.replies, (0 : UInt8) ∈ payload r.packet := by
  obtain ⟨text, hcarries⟩ := succData_carries
  rw [h]
  exact List.forall_mem_cons.2 ⟨hcarries.zero_mem,
    List.forall_mem_singleton.2 goPacket_boxMusic_plain.1⟩

theorem found_is_registered_boxMusic : ∃ n, (1, boxMusic) ∈ n.found ∧
    ∃ c ∈ n.calls, c.socket = 1 ∧ c.action = .inquiry ∧ c.service.name = boxMusic.name ∧
      (∃ c' ∈ n.calls, c'.action = .registerService ∧ c'.service = boxMusic) ∧
      ∃ i before, After n i before c ∧
        boxMusic ∈ told c.service.name (registry before) (goSetup.daemon i) := by
  obtain ⟨n, hrun, hreplies, hfound, -⟩ := boxMusic_run
  have hmem : (1, boxMusic) ∈ n.found := hfound ▸ List.mem_singleton_self _
  exact ⟨n, hmem, found_is_registered _ _ textLibraries goSetup n hrun (boxMusic_room hreplies)
    1 boxMusic hmem⟩

theorem outcome_is_true_boxMusic : ∃ n, (0, true) ∈ n.outcomes ∧
    ∃ c ∈ n.calls, c.socket = 0 ∧ ∃ i before, After n i before c ∧
      ((c.action = .registerService ∧ true = true) ∨
        (c.action = .unregisterService ∧
          (true = true ↔ Present key (key c.service) (registry before)))) := by
  obtain ⟨n, hrun, hreplies, -, houtcomes⟩ := boxMusic_run
  have hmem : (0, true) ∈ n.outcomes := houtcomes ▸ List.mem_singleton_self _
  exact ⟨n, hmem, outcome_is_true _ _ textLibraries goSetup n hrun (boxMusic_room hreplies)
    0 true hmem⟩

end Examples

end MiniServiceDiscover.Network
