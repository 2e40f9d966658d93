import MiniServiceDiscover.CDaemon
import MiniServiceDiscover.CJsonText
import MiniServiceDiscover.DatagramFraming
import MiniServiceDiscover.StepRuns

set_option autoImplicit false

/-! The C daemon as a program that should not end: its receive loop, and what it
does once the loop is left. -/
namespace MiniServiceDiscover.CServing
open DatagramFraming StepRuns WireFormat

inductive Phase where
  | serving
  | left
  | closed
  deriving DecidableEq, Repr

/-- `queue` is what waits at the socket, `list` what the handling of packets keeps;
`reads` records what `udp_server_read` returned. -/
structure Daemon (σ Addr : Type) where
  phase : Phase
  queue : Queue UInt8 Addr
  list : σ
  reads : List ℤ

inductive Act where
  | serve
  | deinit
  deriving DecidableEq, Repr

section Steps
variable {σ Addr : Type} (handle : σ → Request UInt8 Addr → σ)

/-- One pass of `server_loop`. A receive takes at least no bytes, so a read that
fails returned zero. -/
def serve (s : Daemon σ Addr) : Option (Daemon σ Addr) :=
  if s.phase = .serving then
    match udpServerRead packetLen [] s.queue with
    | .blocked => none
    | .failed => some { s with phase := .left, reads := s.reads ++ [0] }
    | .filled r queue => some { s with
        queue := queue
        list := handle s.list r
        reads := s.reads ++ [(packetLen : ℤ)] }
  else none

/-- The rest of `daemon_loop` closes the socket. -/
def deinit (s : Daemon σ Addr) : Option (Daemon σ Addr) :=
  if s.phase = .left then some { s with phase := .closed } else none

def step (s : Daemon σ Addr) : Act → Option (Daemon σ Addr)
  | .serve => serve handle s
  | .deinit => deinit s

def daemonLoop (list : σ) (queue : Queue UInt8 Addr) : Daemon σ Addr where
  phase := .serving
  queue := queue
  list := list
  reads := []

/-- The receive loop has not been left, and every read filled the buffer. -/
structure Serving (s : Daemon σ Addr) : Prop where
  phase : s.phase = .serving
  reads : ∀ v ∈ s.reads, 0 < v

abbrev Reaches (s : Daemon σ Addr) (acts : List Act) (v : Daemon σ Addr) : Prop :=
  Runs (step handle) (fun _ _ => True) s acts v

end Steps

section Reads
variable {β Addr : Type} {need : ℕ}

/-- A read that comes back stopped behind non-empty datagrams, or at an empty one. -/
theorem udpServerRead_cases {data : List β} (hd : data.length < need) (queue : Queue β Addr) :
    (udpServerRead need data queue = .blocked ∧ ∀ d ∈ queue, d.bytes ≠ []) ∨
    (udpServerRead need data queue = .failed ∧ ∃ d ∈ queue, d.bytes = []) ∨
    ∃ r front rest, udpServerRead need data queue = .filled r rest ∧ queue = front ++ rest ∧
      front ≠ [] ∧ ∀ d ∈ front, d.bytes ≠ [] := by
  induction queue generalizing data with
  | nil => exact .inl ⟨rfl, fun _ h => nomatch h⟩
  | cons d queue ih =>
    rw [udpServerRead]
    by_cases hb : d.bytes = []
    · rw [hb, List.take_nil]
      exact .inr (.inl ⟨rfl, d, List.mem_cons_self, hb⟩)
    · have hpos := List.length_pos_iff.2 hb
      have hret : ¬ (d.bytes.take (need - data.length)).length ≤ 0 := by
        rw [List.length_take]
        omega
      simp only [if_neg hret]
      by_cases hfull : (data ++ d.bytes.take (need - data.length)).length ≥ need
      · rw [if_pos hfull]
        exact .inr (.inr ⟨_, [d], queue, rfl, rfl, List.cons_ne_nil d [],
          fun e he => List.mem_singleton.1 he ▸ hb⟩)
      · rw [if_neg hfull]
        rcases ih (Nat.lt_of_not_ge hfull) with
          ⟨hr, hne⟩ | ⟨hr, e, he, heb⟩ | ⟨r, front, rest, hr, hq, -, hne⟩
        · exact .inl ⟨hr, List.forall_mem_cons.2 ⟨hb, hne⟩⟩
        · exact .inr (.inl ⟨hr, e, List.mem_cons_of_mem d he, heb⟩)
        · exact .inr (.inr ⟨r, d :: front, rest, hr, congrArg (List.cons d) hq,
            List.cons_ne_nil d front, List.forall_mem_cons.2 ⟨hb, hne⟩⟩)

end Reads

section Runs
variable {σ Addr : Type} {handle : σ → Request UInt8 Addr → σ}

/-- Only an empty datagram is left to fail a read. -/
structure Inv (s : Daemon σ Addr) : Prop where
  serving : Serving s
  queue : ∀ d ∈ s.queue, d.bytes ≠ []

theorem step_inv {s v : Daemon σ Addr} {a : Act} (hi : Inv s) (h : step handle s a = some v) :
    Inv v := by
  cases a with
  | serve =>
    change serve handle s = some v at h
    rw [serve, if_pos hi.serving.phase] at h
    rcases udpServerRead_cases (show ([] : List UInt8).length < packetLen by decide) s.queue with
      ⟨hr, -⟩ | ⟨hr, d, hd, hb⟩ | ⟨r, front, rest, hr, hq, -, -⟩
    · rw [hr] at h
      cases h
    · exact absurd hb (hi.queue d hd)
    · rw [hr] at h
      obtain rfl := Option.some.inj h
      refine ⟨⟨hi.serving.phase, ?_⟩, ?_⟩
      · intro v hv
        rcases List.mem_append.1 hv with hv | hv
        · exact hi.serving.reads v hv
        · rw [List.mem_singleton.1 hv]
          decide
      · intro d hd
        exact hi.queue d (hq ▸ List.mem_append_right front hd)
  | deinit =>
    change deinit s = some v at h
    rw [deinit, hi.serving.phase] at h
    cases h

theorem runs_serving {list : σ} {queue : Queue UInt8 Addr} (hne : ∀ d ∈ queue, d.bytes ≠ [])
    {acts : List Act} {v : Daemon σ Addr} (h : Reaches handle (daemonLoop list queue) acts v) :
    Serving v :=
  (h.invariant Inv ⟨⟨rfl, fun _ hv => nomatch hv⟩, hne⟩ fun _ _ _ hi _ hs => step_inv hi hs).serving

/-- An empty datagram anywhere in the queue is reached and ends the loop. -/
theorem reaches_left (n : ℕ) {s : Daemon σ Addr} (hp : s.phase = .serving)
    (hn : s.queue.length ≤ n) {d : Datagram UInt8 Addr} (hd : d ∈ s.queue) (hb : d.bytes = []) :
    ∃ acts v, Reaches handle s acts v ∧ v.phase = .left ∧ (0 : ℤ) ∈ v.reads := by
  induction n generalizing s with
  | zero =>
    rw [List.length_eq_zero_iff.1 (Nat.le_zero.1 hn)] at hd
    cases hd
  | succ n ih =>
    rcases udpServerRead_cases (show ([] : List UInt8).length < packetLen by decide) s.queue with
      ⟨-, hne⟩ | ⟨hr, -⟩ | ⟨r, front, rest, hr, hq, hfront, hne⟩
    · exact absurd hb (hne d hd)
    · refine ⟨[.serve], { s with phase := .left, reads := s.reads ++ [0] },
        .next trivial ?_ (.refl _), rfl, List.mem_append_right _ (List.mem_singleton.2 rfl)⟩
      change serve handle s = _
      rw [serve, if_pos hp, hr]
    · have hs : step handle s .serve = some { s with
          queue := rest
          list := handle s.list r
          reads := s.reads ++ [(packetLen : ℤ)] } := by
        change serve handle s = _
        rw [serve, if_pos hp, hr]
      have hrest : d ∈ rest := by
        rw [hq] at hd
        exact (List.mem_append.1 hd).resolve_left fun hf => hne d hf hb
      have hlen : rest.length ≤ n := by
        have := List.length_pos_iff.2 hfront
        rw [hq, List.length_append] at hn
        omega
      obtain ⟨acts, v, hv, hleft, hzero⟩ := @ih { s with
          queue := rest
          list := handle s.list r
          reads := s.reads ++ [(packetLen : ℤ)] } hp hlen hrest
      exact ⟨.serve :: acts, v, .next trivial hs hv, hleft, hzero⟩

end Runs

/-- The daemon serves for ever exactly when no datagram is empty. -/
theorem daemonLoop_serves_iff {σ Addr : Type} (handle : σ → Request UInt8 Addr → σ) (list : σ)
    (queue : Queue UInt8 Addr) :
    (∀ acts v, Reaches handle (daemonLoop list queue) acts v → Serving v) ↔
      ∀ d ∈ queue, d.bytes ≠ [] := by
  refine ⟨fun h d hd hb => ?_, fun hne acts v => runs_serving hne⟩
  obtain ⟨acts, v, hv, hleft, -⟩ : ∃ acts v, Reaches handle (daemonLoop list queue) acts v ∧
      v.phase = .left ∧ (0 : ℤ) ∈ v.reads :=
    reaches_left queue.length rfl (Nat.le_refl _) hd hb
  have hp := (h acts v hv).phase
  rw [hleft] at hp
  cases hp

section Examples

/-- The handling of a packet by the daemon; what would stop the process leaves
the list. -/
def handlePkt {Addr : Type} (cj : CProtocal.CJson) (listFuel fuel : ℕ) (l : CList.ServiceInfoList)
    (r : Request UInt8 Addr) : CList.ServiceInfoList :=
  match CDaemon.serverLoop cj listFuel fuel l r.bytes with
  | .ok (_, l) => l
  | .error _ => l

def emptyDatagram : Datagram UInt8 ℕ := ⟨[], 1⟩

/-- One empty datagram ends the loop and closes the socket. -/
theorem emptyDatagram_closes : ∃ acts v,
    Reaches (handlePkt CJsonText.textCJson 0 0) (daemonLoop CList.initList [emptyDatagram]) acts v ∧
      v.phase = .closed ∧ v.reads = [0] ∧ ¬ Serving v := by
  refine ⟨[.serve, .deinit], ⟨.closed, [emptyDatagram], CList.initList, [0]⟩,
    .next trivial rfl (.next trivial rfl (.refl _)), rfl, rfl, fun h => ?_⟩
  exact absurd h.phase (by decide)

end Examples

end MiniServiceDiscover.CServing
