import MiniServiceDiscover.AddressSweep
import MiniServiceDiscover.GoCorrelation

set_option autoImplicit false

/-! The handshake of a call of the Go library with the sweep it starts: the channel,
the flag, the two modes of the client and every outcome of a read. -/
namespace MiniServiceDiscover.GoSweep
open JsonText GoJson GoProtocal GoReply StepRuns AddressSweep
open GoCaller (Caller Call Outcome readNothing)

/-- The address at which `PrepareSubAddr` says that it is finished. -/
def lastHost : ℕ := 254

/-- What `Read` leaves in the buffer, and what it returns. -/
structure ReadResult where
  n : ℕ
  data : Bytes
  err : Option Bytes
  deriving DecidableEq, Repr

/-- A goroutine running `UDPBroadcastData`, and the call that started it. -/
structure Task where
  call : ℕ
  data : Bytes
  loop : Sweep
  deriving DecidableEq, Repr

inductive Pc where
  | idle
  | launched
  | reading
  | received
  | waiting
  | panicked
  deriving DecidableEq, Repr

/-- A call that has returned, and whose token it received. -/
structure Report where
  number : ℕ
  call : Call
  outcome : Outcome
  token : Option ℕ
  deriving DecidableEq, Repr

/-- `broadcastQuit` holds for each token the call whose goroutine sent it; the numbers,
`ended`, `calls`, `firstReads` and `log` record the history and steer nothing. -/
structure State where
  caller : Caller
  broadcastValid : Bool
  pc : Pc
  last : ReadResult
  infos : List ServiceInfo
  recEnd : Bool
  broadcastQuit : List ℕ
  closed : Bool
  crashed : Bool
  cursor : Cursor
  tasks : List Task
  ended : List Task
  calls : List Call
  call : ℕ
  firstReads : List ℕ
  log : List Report
  deriving DecidableEq, Repr

inductive Act where
  | start (c : Call)
  | clearRecEnd
  | read (r : ReadResult)
  | setRecEnd
  | join
  | task (i : ℕ)
  | quit
  deriving DecidableEq, Repr

/-- What `GetServerData` and `GetClientData` return. -/
def init (caller : Caller) (broadcastValid : Bool) : State where
  caller := caller
  broadcastValid := broadcastValid
  pc := .idle
  last := ⟨0, [], none⟩
  infos := []
  recEnd := false
  broadcastQuit := []
  closed := false
  crashed := false
  cursor := ⟨1, 0⟩
  tasks := []
  ended := []
  calls := []
  call := 0
  firstReads := []
  log := []

section Calls

/-- What `GetResult` makes of its only read. -/
def getResult (broadcastValid : Bool) (r : ReadResult) : Except GoPanic (Bool × Bytes) :=
  match broadcastValid, r.err with
  | true, some err => .ok (false, err)
  | _, _ => if broadcastValid = true ∨ 0 < r.n then resultReply r.data else .ok (false, readNothing)

def outcome (s : State) : Except GoPanic Outcome :=
  match s.caller with
  | .clientData => .ok (.infos s.infos)
  | .serverData => (getResult s.broadcastValid s.last).map fun res => .result res.1 res.2

/-- The statements of a call behind its last read and its token. -/
def conclude (s : State) (token : Option ℕ) : State :=
  match s.calls[s.call]?, outcome s with
  | some c, .ok o => { s with pc := .idle, log := s.log ++ [⟨s.call, c, o, token⟩] }
  | _, _ => { s with pc := .panicked }

/-- A new call: its locals, and its number. -/
def enter (s : State) (c : Call) : State :=
  { s with infos := [], calls := s.calls ++ [c], call := s.calls.length }

/-- Up to the `go` statement, or past `Write` in broadcast mode. -/
def start (s : State) (c : Call) : Option State :=
  if s.pc = .idle ∧ c.caller = s.caller then
    match c.sendData with
    | .error _ => some { s with pc := .panicked }
    | .ok data =>
      if s.broadcastValid then
        match s.caller with
        | .serverData => some { enter s c with pc := .reading }
        | .clientData => some { enter s c with pc := .launched }
      else some { enter s c with
        pc := .launched
        tasks := s.tasks ++ [⟨s.calls.length, data, .fresh⟩] }
  else none

def clearRecEnd (s : State) : Option State :=
  if s.pc = .launched then some { s with pc := .reading, recEnd := false } else none

/-- In broadcast mode `GetResult` is left without the flag. -/
def clientRead (s : State) (r : ReadResult) : Option State :=
  if s.pc = .reading then
    let s := { s with last := r, firstReads := s.firstReads ++ [s.call] }
    if s.caller = .serverData ∧ s.broadcastValid = true then some (conclude s none)
    else some { s with pc := .received }
  else none

/-- Behind the loop of `GetInquiryResult`. -/
def leave (s : State) : State :=
  if s.broadcastValid then conclude s none else { s with pc := .waiting }

/-- The rest of one pass of that loop. -/
def examine (s : State) : State :=
  if 0 < s.last.n then
    match inquiryReply s.last.data with
    | .error _ => { s with pc := .panicked }
    | .ok none => leave s
    | .ok (some i) => { s with pc := .reading, infos := s.infos ++ [i] }
  else leave s

def setRecEnd (s : State) : Option State :=
  if s.pc = .received then
    match s.caller with
    | .serverData => some { s with pc := .waiting, recEnd := true }
    | .clientData => some (examine { s with recEnd := true })
  else none

/-- `<-d.broadcastQuit`: a closed channel gives a token that nobody sent. -/
def join (s : State) : Option State :=
  if s.pc = .waiting then
    match s.broadcastQuit with
    | token :: rest => some (conclude { s with broadcastQuit := rest } (some token))
    | [] => if s.closed then some (conclude s none) else none
  else none

/-- `close` of a closed channel panics. -/
def quit (s : State) : State :=
  if s.closed then { s with crashed := true } else { s with closed := true }

end Calls

section Tasks

/-- The loop of `UDPBroadcastData`. -/
def udpBroadcastData (recEnd : Bool) (u : Cursor) (w : Sweep) : Cursor × Sweep :=
  AddressSweep.step lastHost recEnd u w

/-- `d.broadcastQuit <- true`: the channel holds one token; on a closed channel the
goroutine panics and the program ends. -/
def sendQuit (s : State) (i : ℕ) (t : Task) : Option State :=
  if s.closed then some { s with crashed := true }
  else if s.broadcastQuit.length < 1 then
    some { s with
      broadcastQuit := s.broadcastQuit ++ [t.call]
      tasks := s.tasks.eraseIdx i
      ended := s.ended ++ [t] }
  else none

/-- One statement of the `i`-th live goroutine. -/
def task (s : State) (i : ℕ) : Option State :=
  match s.tasks[i]? with
  | none => none
  | some t =>
    if t.loop.pc = .done then sendQuit s i t
    else
      let moved := udpBroadcastData s.recEnd s.cursor t.loop
      some { s with cursor := moved.1, tasks := s.tasks.set i { t with loop := moved.2 } }

end Tasks

def step (s : State) (a : Act) : Option State :=
  if s.crashed then none
  else match a with
    | .start c => start s c
    | .clearRecEnd => clearRecEnd s
    | .read r => clientRead s r
    | .setRecEnd => setRecEnd s
    | .join => join s
    | .task i => task s i
    | .quit => some (quit s)

/-- `Quit` at most once, after the last call has returned. -/
def QuitLast (s : State) : Act → Prop
  | .quit => s.pc = .idle ∧ s.closed = false
  | .start _ => s.closed = false
  | _ => True

/-- Between the start of its sweep and the receipt of its token. -/
def Sweeping (s : State) : Prop :=
  s.broadcastValid = false ∧
    (s.pc = .launched ∨ s.pc = .reading ∨ s.pc = .received ∨ s.pc = .waiting)

instance (s : State) : Decidable (Sweeping s) := by
  unfold Sweeping
  infer_instance

section Handshake

/-- No goroutine and no token. -/
def Clear (s : State) : Prop := s.tasks = [] ∧ s.broadcastQuit = []

/-- The goroutine of this call has ended. -/
def Finished (s : State) (number : ℕ) : Prop := ∃ t ∈ s.ended, t.call = number

/-- The goroutine of the running call, or its token. -/
def Held (s : State) : Prop :=
  (∃ t, s.tasks = [t] ∧ t.call = s.call ∧ s.broadcastQuit = []) ∨
    (s.tasks = [] ∧ s.broadcastQuit = [s.call] ∧ Finished s s.call)

def Place (s : State) : Prop :=
  match s.pc with
  | .idle => Clear s
  | .panicked => Clear s ∨ Held s
  | _ => if s.broadcastValid then Clear s else Held s

def InCall (s : State) : Prop := s.pc ≠ .idle ∧ s.pc ≠ .panicked

/-- What holds of the history, wherever the token is. -/
structure Books (s : State) : Prop where
  alive : s.crashed = false
  opened : s.pc ≠ .idle → s.closed = false
  number : InCall s → s.call + 1 = s.calls.length
  earlier : ∀ r ∈ s.log, r.number < s.calls.length ∧ (InCall s → r.number < s.call)
  tokens : ∀ r ∈ s.log, r.token = if s.broadcastValid then none else some r.number
  finished : ∀ r ∈ s.log, s.broadcastValid = false → Finished s r.number

structure Inv (s : State) : Prop where
  books : Books s
  place : Place s

variable {s u : State}

theorem step_task (h : s.crashed = false) (i : ℕ) : step s (.task i) = task s i := by
  unfold step
  rw [if_neg (by rw [h]; exact Bool.false_ne_true)]

theorem init_inv (caller : Caller) (broadcastValid : Bool) : Inv (init caller broadcastValid) where
  books :=
    { alive := rfl
      opened := fun h => absurd rfl h
      number := fun h => absurd rfl h.1
      earlier := fun _ hr => absurd hr List.not_mem_nil
      tokens := fun _ hr => absurd hr List.not_mem_nil
      finished := fun _ hr => absurd hr List.not_mem_nil }
  place := ⟨rfl, rfl⟩

theorem Inv.idle (h : Inv s) (hp : s.pc = .idle) : Clear s := by
  have hplace := h.place
  unfold Place at hplace
  rwa [hp] at hplace

theorem place_inCall (h : InCall s) : Place s ↔ if s.broadcastValid then Clear s else Held s := by
  obtain ⟨hi, hp⟩ := h
  unfold Place
  cases hpc : s.pc with
  | idle => exact absurd hpc hi
  | panicked => exact absurd hpc hp
  | launched | reading | received | waiting => rfl

theorem inCall_at {pc : Pc} (hp : s.pc = pc) (h : pc ≠ .idle ∧ pc ≠ .panicked) : InCall s := by
  rwa [InCall, hp]

/-- A call goes on from one statement to another. -/
theorem Books.move {pc : Pc} {last : ReadResult} {infos : List ServiceInfo} {recEnd : Bool}
    {broadcastQuit firstReads : List ℕ} (h : Books s) (hs : InCall s) :
    Books { s with
      pc := pc, last := last, infos := infos, recEnd := recEnd, broadcastQuit := broadcastQuit
      firstReads := firstReads } where
  alive := h.alive
  opened := fun _ => h.opened hs.1
  number := fun _ => h.number hs
  earlier := fun r hr => ⟨(h.earlier r hr).1, fun _ => (h.earlier r hr).2 hs⟩
  tokens := h.tokens
  finished := h.finished

theorem Inv.move {pc : Pc} {last : ReadResult} {infos : List ServiceInfo} {recEnd : Bool}
    {firstReads : List ℕ} (h : Inv s) (hs : InCall s) (hp : pc ≠ .idle) :
    Inv { s with
      pc := pc, last := last, infos := infos, recEnd := recEnd, firstReads := firstReads } where
  books := h.books.move hs
  place := by
    have hplace := (place_inCall hs).1 h.place
    by_cases hpan : pc = .panicked
    · subst hpan
      change Clear s ∨ Held s
      by_cases hb : s.broadcastValid = true
      · rw [if_pos hb] at hplace
        exact .inl hplace
      · rw [if_neg hb] at hplace
        exact .inr hplace
    · exact (place_inCall (s := { s with
        pc := pc, last := last, infos := infos, recEnd := recEnd, firstReads := firstReads })
        ⟨hp, hpan⟩).2 hplace

/-- A call returns, or panics behind its token. -/
theorem conclude_inv {token : Option ℕ} (h : Books s) (hs : InCall s) (hclear : Clear s)
    (ht : token = if s.broadcastValid then none else some s.call)
    (hf : s.broadcastValid = false → Finished s s.call) : Inv (conclude s token) := by
  unfold conclude
  split
  · refine ⟨⟨h.alive, fun hi => absurd rfl hi, fun hi => absurd rfl hi.1, ?_, ?_, ?_⟩, hclear⟩
    · intro r hr
      refine ⟨?_, fun hi => absurd rfl hi.1⟩
      rcases List.mem_append.1 hr with hr | hr
      · exact (h.earlier r hr).1
      · rw [List.mem_singleton.1 hr]
        exact Nat.lt_of_succ_le (h.number hs).le
    · intro r hr
      rcases List.mem_append.1 hr with hr | hr
      · exact h.tokens r hr
      · rw [List.mem_singleton.1 hr]
        exact ht
    · intro r hr hb
      rcases List.mem_append.1 hr with hr | hr
      · exact h.finished r hr hb
      · rw [List.mem_singleton.1 hr]
        exact hf hb
  · exact ⟨h.move hs, .inl hclear⟩

theorem enter_books {c : Call} {pc : Pc} {tasks : List Task} (h : Books s)
    (hq : s.closed = false) : Books { enter s c with pc := pc, tasks := tasks } where
  alive := h.alive
  opened := fun _ => hq
  number := fun _ => by
    change s.calls.length + 1 = (s.calls ++ [c]).length
    rw [List.length_append]
    rfl
  earlier := by
    intro r hr
    have hlt := (h.earlier r hr).1
    refine ⟨?_, fun _ => hlt⟩
    change r.number < (s.calls ++ [c]).length
    rw [List.length_append]
    omega
  tokens := h.tokens
  finished := h.finished

theorem start_cases {c : Call} (h : start s c = some u) : s.pc = .idle ∧
    (u = { s with pc := .panicked } ∨
      (s.broadcastValid = true ∧ ∃ pc, (pc = .reading ∨ pc = .launched) ∧
        u = { enter s c with pc := pc }) ∨
      (s.broadcastValid = false ∧ ∃ data, c.sendData = .ok data ∧ u = { enter s c with
        pc := .launched, tasks := s.tasks ++ [⟨s.calls.length, data, .fresh⟩] })) := by
  unfold start at h
  split at h
  case isFalse => exact absurd h (Option.some_ne_none u).symm
  case isTrue hg =>
    refine ⟨hg.1, ?_⟩
    split at h
    · exact .inl (Option.some.inj h).symm
    · rename_i data hd
      right
      split at h
      case isTrue hb =>
        refine .inl ⟨hb, ?_⟩
        split at h
        · exact ⟨.reading, .inl rfl, (Option.some.inj h).symm⟩
        · exact ⟨.launched, .inr rfl, (Option.some.inj h).symm⟩
      case isFalse hb =>
        exact .inr ⟨Bool.eq_false_of_not_eq_true hb, data, hd, (Option.some.inj h).symm⟩

theorem start_inv {c : Call} (h : Inv s) (hq : s.closed = false) (hu : start s c = some u) :
    Inv u := by
  obtain ⟨hi, rfl | ⟨hb, pc, hpc, rfl⟩ | ⟨hb, data, -, rfl⟩⟩ := start_cases hu
  · refine ⟨⟨h.books.alive, fun _ => hq, fun hin => absurd rfl hin.2, fun r hr => ?_, h.books.tokens,
      h.books.finished⟩, .inl (h.idle hi)⟩
    exact ⟨(h.books.earlier r hr).1, fun hin => absurd rfl hin.2⟩
  · have hclear := h.idle hi
    refine ⟨enter_books h.books hq, ?_⟩
    rcases hpc with rfl | rfl
    · exact (if_pos hb).mpr hclear
    · exact (if_pos hb).mpr hclear
  · obtain ⟨ht, hbq⟩ := h.idle hi
    refine ⟨enter_books h.books hq, ?_⟩
    have hheld : Held { enter s c with
        pc := .launched, tasks := s.tasks ++ [⟨s.calls.length, data, .fresh⟩] } :=
      .inl ⟨⟨s.calls.length, data, .fresh⟩, by rw [ht]; rfl, rfl, hbq⟩
    have hb' : ¬ s.broadcastValid = true := by
      rw [hb]
      exact Bool.false_ne_true
    exact (if_neg hb').mpr hheld

theorem clearRecEnd_inv (h : Inv s) (hu : clearRecEnd s = some u) : Inv u := by
  unfold clearRecEnd at hu
  split at hu
  case isFalse => exact absurd hu (Option.some_ne_none u).symm
  case isTrue hp =>
    cases hu
    exact h.move (inCall_at hp (by decide)) (by decide)

theorem Inv.clear (h : Inv s) (hs : InCall s) (hb : s.broadcastValid = true) : Clear s := by
  have hplace := (place_inCall hs).1 h.place
  rwa [if_pos hb] at hplace

theorem Inv.held (h : Inv s) (hs : InCall s) (hb : s.broadcastValid = false) : Held s := by
  have hplace := (place_inCall hs).1 h.place
  rwa [hb] at hplace

theorem clientRead_inv {r : ReadResult} (h : Inv s) (hu : clientRead s r = some u) : Inv u := by
  unfold clientRead at hu
  split at hu
  case isFalse => exact absurd hu (Option.some_ne_none u).symm
  case isTrue hp =>
    have hs := inCall_at hp (by decide)
    simp only at hu
    split at hu
    case isTrue hb =>
      cases hu
      exact conclude_inv (h.books.move hs) hs (h.clear hs hb.2) (if_pos hb.2).symm
        fun hb' => absurd hb.2 (by rw [hb']; exact Bool.false_ne_true)
    case isFalse =>
      cases hu
      exact h.move hs (by decide)

theorem leave_inv (h : Inv s) (hs : InCall s) : Inv (leave s) := by
  unfold leave
  split
  case isTrue hb =>
    exact conclude_inv h.books hs (h.clear hs hb) (if_pos hb).symm
      fun hb' => absurd hb (by rw [hb']; exact Bool.false_ne_true)
  case isFalse => exact h.move hs (by decide)

theorem examine_inv (h : Inv s) (hs : InCall s) : Inv (examine s) := by
  unfold examine
  split
  · split
    · exact h.move hs (by decide)
    · exact leave_inv h hs
    · exact h.move hs (by decide)
  · exact leave_inv h hs

theorem setRecEnd_inv (h : Inv s) (hu : setRecEnd s = some u) : Inv u := by
  unfold setRecEnd at hu
  split at hu
  case isFalse => exact absurd hu (Option.some_ne_none u).symm
  case isTrue hp =>
    have hs := inCall_at hp (by decide)
    split at hu
    · cases hu
      exact h.move hs (by decide)
    · cases hu
      have hmoved : Inv { s with recEnd := true } := h.move hs hs.1
      exact examine_inv hmoved hs

/-- The token that arrives is the one the call waits for. -/
theorem join_inv (h : Inv s) (hu : join s = some u) : Inv u := by
  unfold join at hu
  split at hu
  case isFalse => exact absurd hu (Option.some_ne_none u).symm
  case isTrue hp =>
    have hs := inCall_at hp (by decide)
    have hopen := h.books.opened hs.1
    have hnone : s.broadcastQuit = [] → False := by
      intro hq
      rw [hq, hopen] at hu
      exact Option.some_ne_none u hu.symm
    cases hb : s.broadcastValid with
    | true => exact (hnone (h.clear hs hb).2).elim
    | false =>
      obtain ⟨t, -, -, hq⟩ | ⟨ht, hq, hf⟩ := h.held hs hb
      · exact (hnone hq).elim
      · rw [hq] at hu
        cases hu
        have hb' : ¬ s.broadcastValid = true := by
          rw [hb]
          exact Bool.false_ne_true
        exact conclude_inv (h.books.move hs) hs ⟨ht, rfl⟩ (if_neg hb').symm fun _ => hf

/-- Where there is a goroutine, the place says no more than that it is the call's own. -/
theorem place_held (h : Place s) (ht : s.tasks ≠ []) : Held s ∧ s.pc ≠ .idle ∧
    ∀ u : State, u.pc = s.pc → u.broadcastValid = s.broadcastValid → Held u → Place u := by
  have hnot : ¬ Clear s := fun hc => ht hc.1
  by_cases hpan : s.pc = .panicked
  · have hheld : Clear s ∨ Held s := by
      unfold Place at h
      rwa [hpan] at h
    refine ⟨hheld.resolve_left hnot, by rw [hpan]; decide, fun u hu _ hh => ?_⟩
    unfold Place
    rw [hu, hpan]
    exact .inr hh
  · have hs : InCall s := by
      refine ⟨fun hi => hnot ?_, hpan⟩
      unfold Place at h
      rwa [hi] at h
    have hplace := (place_inCall hs).1 h
    have hb : ¬ s.broadcastValid = true := by
      intro hb
      rw [if_pos hb] at hplace
      exact hnot hplace
    rw [if_neg hb] at hplace
    refine ⟨hplace, hs.1, fun u hu hub hh => ?_⟩
    have hsu : InCall u := by rwa [InCall, hu]
    refine (place_inCall hsu).2 ?_
    rwa [hub, if_neg hb]

theorem Held.sole {t : Task} {i : ℕ} (h : Held s) (ht : s.tasks[i]? = some t) :
    i = 0 ∧ s.tasks = [t] ∧ t.call = s.call ∧ s.broadcastQuit = [] := by
  obtain ⟨t', hl, hc, hq⟩ | ⟨hl, -⟩ := h
  · rw [hl] at ht ⊢
    cases i with
    | zero =>
      cases ht
      exact ⟨rfl, rfl, hc, hq⟩
    | succ i =>
      rw [List.getElem?_cons_succ, List.getElem?_nil] at ht
      cases ht
  · rw [hl, List.getElem?_nil] at ht
    cases ht

/-- A goroutine that moves is the one of the running call, and nothing holds up its
send. -/
theorem task_cases {i : ℕ} (h : Inv s) (hu : task s i = some u) :
    i = 0 ∧ ∃ t, s.tasks = [t] ∧ t.call = s.call ∧ s.broadcastQuit = [] ∧
      ((t.loop.pc = .done ∧
          u = { s with broadcastQuit := [t.call], tasks := [], ended := s.ended ++ [t] }) ∨
        (t.loop.pc ≠ .done ∧ u = { s with
          cursor := (udpBroadcastData s.recEnd s.cursor t.loop).1
          tasks := [{ t with loop := (udpBroadcastData s.recEnd s.cursor t.loop).2 }] })) := by
  unfold task at hu
  split at hu
  · exact absurd hu (Option.some_ne_none u).symm
  · rename_i t ht
    have hne : s.tasks ≠ [] := by
      intro hnil
      rw [hnil, List.getElem?_nil] at ht
      cases ht
    obtain ⟨hheld, hpc, -⟩ := place_held h.place hne
    obtain ⟨rfl, hl, hc, hq⟩ := hheld.sole ht
    refine ⟨rfl, t, hl, hc, hq, ?_⟩
    split at hu
    case isTrue hd =>
      rw [sendQuit, if_neg (by rw [h.books.opened hpc]; exact Bool.false_ne_true),
        if_pos (by rw [hq]; decide), hq, hl] at hu
      exact .inl ⟨hd, (Option.some.inj hu).symm⟩
    case isFalse hd =>
      rw [hl] at hu
      exact .inr ⟨hd, (Option.some.inj hu).symm⟩

theorem task_inv {i : ℕ} (h : Inv s) (hu : task s i = some u) : Inv u := by
  obtain ⟨-, t, hl, hc, hq, hcases⟩ := task_cases h hu
  obtain ⟨-, -, hkeep⟩ := place_held h.place (by rw [hl]; exact List.cons_ne_nil _ _)
  have hbooks := h.books
  obtain ⟨-, rfl⟩ | ⟨-, rfl⟩ := hcases
  · have hmore : ∀ n, Finished s n → ∃ t' ∈ s.ended ++ [t], t'.call = n :=
      fun n ⟨t', ht', hn⟩ => ⟨t', List.mem_append_left _ ht', hn⟩
    refine ⟨⟨hbooks.alive, hbooks.opened, hbooks.number, hbooks.earlier, hbooks.tokens,
      fun r hr hb => hmore _ (hbooks.finished r hr hb)⟩, ?_⟩
    have hended : t ∈ s.ended ++ [t] := List.mem_append_right _ (List.mem_singleton_self t)
    exact hkeep _ rfl rfl (.inr ⟨rfl, by rw [hc], t, hended, hc⟩)
  · refine ⟨⟨hbooks.alive, hbooks.opened, hbooks.number, hbooks.earlier, hbooks.tokens,
      hbooks.finished⟩, ?_⟩
    exact hkeep _ rfl rfl (.inl ⟨_, rfl, hc, hq⟩)

theorem quit_inv (h : Inv s) (hp : s.pc = .idle) (hc : s.closed = false) : Inv (quit s) := by
  rw [quit, if_neg (by rw [hc]; exact Bool.false_ne_true)]
  refine ⟨⟨h.books.alive, fun hi => absurd hp hi, h.books.number, h.books.earlier, h.books.tokens,
    h.books.finished⟩, ?_⟩
  unfold Place
  rw [hp]
  exact h.idle hp

theorem step_inv {a : Act} (h : Inv s) (g : QuitLast s a) (hu : step s a = some u) : Inv u := by
  unfold step at hu
  rw [if_neg (by rw [h.books.alive]; exact Bool.false_ne_true)] at hu
  cases a with
  | start c => exact start_inv h g hu
  | clearRecEnd => exact clearRecEnd_inv h hu
  | read r => exact clientRead_inv h hu
  | setRecEnd => exact setRecEnd_inv h hu
  | join => exact join_inv h hu
  | task i => exact task_inv h hu
  | quit =>
    cases hu
    exact quit_inv h g.1 g.2

theorem run_inv {caller : Caller} {broadcastValid : Bool} {acts : List Act}
    (h : Runs step QuitLast (init caller broadcastValid) acts s) : Inv s :=
  h.invariant Inv (init_inv caller broadcastValid) fun _ _ _ hs g hu => step_inv hs g hu

theorem Inv.count (h : Inv s) (hp : s.pc ≠ .panicked) :
    s.tasks.length + s.broadcastQuit.length = if Sweeping s then 1 else 0 := by
  by_cases hi : s.pc = .idle
  · have hns : ¬ Sweeping s := by
      rintro ⟨-, hpc⟩
      rw [hi] at hpc
      exact absurd hpc (by decide)
    obtain ⟨ht, hq⟩ := h.idle hi
    rw [if_neg hns, ht, hq]
    rfl
  · have hs : InCall s := ⟨hi, hp⟩
    cases hb : s.broadcastValid with
    | true =>
      have hns : ¬ Sweeping s := fun hsw => absurd (hb.symm.trans hsw.1) (by decide)
      obtain ⟨ht, hq⟩ := h.clear hs hb
      rw [if_neg hns, ht, hq]
      rfl
    | false =>
      have hsw : Sweeping s := by
        refine ⟨hb, ?_⟩
        cases hpc : s.pc with
        | idle => exact absurd hpc hi
        | panicked => exact absurd hpc hp
        | launched | reading | received | waiting => decide
      rw [if_pos hsw]
      obtain ⟨t, ht, -, hq⟩ | ⟨ht, hq, -⟩ := h.held hs hb
      · rw [ht, hq]
        rfl
      · rw [ht, hq]
        rfl

/-- Nothing holds up a live goroutine, and its send does not panic. -/
theorem Inv.enabled {i : ℕ} {t : Task} (h : Inv s) (ht : s.tasks[i]? = some t) :
    ∃ u, step s (.task i) = some u ∧ u.crashed = false := by
  have hne : s.tasks ≠ [] := by
    intro hnil
    rw [hnil, List.getElem?_nil] at ht
    cases ht
  obtain ⟨hheld, hpc, -⟩ := place_held h.place hne
  obtain ⟨rfl, hl, -, hq⟩ := hheld.sole ht
  have hstep := step_task h.books.alive 0
  by_cases hd : t.loop.pc = .done
  · have hsend : step s (.task 0) = sendQuit s 0 t := by
      rw [hstep, task, ht]
      exact if_pos hd
    rw [sendQuit, if_neg (by rw [h.books.opened hpc]; exact Bool.false_ne_true),
      if_pos (by rw [hq]; decide)] at hsend
    exact ⟨_, hsend, h.books.alive⟩
  · have hmove : step s (.task 0) = some { s with
        cursor := (udpBroadcastData s.recEnd s.cursor t.loop).1
        tasks := s.tasks.set 0 { t with
          loop := (udpBroadcastData s.recEnd s.cursor t.loop).2 } } := by
      rw [hstep, task, ht]
      exact if_neg hd
    exact ⟨_, hmove, h.books.alive⟩

/-- A goroutine belongs to no call that has returned. -/
theorem Inv.unreturned (h : Inv s) (hp : s.pc ≠ .panicked) {r : Report} (hr : r ∈ s.log) {t : Task}
    (ht : t ∈ s.tasks) : t.call ≠ r.number := by
  obtain ⟨hheld, hi, -⟩ := place_held h.place (List.ne_nil_of_mem ht)
  have hlt := (h.books.earlier r hr).2 ⟨hi, hp⟩
  obtain ⟨i, hi⟩ := List.getElem?_of_mem ht
  obtain ⟨-, -, hc, -⟩ := hheld.sole hi
  omega

/-- The sweep of a call and its token: one of them while the call is between the start
and the receipt, none at any other time. -/
theorem run_handshake {caller : Caller} {broadcastValid : Bool} {acts : List Act}
    (h : Runs step QuitLast (init caller broadcastValid) acts s) (hp : s.pc ≠ .panicked) :
    s.tasks.length + s.broadcastQuit.length = (if Sweeping s then 1 else 0) ∧
      s.tasks.length ≤ 1 ∧
      (∀ i t, s.tasks[i]? = some t → ∃ u, step s (.task i) = some u ∧ u.crashed = false) ∧
      ∀ r ∈ s.log, (r.token = if s.broadcastValid then none else some r.number) ∧
        (s.broadcastValid = false → Finished s r.number) ∧ ∀ t ∈ s.tasks, t.call ≠ r.number := by
  have hinv := run_inv h
  have hcount := hinv.count hp
  refine ⟨hcount, ?_, fun i t ht => hinv.enabled ht, fun r hr => ?_⟩
  · split at hcount <;> omega
  · exact ⟨hinv.books.tokens r hr, hinv.books.finished r hr, fun t ht => hinv.unreturned hp hr ht⟩

end Handshake

section TimedOut

theorem start_eq {s : State} {c : Call} {data : Bytes} (hp : s.pc = .idle)
    (hc : c.caller = s.caller) (hb : s.broadcastValid = false) (hd : c.sendData = .ok data) :
    start s c = some { enter s c with
      pc := .launched, tasks := s.tasks ++ [⟨s.calls.length, data, .fresh⟩] } := by
  rw [start, if_pos ⟨hp, hc⟩, hd]
  exact if_neg (by rw [hb]; exact Bool.false_ne_true)

def timedOut : ReadResult := ⟨0, [], some (ascii "timeout")⟩

/-- The sweep sends one packet before the read times out. -/
def timedOutActs (c : Call) : List Act :=
  [.start c, .task 0, .task 0, .task 0, .task 0, .clearRecEnd, .read timedOut, .setRecEnd, .task 0,
    .task 0, .join]

def returned (c : Call) (data : Bytes) : State :=
  { init .serverData false with
    last := timedOut
    recEnd := true
    cursor := ⟨2, 1⟩
    ended := [⟨0, data, ⟨.done, [1]⟩⟩]
    calls := [c]
    firstReads := [0]
    log := [⟨0, c, .result false readNothing, some 0⟩] }

theorem runs_returned {c : Call} {data : Bytes} (hc : c.caller = .serverData)
    (hd : c.sendData = .ok data) :
    Runs step QuitLast (init .serverData false) (timedOutActs c) (returned c data) := by
  refine .next rfl (start_eq (s := init .serverData false) rfl hc rfl hd) ?_
  refine .next trivial rfl ?_
  refine .next trivial rfl ?_
  refine .next trivial rfl ?_
  refine .next trivial rfl ?_
  refine .next trivial rfl ?_
  refine .next trivial rfl ?_
  refine .next trivial rfl ?_
  refine .next trivial rfl ?_
  refine .next trivial rfl ?_
  exact .next trivial rfl (.refl _)

theorem run_handshake_returned :
    (returned GoCorrelation.playMusicCall GoHistory.playMusicRegister).tasks.length +
        (returned GoCorrelation.playMusicCall GoHistory.playMusicRegister).broadcastQuit.length = 0 ∧
      ∀ r ∈ (returned GoCorrelation.playMusicCall GoHistory.playMusicRegister).log,
        r.token = some r.number := by
  obtain ⟨hcount, -, -, hlog⟩ :=
    run_handshake (runs_returned rfl GoCorrelation.playMusicCall_sendData) (by decide)
  exact ⟨hcount, fun r hr => (hlog r hr).1⟩

def stale (c : Call) (data : Bytes) : State :=
  { enter (returned c data) c with
    pc := .launched
    cursor := ⟨1, 1⟩
    tasks := [⟨1, data, ⟨.done, []⟩⟩] }

end TimedOut

section Coverage
variable {s u : State}

def Request (calls : List Call) (number : ℕ) (data : Bytes) : Prop :=
  ∃ c, calls[number]? = some c ∧ c.sendData = .ok data

structure Swept (s : State) : Prop where
  placed : ∀ t ∈ s.tasks, Placed lastHost s.cursor t.loop
  ended : ∀ t ∈ s.ended, Ordered lastHost t.loop
  requests : ∀ t ∈ s.tasks ++ s.ended, Request s.calls t.call t.data

/-- No goroutine reads `recEnd` still set from an earlier call. -/
def Cleared (s : State) : Act → Prop
  | .task i => ∀ t, s.tasks[i]? = some t → t.loop.pc = .check → s.pc = .launched → s.recEnd = false
  | _ => True

/-- No sweep has ended before the last address while its call has not read once. -/
def InTime (s : State) : Prop :=
  ∀ t ∈ s.tasks ++ s.ended, CutShort lastHost t.loop → t.call ∈ s.firstReads

/-- While a goroutine is alive, `recEnd` tells whether its call has read. -/
structure Timely (s : State) : Prop where
  heard : s.tasks ≠ [] → s.pc = .launched ∨ (s.pc = .reading ∧ s.recEnd = false) ∨
    s.call ∈ s.firstReads
  early : InTime s

/-- A call that is about to clear `recEnd` has not read. -/
structure Unread (s : State) : Prop where
  numbers : ∀ n ∈ s.firstReads, n < s.calls.length
  launched : s.pc = .launched → s.call ∉ s.firstReads

theorem Swept.move {pc : Pc} {last : ReadResult} {infos : List ServiceInfo}
    {recEnd closed crashed : Bool} {broadcastQuit firstReads : List ℕ} {log : List Report}
    (h : Swept s) : Swept { s with
      pc := pc, last := last, infos := infos, recEnd := recEnd, broadcastQuit := broadcastQuit
      closed := closed, crashed := crashed, firstReads := firstReads, log := log } :=
  ⟨h.placed, h.ended, h.requests⟩

theorem Timely.move {pc : Pc} {last : ReadResult} {infos : List ServiceInfo}
    {recEnd closed crashed : Bool} {broadcastQuit firstReads : List ℕ} {log : List Report}
    (h : Timely s) (hsub : ∀ n ∈ s.firstReads, n ∈ firstReads)
    (hp : s.tasks ≠ [] → pc = .launched ∨ (pc = .reading ∧ recEnd = false) ∨ s.call ∈ firstReads) :
    Timely { s with
      pc := pc, last := last, infos := infos, recEnd := recEnd, broadcastQuit := broadcastQuit
      closed := closed, crashed := crashed, firstReads := firstReads, log := log } where
  heard := hp
  early := fun t ht hcut => hsub _ (h.early t ht hcut)

theorem Timely.later (h : Timely s) (hl : s.pc ≠ .launched) (hr : s.pc ≠ .reading)
    (ht : s.tasks ≠ []) : s.call ∈ s.firstReads := by
  rcases h.heard ht with hp | ⟨hp, -⟩ | hheard
  · exact absurd hp hl
  · exact absurd hp hr
  · exact hheard

theorem conclude_eq (s : State) (token : Option ℕ) : ∃ pc log, pc ≠ Pc.launched ∧
    conclude s token = { s with pc := pc, log := log } := by
  unfold conclude
  split
  · exact ⟨.idle, _, by decide, rfl⟩
  · exact ⟨.panicked, _, by decide, rfl⟩

theorem leave_eq (s : State) : ∃ pc log, pc ≠ Pc.launched ∧
    leave s = { s with pc := pc, log := log } := by
  unfold leave
  split
  · exact conclude_eq s none
  · exact ⟨.waiting, _, by decide, rfl⟩

theorem examine_eq (s : State) : ∃ pc infos log, pc ≠ Pc.launched ∧
    examine s = { s with pc := pc, infos := infos, log := log } := by
  have hleave : ∃ pc infos log, pc ≠ Pc.launched ∧
      leave s = { s with pc := pc, infos := infos, log := log } := by
    obtain ⟨pc, log, hp, he⟩ := leave_eq s
    exact ⟨pc, s.infos, log, hp, he⟩
  unfold examine
  split
  · split
    · exact ⟨.panicked, _, _, by decide, rfl⟩
    · exact hleave
    · exact ⟨.reading, _, _, by decide, rfl⟩
  · exact hleave

/-- Which fields the statements of a call behind the start of its sweep write, and what
they tell the goroutine. -/
def Goes (s u : State) : Prop :=
  ∃ pc last infos recEnd closed crashed broadcastQuit firstReads log,
    u = { s with
      pc := pc, last := last, infos := infos, recEnd := recEnd, broadcastQuit := broadcastQuit
      closed := closed, crashed := crashed, firstReads := firstReads, log := log } ∧
    (firstReads = s.firstReads ∨ (s.pc = .reading ∧ firstReads = s.firstReads ++ [s.call])) ∧
    (pc = .launched → pc = s.pc ∧ firstReads = s.firstReads) ∧
    ((pc = .reading ∧ recEnd = false) ∨ s.call ∈ firstReads ∨
      (s.pc ≠ .launched ∧ s.pc ≠ .reading) ∨ (pc = s.pc ∧ recEnd = s.recEnd))

theorem clearRecEnd_goes (h : clearRecEnd s = some u) : Goes s u := by
  unfold clearRecEnd at h
  split at h
  case isFalse => exact absurd h (Option.some_ne_none u).symm
  case isTrue =>
    cases h
    exact ⟨_, _, _, _, _, _, _, _, _, rfl, .inl rfl, fun hl => absurd hl (by decide),
      .inl ⟨rfl, rfl⟩⟩

theorem clientRead_goes {r : ReadResult} (h : clientRead s r = some u) : Goes s u := by
  unfold clientRead at h
  have hmem : s.call ∈ s.firstReads ++ [s.call] :=
    List.mem_append_right _ (List.mem_singleton_self _)
  split at h
  case isFalse => exact absurd h (Option.some_ne_none u).symm
  case isTrue hp =>
    simp only at h
    split at h
    · cases h
      obtain ⟨pc, log, hpc, he⟩ :=
        conclude_eq { s with last := r, firstReads := s.firstReads ++ [s.call] } none
      exact ⟨_, _, _, _, _, _, _, _, _, he, .inr ⟨hp, rfl⟩, fun hl => absurd hl hpc,
        .inr (.inl hmem)⟩
    · cases h
      exact ⟨_, _, _, _, _, _, _, _, _, rfl, .inr ⟨hp, rfl⟩, fun hl => absurd hl (by decide),
        .inr (.inl hmem)⟩

theorem setRecEnd_goes (h : setRecEnd s = some u) : Goes s u := by
  unfold setRecEnd at h
  split at h
  case isFalse => exact absurd h (Option.some_ne_none u).symm
  case isTrue hp =>
    have hlater : s.pc ≠ .launched ∧ s.pc ≠ .reading := by
      rw [hp]
      decide
    split at h
    · cases h
      exact ⟨_, _, _, _, _, _, _, _, _, rfl, .inl rfl, fun hl => absurd hl (by decide),
        .inr (.inr (.inl hlater))⟩
    · cases h
      obtain ⟨pc, infos, log, hpc, he⟩ := examine_eq { s with recEnd := true }
      exact ⟨_, _, _, _, _, _, _, _, _, he, .inl rfl, fun hl => absurd hl hpc,
        .inr (.inr (.inl hlater))⟩

theorem join_goes (h : join s = some u) : Goes s u := by
  unfold join at h
  split at h
  case isFalse => exact absurd h (Option.some_ne_none u).symm
  case isTrue hp =>
    have hlater : s.pc ≠ .launched ∧ s.pc ≠ .reading := by
      rw [hp]
      decide
    split at h
    · cases h
      rename_i token rest hq
      obtain ⟨pc, log, hpc, he⟩ := conclude_eq { s with broadcastQuit := rest } (some token)
      exact ⟨_, _, _, _, _, _, _, _, _, he, .inl rfl, fun hl => absurd hl hpc,
        .inr (.inr (.inl hlater))⟩
    · split at h
      case isFalse => exact absurd h (Option.some_ne_none u).symm
      case isTrue =>
        cases h
        obtain ⟨pc, log, hpc, he⟩ := conclude_eq s none
        exact ⟨_, _, _, _, _, _, _, _, _, he, .inl rfl, fun hl => absurd hl hpc,
          .inr (.inr (.inl hlater))⟩

theorem quit_goes (s : State) : Goes s (quit s) := by
  unfold quit
  split
  · exact ⟨_, _, _, _, _, _, _, _, _, rfl, .inl rfl, fun _ => ⟨rfl, rfl⟩,
      .inr (.inr (.inr ⟨rfl, rfl⟩))⟩
  · exact ⟨_, _, _, _, _, _, _, _, _, rfl, .inl rfl, fun _ => ⟨rfl, rfl⟩,
      .inr (.inr (.inr ⟨rfl, rfl⟩))⟩

theorem step_cases {a : Act} (h : step s a = some u) :
    (∃ c, a = .start c ∧ start s c = some u) ∨ (∃ i, a = .task i ∧ task s i = some u) ∨
      Goes s u := by
  unfold step at h
  split at h
  · exact absurd h (Option.some_ne_none u).symm
  cases a with
  | start c => exact .inl ⟨c, rfl, h⟩
  | task i => exact .inr (.inl ⟨i, rfl, h⟩)
  | clearRecEnd => exact .inr (.inr (clearRecEnd_goes h))
  | read r => exact .inr (.inr (clientRead_goes h))
  | setRecEnd => exact .inr (.inr (setRecEnd_goes h))
  | join => exact .inr (.inr (join_goes h))
  | quit =>
    cases h
    exact .inr (.inr (quit_goes s))

theorem Request.append {calls : List Call} {number : ℕ} {data : Bytes} (c : Call)
    (h : Request calls number data) : Request (calls ++ [c]) number data := by
  obtain ⟨c', hc, hd⟩ := h
  obtain ⟨hlt, -⟩ := List.getElem?_eq_some_iff.1 hc
  exact ⟨c', (List.getElem?_append_left hlt).trans hc, hd⟩

theorem start_timely {c : Call} (hi : Inv s) (h : Timely s) (hu : start s c = some u) :
    Timely u := by
  obtain ⟨hp, hcases⟩ := start_cases hu
  have hnil := (hi.idle hp).1
  obtain rfl | ⟨-, pc, -, rfl⟩ | ⟨-, data, -, rfl⟩ := hcases
  · exact h.move (fun _ hn => hn) fun hne => absurd hnil hne
  · exact ⟨fun hne => absurd hnil hne, h.early⟩
  · refine ⟨fun _ => .inl rfl, fun t ht hcut => ?_⟩
    rcases List.mem_append.1 ht with ht | ht
    · rw [hnil] at ht
      rw [List.mem_singleton.1 ht] at hcut
      exact absurd hcut fresh_not_cutShort
    · exact h.early t (List.mem_append_right _ ht) hcut

theorem task_timely {i : ℕ} (hi : Inv s) (hw : Swept s) (h : Timely s) (g : Cleared s (.task i))
    (hu : task s i = some u) : Timely u := by
  obtain ⟨rfl, t, hl, hc, -, hcases⟩ := task_cases hi hu
  have hne : s.tasks ≠ [] := by
    rw [hl]
    exact List.cons_ne_nil _ _
  have hmem : t ∈ s.tasks := by
    rw [hl]
    exact List.mem_singleton_self t
  obtain ⟨-, rfl⟩ | ⟨hp, rfl⟩ := hcases
  · refine ⟨fun hnil => absurd rfl hnil, fun t' ht hcut => ?_⟩
    rcases List.mem_append.1 ht with ht | ht
    · cases ht
    · rcases List.mem_append.1 ht with ht | ht
      · exact h.early t' (List.mem_append_right _ ht) hcut
      · rw [List.mem_singleton.1 ht] at hcut ⊢
        exact h.early t (List.mem_append_left _ hmem) hcut
  · refine ⟨fun _ => h.heard hne, fun t' ht hcut => ?_⟩
    rcases List.mem_append.1 ht with ht | ht
    · rw [List.mem_singleton.1 ht] at hcut ⊢
      change t.call ∈ s.firstReads
      rw [hc]
      exact heard_of_cutShort (by decide) (hw.placed t hmem) hp hcut (h.heard hne)
        (g t (by rw [hl]; rfl))
    · exact h.early t' (List.mem_append_right _ ht) hcut

theorem step_timely {a : Act} (hi : Inv s) (hw : Swept s) (h : Timely s) (g : Cleared s a)
    (hu : step s a = some u) : Timely u := by
  obtain ⟨c, rfl, hstart⟩ | ⟨i, rfl, htask⟩ |
    ⟨_, _, _, _, _, _, _, firstReads, _, rfl, hreads, -, htold⟩ := step_cases hu
  · exact start_timely hi h hstart
  · exact task_timely hi hw h g htask
  have hsub : ∀ n ∈ s.firstReads, n ∈ firstReads := by
    intro n hn
    obtain rfl | ⟨-, rfl⟩ := hreads
    · exact hn
    · exact List.mem_append_left _ hn
  refine h.move hsub fun hne => ?_
  obtain hr | hheard | ⟨hl, hr⟩ | ⟨rfl, rfl⟩ := htold
  · exact .inr (.inl hr)
  · exact .inr (.inr hheard)
  · exact .inr (.inr (hsub _ (h.later hl hr hne)))
  · rcases h.heard hne with hp | hp | hheard
    · exact .inl hp
    · exact .inr (.inl hp)
    · exact .inr (.inr (hsub _ hheard))

theorem init_timely (caller : Caller) (broadcastValid : Bool) : Timely (init caller broadcastValid) :=
  ⟨fun h => absurd rfl h, fun _ ht => absurd ht List.not_mem_nil⟩

theorem init_unread (caller : Caller) (broadcastValid : Bool) : Unread (init caller broadcastValid) :=
  ⟨fun _ hn => absurd hn List.not_mem_nil, fun _ => List.not_mem_nil⟩

theorem start_unread {c : Call} (h : Unread s) (hu : start s c = some u) : Unread u := by
  have hgrow : ∀ n ∈ s.firstReads, n < (s.calls ++ [c]).length := by
    intro n hn
    have hlt := h.numbers n hn
    rw [List.length_append]
    omega
  have hnew : s.calls.length ∉ s.firstReads := fun hn => Nat.lt_irrefl _ (h.numbers _ hn)
  obtain ⟨-, rfl | ⟨-, pc, -, rfl⟩ | ⟨-, data, -, rfl⟩⟩ := start_cases hu
  · exact ⟨h.numbers, fun hl => Pc.noConfusion hl⟩
  · exact ⟨hgrow, fun _ => hnew⟩
  · exact ⟨hgrow, fun _ => hnew⟩

theorem step_unread {a : Act} (hi : Inv s) (h : Unread s) (hu : step s a = some u) : Unread u := by
  obtain ⟨c, rfl, hstart⟩ | ⟨i, rfl, htask⟩ |
    ⟨_, _, _, _, _, _, _, _, _, rfl, hreads, hlaunched, -⟩ := step_cases hu
  · exact start_unread h hstart
  · obtain ⟨-, t, -, -, -, ⟨-, rfl⟩ | ⟨-, rfl⟩⟩ := task_cases hi htask
    · exact ⟨h.numbers, h.launched⟩
    · exact ⟨h.numbers, h.launched⟩
  refine ⟨fun n hn => ?_, fun hl => ?_⟩
  · obtain rfl | ⟨hp, rfl⟩ := hreads
    · exact h.numbers n hn
    · rcases List.mem_append.1 hn with hn | hn
      · exact h.numbers n hn
      · have hnumber := hi.books.number (inCall_at hp (by decide))
        rw [List.mem_singleton.1 hn]
        exact Nat.lt_of_succ_le hnumber.le
  · obtain ⟨rfl, rfl⟩ := hlaunched hl
    exact h.launched hl

end Coverage

end MiniServiceDiscover.GoSweep
