import MiniServiceDiscover.JavaInquiry
import MiniServiceDiscover.JavaRequest
import MiniServiceDiscover.JavaSweep

set_option autoImplicit false

/-! A call of the Java clients up to its notice: what it has received since its start,
and what its fields say of that. -/
namespace MiniServiceDiscover.JavaCalls
open JavaProtocal JavaProvider JavaRequest JavaSweep StepRuns WireFormat
open JavaDaemon (OrgJson getServiceInfo)

def received : Act → Option JavaBytes
  | .receive reply => reply.map Reply.buffer
  | _ => none

/-- The buffers received, in order. -/
def replies (acts : List Act) : List JavaBytes := acts.filterMap received

/-- Every act but the start of a call. -/
def Within (a : Act) : Prop := ∀ c, a ≠ .start c

/-- A success was received, and no failure after the last one. -/
def SuccessLast (rs : List JavaBytes) : Prop :=
  ∃ front data rest, rs = front ++ data :: rest ∧ Accepted .actionSucc data ∧
    ∀ b ∈ rest, ¬ Accepted .actionFail b

/-- The flag a call began with, and the replies in it, are such that the last decisive
reply tells whether there was a success. -/
structure Current (old : Bool) (rs : List JavaBytes) : Prop where
  heard : (∃ b ∈ rs, Accepted .actionSucc b) → SuccessLast rs
  silent : (∀ b ∈ rs, ¬ Accepted .actionSucc b) → old = true → ∃ b ∈ rs, Accepted .actionFail b

/-- The reply a call has read and not yet examined. -/
def pending (s : State) : List JavaBytes := if s.pc = .received then s.buffer.toList else []

section Steps
variable {oj : OrgJson} {s u : State} {data : JavaBytes}

/-- One pass of the loop throws, or makes this of a reply. -/
theorem examine_cases (oj : OrgJson) (hb : s.buffer = some data) : (examine oj s).pc = .idle ∨
    (Accepted .actionSucc data ∧ s.client = .registerClient ∧
      examine oj s = { s with pc := .reading, succ := true }) ∨
    (Accepted .actionSucc data ∧ s.client = .inquiryClient ∧ ∃ info list,
      getServiceInfo oj data = .ok info ∧ add info s.infoList = .ok list ∧
      examine oj s = { s with pc := .reading, succ := true, infoList := list }) ∨
    (Accepted .actionFail data ∧ ∃ reason,
      examine oj s = { s with pc := .reading, succ := false, failReason := reason }) ∨
    (¬ Accepted .actionSucc data ∧ ¬ Accepted .actionFail data ∧
      examine oj s = { s with pc := .reading }) := by
  cases ha : decodeAction data with
  | error e =>
    left
    rw [examine]
    simp only [hb, ha]
  | ok action =>
    rw [examine_decoded oj hb ha]
    split
    case isTrue hs =>
      have hr : Accepted .actionSucc data := by rw [Accepted, ha, hs]
      unfold succeed
      split
      · rename_i hc
        exact .inr (.inl ⟨hr, hc, rfl⟩)
      · rename_i hc
        split
        · exact .inl rfl
        · rename_i info hi
          split
          · exact .inl rfl
          · rename_i list hl
            exact .inr (.inr (.inl ⟨hr, hc, info, list, hi, hl, rfl⟩))
    case isFalse hs =>
      have hns : ¬ Accepted .actionSucc data := fun h => hs (Except.ok.inj (ha.symm.trans h))
      split
      case isTrue hf =>
        have hr : Accepted .actionFail data := by rw [Accepted, ha, hf]
        split
        · exact .inl rfl
        · exact .inr (.inr (.inr (.inl ⟨hr, _, rfl⟩)))
      case isFalse hf =>
        exact .inr (.inr (.inr (.inr ⟨hns, fun h => hf (Except.ok.inj (ha.symm.trans h)), rfl⟩)))

theorem task_carries {i : ℕ} {found : Bool} (h : task s i found = some u) : u.pc = s.pc ∧
    u.buffer = s.buffer ∧ u.client = s.client ∧ u.succ = s.succ ∧ u.infoList = s.infoList ∧
    u.recEnd = s.recEnd ∧ u.runSearchFinish = s.runSearchFinish := by
  unfold task at h
  split at h
  · exact absurd h (Option.some_ne_none u).symm
  rename_i t _
  split at h
  · cases h
    exact ⟨rfl, rfl, rfl, rfl, rfl, rfl, rfl⟩
  · rename_i data _
    split at h
    · cases h
      exact ⟨rfl, rfl, rfl, rfl, rfl, rfl, rfl⟩
    · obtain ⟨_, _, _, _, he⟩ := advance_eq s t data found
      simp only [he] at h
      cases h
      exact ⟨rfl, rfl, rfl, rfl, rfl, rfl, rfl⟩

theorem pending_eq_nil (h : s.pc ≠ .received) : pending s = [] := if_neg h

theorem within_or_start (a : Act) : Within a ∨ ∃ c, a = .start c := by
  cases a with
  | start c => exact .inr ⟨c, rfl⟩
  | _ => exact .inl fun _ => Act.noConfusion

theorem task_within {i : ℕ} {found : Bool} (h : task s i found = some u) :
    u.client = s.client ∧ u.succ = s.succ ∧ u.infoList = s.infoList ∧
      (s.pc = .idle → u.pc = .idle) ∧ pending u = pending s := by
  obtain ⟨hp, hb, hc, hs, hi, -, -⟩ := task_carries h
  refine ⟨hc, hs, hi, fun hpc => hp.trans hpc, ?_⟩
  rw [pending, pending, hp, hb]

/-- Only examining a reply writes what a call tells. -/
theorem within_cases {a : Act} (h : step oj s a = some u) (hw : Within a) :
    (received a = none ∧ u.client = s.client ∧ u.succ = s.succ ∧ u.infoList = s.infoList ∧
      (s.pc = .idle → u.pc = .idle) ∧ pending u = pending s) ∨
    ((∃ packet, s.pc = .listening packet) ∧ ∃ reply arrays packets, a = .receive reply ∧ u =
      { s with
        pc := .received, arrays := arrays, packets := packets, buffer := reply.map Reply.buffer
        firstReads := s.firstReads ++ [s.call] }) ∨
    (s.pc = .received ∧ a = .setRecEnd ∧ u = examine oj { s with recEnd := true }) := by
  cases a with
  | start c => exact absurd rfl (hw c)
  | task i => exact .inl ⟨rfl, task_within h⟩
  | unresolved i => exact .inl ⟨rfl, task_within h⟩
  | clearRecEnd =>
    change JavaSweep.clearRecEnd s = some u at h
    unfold JavaSweep.clearRecEnd at h
    split at h
    case isFalse => exact absurd h (Option.some_ne_none u).symm
    case isTrue hp =>
      cases h
      refine .inl ⟨rfl, rfl, rfl, rfl, fun hpc => absurd (hp.symm.trans hpc) (by decide), ?_⟩
      rw [pending_eq_nil (s := s) (by rw [hp]; decide), pending_eq_nil Pc.noConfusion]
  | newPacket =>
    change JavaSweep.newPacket s = some u at h
    unfold JavaSweep.newPacket at h
    split at h
    case isFalse => exact absurd h (Option.some_ne_none u).symm
    case isTrue hp =>
      cases h
      refine .inl ⟨rfl, rfl, rfl, rfl, fun hpc => absurd (hp.symm.trans hpc) (by decide), ?_⟩
      rw [pending_eq_nil (s := s) (by rw [hp]; decide), pending_eq_nil Pc.noConfusion]
  | listen =>
    change JavaSweep.listen s = some u at h
    unfold JavaSweep.listen at h
    split at h
    case isFalse => exact absurd h (Option.some_ne_none u).symm
    case isTrue hp =>
      obtain ⟨packet, -, rfl⟩ := Option.map_eq_some_iff.1 h
      refine .inl ⟨rfl, rfl, rfl, rfl, fun hpc => absurd (hp.symm.trans hpc) (by decide), ?_⟩
      rw [pending_eq_nil (s := s) (by rw [hp]; decide), pending_eq_nil Pc.noConfusion]
  | receive reply =>
    obtain ⟨hp, arrays, packets, -, hu⟩ := clientReceive_cases h
    exact .inr (.inl ⟨hp, reply, arrays, packets, rfl, hu⟩)
  | setRecEnd =>
    change JavaSweep.setRecEnd oj s = some u at h
    unfold JavaSweep.setRecEnd at h
    split at h
    case isFalse => exact absurd h (Option.some_ne_none u).symm
    case isTrue hp => exact .inr (.inr ⟨hp, rfl, (Option.some.inj h).symm⟩)
  | notice =>
    change callNotice s = some u at h
    unfold callNotice at h
    split at h
    case isFalse => exact absurd h (Option.some_ne_none u).symm
    case isTrue hp =>
      have hs : pending s = [] := pending_eq_nil (by rw [hp]; decide)
      have hidle : s.pc ≠ .idle := by rw [hp]; decide
      split at h
      · cases h
        exact .inl ⟨rfl, rfl, rfl, rfl, fun h => absurd h hidle,
          (pending_eq_nil (by decide : Pc.idle ≠ .received)).trans hs.symm⟩
      · cases h
        exact .inl ⟨rfl, rfl, rfl, rfl, fun h => absurd h hidle,
          (pending_eq_nil (by decide : Pc.joining ≠ .received)).trans hs.symm⟩
  | join =>
    change JavaSweep.join s = some u at h
    unfold JavaSweep.join at h
    split at h
    case isFalse => exact absurd h (Option.some_ne_none u).symm
    case isTrue hp =>
      have hs : pending s = [] := pending_eq_nil (by rw [hp.1]; decide)
      have hidle : s.pc ≠ .idle := by rw [hp.1]; decide
      cases h
      exact .inl ⟨rfl, rfl, rfl, rfl, fun h => absurd h hidle,
        (pending_eq_nil (by decide : Pc.idle ≠ .received)).trans hs.symm⟩

end Steps

section Calls
variable {oj : OrgJson} {guard : State → Act → Prop} {s₁ s : State} {acts : List Act}

theorem replies_append (acts : List Act) (a : Act) :
    replies (acts ++ [a]) = replies acts ++ (received a).toList := by
  rw [replies, List.filterMap_append, ← replies]
  cases h : received a with
  | none => rw [List.filterMap_cons_none h]; rfl
  | some data => rw [List.filterMap_cons_some h]; rfl

theorem examine_client (oj : OrgJson) (s : State) : (examine oj s).client = s.client := by
  obtain ⟨_, _, _, _, -, he⟩ := examine_eq oj s
  rw [he]

theorem examine_none (oj : OrgJson) {s : State} (hb : s.buffer = none) :
    examine oj s = { s with pc := .notice } := by
  unfold examine
  split
  · rfl
  · rename_i data hsome
    exact absurd (hsome.symm.trans hb) (Option.some_ne_none data)

theorem examine_pending {data : JavaBytes} (hb : s.buffer = some data)
    (hend : (examine oj s).pc ≠ .idle) : pending (examine oj s) = [] := by
  obtain hi | ⟨-, -, he⟩ | ⟨-, -, _, _, -, -, he⟩ | ⟨-, _, he⟩ | ⟨-, -, he⟩ :=
    examine_cases oj hb
  · exact absurd hi hend
  · rw [he, pending_eq_nil Pc.noConfusion]
  · rw [he, pending_eq_nil Pc.noConfusion]
  · rw [he, pending_eq_nil Pc.noConfusion]
  · rw [he, pending_eq_nil Pc.noConfusion]

theorem examine_tells {P : List JavaBytes → Bool → ServiceInfoList → Prop} {rs : List JavaBytes}
    (hp : ∀ data, s.buffer = some data → (examine oj s).pc ≠ .idle →
      P (rs ++ [data]) (examine oj s).succ (examine oj s).infoList)
    (hP : P rs s.succ s.infoList) : (examine oj s).pc = .idle ∨
      ∃ rs', rs ++ s.buffer.toList = rs' ++ pending (examine oj s) ∧
        P rs' (examine oj s).succ (examine oj s).infoList := by
  by_cases hend : (examine oj s).pc = .idle
  · exact .inl hend
  right
  cases hb : s.buffer with
  | none =>
    rw [examine_none oj hb]
    exact ⟨rs, by rw [pending_eq_nil Pc.noConfusion]; rfl, hP⟩
  | some data =>
    refine ⟨rs ++ [data], ?_, hp data hb hend⟩
    rw [examine_pending hb hend, List.append_nil]
    rfl

/-- What examining each reply in turn keeps up holds until the call ends. -/
theorem call_told {P : List JavaBytes → Bool → ServiceInfoList → Prop} (hl : s₁.pc ≠ .received)
    (h0 : s₁.pc ≠ .idle → P [] s₁.succ s₁.infoList)
    (hp : ∀ rs (s : State) data, s.client = s₁.client → P rs s.succ s.infoList →
      s.buffer = some data → (examine oj s).pc ≠ .idle →
      P (rs ++ [data]) (examine oj s).succ (examine oj s).infoList)
    (h : Runs (step oj) guard s₁ acts s) (hw : ∀ a ∈ acts, Within a) (hpc : s.pc ≠ .idle) :
    ∃ rs, replies acts = rs ++ pending s ∧ P rs s.succ s.infoList := by
  have key : (∀ a ∈ acts, Within a) → s.client = s₁.client ∧ (s.pc = .idle ∨
      ∃ rs, replies acts = rs ++ pending s ∧ P rs s.succ s.infoList) := by
    refine h.history (fun front s => (∀ a ∈ front, Within a) → s.client = s₁.client ∧
      (s.pc = .idle ∨ ∃ rs, replies front = rs ++ pending s ∧ P rs s.succ s.infoList)) ?_ ?_
    · intro _
      refine ⟨rfl, ?_⟩
      by_cases hidle : s₁.pc = .idle
      · exact .inl hidle
      · exact .inr ⟨[], by rw [pending_eq_nil hl]; rfl, h0 hidle⟩
    · intro front s a u ih _ hu hfront
      obtain ⟨hc, ih⟩ := ih fun b hb => hfront b (List.mem_append_left _ hb)
      have ha : Within a := hfront a (List.mem_append_right _ (List.mem_singleton_self a))
      obtain ⟨hnone, hclient, hsucc, hlist, hidle, hpend⟩ |
        ⟨⟨packet, hread⟩, reply, _, _, rfl, rfl⟩ | ⟨hrec, rfl, rfl⟩ := within_cases hu ha
      · refine ⟨hclient.trans hc, ih.imp hidle ?_⟩
        rintro ⟨rs, hrs, hP⟩
        refine ⟨rs, ?_, by rwa [hsucc, hlist]⟩
        rw [replies_append, hnone, hrs, hpend]
        exact List.append_nil _
      · refine ⟨hc, .inr ?_⟩
        obtain ⟨rs, hrs, hP⟩ := ih.resolve_left (by rw [hread]; exact Pc.noConfusion)
        rw [pending_eq_nil (s := s) (by rw [hread]; exact Pc.noConfusion), List.append_nil] at hrs
        exact ⟨rs, by rw [replies_append, hrs]; rfl, hP⟩
      · obtain ⟨rs, hrs, hP⟩ := ih.resolve_left (by rw [hrec]; decide)
        refine ⟨(examine_client oj _).trans hc, ?_⟩
        rw [replies_append]
        change _ ∨ ∃ rs', replies front ++ [] = _ ∧ _
        rw [List.append_nil, hrs, pending, if_pos hrec]
        exact examine_tells (s := { s with recEnd := true }) (hp rs _ · hc hP) hP
  exact (key hw).2.resolve_left hpc

theorem stays_idle {u v : State} (h : Runs (step oj) guard u acts v) (hw : ∀ a ∈ acts, Within a)
    (hu : u.pc = .idle) : v.pc = .idle := by
  induction h with
  | refl _ => exact hu
  | @next s u _ a _ _ hstep _ ih =>
    refine ih (fun b hb => hw b (List.mem_cons_of_mem _ hb)) ?_
    obtain ⟨-, -, -, -, hidle, -⟩ | ⟨⟨packet, hread⟩, -⟩ | ⟨hrec, -⟩ :=
      within_cases hstep (hw a (List.mem_cons_self ..))
    · exact hidle hu
    · exact absurd (hread.symm.trans hu) Pc.noConfusion
    · exact absurd (hrec.symm.trans hu) (by decide)

/-- A call is ignored, or enters, and then an exception ends it at once or it goes on. -/
theorem start_outcome {c : Call} {s u : State} (h : start oj s c = some u) : s.pc = .idle ∧
    ((u = s ∧ s.runSearchFinish = false) ∨
      (s.runSearchFinish = true ∧ u.client = s.client ∧ u.succ = s.succ ∧
        u.infoList = (enter s c).infoList ∧ u.runSearchFinish = false ∧
        ((u.pc = .idle ∧ (ClearThrows s ∨ ∃ e, c.packet oj = .error e)) ∨
          (u.pc = .launched ∧ ¬ ClearThrows s ∧ ∃ data, c.packet oj = .ok data)))) := by
  unfold start at h
  split at h
  case isFalse => exact absurd h (Option.some_ne_none u).symm
  case isTrue hg =>
    refine ⟨hg.1, ?_⟩
    split at h
    case isFalse hf =>
      cases h
      exact .inl ⟨rfl, Bool.eq_false_of_not_eq_true hf⟩
    case isTrue hf =>
      refine .inr ⟨hf, ?_⟩
      split at h
      case isTrue ht =>
        cases h
        exact ⟨rfl, rfl, rfl, rfl, .inl ⟨hg.1, .inl ht⟩⟩
      case isFalse ht =>
        split at h
        · rename_i e he
          cases h
          exact ⟨rfl, rfl, rfl, rfl, .inl ⟨hg.1, .inr ⟨e, he⟩⟩⟩
        · rename_i data hd
          split at h <;> cases h <;> exact ⟨rfl, rfl, rfl, rfl, .inr ⟨rfl, ht, data, hd⟩⟩

/-- The call that stands at its notice has entered, and has examined all it received. -/
theorem notice_told {P : State → List JavaBytes → Bool → ServiceInfoList → Prop}
    {before during : List Act} {c : Call} {s₀ s : State}
    (h : Runs (step oj) guard s₀ (before ++ .start c :: during) s) (hw : ∀ a ∈ during, Within a)
    (hn : s.pc = .notice)
    (h0 : ∀ u : State, P u [] u.succ (enter u c).infoList)
    (hp : ∀ (u s : State) rs data, s.client = u.client → P u rs s.succ s.infoList →
      s.buffer = some data → (examine oj s).pc ≠ .idle →
      P u (rs ++ [data]) (examine oj s).succ (examine oj s).infoList) :
    ∃ u, Runs (step oj) guard s₀ before u ∧ P u (replies during) s.succ s.infoList := by
  obtain ⟨u, hbefore, hcall⟩ := h.split
  refine ⟨u, hbefore, ?_⟩
  cases hcall with
  | @next _ u₁ _ _ _ _ hstart tail =>
    have hidle : s.pc ≠ .idle := by rw [hn]; decide
    have hentered : u₁.pc ≠ .idle := fun hi => hidle (stays_idle tail hw hi)
    obtain ⟨hu, ⟨rfl, -⟩ | ⟨-, hc, hs, hi, -, ⟨hp, -⟩ | ⟨hl, -, -⟩⟩⟩ := start_outcome hstart
    · exact absurd hu hentered
    · exact absurd hp hentered
    obtain ⟨rs, hrs, hP⟩ := call_told (P := P u) (by rw [hl]; decide)
      (fun _ => by rw [hs, hi]; exact h0 u)
      (fun rs s data hclient => hp u s rs data (hclient.trans hc)) tail hw hidle
    rw [pending_eq_nil (s := s) (by rw [hn]; decide), List.append_nil] at hrs
    rwa [hrs]

end Calls

section Flag
variable {oj : OrgJson}

theorem not_both {data : JavaBytes} (h : Accepted .actionSucc data) : ¬ Accepted .actionFail data :=
  fun h' => absurd (Except.ok.inj (h.symm.trans h')) (by decide)

/-- The flag keeps up: the last decisive reply, or the flag from before. -/
def Told (old : Bool) (rs : List JavaBytes) (flag : Bool) : Prop :=
  flag = true ↔ SuccessLast rs ∨ (old = true ∧ ∀ b ∈ rs, ¬ Accepted .actionFail b)

/-- The flag tells of a success in the call exactly when it is current. -/
theorem Told.current_iff {old flag : Bool} {rs : List JavaBytes} (h : Told old rs flag) :
    (flag = true ↔ ∃ b ∈ rs, Accepted .actionSucc b) ↔ Current old rs := by
  have hlast : SuccessLast rs → ∃ b ∈ rs, Accepted .actionSucc b := by
    rintro ⟨front, b, rest, rfl, hb, -⟩
    exact ⟨b, List.mem_append_right _ (List.mem_cons_self ..), hb⟩
  have hfree : (∀ b ∈ rs, ¬ Accepted .actionFail b) → (∃ b ∈ rs, Accepted .actionSucc b) →
      SuccessLast rs := by
    rintro hno ⟨b, hb, hs⟩
    obtain ⟨front, rest, rfl⟩ := List.append_of_mem hb
    exact ⟨front, b, rest, rfl, hs, fun x hx =>
      hno x (List.mem_append_right _ (List.mem_cons_of_mem _ hx))⟩
  unfold Told at h
  rw [h]
  constructor
  · intro hiff
    refine ⟨fun hs => ?_, fun hnone hold => ?_⟩
    · exact (hiff.2 hs).elim id fun hc => hfree hc.2 hs
    · by_contra hno
      obtain ⟨b, hb, hs⟩ := hiff.1 (.inr ⟨hold, fun b hb hf => hno ⟨b, hb, hf⟩⟩)
      exact hnone b hb hs
  · intro hc
    refine ⟨?_, fun hs => .inl (hc.heard hs)⟩
    rintro (hl | ⟨hold, hno⟩)
    · exact hlast hl
    · by_contra hnone
      obtain ⟨b, hb, hf⟩ := hc.silent (fun b hb hs => hnone ⟨b, hb, hs⟩) hold
      exact hno b hb hf

end Flag

section Replies

section Reading
variable {oj : OrgJson} {guard : State → Act → Prop} {s : State} {reply : Option JavaBytes}

/-- The buffer of the call is there. -/
def Buffered (s : State) : Prop := (arrayAt s s.callBuffer).length = protocalLen

/-- A datagram that fills the buffer, from the first host. -/
def fullReply (r : JavaBytes) : Reply := ⟨.host 1, r, r⟩

def readActs (reply : Option JavaBytes) : List Act :=
  [.newPacket, .listen, .receive (reply.map fullReply)]

theorem fill_full {r : JavaBytes} {packet : ℕ} (sender : Peer) (hb : Buffered s)
    (hr : r.length = protocalLen)
    (hp : s.packets[packet]? = some ⟨s.callBuffer, protocalLen, none⟩) :
    ∃ packets, fill s packet sender r =
      { s with arrays := s.arrays.set s.callBuffer r, packets := packets } := by
  have htake : r.take protocalLen = r := List.take_of_length_le hr.le
  have hreceive : JavaDaemon.receive r (arrayAt s s.callBuffer) = r := by
    rw [JavaDaemon.receive, hb, htake, List.drop_eq_nil_of_le (hb.trans hr.symm).le,
      List.append_nil]
  refine ⟨s.packets.set packet ⟨s.callBuffer, r.length, some sender⟩, ?_⟩
  rw [fill, hp]
  simp only [htake, hreceive]

theorem arrayAt_set {r : JavaBytes} (hb : Buffered s) :
    (s.arrays.set s.callBuffer r).getD s.callBuffer [] = r := by
  have hlt : s.callBuffer < s.arrays.length := by
    by_contra hge
    have hnone : arrayAt s s.callBuffer = [] := by
      rw [arrayAt, List.getD_eq_getElem?_getD, List.getElem?_eq_none (Nat.not_lt.1 hge)]
      rfl
    rw [Buffered, hnone] at hb
    exact absurd hb (by decide)
  rw [List.getD_eq_getElem?_getD, List.getElem?_set_self hlt]
  rfl

theorem clientReceive_full {r : JavaBytes} {packet : ℕ} (hp : s.pc = .listening packet)
    (hb : Buffered s) (hr : r.length = protocalLen)
    (hpacket : s.packets[packet]? = some ⟨s.callBuffer, protocalLen, none⟩) :
    ∃ packets, clientReceive s (some (fullReply r)) = some { s with
      pc := .received, arrays := s.arrays.set s.callBuffer r, packets := packets, buffer := some r
      firstReads := s.firstReads ++ [s.call] } := by
  obtain ⟨packets, hfill⟩ := fill_full (.host 1) hb hr hpacket
  have hread : arrayAt (fill s packet (.host 1) r) s.callBuffer = r := by
    rw [hfill]
    exact arrayAt_set hb
  refine ⟨packets, ?_⟩
  unfold clientReceive
  rw [hp]
  change (if arrayAt (fill s packet (.host 1) r) s.callBuffer = r then
    some { fill s packet (.host 1) r with
      pc := .received, buffer := some r, firstReads := s.firstReads ++ [s.call] } else none) = _
  rw [if_pos hread, hfill]

theorem received_readActs (reply : Option JavaBytes) :
    received (.receive (reply.map fullReply)) = reply := by
  cases reply <;> rfl

/-- One `receive`, where the thread does not come in between. -/
theorem runs_read {u : State} {acts : List Act} (h : Runs (step oj) guard u acts s)
    (reply : Option JavaBytes) (hg : ∀ s a, received a = none ∨ received a = reply → guard s a)
    (hp : s.pc = .reading) (hb : Buffered s) (hr : ∀ r, reply = some r → r.length = protocalLen) :
    ∃ arrays packets dataPacket, (arrays.getD s.callBuffer []).length = protocalLen ∧
      Runs (step oj) guard u (acts ++ readActs reply) { s with
        pc := .received, arrays := arrays, packets := packets, dataPacket := dataPacket
        buffer := reply, firstReads := s.firstReads ++ [s.call] } := by
  have hnew : step oj s .newPacket =
      some { assign s s.callBuffer none with pc := .packed } := if_pos hp
  have hlisten : step oj { assign s s.callBuffer none with pc := .packed } .listen =
      some { assign s s.callBuffer none with pc := .listening s.packets.length } := rfl
  have htail : ∀ v, clientReceive
      { assign s s.callBuffer none with pc := .listening s.packets.length }
      (reply.map fullReply) = some v → Runs (step oj) guard u (acts ++ readActs reply) v :=
    fun v hv => h.trans (.next (hg _ _ (.inl rfl)) hnew (.next (hg _ _ (.inl rfl)) hlisten
      (.next (hg _ _ (.inr (received_readActs reply))) hv (.refl _))))
  cases reply with
  | none => exact ⟨_, _, _, hb, htail _ rfl⟩
  | some r =>
    have hlen := hr r rfl
    have hbuffer : Buffered { assign s s.callBuffer none with
        pc := .listening s.packets.length } := hb
    have hpacket : ({ assign s s.callBuffer none with pc := .listening s.packets.length } :
        State).packets[s.packets.length]? = some ⟨s.callBuffer, protocalLen, none⟩ := by
      rw [← hb]
      exact List.getElem?_concat_length
    obtain ⟨packets, hreceive⟩ := clientReceive_full rfl hbuffer hlen hpacket
    refine ⟨s.arrays.set s.callBuffer r, packets, some s.packets.length, ?_, htail _ hreceive⟩
    rw [arrayAt_set hb]
    exact hlen

end Reading

section Registered
variable {oj : OrgJson} {c : Call} {data : JavaBytes}

theorem examine_registered {s : State} {reply : JavaBytes} (hr : Accepted .actionSucc reply)
    (hc : s.client = .registerClient) (hb : s.buffer = some reply) :
    examine oj s = { s with pc := .reading, succ := true } := by
  rw [examine_decoded oj hb hr, if_pos rfl, succeed]
  simp only [hc]

theorem runs_succeeded {s u : State} {acts : List Act} {reply : JavaBytes}
    (h : Runs (step oj) (fun _ _ => True) s acts u) (hr : Accepted .actionSucc reply)
    (hc : u.client = .registerClient) (hp : u.pc = .received) (hb : u.buffer = some reply) :
    Runs (step oj) (fun _ _ => True) s (acts ++ [.setRecEnd])
      { u with recEnd := true, pc := .reading, succ := true } := by
  have hu : step oj u .setRecEnd = some (examine oj { u with recEnd := true }) := if_pos hp
  rw [examine_registered (s := { u with recEnd := true }) hr hc hb] at hu
  exact h.trans (.next trivial hu (.refl _))

/-- One success in the first call, and nothing in the second. -/
def firstActs (c : Call) (reply : JavaBytes) : List Act :=
  [.start c, .task 0, .task 0, .clearRecEnd] ++ readActs (some reply) ++ [.setRecEnd] ++
    readActs none ++ [.setRecEnd, .notice, .task 0, .task 0, .join]

theorem cleared_buffered (s : State) : Buffered { s with
    pc := .reading, recEnd := false, arrays := s.arrays ++ [List.replicate protocalLen 0]
    callBuffer := s.arrays.length } := by
  rw [Buffered, arrayAt, List.getD_eq_getElem?_getD, List.getElem?_concat_length]
  exact List.length_replicate

def registered (c : Call) (arrays : List JavaBytes) (packets : List Packet)
    (dataPacket : Option ℕ) : State :=
  { init .registerClient false with
    recEnd := true
    arrays := arrays
    packets := packets
    dataPacket := dataPacket
    callBuffer := 1
    succ := true
    cursor := ⟨1, 0⟩
    thread := some 0
    ended := [⟨0, some 0, ⟨.done, []⟩, false, []⟩]
    calls := [c]
    firstReads := [0, 0] }

theorem runs_registered (hc : c.client = .registerClient) (hd : c.packet oj = .ok data)
    {reply : JavaBytes} (hr : Accepted .actionSucc reply) (hl : reply.length = protocalLen) :
    ∃ arrays packets dataPacket, Runs (step oj) (fun _ _ => True) (init .registerClient false)
      (firstActs c reply) (registered c arrays packets dataPacket) := by
  have hstart := start_eq (s := init .registerClient false) rfl hc rfl (fun h => h.2 rfl)
    rfl hd
  have hcleared : Runs (step oj) (fun _ _ => True) (init .registerClient false)
      [.start c, .task 0, .task 0, .clearRecEnd] _ :=
    .next trivial hstart (.next trivial rfl (.next trivial rfl (.next trivial rfl (.refl _))))
  obtain ⟨_, _, _, hb, hfirst⟩ := runs_read hcleared (some reply)
    (fun _ _ _ => trivial) rfl (cleared_buffered _) fun _ h => Option.some.inj h ▸ hl
  have hexamine := runs_succeeded hfirst hr rfl rfl rfl
  obtain ⟨arrays, packets, dataPacket, -, hsecond⟩ := runs_read hexamine none
    (fun _ _ _ => trivial) rfl hb fun _ h => absurd h (Option.some_ne_none _).symm
  exact ⟨arrays, packets, dataPacket,
    hsecond.trans (runs_of_foldlM (fun _ _ _ => trivial) rfl)⟩

end Registered

end Replies

end MiniServiceDiscover.JavaCalls
