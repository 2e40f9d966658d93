import MiniServiceDiscover.CListRefinement
import MiniServiceDiscover.CSweep

set_option autoImplicit false

/-! The loop of `check_result`, in the client and in the server: what its replies lead to,
however the thread runs beside it. -/
namespace MiniServiceDiscover.CCheckResult
open CProtocal CList CSweep StepRuns WireFormat

/-- The packet that an act reads. -/
def reply : Act → Option (List UInt8)
  | .read recPkt => recPkt
  | _ => none

def replies (acts : List Act) : List (List UInt8) := acts.filterMap reply

theorem replies_concat (acts : List Act) (a : Act) :
    replies (acts ++ [a]) = replies acts ++ (reply a).toList := by
  rw [replies, List.filterMap_append, replies]
  cases h : reply a with
  | none => rw [List.filterMap_cons_none h, Option.toList_none, List.filterMap_nil]
  | some pkt => rw [List.filterMap_cons_some h, Option.toList_some, List.filterMap_nil]

section Pass
variable {cj : CJson} {s : State} {pkt : List UInt8}

/-- A success read by `inquiry_service` adds its info. -/
theorem checkResult_inquiry (hc : isInquiry s.call = true)
    (ha : decodeAction pkt = .ok (Action.actionSucc.code.toNat : ℤ)) :
    checkResult cj s pkt = getServiceInfo cj pkt >>= fun info =>
      match info with
      | none => .ok s
      | some info => (listAdd (s.list.top + 1) s.list info).map fun list =>
        { s with list := list } := by
  simp only [checkResult, ha, hc, if_true, bind, Except.bind, pure, Except.pure]
  cases getServiceInfo cj pkt with
  | error e => rfl
  | ok info =>
    cases info with
    | none => rfl
    | some info => rfl

/-- A success read by `server.c` is the result. -/
theorem checkResult_told (hc : isInquiry s.call = false)
    (ha : decodeAction pkt = .ok (Action.actionSucc.code.toNat : ℤ)) :
    checkResult cj s pkt = .ok { s with ret := 0 } := by
  simp only [checkResult, ha, hc, if_true, Bool.false_eq_true, if_false, bind, Except.bind, pure,
    Except.pure]

theorem checkResult_failed (ha : decodeAction pkt = .ok (Action.actionFail.code.toNat : ℤ)) :
    checkResult cj s pkt = (getResult cj pkt).map fun _ => s := by
  have hne : (Action.actionFail.code.toNat : ℤ) ≠ Action.actionSucc.code.toNat := by decide
  simp only [checkResult, ha, hne, if_true, if_false, bind, Except.bind, pure, Except.pure]
  cases getResult cj pkt with
  | error e => rfl
  | ok res => rfl

theorem checkResult_ignored {action : ℤ} (ha : decodeAction pkt = .ok action)
    (hsucc : action ≠ Action.actionSucc.code.toNat)
    (hfail : action ≠ Action.actionFail.code.toNat) : checkResult cj s pkt = .ok s := by
  simp only [checkResult, ha, hsucc, hfail, if_false, bind, Except.bind, pure, Except.pure]

end Pass

section Loop
variable {cj : CJson} {s u : State}

/-- `check_result` has been entered. -/
def Inside (s : State) : Prop :=
  s.pc = .reading ∨ s.pc = .joining ∨ s.pc = .freePkt ∨ s.pc = .deinit ∨ s.pc = .returned

/-- A step that reads no packet. -/
structure Quiet (s u : State) (a : Act) : Prop where
  reply : reply a = none
  call : u.call = s.call
  ret : u.ret = s.ret
  list : u.list = s.list
  inside : Inside u
  defined : ∀ e, u.fault ≠ some (.codec e)

theorem read_none_quiet (cj : CJson) (hf : s.fault = none) : Quiet s (read cj s none) (.read none) :=
  ⟨rfl, rfl, rfl, rfl, .inr (.inl rfl), fun _ he => Option.some_ne_none _ (he.symm.trans hf)⟩

theorem join_quiet (hi : Inside s) (hf : s.fault = none) (hu : join s = some u) :
    Quiet s u .join := by
  have hjoined : Quiet s { s with pc := .freePkt } .join :=
    ⟨rfl, rfl, rfl, rfl, .inr (.inr (.inl rfl)), fun _ he => Option.some_ne_none _ (he.symm.trans hf)⟩
  unfold join at hu
  split at hu
  · split at hu
    · split at hu
      · obtain rfl := Option.some.inj hu
        exact hjoined
      · cases hu
    · obtain rfl := Option.some.inj hu
      exact ⟨rfl, rfl, rfl, rfl, hi, fun e he => Fault.noConfusion (Option.some.inj he)⟩
  · obtain rfl := Option.some.inj hu
    exact hjoined

theorem task_quiet (hi : Inside s) (hf : s.fault = none) (hu : task s = some u) :
    Quiet s u .task := by
  obtain ⟨w, -, ⟨-, rfl⟩ | ⟨-, -, rfl⟩ | ⟨-, -, rfl⟩⟩ := task_cases hu
  · exact ⟨rfl, rfl, rfl, rfl, hi, fun _ he => Option.some_ne_none _ (he.symm.trans hf)⟩
  · exact ⟨rfl, rfl, rfl, rfl, hi, fun e he => Fault.noConfusion (Option.some.inj he)⟩
  · exact ⟨rfl, rfl, rfl, rfl, hi, fun _ he => Option.some_ne_none _ (he.symm.trans hf)⟩

theorem afterPkt_inside (s : State) : Inside (afterPkt s) :=
  (afterPkt_past s).elim (fun h => .inr (.inr (.inr (.inl h)))) fun h => .inr (.inr (.inr (.inr h)))

theorem Inside.ne (h : Inside s) :
    s.pc ≠ .init ∧ s.pc ≠ .getPkt ∧ s.pc ≠ .write ∧ s.pc ≠ .getRecPkt := by
  rcases h with h | h | h | h | h
  all_goals
    rw [h]
    decide

/-- Inside `check_result` a step reads a packet or leaves the list alone. -/
theorem step_inside {a : Act} (hi : Inside s) (hu : CSweep.step cj s a = some u) :
    (∃ pkt, a = .read (some pkt) ∧ s.pc = .reading ∧ s.fault = none ∧ u = read cj s (some pkt)) ∨
      Quiet s u a := by
  obtain ⟨hf, hcases⟩ := step_cases hu
  obtain ⟨_, -, hp, -⟩ | ⟨_, -, hp, -⟩ | ⟨_, -, hp, -⟩ | ⟨_, -, hp, -⟩ | ⟨recPkt, rfl, hp, rfl⟩ |
    ⟨rfl, hp, hjoin⟩ | ⟨rfl, hp, rfl⟩ | ⟨rfl, hp, rfl⟩ | ⟨rfl, htask⟩ := hcases
  · exact absurd hp hi.ne.1
  · exact absurd hp hi.ne.2.1
  · exact absurd hp hi.ne.2.2.1
  · exact absurd hp hi.ne.2.2.2
  · cases recPkt with
    | none => exact .inr (read_none_quiet cj hf)
    | some pkt => exact .inl ⟨pkt, rfl, hp, hf, rfl⟩
  · exact .inr (join_quiet hi hf hjoin)
  · exact .inr ⟨rfl, rfl, rfl, rfl, afterPkt_inside _,
      fun _ he => Option.some_ne_none _ (he.symm.trans hf)⟩
  · exact .inr ⟨rfl, rfl, rfl, rfl, .inr (.inr (.inr (.inr rfl))),
      fun _ he => Option.some_ne_none _ (he.symm.trans hf)⟩
  · exact .inr (task_quiet hi hf htask)

theorem read_inside (cj : CJson) (pkt : List UInt8) (hi : Inside s) :
    Inside (CSweep.read cj s (some pkt)) := by
  obtain ⟨pc, readEnd, ret, list, fault, he, ⟨rfl, -⟩ | ⟨rfl, -⟩⟩ := read_eq cj s (some pkt)
  · rw [he]
    exact .inr (.inl rfl)
  · rw [he]
    exact hi

/-- What holds at the entry of `check_result`, and is kept by a step that reads nothing and
by one pass over a reply, holds of the replies read so far in every run. -/
theorem run_replies {e : State} {acts : List Act} (entry : e.pc = .getRecPkt)
    (run : Runs (CSweep.step cj) (fun _ _ => True) e (.getRecPkt true :: acts) s)
    (I : List (List UInt8) → State → Prop) (start : e.fault = none → I [] (getRecPkt e true))
    (quiet : ∀ pkts s u a, I pkts s → s.fault = none → Quiet s u a → I pkts u)
    (pass : ∀ pkts s pkt, I pkts s → s.fault = none →
      I (pkts ++ [pkt]) (CSweep.read cj s (some pkt))) : I (replies acts) s := by
  cases run with
  | next _ henter tail =>
    have hf := (step_cases henter).1
    have hu : CSweep.step cj e (.getRecPkt true) = some (getRecPkt e true) := by
      unfold CSweep.step
      rw [if_neg (by rw [hf]; exact Bool.false_ne_true), entry]
    obtain rfl := Option.some.inj (henter.symm.trans hu)
    refine (tail.history (fun front s => Inside s ∧ I (replies front) s)
      ⟨.inl rfl, start hf⟩ ?_).2
    rintro front s a u ⟨hi, hs⟩ - hstep
    have hfault := (step_cases hstep).1
    rw [replies_concat]
    rcases step_inside hi hstep with ⟨pkt, rfl, -, -, rfl⟩ | hq
    · exact ⟨read_inside cj pkt hi, pass _ s pkt hs hfault⟩
    · rw [hq.reply, Option.toList_none, List.append_nil]
      exact ⟨hq.inside, quiet _ s u a hs hfault hq⟩

end Loop

end MiniServiceDiscover.CCheckResult
