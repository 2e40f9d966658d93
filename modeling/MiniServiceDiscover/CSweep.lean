import MiniServiceDiscover.AddressSweep
import MiniServiceDiscover.CJsonText
import MiniServiceDiscover.CList
import MiniServiceDiscover.CRoundTrip
import MiniServiceDiscover.StepRuns

set_option autoImplicit false

/-! The C callers: the packet and the client they allocate and free, and the thread
that sweeps the addresses with both. -/
namespace MiniServiceDiscover.CSweep
open CProtocal CList WireFormat StepRuns AddressSweep Fallible

/-- The address at which `prepare_sub_addr` returns `-1`. -/
def lastHost : ℕ := 254

inductive Call where
  | registerService (deviceName serviceName ip : CharPtr) (port : UInt16) (info : CharPtr)
  | unregisterService (deviceName serviceName : CharPtr)
  | inquiryService (name : CharPtr)
  deriving DecidableEq, Repr

inductive Mem where
  | absent
  | allocated
  | freed
  deriving DecidableEq, Repr

/-- `stalePointer` is a step of the thread in memory that the caller has freed, or may
reuse; `noThread` a `pthread_join` of a thread that was not created. -/
inductive Fault where
  | codec (e : CFault)
  | stalePointer
  | noThread
  deriving DecidableEq, Repr

inductive Pc where
  | init
  | getPkt
  | write
  | getRecPkt
  | reading
  | joining
  | freePkt
  | deinit
  | returned
  deriving DecidableEq, Repr

/-- `task` is the live thread; `ret` and `list` are what the call will return. -/
structure State where
  call : Call
  pc : Pc
  isBroadcast : Bool
  client : Mem
  pkt : Mem
  data : List UInt8
  readEnd : Bool
  cursor : Cursor
  created : Bool
  task : Option Sweep
  ret : ℤ
  list : ServiceInfoList
  fault : Option Fault

/-- The `Bool` of an act tells whether an allocation, a socket or a thread is to be
had. -/
inductive Act where
  | initClient (ok : Bool)
  | getPkt (ok : Bool)
  | write (ok : Bool)
  | getRecPkt (ok : Bool)
  | read (recPkt : Option (List UInt8))
  | join
  | freePkt
  | deinit
  | task
  deriving DecidableEq, Repr

/-- All three callers pass `is_broadcast = 0`. -/
def init (call : Call) : State where
  call := call
  pc := .init
  isBroadcast := false
  client := .absent
  pkt := .absent
  data := []
  readEnd := false
  cursor := ⟨0, 0⟩
  created := false
  task := none
  ret := -1
  list := initList
  fault := none

section Steps
variable (cj : CJson)

def Call.packet : Call → Except CFault (List UInt8)
  | .registerService deviceName serviceName ip port info =>
    getRegisterPkt cj deviceName serviceName ip port info
  | .unregisterService deviceName serviceName => getUnregisterPkt cj deviceName serviceName
  | .inquiryService name => getInquiryPkt cj name

def isInquiry : Call → Bool
  | .inquiryService _ => true
  | _ => false

def initClient (s : State) (ok : Bool) : State :=
  if ok then { s with pc := .getPkt, client := .allocated } else { s with pc := .returned }

/-- Only `inquiry_service` gives the client back. -/
def afterPkt (s : State) : State :=
  { s with pc := if isInquiry s.call then .deinit else .returned }

def getPkt (s : State) (ok : Bool) : State :=
  match s.call.packet cj with
  | .error e => { s with fault := some (.codec e) }
  | .ok data => if ok then { s with pc := .write, pkt := .allocated, data := data } else afterPkt s

/-- `write_and_get_result` up to `check_result`. -/
def write (s : State) (ok : Bool) : State :=
  if s.isBroadcast then { s with pc := .getRecPkt }
  else if ok then { s with pc := .getRecPkt, created := true, task := some .fresh }
  else { s with pc := .getRecPkt }

def getRecPkt (s : State) (ok : Bool) : State :=
  if ok then { s with pc := .reading, list := initList } else { s with pc := .joining }

/-- One pass of the loop in `check_result`; `top` bounds the nodes of the list. -/
def checkResult (s : State) (recPkt : List UInt8) : Except CFault State := do
  let action ← decodeAction recPkt
  if action = Action.actionSucc.code.toNat then
    if isInquiry s.call then
      match ← getServiceInfo cj recPkt with
      | none => pure s
      | some info =>
        let list ← listAdd (s.list.top + 1) s.list info
        pure { s with list := list }
    else pure { s with ret := 0 }
  else if action = Action.actionFail.code.toNat then
    let _ ← getResult cj recPkt
    pure s
  else pure s

def read (s : State) (recPkt : Option (List UInt8)) : State :=
  match recPkt with
  | none => { s with pc := .joining }
  | some pkt =>
    let s := { s with readEnd := true }
    match checkResult cj s pkt with
    | .error e => { s with fault := some (.codec e) }
    | .ok s => s

/-- The caller waits for the thread only in broadcast mode. -/
def join (s : State) : Option State :=
  if s.isBroadcast then
    if s.created then
      match s.task with
      | none => some { s with pc := .freePkt }
      | some _ => none
    else some { s with fault := some .noThread }
  else some { s with pc := .freePkt }

def freePkt (s : State) : State := afterPkt { s with pkt := .freed }

def deinit (s : State) : State := { s with pc := .returned, client := .freed }

/-- The loop of `udp_broadcast_data`. -/
def udpBroadcastData (readEnd : Bool) (u : Cursor) (w : Sweep) : Cursor × Sweep :=
  AddressSweep.step lastHost readEnd u w

/-- One statement of the thread; its return touches no memory. -/
def task (s : State) : Option State :=
  match s.task with
  | none => none
  | some w =>
    if w.pc = .done then some { s with task := none }
    else if s.pkt = .freed ∨ s.client = .freed then some { s with fault := some .stalePointer }
    else
      let moved := udpBroadcastData s.readEnd s.cursor w
      some { s with cursor := moved.1, task := some moved.2 }

def step (s : State) (a : Act) : Option State :=
  if s.fault.isSome then none
  else match a, s.pc with
    | .initClient ok, .init => some (initClient s ok)
    | .getPkt ok, .getPkt => some (getPkt cj s ok)
    | .write ok, .write => some (write s ok)
    | .getRecPkt ok, .getRecPkt => some (getRecPkt s ok)
    | .read recPkt, .reading => some (read cj s recPkt)
    | .join, .joining => join s
    | .freePkt, .freePkt => some (freePkt s)
    | .deinit, .deinit => some (deinit s)
    | .task, _ => task s
    | _, _ => none

end Steps

/-- The thread is not in its loop: it was not created, or it has read `read_end` set, or
has sent to the last address. -/
def Over (s : State) : Prop := ∀ w, s.task = some w → w.pc = .done

/-- The caller frees the packet only behind the thread. -/
def Behind (s : State) (a : Act) : Prop := a = .freePkt → Over s

/-- No step in freed memory, and no join without a thread. -/
def Safe (s : State) : Prop := s.fault ≠ some .stalePointer ∧ s.fault ≠ some .noThread

section Lifetime
variable {cj : CJson} {s u : State}

theorem step_cases {a : Act} (h : step cj s a = some u) : s.fault = none ∧
    ((∃ ok, a = .initClient ok ∧ s.pc = .init ∧ u = initClient s ok) ∨
      (∃ ok, a = .getPkt ok ∧ s.pc = .getPkt ∧ u = getPkt cj s ok) ∨
      (∃ ok, a = .write ok ∧ s.pc = .write ∧ u = write s ok) ∨
      (∃ ok, a = .getRecPkt ok ∧ s.pc = .getRecPkt ∧ u = getRecPkt s ok) ∨
      (∃ recPkt, a = .read recPkt ∧ s.pc = .reading ∧ u = read cj s recPkt) ∨
      (a = .join ∧ s.pc = .joining ∧ join s = some u) ∨
      (a = .freePkt ∧ s.pc = .freePkt ∧ u = freePkt s) ∨
      (a = .deinit ∧ s.pc = .deinit ∧ u = deinit s) ∨
      (a = .task ∧ task s = some u)) := by
  unfold step at h
  split at h
  case isTrue => exact absurd h (Option.some_ne_none u).symm
  case isFalse hf =>
    refine ⟨Option.not_isSome_iff_eq_none.1 hf, ?_⟩
    split at h
    · rename_i ok hp
      exact .inl ⟨ok, rfl, hp, (Option.some.inj h).symm⟩
    · rename_i ok hp
      exact .inr (.inl ⟨ok, rfl, hp, (Option.some.inj h).symm⟩)
    · rename_i ok hp
      exact .inr (.inr (.inl ⟨ok, rfl, hp, (Option.some.inj h).symm⟩))
    · rename_i ok hp
      exact .inr (.inr (.inr (.inl ⟨ok, rfl, hp, (Option.some.inj h).symm⟩)))
    · rename_i recPkt hp
      exact .inr (.inr (.inr (.inr (.inl ⟨recPkt, rfl, hp, (Option.some.inj h).symm⟩))))
    · rename_i hp
      exact .inr (.inr (.inr (.inr (.inr (.inl ⟨rfl, hp, h⟩)))))
    · rename_i hp
      exact .inr (.inr (.inr (.inr (.inr (.inr (.inl ⟨rfl, hp, (Option.some.inj h).symm⟩))))))
    · rename_i hp
      exact .inr (.inr (.inr (.inr (.inr (.inr (.inr (.inl
        ⟨rfl, hp, (Option.some.inj h).symm⟩)))))))
    · exact .inr (.inr (.inr (.inr (.inr (.inr (.inr (.inr ⟨rfl, h⟩)))))))
    · exact absurd h (Option.some_ne_none u).symm

/-- The caller is past the packet, if it had one. -/
def Past (s : State) : Prop := s.pc = .deinit ∨ s.pc = .returned

structure Inv (s : State) : Prop where
  mode : s.isBroadcast = false
  joined : s.fault ≠ some .noThread
  calm : s.pc = .freePkt → s.fault = none
  early : s.pc = .init ∨ s.pc = .getPkt ∨ s.pc = .write → s.task = none
  held : s.pkt = .freed ∨ s.client = .freed → Past s

/-- Behind the packet the thread is out of its loop. -/
structure Settled (s : State) : Prop where
  out : Past s → Over s
  safe : s.fault ≠ some .stalePointer

theorem over_of_none (h : s.task = none) : Over s := by
  intro w hw
  rw [h] at hw
  cases hw

theorem init_inv (call : Call) : Inv (init call) where
  mode := rfl
  joined := (Option.some_ne_none _).symm
  calm := fun h => Pc.noConfusion h
  early := fun _ => rfl
  held := by
    rintro (h | h)
    · exact Mem.noConfusion h
    · exact Mem.noConfusion h

theorem init_settled (call : Call) : Settled (init call) where
  out := fun _ => over_of_none rfl
  safe := (Option.some_ne_none _).symm

theorem afterPkt_past (s : State) : Past (afterPkt s) := by
  unfold Past afterPkt
  by_cases h : isInquiry s.call = true
  · exact .inl (if_pos h)
  · exact .inr (if_neg h)

theorem Past.ne (h : Past s) : s.pc ≠ .freePkt ∧ s.pc ≠ .init ∧ s.pc ≠ .getPkt ∧ s.pc ≠ .write := by
  rcases h with h | h
  · rw [h]
    decide
  · rw [h]
    decide

theorem checkResult_eq {v : State} {pkt : List UInt8} (h : checkResult cj s pkt = .ok v) :
    ∃ ret list, v = { s with ret := ret, list := list } := by
  obtain ⟨action, -, h⟩ := bind_eq_ok.1 h
  split at h
  · split at h
    · obtain ⟨info, -, h⟩ := bind_eq_ok.1 h
      cases info with
      | none =>
        cases h
        exact ⟨s.ret, s.list, rfl⟩
      | some info =>
        obtain ⟨list, -, h⟩ := bind_eq_ok.1 h
        cases h
        exact ⟨s.ret, list, rfl⟩
    · cases h
      exact ⟨0, s.list, rfl⟩
  · split at h
    · obtain ⟨res, -, h⟩ := bind_eq_ok.1 h
      cases h
      exact ⟨s.ret, s.list, rfl⟩
    · cases h
      exact ⟨s.ret, s.list, rfl⟩

theorem read_eq (cj : CJson) (s : State) (recPkt : Option (List UInt8)) :
    ∃ pc readEnd ret list fault, read cj s recPkt = { s with
        pc := pc, readEnd := readEnd, ret := ret, list := list, fault := fault } ∧
      ((pc = .joining ∧ fault = s.fault) ∨
        (pc = s.pc ∧ (fault = s.fault ∨ ∃ e, fault = some (.codec e)))) := by
  unfold read
  cases recPkt with
  | none => exact ⟨_, _, _, _, _, rfl, .inl ⟨rfl, rfl⟩⟩
  | some pkt =>
    simp only
    split
    · rename_i e _
      exact ⟨_, _, _, _, _, rfl, .inr ⟨rfl, .inr ⟨e, rfl⟩⟩⟩
    · rename_i v hv
      obtain ⟨ret, list, rfl⟩ := checkResult_eq hv
      exact ⟨_, _, _, _, _, rfl, .inr ⟨rfl, .inl rfl⟩⟩

theorem task_cases (h : task s = some u) : ∃ w, s.task = some w ∧
    ((w.pc = .done ∧ u = { s with task := none }) ∨
      (w.pc ≠ .done ∧ (s.pkt = .freed ∨ s.client = .freed) ∧
        u = { s with fault := some .stalePointer }) ∨
      (w.pc ≠ .done ∧ ¬ (s.pkt = .freed ∨ s.client = .freed) ∧ u = { s with
        cursor := (udpBroadcastData s.readEnd s.cursor w).1
        task := some (udpBroadcastData s.readEnd s.cursor w).2 })) := by
  unfold task at h
  split at h
  · exact absurd h (Option.some_ne_none u).symm
  · rename_i w hw
    refine ⟨w, hw, ?_⟩
    split at h
    case isTrue hd => exact .inl ⟨hd, (Option.some.inj h).symm⟩
    case isFalse hd =>
      split at h
      case isTrue hm => exact .inr (.inl ⟨hd, hm, (Option.some.inj h).symm⟩)
      case isFalse hm => exact .inr (.inr ⟨hd, hm, (Option.some.inj h).symm⟩)

/-- A caller that has freed nothing, at another of its statements. -/
theorem Inv.move {pc : Pc} {data : List UInt8} {pkt client : Mem} {readEnd created : Bool}
    {cursor : Cursor} {thread : Option Sweep} {ret : ℤ} {list : ServiceInfoList}
    {fault : Option Fault} (h : Inv s)
    (hj : fault ≠ some .noThread) (hc : pc = .freePkt → fault = none)
    (he : pc = .init ∨ pc = .getPkt ∨ pc = .write → thread = none)
    (hm : pkt = .freed ∨ client = .freed → pc = .deinit ∨ pc = .returned) :
    Inv { s with
      pc := pc, data := data, pkt := pkt, client := client, readEnd := readEnd, cursor := cursor
      created := created, task := thread, ret := ret, list := list, fault := fault } :=
  ⟨h.mode, hj, hc, he, hm⟩

theorem Inv.kept (h : Inv s) (hp : ¬ Past s) : ¬ (s.pkt = .freed ∨ s.client = .freed) :=
  fun hm => hp (h.held hm)

theorem not_past {pc : Pc} (hp : s.pc = pc) (h : pc ≠ .deinit ∧ pc ≠ .returned) : ¬ Past s := by
  rintro (hd | hr)
  · exact h.1 (hp.symm.trans hd)
  · exact h.2 (hp.symm.trans hr)

/-- Between the start of the thread and the free of the packet. -/
theorem Inv.onward {pc : Pc} {readEnd created : Bool} {thread : Option Sweep} {ret : ℤ}
    {list : ServiceInfoList} (h : Inv s) (hs : ¬ Past s)
    (hp : pc ≠ .freePkt ∧ ¬ (pc = .init ∨ pc = .getPkt ∨ pc = .write)) :
    Inv { s with
      pc := pc, readEnd := readEnd, created := created, task := thread, ret := ret, list := list } :=
  h.move h.joined (fun hc => absurd hc hp.1) (fun hc => absurd hc hp.2)
    fun hm => absurd hm (h.kept hs)

theorem afterPkt_inv (hb : s.isBroadcast = false) (hj : s.fault ≠ some .noThread) :
    Inv (afterPkt s) where
  mode := hb
  joined := hj
  calm := fun hp => absurd hp (afterPkt_past s).ne.1
  early := by
    obtain ⟨-, hi, hg, hw⟩ := (afterPkt_past s).ne
    rintro (hp | hp | hp)
    · exact absurd hp hi
    · exact absurd hp hg
    · exact absurd hp hw
  held := fun _ => afterPkt_past s

theorem join_eq (h : Inv s) (hu : join s = some u) : u = { s with pc := .freePkt } := by
  unfold join at hu
  rw [if_neg (by rw [h.mode]; exact Bool.false_ne_true)] at hu
  exact (Option.some.inj hu).symm

theorem initClient_inv (ok : Bool) (h : Inv s) (hp : s.pc = .init) : Inv (initClient s ok) := by
  have hkept := h.kept (not_past hp (by decide))
  unfold initClient
  split
  · refine h.move h.joined (fun hc => Pc.noConfusion hc) (fun _ => h.early (.inl hp)) ?_
    rintro (hm | hm)
    · exact absurd (.inl hm) hkept
    · exact Mem.noConfusion hm
  · exact h.move h.joined (fun hc => Pc.noConfusion hc) (fun _ => h.early (.inl hp))
      fun _ => .inr rfl

theorem getPkt_inv (ok : Bool) (h : Inv s) (hp : s.pc = .getPkt) : Inv (getPkt cj s ok) := by
  have hkept := h.kept (not_past hp (by decide))
  unfold getPkt
  split
  · refine h.move (fun hj => ?_) (fun hc => ?_) h.early h.held
    · exact Fault.noConfusion (Option.some.inj hj)
    · rw [hp] at hc
      exact Pc.noConfusion hc
  · split
    · refine h.move h.joined (fun hc => Pc.noConfusion hc) (fun _ => h.early (.inr (.inl hp))) ?_
      rintro (hm | hm)
      · exact Mem.noConfusion hm
      · exact absurd (.inr hm) hkept
    · exact afterPkt_inv h.mode h.joined

theorem write_inv (ok : Bool) (h : Inv s) (hp : s.pc = .write) : Inv (write s ok) := by
  have hpast := not_past hp (by decide)
  unfold write
  split
  · exact h.onward hpast (by decide)
  · split
    · exact h.onward hpast (by decide)
    · exact h.onward hpast (by decide)

theorem getRecPkt_inv (ok : Bool) (h : Inv s) (hp : s.pc = .getRecPkt) : Inv (getRecPkt s ok) := by
  have hpast := not_past hp (by decide)
  unfold getRecPkt
  split
  · exact h.onward hpast (by decide)
  · exact h.onward hpast (by decide)

theorem read_inv (recPkt : Option (List UInt8)) (h : Inv s) (hp : s.pc = .reading) :
    Inv (read cj s recPkt) := by
  obtain ⟨pc, readEnd, ret, list, fault, he, hcases⟩ := read_eq cj s recPkt
  rw [he]
  obtain ⟨rfl, rfl⟩ | ⟨rfl, hfault⟩ := hcases
  · exact h.onward (not_past hp (by decide)) (by decide)
  · refine h.move ?_ (fun hc => ?_) h.early h.held
    · obtain rfl | ⟨e, rfl⟩ := hfault
      · exact h.joined
      · exact fun hj => Fault.noConfusion (Option.some.inj hj)
    · rw [hp] at hc
      exact Pc.noConfusion hc

theorem task_inv (h : Inv s) (hu : task s = some u) : Inv u := by
  obtain ⟨w, hw, ⟨-, rfl⟩ | ⟨-, hm, rfl⟩ | ⟨-, -, rfl⟩⟩ := task_cases hu
  · exact h.move h.joined h.calm (fun _ => rfl) h.held
  · refine h.move (fun hj => Fault.noConfusion (Option.some.inj hj)) (fun hc => ?_) h.early h.held
    exact absurd hc (h.held hm : Past s).ne.1
  · refine h.move h.joined h.calm (fun hc => ?_) h.held
    rw [h.early hc] at hw
    cases hw

theorem step_inv {a : Act} (h : Inv s) (hu : step cj s a = some u) : Inv u := by
  obtain ⟨hf, hcases⟩ := step_cases hu
  obtain ⟨ok, -, hp, rfl⟩ | ⟨ok, -, hp, rfl⟩ | ⟨ok, -, hp, rfl⟩ | ⟨ok, -, hp, rfl⟩ |
    ⟨recPkt, -, hp, rfl⟩ | ⟨-, hp, hu⟩ | ⟨-, hp, rfl⟩ | ⟨-, hp, rfl⟩ | ⟨-, hu⟩ := hcases
  · exact initClient_inv ok h hp
  · exact getPkt_inv ok h hp
  · exact write_inv ok h hp
  · exact getRecPkt_inv ok h hp
  · exact read_inv recPkt h hp
  · rw [join_eq h hu]
    exact h.move h.joined (fun _ => hf) (fun hc => absurd hc (by decide))
      fun hm => absurd hm (h.kept (not_past hp (by decide)))
  · exact afterPkt_inv h.mode h.joined
  · exact h.move h.joined (fun hc => Pc.noConfusion hc) (fun hc => absurd hc (by decide))
      fun _ => .inr rfl
  · exact task_inv h hu

/-- A caller that is not past its packet, whatever its thread does. -/
theorem settled_at (pc : Pc) (hp : u.pc = pc) (hne : pc ≠ .deinit ∧ pc ≠ .returned)
    (hs : u.fault ≠ some .stalePointer) : Settled u :=
  ⟨fun h => absurd h (not_past hp hne), hs⟩

theorem getPkt_settled (ok : Bool) (h : Inv s) (hs : Settled s) (hp : s.pc = .getPkt) :
    Settled (getPkt cj s ok) := by
  unfold getPkt
  split
  · exact settled_at .getPkt hp (by decide)
      fun hj => Fault.noConfusion (Option.some.inj hj)
  · split
    · exact settled_at .write rfl (by decide) hs.safe
    · exact ⟨fun _ => over_of_none (h.early (.inr (.inl hp))), hs.safe⟩

theorem write_settled (ok : Bool) (hs : Settled s) : Settled (write s ok) := by
  unfold write
  split
  · exact settled_at .getRecPkt rfl (by decide) hs.safe
  · split
    · exact settled_at .getRecPkt rfl (by decide) hs.safe
    · exact settled_at .getRecPkt rfl (by decide) hs.safe

theorem read_settled (recPkt : Option (List UInt8)) (hs : Settled s) (hp : s.pc = .reading) :
    Settled (read cj s recPkt) := by
  obtain ⟨pc, readEnd, ret, list, fault, he, hcases⟩ := read_eq cj s recPkt
  rw [he]
  obtain ⟨rfl, rfl⟩ | ⟨rfl, hfault⟩ := hcases
  · exact settled_at .joining rfl (by decide) hs.safe
  · refine settled_at .reading hp (by decide) ?_
    obtain rfl | ⟨e, rfl⟩ := hfault
    · exact hs.safe
    · exact fun hj => Fault.noConfusion (Option.some.inj hj)

/-- A thread in its loop finds the memory it was given. -/
theorem task_settled (h : Inv s) (hs : Settled s) (hu : task s = some u) : Settled u := by
  obtain ⟨w, hw, ⟨-, rfl⟩ | ⟨hd, hm, rfl⟩ | ⟨hd, -, rfl⟩⟩ := task_cases hu
  · exact ⟨fun _ => over_of_none rfl, hs.safe⟩
  · exact absurd (hs.out (h.held hm) w hw) hd
  · exact ⟨fun hp : Past s => absurd (hs.out hp w hw) hd, hs.safe⟩

theorem step_settled {a : Act} (h : Inv s) (hs : Settled s) (g : Behind s a)
    (hu : step cj s a = some u) : Settled u := by
  obtain ⟨-, hcases⟩ := step_cases hu
  obtain ⟨ok, -, hp, rfl⟩ | ⟨ok, -, hp, rfl⟩ | ⟨ok, -, hp, rfl⟩ | ⟨ok, -, hp, rfl⟩ |
    ⟨recPkt, -, hp, rfl⟩ | ⟨-, hp, hu⟩ | ⟨rfl, hp, rfl⟩ | ⟨-, hp, rfl⟩ | ⟨-, hu⟩ := hcases
  · unfold initClient
    split
    · exact settled_at .getPkt rfl (by decide) hs.safe
    · exact ⟨fun _ => over_of_none (h.early (.inl hp)), hs.safe⟩
  · exact getPkt_settled ok h hs hp
  · exact write_settled ok hs
  · unfold getRecPkt
    split
    · exact settled_at .reading rfl (by decide) hs.safe
    · exact settled_at .joining rfl (by decide) hs.safe
  · exact read_settled recPkt hs hp
  · rw [join_eq h hu]
    exact settled_at .freePkt rfl (by decide) hs.safe
  · exact ⟨fun _ => g rfl, hs.safe⟩
  · exact ⟨fun _ => hs.out (.inl hp), hs.safe⟩
  · exact task_settled h hs hu

theorem run_inv {call : Call} {acts : List Act}
    (h : Runs (step cj) (fun _ _ => True) (init call) acts s) : Inv s :=
  h.invariant Inv (init_inv call) fun _ _ _ hs _ hu => step_inv hs hu

theorem run_settled {call : Call} {acts : List Act} (h : Runs (step cj) Behind (init call) acts s) :
    Inv s ∧ Settled s :=
  h.invariant (fun s => Inv s ∧ Settled s) ⟨init_inv call, init_settled call⟩
    fun _ _ _ hs g hu => ⟨step_inv hs.1 hu, step_settled hs.1 hs.2 g hu⟩

/-- A thread out of its loop does not come back, and there is no second one. -/
theorem over_step {a : Act} (h : Inv s) (hl : s.pc ≠ .init ∧ s.pc ≠ .getPkt ∧ s.pc ≠ .write)
    (ho : Over s) (hu : step cj s a = some u) :
    (u.pc ≠ .init ∧ u.pc ≠ .getPkt ∧ u.pc ≠ .write) ∧ Over u := by
  obtain ⟨-, hcases⟩ := step_cases hu
  obtain ⟨ok, -, hp, -⟩ | ⟨ok, -, hp, -⟩ | ⟨ok, -, hp, -⟩ | ⟨ok, -, hp, rfl⟩ |
    ⟨recPkt, -, hp, rfl⟩ | ⟨-, hp, hu⟩ | ⟨-, hp, rfl⟩ | ⟨-, hp, rfl⟩ | ⟨-, hu⟩ := hcases
  · exact absurd hp hl.1
  · exact absurd hp hl.2.1
  · exact absurd hp hl.2.2
  · unfold getRecPkt
    split
    · exact ⟨⟨Pc.noConfusion, Pc.noConfusion, Pc.noConfusion⟩, ho⟩
    · exact ⟨⟨Pc.noConfusion, Pc.noConfusion, Pc.noConfusion⟩, ho⟩
  · obtain ⟨pc, readEnd, ret, list, fault, he, ⟨rfl, -⟩ | ⟨rfl, -⟩⟩ := read_eq cj s recPkt
    · rw [he]
      exact ⟨⟨Pc.noConfusion, Pc.noConfusion, Pc.noConfusion⟩, ho⟩
    · rw [he]
      exact ⟨hl, ho⟩
  · rw [join_eq h hu]
    exact ⟨⟨Pc.noConfusion, Pc.noConfusion, Pc.noConfusion⟩, ho⟩
  · exact ⟨(afterPkt_past { s with pkt := .freed }).ne.2, ho⟩
  · exact ⟨⟨Pc.noConfusion, Pc.noConfusion, Pc.noConfusion⟩, ho⟩
  · obtain ⟨w, hw, ⟨-, rfl⟩ | ⟨hd, -, -⟩ | ⟨hd, -, -⟩⟩ := task_cases hu
    · exact ⟨hl, over_of_none rfl⟩
    · exact absurd (ho w hw) hd
    · exact absurd (ho w hw) hd

theorem freePkt_settled (h : Inv s) (hp : s.pc = .freePkt) : Settled s :=
  settled_at .freePkt hp (by decide) (by rw [h.calm hp]; exact (Option.some_ne_none _).symm)

/-- From a caller about to free the packet, behind its thread. -/
theorem over_safe {v : State} {acts : List Act} (h : Inv s) (hp : s.pc = .freePkt) (ho : Over s)
    (hr : Runs (step cj) (fun _ _ => True) s acts v) : Safe v := by
  have hl : s.pc ≠ .init ∧ s.pc ≠ .getPkt ∧ s.pc ≠ .write := by
    rw [hp]
    decide
  have hv := hr.invariant
    (fun s => Inv s ∧ Settled s ∧ (s.pc ≠ .init ∧ s.pc ≠ .getPkt ∧ s.pc ≠ .write) ∧ Over s)
    ⟨h, freePkt_settled h hp, hl, ho⟩ fun _ _ _ hs _ hu =>
      ⟨step_inv hs.1 hu, step_settled hs.1 hs.2.1 (fun _ => hs.2.2.2) hu,
        over_step hs.1 hs.2.2.1 hs.2.2.2 hu⟩
  exact ⟨hv.2.1.safe, hv.1.joined⟩

/-- A thread still in its loop when the packet is freed can take its next step. -/
theorem stale_step (cj : CJson) (h : Inv s) (hp : s.pc = .freePkt) (ho : ¬ Over s) :
    ∃ v, Runs (step cj) (fun _ _ => True) s [.freePkt, .task] v ∧ v.fault = some .stalePointer := by
  unfold Over at ho
  push Not at ho
  obtain ⟨w, hw, hd⟩ := ho
  have hf := h.calm hp
  have hfree : step cj s .freePkt = some (freePkt s) := by
    unfold step
    rw [if_neg (by rw [hf]; exact Bool.false_ne_true), hp]
  have htask : step cj (freePkt s) .task = some { freePkt s with fault := some .stalePointer } := by
    have hff : (freePkt s).fault = none := hf
    have hfw : (freePkt s).task = some w := hw
    unfold step
    rw [if_neg (by rw [hff]; exact Bool.false_ne_true)]
    change task (freePkt s) = _
    rw [task, hfw]
    simp only
    rw [if_neg hd, if_pos (.inl rfl), hfw]
  exact ⟨_, .next trivial hfree (.next trivial htask (.refl _)), rfl⟩

end Lifetime

/-- The thread of a call stays out of freed memory in every run in which the packet is
freed behind it; and at the free this is what every continuation needs. Nobody joins a
thread that does not exist. -/
theorem sweep_safe_iff (cj : CJson) (call : Call) :
    (∀ acts s, Runs (step cj) Behind (init call) acts s → Safe s) ∧
    (∀ acts s, Runs (step cj) (fun _ _ => True) (init call) acts s → s.fault ≠ some .noThread) ∧
    ∀ acts s, Runs (step cj) (fun _ _ => True) (init call) acts s → s.pc = .freePkt →
      ((∀ acts' v, Runs (step cj) (fun _ _ => True) s acts' v → Safe v) ↔ Over s) := by
  refine ⟨fun acts s h => ?_, fun acts s h => (run_inv h).joined, fun acts s h hp => ⟨?_, ?_⟩⟩
  · obtain ⟨hi, hs⟩ := run_settled h
    exact ⟨hs.safe, hi.joined⟩
  · intro hall
    by_contra ho
    obtain ⟨v, hr, hv⟩ := stale_step cj (run_inv h) hp ho
    exact (hall _ v hr).1 hv
  · exact fun ho acts' v hr => over_safe (run_inv h) hp ho hr

section Timeout

/-- The first read times out at once. -/
def timeoutActs : List Act :=
  [.initClient true, .getPkt true, .write true, .getRecPkt true, .read none, .join, .freePkt, .deinit,
    .task]

/-- A call whose packet can be built comes to its `write`. -/
theorem getPkt_built {cj : CJson} {data : List UInt8} (call : Call)
    (hd : call.packet cj = .ok data) :
    step cj (initClient (init call) true) (.getPkt true) =
      some { initClient (init call) true with pc := .write, pkt := .allocated, data := data } := by
  change some (getPkt cj (initClient (init call) true) true) = _
  have hp : (initClient (init call) true).call.packet cj = .ok data := hd
  rw [getPkt, hp]
  rfl

theorem timeout_stale {cj : CJson} {name : CharPtr} {data : List UInt8}
    (hd : getInquiryPkt cj name = .ok data) :
    ∃ v, Runs (step cj) (fun _ _ => True) (init (.inquiryService name)) timeoutActs v ∧
      v.client = .freed ∧ v.fault = some .stalePointer := by
  have hget := getPkt_built (.inquiryService name) hd
  refine ⟨{ init (.inquiryService name) with
    pc := .returned, client := .freed, pkt := .freed, data := data, created := true
    task := some .fresh, fault := some .stalePointer }, ?_, rfl, rfl⟩
  refine .next trivial rfl (.next trivial hget ?_)
  refine .next trivial rfl ?_
  refine .next trivial rfl ?_
  refine .next trivial rfl ?_
  refine .next trivial rfl ?_
  refine .next trivial rfl ?_
  refine .next trivial rfl ?_
  exact .next trivial rfl (.refl _)

def noText : CRoundTrip.Text :=
  ⟨.empty, Nat.zero_le _, fun _ hb => absurd hb List.not_mem_nil⟩

theorem getInquiryPkt_text {cj : CJson} (doc : cj.Documented) (name : CRoundTrip.Text) :
    ∃ data, getInquiryPkt cj (some name.str) = .ok data := by
  have hl := CRoundTrip.print_length noText name noText noText 0 doc
  have hp : getInquiryPkt cj (some name.str) = fillPkt cj Action.inquiry.code
      (serviceRoot noText.str name.str noText.str noText.str 0) := by
    rw [getInquiryPkt, CRoundTrip.strncpyBuf_text]
    rfl
  exact ⟨_, hp.trans (fillPkt_ok cj _ hl.le)⟩

/-- An inquiry that nobody answers at once: its thread runs on in the client it freed. -/
theorem inquiry_timeout_stale :
    ∃ v, Runs (step CJsonText.textCJson) (fun _ _ => True)
      (init (.inquiryService (some CRoundTrip.box.str))) timeoutActs v ∧
        v.client = .freed ∧ v.fault = some .stalePointer := by
  obtain ⟨data, hd⟩ := getInquiryPkt_text CJsonText.textCJson_documented CRoundTrip.box
  exact timeout_stale hd

end Timeout

end MiniServiceDiscover.CSweep
