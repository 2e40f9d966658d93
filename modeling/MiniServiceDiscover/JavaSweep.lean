import MiniServiceDiscover.AddressSweep
import MiniServiceDiscover.JavaDaemon
import MiniServiceDiscover.StepRuns

set_option autoImplicit false

/-! `InquiryClient` and `RegisterClient`: a call, the thread it starts, the packet that both
keep in one field, and what an exception leaves behind. -/
namespace MiniServiceDiscover.JavaSweep
open JavaProtocal JavaProvider JavaDaemon WireFormat StepRuns AddressSweep

def lastHost : ℕ := 254

inductive Client where
  | inquiryClient
  | registerClient
  deriving DecidableEq, Repr

inductive Call where
  | runSearch (serviceName : StringRef)
  | runRegister (regInfo : ServiceInfo)
  deriving DecidableEq, Repr

def Call.client : Call → Client
  | .runSearch _ => .inquiryClient
  | .runRegister _ => .registerClient

inductive Raised where
  | thrown (e : Thrown)
  | negativeArraySize
  deriving DecidableEq, Repr

section Packets
variable (oj : OrgJson)

def getRegisterPkt (info : ServiceInfo) : Except Thrown JavaBytes :=
  (getPkt (infoType .registerService) (oj.print (serviceMap info))).mapError .codec

def getInquiryPkt (serviceName : StringRef) : Except Thrown JavaBytes :=
  (getPkt (infoType .inquiry)
    (oj.print (serviceMap ⟨some [], serviceName, some [], some [], 0⟩))).mapError .codec

theorem getInquiryPkt_ok {serviceName : StringRef}
    (h : (oj.print (serviceMap ⟨some [], serviceName, some [], some [], 0⟩)).length ≤ payloadLen) :
    ∃ data, getInquiryPkt oj serviceName = .ok data := by
  obtain ⟨head, -, hp⟩ := getPkt_eq (infoType .inquiry)
    (oj.print (serviceMap ⟨some [], serviceName, some [], some [], 0⟩))
  rw [getInquiryPkt, hp, if_pos h]
  exact ⟨_, rfl⟩

def Call.packet : Call → Except Thrown JavaBytes
  | .runSearch serviceName => getInquiryPkt oj serviceName
  | .runRegister regInfo => getRegisterPkt oj regInfo

/-- The array is made, and the bytes are copied into it, before the text is read. -/
def getResult (data : JavaBytes) : Except Raised JavaString := do
  let head ← (ProtocalHead.ofBytes data).mapError (Raised.thrown ∘ Thrown.codec)
  if head.len < 0 then throw .negativeArraySize
  else if (data.length : ℤ) < getSize + head.len.toInt then
    throw (.thrown (.codec .arrayIndexOutOfBounds))
  else
    let json ← (stringOf oj data getSize head.len.toInt).mapError Raised.thrown
    pure (match oj.newJson json with
      | none => []
      | some jsonObj => (oj.getString jsonObj "reason").getD [])

end Packets

/-- Where a datagram goes to or comes from: the daemon's port at a host of the network that
the sweep goes through, or somewhere else. -/
inductive Peer where
  | host (n : ℕ)
  | other (i : ℕ)
  deriving DecidableEq, Repr

/-- A `DatagramPacket`: its array, by number, how much of it counts, and its address. -/
structure Packet where
  data : ℕ
  length : ℕ
  address : Option Peer
  deriving DecidableEq, Repr

/-- What a `receive` gets, and the buffer of the call behind it. -/
structure Reply where
  sender : Peer
  datagram : JavaBytes
  buffer : JavaBytes
  deriving DecidableEq, Repr

/-- The thread of a call; the `Runnable` reads the field `sendData` when it runs. `made`
tells that a `send` has made its packet and not handed it over; `datagrams` is the history
of what was handed over. -/
structure Task where
  call : ℕ
  data : Option ℕ
  loop : Sweep
  made : Bool
  datagrams : List (Peer × JavaBytes)
  deriving DecidableEq, Repr

inductive Pc where
  | idle
  | launched
  | reading
  | packed
  | listening (packet : ℕ)
  | received
  | notice
  | joining
  deriving DecidableEq, Repr

/-- `sendData` and `callBuffer` name arrays, `dataPacket` a packet; `callBuffer` is that of the
call that runs, and `buffer` what the last `receive` left in it, `none` where it returned
nothing; `thread` names the call whose thread the field holds. `ended`, `calls`, `call` and
`firstReads` record the history. -/
structure State where
  client : Client
  isBroadcast : Bool
  pc : Pc
  runSearchFinish : Bool
  recEnd : Bool
  arrays : List JavaBytes
  packets : List Packet
  dataPacket : Option ℕ
  subAddr : Option ℕ
  sendData : ℕ
  callBuffer : ℕ
  buffer : Option JavaBytes
  infoList : ServiceInfoList
  succ : Bool
  failReason : StringRef
  cursor : Cursor
  thread : Option ℕ
  tasks : List Task
  ended : List Task
  calls : List Call
  call : ℕ
  firstReads : List ℕ
  deriving DecidableEq, Repr

/-- `unresolved` is a `task` whose lookup of an address, if it makes one, finds none. -/
inductive Act where
  | start (c : Call)
  | clearRecEnd
  | newPacket
  | listen
  | receive (reply : Option Reply)
  | setRecEnd
  | notice
  | join
  | task (i : ℕ)
  | unresolved (i : ℕ)
  deriving DecidableEq, Repr

def init (client : Client) (isBroadcast : Bool) : State where
  client := client
  isBroadcast := isBroadcast
  pc := .idle
  runSearchFinish := true
  recEnd := false
  arrays := []
  packets := []
  dataPacket := none
  subAddr := none
  sendData := 0
  callBuffer := 0
  buffer := none
  infoList := []
  succ := false
  failReason := none
  cursor := ⟨0, 0⟩
  thread := none
  tasks := []
  ended := []
  calls := []
  call := 0
  firstReads := []

section Packets
variable (s : State)

def arrayAt (i : ℕ) : JavaBytes := s.arrays.getD i []

/-- The field is set to a new packet for all of the array. -/
def assign (data : ℕ) (address : Option Peer) : State :=
  { s with
    packets := s.packets ++ [⟨data, (arrayAt s data).length, address⟩]
    dataPacket := some s.packets.length }

/-- The datagram that the packet in the field makes, if it has an address. -/
def handed : Option (Peer × JavaBytes) := do
  let p ← s.dataPacket.bind (s.packets[·]?)
  let address ← p.address
  pure (address, (arrayAt s p.data).take p.length)

/-- The packet takes in as much of a datagram as counts, and who sent it. -/
def fill (packet : ℕ) (sender : Peer) (datagram : JavaBytes) : State :=
  match s.packets[packet]? with
  | none => s
  | some p =>
    let taken := datagram.take p.length
    { s with
      arrays := s.arrays.set p.data (JavaDaemon.receive taken (arrayAt s p.data))
      packets := s.packets.set packet { p with length := taken.length, address := some sender } }

end Packets

section Calls
variable (oj : OrgJson)

def Task.started (call : ℕ) : Task := ⟨call, none, .fresh, false, []⟩

/-- A call while `runSearchFinish` is false returns at once. An exception leaves the
call and the field false. -/
def enter (s : State) (c : Call) : State :=
  { s with
    runSearchFinish := false
    infoList := if s.client = .inquiryClient then (JavaProvider.clear s.infoList).1 else s.infoList
    calls := s.calls ++ [c]
    call := s.calls.length }

/-- Only the inquiry client clears its list. -/
def ClearThrows (s : State) : Prop :=
  s.client = .inquiryClient ∧ (JavaProvider.clear s.infoList).2 ≠ none

instance (s : State) : Decidable (ClearThrows s) := by
  unfold ClearThrows
  infer_instance

def start (s : State) (c : Call) : Option State :=
  if s.pc = .idle ∧ c.client = s.client then
    if s.runSearchFinish then
      if ClearThrows s then some (enter s c)
      else match c.packet oj with
        | .error _ => some (enter s c)
        | .ok data =>
          if s.isBroadcast then some { enter s c with pc := .launched }
          else some { enter s c with
            pc := .launched
            arrays := s.arrays ++ [data]
            sendData := s.arrays.length
            thread := some s.calls.length
            tasks := s.tasks ++ [.started s.calls.length] }
    else some s
  else none

def clearRecEnd (s : State) : Option State :=
  if s.pc = .launched then some { s with
    pc := .reading
    recEnd := false
    arrays := s.arrays ++ [List.replicate protocalLen 0]
    callBuffer := s.arrays.length }
  else none

/-- The first statement of `receive`; setting the port of its packet changes nothing that a
datagram depends on. -/
def newPacket (s : State) : Option State :=
  if s.pc = .reading then some { assign s s.callBuffer none with pc := .packed } else none

/-- The field is read again, and the socket waits with the packet in it. -/
def listen (s : State) : Option State :=
  if s.pc = .packed then s.dataPacket.map fun packet => { s with pc := .listening packet }
  else none

/-- The socket gives up, or fills the packet it waits with. -/
def clientReceive (s : State) (reply : Option Reply) : Option State :=
  match s.pc, reply with
  | .listening _, none => some { s with
    pc := .received, buffer := none, firstReads := s.firstReads ++ [s.call] }
  | .listening packet, some r =>
    let u := fill s packet r.sender r.datagram
    if arrayAt u s.callBuffer = r.buffer then some { u with
      pc := .received, buffer := some r.buffer, firstReads := s.firstReads ++ [s.call] }
    else none
  | _, _ => none

/-- The case of a success, in either client. -/
def succeed (s : State) (data : JavaBytes) : State :=
  match s.client with
  | .registerClient => { s with pc := .reading, succ := true }
  | .inquiryClient =>
    match getServiceInfo oj data with
    | .error _ => { s with pc := .idle }
    | .ok info =>
      match add info s.infoList with
      | .error _ => { s with pc := .idle, succ := true }
      | .ok infoList => { s with pc := .reading, succ := true, infoList := infoList }

/-- The rest of one pass of the loop. -/
def examine (s : State) : State :=
  match s.buffer with
  | none => { s with pc := .notice }
  | some data =>
    match decodeAction data with
    | .error _ => { s with pc := .idle }
    | .ok action =>
      if action = infoType .actionSucc then succeed oj s data
      else if action = infoType .actionFail then
        match getResult oj data with
        | .error _ => { s with pc := .idle }
        | .ok reason => { s with pc := .reading, succ := false, failReason := some reason }
      else { s with pc := .reading }

def setRecEnd (s : State) : Option State :=
  if s.pc = .received then some (examine oj { s with recEnd := true }) else none

def finish (s : State) : State := { s with pc := .idle, runSearchFinish := true }

def callNotice (s : State) : Option State :=
  if s.pc = .notice then some (if s.isBroadcast then finish s else { s with pc := .joining })
  else none

/-- `thread.join()`; nothing in the program interrupts the caller. -/
def join (s : State) : Option State :=
  if s.pc = .joining ∧ ∀ t ∈ s.tasks, some t.call ≠ s.thread then some (finish s) else none

/-- The loop of `broadcastData`. -/
def broadcastData (recEnd : Bool) (u : Cursor) (w : Sweep) : Cursor × Sweep :=
  AddressSweep.step lastHost recEnd u w

/-- The first statement of `send`. -/
def makePacket (s : State) (t : Task) (data : ℕ) : State × Task :=
  (assign s data (s.subAddr.map .host), { t with made := true })

/-- The second, which reads the field again; without an address it throws, and nothing in
the thread catches that. -/
def handOver (s : State) (t : Task) : State × Task :=
  match handed s with
  | none => (s, { t with made := false, loop := { t.loop with pc := .done } })
  | some datagram =>
    let moved := broadcastData s.recEnd s.cursor t.loop
    ({ s with cursor := moved.1 },
      { t with made := false, loop := moved.2, datagrams := t.datagrams ++ [datagram] })

/-- A statement of the thread besides; an address that is not found leaves the old one. -/
def proceed (s : State) (t : Task) (found : Bool) : State × Task :=
  let moved := broadcastData s.recEnd s.cursor t.loop
  ({ s with
    cursor := moved.1
    subAddr := if t.loop.pc = .prepare ∧ found = true then some moved.1.dst else s.subAddr },
    { t with loop := moved.2 })

def sends : AddressSweep.Pc → Bool
  | .write _ => true
  | _ => false

def advance (s : State) (t : Task) (data : ℕ) (found : Bool) : State × Task :=
  if sends t.loop.pc then if t.made then handOver s t else makePacket s t data
  else proceed s t found

/-- One statement of the `i`-th live thread. -/
def task (s : State) (i : ℕ) (found : Bool) : Option State :=
  match s.tasks[i]? with
  | none => none
  | some t =>
    match t.data with
    | none => some { s with tasks := s.tasks.set i { t with data := some s.sendData } }
    | some data =>
      if t.loop.pc = .done then
        some { s with tasks := s.tasks.eraseIdx i, ended := s.ended ++ [t] }
      else
        let moved := advance s t data found
        some { moved.1 with tasks := s.tasks.set i moved.2 }

def step (s : State) : Act → Option State
  | .start c => start oj s c
  | .clearRecEnd => clearRecEnd s
  | .newPacket => newPacket s
  | .listen => listen s
  | .receive reply => clientReceive s reply
  | .setRecEnd => setRecEnd oj s
  | .notice => callNotice s
  | .join => join s
  | .task i => task s i true
  | .unresolved i => task s i false

end Calls

section Sole
variable {oj : OrgJson} {s u : State}

/-- The packet of that call. -/
def Request (oj : OrgJson) (calls : List Call) (number : ℕ) (data : JavaBytes) : Prop :=
  ∃ c, calls[number]? = some c ∧ c.packet oj = .ok data

/-- The one live thread is that of the call that runs, or that an exception left. -/
def Sole (s : State) : Prop :=
  s.isBroadcast = false ∧ s.runSearchFinish = false ∧ s.thread = some s.call ∧
    ∃ t, s.tasks = [t] ∧ t.call = s.call

structure Inv (oj : OrgJson) (s : State) : Prop where
  running : s.pc ≠ .idle → s.runSearchFinish = false
  sole : s.tasks = [] ∨ Sole s
  placed : ∀ t ∈ s.tasks, Placed lastHost s.cursor t.loop
  ended : ∀ t ∈ s.ended, Ordered lastHost t.loop
  requested : ∀ t ∈ s.tasks ++ s.ended, ∃ data, Request oj s.calls t.call data

theorem Request.unique {calls : List Call} {number : ℕ} {data data' : JavaBytes}
    (h : Request oj calls number data) (h' : Request oj calls number data') : data = data' := by
  obtain ⟨c, hc, hd⟩ := h
  obtain ⟨c', hc', hd'⟩ := h'
  obtain rfl := Option.some.inj (hc.symm.trans hc')
  exact Except.ok.inj (hd.symm.trans hd')

theorem Request.append {calls : List Call} {number : ℕ} {data : JavaBytes} (c : Call)
    (h : Request oj calls number data) : Request oj (calls ++ [c]) number data := by
  obtain ⟨c', hc, hd⟩ := h
  obtain ⟨hlt, -⟩ := List.getElem?_eq_some_iff.1 hc
  exact ⟨c', (List.getElem?_append_left hlt).trans hc, hd⟩

theorem init_inv (client : Client) (isBroadcast : Bool) : Inv oj (init client isBroadcast) where
  running := fun h => absurd rfl h
  sole := .inl rfl
  placed := fun _ ht => absurd ht List.not_mem_nil
  ended := fun _ ht => absurd ht List.not_mem_nil
  requested := fun _ ht => absurd ht List.not_mem_nil

theorem succeed_eq (oj : OrgJson) (s : State) (data : JavaBytes) : ∃ pc succ infoList,
    pc ≠ Pc.launched ∧
      succeed oj s data = { s with pc := pc, succ := succ, infoList := infoList } := by
  unfold succeed
  split
  · exact ⟨_, _, _, Pc.noConfusion, rfl⟩
  · split
    · exact ⟨_, _, _, Pc.noConfusion, rfl⟩
    · split <;> exact ⟨_, _, _, Pc.noConfusion, rfl⟩

theorem examine_decoded (oj : OrgJson) {s : State} {data : JavaBytes} {action : Int16}
    (hb : s.buffer = some data) (ha : decodeAction data = .ok action) :
    examine oj s = if action = infoType .actionSucc then succeed oj s data
      else if action = infoType .actionFail then
        match getResult oj data with
        | .error _ => { s with pc := .idle }
        | .ok reason => { s with pc := .reading, succ := false, failReason := some reason }
      else { s with pc := .reading } := by
  rw [examine]
  simp only [hb, ha]

theorem examine_eq (oj : OrgJson) (s : State) : ∃ pc succ infoList failReason,
    pc ≠ Pc.launched ∧ examine oj s =
      { s with pc := pc, succ := succ, infoList := infoList, failReason := failReason } := by
  unfold examine
  split
  · exact ⟨_, _, _, _, Pc.noConfusion, rfl⟩
  · split
    · exact ⟨_, _, _, _, Pc.noConfusion, rfl⟩
    · split
      · obtain ⟨pc, succ, infoList, hpc, he⟩ := succeed_eq oj s _
        exact ⟨pc, succ, infoList, _, hpc, he⟩
      · split
        · split <;> exact ⟨_, _, _, _, Pc.noConfusion, rfl⟩
        · exact ⟨_, _, _, _, Pc.noConfusion, rfl⟩

theorem Inv.tasks_nil (h : Inv oj s) (hf : s.runSearchFinish = true) : s.tasks = [] := by
  rcases h.sole with hn | ⟨-, hr, -⟩
  · exact hn
  · exact absurd (hr.symm.trans hf) (by decide)

theorem enter_inv {c : Call} {pc : Pc} (h : Inv oj s) (ht : s.tasks = []) :
    Inv oj { enter s c with pc := pc } where
  running := fun _ => rfl
  sole := .inl ht
  placed := h.placed
  ended := h.ended
  requested := fun t hmem => (h.requested t hmem).imp fun _ hr => hr.append c

theorem start_cases {c : Call} (h : start oj s c = some u) :
    u = s ∨ (s.pc = .idle ∧ s.runSearchFinish = true ∧ ((∃ pc, u = { enter s c with pc := pc } ∧
        (pc = .idle ∨ (pc = .launched ∧ s.isBroadcast = true))) ∨
      (s.isBroadcast = false ∧ ∃ data, c.packet oj = .ok data ∧ u = { enter s c with
        pc := .launched, arrays := s.arrays ++ [data], sendData := s.arrays.length
        thread := some s.calls.length, tasks := s.tasks ++ [.started s.calls.length] }))) := by
  unfold start at h
  split at h
  case isFalse => exact absurd h (Option.some_ne_none u).symm
  case isTrue hg =>
    split at h
    case isFalse => exact .inl (Option.some.inj h).symm
    case isTrue hf =>
      refine .inr ⟨hg.1, hf, ?_⟩
      have hidle : { enter s c with pc := .idle } = enter s c :=
        congrArg (fun pc => { enter s c with pc := pc }) hg.1.symm
      split at h
      case isTrue => exact .inl ⟨.idle, (Option.some.inj h).symm.trans hidle.symm, .inl rfl⟩
      case isFalse =>
        split at h
        · exact .inl ⟨.idle, (Option.some.inj h).symm.trans hidle.symm, .inl rfl⟩
        · rename_i data hd
          split at h
          case isTrue hb => exact .inl ⟨.launched, (Option.some.inj h).symm, .inr ⟨rfl, hb⟩⟩
          case isFalse hb =>
            exact .inr ⟨Bool.eq_false_of_not_eq_true hb, data, hd, (Option.some.inj h).symm⟩

theorem start_inv {c : Call} (h : Inv oj s) (hu : start oj s c = some u) : Inv oj u := by
  obtain rfl | ⟨-, hf, ⟨pc, rfl, -⟩ | ⟨hb, data, hd, rfl⟩⟩ := start_cases hu
  · exact h
  · exact enter_inv h (h.tasks_nil hf)
  · have ht := h.tasks_nil hf
    have hbase : Inv oj { enter s c with pc := .launched } := enter_inv h ht
    have hlast : (s.calls ++ [c])[s.calls.length]? = some c := by
      rw [List.getElem?_append_right (Nat.le_refl _), Nat.sub_self]
      rfl
    refine ⟨fun _ => rfl, .inr ⟨hb, rfl, rfl, _, by rw [ht]; rfl, rfl⟩, ?_, hbase.ended, ?_⟩
    · intro t hm
      rw [ht] at hm
      rw [List.mem_singleton.1 hm]
      exact fresh_placed
    · intro t hm
      rcases List.mem_append.1 hm with hm | hm
      · rw [ht] at hm
        rw [List.mem_singleton.1 hm]
        exact ⟨data, c, hlast, hd⟩
      · exact hbase.requested t (List.mem_append_right _ hm)

/-- A statement of the thread writes a packet, the address and the cursor, or only its own
locals. -/
theorem advance_eq (s : State) (t : Task) (data : ℕ) (found : Bool) :
    ∃ packets dataPacket subAddr cursor, (advance s t data found).1 = { s with
      packets := packets, dataPacket := dataPacket, subAddr := subAddr, cursor := cursor } := by
  unfold advance
  split_ifs
  · unfold handOver
    split
    · exact ⟨_, _, _, _, rfl⟩
    · exact ⟨_, _, _, _, rfl⟩
  · exact ⟨_, _, _, _, rfl⟩
  · exact ⟨_, _, _, _, rfl⟩

theorem advance_task (s : State) (t : Task) (data : ℕ) (found : Bool) :
    (advance s t data found).2.call = t.call ∧ (advance s t data found).2.data = t.data := by
  unfold advance
  split_ifs
  · unfold handOver
    split <;> exact ⟨rfl, rfl⟩
  · exact ⟨rfl, rfl⟩
  · exact ⟨rfl, rfl⟩

/-- All that a statement can do to the addresses. -/
theorem advance_cases (s : State) (t : Task) (data : ℕ) (found : Bool) :
    (sends t.loop.pc = true ∧ t.made = false ∧ (advance s t data found).1.cursor = s.cursor ∧
      (advance s t data found).2 = { t with made := true }) ∨
    (sends t.loop.pc = true ∧ t.made = true ∧ handed s = none ∧
      advance s t data found = (s, { t with made := false, loop := { t.loop with pc := .done } })) ∨
    (sends t.loop.pc = true ∧ t.made = true ∧ ∃ datagram, handed s = some datagram ∧
      (advance s t data found).1.cursor = (broadcastData s.recEnd s.cursor t.loop).1 ∧
      (advance s t data found).2 = { t with
        made := false, loop := (broadcastData s.recEnd s.cursor t.loop).2
        datagrams := t.datagrams ++ [datagram] }) ∨
    (sends t.loop.pc = false ∧
      (advance s t data found).1.cursor = (broadcastData s.recEnd s.cursor t.loop).1 ∧
      (advance s t data found).2 = { t with
        loop := (broadcastData s.recEnd s.cursor t.loop).2 }) := by
  unfold advance
  split_ifs with hs hm
  · unfold handOver
    split
    · rename_i hh
      exact .inr (.inl ⟨hs, hm, hh, rfl⟩)
    · rename_i datagram hh
      exact .inr (.inr (.inl ⟨hs, hm, datagram, hh, rfl, rfl⟩))
  · exact .inl ⟨hs, Bool.eq_false_of_not_eq_true hm, rfl, rfl⟩
  · exact .inr (.inr (.inr ⟨Bool.eq_false_of_not_eq_true hs, rfl, rfl⟩))

theorem advance_placed {t : Task} (data : ℕ) (found : Bool) (h : Placed lastHost s.cursor t.loop) :
    Placed lastHost (advance s t data found).1.cursor (advance s t data found).2.loop := by
  obtain ⟨-, -, hc, ht⟩ | ⟨-, -, -, he⟩ | ⟨-, -, _, -, hc, ht⟩ | ⟨-, hc, ht⟩ :=
    advance_cases s t data found
  · rw [hc, ht]
    exact h
  · rw [he]
    exact h.ordered
  · rw [hc, ht]
    exact step_placed (by decide) h
  · rw [hc, ht]
    exact step_placed (by decide) h

/-- A thread that moves is the only one. -/
theorem task_cases {i : ℕ} {found : Bool} (h : Inv oj s) (hu : task s i found = some u) :
    Sole s ∧ i = 0 ∧ ∃ t, s.tasks = [t] ∧ t.call = s.call ∧
      ((t.data = none ∧ u = { s with tasks := [{ t with data := some s.sendData }] }) ∨
        (t.data ≠ none ∧ t.loop.pc = .done ∧ u = { s with tasks := [], ended := s.ended ++ [t] }) ∨
        (∃ data, t.data = some data ∧ t.loop.pc ≠ .done ∧
          u = { (advance s t data found).1 with tasks := [(advance s t data found).2] })) := by
  unfold task at hu
  split at hu
  · exact absurd hu (Option.some_ne_none u).symm
  · rename_i t ht
    rcases h.sole with hn | hs
    · rw [hn, List.getElem?_nil] at ht
      cases ht
    obtain ⟨-, -, -, t', hl, hc⟩ := id hs
    cases i with
    | succ i =>
      rw [hl, List.getElem?_cons_succ, List.getElem?_nil] at ht
      cases ht
    | zero =>
      rw [hl] at ht
      cases ht
      refine ⟨hs, rfl, t, hl, hc, ?_⟩
      rw [hl] at hu
      split at hu
      · rename_i hd
        exact .inl ⟨hd, (Option.some.inj hu).symm⟩
      · rename_i data hd
        split at hu
        case isTrue hp =>
          exact .inr (.inl ⟨by rw [hd]; exact Option.some_ne_none _, hp, (Option.some.inj hu).symm⟩)
        case isFalse hp => exact .inr (.inr ⟨data, hd, hp, (Option.some.inj hu).symm⟩)

theorem task_inv {i : ℕ} {found : Bool} (h : Inv oj s) (hu : task s i found = some u) :
    Inv oj u := by
  obtain ⟨⟨hb, hf, hthread, -⟩, -, t, hl, hc, hcases⟩ := task_cases h hu
  have hmem : t ∈ s.tasks := by
    rw [hl]
    exact List.mem_singleton_self t
  have hplaced := h.placed t hmem
  have hlive := h.requested t (List.mem_append_left _ hmem)
  have hended : ∀ t' ∈ s.ended, ∃ data, Request oj s.calls t'.call data :=
    fun t' ht' => h.requested t' (List.mem_append_right _ ht')
  obtain ⟨hd, rfl⟩ | ⟨hd, hp, rfl⟩ | ⟨data, hd, hp, hu⟩ := hcases
  · exact ⟨h.running, .inr ⟨hb, hf, hthread, _, rfl, hc⟩, List.forall_mem_singleton.2 hplaced,
      h.ended, List.forall_mem_append.2 ⟨List.forall_mem_singleton.2 hlive, hended⟩⟩
  · refine ⟨h.running, .inl rfl, fun _ ht' => absurd ht' List.not_mem_nil, ?_, ?_⟩
    · exact List.forall_mem_append.2 ⟨h.ended, List.forall_mem_singleton.2 hplaced.ordered⟩
    · exact List.forall_mem_append.2 ⟨fun _ ht' => absurd ht' List.not_mem_nil,
        List.forall_mem_append.2 ⟨hended, List.forall_mem_singleton.2 hlive⟩⟩
  · have hmoved := advance_placed data found hplaced
    obtain ⟨hcall, -⟩ := advance_task s t data found
    obtain ⟨packets, dataPacket, subAddr, cursor, he⟩ := advance_eq s t data found
    rw [he] at hu hmoved
    subst hu
    refine ⟨h.running, .inr ⟨hb, hf, hthread, _, rfl, hcall.trans hc⟩,
      List.forall_mem_singleton.2 hmoved, h.ended,
      List.forall_mem_append.2 ⟨List.forall_mem_singleton.2 ?_, hended⟩⟩
    rw [hcall]
    exact hlive

theorem join_cases (h : Inv oj s) (hu : join s = some u) :
    s.pc = .joining ∧ s.tasks = [] ∧ u = finish s := by
  unfold join at hu
  split at hu
  case isFalse => exact absurd hu (Option.some_ne_none u).symm
  case isTrue hg =>
    refine ⟨hg.1, ?_, (Option.some.inj hu).symm⟩
    rcases h.sole with hn | ⟨-, -, hthread, t, hl, hc⟩
    · exact hn
    · have hmem : t ∈ s.tasks := by
        rw [hl]
        exact List.mem_singleton_self t
      exact absurd (by rw [hc, hthread]) (hg.2 t hmem)

theorem callNotice_cases (h : Inv oj s) (hu : callNotice s = some u) : s.pc = .notice ∧
    (u = { s with pc := .joining } ∨ (s.tasks = [] ∧ u = finish s)) := by
  unfold callNotice at hu
  split at hu
  case isFalse => exact absurd hu (Option.some_ne_none u).symm
  case isTrue hp =>
    refine ⟨hp, ?_⟩
    split at hu
    case isTrue hb =>
      refine .inr ⟨?_, (Option.some.inj hu).symm⟩
      rcases h.sole with hn | ⟨hf, -⟩
      · exact hn
      · exact absurd (hb.symm.trans hf) (by decide)
    case isFalse => exact .inl (Option.some.inj hu).symm

/-- The call has cleared the flag, and has not read since. -/
def waiting : Pc → Bool
  | .reading => true
  | .packed => true
  | .listening _ => true
  | _ => false

/-- Which fields the statements of a call behind the start of its thread write, and what
they tell the thread. -/
def Goes (s u : State) : Prop :=
  ∃ pc runSearchFinish recEnd arrays packets dataPacket callBuffer buffer infoList succ failReason
    firstReads,
    u = { s with
      pc := pc, runSearchFinish := runSearchFinish, recEnd := recEnd, arrays := arrays
      packets := packets, dataPacket := dataPacket, callBuffer := callBuffer, buffer := buffer
      infoList := infoList, succ := succ, failReason := failReason, firstReads := firstReads } ∧
    s.pc ≠ .idle ∧ pc ≠ .launched ∧
    (runSearchFinish = s.runSearchFinish ∨ (pc = .idle ∧ s.tasks = [])) ∧
    (firstReads = s.firstReads ∨ firstReads = s.firstReads ++ [s.call]) ∧
    ((waiting pc = true ∧ (recEnd = false ∨ (waiting s.pc = true ∧ recEnd = s.recEnd))) ∨
      s.call ∈ firstReads ∨ (s.pc ≠ .launched ∧ waiting s.pc = false))

theorem clearRecEnd_goes (h : clearRecEnd s = some u) : Goes s u := by
  unfold clearRecEnd at h
  split at h
  case isFalse => exact absurd h (Option.some_ne_none u).symm
  case isTrue hp =>
    cases h
    exact ⟨_, _, _, _, _, _, _, _, _, _, _, _, rfl, by rw [hp]; decide, by decide, .inl rfl,
      .inl rfl, .inl ⟨rfl, .inl rfl⟩⟩

theorem newPacket_goes (h : newPacket s = some u) : Goes s u := by
  unfold newPacket at h
  split at h
  case isFalse => exact absurd h (Option.some_ne_none u).symm
  case isTrue hp =>
    cases h
    exact ⟨_, _, _, _, _, _, _, _, _, _, _, _, rfl, by rw [hp]; decide, by decide, .inl rfl,
      .inl rfl, .inl ⟨rfl, .inr ⟨by rw [hp]; rfl, rfl⟩⟩⟩

theorem listen_goes (h : listen s = some u) : Goes s u := by
  unfold listen at h
  split at h
  case isFalse => exact absurd h (Option.some_ne_none u).symm
  case isTrue hp =>
    obtain ⟨packet, -, rfl⟩ := Option.map_eq_some_iff.1 h
    exact ⟨_, _, _, _, _, _, _, _, _, _, _, _, rfl, by rw [hp]; decide, Pc.noConfusion, .inl rfl,
      .inl rfl, .inl ⟨rfl, .inr ⟨by rw [hp]; rfl, rfl⟩⟩⟩

/-- Where a packet is filled, an array and a packet change. -/
theorem fill_eq (s : State) (packet : ℕ) (sender : Peer) (datagram : JavaBytes) :
    ∃ arrays packets, fill s packet sender datagram =
      { s with arrays := arrays, packets := packets } := by
  unfold fill
  split <;> exact ⟨_, _, rfl⟩

/-- A `receive` that ends has waited with a packet, and tells what is in the buffer. -/
theorem clientReceive_cases {reply : Option Reply} (h : clientReceive s reply = some u) :
    (∃ packet, s.pc = .listening packet) ∧ ∃ arrays packets,
      (∀ r, reply = some r → arrays.getD s.callBuffer [] = r.buffer) ∧ u = { s with
        pc := .received, arrays := arrays, packets := packets, buffer := reply.map Reply.buffer
        firstReads := s.firstReads ++ [s.call] } := by
  unfold clientReceive at h
  split at h
  · rename_i packet hp
    cases h
    exact ⟨⟨packet, hp⟩, _, _, fun _ hr => absurd hr (Option.some_ne_none _).symm, rfl⟩
  · rename_i packet r hp
    obtain ⟨arrays, packets, he⟩ := fill_eq s packet r.sender r.datagram
    simp only [he] at h
    split at h
    case isFalse => exact absurd h (Option.some_ne_none u).symm
    case isTrue hb =>
      cases h
      exact ⟨⟨packet, hp⟩, arrays, packets, fun _ hr => Option.some.inj hr ▸ hb, rfl⟩
  · exact absurd h (Option.some_ne_none u).symm

theorem clientReceive_goes {reply : Option Reply} (h : clientReceive s reply = some u) :
    Goes s u := by
  obtain ⟨⟨packet, hp⟩, arrays, packets, -, rfl⟩ := clientReceive_cases h
  exact ⟨_, _, _, _, _, _, _, _, _, _, _, _, rfl, by rw [hp]; exact Pc.noConfusion, by decide,
    .inl rfl, .inr rfl, .inr (.inl (List.mem_append_right _ (List.mem_singleton_self _)))⟩

theorem setRecEnd_goes (h : setRecEnd oj s = some u) : Goes s u := by
  unfold setRecEnd at h
  split at h
  case isFalse => exact absurd h (Option.some_ne_none u).symm
  case isTrue hp =>
    cases h
    obtain ⟨pc, succ, infoList, failReason, hpc, he⟩ := examine_eq oj { s with recEnd := true }
    rw [he]
    exact ⟨_, _, _, _, _, _, _, _, _, _, _, _, rfl, by rw [hp]; decide, hpc, .inl rfl, .inl rfl,
      .inr (.inr (by rw [hp]; exact ⟨Pc.noConfusion, rfl⟩))⟩

theorem callNotice_goes (hi : Inv oj s) (h : callNotice s = some u) : Goes s u := by
  obtain ⟨hp, rfl | ⟨ht, rfl⟩⟩ := callNotice_cases hi h
  · exact ⟨_, _, _, _, _, _, _, _, _, _, _, _, rfl, by rw [hp]; decide, by decide, .inl rfl,
      .inl rfl, .inr (.inr (by rw [hp]; exact ⟨Pc.noConfusion, rfl⟩))⟩
  · exact ⟨_, _, _, _, _, _, _, _, _, _, _, _, rfl, by rw [hp]; decide, by decide, .inr ⟨rfl, ht⟩,
      .inl rfl,
      .inr (.inr (by rw [hp]; exact ⟨Pc.noConfusion, rfl⟩))⟩

theorem join_goes (hi : Inv oj s) (h : join s = some u) : Goes s u := by
  obtain ⟨hp, ht, rfl⟩ := join_cases hi h
  exact ⟨_, _, _, _, _, _, _, _, _, _, _, _, rfl, by rw [hp]; decide, by decide, .inr ⟨rfl, ht⟩,
      .inl rfl,
    .inr (.inr (by rw [hp]; exact ⟨Pc.noConfusion, rfl⟩))⟩

theorem step_cases {a : Act} (hi : Inv oj s) (h : step oj s a = some u) :
    (∃ c, a = .start c ∧ start oj s c = some u) ∨
      (∃ i found, a = (if found then .task i else .unresolved i) ∧ task s i found = some u) ∨
      Goes s u := by
  cases a with
  | start c => exact .inl ⟨c, rfl, h⟩
  | task i => exact .inr (.inl ⟨i, true, rfl, h⟩)
  | unresolved i => exact .inr (.inl ⟨i, false, rfl, h⟩)
  | clearRecEnd => exact .inr (.inr (clearRecEnd_goes h))
  | newPacket => exact .inr (.inr (newPacket_goes h))
  | listen => exact .inr (.inr (listen_goes h))
  | receive reply => exact .inr (.inr (clientReceive_goes h))
  | setRecEnd => exact .inr (.inr (setRecEnd_goes h))
  | notice => exact .inr (.inr (callNotice_goes hi h))
  | join => exact .inr (.inr (join_goes hi h))

theorem step_inv {a : Act} (h : Inv oj s) (hu : step oj s a = some u) : Inv oj u := by
  obtain ⟨c, rfl, hstart⟩ | ⟨i, found, rfl, htask⟩ |
    ⟨_, _, _, _, _, _, _, _, _, _, _, _, rfl, hp, -, hf, -, -⟩ := step_cases h hu
  · exact start_inv h hstart
  · exact task_inv h htask
  obtain rfl | ⟨rfl, ht⟩ := hf
  · exact ⟨fun _ => h.running hp, h.sole, h.placed, h.ended, h.requested⟩
  · exact ⟨fun hi => absurd rfl hi, .inl ht, h.placed, h.ended, h.requested⟩

end Sole

section Coverage
variable {oj : OrgJson} {s u : State}

/-- What the thread must find: at its check, `recEnd` not still set from an earlier call; and
where it hands over the packet in the field, one that holds the request and has the address
it has prepared, or else none, and a call that has read. -/
structure Finds (oj : OrgJson) (s : State) (t : Task) : Prop where
  flag : t.loop.pc = .check → s.pc = .launched → s.recEnd = false
  packet : sends t.loop.pc = true → t.made = true → ∀ datagram, handed s = some datagram →
    datagram.1 = .host s.cursor.dst ∧ Request oj s.calls t.call datagram.2
  address : sends t.loop.pc = true → t.made = true → handed s = none → t.call ∈ s.firstReads

def Cleared (oj : OrgJson) (s : State) : Act → Prop
  | .task i => ∀ t, s.tasks[i]? = some t → t.data ≠ none → Finds oj s t
  | .unresolved i => ∀ t, s.tasks[i]? = some t → t.data ≠ none → Finds oj s t
  | _ => True

/-- No sweep has ended before the last address while its call has not read once. -/
def InTime (s : State) : Prop :=
  ∀ t ∈ s.tasks ++ s.ended, CutShort lastHost t.loop → t.call ∈ s.firstReads

/-- Each of the datagrams is the request of the call, to the next host. -/
def Sent (oj : OrgJson) (calls : List Call) (t : Task) : Prop :=
  ∃ data, Request oj calls t.call data ∧ t.datagrams = t.loop.sent.map fun n => (.host n, data)

/-- What each sweep has sent, and that none has ended too soon. -/
structure Covers (oj : OrgJson) (s : State) : Prop where
  early : InTime s
  sent : ∀ t ∈ s.tasks ++ s.ended, Sent oj s.calls t

/-- While a thread is alive, `recEnd` tells whether its call has read. -/
structure Timely (oj : OrgJson) (s : State) : Prop where
  heard : s.tasks ≠ [] → s.pc = .launched ∨ (waiting s.pc = true ∧ s.recEnd = false) ∨
    s.call ∈ s.firstReads
  covers : Covers oj s

/-- A call that is about to clear `recEnd` has not read. -/
structure Unread (s : State) : Prop where
  numbers : ∀ n ∈ s.firstReads, n < s.calls.length
  running : s.pc ≠ .idle → s.call < s.calls.length
  launched : s.pc = .launched → s.call ∉ s.firstReads

theorem init_timely (client : Client) (isBroadcast : Bool) :
    Timely oj (init client isBroadcast) where
  heard := fun h => absurd rfl h
  covers := ⟨fun _ ht => absurd ht List.not_mem_nil, fun _ ht => absurd ht List.not_mem_nil⟩

theorem Sent.append {calls : List Call} {t : Task} (c : Call) (h : Sent oj calls t) :
    Sent oj (calls ++ [c]) t :=
  h.imp fun _ hd => ⟨hd.1.append c, hd.2⟩

/-- The property of all sweeps, where only the live one changes. -/
theorem Covers.changed {t' : Task} {u : State} (h : Covers oj s)
    (hu : u.tasks ++ u.ended = t' :: s.ended ∨ u.tasks ++ u.ended = s.ended ++ [t'])
    (hcalls : u.calls = s.calls) (hreads : u.firstReads = s.firstReads)
    (early : CutShort lastHost t'.loop → t'.call ∈ s.firstReads)
    (sent : Sent oj s.calls t') : Covers oj u := by
  have hmem : ∀ x ∈ u.tasks ++ u.ended, x = t' ∨ x ∈ s.ended := by
    intro x hx
    rcases hu with hu | hu
    · rw [hu] at hx
      exact List.mem_cons.1 hx
    · rw [hu] at hx
      exact (List.mem_append.1 hx).symm.imp List.mem_singleton.1 id
  refine ⟨fun x hx hcut => ?_, fun x hx => ?_⟩
  · rw [hreads]
    rcases hmem x hx with rfl | hx
    · exact early hcut
    · exact h.early x (List.mem_append_right _ hx) hcut
  · rw [hcalls]
    rcases hmem x hx with rfl | hx
    · exact sent
    · exact h.sent x (List.mem_append_right _ hx)

theorem start_timely {c : Call} (hi : Inv oj s) (h : Timely oj s) (hu : start oj s c = some u) :
    Timely oj u := by
  have hold : ∀ t ∈ s.tasks ++ s.ended, Sent oj (s.calls ++ [c]) t :=
    fun t ht => (h.covers.sent t ht).append c
  obtain rfl | ⟨-, hf, ⟨pc, rfl, -⟩ | ⟨-, data, hd, rfl⟩⟩ := start_cases hu
  · exact h
  · exact ⟨fun hne => absurd (hi.tasks_nil hf) hne, h.covers.early, hold⟩
  · have hnil := hi.tasks_nil hf
    have hlast : (s.calls ++ [c])[s.calls.length]? = some c := by
      rw [List.getElem?_append_right (Nat.le_refl _), Nat.sub_self]
      rfl
    refine ⟨fun _ => .inl rfl, fun t ht hcut => ?_, fun t ht => ?_⟩
    · rcases List.mem_append.1 ht with ht | ht
      · rw [hnil] at ht
        rw [List.mem_singleton.1 ht] at hcut
        exact absurd hcut fresh_not_cutShort
      · exact h.covers.early t (List.mem_append_right _ ht) hcut
    · rcases List.mem_append.1 ht with ht | ht
      · rw [hnil] at ht
        rw [List.mem_singleton.1 ht]
        exact ⟨data, ⟨c, hlast, hd⟩, rfl⟩
      · exact hold t (List.mem_append_right _ ht)

/-- A statement that hands nothing over adds nothing to the history of the sends. -/
theorem proceed_sent {t : Task} (h : sends t.loop.pc = false) :
    (broadcastData s.recEnd s.cursor t.loop).2.sent = t.loop.sent := by
  obtain ⟨call, data, ⟨pc, sent⟩, made, datagrams⟩ := t
  cases pc with
  | write _ => cases h
  | _ => rfl

theorem handOver_sent {t : Task} (h : sends t.loop.pc = true) :
    (broadcastData s.recEnd s.cursor t.loop).2.sent = t.loop.sent ++ [s.cursor.dst] := by
  obtain ⟨call, data, ⟨pc, sent⟩, made, datagrams⟩ := t
  cases pc with
  | write _ => rfl
  | _ => cases h

/-- A thread that has an address to send to has not sent to the last. -/
theorem thrown_cutShort {w : Sweep} (h : Placed lastHost s.cursor w) (hs : sends w.pc = true) :
    CutShort lastHost { w with pc := .done } := by
  obtain ⟨pc, sent⟩ := w
  cases pc with
  | write finish =>
    refine ⟨rfl, ?_⟩
    change sent.length < lastHost
    cases finish with
    | false =>
      obtain ⟨hsub, h1, hle, hsent⟩ := h
      rw [show sent = hosts (s.cursor.dst - 1) from hsent, hosts_length]
      omega
    | true =>
      rw [show sent = hosts (lastHost - 1) from h.2, hosts_length]
      decide
  | _ => cases hs

theorem sends_check {t : Task} (h : sends t.loop.pc = true) : t.loop.pc ≠ .check := by
  intro hc
  rw [hc] at h
  cases h

theorem advance_covered {t : Task} (data : ℕ) (found : Bool) (hi : Inv oj s) (h : Timely oj s)
    (hl : s.tasks = [t]) (hc : t.call = s.call) (g : Finds oj s t) (hp : t.loop.pc ≠ .done) :
    (CutShort lastHost (advance s t data found).2.loop → t.call ∈ s.firstReads) ∧
      Sent oj s.calls (advance s t data found).2 := by
  have hmem : t ∈ s.tasks := by
    rw [hl]
    exact List.mem_singleton_self t
  have hplaced := hi.placed t hmem
  have hheard := h.heard (List.ne_nil_of_mem hmem)
  have hearly := h.covers.early t (List.mem_append_left _ hmem)
  have hsent := h.covers.sent t (List.mem_append_left _ hmem)
  have hcut : CutShort lastHost (broadcastData s.recEnd s.cursor t.loop).2 →
      t.call ∈ s.firstReads := by
    intro hcut
    rw [hc]
    exact heard_of_cutShort (by decide) hplaced hp hcut hheard g.flag
  obtain ⟨-, -, -, ht⟩ | ⟨hs, hm, hh, he⟩ | ⟨hs, hm, datagram, hh, -, ht⟩ | ⟨hs, -, ht⟩ :=
    advance_cases s t data found
  · rw [ht]
    exact ⟨hearly, hsent⟩
  · rw [he]
    exact ⟨fun _ => g.address hs hm hh, hsent⟩
  · rw [ht]
    refine ⟨hcut, ?_⟩
    obtain ⟨request, hr, hd⟩ := hsent
    obtain ⟨hdst, hr'⟩ := g.packet hs hm datagram hh
    have hdatagram : datagram = (.host s.cursor.dst, request) := Prod.ext hdst (hr'.unique hr)
    refine ⟨request, hr, ?_⟩
    change t.datagrams ++ [datagram] = List.map _ (broadcastData s.recEnd s.cursor t.loop).2.sent
    rw [handOver_sent hs, List.map_append, hd, hdatagram]
    rfl
  · rw [ht]
    refine ⟨hcut, ?_⟩
    obtain ⟨request, hr, hd⟩ := hsent
    refine ⟨request, hr, ?_⟩
    change t.datagrams = List.map _ (broadcastData s.recEnd s.cursor t.loop).2.sent
    rw [proceed_sent hs, hd]

theorem task_timely {i : ℕ} {found : Bool} (hi : Inv oj s) (h : Timely oj s)
    (g : ∀ t, s.tasks[i]? = some t → t.data ≠ none → Finds oj s t)
    (hu : task s i found = some u) : Timely oj u := by
  obtain ⟨-, rfl, t, hl, hc, hcases⟩ := task_cases hi hu
  have hmem : t ∈ s.tasks := by
    rw [hl]
    exact List.mem_singleton_self t
  have hheard := h.heard (List.ne_nil_of_mem hmem)
  have hearly := h.covers.early t (List.mem_append_left _ hmem)
  have hsent := h.covers.sent t (List.mem_append_left _ hmem)
  obtain ⟨-, rfl⟩ | ⟨-, -, rfl⟩ | ⟨data, hd, hp, hu⟩ := hcases
  · exact ⟨fun _ => hheard, h.covers.changed (.inl rfl) rfl rfl hearly hsent⟩
  · exact ⟨fun hnil => absurd rfl hnil, h.covers.changed (.inr rfl) rfl rfl hearly hsent⟩
  · have hfinds := g t (by rw [hl]; rfl) (by rw [hd]; exact Option.some_ne_none _)
    obtain ⟨hcut, hsent⟩ := advance_covered data found hi h hl hc hfinds hp
    obtain ⟨hcall, -⟩ := advance_task s t data found
    obtain ⟨_, _, _, _, he⟩ := advance_eq s t data found
    rw [he] at hu
    subst hu
    exact ⟨fun _ => hheard, h.covers.changed (.inl rfl) rfl rfl (by rwa [hcall]) hsent⟩

theorem Timely.later (h : Timely oj s) (hl : s.pc ≠ .launched) (hr : waiting s.pc = false)
    (ht : s.tasks ≠ []) : s.call ∈ s.firstReads := by
  rcases h.heard ht with hp | ⟨hp, -⟩ | hheard
  · exact absurd hp hl
  · cases hp.symm.trans hr
  · exact hheard

theorem step_timely {a : Act} (hi : Inv oj s) (h : Timely oj s) (g : Cleared oj s a)
    (hu : step oj s a = some u) : Timely oj u := by
  obtain ⟨c, rfl, hstart⟩ | ⟨i, found, rfl, htask⟩ |
    ⟨pc, _, recEnd, _, _, _, _, _, _, _, _, firstReads, rfl, -, -, -, hreads, htold⟩ :=
    step_cases hi hu
  · exact start_timely hi h hstart
  · refine task_timely hi h ?_ htask
    cases found <;> exact g
  have hsub : ∀ n ∈ s.firstReads, n ∈ firstReads := by
    intro n hn
    obtain rfl | rfl := hreads
    · exact hn
    · exact List.mem_append_left _ hn
  refine ⟨fun hne => ?_, fun t ht hcut => hsub _ (h.covers.early t ht hcut), h.covers.sent⟩
  obtain ⟨hw, hr | ⟨hsw, hr⟩⟩ | hheard | ⟨hl, hr⟩ := htold
  · exact .inr (.inl ⟨hw, hr⟩)
  · rcases h.heard hne with hp | ⟨-, hf⟩ | hheard
    · rw [hp] at hsw
      cases hsw
    · exact .inr (.inl ⟨hw, hr.trans hf⟩)
    · exact .inr (.inr (hsub _ hheard))
  · exact .inr (.inr hheard)
  · exact .inr (.inr (hsub _ (h.later hl hr hne)))

theorem init_unread (client : Client) (isBroadcast : Bool) : Unread (init client isBroadcast) :=
  ⟨fun _ hn => absurd hn List.not_mem_nil, fun h => absurd rfl h, fun _ => List.not_mem_nil⟩

theorem start_unread {c : Call} (h : Unread s) (hu : start oj s c = some u) : Unread u := by
  have hlt : s.calls.length < (s.calls ++ [c]).length := by
    rw [List.length_append]
    exact Nat.lt_succ_self _
  have hgrow : ∀ n ∈ s.firstReads, n < (s.calls ++ [c]).length :=
    fun n hn => (h.numbers n hn).trans hlt
  have hnew : s.calls.length ∉ s.firstReads := fun hn => Nat.lt_irrefl _ (h.numbers _ hn)
  obtain rfl | ⟨-, -, ⟨pc, rfl, -⟩ | ⟨-, data, -, rfl⟩⟩ := start_cases hu
  · exact h
  · exact ⟨hgrow, fun _ => hlt, fun _ => hnew⟩
  · exact ⟨hgrow, fun _ => hlt, fun _ => hnew⟩

theorem step_unread {a : Act} (hi : Inv oj s) (h : Unread s) (hu : step oj s a = some u) :
    Unread u := by
  obtain ⟨c, rfl, hstart⟩ | ⟨i, found, rfl, htask⟩ |
    ⟨_, _, _, _, _, _, _, _, _, _, _, _, rfl, hp, hl, -, hreads, -⟩ := step_cases hi hu
  · exact start_unread h hstart
  · obtain ⟨-, -, t, -, -, ⟨-, rfl⟩ | ⟨-, -, rfl⟩ | ⟨data, -, -, hu⟩⟩ := task_cases hi htask
    · exact ⟨h.numbers, h.running, h.launched⟩
    · exact ⟨h.numbers, h.running, h.launched⟩
    · obtain ⟨_, _, _, _, he⟩ := advance_eq s t data found
      rw [he] at hu
      subst hu
      exact ⟨h.numbers, h.running, h.launched⟩
  refine ⟨fun n hn => ?_, fun _ => h.running hp, fun h => absurd h hl⟩
  obtain rfl | rfl := hreads
  · exact h.numbers n hn
  · rcases List.mem_append.1 hn with hn | hn
    · exact h.numbers n hn
    · rw [List.mem_singleton.1 hn]
      exact h.running hp

/-- A thread that finds anything else ends too soon, or sends something else. -/
theorem finds_of_covers {i : ℕ} {found : Bool} {t : Task} (hi : Inv oj s) (h : Unread s)
    (hs : Covers oj s) (hu : task s i found = some u) (hcovers : Covers oj u)
    (hget : s.tasks[i]? = some t) (hd : t.data ≠ none) : Finds oj s t := by
  obtain ⟨-, -, t', htasks, hc, hcases⟩ := task_cases hi hu
  have hmem := List.mem_of_getElem? hget
  rw [htasks, List.mem_singleton] at hmem
  subst hmem
  have hmem := List.mem_of_getElem? hget
  have hplaced := hi.placed t hmem
  have hsent := hs.sent t (List.mem_append_left _ hmem)
  obtain ⟨hn, -⟩ | ⟨-, hdone, -⟩ | ⟨data, -, -, hu⟩ := hcases
  · exact absurd hn hd
  · have hnot : sends t.loop.pc = false := by rw [hdone]; rfl
    exact ⟨fun hp => absurd (hdone.symm.trans hp) (by decide),
      fun hp => absurd (hp.symm.trans hnot) (by decide),
      fun hp => absurd (hp.symm.trans hnot) (by decide)⟩
  obtain ⟨hcall, -⟩ := advance_task s t data found
  obtain ⟨_, _, _, _, he⟩ := advance_eq s t data found
  rw [he] at hu
  subst hu
  have hlast := List.mem_append_left s.ended (List.mem_singleton_self (advance s t data found).2)
  have hearly := hcovers.early _ hlast
  have hsent' := hcovers.sent _ hlast
  rw [hcall] at hearly
  obtain ⟨hs, hm, -, -⟩ | ⟨hs, hm, hh, he⟩ | ⟨hs, hm, datagram, hh, -, ht⟩ | ⟨hs, -, ht⟩ :=
    advance_cases s t data found
  · have hnot : t.made ≠ true := by rw [hm]; decide
    exact ⟨fun hp => absurd hp (sends_check hs), fun _ hm' => absurd hm' hnot,
      fun _ hm' => absurd hm' hnot⟩
  · rw [he] at hearly
    refine ⟨fun hp => absurd hp (sends_check hs), fun _ _ d hd => ?_, fun _ _ _ => ?_⟩
    · cases hh.symm.trans hd
    · exact hearly (thrown_cutShort hplaced hs)
  · refine ⟨fun hp => absurd hp (sends_check hs), fun _ _ d hd => ?_, fun _ _ hn => ?_⟩
    · obtain rfl := Option.some.inj (hh.symm.trans hd)
      obtain ⟨request, hr, hds⟩ := hsent
      obtain ⟨request', hr', hds'⟩ := hsent'
      rw [hcall] at hr'
      obtain rfl := hr.unique hr'
      rw [ht] at hds'
      change t.datagrams ++ [datagram] = List.map _ (broadcastData s.recEnd s.cursor t.loop).2.sent
        at hds'
      rw [handOver_sent hs, List.map_append, hds] at hds'
      obtain rfl := (List.cons.inj (List.append_cancel_left hds')).1
      exact ⟨rfl, hr⟩
    · cases hh.symm.trans hn
  · have hnot : sends t.loop.pc ≠ true := by rw [hs]; decide
    refine ⟨fun hp hl => ?_, fun hs' => absurd hs' hnot, fun hs' => absurd hs' hnot⟩
    by_contra hr
    have hr := Bool.eq_true_of_not_eq_false hr
    rw [ht, hr] at hearly
    refine h.launched hl ?_
    rw [← hc]
    exact hearly (stopped_cutShort hplaced hp)

theorem cleared_of_covers {a : Act} (hi : Inv oj s) (h : Unread s) (hs : Covers oj s)
    (hu : step oj s a = some u) (hc : Covers oj u) : Cleared oj s a := by
  cases a with
  | task i => exact fun t => finds_of_covers hi h hs hu hc
  | unresolved i => exact fun t => finds_of_covers hi h hs hu hc
  | _ => trivial

theorem run_inv {client : Client} {isBroadcast : Bool} {acts : List Act}
    (h : Runs (step oj) (fun _ _ => True) (init client isBroadcast) acts s) : Inv oj s :=
  h.invariant (Inv oj) (init_inv client isBroadcast) fun _ _ _ hs _ hu => step_inv hs hu

/-- In every state of a run the sweeps cover their addresses exactly when each thread finds
the flag and the packet as it should. -/
theorem run_covers_iff {client : Client} {isBroadcast : Bool} {acts : List Act} :
    Runs (step oj) (fun s a => ∀ u, step oj s a = some u → Covers oj u) (init client isBroadcast)
        acts s ↔
      Runs (step oj) (Cleared oj) (init client isBroadcast) acts s := by
  constructor
  · intro h
    refine h.guard_of_invariant (fun s => Inv oj s ∧ Unread s ∧ Covers oj s)
      ⟨init_inv client isBroadcast, init_unread client isBroadcast,
        (init_timely client isBroadcast).covers⟩ ?_ ?_
    · intro s a u hs g hu
      exact ⟨step_inv hs.1 hu, step_unread hs.1 hs.2.1 hu, g u hu⟩
    · intro s a u hs g hu
      exact cleared_of_covers hs.1 hs.2.1 hs.2.2 hu (g u hu)
  · intro h
    refine h.guard_of_invariant (fun s => Inv oj s ∧ Timely oj s)
      ⟨init_inv client isBroadcast, init_timely client isBroadcast⟩ ?_ ?_
    · intro s a u hs g hu
      exact ⟨step_inv hs.1 hu, step_timely hs.1 hs.2 g hu⟩
    · intro s a _ hs g _ u hu
      exact (step_timely hs.1 hs.2 g hu).covers

end Coverage

section Searched
variable {oj : OrgJson} {c : Call} {data : JavaBytes}

theorem start_eq {s : State} (hp : s.pc = .idle) (hc : c.client = s.client)
    (hf : s.runSearchFinish = true) (hl : ¬ ClearThrows s) (hb : s.isBroadcast = false)
    (hd : c.packet oj = .ok data) : start oj s c = some { enter s c with
      pc := .launched, arrays := s.arrays ++ [data], sendData := s.arrays.length
      thread := some s.calls.length, tasks := s.tasks ++ [.started s.calls.length] } := by
  rw [start, if_pos ⟨hp, hc⟩, if_pos hf, if_neg hl, hd]
  exact if_neg (by rw [hb]; exact Bool.false_ne_true)

/-- The thread sends one packet, and the call reads nothing. -/
def searchedActs (c : Call) : List Act :=
  [.start c, .task 0, .task 0, .clearRecEnd, .task 0, .task 0, .task 0, .task 0, .newPacket,
    .listen, .receive none, .setRecEnd, .notice, .task 0, .task 0, .join]

def searched (c : Call) (data : JavaBytes) : State :=
  { init .inquiryClient false with
    recEnd := true
    arrays := [data, List.replicate protocalLen 0]
    packets := [⟨0, data.length, some (.host 1)⟩,
      ⟨1, (List.replicate protocalLen (0 : Int8)).length, none⟩]
    dataPacket := some 1
    subAddr := some 1
    callBuffer := 1
    cursor := ⟨2, 1⟩
    thread := some 0
    ended := [⟨0, some 0, ⟨.done, [1]⟩, false, [(.host 1, data.take data.length)]⟩]
    calls := [c]
    firstReads := [0] }

theorem runs_searched (hc : c.client = .inquiryClient) (hd : c.packet oj = .ok data) :
    Runs (step oj) (fun _ _ => True) (init .inquiryClient false) (searchedActs c)
      (searched c data) := by
  have hstart := start_eq (s := init .inquiryClient false) rfl hc rfl (fun h => h.2 rfl) rfl hd
  exact .next trivial hstart (runs_of_foldlM (fun _ _ _ => trivial) rfl)

def stale (c : Call) (data : JavaBytes) : State :=
  { enter (searched c data) c with
    pc := .launched
    arrays := [data, List.replicate protocalLen 0, data]
    sendData := 2
    cursor := ⟨1, 1⟩
    thread := some 1
    tasks := [⟨1, some 2, ⟨.done, []⟩, false, []⟩] }

/-- The packet of the call comes into the field before the thread hands over its own. -/
def swappedActs (c : Call) : List Act :=
  [.start c, .task 0, .task 0, .clearRecEnd, .task 0, .task 0, .task 0, .newPacket, .task 0]

/-- The thread of a first call has ended by an exception: it has sent nothing, and its call
has not read. -/
def swapped (c : Call) (data : JavaBytes) : State :=
  { enter (init .inquiryClient false) c with
    pc := .packed
    arrays := [data, List.replicate protocalLen 0]
    packets := [⟨0, data.length, some (.host 1)⟩,
      ⟨1, (List.replicate protocalLen (0 : Int8)).length, none⟩]
    dataPacket := some 1
    subAddr := some 1
    callBuffer := 1
    cursor := ⟨2, 1⟩
    thread := some 0
    tasks := [⟨0, some 0, ⟨.done, []⟩, false, []⟩] }

theorem runs_swapped (hc : c.client = .inquiryClient) (hd : c.packet oj = .ok data) :
    Runs (step oj) (fun _ _ => True) (init .inquiryClient false) (swappedActs c)
      (swapped c data) := by
  have hstart := start_eq (s := init .inquiryClient false) rfl hc rfl (fun h => h.2 rfl) rfl hd
  exact .next trivial hstart (runs_of_foldlM (fun _ _ _ => trivial) rfl)

end Searched

end MiniServiceDiscover.JavaSweep
