import MiniServiceDiscover.GoReply
import MiniServiceDiscover.StepRuns

set_option autoImplicit false

/-! One application object of the Go library beside the daemons of its network:
the calls it makes one after the other, the sweep each call starts, the datagrams
under way and the socket that outlives the calls. -/
namespace MiniServiceDiscover.GoCaller
open JsonText GoJson GoProtocal GoProvider GoDaemon GoReply StepRuns

/-- The object that makes the calls. -/
inductive Caller where
  | serverData
  | clientData
  deriving DecidableEq, Repr

inductive Call where
  | registerService (devName serviceName ip : Bytes) (port : UInt16) (info : Bytes)
  | unRegisterService (devName serviceName : Bytes)
  | inquiryService (serviceName : Bytes)
  deriving DecidableEq, Repr

def Call.caller : Call → Caller
  | .registerService .. => .serverData
  | .unRegisterService .. => .serverData
  | .inquiryService _ => .clientData

def Call.sendData : Call → Except GoPanic Bytes
  | .registerService devName serviceName ip port info =>
    getRegisterService devName serviceName ip port info
  | .unRegisterService devName serviceName => getUnRegisterService devName serviceName
  | .inquiryService serviceName => getInquiryService serviceName

inductive Outcome where
  | result (succ : Bool) (failReason : Bytes)
  | infos (infos : List ServiceInfo)
  deriving DecidableEq, Repr

/-- A datagram to host `dst`, and the number of the call that sent it. The number
is not on the wire. -/
structure Request where
  dst : ℕ
  data : Bytes
  call : ℕ
  deriving DecidableEq, Repr

/-- What the daemon at `src` wrote for a request of that call. -/
structure Reply where
  src : ℕ
  data : Bytes
  call : ℕ
  deriving DecidableEq, Repr

/-- Where `UDPBroadcastData` stands. -/
inductive SweepPc where
  | reset
  | check (finish : Bool)
  | send
  | quit
  deriving DecidableEq, Repr

structure Sweep where
  pc : SweepPc
  data : Bytes
  call : ℕ
  deriving DecidableEq, Repr

/-- Where `GetResult` or `GetInquiryResult` stands. -/
inductive Pc where
  | idle
  | launched
  | reading
  | received
  | waiting
  | panicked
  deriving DecidableEq, Repr

/-- A call that has returned, and the replies it read. -/
structure Report where
  number : ℕ
  call : Call
  outcome : Outcome
  used : List Reply
  deriving DecidableEq, Repr

/-- `reply` and `infos` are locals of the running call; `calls`, `call`, `used` and
`log` record the history and steer nothing. -/
structure State where
  caller : Caller
  pc : Pc
  reply : Option Reply
  infos : List ServiceInfo
  recEnd : Bool
  broadcastQuit : ℕ
  subIP : ℕ
  sweeps : List Sweep
  requests : List Request
  replies : List Reply
  queue : List Reply
  daemons : ℕ → Option Provider
  calls : List Call
  call : ℕ
  used : List Reply
  log : List Report

inductive Act where
  | start (c : Call)
  | clearRecEnd
  | read
  | timeout
  | setRecEnd
  | join
  | sweep (i : ℕ)
  | handle (i : ℕ)
  | deliver (i : ℕ)
  | loseRequest (i : ℕ)
  | loseReply (i : ℕ)
  | other (host : ℕ) (data : Bytes)
  deriving DecidableEq, Repr

def readNothing : Bytes := ascii "read nothing"

/-- A fresh object beside fresh daemons. -/
def init (caller : Caller) (hosts : ℕ → Bool) : State where
  caller := caller
  pc := .idle
  reply := none
  infos := []
  recEnd := false
  broadcastQuit := 0
  subIP := 1
  sweeps := []
  requests := []
  replies := []
  queue := []
  daemons := fun host => if hosts host then some getProvider else none
  calls := []
  call := 0
  used := []
  log := []

section Calls

/-- Up to the `go` statement. -/
def start (s : State) (c : Call) : Option State :=
  if s.pc = .idle ∧ c.caller = s.caller then
    match c.sendData with
    | .error _ => some { s with pc := .panicked }
    | .ok data => some { s with
        pc := .launched
        reply := none
        infos := []
        sweeps := s.sweeps ++ [⟨.reset, data, s.calls.length⟩]
        calls := s.calls ++ [c]
        call := s.calls.length
        used := [] }
  else none

def clearRecEnd (s : State) : Option State :=
  if s.pc = .launched then some { s with pc := .reading, recEnd := false } else none

def clientRead (s : State) : Option State :=
  match s.pc, s.queue with
  | .reading, r :: queue =>
    some { s with pc := .received, reply := some r, queue := queue, used := s.used ++ [r] }
  | _, _ => none

/-- `Read` comes back without a byte. -/
def timeout (s : State) : Option State :=
  if s.pc = .reading then some { s with pc := .received, reply := none } else none

/-- The rest of one pass of the loop in `GetInquiryResult`. -/
def examine (s : State) : State :=
  match s.reply with
  | none => { s with pc := .waiting }
  | some r =>
    match inquiryReply r.data with
    | .error _ => { s with pc := .panicked }
    | .ok none => { s with pc := .waiting }
    | .ok (some i) => { s with pc := .reading, infos := s.infos ++ [i] }

def setRecEnd (s : State) : Option State :=
  if s.pc = .received then
    match s.caller with
    | .serverData => some { s with pc := .waiting, recEnd := true }
    | .clientData => some (examine { s with recEnd := true })
  else none

def outcome (s : State) : Except GoPanic Outcome :=
  match s.caller, s.reply with
  | .clientData, _ => .ok (.infos s.infos)
  | .serverData, none => .ok (.result false readNothing)
  | .serverData, some r => (resultReply r.data).map fun res => .result res.1 res.2

/-- The token of the sweep arrives, and the call returns. -/
def join (s : State) : Option State :=
  if s.pc = .waiting ∧ 0 < s.broadcastQuit then
    match s.calls[s.call]?, outcome s with
    | some c, .ok o => some { s with
        pc := .idle
        broadcastQuit := s.broadcastQuit - 1
        log := s.log ++ [⟨s.call, c, o, s.used⟩] }
    | _, _ => some { s with pc := .panicked, broadcastQuit := s.broadcastQuit - 1 }
  else none

end Calls

section Sweeps

/-- `PrepareSubAddr` and `WriteSub`. -/
def sendSub (s : State) (i : ℕ) (w : Sweep) : State :=
  let more := s.subIP < 254
  { s with
    subIP := if more then s.subIP + 1 else s.subIP
    requests := s.requests ++ [⟨s.subIP, w.data, w.call⟩]
    sweeps := s.sweeps.set i { w with pc := .check (!more) } }

/-- One statement of the `i`-th live sweep; the channel holds one token. -/
def sweep (s : State) (i : ℕ) : Option State :=
  match s.pc, s.sweeps[i]? with
  | .panicked, _ => none
  | _, none => none
  | _, some w =>
    match w.pc with
    | .reset => some { s with subIP := 1, sweeps := s.sweeps.set i { w with pc := .check false } }
    | .check finish =>
      let next := if finish || s.recEnd then .quit else .send
      some { s with sweeps := s.sweeps.set i { w with pc := next } }
    | .send => some (sendSub s i w)
    | .quit =>
      if s.broadcastQuit < 1 then
        some { s with broadcastQuit := s.broadcastQuit + 1, sweeps := s.sweeps.eraseIdx i }
      else none

end Sweeps

section Network

/-- The daemon a request reaches handles it; a panic ends that daemon. -/
def handle (s : State) (i : ℕ) : Option State :=
  s.requests[i]?.map fun r =>
    match s.daemons r.dst with
    | none => { s with requests := s.requests.eraseIdx i }
    | some p =>
      let h := processData p r.data
      { s with
        requests := s.requests.eraseIdx i
        replies := s.replies ++ h.sent.map fun data => ⟨r.dst, data, r.call⟩
        daemons := Function.update s.daemons r.dst h.result.toOption }

def deliver (s : State) (i : ℕ) : Option State :=
  s.replies[i]?.map fun r =>
    { s with replies := s.replies.eraseIdx i, queue := s.queue ++ [r] }

def loseRequest (s : State) (i : ℕ) : Option State :=
  s.requests[i]?.map fun _ => { s with requests := s.requests.eraseIdx i }

def loseReply (s : State) (i : ℕ) : Option State :=
  s.replies[i]?.map fun _ => { s with replies := s.replies.eraseIdx i }

/-- A daemon handles the packet of another application, which gets the answer. -/
def other (s : State) (host : ℕ) (data : Bytes) : Option State :=
  if data.length = udpCommBufLen then
    (s.daemons host).map fun p =>
      { s with daemons := Function.update s.daemons host (processData p data).result.toOption }
  else none

end Network

def step (s : State) : Act → Option State
  | .start c => start s c
  | .clearRecEnd => clearRecEnd s
  | .read => clientRead s
  | .timeout => timeout s
  | .setRecEnd => setRecEnd s
  | .join => join s
  | .sweep i => sweep s i
  | .handle i => handle s i
  | .deliver i => deliver s i
  | .loseRequest i => loseRequest s i
  | .loseReply i => loseReply s i
  | .other host data => other s host data

end MiniServiceDiscover.GoCaller
