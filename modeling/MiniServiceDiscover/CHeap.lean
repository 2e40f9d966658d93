import MiniServiceDiscover.BlockMemory
import MiniServiceDiscover.CDaemon

set_option autoImplicit false

/-! The C program with its heap: what it allocates, points to and frees. What is read off a
packet and printed into one is that of the codec; what cJSON allocates for a tree it frees. -/
namespace MiniServiceDiscover.CHeap
open CProtocal (CString CharPtr CFault CJson Key Field serviceRoot serviceNoFound)
open PointerChain BlockMemory WireFormat

/-- `service_pkt`. -/
structure ServicePkt where
  data : Option Ptr
  len : ℕ

/-- `service_info`. -/
structure ServiceInfo where
  deviceName : Option Ptr
  serviceName : Option Ptr
  ip : Option Ptr
  info : Option Ptr
  port : UInt16

/-- `service_info_list`. -/
structure ServiceInfoList where
  head : Option Ptr
  tail : Option Ptr

/-- What a block holds; a node is a `service_info_node`, and a result a `result_info`. -/
inductive Block where
  | pkt (pkt : ServicePkt)
  | data (bytes : List UInt8)
  | text (s : CString)
  | info (info : ServiceInfo)
  | result (reason : Option Ptr)
  | node (node : Cell (Option Ptr))
  | list (list : ServiceInfoList)

section Views

def Block.pkt? : Block → Option ServicePkt
  | .pkt p => some p
  | _ => none

def Block.data? : Block → Option (List UInt8)
  | .data bytes => some bytes
  | _ => none

def Block.text? : Block → Option CString
  | .text s => some s
  | _ => none

def Block.info? : Block → Option ServiceInfo
  | .info i => some i
  | _ => none

def Block.result? : Block → Option (Option Ptr)
  | .result reason => some reason
  | _ => none

def Block.node? : Block → Option (Cell (Option Ptr))
  | .node n => some n
  | _ => none

def Block.list? : Block → Option ServiceInfoList
  | .list l => some l
  | _ => none

end Views

abbrev CProg := Prog Block CFault

section Packets
variable (cj : CJson)

/-- A pointer that is followed. -/
def deref : Option Ptr → CProg Ptr
  | some p => pure p
  | none => lift (.error .nullPointer)

/-- `free` of what may be the null pointer. -/
def freeOpt (p : Option Ptr) : CProg Unit := freeAll p.toList

def getPkt : CProg Ptr := do
  let pkt ← malloc (.pkt ⟨none, 0⟩)
  let data ← malloc (.data (List.replicate packetLen 0))
  write pkt (.pkt ⟨some data, packetLen⟩)
  pure pkt

def freePkt (pkt : Ptr) : CProg Unit := do
  let p ← read Block.pkt? pkt
  freeOpt p.data
  free pkt

/-- `pkt->data`, which is read without regard to `pkt->len`. -/
def pktData (pkt : Ptr) : CProg (List UInt8) := do
  let p ← read Block.pkt? pkt
  let data ← deref p.data
  read Block.data? data

/-- What is received into a packet. -/
def setPktData (pkt : Ptr) (bytes : List UInt8) : CProg Unit := do
  let p ← read Block.pkt? pkt
  let data ← deref p.data
  write data (.data bytes)

/-- The end of every encoder: the printed text is copied and freed. -/
def fillPkt (action : UInt16) (root : List (Key × Field)) (pkt : Ptr) : CProg Unit := do
  let out ← malloc (.text (cj.print root))
  let bytes ← lift (CProtocal.fillPkt cj action root)
  setPktData pkt bytes
  free out

/-- The reason is no block of the heap. -/
def getResultPkt (isSucc : Bool) (reason : CharPtr) : CProg Ptr := do
  let pkt ← getPkt
  let reasonBuf ← lift (CProtocal.strncpyBuf reason)
  fillPkt cj (if isSucc then Action.actionSucc.code else Action.actionFail.code)
    [(.reason, .string reasonBuf)] pkt
  pure pkt

def strncpyBuf (p : Option Ptr) : CProg CString := do
  let p ← deref p
  let s ← read Block.text? p
  lift (CProtocal.strncpyBuf (some s))

def getInquiryResultPkt (info : Ptr) : CProg Ptr := do
  let pkt ← getPkt
  let i ← read Block.info? info
  let deviceNameBuf ← strncpyBuf i.deviceName
  let serviceNameBuf ← strncpyBuf i.serviceName
  let ipBuf ← strncpyBuf i.ip
  let infoBuf ← strncpyBuf i.info
  fillPkt cj Action.actionSucc.code
    (serviceRoot deviceNameBuf serviceNameBuf ipBuf infoBuf i.port) pkt
  pure pkt

/-- `strdup` of an item that is a string; the pointer stays null otherwise. -/
def strdup : CharPtr → CProg (Option Ptr)
  | some s => do
    let p ← malloc (.text s)
    pure (some p)
  | none => pure none

def getServiceInfo (pkt : Ptr) : CProg (Option Ptr) := do
  let bytes ← pktData pkt
  match ← lift (CProtocal.getServiceInfo cj bytes) with
  | none => pure none
  | some i =>
    let info ← malloc (.info ⟨none, none, none, none, 0⟩)
    let deviceName ← strdup i.deviceName
    let serviceName ← strdup i.serviceName
    let ip ← strdup i.ip
    let text ← strdup i.info
    write info (.info ⟨deviceName, serviceName, ip, text, i.port⟩)
    pure (some info)

/-- The string `info->info` is not freed. -/
def freeServiceInfo (info : Ptr) : CProg Unit := do
  let i ← read Block.info? info
  freeOpt i.deviceName
  freeOpt i.serviceName
  freeOpt i.ip
  free info

def getResult (pkt : Ptr) : CProg (Option Ptr) := do
  let bytes ← pktData pkt
  match ← lift (CProtocal.getResult cj bytes) with
  | none => pure none
  | some r =>
    let res ← malloc (.result none)
    let reason ← strdup r.reason
    write res (.result reason)
    pure (some res)

def freeResult (res : Ptr) : CProg Unit := do
  let reason ← read Block.result? res
  freeOpt reason
  free res

end Packets

section Lists

def getNode : CProg Ptr := malloc (.node ⟨none, none⟩)

def initList : CProg Ptr := malloc (.list ⟨none, none⟩)

/-- `!strcmp(a, b)`. -/
def strEqual : Option Ptr → Option Ptr → CProg Bool
  | some a, some b => do
    let s ← read Block.text? a
    let t ← read Block.text? b
    pure (decide (s = t))
  | _, _ => lift (.error .nullPointer)

def sameService (node : Cell (Option Ptr)) (deviceName serviceName : Option Ptr) : CProg Bool :=
  match node.value with
  | none => pure false
  | some p => do
    let info ← read Block.info? p
    let sameDevice ← strEqual info.deviceName deviceName
    if sameDevice then strEqual info.serviceName serviceName else pure false

/-- `p->next = next`. -/
def storeNext (p : Ptr) (next : Option Ptr) : CProg Unit := do
  let node ← read Block.node? p
  write p (.node { node with next := next })

def storeHead (list : Ptr) (head : Option Ptr) : CProg Unit := do
  let l ← read Block.list? list
  write list (.list { l with head := head })

def storeTail (list : Ptr) (tail : Option Ptr) : CProg Unit := do
  let l ← read Block.list? list
  write list (.list { l with tail := tail })

/-- What `list_remove` does once the node is found; it frees nothing. -/
def unlink (list : Ptr) (prev next : Option Ptr) : CProg Unit :=
  match prev with
  | some q =>
    match next with
    | some p => storeNext q (some p)
    | none => do
      storeNext q none
      storeTail list (some q)
  | none => storeHead list next

def removeFrom (list : Ptr) (deviceName serviceName : Option Ptr) :
    ℕ → Option Ptr → Option Ptr → CProg ℤ
  | _, _, none => pure (-1)
  | 0, _, some _ => lift (.error .outOfFuel)
  | fuel + 1, prev, some p => do
    let node ← read Block.node? p
    let same ← sameService node deviceName serviceName
    if same then do
      unlink list prev node.next
      pure 0
    else removeFrom list deviceName serviceName fuel (some p) node.next

def listRemove (fuel : ℕ) (list : Ptr) (deviceName serviceName : Option Ptr) : CProg ℤ := do
  let l ← read Block.list? list
  removeFrom list deviceName serviceName fuel none l.head

/-- The end of `list_add`. -/
def linkNode (list node : Ptr) : CProg Unit := do
  let l ← read Block.list? list
  if l.head = none then storeHead list (some node)
  match l.tail with
  | none => storeTail list (some node)
  | some t => do
    storeNext t (some node)
    storeTail list (some node)

def listAdd (fuel : ℕ) (list info : Ptr) : CProg Unit := do
  let node ← getNode
  write node (.node ⟨some info, none⟩)
  let i ← read Block.info? info
  let _ ← listRemove fuel list i.deviceName i.serviceName
  linkNode list node

def getFrom (serviceName : Option Ptr) (index : ℕ) : ℕ → ℕ → Option Ptr → CProg (Option Ptr)
  | _, _, none => pure none
  | 0, _, some _ => lift (.error .outOfFuel)
  | fuel + 1, i, some p => do
    let node ← read Block.node? p
    match node.value with
    | some q =>
      if i = index then
        let info ← read Block.info? q
        let same ← strEqual info.serviceName serviceName
        if same then pure (some q) else getFrom serviceName index fuel (i + 1) node.next
      else getFrom serviceName index fuel (i + 1) node.next
    | none => getFrom serviceName index fuel (i + 1) node.next

def listGet (fuel : ℕ) (list : Ptr) (serviceName : Option Ptr) (index : ℕ) :
    CProg (Option Ptr) := do
  let l ← read Block.list? list
  getFrom serviceName index fuel 0 l.head

/-- The loop of `deinit_list`: the strings of the infos are not freed. -/
def deinitFrom : ℕ → Option Ptr → CProg Unit
  | _, none => pure ()
  | 0, some _ => lift (.error .outOfFuel)
  | fuel + 1, some p => do
    let node ← read Block.node? p
    freeOpt node.value
    free p
    deinitFrom fuel node.next

def deinitList (fuel : ℕ) (list : Ptr) : CProg Unit := do
  let l ← read Block.list? list
  deinitFrom fuel l.head
  free list

end Lists

section Loops
variable (cj : CJson) (listFuel : ℕ)

/-- `udp_server_write` and `free_pkt` of a packet that has been made. -/
def sendPkt (pkt : Ptr) : CProg (List UInt8) := do
  let p ← read Block.pkt? pkt
  let bytes ← pktData pkt
  freePkt pkt
  pure (bytes.take p.len)

/-- The inquiry loop of `server_loop`, from index `i` on. -/
def inquiryFrom (list info : Ptr) : ℕ → ℕ → Bool → CProg (List (List UInt8))
  | 0, _, _ => lift (.error .outOfFuel)
  | fuel + 1, i, isGetService => do
    let asked ← read Block.info? info
    let retInfo ← listGet listFuel list asked.serviceName i
    match retInfo with
    | some retInfo =>
      let pkt ← getInquiryResultPkt cj retInfo
      let sent ← sendPkt pkt
      let rest ← inquiryFrom list info fuel (i + 1) true
      pure (sent :: rest)
    | none =>
      if isGetService then pure []
      else
        let pkt ← getResultPkt cj false (some serviceNoFound)
        let sent ← sendPkt pkt
        pure [sent]

/-- The body of `server_loop` for one packet. -/
def serverLoop (fuel : ℕ) (recPkt list : Ptr) (received : List UInt8) :
    CProg (List (List UInt8)) := do
  setPktData recPkt received
  let data ← pktData recPkt
  let type ← lift (CProtocal.decodeAction data)
  if type = Action.registerService.code.toNat then
    match ← getServiceInfo cj recPkt with
    | none => pure []
    | some info =>
      listAdd listFuel list info
      let pkt ← getResultPkt cj true (some .empty)
      let sent ← sendPkt pkt
      pure [sent]
  else if type = Action.unregisterService.code.toNat then
    match ← getServiceInfo cj recPkt with
    | none => pure []
    | some info =>
      let asked ← read Block.info? info
      let i ← listRemove listFuel list asked.deviceName asked.serviceName
      freeServiceInfo info
      let pkt ← if i ≥ 0 then getResultPkt cj true (some .empty)
        else getResultPkt cj false (some serviceNoFound)
      let sent ← sendPkt pkt
      pure [sent]
  else if type = Action.inquiry.code.toNat then
    match ← getServiceInfo cj recPkt with
    | none => pure []
    | some info =>
      let sent ← inquiryFrom cj listFuel list info fuel 0 false
      freeServiceInfo info
      pure sent
  else pure []

/-- `server_loop` with these packets; it returns its buffer and its list. -/
def serves (fuel : ℕ) (pkts : List (List UInt8)) : CProg (Ptr × Ptr) := do
  let recPkt ← getPkt
  let list ← initList
  pkts.forM fun pkt => do
    let _ ← serverLoop cj fuel fuel recPkt list pkt
  pure (recPkt, list)

/-- The body of the loop in `check_result` of the client, for one packet. -/
def checkPass (pkt list : Ptr) (received : List UInt8) : CProg Unit := do
  setPktData pkt received
  let data ← pktData pkt
  let type ← lift (CProtocal.decodeAction data)
  if type = Action.actionSucc.code.toNat then
    match ← getServiceInfo cj pkt with
    | none => pure ()
    | some info => listAdd listFuel list info
  else if type = Action.actionFail.code.toNat then
    match ← getResult cj pkt with
    | none => pure ()
    | some res => freeResult res
  else pure ()

/-- `check_result` of the client with these packets. -/
def checkResult (pkts : List (List UInt8)) : CProg Ptr := do
  let pkt ← getPkt
  let list ← initList
  pkts.forM fun received => checkPass cj listFuel pkt list received
  freePkt pkt
  pure list

end Loops

end MiniServiceDiscover.CHeap
