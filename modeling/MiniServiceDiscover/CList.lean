import MiniServiceDiscover.CProtocal
import MiniServiceDiscover.PointerChain

set_option autoImplicit false

/-! The C registry list: nodes on a heap, a head and a tail pointer. Nodes are
never freed, and the pointer of a removed node may stay in `tail`. -/
namespace MiniServiceDiscover.CList
open CProtocal PointerChain

/-- The list record with the heap of its nodes; addresses from `top` on are free. -/
structure ServiceInfoList where
  heap : Heap (Option ServiceInfo)
  top : Ptr
  head : Option Ptr
  tail : Option Ptr

def initList : ServiceInfoList := ⟨fun _ => none, 0, none, none⟩

def load (l : ServiceInfoList) (p : Ptr) : Except CFault (Cell (Option ServiceInfo)) :=
  match l.heap p with
  | some node => .ok node
  | none => .error .invalidPointer

/-- `p->next = next`. -/
def storeNext (l : ServiceInfoList) (p : Ptr) (next : Option Ptr) : Except CFault ServiceInfoList := do
  let node ← load l p
  pure { l with heap := write l.heap p { node with next := next } }

/-- `malloc` of a node. -/
def getNode (l : ServiceInfoList) (info : ServiceInfo) : Ptr × ServiceInfoList :=
  (l.top, { l with heap := write l.heap l.top ⟨some info, none⟩, top := l.top + 1 })

def sameService (node : Cell (Option ServiceInfo)) (deviceName serviceName : CharPtr) :
    Except CFault Bool :=
  match node.value with
  | none => .ok false
  | some info => do
    let sameDevice ← strEqual info.deviceName deviceName
    if sameDevice then strEqual info.serviceName serviceName else pure false

/-- What `list_remove` does once the node is found. -/
def unlink (l : ServiceInfoList) (prev next : Option Ptr) : Except CFault ServiceInfoList :=
  match prev with
  | some q =>
    match next with
    | some p => storeNext l q (some p)
    | none => do
      let l ← storeNext l q none
      pure { l with tail := some q }
  | none => pure { l with head := next }

/-- The loop of `list_remove`; the result is `0` or `-1`. -/
def removeFrom (deviceName serviceName : CharPtr) (l : ServiceInfoList) :
    ℕ → Option Ptr → Option Ptr → Except CFault (ℤ × ServiceInfoList)
  | _, _, none => .ok (-1, l)
  | 0, _, some _ => .error .outOfFuel
  | fuel + 1, prev, some p => do
    let node ← load l p
    let same ← sameService node deviceName serviceName
    if same then do
      let l ← unlink l prev node.next
      pure (0, l)
    else removeFrom deviceName serviceName l fuel (some p) node.next

def listRemove (fuel : ℕ) (l : ServiceInfoList) (deviceName serviceName : CharPtr) :
    Except CFault (ℤ × ServiceInfoList) :=
  removeFrom deviceName serviceName l fuel none l.head

/-- The end of `list_add`: the new node becomes head of an empty list, and is
linked behind `tail` whenever there is one. -/
def linkNode (l : ServiceInfoList) (node : Ptr) : Except CFault ServiceInfoList :=
  let l := if l.head = none then { l with head := some node } else l
  match l.tail with
  | none => .ok { l with tail := some node }
  | some t => do
    let l ← storeNext l t (some node)
    pure { l with tail := some node }

def listAdd (fuel : ℕ) (l : ServiceInfoList) (info : ServiceInfo) :
    Except CFault ServiceInfoList := do
  let node := getNode l info
  let removed ← listRemove fuel node.2 info.deviceName info.serviceName
  linkNode removed.2 node.1

/-- The loop of `list_get`: `i` counts every node passed. -/
def getFrom (l : ServiceInfoList) (serviceName : CharPtr) (index : ℕ) :
    ℕ → ℕ → Option Ptr → Except CFault (Option ServiceInfo)
  | _, _, none => .ok none
  | 0, _, some _ => .error .outOfFuel
  | fuel + 1, i, some p => do
    let node ← load l p
    match node.value with
    | some info =>
      if i = index then
        let same ← strEqual info.serviceName serviceName
        if same then pure (some info) else getFrom l serviceName index fuel (i + 1) node.next
      else getFrom l serviceName index fuel (i + 1) node.next
    | none => getFrom l serviceName index fuel (i + 1) node.next

def listGet (fuel : ℕ) (l : ServiceInfoList) (serviceName : CharPtr) (index : ℕ) :
    Except CFault (Option ServiceInfo) :=
  getFrom l serviceName index fuel 0 l.head

/-- An info both names of which are present. -/
structure NamedInfo where
  info : ServiceInfo
  deviceName : CString
  serviceName : CString
  hasDeviceName : info.deviceName = some deviceName
  hasServiceName : info.serviceName = some serviceName

inductive Op where
  | listAdd (info : NamedInfo)
  | listRemove (deviceName serviceName : CString)

def step (fuel : ℕ) (l : ServiceInfoList) : Op → Except CFault ServiceInfoList
  | .listAdd i => listAdd fuel l i.info
  | .listRemove deviceName serviceName =>
    (listRemove fuel l (some deviceName) (some serviceName)).map Prod.snd

def run (fuel : ℕ) (ops : List Op) : Except CFault ServiceInfoList := ops.foldlM (step fuel) initList

end MiniServiceDiscover.CList
