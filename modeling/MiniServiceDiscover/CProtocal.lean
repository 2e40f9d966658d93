import MiniServiceDiscover.Fallible
import MiniServiceDiscover.JsonText
import MiniServiceDiscover.WireFormat
import Mathlib.Data.List.TakeWhile

set_option autoImplicit false

/-! The C codec. What the program would do beyond a buffer or through a null
pointer is a fault; cJSON is a parameter. -/
namespace MiniServiceDiscover.CProtocal
open JsonText WordSum WireFormat

inductive CFault where
  | nullPointer
  | invalidPointer
  | unterminated
  | bufferOverflow
  | outOfFuel
  deriving DecidableEq, Repr

/-- The bytes of a string before its terminator. -/
structure CString where
  bytes : List UInt8
  noNul : (0 : UInt8) ∉ bytes
  deriving DecidableEq, Repr

/-- A `char *`. -/
abbrev CharPtr := Option CString

def CString.empty : CString := ⟨[], List.not_mem_nil⟩

def infoMaxLen : ℕ := 100

def infoTypeActionInvalid : ℤ := -1

def serviceNoFound : CString := ⟨ascii "service no found", by decide⟩

structure ServiceInfo where
  deviceName : CharPtr
  serviceName : CharPtr
  ip : CharPtr
  info : CharPtr
  port : UInt16
  deriving DecidableEq, Repr

structure ResultInfo where
  reason : CharPtr
  deriving DecidableEq, Repr

/-- `!strcmp(a, b)`. -/
def strEqual : CharPtr → CharPtr → Except CFault Bool
  | some a, some b => .ok (decide (a = b))
  | _, _ => .error .nullPointer

/-- The keys of the objects the program prints and reads. -/
inductive Key where
  | deviceName
  | serviceName
  | ip
  | info
  | port
  | reason
  deriving DecidableEq, Repr

def Key.name : Key → String
  | .deviceName => "device_name"
  | .serviceName => "service_name"
  | .ip => "ip"
  | .info => "info"
  | .port => "port"
  | .reason => "reason"

/-- What the program adds to an object. -/
inductive Field where
  | string (s : CString)
  | number (n : UInt16)
  deriving DecidableEq, Repr

/-- What an item of a parsed object can be; a number is its `valueint`. -/
inductive Item where
  | string (s : CString)
  | number (n : ℤ)
  | other
  deriving DecidableEq, Repr

def Field.item : Field → Item
  | .string s => .string s
  | .number n => .number n.toNat

/-- The cJSON functions the program calls: `print` is `cJSON_Print` of an object
built from fields, `item` is `cJSON_GetObjectItem`. -/
structure CJson where
  Tree : Type
  print : List (Key × Field) → CString
  parse : CString → Option Tree
  item : Tree → Key → Option Item

section Encoders
variable (cj : CJson)

/-- `strncpy` into a local buffer of `INFO_MAX_LEN` bytes that is then read as a
string: a longer string leaves it without a terminator. -/
def strncpyBuf : CharPtr → Except CFault CString
  | none => .error .nullPointer
  | some s => if s.bytes.length < infoMaxLen then .ok s else .error .unterminated

/-- The sum over `char`, which is signed. -/
def getChecksum (data : List UInt8) : UInt16 := wordSum signExtend data

/-- The part every encoder shares: print, copy `info_len` bytes, sum them. -/
def fillPkt (action : UInt16) (root : List (Key × Field)) : Except CFault (List UInt8) :=
  let out := (cj.print root).bytes
  let infoLen := out.length.toUInt16
  let text := out.take infoLen.toNat
  if infoLen.toNat ≤ payloadLen then
    .ok (packet (headBytes infoHead action infoLen (getChecksum text)) text)
  else .error .bufferOverflow

def serviceRoot (deviceName serviceName ip info : CString) (port : UInt16) : List (Key × Field) :=
  [(.deviceName, .string deviceName), (.serviceName, .string serviceName), (.ip, .string ip),
    (.info, .string info), (.port, .number port)]

def getRegisterPkt (deviceName serviceName ip : CharPtr) (port : UInt16) (info : CharPtr) :
    Except CFault (List UInt8) := do
  let deviceNameBuf ← strncpyBuf deviceName
  let serviceNameBuf ← strncpyBuf serviceName
  let ipBuf ← strncpyBuf ip
  let infoBuf ← strncpyBuf info
  fillPkt cj Action.registerService.code (serviceRoot deviceNameBuf serviceNameBuf ipBuf infoBuf port)

def getUnregisterPkt (deviceName serviceName : CharPtr) : Except CFault (List UInt8) := do
  let deviceNameBuf ← strncpyBuf deviceName
  let serviceNameBuf ← strncpyBuf serviceName
  fillPkt cj Action.unregisterService.code
    (serviceRoot deviceNameBuf serviceNameBuf .empty .empty 0)

def getInquiryPkt (serviceName : CharPtr) : Except CFault (List UInt8) := do
  let serviceNameBuf ← strncpyBuf serviceName
  fillPkt cj Action.inquiry.code (serviceRoot .empty serviceNameBuf .empty .empty 0)

def getInquiryResultPkt (info : ServiceInfo) : Except CFault (List UInt8) := do
  let deviceNameBuf ← strncpyBuf info.deviceName
  let serviceNameBuf ← strncpyBuf info.serviceName
  let ipBuf ← strncpyBuf info.ip
  let infoBuf ← strncpyBuf info.info
  fillPkt cj Action.actionSucc.code
    (serviceRoot deviceNameBuf serviceNameBuf ipBuf infoBuf info.port)

def getResultPkt (isSucc : Bool) (reason : CharPtr) : Except CFault (List UInt8) := do
  let reasonBuf ← strncpyBuf reason
  fillPkt cj (if isSucc then Action.actionSucc.code else Action.actionFail.code)
    [(.reason, .string reasonBuf)]

end Encoders

section Decoders
variable (cj : CJson)

/-- The sum over `uint8_t` of what the header counts. -/
def checksumRight (pkt : List UInt8) : Except CFault Bool :=
  if (field 2 pkt).toNat ≤ (payload pkt).length then
    .ok (wordSum zeroExtend ((payload pkt).take (field 2 pkt).toNat) == field 3 pkt)
  else .error .invalidPointer

def decodeAction (pkt : List UInt8) : Except CFault ℤ := do
  let right ← checksumRight pkt
  pure (if right then ((field 1 pkt).toNat : ℤ) else infoTypeActionInvalid)

theorem nul_not_mem_takeWhile (data : List UInt8) : (0 : UInt8) ∉ data.takeWhile (· != 0) := by
  intro h
  have := List.mem_takeWhile_imp h
  simp at this

/-- A byte buffer read as a string. -/
def stringAt (data : List UInt8) : Except CFault CString :=
  if (0 : UInt8) ∈ data then .ok ⟨data.takeWhile (· != 0), nul_not_mem_takeWhile data⟩
  else .error .unterminated

def stringItem (json : cj.Tree) (k : Key) : CharPtr :=
  match cj.item json k with
  | some (.string s) => some s
  | _ => none

/-- `valueint` narrowed to the port. -/
def portItem (json : cj.Tree) : UInt16 :=
  match cj.item json .port with
  | some (.number n) => UInt16.ofInt n
  | _ => 0

def getServiceInfo (pkt : List UInt8) : Except CFault (Option ServiceInfo) := do
  let text ← stringAt (payload pkt)
  pure ((cj.parse text).map fun json =>
    ⟨stringItem cj json .deviceName, stringItem cj json .serviceName, stringItem cj json .ip,
      stringItem cj json .info, portItem cj json⟩)

def getResult (pkt : List UInt8) : Except CFault (Option ResultInfo) :=
  if field 1 pkt = Action.actionFail.code then do
    let text ← stringAt (payload pkt)
    pure ((cj.parse text).map fun json => ⟨stringItem cj json .reason⟩)
  else .ok none

end Decoders

section Accept
variable {data : List UInt8}

/-- The checksum word is the sum of the payload bytes the header counts. -/
def SumRight (data : List UInt8) : Prop :=
  wordSum zeroExtend ((payload data).take (field 2 data).toNat) = field 3 data

instance (data : List UInt8) : Decidable (SumRight data) := by
  unfold SumRight
  infer_instance

theorem decodeAction_fits (h : (field 2 data).toNat ≤ (payload data).length) :
    decodeAction data = .ok
      (if SumRight data then ((field 1 data).toNat : ℤ) else infoTypeActionInvalid) := by
  rw [decodeAction, checksumRight, if_pos h]
  by_cases hs : SumRight data
  · rw [if_pos hs, beq_iff_eq.2 hs]
    rfl
  · rw [if_neg hs, beq_eq_false_iff_ne.2 hs]
    rfl

/-- Every sixteen-bit action is a valid one. -/
theorem decodeAction_valid_iff (h : (field 2 data).toNat ≤ (payload data).length) :
    (∃ a, decodeAction data = .ok a ∧ a ≠ infoTypeActionInvalid) ↔ SumRight data := by
  rw [decodeAction_fits h]
  constructor
  · rintro ⟨a, ha, hne⟩
    by_contra hs
    rw [if_neg hs] at ha
    exact hne (Except.ok.inj ha).symm
  · intro hs
    rw [if_pos hs]
    refine ⟨_, rfl, ?_⟩
    rw [infoTypeActionInvalid]
    omega

end Accept

section Documented

/-- An upper bound on the characters cJSON prints for one byte of a string. -/
def byteCost (b : UInt8) : ℕ :=
  if b.toNat < 0x20 then 6 else if b = quote ∨ b = backslash then 2 else 1

def stringCost (s : CString) : ℕ := (s.bytes.map byteCost).sum

def Field.cost : Field → ℕ
  | .string s => stringCost s + 2
  | .number _ => 5

def Field.highCount : Field → ℕ
  | .string s => WordSum.highCount s.bytes
  | .number _ => 0

def printCost (root : List (Key × Field)) : ℕ :=
  4 + (root.map fun f => f.1.name.length + f.2.cost + 8).sum

/-- What the program relies on in cJSON. -/
structure CJson.Documented (cj : CJson) : Prop where
  /-- Parsing a printed object gives back its fields. -/
  roundTrip : ∀ root, (root.map Prod.fst).Nodup → ∃ json, cj.parse (cj.print root) = some json ∧
    ∀ f ∈ root, cj.item json f.1 = some f.2.item
  /-- Bytes from `0x80` on are printed as they are, and nothing else gives such bytes. -/
  rawHigh : ∀ root, WordSum.highCount (cj.print root).bytes = (root.map fun f => f.2.highCount).sum
  /-- One line for each field, in which only quotes, backslashes and control
  characters take more than one character. -/
  printLength : ∀ root, (cj.print root).bytes.length ≤ printCost root

end Documented

section Packets
variable (cj : CJson)

theorem fillPkt_ok (action : UInt16) {root : List (Key × Field)}
    (h : (cj.print root).bytes.length ≤ payloadLen) :
    fillPkt cj action root = .ok (packet (headBytes infoHead action
      (cj.print root).bytes.length.toUInt16 (getChecksum (cj.print root).bytes))
        (cj.print root).bytes) := by
  have hn : (cj.print root).bytes.length.toUInt16.toNat = (cj.print root).bytes.length :=
    UInt16.toNat_ofNat_of_lt' (h.trans_lt (by decide))
  rw [fillPkt]
  simp only [hn, List.take_length, if_pos h]

theorem fillPkt_overflow (action : UInt16) {root : List (Key × Field)}
    (h : payloadLen < (cj.print root).bytes.length) (hl : (cj.print root).bytes.length < 65536) :
    fillPkt cj action root = .error .bufferOverflow := by
  have hn : (cj.print root).bytes.length.toUInt16.toNat = (cj.print root).bytes.length :=
    UInt16.toNat_ofNat_of_lt' hl
  rw [fillPkt]
  simp only [hn, if_neg (Nat.not_le.2 h)]

theorem strncpyBuf_ok {s : CString} (h : s.bytes.length < infoMaxLen) :
    strncpyBuf (some s) = .ok s := if_pos h

theorem strncpyBuf_eq_ok {p : CharPtr} {s : CString} :
    strncpyBuf p = .ok s ↔ p = some s ∧ s.bytes.length < infoMaxLen := by
  cases p with
  | none => simp [strncpyBuf]
  | some t =>
    rw [strncpyBuf]
    split_ifs with h
    · simp only [Except.ok.injEq, Option.some.injEq]
      exact ⟨fun he => ⟨he, he ▸ h⟩, fun he => he.1⟩
    · simp only [Option.some.injEq, false_iff, not_and]
      exact fun he hl => h (he ▸ hl)

theorem byteCost_le (b : UInt8) : byteCost b ≤ 6 := by
  unfold byteCost
  split_ifs <;> decide

theorem stringCost_le (s : CString) : stringCost s ≤ 6 * s.bytes.length :=
  sum_map_le byteCost 6 fun b _ => byteCost_le b

theorem serviceRoot_keys (deviceName serviceName ip info : CString) (port : UInt16) :
    ((serviceRoot deviceName serviceName ip info port).map Prod.fst).Nodup := by
  change [Key.deviceName, Key.serviceName, Key.ip, Key.info, Key.port].Nodup
  decide

theorem serviceRoot_printCost (deviceName serviceName ip info : CString) (port : UInt16) :
    printCost (serviceRoot deviceName serviceName ip info port) =
      stringCost deviceName + stringCost serviceName + stringCost ip + stringCost info + 90 := by
  simp only [printCost, serviceRoot, List.map_cons, List.map_nil, List.sum_cons, List.sum_nil,
    Field.cost, Key.name]
  have h1 : "device_name".length = 11 := rfl
  have h2 : "service_name".length = 12 := rfl
  have h3 : "ip".length = 2 := rfl
  have h4 : "info".length = 4 := rfl
  have h5 : "port".length = 4 := rfl
  omega

end Packets

end MiniServiceDiscover.CProtocal
