import MiniServiceDiscover.JavaProvider

set_option autoImplicit false

/-! The Java daemon: one buffer for every receive, and what the loop does with
it. -/
namespace MiniServiceDiscover.JavaDaemon
open JavaProtocal JavaProvider WireFormat

/-- A value the program puts into a map. -/
inductive Field where
  | string (s : StringRef)
  | number (n : Int32)
  deriving DecidableEq, Repr

/-- The parts of the Android library the codec calls: `newString` is
`new String(bytes, "UTF-8")`, `newJson` is `new JSONObject(text)`, `print` the bytes
of a map's object. `none` is a `JSONException`. -/
structure OrgJson where
  Json : Type
  newString : JavaBytes → JavaString
  newJson : JavaString → Option Json
  getString : Json → String → Option JavaString
  getInt : Json → String → Option Int32
  print : List (String × Field) → JavaBytes

def javaString (s : String) : JavaString := s.toList.map fun c => c.toNat.toUInt16

def serviceNoFound : JavaString := javaString "service no found"

section Codec
variable (oj : OrgJson)

def serviceMap (info : ServiceInfo) : List (String × Field) :=
  [("device_name", .string info.dev), ("service_name", .string info.name), ("ip", .string info.ip),
    ("info", .string info.info), ("port", .number info.port)]

def getServicePkt (info : ServiceInfo) : Except Thrown JavaBytes :=
  (getPkt (infoType .actionSucc) (oj.print (serviceMap info))).mapError .codec

def getResultPkt (isSucc : Bool) (reason : JavaString) : Except Thrown JavaBytes :=
  (getPkt (infoType (if isSucc then .actionSucc else .actionFail))
    (oj.print [("reason", .string (some reason))])).mapError .codec

/-- The inquiry reply can be built exactly when its text fits. -/
theorem getServicePkt_iff (info : ServiceInfo) :
    (∃ pkt, getServicePkt oj info = .ok pkt) ↔
      (oj.print (serviceMap info)).length ≤ payloadLen := by
  obtain ⟨head, -, hp⟩ := getPkt_eq (infoType .actionSucc) (oj.print (serviceMap info))
  rw [getServicePkt, hp]
  by_cases h : (oj.print (serviceMap info)).length ≤ payloadLen
  · rw [if_pos h]
    exact ⟨fun _ => h, fun _ => ⟨_, rfl⟩⟩
  · rw [if_neg h]
    refine ⟨fun hok => ?_, fun hf => absurd hf h⟩
    obtain ⟨_, he⟩ := hok
    cases he

/-- `new String(data, offset, len, "UTF-8")`. -/
def stringOf (data : JavaBytes) (offset : ℕ) (len : ℤ) : Except Thrown JavaString :=
  if len < 0 ∨ (data.length : ℤ) < offset + len then .error .stringIndexOutOfBounds
  else .ok (oj.newString ((data.drop offset).take len.toNat))

/-- The members are read one after the other, up to the first that is missing. -/
def readMembers (json : oj.Json) : ServiceInfo :=
  match oj.getString json "device_name" with
  | none => .fresh
  | some dev =>
    let info := { ServiceInfo.fresh with dev := some dev }
    match oj.getString json "service_name" with
    | none => info
    | some name =>
      let info := { info with name := some name }
      match oj.getString json "ip" with
      | none => info
      | some ip =>
        let info := { info with ip := some ip }
        match oj.getString json "info" with
        | none => info
        | some text =>
          let info := { info with info := some text }
          match oj.getInt json "port" with
          | none => info
          | some port => { info with port := port }

def getServiceInfo (data : JavaBytes) : Except Thrown ServiceInfo := do
  let head ← (ProtocalHead.ofBytes data).mapError Thrown.codec
  let json ← stringOf oj data getSize head.len.toInt
  pure (match oj.newJson json with
    | none => .fresh
    | some jsonObj => readMembers oj jsonObj)

end Codec

/-- The packets sent before the loop went on or the thread ended. -/
structure Sending where
  sent : List JavaBytes
  thrown : Option Thrown
  deriving DecidableEq, Repr

def Sending.one : Except Thrown JavaBytes → Sending
  | .error e => ⟨[], some e⟩
  | .ok pkt => ⟨[pkt], none⟩

section Loop
variable (oj : OrgJson)

/-- The loop of an inquiry, with `left` indices from `i` on to go. -/
def sendFrom (provider : ServiceInfoList) (serviceName : StringRef) : ℕ → ℕ → Sending
  | 0, _ => ⟨[], none⟩
  | left + 1, i =>
    match JavaProvider.get serviceName i provider with
    | .error e => ⟨[], some e⟩
    | .ok none => sendFrom provider serviceName left (i + 1)
    | .ok (some outInfo) =>
      match getServicePkt oj outInfo with
      | .error e => ⟨[], some e⟩
      | .ok pkt =>
        let rest := sendFrom provider serviceName left (i + 1)
        ⟨pkt :: rest.sent, rest.thrown⟩

def inquiry (provider : ServiceInfoList) (serviceName : StringRef) : Sending :=
  match getCount serviceName provider with
  | .error e => ⟨[], some e⟩
  | .ok count =>
    if count > 0 then sendFrom oj provider serviceName count 0
    else .one (getResultPkt oj false serviceNoFound)

/-- What the loop makes of a buffer: the action and the info it decodes, the
registry it leaves and the packets it sends. -/
structure Handled where
  action : Option Int16
  info : Option ServiceInfo
  provider : ServiceInfoList
  sending : Sending
  deriving DecidableEq, Repr

/-- The branch of an action, once the info is decoded. -/
def handleAction (action : Action) (provider : ServiceInfoList) (info : ServiceInfo) :
    ServiceInfoList × Sending :=
  match action with
  | .registerService =>
    match add info provider with
    | .error e => (provider, ⟨[], some e⟩)
    | .ok provider => (provider, .one (getResultPkt oj true []))
  | .unregisterService =>
    match remove info.dev info.name provider with
    | .error e => (provider, ⟨[], some e⟩)
    | .ok (ret, provider) =>
      (provider, .one (if ret then getResultPkt oj true [] else getResultPkt oj false serviceNoFound))
  | .inquiry => (provider, inquiry oj provider info.name)
  | _ => (provider, ⟨[], none⟩)

/-- The cases of the switch. -/
def caseOf (action : Int16) : Option Action :=
  if action = infoType .registerService then some .registerService
  else if action = infoType .unregisterService then some .unregisterService
  else if action = infoType .inquiry then some .inquiry
  else none

def handle (provider : ServiceInfoList) (buffer : JavaBytes) : Handled :=
  match decodeAction buffer with
  | .error e => ⟨none, none, provider, ⟨[], some (.codec e)⟩⟩
  | .ok action =>
    match caseOf action with
    | none => ⟨some action, none, provider, ⟨[], none⟩⟩
    | some case =>
      match getServiceInfo oj buffer with
      | .error e => ⟨some action, none, provider, ⟨[], some e⟩⟩
      | .ok info =>
        let done := handleAction oj case provider info
        ⟨some action, some info, done.1, done.2⟩

/-- `running` until an exception leaves the loop. -/
structure State where
  buffer : JavaBytes
  provider : ServiceInfoList
  running : Bool
  deriving DecidableEq, Repr

def init : State := ⟨List.replicate protocalLen 0, [], true⟩

/-- A receive fills the front of the buffer; what a longer datagram has more is
dropped, and behind a shorter one the old bytes stay. -/
def receive (datagram buffer : JavaBytes) : JavaBytes :=
  datagram.take buffer.length ++ buffer.drop datagram.length

/-- One pass of the loop. `receive` returns the size of the buffer, whatever the
length of the datagram. -/
def step (s : State) (datagram : JavaBytes) : State :=
  if s.running then
    let buffer := receive datagram s.buffer
    let done := handle oj s.provider buffer
    ⟨buffer, done.provider, done.sending.thrown.isNone⟩
  else s

def run (datagrams : List JavaBytes) : State := datagrams.foldl (step oj) init

end Loop

end MiniServiceDiscover.JavaDaemon
