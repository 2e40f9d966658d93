import MiniServiceDiscover.GoProvider

set_option autoImplicit false

/-! The Go daemon: what one buffer makes it send and do to its registry. -/
namespace MiniServiceDiscover.GoDaemon
open GoJson GoProtocal GoProvider WireFormat KeyedList

/-- The packets one call writes, in order, and the registry it leaves; a panic
keeps what was written before it. -/
structure Handled where
  sent : List Bytes
  result : Except GoPanic Provider

/-- The loop over the slots of an inquiry. -/
def sendServices : List (Option ServiceInfo) → List Bytes × Except GoPanic Unit
  | [] => ([], .ok ())
  | i :: res =>
    match getServiceData .actionSucc i with
    | .error e => ([], .error e)
    | .ok data =>
      let sent := sendServices res
      (data :: sent.1, sent.2)

def succData : Bytes := getResult Action.actionSucc.code []

def noFoundData : Bytes := getResult Action.actionFail.code serviceNoFound

def register (p : Provider) (info : ServiceInfo) : Handled :=
  ⟨[succData], .ok (addInfo info p)⟩

def unregister (p : Provider) (info : ServiceInfo) : Handled :=
  let removed := removeByName info.deviceName info.serviceName p
  ⟨[if removed.1 then succData else noFoundData], .ok removed.2⟩

def inquiry (p : Provider) (info : ServiceInfo) : Handled :=
  let c := getCount info.serviceName p
  if c > 0 then
    let sent := sendServices (getAll info.serviceName p (List.replicate c none))
    ⟨sent.1, sent.2.map fun _ => p⟩
  else ⟨[noFoundData], .ok p⟩

def handleAction (p : Provider) (action : UInt16) (info : ServiceInfo) : Handled :=
  if action = Action.registerService.code then register p info
  else if action = Action.unregisterService.code then unregister p info
  else if action = Action.inquiry.code then inquiry p info
  else ⟨[], .ok p⟩

/-- The header check and the decoding at the top of `ProcessData`. -/
def decodeData (data : Bytes) : Except GoPanic (Option (ServiceHead × ServiceInfo)) := do
  match ← checkAndGetServiceInfoHead data with
  | none => pure none
  | some head =>
    let rest ← slice data serviceHeadLen data.length
    let info ← getServiceInfo rest
    pure (info.map fun i => (head, i))

def processData (p : Provider) (data : Bytes) : Handled :=
  match decodeData data with
  | .error e => ⟨[], .error e⟩
  | .ok none => ⟨[], .ok p⟩
  | .ok (some (head, info)) => handleAction p head.action info

section Decode
variable {data : Bytes}

theorem slice_payload (hd : data.length = udpCommBufLen) :
    slice data serviceHeadLen data.length = .ok (payload data) := by
  rw [slice_ok (by rw [hd]; decide) (Nat.le_refl _), List.take_length]
  rfl

theorem decodeData_eq (hd : data.length = udpCommBufLen) :
    decodeData data =
      if (headOf data).head = infoHead ∧ payloadLen < (headOf data).jsonLen.toNat then
        .error .sliceBounds
      else if Accepted data then
        (getServiceInfo (payload data)).map fun info => info.map fun i => (headOf data, i)
      else .ok none := by
  rw [decodeData, checkAndGetServiceInfoHead_eq hd]
  split_ifs
  · rfl
  · change (slice data serviceHeadLen data.length >>= _) = _
    rw [slice_payload hd]
    change (getServiceInfo (payload data) >>= _) = _
    obtain ⟨n, -, hg⟩ := getServiceInfo_ok (payload data)
    rw [hg]
    rfl
  · rfl

theorem decodeData_some {head : ServiceHead} {info : ServiceInfo}
    (hd : data.length = udpCommBufLen) (h : decodeData data = .ok (some (head, info))) :
    head = headOf data ∧ Accepted data ∧ getServiceInfo (payload data) = .ok (some info) := by
  rw [decodeData_eq hd] at h
  split_ifs at h with h1 h2
  · obtain ⟨n, -, hg⟩ := getServiceInfo_ok (payload data)
    rw [hg] at h ⊢
    cases hu : ServiceInfo.unmarshal ((payload data).take n) with
    | none =>
      rw [hu] at h
      cases Except.ok.inj h
    | some i =>
      rw [hu] at h
      have hp := Option.some.inj (Except.ok.inj h)
      obtain ⟨rfl, rfl⟩ := Prod.mk.inj hp
      exact ⟨rfl, h2, rfl⟩
  · cases Except.ok.inj h

theorem decodeData_dataBuffer (action : UInt16) {i : ServiceInfo}
    (h : i.marshal.length ≤ payloadLen) :
    decodeData (dataBuffer action i.marshal) =
      .ok (some (headOf (dataBuffer action i.marshal), i.coerce)) := by
  have hl := dataBuffer_len_fits action h
  rw [decodeData_eq (dataBuffer_length action _), if_neg fun hp => Nat.not_lt.2 hl hp.2,
    if_pos (dataBuffer_accepted action h), getServiceInfo_dataBuffer action h]
  rfl

end Decode

section Sending

def serviceData (i : ServiceInfo) : Bytes := dataBuffer Action.actionSucc.code i.marshal

theorem sendServices_some (p : Provider) :
    sendServices (p.map some) = (p.map serviceData, .ok ()) := by
  induction p with
  | nil => rfl
  | cons info rest ih =>
    rw [List.map_cons, sendServices, ih]
    rfl

/-- An unfilled slot is dereferenced, whatever comes before it. -/
theorem sendServices_none {res : List (Option ServiceInfo)} (h : none ∈ res) :
    (sendServices res).2 = .error .nilDereference := by
  induction res with
  | nil => cases h
  | cons i res ih =>
    cases i with
    | none => rfl
    | some info => exact ih (by simpa using h)

end Sending

end MiniServiceDiscover.GoDaemon
