import MiniServiceDiscover.CList

set_option autoImplicit false

/-! One pass of the C daemon's loop: what a packet makes it send and do to its
list. -/
namespace MiniServiceDiscover.CDaemon
open CProtocal CList WireFormat

section Loop
variable (cj : CJson) (listFuel : ℕ)

/-- The inquiry loop of `server_loop`, from index `i` on. -/
def inquiryFrom (l : ServiceInfoList) (serviceName : CharPtr) :
    ℕ → ℕ → Bool → Except CFault (List (List UInt8))
  | 0, _, _ => .error .outOfFuel
  | fuel + 1, i, isGetService => do
    let retInfo ← listGet listFuel l serviceName i
    match retInfo with
    | some info =>
      let pkt ← getInquiryResultPkt cj info
      let rest ← inquiryFrom l serviceName fuel (i + 1) true
      pure (pkt :: rest)
    | none =>
      if isGetService then pure []
      else
        let pkt ← getResultPkt cj false (some serviceNoFound)
        pure [pkt]

def serveInquiry (fuel : ℕ) (l : ServiceInfoList) (serviceName : CharPtr) :
    Except CFault (List (List UInt8)) :=
  inquiryFrom cj listFuel l serviceName fuel 0 false

/-- The body of `server_loop` for one packet: the packets it sends and its list. -/
def serverLoop (fuel : ℕ) (l : ServiceInfoList) (recPkt : List UInt8) :
    Except CFault (List (List UInt8) × ServiceInfoList) := do
  let type ← decodeAction recPkt
  if type = Action.registerService.code.toNat then
    match ← getServiceInfo cj recPkt with
    | none => pure ([], l)
    | some info =>
      let l ← listAdd listFuel l info
      let pkt ← getResultPkt cj true (some .empty)
      pure ([pkt], l)
  else if type = Action.unregisterService.code.toNat then
    match ← getServiceInfo cj recPkt with
    | none => pure ([], l)
    | some info =>
      let (i, l) ← listRemove listFuel l info.deviceName info.serviceName
      let pkt ← if i ≥ 0 then getResultPkt cj true (some .empty)
        else getResultPkt cj false (some serviceNoFound)
      pure ([pkt], l)
  else if type = Action.inquiry.code.toNat then
    match ← getServiceInfo cj recPkt with
    | none => pure ([], l)
    | some info =>
      let sent ← serveInquiry cj listFuel fuel l info.serviceName
      pure (sent, l)
  else pure ([], l)

end Loop

end MiniServiceDiscover.CDaemon
