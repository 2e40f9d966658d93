import MiniServiceDiscover.AddressSweep
import MiniServiceDiscover.DottedQuad

set_option autoImplicit false

/-! The addresses the Go client sends to, found in the texts of the interfaces. -/
namespace MiniServiceDiscover.GoAddress
open JsonText DottedQuad AddressSweep

def providerPort : List UInt8 := ascii "9988"

def localLoopAddr : List UInt8 := ascii "127.0.0.1"

def colon : UInt8 := 0x3A

def lastHost : ℕ := 254

structure UDPClient where
  dstAddr : Option Endpoint
  broadcastValid : Bool
  addrNetwork : List UInt8
  subIP : ℕ
  deriving DecidableEq, Repr

section Interfaces

/-- A loop over the addresses: what stands before the mark in the first that has it. -/
def cutAt (mark : List UInt8) : List (List UInt8) → Option (List UInt8)
  | [] => none
  | a :: addr =>
    match indexOf mark a with
    | some e => some (a.take e)
    | none => cutAt mark addr

/-- `addr` is what `InterfaceAddrs` returns, nothing in the event of an error. -/
def getLocalIPv4Addr (addr : List (List UInt8)) : List UInt8 :=
  match cutAt (ascii "/24") addr with
  | some ip => ip
  | none =>
    match cutAt (ascii "/8") addr with
    | some ip => ip
    | none => []

def getLocalIPv4Network (addr : List (List UInt8)) : List UInt8 :=
  let ip := getLocalIPv4Addr addr
  if ip ≠ localLoopAddr then
    match uptoLast dot ip with
    | some front => front
    | none => []
  else localLoopAddr

def getLocalIPv4BroadcastAddr (addr : List (List UInt8)) : List UInt8 :=
  let ip := getLocalIPv4Addr addr
  if ip ≠ localLoopAddr then
    match uptoLast dot ip with
    | some front => front ++ ascii "255"
    | none => []
  else localLoopAddr

end Interfaces

section Client
variable (resolveUDPAddr : List UInt8 → Option Endpoint)

/-- The interfaces are asked once for the test and once for the address; the test is not
made where `useBroadcast` holds. `listen` tells whether a socket is to be had. -/
def getUDPClient (listen useBroadcast : Bool) (tested used : List (List UInt8)) :
    Option UDPClient :=
  let u : UDPClient :=
    if useBroadcast || getLocalIPv4Addr tested = localLoopAddr then
      ⟨resolveUDPAddr (getLocalIPv4BroadcastAddr used ++ colon :: providerPort), true, [], 0⟩
    else ⟨none, false, getLocalIPv4Network used, 1⟩
  if listen then some u else none

def resetSubAddr (u : UDPClient) : UDPClient := { u with subIP := 1 }

def prepareSubAddr (u : UDPClient) : Bool × UDPClient :=
  let ip := u.addrNetwork ++ decimal u.subIP
  let u := { u with dstAddr := resolveUDPAddr (ip ++ colon :: providerPort) }
  if u.subIP < lastHost then (false, { u with subIP := u.subIP + 1 }) else (true, u)

/-- What each `PrepareSubAddr` of a run returns, and the destination it leaves. -/
def targets (u : UDPClient) : List CursorOp → List (Bool × Option Endpoint)
  | [] => []
  | .reset :: ops => targets (resetSubAddr u) ops
  | .prepare :: ops =>
    let prepared := prepareSubAddr resolveUDPAddr u
    (prepared.1, prepared.2.dstAddr) :: targets prepared.2 ops

end Client

def mask24 (net : Net) : Bool := decide (net.mask = 24)

/-- The mask of the loopback, or one of the eighties. -/
def mask8 (net : Net) : Bool := decide (net.mask = 8 ∨ (80 ≤ net.mask ∧ net.mask < 90))

/-- The text of the first address with a mask of 24 bits, else of the first whose mask
begins with an eight. -/
def localText (nets : List Net) : List UInt8 :=
  (((nets.find? mask24).or (nets.find? mask8)).map Net.ip).getD []

section Texts

theorem cutAt_find {digits : List UInt8} {wanted : Net → Bool}
    (h : ∀ n : Net, digits <+: decimal n.mask ↔ wanted n = true) (nets : List Net) :
    cutAt (slash :: digits) (nets.map Net.string) = (nets.find? wanted).map Net.ip := by
  induction nets with
  | nil => rfl
  | cons net nets ih =>
    rw [List.map_cons, cutAt, indexOf_string]
    by_cases hw : wanted net = true
    · rw [if_pos ((h net).2 hw), List.find?_cons_of_pos hw]
      exact congrArg some List.take_left
    · rw [if_neg (mt (h net).1 hw), List.find?_cons_of_neg hw]
      exact ih

theorem begins_mask24 (net : Net) : ascii "24" <+: decimal net.mask ↔ mask24 net = true := by
  rw [mask24, decide_eq_true_iff]
  exact begins_24 net.mask (Nat.lt_succ_of_le net.short)

theorem begins_mask8 (net : Net) : ascii "8" <+: decimal net.mask ↔ mask8 net = true := by
  rw [mask8, decide_eq_true_iff]
  exact begins_8 net.mask (Nat.lt_succ_of_le net.short)

theorem getLocalIPv4Addr_spec (nets : List Net) :
    getLocalIPv4Addr (nets.map Net.string) = localText nets := by
  have h24 := cutAt_find begins_mask24 nets
  have h8 := cutAt_find begins_mask8 nets
  rw [getLocalIPv4Addr, localText]
  change (match cutAt (slash :: ascii "24") _ with | some ip => ip | none => _) = _
  rw [h24]
  cases nets.find? mask24 with
  | some net => rfl
  | none =>
    change (match cutAt (slash :: ascii "8") _ with | some ip => ip | none => _) = _
    rw [h8]
    cases nets.find? mask8 with
    | some net => rfl
    | none => rfl

end Texts

section Sweeps
variable {resolveUDPAddr : List UInt8 → Option Endpoint}

theorem prepareSubAddr_eq (u : UDPClient) (dst : ℕ) : prepareSubAddr resolveUDPAddr u =
    (((⟨u.subIP, dst⟩ : Cursor).prepare lastHost).1,
      { u with
        dstAddr := resolveUDPAddr (u.addrNetwork ++ decimal u.subIP ++ colon :: providerPort)
        subIP := ((⟨u.subIP, dst⟩ : Cursor).prepare lastHost).2.subIP }) := by
  simp only [prepareSubAddr, Cursor.prepare]
  by_cases h : u.subIP < lastHost
  · simp only [if_pos h]
  · simp only [if_neg h]

theorem targets_eq {u : UDPClient} {cursor : Cursor} (hs : u.subIP = cursor.subIP)
    (hle : cursor.subIP ≤ lastHost) (ops : List CursorOp) :
    targets resolveUDPAddr u ops = (cursor.targets lastHost ops).map fun t =>
      (t.1, resolveUDPAddr (u.addrNetwork ++ decimal t.2 ++ colon :: providerPort)) := by
  induction ops generalizing u cursor with
  | nil => rfl
  | cons op ops ih =>
    cases op with
    | reset => exact @ih (resetSubAddr u) cursor.reset rfl (show 1 ≤ lastHost by decide)
    | prepare =>
      obtain ⟨hnext, hdst⟩ := prepare_spec hle
      have hp := @prepareSubAddr_eq resolveUDPAddr u cursor.dst
      rw [hs] at hp
      rw [targets, hp, Cursor.targets, List.map_cons, hdst]
      exact congrArg (List.cons _) (ih rfl hnext)

end Sweeps

def loop : Quad := ⟨127, 0, 0, 1⟩

def port : ℕ := 9988

section Clients
variable {resolveUDPAddr : List UInt8 → Option Endpoint} {nets tested used : List Net} {q : Quad}

theorem text_eq_loop : q.text = localLoopAddr ↔ q = loop := by
  have hloop : localLoopAddr = loop.text := by decide
  rw [hloop]
  exact ⟨text_injective, congrArg Quad.text⟩

theorem getLocalIPv4Network_spec (h : localText nets = q.text) (hq : q ≠ loop) :
    getLocalIPv4Network (nets.map Net.string) = q.network := by
  rw [getLocalIPv4Network, getLocalIPv4Addr_spec, h, if_pos (mt text_eq_loop.1 hq), uptoLast_text]

theorem getLocalIPv4Network_loop (h : localText nets = loop.text) :
    getLocalIPv4Network (nets.map Net.string) = localLoopAddr := by
  rw [getLocalIPv4Network, getLocalIPv4Addr_spec, h, if_neg (not_not.2 (text_eq_loop.2 rfl))]

theorem getLocalIPv4Network_none (h : dot ∉ localText nets) :
    getLocalIPv4Network (nets.map Net.string) = [] := by
  have hne : localText nets ≠ localLoopAddr := fun he => h (he ▸ by decide)
  rw [getLocalIPv4Network, getLocalIPv4Addr_spec, if_pos hne, uptoLast, if_neg h]

/-- The broadcast address of a network, of which the loopback is its own. -/
def broadcastOf (q : Quad) : Quad := if q = loop then q else q.host 255

theorem getLocalIPv4BroadcastAddr_spec (h : localText nets = q.text) :
    getLocalIPv4BroadcastAddr (nets.map Net.string) = (broadcastOf q).text := by
  rw [getLocalIPv4BroadcastAddr, getLocalIPv4Addr_spec, h, broadcastOf]
  by_cases hq : q = loop
  · rw [if_neg (not_not.2 (text_eq_loop.2 hq)), if_pos hq, hq]
    decide
  · have h255 : decimal 255 = ascii "255" := by decide
    rw [if_pos (mt text_eq_loop.1 hq), if_neg hq, uptoLast_text, host_text q (by decide), h255]

/-- A client that broadcasts, because it is told to or has found the loopback. -/
theorem getUDPClient_broadcast
    (canonical : ∀ q : Quad, resolveUDPAddr (q.text ++ colon :: providerPort) = some ⟨q, port⟩)
    {useBroadcast : Bool} (hb : useBroadcast = true ∨ localText tested = loop.text)
    (h : localText used = q.text) :
    getUDPClient resolveUDPAddr true useBroadcast (tested.map Net.string) (used.map Net.string) =
      some ⟨some ⟨broadcastOf q, port⟩, true, [], 0⟩ := by
  have htest : (useBroadcast || decide (getLocalIPv4Addr (tested.map Net.string) = localLoopAddr)) =
      true := by
    rw [Bool.or_eq_true, decide_eq_true_iff, getLocalIPv4Addr_spec]
    exact hb.imp_right fun hl => hl.trans (text_eq_loop.2 rfl)
  simp only [getUDPClient, htest, if_true, getLocalIPv4BroadcastAddr_spec h, canonical]

theorem getUDPClient_sweep (h : localText tested ≠ loop.text) :
    getUDPClient resolveUDPAddr true false (tested.map Net.string) (used.map Net.string) =
      some ⟨none, false, getLocalIPv4Network (used.map Net.string), 1⟩ := by
  have htest : (false || decide (getLocalIPv4Addr (tested.map Net.string) = localLoopAddr)) =
      false := by
    rw [Bool.false_or, decide_eq_false_iff_not, getLocalIPv4Addr_spec]
    exact fun he => h (he.trans (text_eq_loop.2 rfl).symm)
  simp only [getUDPClient, htest, Bool.false_eq_true, if_false, if_true]

theorem targets_host
    (canonical : ∀ q : Quad, resolveUDPAddr (q.text ++ colon :: providerPort) = some ⟨q, port⟩)
    (ops : List CursorOp) :
    targets resolveUDPAddr ⟨none, false, q.network, 1⟩ ops =
      ((⟨1, 0⟩ : Cursor).targets lastHost ops).map fun t => (t.1, some ⟨q.host t.2, port⟩) := by
  refine (@targets_eq resolveUDPAddr _ ⟨1, 0⟩ rfl (by decide) ops).trans ?_
  refine List.map_congr_left fun t ht => ?_
  have hle : t.2 ≤ lastHost := targets_le (by decide) (show 1 ≤ lastHost by decide) ops t ht
  have hhost := host_text q (Nat.lt_of_le_of_lt hle (by decide))
  refine congrArg (Prod.mk t.1) ?_
  rw [← hhost, canonical]

end Clients

/-- The client of both callers takes the first address with a mask of 24 bits, or the
loopback where there is none. With the loopback it broadcasts to that one address. With
another it goes through the hosts of its network; if the loopback shows up only when the
interfaces are asked again, through texts of no network. -/
theorem client_destinations (resolveUDPAddr : List UInt8 → Option Endpoint)
    (canonical : ∀ q : Quad, resolveUDPAddr (q.text ++ colon :: providerPort) = some ⟨q, port⟩)
    (tested used : List Net) :
    (localText tested = loop.text → ∀ q : Quad, localText used = q.text →
      getUDPClient resolveUDPAddr true false (tested.map Net.string) (used.map Net.string) =
        some ⟨some ⟨broadcastOf q, port⟩, true, [], 0⟩) ∧
    (localText tested ≠ loop.text → ∃ u, u.broadcastValid = false ∧
      getUDPClient resolveUDPAddr true false (tested.map Net.string) (used.map Net.string) = some u ∧
      (∀ q : Quad, localText used = q.text → q ≠ loop → ∀ ops, targets resolveUDPAddr u ops =
        ((⟨1, 0⟩ : Cursor).targets lastHost ops).map fun t => (t.1, some ⟨q.host t.2, port⟩)) ∧
      (localText used = loop.text → ∀ ops, targets resolveUDPAddr u ops =
        ((⟨1, 0⟩ : Cursor).targets lastHost ops).map fun t =>
          (t.1, resolveUDPAddr (localLoopAddr ++ decimal t.2 ++ colon :: providerPort))) ∧
      (dot ∉ localText used → ∀ ops, targets resolveUDPAddr u ops =
        ((⟨1, 0⟩ : Cursor).targets lastHost ops).map fun t =>
          (t.1, resolveUDPAddr (decimal t.2 ++ colon :: providerPort)))) := by
  refine ⟨fun hl q hq => getUDPClient_broadcast canonical (.inr hl) hq, fun hl => ?_⟩
  refine ⟨_, rfl, getUDPClient_sweep hl, fun q hq hne ops => ?_, fun hloop ops => ?_,
    fun hnone ops => ?_⟩
  · rw [getLocalIPv4Network_spec hq hne]
    exact targets_host canonical ops
  · rw [getLocalIPv4Network_loop hloop]
    exact @targets_eq resolveUDPAddr _ ⟨1, 0⟩ rfl (by decide) ops
  · rw [getLocalIPv4Network_none hnone]
    exact @targets_eq resolveUDPAddr _ ⟨1, 0⟩ rfl (by decide) ops

section Examples

def wlan : Quad := ⟨192, 168, 1, 116⟩

/-- The loopback, an address of another family, and one of a network of 24 bits. -/
def wlanNets : List Net :=
  [loop.net 8, ⟨ascii "fe80::1", 64, by decide, by decide⟩, wlan.net 24]

/-- An address and a port with a colon between. -/
def readEndpoint (text : List UInt8) : Option Endpoint :=
  match text.splitOn colon with
  | [addr, port] => (readQuad addr).map fun q => ⟨q, natOf port⟩
  | _ => none

theorem colon_not_mem (q : Quad) : colon ∉ q.text := by
  have hdot : colon ≠ dot := by decide
  have hdecimal : ∀ n, colon ∉ decimal n := fun n h =>
    absurd ((JsonRoundTrip.decimal_digits n).digits colon h) (by decide)
  simp only [Quad.text, Quad.network, List.mem_append, List.mem_cons, List.not_mem_nil, hdot,
    hdecimal, or_self, not_false_eq_true]

theorem readEndpoint_text (q : Quad) :
    readEndpoint (q.text ++ colon :: providerPort) = some ⟨q, port⟩ := by
  have hjoin : q.text ++ colon :: providerPort = [colon].intercalate [q.text, providerPort] := by
    simp [List.intercalate, List.intersperse]
  have hplain : ∀ part ∈ [q.text, providerPort], colon ∉ part := by
    refine List.forall_mem_cons.2 ⟨colon_not_mem q, List.forall_mem_singleton.2 ?_⟩
    decide
  have hport : natOf providerPort = port := by decide
  rw [readEndpoint, hjoin, List.splitOn_intercalate colon hplain (List.cons_ne_nil _ _)]
  simp only [readQuad_text, Option.map_some, hport]

theorem wlanNets_local : localText wlanNets = wlan.text := by decide

theorem client_destinations_wlan : ∃ u, u.broadcastValid = false ∧
    getUDPClient readEndpoint true false (wlanNets.map Net.string) (wlanNets.map Net.string) =
      some u ∧
    ∀ ops, targets readEndpoint u ops =
      ((⟨1, 0⟩ : Cursor).targets lastHost ops).map fun t => (t.1, some ⟨wlan.host t.2, port⟩) := by
  have hne : localText wlanNets ≠ loop.text := by decide
  obtain ⟨u, hb, hu, hsweep, -⟩ :=
    (client_destinations readEndpoint readEndpoint_text wlanNets wlanNets).2 hne
  exact ⟨u, hb, hu, hsweep wlan wlanNets_local (by decide)⟩

end Examples

end MiniServiceDiscover.GoAddress
