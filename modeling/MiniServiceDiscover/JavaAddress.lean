import MiniServiceDiscover.AddressSweep
import MiniServiceDiscover.DottedQuad
import MiniServiceDiscover.JavaProvider

set_option autoImplicit false

/-! The addresses the Java client sends to, made from the number the wifi manager gives. -/
namespace MiniServiceDiscover.JavaAddress
open JsonText DottedQuad AddressSweep
open JavaProvider (JavaString StringRef)

def defaultPort : ℕ := 9988

def lastHost : ℕ := 254

/-- The characters of a text in ASCII. -/
def javaText (s : List UInt8) : JavaString := s.map UInt8.toUInt16

def javaDot : UInt16 := dot.toUInt16

def valueOf (i : ℤ) : JavaString :=
  if i < 0 then javaText (0x2D :: decimal i.natAbs) else javaText (decimal i.toNat)

structure UDPClient where
  broadcastAddr : Option Quad
  subAddr : Option Quad
  networkIP : StringRef
  subIP : ℕ
  isBroadcast : Bool
  deriving DecidableEq, Repr

section Interfaces

def intToIP (i : Int32) : JavaString :=
  valueOf (i &&& 0xFF).toInt ++ [javaDot] ++ valueOf ((i >>> 8) &&& 0xFF).toInt ++ [javaDot] ++
    valueOf ((i >>> 16) &&& 0xFF).toInt ++ [javaDot] ++ valueOf ((i >>> 24) &&& 0xFF).toInt

def getWIFIIP (ipAddress : Int32) : JavaString :=
  if ipAddress ≠ 0 then intToIP ipAddress else []

/-- The substring up to a dot that is not the first character. -/
def upto (ip : JavaString) : StringRef := (uptoLast javaDot ip).filter fun front => 1 < front.length

def getNetworkIP (ip : JavaString) : JavaString :=
  match upto ip with
  | some temp => temp
  | none => []

def getBoradcastIP (ip : JavaString) : JavaString :=
  match upto ip with
  | some temp => temp ++ javaText (ascii "255")
  | none => []

end Interfaces

section Client
variable (getByName : JavaString → Option Quad)

/-- `socket` tells whether a socket is to be had; `getByName` of no address throws. The
only empty string that `getWIFIIP` returns is the literal that `init` compares with. -/
def init (socket : Bool) (ipAddress : Int32) (isBroadcastSet : Bool) : UDPClient :=
  let client : UDPClient := ⟨none, none, none, 0, isBroadcastSet⟩
  if socket then
    let ip := getWIFIIP ipAddress
    if ip ≠ [] then
      { client with
        networkIP := some (getNetworkIP ip)
        broadcastAddr := getByName (getBoradcastIP ip) }
    else client
  else client

def resetSubAddr (client : UDPClient) : UDPClient := { client with subIP := 1 }

/-- A name that is not found leaves the address of the last one. -/
def prepareSubAddr (client : UDPClient) : Bool × UDPClient :=
  let ip := client.networkIP.getD (javaText (ascii "null")) ++ valueOf client.subIP
  let client := { client with subAddr := (getByName ip).or client.subAddr }
  if client.subIP < lastHost then (false, { client with subIP := client.subIP + 1 })
  else (true, client)

/-- Where `send` addresses its packet. -/
def destination (client : UDPClient) : Option Endpoint :=
  (if client.isBroadcast then client.broadcastAddr else client.subAddr).map fun addr =>
    ⟨addr, defaultPort⟩

/-- What each `prepareSubAddr` of a run returns, and the destination it leaves. -/
def targets (client : UDPClient) : List CursorOp → List (Bool × Option Endpoint)
  | [] => []
  | .reset :: ops => targets (resetSubAddr client) ops
  | .prepare :: ops =>
    let prepared := prepareSubAddr getByName client
    (prepared.1, destination prepared.2) :: targets prepared.2 ops

end Client

/-- The bytes of the number, the lowest first. -/
def quadOf (i : Int32) : Quad where
  a := i.toUInt32.toUInt8
  b := (i >>> 8).toUInt32.toUInt8
  c := (i >>> 16).toUInt32.toUInt8
  d := (i >>> 24).toUInt32.toUInt8

section Texts

theorem toInt_lowByte (i : Int32) : (i &&& 0xFF).toInt = i.toUInt32.toUInt8.toNat := by
  have hnat : (i &&& 0xFF).toBitVec.toNat = i.toBitVec.toNat % 2 ^ 8 := by
    rw [Int32.toBitVec_and, BitVec.toNat_and]
    exact Nat.and_two_pow_sub_one_eq_mod _ 8
  have hmsb : 2 * (i &&& 0xFF).toBitVec.toNat < 2 ^ 32 := by
    rw [hnat]
    omega
  change (i &&& 0xFF).toBitVec.toInt = _
  rw [BitVec.toInt_eq_toNat_of_lt hmsb, hnat]
  rfl

theorem valueOf_byte (i : Int32) :
    valueOf (i &&& 0xFF).toInt = javaText (decimal i.toUInt32.toUInt8.toNat) := by
  rw [toInt_lowByte, valueOf, if_neg (Int.not_lt.2 (Int.natCast_nonneg _)), Int.toNat_natCast]

theorem valueOf_nat (n : ℕ) : valueOf n = javaText (decimal n) := by
  rw [valueOf, if_neg (Int.not_lt.2 (Int.natCast_nonneg _)), Int.toNat_natCast]

theorem javaText_append (s t : List UInt8) : javaText (s ++ t) = javaText s ++ javaText t :=
  List.map_append

theorem intToIP_text (i : Int32) : intToIP i = javaText (quadOf i).text := by
  simp only [intToIP, valueOf_byte, Quad.text, Quad.network, javaText, List.map_append,
    List.map_cons, List.append_assoc, List.cons_append, List.nil_append]
  rfl

theorem toUInt16_injective : Function.Injective UInt8.toUInt16 := by
  intro a b h
  exact UInt8.toNat_inj.1 (by simpa only [UInt8.toNat_toUInt16] using congrArg UInt16.toNat h)

theorem upto_text (q : Quad) : upto (javaText q.text) = some (javaText q.network) := by
  have hlen : 1 < (javaText q.network).length := by
    have h := (network_length q).1
    rw [javaText, List.length_map]
    omega
  have hup := (uptoLast_map toUInt16_injective dot q.text).trans
    (congrArg (Option.map _) (uptoLast_text q))
  rw [upto]
  change (uptoLast (dot.toUInt16) (q.text.map UInt8.toUInt16)).filter _ = _
  rw [hup]
  exact Option.filter_some_pos (decide_eq_true hlen)

end Texts

section Sweeps
variable {getByName : JavaString → Option Quad}

theorem prepareSubAddr_eq (client : UDPClient) (dst : ℕ) : prepareSubAddr getByName client =
    (((⟨client.subIP, dst⟩ : Cursor).prepare lastHost).1,
      { client with
        subAddr := (getByName (client.networkIP.getD (javaText (ascii "null")) ++
          javaText (decimal client.subIP))).or client.subAddr
        subIP := ((⟨client.subIP, dst⟩ : Cursor).prepare lastHost).2.subIP }) := by
  simp only [prepareSubAddr, Cursor.prepare, valueOf_nat]
  by_cases h : client.subIP < lastHost
  · simp only [if_pos h]
  · simp only [if_neg h]

/-- The text that is looked up for a number. -/
def subName (networkIP : StringRef) (n : ℕ) : JavaString :=
  networkIP.getD (javaText (ascii "null")) ++ javaText (decimal n)

/-- `kept` is what the look-ups leave true of the last address. -/
theorem targets_eq {networkIP : StringRef} {broadcastAddr : Option Quad} {isBroadcast : Bool}
    (kept : Option Quad → Prop) (found : ℕ → Option Endpoint)
    (hstep : ∀ n ≤ lastHost, ∀ subAddr, kept subAddr →
      kept ((getByName (subName networkIP n)).or subAddr) ∧
      destination ⟨broadcastAddr, (getByName (subName networkIP n)).or subAddr, networkIP, n,
        isBroadcast⟩ = found n)
    {subAddr : Option Quad} (hkept : kept subAddr) {cursor : Cursor}
    (hle : cursor.subIP ≤ lastHost) (ops : List CursorOp) :
    targets getByName ⟨broadcastAddr, subAddr, networkIP, cursor.subIP, isBroadcast⟩ ops =
      (cursor.targets lastHost ops).map fun t => (t.1, found t.2) := by
  induction ops generalizing subAddr cursor with
  | nil => rfl
  | cons op ops ih =>
    cases op with
    | reset => exact @ih subAddr hkept cursor.reset (show 1 ≤ lastHost by decide)
    | prepare =>
      obtain ⟨hnext, hdst⟩ := prepare_spec hle
      obtain ⟨hkept', hfound⟩ := hstep cursor.subIP hle subAddr hkept
      rw [targets, prepareSubAddr_eq _ cursor.dst, Cursor.targets, List.map_cons, hdst]
      exact congrArg₂ List.cons (congrArg (Prod.mk _) hfound) (ih hkept' hnext)

/-- Each text of the network is found, whatever was found before. -/
theorem targets_host (canonical : ∀ q : Quad, getByName (javaText q.text) = some q) {q : Quad}
    {broadcastAddr subAddr : Option Quad} {cursor : Cursor} (hle : cursor.subIP ≤ lastHost)
    (ops : List CursorOp) :
    targets getByName ⟨broadcastAddr, subAddr, some (javaText q.network), cursor.subIP, false⟩ ops =
      (cursor.targets lastHost ops).map fun t => (t.1, some ⟨q.host t.2, defaultPort⟩) := by
  refine targets_eq (fun _ => True) (fun n => some ⟨q.host n, defaultPort⟩)
    (fun n hn subAddr _ => ⟨trivial, ?_⟩) trivial hle ops
  have hname : subName (some (javaText q.network)) n = javaText (q.host n).text := by
    rw [host_text q (Nat.lt_of_le_of_lt hn (by decide)), javaText_append]
    rfl
  rw [hname, canonical]
  rfl

/-- A client that broadcasts keeps to its one address. -/
theorem targets_broadcast {networkIP : StringRef} {broadcastAddr subAddr : Option Quad}
    {cursor : Cursor} (hle : cursor.subIP ≤ lastHost) (ops : List CursorOp) :
    targets getByName ⟨broadcastAddr, subAddr, networkIP, cursor.subIP, true⟩ ops =
      (cursor.targets lastHost ops).map fun t =>
        (t.1, broadcastAddr.map fun addr => ⟨addr, defaultPort⟩) :=
  targets_eq (fun _ => True) (fun _ => broadcastAddr.map fun addr => ⟨addr, defaultPort⟩)
    (fun _ _ _ _ => ⟨trivial, rfl⟩) trivial hle ops

/-- Where no name is found there is no address. -/
theorem targets_unfound {networkIP : StringRef} {broadcastAddr : Option Quad} {cursor : Cursor}
    (hle : cursor.subIP ≤ lastHost)
    (hnone : ∀ n ≤ lastHost, getByName (subName networkIP n) = none) (ops : List CursorOp) :
    targets getByName ⟨broadcastAddr, none, networkIP, cursor.subIP, false⟩ ops =
      (cursor.targets lastHost ops).map fun t => (t.1, none) := by
  refine targets_eq (fun subAddr => subAddr = none) (fun _ => none) (fun n hn subAddr hs => ?_)
    rfl hle ops
  rw [hnone n hn, hs]
  exact ⟨rfl, rfl⟩

theorem init_wifi (canonical : ∀ q : Quad, getByName (javaText q.text) = some q) {ipAddress : Int32}
    (h : ipAddress ≠ 0) (isBroadcastSet : Bool) :
    init getByName true ipAddress isBroadcastSet = ⟨some ((quadOf ipAddress).host 255), none,
      some (javaText (quadOf ipAddress).network), 0, isBroadcastSet⟩ := by
  have hip : getWIFIIP ipAddress = javaText (quadOf ipAddress).text :=
    (if_pos h).trans (intToIP_text ipAddress)
  have hne : javaText (quadOf ipAddress).text ≠ [] := by
    rw [javaText, Ne, List.map_eq_nil_iff, ← List.length_eq_zero_iff]
    have hlen := (text_length (quadOf ipAddress)).1
    omega
  have hbroadcast : getBoradcastIP (javaText (quadOf ipAddress).text) =
      javaText ((quadOf ipAddress).host 255).text := by
    have h255 : decimal 255 = ascii "255" := by decide
    rw [getBoradcastIP, upto_text, host_text _ (by decide), javaText_append, h255]
  simp only [init, if_true, hip, if_pos hne, hbroadcast, canonical, getNetworkIP, upto_text]

end Sweeps

/-- A client with a wifi address sends to the hosts of its network in turn, or to its
broadcast address alone. Without one it looks up names that begin with `null`, and as long
as none is found it has no address. -/
theorem wifi_destinations (getByName : JavaString → Option Quad)
    (canonical : ∀ q : Quad, getByName (javaText q.text) = some q) (ipAddress : Int32)
    (ops : List CursorOp) :
    (ipAddress ≠ 0 →
      targets getByName (init getByName true ipAddress false) ops =
        ((⟨0, 0⟩ : Cursor).targets lastHost ops).map (fun t =>
          (t.1, some ⟨(quadOf ipAddress).host t.2, defaultPort⟩)) ∧
      targets getByName (init getByName true ipAddress true) ops =
        ((⟨0, 0⟩ : Cursor).targets lastHost ops).map fun t =>
          (t.1, some ⟨(quadOf ipAddress).host 255, defaultPort⟩)) ∧
    (ipAddress = 0 → (∀ n ≤ lastHost, getByName (subName none n) = none) →
      ∀ isBroadcastSet, targets getByName (init getByName true ipAddress isBroadcastSet) ops =
        ((⟨0, 0⟩ : Cursor).targets lastHost ops).map fun t => (t.1, none)) := by
  refine ⟨fun h => ⟨?_, ?_⟩, ?_⟩
  · rw [init_wifi canonical h]
    exact @targets_host getByName canonical _ _ _ ⟨0, 0⟩ (Nat.zero_le _) ops
  · rw [init_wifi canonical h]
    exact @targets_broadcast getByName _ _ _ ⟨0, 0⟩ (Nat.zero_le _) ops
  · rintro rfl hnone isBroadcastSet
    cases isBroadcastSet with
    | false => exact @targets_unfound getByName none none ⟨0, 0⟩ (Nat.zero_le _) hnone ops
    | true => exact @targets_broadcast getByName none none none ⟨0, 0⟩ (Nat.zero_le _) ops

section Examples

def readName (name : JavaString) : Option Quad := readQuad (name.map UInt16.toUInt8)

theorem readName_text (q : Quad) : readName (javaText q.text) = some q := by
  have hback : UInt16.toUInt8 ∘ UInt8.toUInt16 = id := by
    funext b
    exact UInt8.toUInt8_toUInt16 b
  rw [readName, javaText, List.map_map, hback, List.map_id, readQuad_text]

/-- The number of 192.168.1.116. -/
def wlan : Int32 := 0x7401A8C0

theorem wifi_destinations_wlan :
    targets readName (init readName true wlan false) [.reset, .prepare, .prepare] =
      [(false, some ⟨⟨192, 168, 1, 1⟩, defaultPort⟩),
        (false, some ⟨⟨192, 168, 1, 2⟩, defaultPort⟩)] :=
  ((wifi_destinations readName readName_text wlan [.reset, .prepare, .prepare]).1 (by decide)).1

end Examples

end MiniServiceDiscover.JavaAddress
