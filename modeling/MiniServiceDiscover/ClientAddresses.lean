import MiniServiceDiscover.CAddress
import MiniServiceDiscover.GoAddress
import MiniServiceDiscover.JavaAddress

set_option autoImplicit false

/-! One host, seen by the clients of all three languages. -/
namespace MiniServiceDiscover.ClientAddresses
open JsonText DottedQuad AddressSweep
open CAddress (Ifaddr UdpClient)

/-- An address of an interface: IPv4, or of another family. -/
inductive IfaceAddr where
  | ipv4 (name : List UInt8) (addr : Quad) (mask : Fin 33) (broadcast : Quad)
  | other (name : List UInt8) (net : Net)

/-- The bits of a mask in its `k`-th byte. -/
def maskByte (mask : Fin 33) (k : ℕ) : UInt8 := (256 - 2 ^ (8 - min (mask - 8 * k) 8)).toUInt8

def netmask (mask : Fin 33) : Quad :=
  ⟨maskByte mask 0, maskByte mask 1, maskByte mask 2, maskByte mask 3⟩

section Views

def IfaceAddr.ifaddr : IfaceAddr → Ifaddr
  | .ipv4 name addr mask broadcast =>
    ⟨name, some (some addr), some (netmask mask), some broadcast⟩
  | .other name _ => ⟨name, some none, none, none⟩

def IfaceAddr.net : IfaceAddr → Net
  | .ipv4 _ addr mask _ => addr.net mask
  | .other _ net => net

/-- What `getifaddrs` gives. -/
def ifaddrs (host : List IfaceAddr) : List Ifaddr := host.map IfaceAddr.ifaddr

/-- What `InterfaceAddrs` gives. -/
def interfaceAddrs (host : List IfaceAddr) : List (List UInt8) :=
  (host.map IfaceAddr.net).map Net.string

/-- No entry has a null address. -/
theorem ifaddrs_sound (host : List IfaceAddr) (wanted : Ifaddr → Bool) :
    ¬ CAddress.NullFirst wanted (ifaddrs host) := by
  rintro ⟨front, ifa, back, hl, hnull, -⟩
  have hmem : ifa ∈ ifaddrs host := hl ▸ List.mem_append_right _ List.mem_cons_self
  obtain ⟨entry, -, rfl⟩ := List.mem_map.1 hmem
  cases entry with
  | ipv4 name addr mask broadcast => cases hnull
  | other name net => cases hnull

end Views

section Agreement

/-- The destinations of one cursor in two networks. -/
theorem destinations_inj {last port : ℕ} {c : Cursor} {ops : List CursorOp} (h : .prepare ∈ ops)
    (q r : Quad) :
    ((c.targets last ops).map fun t => (t.1, some (⟨q.host t.2, port⟩ : Endpoint))) =
      ((c.targets last ops).map fun t => (t.1, some (⟨r.host t.2, port⟩ : Endpoint))) ↔
        q.network = r.network := by
  constructor
  · intro he
    obtain ⟨t, ht⟩ := List.exists_mem_of_ne_nil _ (@targets_nonempty last c ops h)
    have hdst := congrArg Prod.snd (List.map_inj_left.1 he t ht)
    exact congrArg (fun e : Endpoint => e.addr.network) (Option.some.inj hdst)
  · intro hn
    refine List.map_congr_left fun t _ => ?_
    rw [host_congr q hn]

theorem code_finish (finish : Bool) : decide (CAddress.code finish ≠ 0) = finish := by
  cases finish with
  | false => rfl
  | true => rfl

end Agreement

/-- The C client takes the first address that is not the loopback's, the Go client the
first with a mask of 24 bits, the Java client that of the wifi: after a reset two of them
send to the same places in the same order just if their addresses are of one network. A Go
client that has found the loopback sends to that address alone. -/
theorem client_sweeps_agree (inetAddr : List UInt8 → Quad)
    (canonical : ∀ q : Quad, inetAddr q.text = q) (resolveUDPAddr : List UInt8 → Option Endpoint)
    (resolved : ∀ q : Quad, resolveUDPAddr (q.text ++ GoAddress.colon :: GoAddress.providerPort) =
      some ⟨q, GoAddress.port⟩)
    (getByName : JavaProvider.JavaString → Option Quad)
    (named : ∀ q : Quad, getByName (JavaAddress.javaText q.text) = some q)
    {host : List IfaceAddr} {o m : Quad} {wifi : Int32}
    (outer : CAddress.localAddr (ifaddrs host) = some o)
    (marked : GoAddress.localText (host.map IfaceAddr.net) = m.text) (linked : wifi ≠ 0) :
    ∃ c g, CAddress.initUdpClient inetAddr true true (some (ifaddrs host)) false = .ok (some c) ∧
      GoAddress.getUDPClient resolveUDPAddr true false (interfaceAddrs host) (interfaceAddrs host) =
        some g ∧
      (m = GoAddress.loop → g.broadcastValid = true ∧ g.dstAddr = some ⟨m, GoAddress.port⟩) ∧
      (m ≠ GoAddress.loop → g.broadcastValid = false ∧ ∀ ops, .prepare ∈ ops →
        ∃ sent, CAddress.targets inetAddr c (.reset :: ops) = .ok sent ∧
          (sent.map (fun t => (decide (t.1 ≠ 0), some t.2)) =
            GoAddress.targets resolveUDPAddr g (.reset :: ops) ↔ o.network = m.network) ∧
          (GoAddress.targets resolveUDPAddr g (.reset :: ops) =
            JavaAddress.targets getByName (JavaAddress.init getByName true wifi false)
              (.reset :: ops) ↔ m.network = (JavaAddress.quadOf wifi).network)) := by
  have hc := (@CAddress.initUdpClient_sweep inetAddr (ifaddrs host) true).2
    (ifaddrs_sound host CAddress.outer)
  by_cases hm : m = GoAddress.loop
  · have hg := @GoAddress.getUDPClient_broadcast resolveUDPAddr _ _ m resolved false
      (.inr (hm ▸ marked)) marked
    have hself : GoAddress.broadcastOf m = m := if_pos hm
    rw [hself] at hg
    exact ⟨_, _, hc, hg, fun _ => ⟨rfl, rfl⟩, fun hne => absurd hm hne⟩
  · have hg := @GoAddress.getUDPClient_sweep resolveUDPAddr _ (host.map IfaceAddr.net)
      (fun he => hm (text_injective (marked.symm.trans he)))
    rw [GoAddress.getLocalIPv4Network_spec marked hm] at hg
    refine ⟨_, _, hc, hg, fun he => absurd he hm, fun _ => ⟨rfl, fun ops hprepare => ?_⟩⟩
    have hj := JavaAddress.init_wifi named linked false
    refine ⟨_, CAddress.targets_host canonical outer _, ?_, ?_⟩
    · rw [List.map_map, GoAddress.targets_host resolved]
      have hcode : (fun t : ℤ × Endpoint => (decide (t.1 ≠ 0), some t.2)) ∘
          (fun t : Bool × ℕ => (CAddress.code t.1, (⟨o.host t.2, CAddress.port⟩ : Endpoint))) =
            fun t => (t.1, some ⟨o.host t.2, CAddress.port⟩) := by
        funext t
        simp only [Function.comp_apply, code_finish]
      rw [hcode]
      exact destinations_inj hprepare o m
    · rw [hj, GoAddress.targets_host resolved]
      have hjava := @JavaAddress.targets_host getByName named (JavaAddress.quadOf wifi)
        (some ((JavaAddress.quadOf wifi).host 255)) none ⟨0, 0⟩ (Nat.zero_le _) (.reset :: ops)
      rw [hjava]
      exact destinations_inj hprepare m (JavaAddress.quadOf wifi)

section Examples

def wlanHost : List IfaceAddr :=
  [.ipv4 CAddress.lo GoAddress.loop ⟨8, by decide⟩ GoAddress.loop,
    .ipv4 (ascii "wlan0") CAddress.wlan ⟨24, by decide⟩ (CAddress.wlan.host 255)]

/-- A host with one network of 24 bits, which is that of its wifi. -/
theorem client_sweeps_agree_wlan : ∃ c g,
    CAddress.initUdpClient CAddress.readAddr true true (some (ifaddrs wlanHost)) false =
      .ok (some c) ∧
    GoAddress.getUDPClient GoAddress.readEndpoint true false (interfaceAddrs wlanHost)
      (interfaceAddrs wlanHost) = some g ∧
    ∀ ops, .prepare ∈ ops → ∃ sent,
      CAddress.targets CAddress.readAddr c (.reset :: ops) = .ok sent ∧
      sent.map (fun t => (decide (t.1 ≠ 0), some t.2)) =
        GoAddress.targets GoAddress.readEndpoint g (.reset :: ops) ∧
      GoAddress.targets GoAddress.readEndpoint g (.reset :: ops) =
        JavaAddress.targets JavaAddress.readName
          (JavaAddress.init JavaAddress.readName true JavaAddress.wlan false) (.reset :: ops) := by
  obtain ⟨c, g, hc, hg, -, hsweep⟩ := @client_sweeps_agree CAddress.readAddr CAddress.readAddr_text
    GoAddress.readEndpoint GoAddress.readEndpoint_text JavaAddress.readName JavaAddress.readName_text
    wlanHost CAddress.wlan CAddress.wlan JavaAddress.wlan (by decide) (by decide) (by decide)
  refine ⟨c, g, hc, hg, fun ops hprepare => ?_⟩
  obtain ⟨sent, hsent, hgo, hjava⟩ := (hsweep (by decide)).2 ops hprepare
  exact ⟨sent, hsent, hgo.2 rfl, hjava.2 rfl⟩

end Examples

end MiniServiceDiscover.ClientAddresses
