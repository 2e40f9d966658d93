import MiniServiceDiscover.CSweep
import MiniServiceDiscover.DottedQuad

set_option autoImplicit false

/-! The addresses the C client sends to: which interface it takes them from, and what a
sweep makes of that interface's address. -/
namespace MiniServiceDiscover.CAddress
open JsonText DottedQuad AddressSweep StepRuns Fallible
open CSweep (lastHost)

inductive Fault where
  | nullPointer
  | uninitialized
  | unterminated
  | bufferOverflow
  deriving DecidableEq, Repr

/-- An entry of `getifaddrs`. Its address is a null pointer, of another family, or IPv4. -/
structure Ifaddr where
  name : List UInt8
  addr : Option (Option Quad)
  netmask : Option Quad
  broadaddr : Option Quad
  deriving DecidableEq, Repr

def port : ℕ := 9988

def localAddrBufLen : ℕ := 30

def lo : List UInt8 := ascii "lo"

def netmask24 : List UInt8 := ascii "255.255.255.0"

structure UdpClient where
  addrto : Endpoint
  ip : List UInt8
  isBroadcast : Bool
  subIp : ℕ
  deriving DecidableEq, Repr

section Interfaces

def deref (p : Option Quad) : Except Fault Quad :=
  match p with
  | some q => .ok q
  | none => .error .nullPointer

/-- `strncpy` of `inet_ntoa` into a buffer that is read as a string later. -/
def copyAddr (q : Quad) : Except Fault (List UInt8) :=
  if q.text.length < localAddrBufLen then .ok q.text else .error .unterminated

/-- A loop over the IPv4 entries, which leaves at the first that is wanted. -/
def pick (wanted : Ifaddr → Quad → Except Fault Bool) (copied : Ifaddr → Quad → Except Fault Quad) :
    List Ifaddr → Except Fault (Option (List UInt8))
  | [] => .ok none
  | ifa :: rest =>
    match ifa.addr with
    | none => .error .nullPointer
    | some none => pick wanted copied rest
    | some (some addr) => do
      let hit ← wanted ifa addr
      if hit then
        let q ← copied ifa addr
        let buf ← copyAddr q
        pure (some buf)
      else pick wanted copied rest

/-- What is written into the buffer, if anything is, and the result. -/
def getLocalIpv4BroadcastAddr (ifList : Option (List Ifaddr)) :
    Except Fault (ℤ × Option (List UInt8)) :=
  match ifList with
  | none => .ok (-1, none)
  | some ifs => do
    let buf ← pick (fun ifa _ => do
      let netmask ← deref ifa.netmask
      pure (decide (netmask.text = netmask24))) (fun ifa _ => deref ifa.broadaddr) ifs
    match buf with
    | some buf => pure (0, some buf)
    | none =>
      let buf ← pick (fun ifa _ => pure (decide (ifa.name = lo)))
        (fun ifa _ => deref ifa.broadaddr) ifs
      pure (0, buf)

def getLocalIpv4Addr (ifList : Option (List Ifaddr)) : Except Fault (ℤ × Option (List UInt8)) :=
  match ifList with
  | none => .ok (-1, none)
  | some ifs => do
    let buf ← pick (fun ifa addr => pure (decide (ifa.name ≠ lo) && decide (addr.text.length ≥ 7)))
      (fun _ addr => pure addr) ifs
    match buf with
    | some buf => pure (0, some buf)
    | none =>
      let buf ← pick (fun ifa _ => pure (decide (ifa.name = lo))) (fun _ addr => pure addr) ifs
      pure (0, buf)

end Interfaces

section Client
variable (inetAddr : List UInt8 → Quad)

/-- `sock` and `broadcastOpt` tell whether the two system calls succeed. In the broadcast
branch `ip_buf` holds nothing before `get_local_ipv4_broadcast_addr` writes it. -/
def initUdpClient (sock broadcastOpt : Bool) (ifList : Option (List Ifaddr)) (isBroadcast : Bool) :
    Except Fault (Option UdpClient) :=
  if sock then
    if isBroadcast then do
      let found ← getLocalIpv4BroadcastAddr ifList
      if broadcastOpt then
        match found.2 with
        | none => .error .uninitialized
        | some ipBuf => pure (some ⟨⟨inetAddr ipBuf, port⟩, [], isBroadcast, 0⟩)
      else pure none
    else do
      let found ← getLocalIpv4Addr ifList
      let ip := found.2.getD []
      pure (some ⟨⟨⟨0, 0, 0, 0⟩, port⟩, (uptoLast dot ip).getD ip, isBroadcast, 0⟩)
  else .ok none

def resetSubAddr (client : UdpClient) : UdpClient := { client with subIp := 1 }

def prepareSubAddr (client : UdpClient) : Except Fault (ℤ × UdpClient) :=
  let ip := client.ip ++ decimal client.subIp
  if ip.length < localAddrBufLen then
    let client := { client with addrto := { client.addrto with addr := inetAddr ip } }
    if client.subIp < lastHost then .ok (0, { client with subIp := client.subIp + 1 })
    else .ok (-1, client)
  else .error .bufferOverflow

/-- What each `prepare_sub_addr` of a run returns, and the address it leaves. -/
def targets (client : UdpClient) : List CursorOp → Except Fault (List (ℤ × Endpoint))
  | [] => .ok []
  | .reset :: ops => targets (resetSubAddr client) ops
  | .prepare :: ops => do
    let prepared ← prepareSubAddr inetAddr client
    let rest ← targets prepared.2 ops
    pure ((prepared.1, prepared.2.addrto) :: rest)

end Client

def Ifaddr.ipv4 (ifa : Ifaddr) : Option Quad := ifa.addr.join

def Ifaddr.broadcast (ifa : Ifaddr) : Option Quad := ifa.ipv4.bind fun _ => ifa.broadaddr

def outer (ifa : Ifaddr) : Bool := decide (ifa.name ≠ lo)

def loopback (ifa : Ifaddr) : Bool := decide (ifa.name = lo)

def masked24 (ifa : Ifaddr) : Bool := decide (ifa.netmask.map Quad.text = some netmask24)

/-- The values of the wanted entries that have one. -/
def valuesOf (wanted : Ifaddr → Bool) (value : Ifaddr → Option Quad) (ifs : List Ifaddr) :
    List Quad :=
  (ifs.filter wanted).filterMap value

/-- The first address of an interface other than `lo`, else the first of `lo`. -/
def localAddr (ifs : List Ifaddr) : Option Quad :=
  (valuesOf outer Ifaddr.ipv4 ifs).head?.or (valuesOf loopback Ifaddr.ipv4 ifs).head?

/-- The first broadcast address of an interface with that netmask, else the first of `lo`. -/
def localBroadcast (ifs : List Ifaddr) : Option Quad :=
  (valuesOf masked24 Ifaddr.broadcast ifs).head?.or (valuesOf loopback Ifaddr.broadcast ifs).head?

/-- A null address comes before all wanted entries with an IPv4 address. -/
def NullFirst (wanted : Ifaddr → Bool) (ifs : List Ifaddr) : Prop :=
  ∃ front ifa back, ifs = front ++ ifa :: back ∧ ifa.addr = none ∧
    valuesOf wanted Ifaddr.ipv4 front = []

/-- The loop asks whether an entry is wanted, and copies this value of one that is. -/
structure Picks (wanted : Ifaddr → Bool) (value : Ifaddr → Option Quad) (ifs : List Ifaddr)
    (w : Ifaddr → Quad → Except Fault Bool) (c : Ifaddr → Quad → Except Fault Quad) : Prop where
  asks : ∀ ifa ∈ ifs, ∀ q, ifa.addr = some (some q) → w ifa q = .ok (wanted ifa)
  copies : ∀ ifa ∈ ifs, ∀ q, ifa.addr = some (some q) → wanted ifa = true →
    ∃ v, value ifa = some v ∧ c ifa q = .ok v
  other : ∀ ifa ∈ ifs, ifa.addr.join = none → value ifa = none

section Loops
variable {wanted : Ifaddr → Bool} {value : Ifaddr → Option Quad} {ifs : List Ifaddr}
  {w : Ifaddr → Quad → Except Fault Bool} {c : Ifaddr → Quad → Except Fault Quad}

theorem copyAddr_eq (q : Quad) : copyAddr q = .ok q.text := by
  rw [copyAddr, if_pos]
  have h := (text_length q).2
  rw [localAddrBufLen]
  omega

theorem valuesOf_cons (ifa : Ifaddr) : valuesOf wanted value (ifa :: ifs) =
    valuesOf wanted value [ifa] ++ valuesOf wanted value ifs := by
  rw [valuesOf, valuesOf, valuesOf, ← List.filterMap_append, ← List.filter_append]
  rfl

theorem nullFirst_cons {ifa : Ifaddr} : NullFirst wanted (ifa :: ifs) ↔
    ifa.addr = none ∨ (valuesOf wanted Ifaddr.ipv4 [ifa] = [] ∧ NullFirst wanted ifs) := by
  constructor
  · rintro ⟨front, x, back, hl, hx, hnone⟩
    cases front with
    | nil =>
      obtain ⟨rfl, -⟩ := List.cons.inj hl
      exact .inl hx
    | cons y front =>
      obtain ⟨rfl, hrest⟩ := List.cons.inj hl
      rw [valuesOf_cons, List.append_eq_nil_iff] at hnone
      exact .inr ⟨hnone.1, front, x, back, hrest, hx, hnone.2⟩
  · rintro (hnull | ⟨hfirst, front, x, back, rfl, hx, hnone⟩)
    · exact ⟨[], ifa, ifs, rfl, hnull, rfl⟩
    · exact ⟨ifa :: front, x, back, rfl, hx, by rw [valuesOf_cons, hfirst, hnone]; rfl⟩

theorem Picks.tail {ifa : Ifaddr} (h : Picks wanted value (ifa :: ifs) w c) :
    Picks wanted value ifs w c where
  asks x hx := h.asks x (List.mem_cons_of_mem ifa hx)
  copies x hx := h.copies x (List.mem_cons_of_mem ifa hx)
  other x hx := h.other x (List.mem_cons_of_mem ifa hx)

/-- The loop reads a null address, or copies the first value that is wanted. -/
theorem pick_spec (h : Picks wanted value ifs w c) :
    (NullFirst wanted ifs → pick w c ifs = .error .nullPointer) ∧
      (¬ NullFirst wanted ifs →
        pick w c ifs = .ok ((valuesOf wanted value ifs).head?.map Quad.text)) := by
  induction ifs with
  | nil => exact ⟨fun ⟨front, _, _, hl, _⟩ => absurd hl (by simp), fun _ => rfl⟩
  | cons ifa rest ih =>
    obtain ⟨hnull, hok⟩ := ih h.tail
    rw [nullFirst_cons, pick, @valuesOf_cons wanted value rest ifa]
    cases ha : ifa.addr with
    | none => exact ⟨fun _ => rfl, fun hn => absurd (.inl rfl) hn⟩
    | some o =>
      have hipv4 : ifa.ipv4 = o := by rw [Ifaddr.ipv4, ha]; rfl
      simp only [reduceCtorEq, false_or]
      cases o with
      | none =>
        have hnone : ∀ v : Ifaddr → Option Quad, v ifa = none → valuesOf wanted v [ifa] = [] := by
          intro v hv
          rw [valuesOf, List.filterMap_eq_nil_iff]
          intro x hx
          rw [List.mem_singleton.1 (List.mem_filter.1 hx).1, hv]
        rw [hnone _ hipv4, hnone _ (h.other ifa List.mem_cons_self (by rw [ha]; rfl))]
        exact ⟨fun hn => hnull hn.2, fun hn => hok fun hr => hn ⟨rfl, hr⟩⟩
      | some q =>
        have hw := h.asks ifa List.mem_cons_self q ha
        by_cases hp : wanted ifa = true
        · obtain ⟨v, hv, hc⟩ := h.copies ifa List.mem_cons_self q ha hp
          have hvalue : ∀ (f : Ifaddr → Option Quad) (r : Quad), f ifa = some r →
              valuesOf wanted f [ifa] = [r] := fun f r hf => by
            rw [valuesOf, List.filter_cons_of_pos hp, List.filter_nil, List.filterMap_cons_some hf,
              List.filterMap_nil]
          rw [hvalue _ q hipv4, hvalue _ v hv]
          refine ⟨fun hn => absurd hn.1 (List.cons_ne_nil _ _), fun _ => ?_⟩
          simp only [hw, hp, hc, copyAddr_eq, bind, Except.bind, if_true]
          rfl
        · have hskip : ∀ f : Ifaddr → Option Quad, valuesOf wanted f [ifa] = [] := fun f => by
            rw [valuesOf, List.filter_cons_of_neg hp, List.filter_nil, List.filterMap_nil]
          rw [hskip, hskip]
          simp only [hw, Bool.eq_false_iff.2 hp, bind, Except.bind, Bool.false_eq_true, if_false,
            true_and, List.nil_append]
          exact ⟨hnull, hok⟩

/-- A null address that a second loop meets has been met by a first that found nothing. -/
theorem nullFirst_of_none {other : Ifaddr → Bool} (hnone : valuesOf wanted Ifaddr.ipv4 ifs = [])
    (h : NullFirst other ifs) : NullFirst wanted ifs := by
  obtain ⟨front, ifa, back, rfl, ha, -⟩ := h
  refine ⟨front, ifa, back, rfl, ha, ?_⟩
  rw [valuesOf, List.filter_append, List.filterMap_append, List.append_eq_nil_iff] at hnone
  exact hnone.1

theorem picks_outer : Picks outer Ifaddr.ipv4 ifs
    (fun ifa addr => pure (decide (ifa.name ≠ lo) && decide (addr.text.length ≥ 7)))
    (fun _ addr => pure addr) where
  asks ifa _ q _ := by
    -- every dotted text has seven characters, that of `0.0.0.0` too
    rw [decide_eq_true (text_length q).1, Bool.and_true]
    rfl
  copies ifa _ q ha _ := ⟨q, by rw [Ifaddr.ipv4, ha]; rfl, rfl⟩
  other _ _ ha := ha

theorem picks_loopback : Picks loopback Ifaddr.ipv4 ifs (fun ifa _ => pure (decide (ifa.name = lo)))
    (fun _ addr => pure addr) where
  asks _ _ _ _ := rfl
  copies ifa _ q ha _ := ⟨q, by rw [Ifaddr.ipv4, ha]; rfl, rfl⟩
  other _ _ ha := ha

theorem getLocalIpv4Addr_spec :
    (NullFirst outer ifs → getLocalIpv4Addr (some ifs) = .error .nullPointer) ∧
      (¬ NullFirst outer ifs →
        getLocalIpv4Addr (some ifs) = .ok (0, (localAddr ifs).map Quad.text)) := by
  obtain ⟨hnull, hok⟩ := pick_spec (@picks_outer ifs)
  refine ⟨fun hn => ?_, fun hn => ?_⟩
  · rw [getLocalIpv4Addr, hnull hn]
    rfl
  · rw [getLocalIpv4Addr, hok hn, localAddr]
    cases hv : valuesOf outer Ifaddr.ipv4 ifs with
    | nil =>
      have hsecond := (pick_spec (@picks_loopback ifs)).2 fun hl => hn (nullFirst_of_none hv hl)
      change (pick _ _ ifs >>= _) = _
      rw [hsecond]
      rfl
    | cons q qs => rfl

variable (full : ∀ ifa ∈ ifs, ifa.ipv4 ≠ none → ifa.netmask ≠ none ∧ ifa.broadaddr ≠ none)

include full in
theorem picks_broadcast {w : Ifaddr → Quad → Except Fault Bool}
    (asks : ∀ ifa q, ifa.netmask ≠ none → w ifa q = .ok (wanted ifa)) :
    Picks wanted Ifaddr.broadcast ifs w (fun ifa _ => deref ifa.broadaddr) where
  asks ifa hm q ha := by
    have hipv4 : ifa.ipv4 ≠ none := by rw [Ifaddr.ipv4, ha]; exact Option.some_ne_none q
    exact asks ifa q (full ifa hm hipv4).1
  copies ifa hm q ha _ := by
    have hipv4 : ifa.ipv4 = some q := by rw [Ifaddr.ipv4, ha]; rfl
    obtain ⟨b, hb⟩ := Option.ne_none_iff_exists'.1
      (full ifa hm (by rw [hipv4]; exact Option.some_ne_none q)).2
    exact ⟨b, by rw [Ifaddr.broadcast, hipv4, hb]; rfl, by rw [hb]; rfl⟩
  other ifa _ ha := by
    rw [Ifaddr.broadcast, Ifaddr.ipv4, ha]
    rfl

include full in
theorem broadcast_nil (h : valuesOf wanted Ifaddr.broadcast ifs = []) :
    valuesOf wanted Ifaddr.ipv4 ifs = [] := by
  rw [valuesOf, List.filterMap_eq_nil_iff] at h ⊢
  intro ifa hm
  by_contra hipv4
  obtain ⟨q, hq⟩ := Option.ne_none_iff_exists'.1 hipv4
  obtain ⟨b, hb⟩ := Option.ne_none_iff_exists'.1 (full ifa (List.mem_filter.1 hm).1 hipv4).2
  have hnone := h ifa hm
  rw [Ifaddr.broadcast, hq, hb] at hnone
  cases hnone

include full in
theorem getLocalIpv4BroadcastAddr_spec :
    (NullFirst masked24 ifs → getLocalIpv4BroadcastAddr (some ifs) = .error .nullPointer) ∧
      (¬ NullFirst masked24 ifs → getLocalIpv4BroadcastAddr (some ifs) =
        .ok (0, (localBroadcast ifs).map Quad.text)) := by
  have hfirst : Picks masked24 Ifaddr.broadcast ifs (fun ifa _ => do
      let netmask ← deref ifa.netmask
      pure (decide (netmask.text = netmask24))) (fun ifa _ => deref ifa.broadaddr) := by
    refine picks_broadcast full fun ifa q hm => ?_
    obtain ⟨m, hm⟩ := Option.ne_none_iff_exists'.1 hm
    rw [masked24, hm, Option.map_some]
    simp only [Option.some.injEq]
    rfl
  obtain ⟨hnull, hok⟩ := pick_spec hfirst
  refine ⟨fun hn => ?_, fun hn => ?_⟩
  · rw [getLocalIpv4BroadcastAddr, hnull hn]
    rfl
  · rw [getLocalIpv4BroadcastAddr, hok hn, localBroadcast]
    cases hv : valuesOf masked24 Ifaddr.broadcast ifs with
    | nil =>
      have hpicks : Picks loopback Ifaddr.broadcast ifs (fun ifa _ => pure (decide (ifa.name = lo)))
          (fun ifa _ => deref ifa.broadaddr) := picks_broadcast full fun _ _ _ => rfl
      have hsecond := (pick_spec hpicks).2 fun hl =>
        hn (nullFirst_of_none (broadcast_nil full hv) hl)
      change (pick _ _ ifs >>= _) = _
      rw [hsecond]
      rfl
    | cons q qs => rfl

end Loops

section Sweeps
variable {inetAddr : List UInt8 → Quad}

def code (finish : Bool) : ℤ := if finish then -1 else 0

/-- The text of a network and a number fit the buffer. -/
theorem prepareSubAddr_eq {client : UdpClient} {cursor : Cursor} (hs : client.subIp = cursor.subIP)
    (hle : cursor.subIP ≤ lastHost) (hip : client.ip.length ≤ 12) :
    prepareSubAddr inetAddr client = .ok (code (cursor.prepare lastHost).1,
      { client with
        addrto := ⟨inetAddr (client.ip ++ decimal cursor.subIP), client.addrto.port⟩
        subIp := (cursor.prepare lastHost).2.subIP }) := by
  have hnumber : cursor.subIP < 256 := Nat.lt_of_le_of_lt hle (by decide)
  have hfits : (client.ip ++ decimal cursor.subIP).length < localAddrBufLen := by
    have hdigits := (byteNumber_length hnumber).2
    rw [List.length_append, localAddrBufLen]
    omega
  simp only [prepareSubAddr, hs, if_pos hfits, Cursor.prepare]
  by_cases hlt : cursor.subIP < lastHost
  · simp only [if_pos hlt, code, Bool.false_eq_true, if_false]
  · simp only [if_neg hlt, code, if_true]

/-- A client runs with the cursor of a sweep. -/
theorem targets_eq {client : UdpClient} {cursor : Cursor} (hs : client.subIp = cursor.subIP)
    (hle : cursor.subIP ≤ lastHost) (hip : client.ip.length ≤ 12) (ops : List CursorOp) :
    targets inetAddr client ops = .ok ((cursor.targets lastHost ops).map fun t =>
      (code t.1, ⟨inetAddr (client.ip ++ decimal t.2), client.addrto.port⟩)) := by
  induction ops generalizing client cursor with
  | nil => rfl
  | cons op ops ih =>
    cases op with
    | reset =>
      exact @ih (resetSubAddr client) cursor.reset rfl (show 1 ≤ lastHost by decide) hip
    | prepare =>
      obtain ⟨hnext, hdst⟩ := prepare_spec hle
      rw [targets, prepareSubAddr_eq hs hle hip, Cursor.targets, List.map_cons, hdst]
      have hrest := @ih ⟨⟨inetAddr (client.ip ++ decimal cursor.subIP), client.addrto.port⟩, client.ip,
        client.isBroadcast, (cursor.prepare lastHost).2.subIP⟩ (cursor.prepare lastHost).2 rfl hnext hip
      exact bind_eq_ok.2 ⟨_, rfl, bind_eq_ok.2 ⟨_, hrest, rfl⟩⟩

end Sweeps

section Callers
variable {cj : CProtocal.CJson} {s u : CSweep.State}

/-- The thread is where the cursor says, if there is one. -/
def Places (s : CSweep.State) : Prop := ∀ w, s.task = some w → Placed lastHost s.cursor w

theorem Places.kept (h : Places s) (hc : u.cursor = s.cursor)
    (ht : u.task = s.task ∨ u.task = none ∨ u.task = some .fresh) : Places u := by
  intro w hw
  rcases ht with ht | ht | ht
  · exact hc ▸ h w (ht.symm.trans hw)
  · rw [ht] at hw
    cases hw
  · rw [ht] at hw
    obtain rfl := Option.some.inj hw
    exact fresh_placed

theorem step_places {a : CSweep.Act} (h : Places s) (hu : CSweep.step cj s a = some u) :
    Places u := by
  obtain ⟨-, hcases⟩ := CSweep.step_cases hu
  obtain ⟨ok, -, -, rfl⟩ | ⟨ok, -, -, rfl⟩ | ⟨ok, -, -, rfl⟩ | ⟨ok, -, -, rfl⟩ |
    ⟨recPkt, -, -, rfl⟩ | ⟨-, -, hu⟩ | ⟨-, -, rfl⟩ | ⟨-, -, rfl⟩ | ⟨-, hu⟩ := hcases
  · unfold CSweep.initClient
    split_ifs <;> exact h.kept rfl (.inl rfl)
  · unfold CSweep.getPkt
    split
    · exact h.kept rfl (.inl rfl)
    · split_ifs <;> exact h.kept rfl (.inl rfl)
  · unfold CSweep.write
    split_ifs
    · exact h.kept rfl (.inl rfl)
    · exact h.kept rfl (.inr (.inr rfl))
    · exact h.kept rfl (.inl rfl)
  · unfold CSweep.getRecPkt
    split_ifs <;> exact h.kept rfl (.inl rfl)
  · obtain ⟨_, _, _, _, _, he, -⟩ := CSweep.read_eq cj s recPkt
    rw [he]
    exact h.kept rfl (.inl rfl)
  · unfold CSweep.join at hu
    split_ifs at hu
    · split at hu
      · obtain rfl := Option.some.inj hu
        exact h.kept rfl (.inl rfl)
      · cases hu
    · obtain rfl := Option.some.inj hu
      exact h.kept rfl (.inl rfl)
    · obtain rfl := Option.some.inj hu
      exact h.kept rfl (.inl rfl)
  · exact h.kept rfl (.inl rfl)
  · exact h.kept rfl (.inl rfl)
  · obtain ⟨w, hw, ⟨-, rfl⟩ | ⟨-, -, rfl⟩ | ⟨-, -, rfl⟩⟩ := CSweep.task_cases hu
    · exact h.kept rfl (.inr (.inl rfl))
    · exact h.kept rfl (.inl rfl)
    · rintro v hv
      obtain rfl := Option.some.inj hv
      exact step_placed (by decide) (h w hw)

theorem run_places {call : CSweep.Call} {acts : List CSweep.Act}
    (h : Runs (CSweep.step cj) (fun _ _ => True) (CSweep.init call) acts s) : Places s :=
  h.invariant Places (fun _ hw => absurd hw (Option.some_ne_none _).symm)
    fun _ _ _ hs _ hu => step_places hs hu

end Callers

section Clients
variable {inetAddr : List UInt8 → Quad} {ifs : List Ifaddr}

/-- The client that a sweep starts with. -/
def sweepClient (ifs : List Ifaddr) : UdpClient :=
  ⟨⟨⟨0, 0, 0, 0⟩, port⟩, ((localAddr ifs).map Quad.network).getD [], false, 0⟩

theorem initUdpClient_sweep (broadcastOpt : Bool) :
    (NullFirst outer ifs →
      initUdpClient inetAddr true broadcastOpt (some ifs) false = .error .nullPointer) ∧
    (¬ NullFirst outer ifs →
      initUdpClient inetAddr true broadcastOpt (some ifs) false = .ok (some (sweepClient ifs))) := by
  obtain ⟨hnull, hok⟩ := @getLocalIpv4Addr_spec ifs
  constructor
  · intro hn
    simp only [initUdpClient, if_true, Bool.false_eq_true, if_false, hnull hn]
    rfl
  · intro hn
    simp only [initUdpClient, if_true, Bool.false_eq_true, if_false, hok hn, sweepClient]
    cases localAddr ifs with
    | none => rfl
    | some q =>
      simp only [Option.map_some, Option.getD_some, uptoLast_text, bind, Except.bind]
      rfl

theorem targets_host (canonical : ∀ q : Quad, inetAddr q.text = q) {q : Quad}
    (hq : localAddr ifs = some q) (ops : List CursorOp) :
    targets inetAddr (sweepClient ifs) ops =
      .ok (((⟨0, 0⟩ : Cursor).targets lastHost ops).map fun t => (code t.1, ⟨q.host t.2, port⟩)) := by
  have hlen : q.network.length ≤ 12 := (network_length q).2
  rw [sweepClient, hq]
  refine (@targets_eq inetAddr _ ⟨0, 0⟩ rfl (Nat.zero_le _) hlen ops).trans ?_
  refine congrArg Except.ok (List.map_congr_left fun t ht => ?_)
  have hle : t.2 ≤ lastHost := targets_le (by decide) (Nat.zero_le _) ops t ht
  have hhost := host_text q (Nat.lt_of_le_of_lt hle (by decide))
  have haddr := (congrArg inetAddr hhost.symm).trans (canonical _)
  exact congrArg (fun a => (code t.1, (⟨a, port⟩ : Endpoint))) haddr

theorem targets_unfound (hq : localAddr ifs = none) (ops : List CursorOp) :
    targets inetAddr (sweepClient ifs) ops =
      .ok (((⟨0, 0⟩ : Cursor).targets lastHost ops).map fun t =>
        (code t.1, ⟨inetAddr (decimal t.2), port⟩)) := by
  rw [sweepClient, hq]
  exact @targets_eq inetAddr _ ⟨0, 0⟩ rfl (Nat.zero_le _) (Nat.zero_le _) ops

end Clients

/-- A client for a sweep is given the first address of an interface other than `lo`, of
whatever value, and only then that of `lo`; and the calls of a sweep go through the hosts
of that address's last byte, within their buffers. -/
theorem sweep_addresses (inetAddr : List UInt8 → Quad) (canonical : ∀ q : Quad, inetAddr q.text = q)
    (ifs : List Ifaddr) (broadcastOpt : Bool) :
    (NullFirst outer ifs →
      initUdpClient inetAddr true broadcastOpt (some ifs) false = .error .nullPointer) ∧
    (¬ NullFirst outer ifs → ∃ client,
      initUdpClient inetAddr true broadcastOpt (some ifs) false = .ok (some client) ∧
      (∀ q, localAddr ifs = some q → ∀ ops, targets inetAddr client ops =
        .ok (((⟨0, 0⟩ : Cursor).targets lastHost ops).map fun t =>
          (code t.1, ⟨q.host t.2, port⟩))) ∧
      (localAddr ifs = none → ∀ ops, targets inetAddr client ops =
        .ok (((⟨0, 0⟩ : Cursor).targets lastHost ops).map fun t =>
          (code t.1, ⟨inetAddr (decimal t.2), port⟩)))) := by
  obtain ⟨hnull, hok⟩ := @initUdpClient_sweep inetAddr ifs broadcastOpt
  exact ⟨hnull, fun hn => ⟨_, hok hn, fun q hq ops => targets_host canonical hq ops,
    fun hq ops => targets_unfound hq ops⟩⟩

/-- Along every run of the callers, the thread of a call has sent to the addresses that the
calls of its sweep prepare, in their order: one after the other, from host 1 on, and none
twice. -/
theorem sweep_sends (cj : CProtocal.CJson) (inetAddr : List UInt8 → Quad)
    (canonical : ∀ q : Quad, inetAddr q.text = q) {ifs : List Ifaddr} {broadcastOpt : Bool}
    {client : UdpClient} {q : Quad} {call : CSweep.Call} {acts : List CSweep.Act}
    {s : CSweep.State} {w : Sweep}
    (created : initUdpClient inetAddr true broadcastOpt (some ifs) false = .ok (some client))
    (found : localAddr ifs = some q)
    (run : Runs (CSweep.step cj) (fun _ _ => True) (CSweep.init call) acts s)
    (thread : s.task = some w) :
    (∃ prepared, targets inetAddr client (.reset :: List.replicate w.sent.length .prepare) =
        .ok prepared ∧ prepared.map Prod.snd = w.sent.map fun n => ⟨q.host n, port⟩) ∧
      w.sent.map q.host = (hosts w.sent.length).map q.host ∧ (w.sent.map q.host).Nodup ∧
      w.sent.length ≤ lastHost := by
  obtain ⟨hle, hsent⟩ := (run_places run w thread).ordered
  obtain ⟨hnull, hok⟩ := @initUdpClient_sweep inetAddr ifs broadcastOpt
  have hn : ¬ NullFirst outer ifs := fun hn => by
    rw [hnull hn] at created
    cases created
  obtain rfl := Option.some.inj (Except.ok.inj (created.symm.trans (hok hn)))
  refine ⟨⟨_, targets_host canonical found _, ?_⟩, congrArg (List.map q.host) hsent, ?_, hle⟩
  · rw [List.map_map]
    change (((⟨1, 0⟩ : Cursor).targets lastHost (List.replicate w.sent.length .prepare)).map
      fun t => (⟨q.host t.2, port⟩ : Endpoint)) = w.sent.map fun n => ⟨q.host n, port⟩
    rw [targets_prepares _ (by decide), List.map_map, hsent, hosts_length, hosts,
      List.range'_eq_map_range, List.map_map]
    refine List.map_congr_left fun i hi => ?_
    have hlt := List.mem_range.1 hi
    have hmin : min (1 + i) lastHost = 1 + i := Nat.min_eq_left (by omega)
    exact congrArg (fun n => (⟨q.host n, port⟩ : Endpoint)) hmin
  · refine List.Nodup.map_on (fun m hm n hn => ?_) (hsent ▸ List.nodup_range')
    have hbyte : ∀ k ∈ w.sent, k < 256 := fun k hk => by
      rw [hsent, hosts, List.mem_range'_1] at hk
      have hmax : lastHost = 254 := rfl
      omega
    exact host_injective q (hbyte m hm) (hbyte n hn)

/-- A client for broadcasts is given the broadcast address of the first interface with the
netmask of 24 bits, or else that of `lo`; where there is neither, it is made from a buffer
that nothing was written to. -/
theorem broadcast_address (inetAddr : List UInt8 → Quad) (canonical : ∀ q : Quad, inetAddr q.text = q)
    {ifs : List Ifaddr}
    (full : ∀ ifa ∈ ifs, ifa.ipv4 ≠ none → ifa.netmask ≠ none ∧ ifa.broadaddr ≠ none) :
    (NullFirst masked24 ifs →
      initUdpClient inetAddr true true (some ifs) true = .error .nullPointer) ∧
    (¬ NullFirst masked24 ifs →
      (∀ b, localBroadcast ifs = some b → initUdpClient inetAddr true true (some ifs) true =
        .ok (some ⟨⟨b, port⟩, [], true, 0⟩)) ∧
      (localBroadcast ifs = none →
        initUdpClient inetAddr true true (some ifs) true = .error .uninitialized)) ∧
    initUdpClient inetAddr true true none true = .error .uninitialized := by
  obtain ⟨hnull, hok⟩ := getLocalIpv4BroadcastAddr_spec full
  refine ⟨fun hn => ?_, fun hn => ⟨fun b hb => ?_, fun hb => ?_⟩, rfl⟩
  · simp only [initUdpClient, if_true, hnull hn]
    rfl
  · simp only [initUdpClient, if_true, hok hn, hb, Option.map_some, bind, Except.bind, canonical]
    rfl
  · simp only [initUdpClient, if_true, hok hn, hb, Option.map_none, bind, Except.bind]

section Examples

def wlan : Quad := ⟨192, 168, 1, 116⟩

/-- The loopback, an interface without an IPv4 address, and one of a network of 24 bits. -/
def wlanIfs : List Ifaddr :=
  [⟨lo, some (some ⟨127, 0, 0, 1⟩), some ⟨255, 0, 0, 0⟩, some ⟨127, 0, 0, 1⟩⟩,
    ⟨ascii "eth0", some none, none, none⟩,
    ⟨ascii "wlan0", some (some wlan), some ⟨255, 255, 255, 0⟩, some (wlan.host 255)⟩]

def readAddr (text : List UInt8) : Quad := (readQuad text).getD ⟨255, 255, 255, 255⟩

theorem readAddr_text (q : Quad) : readAddr q.text = q := by
  rw [readAddr, readQuad_text, Option.getD_some]

theorem wlanIfs_local : localAddr wlanIfs = some wlan := by decide

theorem wlanIfs_sound (wanted : Ifaddr → Bool) : ¬ NullFirst wanted wlanIfs := by
  rintro ⟨front, ifa, back, hl, ha, -⟩
  have hmem : ifa ∈ wlanIfs := hl ▸ List.mem_append_right _ List.mem_cons_self
  have hall : ∀ i ∈ wlanIfs, i.addr ≠ none := by decide
  exact hall ifa hmem ha

theorem sweep_addresses_wlan : ∃ client,
    initUdpClient readAddr true true (some wlanIfs) false = .ok (some client) ∧
    ∀ ops, targets readAddr client ops =
      .ok (((⟨0, 0⟩ : Cursor).targets lastHost ops).map fun t =>
        (code t.1, ⟨wlan.host t.2, port⟩)) := by
  obtain ⟨client, hc, hfound, -⟩ := (sweep_addresses readAddr readAddr_text wlanIfs true).2
    (wlanIfs_sound outer)
  exact ⟨client, hc, hfound wlan wlanIfs_local⟩

/-- The thread has sent once. -/
def onceActs : List CSweep.Act :=
  [.initClient true, .getPkt true, .write true, .task, .task, .task, .task]

theorem run_once : ∃ s, Runs (CSweep.step CJsonText.textCJson) (fun _ _ => True)
    (CSweep.init (.inquiryService (some CRoundTrip.box.str))) onceActs s ∧
      s.task = some ⟨.check, [1]⟩ := by
  obtain ⟨data, hd⟩ := CSweep.getInquiryPkt_text CJsonText.textCJson_documented CRoundTrip.box
  have hget := CSweep.getPkt_built (.inquiryService (some CRoundTrip.box.str)) hd
  refine ⟨{ CSweep.init (.inquiryService (some CRoundTrip.box.str)) with
    pc := .getRecPkt, client := .allocated, pkt := .allocated, data := data, cursor := ⟨2, 1⟩
    created := true, task := some ⟨.check, [1]⟩ }, ?_, rfl⟩
  refine .next trivial rfl (.next trivial hget ?_)
  refine .next trivial rfl ?_
  refine .next trivial rfl ?_
  refine .next trivial rfl ?_
  refine .next trivial rfl ?_
  exact .next trivial rfl (.refl _)

theorem sweep_sends_wlan : ∃ client s,
    initUdpClient readAddr true true (some wlanIfs) false = .ok (some client) ∧
    Runs (CSweep.step CJsonText.textCJson) (fun _ _ => True)
      (CSweep.init (.inquiryService (some CRoundTrip.box.str))) onceActs s ∧
    ∃ prepared, targets readAddr client [.reset, .prepare] = .ok prepared ∧
      prepared.map Prod.snd = [⟨wlan.host 1, port⟩] := by
  have created := (@initUdpClient_sweep readAddr wlanIfs true).2 (wlanIfs_sound outer)
  obtain ⟨s, run, thread⟩ := run_once
  exact ⟨_, s, created, run, (sweep_sends CJsonText.textCJson readAddr readAddr_text created
    wlanIfs_local run thread).1⟩

theorem broadcast_address_wlan :
    initUdpClient readAddr true true (some wlanIfs) true =
      .ok (some ⟨⟨wlan.host 255, port⟩, [], true, 0⟩) := by
  have full : ∀ ifa ∈ wlanIfs, ifa.ipv4 ≠ none → ifa.netmask ≠ none ∧ ifa.broadaddr ≠ none := by
    decide
  exact ((broadcast_address readAddr readAddr_text full).2.1 (wlanIfs_sound masked24)).1 _ (by decide)

end Examples

end MiniServiceDiscover.CAddress
