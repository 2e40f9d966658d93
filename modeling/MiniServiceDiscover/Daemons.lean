import MiniServiceDiscover.CHistory
import MiniServiceDiscover.Interop

set_option autoImplicit false

/-! What the component is for: one registry of services, kept by whichever daemon is on the
net, and found by whoever asks. The three daemons against it. -/
namespace MiniServiceDiscover.Daemons
open KeyedList UnicodeText WordSum WireFormat ServiceWire Interop CProtocal JavaDaemon JavaProtocal

section Registry

def key (s : Service) : Str × Str := (s.device, s.name)

/-- What a packet that has been heard asks of the registry, if it asks for anything. -/
def asked : Option (Action × Service) → Change Service (Str × Str)
  | some (.registerService, s) => .put s
  | some (.unregisterService, s) => .drop (key s)
  | _ => .keep

/-- The services in force, the oldest first. -/
def registry (requests : List (Option (Action × Service))) : List Service :=
  replayBack key (requests.map asked)

def named (name : Str) (s : Service) : Bool := decide (s.name = name)

end Registry

section Packets
variable (cj : CJson) (oj : OrgJson)

/-- The daemon takes the packet neither for a registration nor for the opposite. -/
def Ignores (pkt : List UInt8) : Program → Prop
  | .c => ∀ info, ¬ CHistory.Registers cj pkt info ∧ ¬ CHistory.Unregisters cj pkt info
  | .go => ∀ info, ¬ GoHistory.Requests .registerService pkt info ∧
      ¬ GoHistory.Requests .unregisterService pkt info
  | .java => ∀ info, ¬ JavaHistory.Registers oj (signed pkt) info ∧
      ¬ JavaHistory.Unregisters oj (signed pkt) info

/-- A packet on the net: of one of the programs, whose sum has the same value with signed
bytes as with unsigned ones, or one that nobody takes. -/
inductive Heard : List UInt8 → Option (Action × Service) → Prop where
  | sent (p : Program) {action : Action} {s : Service} {pkt : List UInt8}
      (h : p.Encodes cj oj action s pkt) (room : (0 : UInt8) ∈ payload pkt)
      (plain : highCount (payload pkt) % 256 = 0) : Heard pkt (some (action, s))
  | ignored {pkt : List UInt8} (length : pkt.length = packetLen)
      (h : ∀ q, Ignores cj oj pkt q) : Heard pkt none

end Packets

section Changes
variable {cj : CJson} {oj : OrgJson} {pkt : List UInt8} {request : Option (Action × Service)}

theorem Heard.reads (json : ReadJson cj oj) {action : Action} {s : Service}
    (h : Heard cj oj pkt (some (action, s))) (q : Program) : q.Reads cj oj action s pkt := by
  cases h with
  | sent p h room plain => exact (encodes_reads json q h room).2 (.inr plain)

theorem Heard.length (json : ReadJson cj oj) (h : Heard cj oj pkt request) :
    pkt.length = packetLen := by
  cases h with
  | sent p h room _ =>
    obtain ⟨text, hcarries⟩ := encodes_carries json h room
    exact hcarries.pkt_length
  | ignored length _ => exact length

def cKey (k : Str × Str) : CharPtr × CharPtr := (some (CWire.cString k.1), some (CWire.cString k.2))

def goKey (k : Str × Str) : GoProvider.Key := (k.1.bytes, k.2.bytes)

def javaKey (k : Str × Str) : JavaProvider.StringRef × JavaProvider.StringRef :=
  (some (JavaWire.javaString k.1), some (JavaWire.javaString k.2))

theorem cKey_injective : Function.Injective cKey := by
  intro a b h
  obtain ⟨h1, h2⟩ := Prod.mk.inj h
  exact Prod.ext (CWire.cString_injective (Option.some.inj h1))
    (CWire.cString_injective (Option.some.inj h2))

theorem goKey_injective : Function.Injective goKey := by
  intro a b h
  obtain ⟨h1, h2⟩ := Prod.mk.inj h
  exact Prod.ext (Str.bytes_injective h1) (Str.bytes_injective h2)

theorem javaKey_injective : Function.Injective javaKey := by
  intro a b h
  obtain ⟨h1, h2⟩ := Prod.mk.inj h
  exact Prod.ext (JavaWire.javaString_injective (Option.some.inj h1))
    (JavaWire.javaString_injective (Option.some.inj h2))

/-- A packet that is taken for one action is taken for no other. -/
theorem changeOf_taken {α κ β : Type} (R : β → Action → α → Prop)
    (unique : ∀ x a b v w, R x a v → R x b w → a = b ∧ v = w) {k : α → κ} {f : Service → α}
    {g : Str × Str → κ} (keys : ∀ s, k (f s) = g (key s)) {x : β} {action : Action} {s : Service}
    (h : R x action (f s)) :
    changeOf k (fun x v => R x .registerService v) (fun x v => R x .unregisterService v) x =
      (asked (some (action, s))).map f g := by
  have exclusive : Exclusive (fun x v => R x .registerService v)
      (fun x v => R x .unregisterService v) :=
    ⟨fun x v w hv hw => (unique x _ _ v w hv hw).2, fun x v w hv hw => (unique x _ _ v w hv hw).2,
      fun x v w hv hw => (nomatch (unique x _ _ v w hv hw).1)⟩
  cases action with
  | registerService => exact changeOf_put k exclusive h
  | unregisterService =>
    rw [changeOf_drop k exclusive h, keys]
    rfl
  | inquiry =>
    exact changeOf_keep k (fun w hw => (nomatch (unique x _ _ _ w h hw).1))
      fun w hw => (nomatch (unique x _ _ _ w h hw).1)
  | actionSucc =>
    exact changeOf_keep k (fun w hw => (nomatch (unique x _ _ _ w h hw).1))
      fun w hw => (nomatch (unique x _ _ _ w h hw).1)
  | actionFail =>
    exact changeOf_keep k (fun w hw => (nomatch (unique x _ _ _ w h hw).1))
      fun w hw => (nomatch (unique x _ _ _ w h hw).1)

theorem c_change (json : ReadJson cj oj) (h : Heard cj oj pkt request) :
    CHistory.change cj pkt = (asked request).map CWire.infoOf cKey := by
  cases request with
  | none =>
    cases h with
    | ignored _ hi => exact changeOf_keep _ (fun v => (hi .c v).1) fun v => (hi .c v).2
  | some r =>
    have hreads : CRegistry.Requests cj pkt r.1 (CWire.infoOf r.2) := h.reads json .c
    exact changeOf_taken (CRegistry.Requests cj) (fun _ _ _ _ _ => CHistory.requests_unique)
      (fun _ => rfl) hreads

theorem java_change (json : ReadJson cj oj) (h : Heard cj oj pkt request) :
    JavaHistory.change oj (signed pkt) = (asked request).map JavaWire.infoOf javaKey := by
  cases request with
  | none =>
    cases h with
    | ignored _ hi => exact changeOf_keep _ (fun v => (hi .java v).1) fun v => (hi .java v).2
  | some r =>
    have hreads : JavaHistory.Requests oj (signed pkt) r.1 (JavaWire.infoOf r.2) :=
      h.reads json .java
    exact changeOf_taken (JavaHistory.Requests oj) (fun _ _ _ _ _ => JavaHistory.requests_unique)
      (fun _ => rfl) hreads

theorem go_requests_unique {data : List UInt8} {a b : Action} {i j : GoJson.ServiceInfo}
    (h : GoHistory.Requests a data i) (h' : GoHistory.Requests b data j) : a = b ∧ i = j := by
  obtain ⟨head, hd, ha⟩ := h
  obtain ⟨head', hd', hb⟩ := h'
  obtain ⟨rfl, rfl⟩ := Prod.mk.inj (Option.some.inj (Except.ok.inj (hd.symm.trans hd')))
  exact ⟨Action.code_injective (ha.symm.trans hb), rfl⟩

theorem go_change (json : ReadJson cj oj) (h : Heard cj oj pkt request) :
    GoHistory.changeOf pkt = (asked request).map GoWire.infoOf goKey := by
  have hkeep : (∀ v, ¬ GoHistory.Requests .registerService pkt v) →
      (∀ v, ¬ GoHistory.Requests .unregisterService pkt v) → GoHistory.changeOf pkt = .keep := by
    intro hr hu
    rcases GoHistory.changeOf_cases pkt with ⟨v, hv, -⟩ | ⟨v, hv, -⟩ | ⟨hc, -⟩
    · exact absurd hv (hr v)
    · exact absurd hv (hu v)
    · exact hc
  cases request with
  | none =>
    cases h with
    | ignored _ hi => exact hkeep (fun v => (hi .go v).1) fun v => (hi .go v).2
  | some r =>
    obtain ⟨action, s⟩ := r
    have hreads : GoHistory.Requests action pkt (GoWire.infoOf s) := h.reads json .go
    cases action with
    | registerService => exact GoHistory.changeOf_register hreads
    | unregisterService => exact GoHistory.changeOf_unregister hreads
    | inquiry =>
      exact hkeep (fun v hv => (nomatch (go_requests_unique hreads hv).1))
        fun v hv => (nomatch (go_requests_unique hreads hv).1)
    | actionSucc =>
      exact hkeep (fun v hv => (nomatch (go_requests_unique hreads hv).1))
        fun v hv => (nomatch (go_requests_unique hreads hv).1)
    | actionFail =>
      exact hkeep (fun v hv => (nomatch (go_requests_unique hreads hv).1))
        fun v hv => (nomatch (go_requests_unique hreads hv).1)

end Changes

section Histories
variable {cj : CJson} {oj : OrgJson} {pkts : List (List UInt8)}
  {requests : List (Option (Action × Service))}

theorem map_changes {γ : Type} {change : List UInt8 → γ} {f : Option (Action × Service) → γ}
    (each : ∀ pkt request, Heard cj oj pkt request → change pkt = f request)
    (h : List.Forall₂ (Heard cj oj) pkts requests) : pkts.map change = requests.map f := by
  induction h with
  | nil => rfl
  | cons hp _ ih => rw [List.map_cons, List.map_cons, each _ _ hp, ih]

/-- The registry in the form of one of the daemons. -/
theorem registry_map {α κ : Type} [DecidableEq κ] (k : α → κ) (f : Service → α) {g : Str × Str → κ}
    (injective : Function.Injective g) (keys : ∀ s, k (f s) = g (key s)) :
    replayBack k (requests.map fun r => (asked r).map f g) = (registry requests).map f := by
  rw [registry, ← replayBack_map injective keys, List.map_map]
  rfl

theorem c_lists (json : ReadJson cj oj) (h : List.Forall₂ (Heard cj oj) pkts requests) {fuel : ℕ}
    {l : CList.ServiceInfoList} (hr : CRegistry.serves cj fuel pkts = .ok l) :
    CHistory.Lists l ((registry requests).map CWire.infoOf) := by
  have hlists := CHistory.serves_lists hr
  rw [map_changes (fun _ _ => c_change json) h,
    registry_map CListRefinement.nameKey CWire.infoOf cKey_injective fun _ => rfl] at hlists
  exact hlists

/-- The daemon that puts new services in front holds the same ones the other way round. -/
theorem go_provider (json : ReadJson cj oj) (h : List.Forall₂ (Heard cj oj) pkts requests)
    {p : GoProvider.Provider} (hr : GoHistory.runBuffers pkts = .ok p) :
    p = ((registry requests).map GoWire.infoOf).reverse := by
  have hreplay : replayBack GoProvider.pairOf (pkts.map GoHistory.changeOf) =
      (registry requests).map GoWire.infoOf := by
    rw [map_changes (fun _ _ => go_change json) h]
    exact registry_map GoProvider.pairOf GoWire.infoOf goKey_injective fun _ => rfl
  rw [← hreplay, replayBack_eq_reverse, List.reverse_reverse]
  exact GoHistory.runBuffers_eq_replayFront hr

/-- Every packet on the net fills the whole buffer. -/
theorem buffers_full {b : JavaBytes} (hb : b.length = packetLen)
    (full : ∀ pkt ∈ pkts, pkt.length = packetLen) :
    JavaHistory.buffers b (pkts.map signed) = pkts.map signed := by
  induction pkts generalizing b with
  | nil => rfl
  | cons pkt pkts ih =>
    rw [List.forall_mem_cons] at full
    have hlen : (signed pkt).length = b.length := (signed_length pkt).trans (full.1.trans hb.symm)
    have hreceive : receive (signed pkt) b = signed pkt := by
      rw [JavaReceive.receive_long hlen.ge, ← hlen, List.take_length]
    rw [List.map_cons, JavaHistory.buffers, hreceive, ih (hlen.trans hb) full.2]

theorem heard_full (json : ReadJson cj oj) (h : List.Forall₂ (Heard cj oj) pkts requests) :
    ∀ pkt ∈ pkts, pkt.length = packetLen := by
  induction h with
  | nil => exact fun _ hm => absurd hm List.not_mem_nil
  | cons hp _ ih => exact List.forall_mem_cons.2 ⟨hp.length json, ih⟩

theorem java_provider (json : ReadJson cj oj) (h : List.Forall₂ (Heard cj oj) pkts requests)
    (running : (run oj (pkts.map signed)).running = true) :
    (run oj (pkts.map signed)).provider = (registry requests).map JavaWire.infoOf := by
  have hbuffer : init.buffer.length = packetLen := List.length_replicate
  have hreplay := (JavaHistory.run_history running).2
  have hchanges : (pkts.map signed).map (JavaHistory.change oj) =
      requests.map fun r => (asked r).map JavaWire.infoOf javaKey := by
    rw [List.map_map]
    exact map_changes (fun _ _ => java_change json) h
  rw [buffers_full hbuffer (heard_full json h), hchanges,
    registry_map JavaHistory.infoKey JavaWire.infoOf javaKey_injective fun _ => rfl] at hreplay
  exact hreplay

end Histories

/-- Three daemons that hear the same packets keep the same registry, as long as they run:
the C and the Java daemon in the order of registration, the Go daemon the other way round. -/
theorem registries_agree (cj : CJson) (oj : OrgJson) (json : ReadJson cj oj)
    (pkts : List (List UInt8)) (requests : List (Option (Action × Service)))
    (heard : List.Forall₂ (Heard cj oj) pkts requests) :
    (∀ fuel l, CRegistry.serves cj fuel pkts = .ok l →
      CListRefinement.ReadsAs l ((registry requests).map CWire.infoOf)) ∧
    (∀ p, GoHistory.runBuffers pkts = .ok p →
      p = ((registry requests).map GoWire.infoOf).reverse) ∧
    ((run oj (pkts.map signed)).running = true →
      (run oj (pkts.map signed)).provider = (registry requests).map JavaWire.infoOf) := by
  refine ⟨fun fuel l hl => ?_, fun p hp => go_provider json heard hp, java_provider json heard⟩
  obtain ⟨cells, hshaped, hx⟩ := (c_lists json heard hl).cells
  exact ⟨cells, hshaped.chain, hx⟩

section Examples
open CJsonText JavaUnicodeText

theorem boxMusic_heard : List.Forall₂ (Heard textCJson unicodeJson) [boxMusicRegister]
    [some (.registerService, boxMusic)] :=
  .cons (.sent .go boxMusic_encoded boxMusicRegister_plain.1 boxMusicRegister_plain.2) .nil

theorem registry_boxMusic : registry [some (.registerService, boxMusic)] = [boxMusic] := rfl

theorem boxMusic_alive :
    GoHistory.runBuffers [boxMusicRegister] = .ok [GoWire.infoOf boxMusic] := by
  have hempty : GoHistory.runBuffers [] = .ok GoProvider.getProvider := rfl
  have hreads : GoHistory.Requests .registerService boxMusicRegister (GoWire.infoOf boxMusic) :=
    (encodes_reads textLibraries .go (@boxMusic_encoded textCJson unicodeJson)
      boxMusicRegister_plain.1).2 (.inr boxMusicRegister_plain.2)
  have hrun := GoHistory.runBuffers_snoc hempty boxMusicRegister
  rw [List.nil_append, GoHistory.processData_register hreads] at hrun
  exact hrun

theorem registries_agree_boxMusic :
    (∀ fuel l, CRegistry.serves textCJson fuel [boxMusicRegister] = .ok l →
      CListRefinement.ReadsAs l [CWire.infoOf boxMusic]) ∧
    ((run unicodeJson [signed boxMusicRegister]).running = true →
      (run unicodeJson [signed boxMusicRegister]).provider = [JavaWire.infoOf boxMusic]) := by
  obtain ⟨hc, -, hjava⟩ := registries_agree _ _ textLibraries _ _ boxMusic_heard
  rw [registry_boxMusic] at hc hjava
  exact ⟨hc, hjava⟩

end Examples

end MiniServiceDiscover.Daemons
