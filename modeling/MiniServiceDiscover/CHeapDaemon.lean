import MiniServiceDiscover.CHeapList
import MiniServiceDiscover.CRegistry

set_option autoImplicit false

/-! The C daemon on its heap: it sends and keeps what the daemon with a list of services does,
touches no block that has been freed, and leaves so many behind. -/
namespace MiniServiceDiscover.CHeapDaemon
open CProtocal (CJson CharPtr CString CFault Key Field serviceNoFound)
open PointerChain BlockMemory WireFormat CHeap CHeapList

section Packets
variable {cj : CJson} {m₀ m : Memory Block} {p d : Ptr} {bytes : List UInt8}

structure PktAt (m : Memory Block) (p d : Ptr) (bytes : List UInt8) : Prop where
  pkt : m.block p = some (.pkt ⟨some d, packetLen⟩)
  data : m.block d = some (.data bytes)

theorem PktAt.ne (h : PktAt m p d bytes) : p ≠ d := by
  intro he
  have hpkt := h.pkt
  rw [he, h.data] at hpkt
  cases Option.some.inj hpkt

theorem PktAt.live (h : PktAt m p d bytes) : (m.block d).isSome :=
  Option.isSome_iff_exists.2 ⟨_, h.data⟩

theorem PktAt.read (h : PktAt m p d bytes) :
    (BlockMemory.read Block.pkt? p : CProg ServicePkt) m = .ok (⟨some d, packetLen⟩, m) :=
  read_eq h.pkt rfl

theorem PktAt.pktData (h : PktAt m p d bytes) : pktData p m = .ok (bytes, m) := by
  have hdata : (BlockMemory.read Block.data? d : CProg (List UInt8)) m = .ok (bytes, m) :=
    read_eq h.data rfl
  exact (step_eq h.read).trans hdata

theorem PktAt.setPktData (h : PktAt m p d bytes) (received : List UInt8) :
    setPktData p received m = .ok ((), m.put d (some (.data received)) h.live) :=
  (step_eq h.read).trans (write_eq h.live)

theorem PktAt.put (h : PktAt m p d bytes) (received : List UInt8) :
    PktAt (m.put d (some (.data received)) h.live) p d received :=
  ⟨(put_other _ _ h.ne).trans h.pkt, put_same _ _⟩

/-- A packet that has been allocated, and nothing else. -/
structure NewPkt (m₀ m : Memory Block) (p : Ptr) (bytes : List UInt8) : Prop where
  grows : Grows m₀ m 2
  pkt : ∃ d, PktAt m p d bytes ∧ m₀.top ≤ p ∧ m₀.top ≤ d

theorem getPkt_returns (m : Memory Block) :
    Returns m getPkt fun p m' => NewPkt m m' p (List.replicate packetLen 0) := by
  have hlive : (((m.push (.pkt ⟨none, 0⟩)).push
      (.data (List.replicate packetLen 0))).block m.top).isSome :=
    Option.isSome_iff_exists.2 ⟨_, push_keeps push_top⟩
  have hgrows := (grows_push m (.pkt ⟨none, 0⟩)).trans
    (grows_push (m.push (.pkt ⟨none, 0⟩)) (.data (List.replicate packetLen 0)))
  refine Returns.step (malloc_eq m _) ?_
  refine Returns.step (malloc_eq (m.push _) _) ?_
  refine Returns.step (write_eq hlive) (returns_pure ⟨hgrows.put le_rfl _ hlive,
    m.top + 1, ⟨put_same _ _, ?_⟩, le_rfl, Nat.le_succ _⟩)
  rw [put_other _ _ (Nat.succ_ne_self _)]
  exact push_top (m := m.push (.pkt ⟨none, 0⟩))

theorem PktAt.freePkt (h : PktAt m p d bytes) :
    Returns m (freePkt p) fun _ m' => m'.top = m.top ∧
      (∀ q, q ≠ p → q ≠ d → m'.block q = m.block q) ∧ m'.count + 2 = m.count := by
  have hlive : ((m.put d none h.live).block p).isSome := by
    rw [put_other _ _ h.ne, h.pkt]
    rfl
  refine Returns.step (read_eq h.pkt rfl) (Returns.step (step_eq (free_eq h.live)) ?_)
  refine returns_free hlive ⟨rfl, fun q hp hd => (put_other _ _ hp).trans (put_other _ _ hd), ?_⟩
  rw [← put_none_count h.live, ← put_none_count hlive]

theorem freePkt_returns (h : NewPkt m₀ m p bytes) :
    Returns m (freePkt p) fun _ m' => Grows m₀ m' 0 := by
  obtain ⟨d, hpkt, hp, hd⟩ := h.pkt
  refine hpkt.freePkt.mono fun _ m' hm => ?_
  obtain ⟨htop, hrest, hcount⟩ := hm
  refine ⟨h.grows.top.trans htop.ge, fun q hq => ?_, ?_⟩
  · exact (hrest q (hq.trans_le hp).ne (hq.trans_le hd).ne).trans (h.grows.below q hq)
  · rw [h.grows.count] at hcount
    omega

theorem fillPkt_length {action : UInt16} {root : List (Key × Field)} {sent : List UInt8}
    (h : CProtocal.fillPkt cj action root = .ok sent) : sent.length = packetLen := by
  unfold CProtocal.fillPkt at h
  simp only at h
  split_ifs at h
  obtain rfl := Except.ok.inj h
  exact packet_length _ _ _ _ _

theorem fillPkt_simulates (h : NewPkt m₀ m p bytes) (action : UInt16)
    (root : List (Key × Field)) :
    Simulates m (fillPkt cj action root p) (CProtocal.fillPkt cj action root) fun _ m' sent =>
      NewPkt m₀ m' p sent ∧ sent.length = packetLen := by
  obtain ⟨d, hpkt, hp, hd⟩ := h.pkt
  have hpush : PktAt (m.push (.text (cj.print root))) p d bytes :=
    ⟨push_keeps hpkt.pkt, push_keeps hpkt.data⟩
  refine Simulates.step (malloc_eq m _) ?_
  refine ((simulates_lift _ _).known.before fun sent m' sent' h' => ?_)
  obtain ⟨hsent, rfl, rfl⟩ := h'
  refine Returns.step (hpush.setPktData sent) ?_
  have hput := hpush.put sent
  have hgrows := (h.grows.trans (grows_push m _)).put hd (.data sent) hpush.live
  have hout : m.top ≠ d := ((m.lt_top hpkt.live).ne).symm
  have hlive : (((m.push (.text (cj.print root))).put d (some (.data sent)) hpush.live).block
      m.top).isSome := by
    rw [put_other _ _ hout, push_top]
    rfl
  have hne : p ≠ m.top := (m.lt_top (Option.isSome_iff_exists.2 ⟨_, hpkt.pkt⟩)).ne
  refine returns_free hlive ⟨⟨hgrows.drop h.grows.top hlive, d, ⟨?_, ?_⟩, hp, hd⟩,
    fillPkt_length hsent⟩
  · exact (put_other _ _ hne).trans hput.pkt
  · exact (put_other _ _ hout.symm).trans hput.data

/-- A packet of the codec, and where it is on the heap. -/
def Made (m : Memory Block) (p : Ptr) (m' : Memory Block) (sent : List UInt8) : Prop :=
  NewPkt m m' p sent ∧ sent.length = packetLen

theorem getResultPkt_simulates (m : Memory Block) (isSucc : Bool) (reason : CharPtr) :
    Simulates m (getResultPkt cj isSucc reason) (CProtocal.getResultPkt cj isSucc reason)
      (Made m) := by
  refine Simulates.after (getPkt_returns m) fun p m' hp => ?_
  refine (simulates_lift m' _).bind fun reasonBuf m'' reasonBuf' h => ?_
  obtain ⟨rfl, rfl⟩ := h
  exact (fillPkt_simulates hp _ _).before fun _ m₁ sent h => returns_pure h

theorem strncpyBuf_simulates {b : ℕ} {o : Option Ptr} {s : CharPtr} (h : TextAt m b o s) :
    Simulates m (strncpyBuf o) (CProtocal.strncpyBuf s) fun t m' t' => t = t' ∧ m' = m := by
  cases h with
  | none => exact .fails _ rfl rfl
  | some hp =>
    refine Simulates.step (rfl : deref _ m = .ok (_, m)) ?_
    exact Simulates.step (read_eq hp.2 rfl) (simulates_lift m _)

theorem getInquiryResultPkt_simulates {b : ℕ} {info : Ptr} {i : CProtocal.ServiceInfo}
    (hb : b ≤ m.top) (h : InfoAt m b info i) :
    Simulates m (getInquiryResultPkt cj info) (CProtocal.getInquiryResultPkt cj i)
      (Made m) := by
  refine Simulates.after (getPkt_returns m) fun p m' hp => ?_
  obtain ⟨-, ps, hblock, hfields⟩ := h.keeps (keeps_of_grows hp.grows Content hb)
  refine Simulates.step (read_eq hblock rfl) ?_
  refine (strncpyBuf_simulates hfields.deviceName).bind fun _ _ _ h => ?_
  obtain ⟨rfl, rfl⟩ := h
  refine (strncpyBuf_simulates hfields.serviceName).bind fun _ _ _ h => ?_
  obtain ⟨rfl, rfl⟩ := h
  refine (strncpyBuf_simulates hfields.ip).bind fun _ _ _ h => ?_
  obtain ⟨rfl, rfl⟩ := h
  refine (strncpyBuf_simulates hfields.info).bind fun _ _ _ h => ?_
  obtain ⟨rfl, rfl⟩ := h
  rw [hfields.port]
  exact (fillPkt_simulates hp _ _).before fun _ m₁ sent h => returns_pure h

/-- What is sent is the packet, and its blocks are freed. -/
theorem sendPkt_returns {m' : Memory Block} (h : Made m p m' bytes) :
    Returns m' (sendPkt p) fun sent m'' => sent = bytes ∧ Grows m m'' 0 := by
  obtain ⟨hnew, hlen⟩ := h
  obtain ⟨d, hpkt, -, -⟩ := hnew.pkt
  refine Returns.step (read_eq hpkt.pkt rfl) (Returns.step hpkt.pktData ?_)
  refine (freePkt_returns hnew).bind fun _ m'' hm => returns_pure ⟨?_, hm⟩
  exact List.take_of_length_le hlen.le

/-- A packet is made, sent and freed. -/
theorem reply_simulates {γ : Type} {x : CProg Ptr} {y : Except CFault (List UInt8)}
    {f : List UInt8 → γ} (h : Simulates m x y (Made m)) :
    Simulates m (do
        let pkt ← x
        let sent ← sendPkt pkt
        pure [sent])
      (do
        let pkt ← y
        pure (f pkt))
      fun sent m' r => (∃ pkt, sent = [pkt] ∧ r = f pkt) ∧ Grows m m' 0 := by
  refine h.bind fun pkt m' bytes hmade => ?_
  refine Simulates.after (sendPkt_returns hmade) fun sent m'' hsent => ?_
  obtain ⟨rfl, hgrows⟩ := hsent
  exact simulates_pure ⟨⟨_, rfl, rfl⟩, hgrows⟩

end Packets

section Infos
variable {cj : CJson} {m₀ m m' : Memory Block} {p d : Ptr} {bytes : List UInt8}

/-- Addresses given out one after the other. -/
def Between (lo hi : ℕ) (ps : List Ptr) : Prop := ps.Pairwise (· < ·) ∧ ∀ p ∈ ps, lo ≤ p ∧ p < hi

theorem Between.append {lo mid hi : ℕ} {ps qs : List Ptr} (h : Between lo mid ps)
    (h' : Between mid hi qs) (hlo : lo ≤ mid) (hhi : mid ≤ hi) : Between lo hi (ps ++ qs) := by
  refine ⟨List.pairwise_append.2 ⟨h.1, h'.1, fun p hp q hq => ?_⟩, fun p hp => ?_⟩
  · exact (h.2 p hp).2.trans_le (h'.2 q hq).1
  · rcases List.mem_append.1 hp with hp | hp
    · exact ⟨(h.2 p hp).1, (h.2 p hp).2.trans_le hhi⟩
    · exact ⟨hlo.trans (h'.2 p hp).1, (h'.2 p hp).2⟩

theorem strdup_returns (m : Memory Block) (s : CharPtr) :
    Returns m (strdup s) fun o m' => Grows m m' s.toList.length ∧ TextAt m' m'.top o s ∧
      Between m.top m'.top o.toList := by
  cases s with
  | none =>
    exact returns_pure ⟨Grows.refl m, .none, .nil, fun p hp => absurd hp List.not_mem_nil⟩
  | some s =>
    refine Returns.step (malloc_eq m _) (returns_pure ⟨grows_push m _,
      .some ⟨Nat.lt_succ_self _, push_top⟩, List.pairwise_singleton _ _, fun p hp => ?_⟩)
    obtain rfl := List.mem_singleton.1 hp
    exact ⟨le_rfl, Nat.lt_succ_self _⟩

/-- The strings that a service has. -/
def strings (i : CProtocal.ServiceInfo) : ℕ :=
  i.deviceName.toList.length + i.serviceName.toList.length + i.ip.toList.length +
    i.info.toList.length

/-- What `free_service_info` frees. -/
def freed (p : Ptr) (ps : CHeap.ServiceInfo) : List Ptr :=
  ps.deviceName.toList ++ ps.serviceName.toList ++ ps.ip.toList ++ [p]

/-- A service that has been allocated, and nothing else. -/
structure NewInfo (m₀ m : Memory Block) (p : Ptr) (i : CProtocal.ServiceInfo) : Prop where
  grows : Grows m₀ m (1 + strings i)
  info : ∃ ps, m.block p = some (.info ps) ∧ Fields m m.top ps i ∧ (freed p ps).Nodup ∧
    ∀ q ∈ freed p ps, m₀.top ≤ q

/-- The pointer is null where nothing could be read. -/
inductive Got (m₀ m : Memory Block) : Option Ptr → Option CProtocal.ServiceInfo → Prop where
  | none (same : m = m₀) : Got m₀ m none none
  | some {p : Ptr} {i : CProtocal.ServiceInfo} (new : NewInfo m₀ m p i) : Got m₀ m (some p) (some i)

theorem getServiceInfo_simulates (h : PktAt m p d bytes) :
    Simulates m (getServiceInfo cj p) (CProtocal.getServiceInfo cj bytes)
      fun o m' i => Got m m' o i := by
  refine Simulates.step h.pktData ?_
  refine (simulates_lift m _).before fun o m₁ o' h₁ => ?_
  obtain ⟨rfl, rfl⟩ := h₁
  cases o with
  | none => exact returns_pure (.none rfl)
  | some i =>
    have hg₀ := grows_push m₁ (.info ⟨none, none, none, none, 0⟩)
    refine Returns.step (malloc_eq m₁ _) ?_
    refine (strdup_returns _ i.deviceName).bind fun deviceName m₂ h₂ => ?_
    obtain ⟨hg₂, ht₂, hb₂⟩ := h₂
    refine (strdup_returns _ i.serviceName).bind fun serviceName m₃ h₃ => ?_
    obtain ⟨hg₃, ht₃, hb₃⟩ := h₃
    refine (strdup_returns _ i.ip).bind fun ip m₄ h₄ => ?_
    obtain ⟨hg₄, ht₄, hb₄⟩ := h₄
    refine (strdup_returns _ i.info).bind fun text m₅ h₅ => ?_
    obtain ⟨hg₅, ht₅, -⟩ := h₅
    have hblock : m₅.block m₁.top = some (.info ⟨none, none, none, none, 0⟩) :=
      hg₅.keeps (hg₄.keeps (hg₃.keeps (hg₂.keeps push_top)))
    have hlive : (m₅.block m₁.top).isSome := Option.isSome_iff_exists.2 ⟨_, hblock⟩
    have hgrows := (((hg₀.trans hg₂).trans hg₃).trans hg₄).trans hg₅
    have hcount : 1 + strings i = 1 + i.deviceName.toList.length + i.serviceName.toList.length +
        i.ip.toList.length + i.info.toList.length := by
      rw [strings]
      omega
    rw [← hcount] at hgrows
    have hbetween := (hb₂.append hb₃ hg₂.top hg₃.top).append hb₄ (hg₂.top.trans hg₃.top) hg₄.top
    refine Returns.step (write_eq hlive) (returns_pure (.some ⟨hgrows.put le_rfl _ hlive,
      ⟨deviceName, serviceName, ip, text, i.port⟩, put_same _ _, ⟨?_, ?_, ?_, ?_, rfl⟩, ?_, ?_⟩))
    · exact (((ht₂.grows hg₃).grows hg₄).grows hg₅).put hblock hlive
    · exact ((ht₃.grows hg₄).grows hg₅).put hblock hlive
    · exact (ht₄.grows hg₅).put hblock hlive
    · exact ht₅.put hblock hlive
    · refine List.nodup_append.2 ⟨hbetween.1.imp fun h => h.ne, List.nodup_singleton _, ?_⟩
      intro q hq r hr he
      obtain rfl := List.mem_singleton.1 hr
      exact (Nat.lt_of_succ_le (hbetween.2 q hq).1).ne' he
    · intro q hq
      rcases List.mem_append.1 hq with hq | hq
      · exact (Nat.le_succ _).trans (hbetween.2 q hq).1
      · exact (List.mem_singleton.1 hq).ge

/-- What `free_service_info` leaves: all but its own blocks. -/
theorem freeServiceInfo_returns {b : ℕ} {ps : CHeap.ServiceInfo} {i : CProtocal.ServiceInfo}
    (hblock : m.block p = some (.info ps)) (hfields : Fields m b ps i) (hps : (freed p ps).Nodup) :
    Returns m (freeServiceInfo p) fun _ m' => m'.top = m.top ∧
      (∀ q, q ∉ freed p ps → m'.block q = m.block q) ∧
      m'.count + (1 + strings i) = m.count + i.info.toList.length := by
  have hlive : ∀ q ∈ freed p ps, (m.block q).isSome := by
    intro q hq
    have hsome : ∀ {o : Option Ptr} {s : CharPtr}, TextAt m b o s → q ∈ o.toList →
        (m.block q).isSome := fun h hq => by
      obtain ⟨t, ht⟩ := h.live q hq
      exact Option.isSome_iff_exists.2 ⟨_, ht⟩
    simp only [freed, List.mem_append] at hq
    rcases hq with ((hq | hq) | hq) | hq
    · exact hsome hfields.deviceName hq
    · exact hsome hfields.serviceName hq
    · exact hsome hfields.ip hq
    · obtain rfl := List.mem_singleton.1 hq
      exact Option.isSome_iff_exists.2 ⟨_, hblock⟩
  have hfree : freeServiceInfo p m = freeAll (freed p ps) m := by
    have hseq : (freeAll (freed p ps) : CProg Unit) = (do
        freeOpt ps.deviceName
        freeOpt ps.serviceName
        freeOpt ps.ip
        free p) := by
      rw [freed, freeAll_append, freeAll_append, freeAll_append, bind_assoc, bind_assoc,
        freeAll_singleton]
      rfl
    rw [hseq]
    exact step_eq (read_eq hblock rfl)
  obtain ⟨_, m', hm, htop, hrest, hcount⟩ := returns_freeAll hlive hps
  refine ⟨(), m', hfree.trans hm, htop, hrest, ?_⟩
  have hlength : (freed p ps).length = 1 + strings i - i.info.toList.length := by
    simp only [freed, List.length_append, hfields.deviceName.length, hfields.serviceName.length,
      hfields.ip.length, List.length_singleton, strings]
    omega
  rw [hlength] at hcount
  rw [strings] at hcount ⊢
  omega

end Infos

section Passes
variable (cj : CJson) {m m' : Memory Block} {recPkt list : Ptr} {l : CList.ServiceInfoList}

/-- The blocks that a pass of `server_loop` never frees: a node, an info and its strings for a
registration, and the string `info->info` for the others. -/
def kept (pkt : List UInt8) : ℕ :=
  match CProtocal.decodeAction pkt, CProtocal.getServiceInfo cj pkt with
  | .ok type, .ok (some i) =>
    if type = Action.registerService.code.toNat then 2 + strings i
    else if type = Action.unregisterService.code.toNat ∨ type = Action.inquiry.code.toNat then
      i.info.toList.length
    else 0
  | _, _ => 0

/-- The loop's buffer and its list. -/
structure Serving (m : Memory Block) (recPkt list : Ptr) (l : CList.ServiceInfoList) : Prop where
  view : ∃ a, View m m.top list l a
  recPkt : ∃ d bytes, PktAt m recPkt d bytes

theorem Serving.grows (h : Serving m recPkt list l) {n : ℕ} (hm : Grows m m' n) :
    Serving m' recPkt list l := by
  obtain ⟨⟨a, v⟩, d, bytes, hpkt⟩ := h
  exact ⟨⟨a, (v.keeps (keeps_of_grows hm Seen le_rfl)).mono hm.top⟩, d, bytes,
    hm.keeps hpkt.pkt, hm.keeps hpkt.data⟩

/-- A pass begins with the packet in the loop's buffer. -/
theorem Serving.receives (h : Serving m recPkt list l) (received : List UInt8) :
    ∃ m₁ a d, setPktData recPkt received m = .ok ((), m₁) ∧ PktAt m₁ recPkt d received ∧
      View m₁ m₁.top list l a ∧ m₁.count = m.count := by
  obtain ⟨⟨a, v⟩, d, bytes, hpkt⟩ := h
  have hkeeps : Keeps Seen m.top m (m.put d (some (.data received)) hpkt.live) := by
    intro q _ x hx hq
    refine (put_other _ _ fun he => ?_).trans hq
    rw [he, hpkt.data] at hq
    obtain rfl := Option.some.inj hq
    exact hx.elim
  exact ⟨_, a, d, hpkt.setPktData received, hpkt.put received, v.keeps hkeeps,
    put_some_count hpkt.live⟩

variable {cj}

/-- The answers to an inquiry: every packet of theirs is freed. -/
theorem inquiryFrom_simulates {b : ℕ} {a : Addresses} {info : Ptr} {i : CProtocal.ServiceInfo}
    (v : View m b list l a) (hb : b ≤ m.top) (hi : InfoAt m m.top info i) (listFuel fuel index : ℕ)
    (isGetService : Bool) :
    Simulates m (inquiryFrom cj listFuel list info fuel index isGetService)
      (CDaemon.inquiryFrom cj listFuel l i.serviceName fuel index isGetService)
      fun sent m' sent' => sent = sent' ∧ Grows m m' 0 := by
  induction fuel generalizing m index isGetService with
  | zero => exact .fails _ rfl rfl
  | succ fuel ih =>
    obtain ⟨ps, hblock, hfields⟩ := hi.2
    refine Simulates.step (read_eq hblock rfl) ?_
    refine (listGet_simulates v hfields.serviceName index listFuel).bind fun o m₁ o' h => ?_
    obtain ⟨hret, rfl⟩ := h
    cases hret with
    | some hinfo =>
      refine (getInquiryResultPkt_simulates hb hinfo).bind fun pkt m₂ bytes hmade => ?_
      refine Simulates.after (sendPkt_returns hmade) fun sent m₃ h => ?_
      obtain ⟨rfl, hgrows⟩ := h
      have hi' : InfoAt m₃ m₃.top info i :=
        (hi.keeps (keeps_of_grows hgrows Content le_rfl)).mono hgrows.top
      refine (ih (v.keeps (keeps_of_grows hgrows Seen hb)) (hb.trans hgrows.top) hi' (index + 1)
        true).bind fun rest m₄ rest' h => ?_
      obtain ⟨rfl, hrest⟩ := h
      exact simulates_pure ⟨rfl, hgrows.trans hrest⟩
    | none =>
      cases isGetService with
      | true => exact simulates_pure ⟨rfl, Grows.refl m₁⟩
      | false =>
        refine (reply_simulates (getResultPkt_simulates m₁ false (some serviceNoFound))).mono
          fun sent m₂ sent' h => ?_
        obtain ⟨⟨pkt, rfl, rfl⟩, hgrows⟩ := h
        exact ⟨rfl, hgrows⟩

/-- What a pass has done when it returns. -/
def Passed (cj : CJson) (m : Memory Block) (recPkt list : Ptr) (received : List UInt8)
    (sent : List (List UInt8)) (m' : Memory Block)
    (r : List (List UInt8) × CList.ServiceInfoList) : Prop :=
  sent = r.1 ∧ Serving m' recPkt list r.2 ∧ m'.count = m.count + kept cj received

variable {a : Addresses} {received : List UInt8} {d info : Ptr} {i : CProtocal.ServiceInfo}

/-- An info that has been read goes into the list. -/
theorem add_simulates (v : View m m.top list l a) (hpkt : PktAt m recPkt d received)
    (new : NewInfo m m' info i) (listFuel : ℕ) :
    Simulates m' (listAdd listFuel list info) (CList.listAdd listFuel l i) fun _ m₂ l₂ =>
      Serving m₂ recPkt list l₂ ∧ m₂.count = m.count + (2 + strings i) := by
  obtain ⟨ps, hblock, hfields, -, habove⟩ := new.info
  have hnew : m.top ≤ info := habove info (List.mem_append_right _ (List.mem_singleton_self info))
  have hi : InfoAt m' m'.top info i :=
    ⟨m'.lt_top (Option.isSome_iff_exists.2 ⟨_, hblock⟩), ps, hblock, hfields⟩
  have v' := v.keeps (keeps_of_grows new.grows Seen le_rfl)
  refine (listAdd_simulates v' hnew hi listFuel).mono fun _ m₂ l₂ hadd => ?_
  have hlive : ∀ {p : Ptr} {x : Block}, m.block p = some x → p < m'.top := fun hp =>
    m'.lt_top (Option.isSome_iff_exists.2 ⟨_, new.grows.keeps hp⟩)
  refine ⟨⟨hadd.view, d, received,
    hadd.keeps _ (hlive hpkt.pkt) _ (fun h => h) (new.grows.keeps hpkt.pkt),
    hadd.keeps _ (hlive hpkt.data) _ (fun h => h) (new.grows.keeps hpkt.data)⟩, ?_⟩
  rw [hadd.count, new.grows.count]
  omega

theorem register_simulates (v : View m m.top list l a) (hpkt : PktAt m recPkt d received)
    (new : NewInfo m m' info i) (hkept : kept cj received = 2 + strings i) (listFuel : ℕ) :
    Simulates m' (do
        listAdd listFuel list info
        let pkt ← getResultPkt cj true (some .empty)
        let sent ← sendPkt pkt
        pure [sent])
      (do
        let l ← CList.listAdd listFuel l i
        let pkt ← CProtocal.getResultPkt cj true (some .empty)
        pure ([pkt], l))
      (Passed cj m recPkt list received) := by
  refine (add_simulates v hpkt new listFuel).bind fun _ m₂ l₂ hadd => ?_
  refine (reply_simulates (getResultPkt_simulates m₂ true (some .empty))).mono
    fun sent m₃ r hsent => ?_
  obtain ⟨⟨pkt, rfl, rfl⟩, hgrows⟩ := hsent
  refine ⟨rfl, hadd.1.grows hgrows, ?_⟩
  rw [hgrows.count, hadd.2, hkept, Nat.add_zero]

/-- The info of a request is freed but for its last string. -/
theorem free_returns (v : View m' m.top list l a) (hpkt : PktAt m recPkt d received)
    (htop : m.top ≤ m'.top) (hrec : PktAt m' recPkt d received) {ps : CHeap.ServiceInfo}
    (hblock : m'.block info = some (.info ps)) {b : ℕ} (hfields : Fields m' b ps i)
    (hps : (freed info ps).Nodup) (habove : ∀ q ∈ freed info ps, m.top ≤ q) :
    Returns m' (freeServiceInfo info) fun _ m'' => Serving m'' recPkt list l ∧
      m''.count + (1 + strings i) = m'.count + i.info.toList.length := by
  refine (freeServiceInfo_returns hblock hfields hps).mono fun _ m'' h => ?_
  obtain ⟨htop', hrest, hcount⟩ := h
  have hbelow : ∀ q < m.top, m''.block q = m'.block q := fun q hq =>
    hrest q fun hmem => absurd (habove q hmem) (Nat.not_le.2 hq)
  have hrecPkt : recPkt < m.top := m.lt_top (Option.isSome_iff_exists.2 ⟨_, hpkt.pkt⟩)
  have hkeeps : Keeps Seen m.top m' m'' := fun q hq x _ hx => (hbelow q hq).trans hx
  refine ⟨⟨⟨a, (v.keeps hkeeps).mono (htop.trans htop'.ge)⟩, d, received,
    (hbelow _ hrecPkt).trans hrec.pkt, (hbelow _ (m.lt_top hpkt.live)).trans hrec.data⟩, hcount⟩

theorem unregister_simulates (v : View m m.top list l a) (hpkt : PktAt m recPkt d received)
    (new : NewInfo m m' info i) (hkept : kept cj received = i.info.toList.length)
    (listFuel : ℕ) :
    Simulates m' (do
        let asked ← BlockMemory.read Block.info? info
        let r ← listRemove listFuel list asked.deviceName asked.serviceName
        freeServiceInfo info
        let pkt ← if r ≥ 0 then getResultPkt cj true (some .empty)
          else getResultPkt cj false (some serviceNoFound)
        let sent ← sendPkt pkt
        pure [sent])
      (do
        let (r, l) ← CList.listRemove listFuel l i.deviceName i.serviceName
        let pkt ← if r ≥ 0 then CProtocal.getResultPkt cj true (some .empty)
          else CProtocal.getResultPkt cj false (some serviceNoFound)
        pure ([pkt], l))
      (Passed cj m recPkt list received) := by
  obtain ⟨ps, hblock, hfields, hps, habove⟩ := new.info
  have v' := v.keeps (keeps_of_grows new.grows Seen le_rfl)
  refine Simulates.step (read_eq hblock rfl) ?_
  refine (listRemove_simulates v' hfields.deviceName hfields.serviceName listFuel).bind
    fun r m₂ rl h => ?_
  obtain ⟨r', l'⟩ := rl
  obtain ⟨hr', hview, hrelinks, -⟩ := h
  obtain rfl : r = r' := hr'
  have stays : ∀ {p : Ptr} {x : Block}, ¬ Links x → m'.block p = some x → m₂.block p = some x :=
    fun hx hp => hrelinks.keeps _ _ (Nat.lt_succ_self _) _ hx hp
  have hrec : PktAt m₂ recPkt d received :=
    ⟨stays (fun h => h) (new.grows.keeps hpkt.pkt), stays (fun h => h) (new.grows.keeps hpkt.data)⟩
  refine Simulates.after (free_returns hview hpkt (new.grows.top.trans hrelinks.top.ge) hrec
    (stays (fun h => h) hblock) (hfields.keeps (hrelinks.content _)) hps habove) fun _ m₃ h => ?_
  obtain ⟨hserving, hcount⟩ := h
  have passed : ∀ {sent : List (List UInt8)} {m₄ : Memory Block}
      {r : List (List UInt8) × CList.ServiceInfoList},
      (∃ pkt, sent = [pkt] ∧ r = ([pkt], l')) ∧ Grows m₃ m₄ 0 →
        Passed cj m recPkt list received sent m₄ r := by
    rintro sent m₄ r ⟨⟨pkt, rfl, rfl⟩, hgrows⟩
    refine ⟨rfl, hserving.grows hgrows, ?_⟩
    rw [hrelinks.count, new.grows.count] at hcount
    rw [hgrows.count, hkept]
    omega
  change Simulates m₃ (if r ≥ 0 then _ else _) (if r ≥ 0 then _ else _) _
  by_cases hr : r ≥ 0
  · rw [if_pos hr, if_pos hr]
    exact (reply_simulates (getResultPkt_simulates m₃ _ _)).mono fun _ _ _ h => passed h
  · rw [if_neg hr, if_neg hr]
    exact (reply_simulates (getResultPkt_simulates m₃ _ _)).mono fun _ _ _ h => passed h

theorem inquiry_simulates (v : View m m.top list l a) (hpkt : PktAt m recPkt d received)
    (new : NewInfo m m' info i) (hkept : kept cj received = i.info.toList.length)
    (listFuel fuel : ℕ) :
    Simulates m' (do
        let sent ← inquiryFrom cj listFuel list info fuel 0 false
        freeServiceInfo info
        pure sent)
      (do
        let sent ← CDaemon.serveInquiry cj listFuel fuel l i.serviceName
        pure (sent, l))
      (Passed cj m recPkt list received) := by
  obtain ⟨ps, hblock, hfields, hps, habove⟩ := new.info
  have v' := v.keeps (keeps_of_grows new.grows Seen le_rfl)
  have hi : InfoAt m' m'.top info i :=
    ⟨m'.lt_top (Option.isSome_iff_exists.2 ⟨_, hblock⟩), ps, hblock, hfields⟩
  refine (inquiryFrom_simulates v' new.grows.top hi listFuel fuel 0 false).bind
    fun sent m₂ sent' h => ?_
  obtain ⟨rfl, hgrows⟩ := h
  have hrec : PktAt m₂ recPkt d received :=
    ⟨hgrows.keeps (new.grows.keeps hpkt.pkt), hgrows.keeps (new.grows.keeps hpkt.data)⟩
  refine Simulates.after (free_returns (v'.keeps (keeps_of_grows hgrows Seen new.grows.top)) hpkt
    (new.grows.top.trans hgrows.top) hrec (hgrows.keeps hblock)
    (hfields.keeps (keeps_of_grows hgrows Content le_rfl)) hps habove) fun _ m₃ h => ?_
  obtain ⟨hserving, hcount⟩ := h
  refine simulates_pure ⟨rfl, hserving, ?_⟩
  rw [hgrows.count, new.grows.count] at hcount
  rw [hkept]
  omega

/-- A pass that reads an info off its packet goes on with it, and one that reads none ends. -/
theorem parsed_simulates {β γ : Type} {f : Ptr → CProg β}
    {g : CProtocal.ServiceInfo → Except CFault γ} {b₀ : β} {c₀ : γ}
    {Q : β → Memory Block → γ → Prop} (hpkt : PktAt m recPkt d received)
    (hnone : CProtocal.getServiceInfo cj received = .ok none → Q b₀ m c₀)
    (h : ∀ info i m', CProtocal.getServiceInfo cj received = .ok (some i) → NewInfo m m' info i →
      Simulates m' (f info) (g i) Q) :
    Simulates m (do
        match ← getServiceInfo cj recPkt with
        | none => pure b₀
        | some info => f info)
      (do
        match ← CProtocal.getServiceInfo cj received with
        | none => pure c₀
        | some i => g i) Q := by
  refine (getServiceInfo_simulates hpkt).known.bind fun o m' o' h' => ?_
  obtain ⟨hread, hgot⟩ := h'
  cases hgot with
  | none same => exact simulates_pure (same ▸ hnone hread)
  | some new => exact h _ _ _ hread new

theorem serverLoop_simulates (h : Serving m recPkt list l) (listFuel fuel : ℕ)
    (received : List UInt8) :
    Simulates m (serverLoop cj listFuel fuel recPkt list received)
      (CDaemon.serverLoop cj listFuel fuel l received) (Passed cj m recPkt list received) := by
  obtain ⟨m₁, a, d, hset, hput, v', hcount⟩ := h.receives received
  refine Simulates.step hset (Simulates.step hput.pktData ?_)
  refine (simulates_lift m₁ _).known.bind fun type m₂ type' h => ?_
  obtain ⟨htype, rfl, rfl⟩ := h
  have hkept : ∀ {i}, CProtocal.getServiceInfo cj received = .ok (some i) → kept cj received =
      if type = Action.registerService.code.toNat then 2 + strings i
      else if type = Action.unregisterService.code.toNat ∨ type = Action.inquiry.code.toNat then
        i.info.toList.length
      else 0 := fun hi => by
    rw [kept, htype, hi]
  refine Simulates.mono (?_ : Simulates m₂ _ _ (Passed cj m₂ recPkt list received))
    fun sent m' r h => ⟨h.1, h.2.1, h.2.2.trans (congrArg (· + _) hcount)⟩
  have hnone : CProtocal.getServiceInfo cj received = .ok none →
      Passed cj m₂ recPkt list received [] m₂ ([], l) := fun hread => by
    refine ⟨rfl, ⟨⟨a, v'⟩, d, received, hput⟩, ?_⟩
    rw [kept, htype, hread]
    rfl
  by_cases h0 : type = Action.registerService.code.toNat
  · rw [if_pos h0, if_pos h0]
    refine parsed_simulates hput hnone fun info i m' hread new => ?_
    refine register_simulates v' hput new ?_ listFuel
    rw [hkept hread, if_pos h0]
  rw [if_neg h0, if_neg h0]
  by_cases h1 : type = Action.unregisterService.code.toNat
  · rw [if_pos h1, if_pos h1]
    refine parsed_simulates hput hnone fun info i m' hread new => ?_
    refine unregister_simulates v' hput new ?_ listFuel
    rw [hkept hread, if_neg h0, if_pos (.inl h1)]
  rw [if_neg h1, if_neg h1]
  by_cases h2 : type = Action.inquiry.code.toNat
  · rw [if_pos h2, if_pos h2]
    refine parsed_simulates hput hnone fun info i m' hread new => ?_
    refine inquiry_simulates v' hput new ?_ listFuel fuel
    rw [hkept hread, if_neg h0, if_pos (.inr h2)]
  rw [if_neg h2, if_neg h2]
  refine simulates_pure ⟨rfl, ⟨⟨a, v'⟩, d, received, hput⟩, ?_⟩
  have hnothing : kept cj received = 0 := by
    rw [kept, htype]
    cases CProtocal.getServiceInfo cj received with
    | error e => rfl
    | ok o =>
      cases o with
      | none => rfl
      | some i => exact (if_neg h0).trans (if_neg (not_or.2 ⟨h1, h2⟩))
  rw [hnothing]
  rfl

end Passes

section Runs
variable {cj : CJson} {m : Memory Block} {recPkt list : Ptr} {l : CList.ServiceInfoList}

/-- What the loop begins with: its buffer, and a list of which no node is known. -/
theorem start_returns (a : Addresses) : Returns (Memory.empty : Memory Block) getPkt fun recPkt m =>
    Serving (m.push (.list ⟨none, none⟩)) recPkt m.top CList.initList ∧
      (m.push (.list ⟨none, none⟩)).count = 3 := by
  refine (getPkt_returns _).mono fun recPkt m h => ?_
  obtain ⟨d, hpkt, -, -⟩ := h.pkt
  have nothing : ∀ {q : Ptr}, ((CList.initList.heap q).isSome = true) → False :=
    fun h => Bool.false_ne_true h
  have hclosed : Closed CList.initList := ⟨fun _ _ => rfl, fun q hq => (nomatch hq),
    fun q hq => (nomatch hq), fun p c hp => (nomatch hp)⟩
  have hview : View (m.push (.list ⟨none, none⟩)) (m.top + 1) m.top CList.initList a :=
    ⟨Nat.lt_succ_self _, push_top, fun q c hq => (nomatch hq),
      fun q r hq => (nothing hq).elim, fun q r hq => (nothing hq).elim, hclosed⟩
  refine ⟨⟨⟨a, hview⟩, d, _, push_keeps hpkt.pkt, push_keeps hpkt.data⟩, ?_⟩
  rw [push_count, h.grows.count]
  rfl

theorem passes_simulate (fuel : ℕ) (pkts : List (List UInt8)) (h : Serving m recPkt list l) :
    Simulates m (pkts.forM fun pkt => do
        let _ ← serverLoop cj fuel fuel recPkt list pkt)
      (pkts.foldlM (CRegistry.serve cj fuel) l) fun _ m' l' =>
        Serving m' recPkt list l' ∧ m'.count = m.count + (pkts.map (kept cj)).sum := by
  induction pkts generalizing m l with
  | nil => exact simulates_pure ⟨h, rfl⟩
  | cons pkt pkts ih =>
    have hpass : Simulates m (do
          let _ ← serverLoop cj fuel fuel recPkt list pkt) (CRegistry.serve cj fuel l pkt)
        fun _ m' l' => Serving m' recPkt list l' ∧ m'.count = m.count + kept cj pkt :=
      ((serverLoop_simulates h fuel fuel pkt).before fun sent m' r hr =>
        returns_pure ⟨hr.2.1, hr.2.2⟩).mapped
    rw [List.foldlM_cons]
    refine hpass.bind fun _ m' l' hl => ?_
    refine (ih hl.1).mono fun _ m'' l'' hr => ⟨hr.1, ?_⟩
    rw [hr.2, hl.2, List.map_cons, List.sum_cons]
    omega

theorem serves_simulates (cj : CJson) (fuel : ℕ) (pkts : List (List UInt8)) :
    Simulates Memory.empty (serves cj fuel pkts) (CRegistry.serves cj fuel pkts) fun r m l =>
      Serving m r.1 r.2 l ∧ m.count = 3 + (pkts.map (kept cj)).sum := by
  refine Simulates.after (start_returns ⟨id, id⟩) fun recPkt m h => ?_
  refine Simulates.step (malloc_eq m _) ?_
  refine (passes_simulate fuel pkts h.1).before fun _ m' l hl => returns_pure ⟨hl.1, ?_⟩
  rw [hl.2, h.2]

end Runs

/-- The daemon on its heap fails only where the daemon with a list does, and with the same
error: it touches no block that has been freed, and frees none twice. Where it does not fail,
its list is the same, so is what it sends next, and it holds its buffer, its list and what
every packet has left behind. -/
theorem daemon_blocks (cj : CJson) (fuel : ℕ) (pkts : List (List UInt8)) :
    (∀ e, CRegistry.serves cj fuel pkts = .error e →
      serves cj fuel pkts Memory.empty = .error (.fault e)) ∧
    ∀ l, CRegistry.serves cj fuel pkts = .ok l → ∃ recPkt list m,
      serves cj fuel pkts Memory.empty = .ok ((recPkt, list), m) ∧
      (∃ a, View m m.top list l a) ∧ m.count = 3 + (pkts.map (kept cj)).sum ∧
      (∀ pkt, (∀ e, CDaemon.serverLoop cj fuel fuel l pkt = .error e →
          serverLoop cj fuel fuel recPkt list pkt m = .error (.fault e)) ∧
        ∀ r, CDaemon.serverLoop cj fuel fuel l pkt = .ok r →
          ∃ m', serverLoop cj fuel fuel recPkt list pkt m = .ok (r.1, m')) ∧
      ∃ m', freePkt recPkt m = .ok ((), m') ∧ m'.count = 1 + (pkts.map (kept cj)).sum := by
  have hruns := serves_simulates cj fuel pkts
  refine ⟨fun e he => hruns.error he, fun l hl => ?_⟩
  obtain ⟨⟨recPkt, list⟩, m, hserves, hserving, hcount⟩ := hruns.ok hl
  obtain ⟨d, bytes, hpkt⟩ := hserving.recPkt
  obtain ⟨_, m', hfree, -, -, hfreed⟩ := hpkt.freePkt
  refine ⟨recPkt, list, m, hserves, hserving.view, hcount, fun pkt => ?_, m', hfree, by omega⟩
  have hpass : Simulates m (serverLoop cj fuel fuel recPkt list pkt)
      (CDaemon.serverLoop cj fuel fuel l pkt) (Passed cj m recPkt list pkt) :=
    serverLoop_simulates hserving fuel fuel pkt
  refine ⟨fun e he => hpass.error he, fun r hr => ?_⟩
  obtain ⟨sent, m'', hsent, rfl, -⟩ := hpass.ok hr
  exact ⟨m'', hsent⟩

end MiniServiceDiscover.CHeapDaemon
