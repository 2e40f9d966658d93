import MiniServiceDiscover.CHeapDaemon
import MiniServiceDiscover.CHistory

set_option autoImplicit false

/-! What the C daemon holds on its heap beyond what its services need. -/
namespace MiniServiceDiscover.CHeapLeaks
open CProtocal (CJson ServiceInfo)
open PointerChain BlockMemory WireFormat KeyedList CListRefinement CRegistry CHistory
open CHeapList CHeapDaemon

section Costs

/-- A node, an info, and its strings. -/
def cost (i : ServiceInfo) : ℕ := 2 + strings i

def needed (xs : List ServiceInfo) : ℕ := (xs.map cost).sum

theorem cost_pos (i : ServiceInfo) : 0 < cost i :=
  Nat.two_pos.trans_le (Nat.le_add_right _ _)

variable (cj : CJson)

/-- The services in force after these packets. -/
noncomputable abbrev inForce (pkts : List (List UInt8)) : List ServiceInfo :=
  replayBack nameKey (pkts.map (change cj))

/-- The packet replaces no service and takes none back, and it carries a string `info->info`
only to register it. -/
structure Tidy (xs : List ServiceInfo) (pkt : List UInt8) : Prop where
  register : ∀ info, Requests cj pkt .registerService info → ¬ Present nameKey (nameKey info) xs
  unregister : ∀ info, Requests cj pkt .unregisterService info →
    ¬ Present nameKey (nameKey info) xs ∧ info.info = none
  inquiry : ∀ info, Requests cj pkt .inquiry info → info.info = none

variable {cj} {pkt : List UInt8} {info : ServiceInfo} {xs : List ServiceInfo}

theorem kept_register (h : Requests cj pkt .registerService info) : kept cj pkt = cost info := by
  rw [kept, h.action, h.info]
  exact if_pos rfl

theorem kept_unregister (h : Requests cj pkt .unregisterService info) :
    kept cj pkt = info.info.toList.length := by
  rw [kept, h.action, h.info]
  exact (if_neg (by decide)).trans (if_pos (.inl rfl))

theorem kept_inquiry (h : Requests cj pkt .inquiry info) :
    kept cj pkt = info.info.toList.length := by
  rw [kept, h.action, h.info]
  exact (if_neg (by decide)).trans (if_pos (.inr rfl))

theorem kept_other (hreg : ∀ info, ¬ Requests cj pkt .registerService info)
    (hunreg : ∀ info, ¬ Requests cj pkt .unregisterService info)
    (hinq : ∀ info, ¬ Requests cj pkt .inquiry info) : kept cj pkt = 0 := by
  rw [kept]
  split
  next type i ha hi =>
    have hno : ∀ action : Action, (∀ info, ¬ Requests cj pkt action info) →
        type ≠ action.code.toNat := fun action h he => h i ⟨he ▸ ha, hi⟩
    rw [if_neg (hno _ hreg), if_neg (not_or.2 ⟨hno _ hunreg, hno _ hinq⟩)]
  next => rfl

theorem toList_length_eq_zero {o : Option CProtocal.CString} : o.toList.length = 0 ↔ o = none := by
  cases o with
  | none => exact iff_of_true rfl rfl
  | some s => exact iff_of_false Nat.one_ne_zero (Option.some_ne_none s)

/-- One packet: what the services need does not grow by more than what stays, and by just that
where the packet is tidy. -/
theorem step_needed (cj : CJson) (xs : List ServiceInfo) (pkt : List UInt8) :
    needed (applyBack nameKey xs (change cj pkt)) ≤ needed xs + kept cj pkt ∧
      (needed (applyBack nameKey xs (change cj pkt)) = needed xs + kept cj pkt ↔
        Tidy cj xs pkt) := by
  have hle := fun k => delete_cost_le nameKey cost k xs
  have heq := fun k => delete_cost_eq_iff nameKey cost k cost_pos xs
  by_cases hreg : ∃ info, Requests cj pkt .registerService info
  · obtain ⟨info, hreq⟩ := hreg
    have hneeded : needed (applyBack nameKey xs (change cj pkt)) =
        ((delete nameKey (nameKey info) xs).map cost).sum + cost info := by
      rw [change, changeOf_put nameKey (exclusive cj) hreq]
      change ((delete nameKey (nameKey info) xs ++ [info]).map cost).sum = _
      rw [List.map_append, List.sum_append]
      rfl
    have htidy : Tidy cj xs pkt ↔ ¬ Present nameKey (nameKey info) xs :=
      ⟨fun h => h.register info hreq, fun h => ⟨fun v hv => (requests_unique hreq hv).2 ▸ h,
        fun v hv => WireFormat.Action.noConfusion (requests_unique hreq hv).1,
        fun v hv => WireFormat.Action.noConfusion (requests_unique hreq hv).1⟩⟩
    rw [hneeded, kept_register hreq, needed, htidy, ← heq]
    exact ⟨Nat.add_le_add_right (hle _) _, Nat.add_right_cancel_iff⟩
  by_cases hunreg : ∃ info, Requests cj pkt .unregisterService info
  · obtain ⟨info, hreq⟩ := hunreg
    have hneeded : needed (applyBack nameKey xs (change cj pkt)) =
        ((delete nameKey (nameKey info) xs).map cost).sum := by
      rw [change, changeOf_drop nameKey (exclusive cj) hreq]
      rfl
    have htidy : Tidy cj xs pkt ↔ ¬ Present nameKey (nameKey info) xs ∧ info.info = none :=
      ⟨fun h => h.unregister info hreq, fun h => ⟨fun v hv => absurd ⟨v, hv⟩ hreg,
        fun v hv => (requests_unique hreq hv).2 ▸ h,
        fun v hv => WireFormat.Action.noConfusion (requests_unique hreq hv).1⟩⟩
    have hdelete := hle (nameKey info)
    rw [hneeded, kept_unregister hreq, needed, htidy, ← heq, ← toList_length_eq_zero]
    omega
  have hkeep : change cj pkt = .keep :=
    changeOf_keep nameKey (not_exists.1 hreg) (not_exists.1 hunreg)
  rw [hkeep]
  change needed xs ≤ _ ∧ (needed xs = _ ↔ _)
  refine ⟨Nat.le_add_right _ _, ?_⟩
  by_cases hinq : ∃ info, Requests cj pkt .inquiry info
  · obtain ⟨info, hreq⟩ := hinq
    have htidy : Tidy cj xs pkt ↔ info.info = none :=
      ⟨fun h => h.inquiry info hreq, fun h => ⟨fun v hv => absurd ⟨v, hv⟩ hreg,
        fun v hv => absurd ⟨v, hv⟩ hunreg, fun v hv => (requests_unique hreq hv).2 ▸ h⟩⟩
    rw [kept_inquiry hreq, htidy, ← toList_length_eq_zero]
    omega
  · rw [kept_other (not_exists.1 hreg) (not_exists.1 hunreg) (not_exists.1 hinq)]
    exact iff_of_true rfl ⟨fun v hv => absurd ⟨v, hv⟩ hreg, fun v hv => absurd ⟨v, hv⟩ hunreg,
      fun v hv => absurd ⟨v, hv⟩ hinq⟩

theorem inForce_snoc (front : List (List UInt8)) (pkt : List UInt8) :
    inForce cj (front ++ [pkt]) = applyBack nameKey (inForce cj front) (change cj pkt) := by
  rw [inForce, List.map_append, List.map_singleton, replayBack_append]

theorem run_needed (cj : CJson) (pkts : List (List UInt8)) :
    needed (inForce cj pkts) ≤ (pkts.map (kept cj)).sum ∧
      (needed (inForce cj pkts) = (pkts.map (kept cj)).sum ↔
        ∀ front pkt back, pkts = front ++ pkt :: back → Tidy cj (inForce cj front) pkt) := by
  induction pkts using List.reverseRecOn with
  | nil =>
    refine ⟨le_rfl, iff_of_true rfl fun front pkt back h => ?_⟩
    exact absurd h.symm (List.append_ne_nil_of_right_ne_nil _ (List.cons_ne_nil _ _))
  | append_singleton pkts last ih =>
    obtain ⟨hle, heq⟩ := ih
    obtain ⟨hstep, hstepeq⟩ := step_needed cj (inForce cj pkts) last
    rw [← inForce_snoc] at hstep hstepeq
    rw [List.map_append, List.sum_append, List.map_singleton, List.sum_singleton]
    refine ⟨hstep.trans (Nat.add_le_add_right hle _), fun h => ?_, fun h => ?_⟩
    · have hfirst := heq.1 (by omega)
      have hlast := hstepeq.1 (by omega)
      intro front pkt back hsplit
      obtain rfl | ⟨back', z, rfl⟩ := List.eq_nil_or_concat' back
      · obtain ⟨rfl, hz⟩ := List.append_inj' hsplit rfl
        exact (List.cons.inj hz).1 ▸ hlast
      · rw [← List.cons_append, ← List.append_assoc] at hsplit
        exact hfirst front pkt back' (List.append_inj' hsplit rfl).1
    · have hfirst := heq.2 fun front pkt back hsplit =>
        h front pkt (back ++ [last]) (by rw [hsplit, List.append_assoc, List.cons_append])
      have hlast := hstepeq.2 (h pkts last [] rfl)
      omega

end Costs

/-- The daemon holds no less than its services need, beside its buffer and its list; and no
more exactly when no packet has replaced a service, taken one back or brought a string that is
not freed. -/
theorem leaks_iff (cj : CJson) {fuel : ℕ} {pkts : List (List UInt8)} {l : CList.ServiceInfoList}
    (reached : serves cj fuel pkts = .ok l) : Lists l (inForce cj pkts) ∧ ∃ r m,
      CHeap.serves cj fuel pkts Memory.empty = .ok (r, m) ∧
      3 + needed (inForce cj pkts) ≤ m.count ∧
      (m.count = 3 + needed (inForce cj pkts) ↔
        ∀ front pkt back, pkts = front ++ pkt :: back → Tidy cj (inForce cj front) pkt) := by
  obtain ⟨r, m, hserves, -, hcount⟩ := (serves_simulates cj fuel pkts).ok reached
  obtain ⟨hle, heq⟩ := run_needed cj pkts
  refine ⟨serves_lists reached, r, m, hserves, by omega, ?_⟩
  rw [← heq]
  omega

section Examples
open CJsonText CUnregister CRoundTrip

theorem inForce_box : inForce textCJson [boxPkt .registerService] = [boxInfo] := by
  have hchange : change textCJson (boxPkt .registerService) = .put boxInfo :=
    changeOf_put nameKey (exclusive textCJson) (requests_box .registerService)
  rw [inForce, List.map_singleton, hchange]
  rfl

theorem leaks_iff_box : ∃ r m,
    CHeap.serves textCJson 3 [boxPkt .registerService] Memory.empty = .ok (r, m) ∧
      (m.count = 9 ↔ ∀ front pkt back, [boxPkt .registerService] = front ++ pkt :: back →
        Tidy textCJson (inForce textCJson front) pkt) := by
  obtain ⟨-, r, m, hserves, -, hiff⟩ := leaks_iff textCJson serves_box
  rw [inForce_box] at hiff
  exact ⟨r, m, hserves, hiff⟩

end Examples

end MiniServiceDiscover.CHeapLeaks
