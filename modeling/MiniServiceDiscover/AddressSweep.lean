import Mathlib.Data.List.Basic
import Mathlib.Data.List.Range

set_option autoImplicit false

/-! A thread that sends to the addresses `1` to `last` one after the other, over a
cursor it shares with its starter, until a flag stops it. -/
namespace MiniServiceDiscover.AddressSweep

inductive Pc where
  | reset
  | check
  | prepare
  | write (finish : Bool)
  | done
  deriving DecidableEq, Repr

/-- The next address, and the one that is prepared. -/
structure Cursor where
  subIP : ℕ
  dst : ℕ
  deriving DecidableEq, Repr

/-- Where the thread stands; `sent` is the history of its sends. -/
structure Sweep where
  pc : Pc
  sent : List ℕ
  deriving DecidableEq, Repr

def Sweep.fresh : Sweep := ⟨.reset, []⟩

def Cursor.reset (c : Cursor) : Cursor := { c with subIP := 1 }

/-- Whether the prepared address is the last, and the cursor behind it. -/
def Cursor.prepare (last : ℕ) (c : Cursor) : Bool × Cursor :=
  if c.subIP < last then (false, ⟨c.subIP + 1, c.subIP⟩) else (true, ⟨c.subIP, c.subIP⟩)

/-- One statement of the thread, at which the flag reads `stop`. -/
def step (last : ℕ) (stop : Bool) (c : Cursor) (w : Sweep) : Cursor × Sweep :=
  match w.pc with
  | .reset => (c.reset, { w with pc := .check })
  | .check => (c, { w with pc := if stop then .done else .prepare })
  | .prepare => ((c.prepare last).2, { w with pc := .write (c.prepare last).1 })
  | .write finish => (c, ⟨if finish then .done else .check, w.sent ++ [c.dst]⟩)
  | .done => (c, w)

/-- The first `k` addresses. -/
def hosts (k : ℕ) : List ℕ := List.range' 1 k

/-- The thread has sent to `1`, `2`, … in this order. -/
def Ordered (last : ℕ) (w : Sweep) : Prop := w.sent.length ≤ last ∧ w.sent = hosts w.sent.length

/-- The thread has left its loop before the last address. -/
def CutShort (last : ℕ) (w : Sweep) : Prop := w.pc = .done ∧ w.sent.length < last

/-- The cursor is where this thread put it, and the thread has sent to each address
before it once. -/
def Placed (last : ℕ) (c : Cursor) (w : Sweep) : Prop :=
  match w.pc with
  | .reset => w.sent = []
  | .check | .prepare => 1 ≤ c.subIP ∧ c.subIP ≤ last ∧ w.sent = hosts (c.subIP - 1)
  | .write false => c.subIP = c.dst + 1 ∧ 1 ≤ c.dst ∧ c.subIP ≤ last ∧ w.sent = hosts (c.dst - 1)
  | .write true => c.dst = last ∧ w.sent = hosts (last - 1)
  | .done => Ordered last w

section Order
variable {last : ℕ} {stop : Bool} {c : Cursor} {w : Sweep}

theorem hosts_length (k : ℕ) : (hosts k).length = k := List.length_range'

theorem hosts_concat {k : ℕ} (hk : 1 ≤ k) : hosts (k - 1) ++ [k] = hosts k := by
  obtain ⟨n, rfl⟩ : ∃ n, k = n + 1 := ⟨k - 1, by omega⟩
  rw [hosts, hosts, List.range'_concat, Nat.add_sub_cancel, Nat.one_mul, Nat.add_comm n 1]

theorem fresh_placed : Placed last c .fresh := rfl

theorem fresh_not_cutShort : ¬ CutShort last .fresh := fun h => Pc.noConfusion h.1

theorem step_placed (hlast : 1 ≤ last) (h : Placed last c w) :
    Placed last (step last stop c w).1 (step last stop c w).2 := by
  obtain ⟨pc, sent⟩ := w
  cases pc with
  | reset =>
    rw [Placed] at h
    subst h
    exact ⟨Nat.le_refl 1, hlast, rfl⟩
  | check =>
    obtain ⟨h1, hle, hs⟩ := h
    cases stop with
    | true =>
      change sent = _ at hs
      subst hs
      have hl := hosts_length (c.subIP - 1)
      refine ⟨?_, ?_⟩
      · change (hosts _).length ≤ last
        omega
      · change hosts _ = hosts (hosts _).length
        rw [hl]
    | false => exact ⟨h1, hle, hs⟩
  | prepare =>
    obtain ⟨h1, hle, hs⟩ := h
    by_cases hlt : c.subIP < last
    · have hp : c.prepare last = (false, ⟨c.subIP + 1, c.subIP⟩) := if_pos hlt
      rw [step]
      simp only [hp]
      exact ⟨rfl, h1, hlt, hs⟩
    · have hp : c.prepare last = (true, ⟨c.subIP, c.subIP⟩) := if_neg hlt
      have heq : c.subIP = last := by omega
      rw [step]
      simp only [hp]
      exact ⟨heq, heq ▸ hs⟩
  | write finish =>
    cases finish with
    | false =>
      obtain ⟨hsub, h1, hle, hs⟩ := h
      change sent = _ at hs
      subst hs
      refine ⟨by change 1 ≤ c.subIP; omega, hle, ?_⟩
      change hosts _ ++ [c.dst] = hosts (c.subIP - 1)
      rw [hosts_concat h1, hsub, Nat.add_sub_cancel]
    | true =>
      obtain ⟨hdst, hs⟩ := h
      change sent = _ at hs
      have hall : sent ++ [c.dst] = hosts last := by rw [hs, hdst, hosts_concat hlast]
      have hl := hosts_length last
      refine ⟨?_, ?_⟩
      · change (sent ++ [c.dst]).length ≤ last
        rw [hall, hl]
      · change sent ++ [c.dst] = hosts (sent ++ [c.dst]).length
        rw [hall, hl]
  | done => exact h

theorem Placed.ordered (h : Placed last c w) : Ordered last w := by
  have key : ∀ k, k ≤ last → w.sent = hosts k → Ordered last w := by
    intro k hk hs
    have hl := hosts_length k
    rw [Ordered, hs, hl]
    exact ⟨hk, rfl⟩
  obtain ⟨pc, sent⟩ := w
  cases pc with
  | reset => exact key 0 (Nat.zero_le _) h
  | check => exact key _ (by have := h.2.1; omega) h.2.2
  | prepare => exact key _ (by have := h.2.1; omega) h.2.2
  | write finish =>
    cases finish with
    | false => exact key _ (by obtain ⟨h₁, h₂, h₃, -⟩ := h; omega) h.2.2.2
    | true => exact key _ (Nat.sub_le _ _) h.2
  | done => exact h

/-- A thread that leaves its loop before the last address has read the flag set. -/
theorem step_cutShort (hlast : 1 ≤ last) (h : Placed last c w) (hw : w.pc ≠ .done)
    (hd : CutShort last (step last stop c w).2) : w.pc = .check ∧ stop = true := by
  obtain ⟨hpc, hshort⟩ := hd
  obtain ⟨pc, sent⟩ := w
  cases pc with
  | reset => exact Pc.noConfusion hpc
  | check =>
    cases stop with
    | true => exact ⟨rfl, rfl⟩
    | false => exact Pc.noConfusion hpc
  | prepare => exact Pc.noConfusion hpc
  | write finish =>
    cases finish with
    | false => exact Pc.noConfusion hpc
    | true =>
      obtain ⟨hdst, hs⟩ := h
      change (sent ++ [c.dst]).length < last at hshort
      rw [show sent = hosts (last - 1) from hs, hdst, hosts_concat hlast, hosts_length] at hshort
      exact absurd hshort (Nat.lt_irrefl _)
  | done => exact absurd rfl hw

/-- A starter that is about to clear the flag, or has cleared it, or has been heard: only
the last lets the thread leave its loop early, if no thread reads the flag uncleared. -/
theorem heard_of_cutShort {launched cleared heard : Prop} (hlast : 1 ≤ last) (h : Placed last c w)
    (hw : w.pc ≠ .done) (hcut : CutShort last (step last stop c w).2)
    (htold : launched ∨ (cleared ∧ stop = false) ∨ heard)
    (g : w.pc = .check → launched → stop = false) : heard := by
  obtain ⟨hcheck, hstop⟩ := step_cutShort hlast h hw hcut
  have hset : stop ≠ false := by
    rw [hstop]
    decide
  rcases htold with hl | ⟨-, hr⟩ | hheard
  · exact absurd (g hcheck hl) hset
  · exact absurd hr hset
  · exact hheard

/-- A thread that reads the flag set leaves its loop before the last address. -/
theorem stopped_cutShort (h : Placed last c w) (hw : w.pc = .check) :
    CutShort last (step last true c w).2 := by
  obtain ⟨pc, sent⟩ := w
  cases hw
  obtain ⟨h1, hle, hs⟩ := h
  refine ⟨rfl, ?_⟩
  change sent.length < last
  rw [show sent = hosts (c.subIP - 1) from hs, hosts_length]
  omega

end Order

/-- A call on the cursor. -/
inductive CursorOp where
  | reset
  | prepare
  deriving DecidableEq, Repr

/-- What each preparation of a run returns, and the address it prepares. -/
def Cursor.targets (last : ℕ) (c : Cursor) : List CursorOp → List (Bool × ℕ)
  | [] => []
  | .reset :: ops => c.reset.targets last ops
  | .prepare :: ops =>
    ((c.prepare last).1, (c.prepare last).2.dst) :: (c.prepare last).2.targets last ops

section Targets
variable {last : ℕ}

theorem prepare_spec {c : Cursor} (hc : c.subIP ≤ last) :
    (c.prepare last).2.subIP ≤ last ∧ (c.prepare last).2.dst = c.subIP := by
  rw [Cursor.prepare]
  split_ifs with hlt
  · exact ⟨hlt, rfl⟩
  · exact ⟨hc, rfl⟩

theorem targets_le (hlast : 1 ≤ last) {c : Cursor} (hc : c.subIP ≤ last) (ops : List CursorOp) :
    ∀ t ∈ c.targets last ops, t.2 ≤ last := by
  induction ops generalizing c with
  | nil => exact fun _ ht => absurd ht List.not_mem_nil
  | cons op ops ih =>
    cases op with
    | reset => exact ih (c := c.reset) hlast
    | prepare =>
      obtain ⟨hnext, hdst⟩ := prepare_spec hc
      exact List.forall_mem_cons.2 ⟨hdst.trans_le hc, ih hnext⟩

theorem targets_nonempty {c : Cursor} {ops : List CursorOp} (h : .prepare ∈ ops) :
    c.targets last ops ≠ [] := by
  induction ops generalizing c with
  | nil => exact absurd h List.not_mem_nil
  | cons op ops ih =>
    cases op with
    | reset => exact ih ((List.mem_cons.1 h).resolve_left (by decide))
    | prepare => exact List.cons_ne_nil _ _

/-- In the long run the last address is prepared again and again. -/
theorem targets_prepares (k : ℕ) {c : Cursor} (hc : c.subIP ≤ last) :
    c.targets last (List.replicate k .prepare) = (List.range k).map fun i =>
      (decide (last ≤ c.subIP + i), min (c.subIP + i) last) := by
  induction k generalizing c with
  | zero => rfl
  | succ k ih =>
    rw [List.replicate_succ, Cursor.targets, List.range_succ_eq_map, List.map_cons, List.map_map]
    by_cases hlt : c.subIP < last
    · rw [show c.prepare last = (false, ⟨c.subIP + 1, c.subIP⟩) from if_pos hlt]
      refine congrArg₂ List.cons ?_ ((ih (c := ⟨c.subIP + 1, c.subIP⟩) hlt).trans ?_)
      · change (false, c.subIP) = (decide (last ≤ c.subIP), min c.subIP last)
        rw [decide_eq_false (Nat.not_le.2 hlt), Nat.min_eq_left hlt.le]
      · refine List.map_congr_left fun i _ => ?_
        simp only [Function.comp_apply, Nat.succ_eq_add_one, Nat.add_assoc, Nat.add_comm 1 i]
    · have he : c.subIP = last := by omega
      rw [show c.prepare last = (true, ⟨c.subIP, c.subIP⟩) from if_neg hlt]
      refine congrArg₂ List.cons ?_ ((ih (c := ⟨c.subIP, c.subIP⟩) hc).trans ?_)
      · change (true, c.subIP) = (decide (last ≤ c.subIP), min c.subIP last)
        rw [he, decide_eq_true (Nat.le_refl last), Nat.min_self]
      · refine List.map_congr_left fun i _ => ?_
        simp only [Function.comp_apply, he, Nat.le_add_right, decide_true,
          Nat.min_eq_right (Nat.le_add_right _ _)]

end Targets

end MiniServiceDiscover.AddressSweep
