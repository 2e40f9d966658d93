import MiniServiceDiscover.GoProtocal
import MiniServiceDiscover.KeyedList

set_option autoImplicit false

/-! The Go registry: a linked list of infos, newest first. -/
namespace MiniServiceDiscover.GoProvider
open GoJson KeyedList

abbrev Provider := List ServiceInfo

def getProvider : Provider := []

/-- Unlinks the first entry with both names. -/
def removeByName (devName serviceName : Bytes) : Provider → Bool × Provider
  | [] => (false, [])
  | info :: rest =>
    if info.deviceName = devName ∧ info.serviceName = serviceName then (true, rest)
    else
      let removed := removeByName devName serviceName rest
      (removed.1, info :: removed.2)

def addInfo (i : ServiceInfo) (p : Provider) : Provider :=
  i :: (removeByName i.deviceName i.serviceName p).2

/-- The loop of `GetCount`, with its counter. -/
def countFrom (serviceName : Bytes) (i : ℕ) : Provider → ℕ
  | [] => i
  | info :: rest => countFrom serviceName (if info.serviceName = serviceName then i + 1 else i) rest

def getCount (serviceName : Bytes) (p : Provider) : ℕ := countFrom serviceName 0 p

/-- The loop of `GetAll`: the index moves at every entry, matching or not. -/
def fillFrom (serviceName : Bytes) (i : ℕ) :
    Provider → List (Option ServiceInfo) → List (Option ServiceInfo)
  | [], out => out
  | info :: rest, out =>
    fillFrom serviceName (i + 1) rest
      (if info.serviceName = serviceName then
        if i < out.length then out.set i (some info) else out
      else out)

def getAll (serviceName : Bytes) (p : Provider) (infoOut : List (Option ServiceInfo)) :
    List (Option ServiceInfo) :=
  fillFrom serviceName 0 p infoOut

/-- The mutations a registry sees. -/
inductive Op where
  | addInfo (i : ServiceInfo)
  | removeByName (devName serviceName : Bytes)
  deriving DecidableEq, Repr

def apply (p : Provider) : Op → Provider
  | .addInfo i => GoProvider.addInfo i p
  | .removeByName devName serviceName => (GoProvider.removeByName devName serviceName p).2

def run (ops : List Op) : Provider := ops.foldl apply getProvider

section Refinement

abbrev Key := Bytes × Bytes

def pairOf (i : ServiceInfo) : Key := (i.deviceName, i.serviceName)

theorem pairOf_eq_iff (i : ServiceInfo) (devName serviceName : Bytes) :
    pairOf i = (devName, serviceName) ↔ i.deviceName = devName ∧ i.serviceName = serviceName := by
  simp only [pairOf, Prod.mk.injEq]

theorem removeByName_snd (devName serviceName : Bytes) (p : Provider) :
    (removeByName devName serviceName p).2 =
      p.eraseP (fun i => pairOf i = (devName, serviceName)) := by
  induction p with
  | nil => rfl
  | cons info rest ih =>
    by_cases h : info.deviceName = devName ∧ info.serviceName = serviceName
    · have hk := (pairOf_eq_iff info devName serviceName).2 h
      rw [removeByName, if_pos h, List.eraseP_cons_of_pos (by simpa using hk)]
    · have hk := fun he => h ((pairOf_eq_iff info devName serviceName).1 he)
      rw [removeByName, if_neg h, List.eraseP_cons_of_neg (by simpa using hk), ← ih]

theorem removeByName_fst (devName serviceName : Bytes) (p : Provider) :
    (removeByName devName serviceName p).1 = true ↔ Present pairOf (devName, serviceName) p := by
  induction p with
  | nil => simp [removeByName, Present]
  | cons info rest ih =>
    rw [present_cons, pairOf_eq_iff]
    by_cases h : info.deviceName = devName ∧ info.serviceName = serviceName
    · simp [removeByName, h]
    · rw [removeByName, if_neg h]
      simp only [h, false_or]
      exact ih

/-- The registry operations are the abstract ones as long as keys are unique. -/
theorem removeByName_eq_delete {p : Provider} (h : Unique pairOf p) (devName serviceName : Bytes) :
    (removeByName devName serviceName p).2 = delete pairOf (devName, serviceName) p := by
  rw [removeByName_snd, eraseP_eq_delete pairOf h]

theorem addInfo_eq_putFront {p : Provider} (h : Unique pairOf p) (i : ServiceInfo) :
    addInfo i p = putFront pairOf i p :=
  congrArg (List.cons i) (removeByName_eq_delete h i.deviceName i.serviceName)

end Refinement

section Inquiry
variable (serviceName : Bytes)

def named (i : ServiceInfo) : Bool := decide (i.serviceName = serviceName)

/-- The entries an inquiry is about, in list order. -/
def matching (p : Provider) : Provider := p.filter (named serviceName)

theorem countFrom_eq (i : ℕ) (p : Provider) :
    countFrom serviceName i p = i + (matching serviceName p).length := by
  induction p generalizing i with
  | nil => rfl
  | cons info rest ih =>
    rw [countFrom, ih]
    by_cases h : info.serviceName = serviceName
    · simp only [if_pos h, matching, List.filter_cons_of_pos (show named serviceName info = true
        from decide_eq_true h), List.length_cons]
      omega
    · simp only [if_neg h, matching, List.filter_cons_of_neg (show ¬ named serviceName info = true
        from fun hn => h (of_decide_eq_true hn))]

theorem getCount_eq (p : Provider) : getCount serviceName p = (matching serviceName p).length := by
  rw [getCount, countFrom_eq, Nat.zero_add]

theorem fillFrom_past {i : ℕ} (p : Provider) {out : List (Option ServiceInfo)}
    (h : out.length ≤ i) : fillFrom serviceName i p out = out := by
  induction p generalizing i with
  | nil => rfl
  | cons info rest ih =>
    rw [fillFrom, if_neg (Nat.not_lt.2 h), ite_self, ih (by omega)]

def slot (i : ServiceInfo) : Option ServiceInfo := if named serviceName i then some i else none

theorem fillFrom_slots (m : ℕ) (p : Provider) (front : List (Option ServiceInfo)) :
    fillFrom serviceName front.length p (front ++ List.replicate m none) =
      front ++ (p.take m).map (slot serviceName) ++ List.replicate (m - p.length) none := by
  induction p generalizing m front with
  | nil => simp [fillFrom]
  | cons info rest ih =>
    cases m with
    | zero =>
      rw [fillFrom_past]
      · simp
      · simp
    | succ m =>
      have step : (if info.serviceName = serviceName then
          if front.length < (front ++ List.replicate (m + 1) none).length then
            (front ++ List.replicate (m + 1) none).set front.length (some info)
          else front ++ List.replicate (m + 1) none
          else front ++ List.replicate (m + 1) none) =
          (front ++ [slot serviceName info]) ++ List.replicate m none := by
        by_cases h : info.serviceName = serviceName
        · rw [if_pos h, if_pos (by simp), List.set_append_right _ _ (Nat.le_refl _), Nat.sub_self,
            List.replicate_succ, List.set_cons_zero, slot, if_pos (show named serviceName info = true
            from decide_eq_true h), List.append_assoc, List.singleton_append]
        · rw [if_neg h, List.replicate_succ, slot, if_neg (show ¬ named serviceName info = true
            from fun hn => h (of_decide_eq_true hn)), List.append_assoc, List.singleton_append]
      have hl : front.length + 1 = (front ++ [slot serviceName info]).length := by simp
      rw [fillFrom, step, hl, ih, List.take_succ_cons, List.map_cons, List.length_cons,
        Nat.add_sub_add_right, List.append_assoc, List.append_assoc, List.append_assoc]
      rfl

/-- The slots `GetAll` fills are those of the first entries of the list, as many
as there are matches. -/
theorem getAll_eq (p : Provider) :
    getAll serviceName p (List.replicate (getCount serviceName p) none) =
      (p.take (matching serviceName p).length).map (slot serviceName) := by
  have h := fillFrom_slots serviceName (matching serviceName p).length p []
  have hle : (matching serviceName p).length ≤ p.length := List.length_filter_le _ _
  rw [getAll, getCount_eq]
  rw [List.nil_append, List.length_nil, List.nil_append, Nat.sub_eq_zero_of_le hle,
    List.replicate_zero, List.append_nil] at h
  exact h

theorem getAll_matchesFirst {p : Provider} (h : MatchesFirst (named serviceName) p) :
    getAll serviceName p (List.replicate (getCount serviceName p) none) =
      (matching serviceName p).map some := by
  have ht : p.take (matching serviceName p).length = matching serviceName p :=
    (take_count_eq_filter_iff _ _).2 h
  rw [getAll_eq, ht]
  apply List.map_congr_left
  intro i hi
  rw [slot, if_pos (List.mem_filter.1 hi).2]

theorem none_mem_getAll {p : Provider} (h : ¬ MatchesFirst (named serviceName) p) :
    none ∈ getAll serviceName p (List.replicate (getCount serviceName p) none) := by
  rw [getAll_eq]
  by_contra hn
  apply h
  apply (forall_take_count_iff _ _).1
  intro i hi
  by_contra hi'
  apply hn
  exact List.mem_map.2 ⟨i, hi, if_neg hi'⟩

end Inquiry

end MiniServiceDiscover.GoProvider
