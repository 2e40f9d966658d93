import MiniServiceDiscover.FailFast
import MiniServiceDiscover.JavaProtocal
import MiniServiceDiscover.KeyedList

set_option autoImplicit false

/-! The Java registry: a linked list of infos, newest last, whose strings are
references. -/
namespace MiniServiceDiscover.JavaProvider
open JavaProtocal KeyedList

/-- The UTF-16 code units of a `String`. -/
abbrev JavaString := List UInt16

abbrev StringRef := Option JavaString

/-- What ends the thread of the loop. -/
inductive Thrown where
  | codec (e : JavaException)
  | nullPointer
  | stringIndexOutOfBounds
  deriving DecidableEq, Repr

structure ServiceInfo where
  dev : StringRef
  name : StringRef
  ip : StringRef
  info : StringRef
  port : Int32
  deriving DecidableEq, Repr

/-- `new ServiceInfo()`. -/
def ServiceInfo.fresh : ServiceInfo := ⟨none, none, none, none, 0⟩

abbrev ServiceInfoList := List ServiceInfo

/-- `a.equals(b)`. -/
def equals : StringRef → StringRef → Except Thrown Bool
  | none, _ => .error .nullPointer
  | some a, b => .ok (decide (b = some a))

def sameService (info : ServiceInfo) (devName serviceName : StringRef) : Except Thrown Bool := do
  let sameDev ← equals info.dev devName
  if sameDev then equals info.name serviceName else pure false

def remove (devName serviceName : StringRef) :
    ServiceInfoList → Except Thrown (Bool × ServiceInfoList)
  | [] => .ok (false, [])
  | info :: rest => do
    let same ← sameService info devName serviceName
    if same then pure (true, rest)
    else
      let removed ← remove devName serviceName rest
      pure (removed.1, info :: removed.2)

def add (info : ServiceInfo) (list : ServiceInfoList) : Except Thrown ServiceInfoList := do
  let removed ← remove info.dev info.name list
  pure (removed.2 ++ [info])

/-- The infos have the identity of objects, so that `list.remove(info)` removes the
element the loop visits. -/
def clear (list : ServiceInfoList) : ServiceInfoList × Option FailFast.Fault :=
  let l := FailFast.Linked.ofList list
  let cleared := FailFast.forEach (fun i l => l.removeAt i) list.length l.iterator l
  (cleared.1.items, cleared.2)

/-- The loop of `getCount`, with its counter. -/
def countFrom (serviceName : StringRef) (i : ℕ) : ServiceInfoList → Except Thrown ℕ
  | [] => .ok i
  | info :: rest => do
    let same ← equals info.name serviceName
    countFrom serviceName (if same then i + 1 else i) rest

def getCount (serviceName : StringRef) (list : ServiceInfoList) : Except Thrown ℕ :=
  countFrom serviceName 0 list

/-- The loop of `get`: the counter moves at every entry, matching or not. -/
def getFrom (serviceName : StringRef) (index i : ℕ) :
    ServiceInfoList → Except Thrown (Option ServiceInfo)
  | [] => .ok none
  | info :: rest => do
    let same ← equals info.name serviceName
    if same && i == index then pure (some info) else getFrom serviceName index (i + 1) rest

def get (serviceName : StringRef) (index : ℕ) (list : ServiceInfoList) :
    Except Thrown (Option ServiceInfo) :=
  getFrom serviceName index 0 list

/-- An info both names of which are there. -/
structure NamedInfo where
  info : ServiceInfo
  dev : JavaString
  name : JavaString
  hasDev : info.dev = some dev
  hasName : info.name = some name

/-- The mutations a registry sees. -/
inductive Op where
  | add (info : NamedInfo)
  | remove (devName serviceName : JavaString)

def apply (list : ServiceInfoList) : Op → Except Thrown ServiceInfoList
  | .add i => JavaProvider.add i.info list
  | .remove devName serviceName =>
    (JavaProvider.remove (some devName) (some serviceName) list).map Prod.snd

def run (ops : List Op) : Except Thrown ServiceInfoList := ops.foldlM apply []

section Clear
open FailFast

/-- Only the first element is removed: the loop ends behind it in a list of two, and
notices the removal in a longer one. -/
theorem clear_eq (list : ServiceInfoList) :
    clear list = (list.tail, if 2 < list.length then some .concurrentModification else none) := by
  cases list with
  | nil => rfl
  | cons i rest =>
    have hvisit : forEach (fun i l => l.removeAt i) (i :: rest).length
        (Linked.ofList (i :: rest)).iterator (Linked.ofList (i :: rest)) =
          forEach (fun i l => l.removeAt i) rest.length ⟨1, 0⟩ ⟨rest, 1⟩ :=
      forEach_visits (Nat.succ_pos _) rfl
    rw [clear, hvisit, List.length_cons, List.tail_cons]
    by_cases h : 1 < rest.length
    · obtain ⟨n, hn⟩ : ∃ n, rest.length = n + 1 := ⟨rest.length - 1, by omega⟩
      have hnext : (⟨1, 0⟩ : Iter).hasNext ⟨rest, 1⟩ := h
      rw [if_pos (by omega), hn, forEach_modified hnext Nat.one_ne_zero]
    · have hend : ¬ (⟨1, 0⟩ : Iter).hasNext ⟨rest, 1⟩ := h
      rw [if_neg (by omega), forEach_ends hend]

end Clear

section Refinement

abbrev Key := JavaString × JavaString

def pairOf (i : NamedInfo) : Key := (i.dev, i.name)

def infos (registry : List NamedInfo) : ServiceInfoList := registry.map NamedInfo.info

/-- What the calls do to the abstract registry. -/
def applyOp (registry : List NamedInfo) : Op → List NamedInfo
  | .add i => putBack pairOf i registry
  | .remove devName serviceName => delete pairOf (devName, serviceName) registry

def abstractRun (ops : List Op) : List NamedInfo := ops.foldl applyOp []

theorem equals_some (a b : JavaString) : equals (some a) (some b) = .ok (decide (a = b)) := by
  rw [equals]
  simp only [Option.some.injEq, eq_comm]

theorem sameService_named (i : NamedInfo) (devName serviceName : JavaString) :
    sameService i.info (some devName) (some serviceName) =
      .ok (decide (pairOf i = (devName, serviceName))) := by
  rw [sameService, i.hasDev, i.hasName, equals_some, equals_some, pairOf]
  change (if decide (i.dev = devName) = true then _ else _) = _
  by_cases h : i.dev = devName
  · simp [h]
  · simp only [h, decide_false, Bool.false_eq_true, if_false, Prod.mk.injEq, false_and]
    rfl

/-- `remove` deletes the key, and reports whether it was there. -/
theorem remove_eq_delete {registry : List NamedInfo} (h : KeyedList.Unique pairOf registry)
    (devName serviceName : JavaString) :
    ∃ found, remove (some devName) (some serviceName) (infos registry) =
        .ok (found, infos (delete pairOf (devName, serviceName) registry)) ∧
      (found = true ↔ Present pairOf (devName, serviceName) registry) := by
  induction registry with
  | nil => exact ⟨false, rfl, by simp [Present]⟩
  | cons i rest ih =>
    obtain ⟨habs, hrest⟩ := (unique_cons pairOf).1 h
    have hstep : remove (some devName) (some serviceName) (infos (i :: rest)) =
        if pairOf i = (devName, serviceName) then .ok (true, infos rest)
        else (remove (some devName) (some serviceName) (infos rest)).map
          fun removed => (removed.1, i.info :: removed.2) := by
      rw [infos, List.map_cons, remove, sameService_named]
      by_cases hk : pairOf i = (devName, serviceName)
      · rw [decide_eq_true hk, if_pos hk]
        rfl
      · rw [decide_eq_false hk, if_neg hk]
        change (remove _ _ (infos rest) >>= _) = (remove _ _ (infos rest)).map _
        cases remove (some devName) (some serviceName) (infos rest) <;> rfl
    rw [hstep, present_cons, delete_cons]
    by_cases hk : pairOf i = (devName, serviceName)
    · rw [if_pos hk, if_pos hk, delete_eq_self pairOf (hk ▸ habs)]
      exact ⟨true, rfl, by simp [hk]⟩
    · obtain ⟨found, hr, hf⟩ := ih hrest
      rw [if_neg hk, if_neg hk, hr]
      exact ⟨found, rfl, by simp [hk, hf]⟩

theorem add_eq_putBack {registry : List NamedInfo} (h : KeyedList.Unique pairOf registry)
    (i : NamedInfo) : add i.info (infos registry) = .ok (infos (putBack pairOf i registry)) := by
  obtain ⟨found, hr, -⟩ := remove_eq_delete h i.dev i.name
  have hput : infos (putBack pairOf i registry) =
      infos (delete pairOf (pairOf i) registry) ++ [i.info] := List.map_append
  rw [add, i.hasDev, i.hasName, hr, hput]
  rfl

theorem apply_eq_applyOp {registry : List NamedInfo} (h : KeyedList.Unique pairOf registry)
    (op : Op) : apply (infos registry) op = .ok (infos (applyOp registry op)) := by
  cases op with
  | add i => exact add_eq_putBack h i
  | remove devName serviceName =>
    obtain ⟨found, hr, -⟩ := remove_eq_delete h devName serviceName
    rw [apply, hr]
    rfl

theorem applyOp_unique {registry : List NamedInfo} (h : KeyedList.Unique pairOf registry)
    (op : Op) : KeyedList.Unique pairOf (applyOp registry op) := by
  cases op with
  | add i => exact putBack_unique pairOf h i
  | remove devName serviceName => exact delete_unique pairOf h _

/-- Every sequence of calls goes through and leaves the abstract registry. -/
theorem run_eq_abstractRun (ops : List Op) :
    run ops = .ok (infos (abstractRun ops)) ∧ KeyedList.Unique pairOf (abstractRun ops) := by
  induction ops using List.reverseRecOn with
  | nil => exact ⟨rfl, List.nodup_nil⟩
  | append_singleton ops op ih =>
    have habs : abstractRun (ops ++ [op]) = applyOp (abstractRun ops) op := by
      rw [abstractRun, List.foldl_append]
      rfl
    rw [habs]
    refine ⟨?_, applyOp_unique ih.2 op⟩
    rw [run] at ih ⊢
    rw [List.foldlM_append, ih.1]
    change (apply (infos (abstractRun ops)) op >>= pure) = _
    rw [apply_eq_applyOp ih.2 op]
    rfl

end Refinement

section Lookups

def named (serviceName : JavaString) (i : NamedInfo) : Bool := decide (i.name = serviceName)

theorem equals_named (i : NamedInfo) (serviceName : JavaString) :
    equals i.info.name (some serviceName) = .ok (named serviceName i) := by
  rw [i.hasName, equals_some, named]

theorem countFrom_eq (serviceName : JavaString) (i : ℕ) (registry : List NamedInfo) :
    countFrom (some serviceName) i (infos registry) =
      .ok (i + (registry.filter (named serviceName)).length) := by
  induction registry generalizing i with
  | nil => rfl
  | cons x rest ih =>
    rw [infos, List.map_cons, countFrom, equals_named]
    change countFrom (some serviceName) (if named serviceName x = true then i + 1 else i)
      (infos rest) = _
    rw [ih]
    by_cases hx : named serviceName x = true
    · rw [if_pos hx, List.filter_cons_of_pos hx, List.length_cons]
      congr 1
      omega
    · rw [if_neg hx, List.filter_cons_of_neg hx]

theorem getCount_eq (serviceName : JavaString) (registry : List NamedInfo) :
    getCount (some serviceName) (infos registry) =
      .ok (registry.filter (named serviceName)).length := by
  rw [getCount, countFrom_eq, Nat.zero_add]

theorem getFrom_past (serviceName : JavaString) {index i : ℕ} (h : index < i)
    (registry : List NamedInfo) :
    getFrom (some serviceName) index i (infos registry) = .ok none := by
  induction registry generalizing i with
  | nil => rfl
  | cons x rest ih =>
    have hne : (i == index) = false := beq_eq_false_iff_ne.2 (Nat.ne_of_gt h)
    rw [infos, List.map_cons, getFrom, equals_named]
    change (if (named serviceName x && i == index) = true then _ else _) = _
    rw [hne, Bool.and_false, if_neg (by decide)]
    exact ih (h.trans (Nat.lt_succ_self i))

/-- The entry at the index, if it has the name; the index counts all entries. -/
theorem getFrom_eq (serviceName : JavaString) {index i : ℕ} (h : i ≤ index)
    (registry : List NamedInfo) :
    getFrom (some serviceName) index i (infos registry) =
      .ok ((registry[index - i]?.filter (named serviceName)).map NamedInfo.info) := by
  induction registry generalizing i with
  | nil => rfl
  | cons x rest ih =>
    rw [infos, List.map_cons, getFrom, equals_named]
    change (if (named serviceName x && i == index) = true then Except.ok (some x.info)
      else getFrom (some serviceName) index (i + 1) (infos rest)) = _
    by_cases he : i = index
    · subst he
      rw [Nat.sub_self, List.getElem?_cons_zero, beq_self_eq_true, Bool.and_true]
      by_cases hx : named serviceName x = true
      · rw [if_pos hx, Option.filter_some_pos hx]
        rfl
      · rw [if_neg hx, Option.filter_some_neg (by simpa using hx)]
        exact getFrom_past serviceName (Nat.lt_succ_self i) rest
    · rw [beq_eq_false_iff_ne.2 he, Bool.and_false, if_neg (by decide), ih (by omega)]
      have hi : index - i = (index - (i + 1)) + 1 := by omega
      rw [hi, List.getElem?_cons_succ]

theorem get_eq (serviceName : JavaString) (index : ℕ) (registry : List NamedInfo) :
    get (some serviceName) index (infos registry) =
      .ok ((registry[index]?.filter (named serviceName)).map NamedInfo.info) :=
  getFrom_eq serviceName (Nat.zero_le index) registry

end Lookups

end MiniServiceDiscover.JavaProvider
