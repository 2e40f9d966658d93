import Mathlib.Data.List.Basic

set_option autoImplicit false

/-! A linked list that counts its modifications, its fail-fast iterator, and the
for-each loop over it, whose body may modify the list. -/
namespace MiniServiceDiscover.FailFast

variable {α : Type*}

inductive Fault where
  | concurrentModification
  | noSuchElement
  deriving DecidableEq, Repr

structure Linked (α : Type*) where
  items : List α
  modCount : ℕ
  deriving DecidableEq, Repr

structure Iter where
  nextIndex : ℕ
  expectedModCount : ℕ
  deriving DecidableEq, Repr

def Linked.ofList (items : List α) : Linked α := ⟨items, 0⟩

def Linked.iterator (l : Linked α) : Iter := ⟨0, l.modCount⟩

/-- `hasNext` compares the index with the size, and nothing else. -/
def Iter.hasNext (it : Iter) (l : Linked α) : Prop := it.nextIndex < l.items.length

instance (it : Iter) (l : Linked α) : Decidable (it.hasNext l) := by
  unfold Iter.hasNext
  infer_instance

def Iter.next (it : Iter) (l : Linked α) : Except Fault Iter :=
  if l.modCount ≠ it.expectedModCount then .error .concurrentModification
  else if it.hasNext l then .ok { it with nextIndex := it.nextIndex + 1 }
  else .error .noSuchElement

/-- The removal of the element at an index. -/
def Linked.removeAt (l : Linked α) (i : ℕ) : Linked α := ⟨l.items.eraseIdx i, l.modCount + 1⟩

/-- The loop, with at most `left` passes to go; its body is given the index of the
element it visits. -/
def forEach (body : ℕ → Linked α → Linked α) : ℕ → Iter → Linked α → Linked α × Option Fault
  | 0, _, l => (l, none)
  | left + 1, it, l =>
    if it.hasNext l then
      match it.next l with
      | .error e => (l, some e)
      | .ok it' => forEach body left it' (body it.nextIndex l)
    else (l, none)

section Loop
variable {body : ℕ → Linked α → Linked α} {left : ℕ} {it : Iter} {l : Linked α}

theorem forEach_ends (h : ¬ it.hasNext l) : forEach body left it l = (l, none) := by
  cases left with
  | zero => rfl
  | succ left =>
    rw [forEach]
    exact if_neg h

theorem forEach_visits (h : it.hasNext l) (hm : l.modCount = it.expectedModCount) :
    forEach body (left + 1) it l =
      forEach body left { it with nextIndex := it.nextIndex + 1 } (body it.nextIndex l) := by
  have hn : it.next l = .ok { it with nextIndex := it.nextIndex + 1 } := by
    rw [Iter.next, if_neg (not_not_intro hm), if_pos h]
  rw [forEach, if_pos h, hn]

/-- A modification is noticed at the next element, if there is one. -/
theorem forEach_modified (h : it.hasNext l) (hm : l.modCount ≠ it.expectedModCount) :
    forEach body (left + 1) it l = (l, some .concurrentModification) := by
  have hn : it.next l = .error .concurrentModification := by
    rw [Iter.next, if_pos hm]
  rw [forEach, if_pos h, hn]

end Loop

end MiniServiceDiscover.FailFast
