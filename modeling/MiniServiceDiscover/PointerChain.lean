import Mathlib.Data.List.Basic
import Mathlib.Data.List.Nodup
import Mathlib.Tactic.Basic

set_option autoImplicit false

/-! Singly linked cells in a heap: the cells met from one pointer to another, and
what writing, unlinking and linking do to them. -/
namespace MiniServiceDiscover.PointerChain

abbrev Ptr := ℕ

structure Cell (α : Type) where
  value : α
  next : Option Ptr
  deriving DecidableEq, Repr

abbrev Heap (α : Type) := Ptr → Option (Cell α)

section Heaps
variable {α : Type}

def write (heap : Heap α) (p : Ptr) (c : Cell α) : Heap α := fun q => if q = p then some c else heap q

theorem write_same (heap : Heap α) (p : Ptr) (c : Cell α) : write heap p c p = some c := if_pos rfl

theorem write_other {heap : Heap α} {p q : Ptr} (h : q ≠ p) (c : Cell α) :
    write heap p c q = heap q := if_neg h

/-- The cells from `start` up to, and without, `stop`. -/
def Segment (heap : Heap α) (start : Option Ptr) : List (Ptr × α) → Option Ptr → Prop
  | [], stop => start = stop
  | (p, v) :: cells, stop =>
    start = some p ∧ ∃ next, heap p = some ⟨v, next⟩ ∧ Segment heap next cells stop

/-- A list that ends: the cells from `start` up to the null pointer. -/
def Chain (heap : Heap α) (start : Option Ptr) (cells : List (Ptr × α)) : Prop :=
  Segment heap start cells none

end Heaps

section Segments
variable {α : Type} {heap : Heap α}

theorem segment_append {start stop : Option Ptr} {xs ys : List (Ptr × α)} :
    Segment heap start (xs ++ ys) stop ↔
      ∃ mid, Segment heap start xs mid ∧ Segment heap mid ys stop := by
  induction xs generalizing start with
  | nil => simp [Segment]
  | cons x xs ih =>
    obtain ⟨p, v⟩ := x
    simp only [List.cons_append, Segment, ih]
    constructor
    · rintro ⟨hs, next, hp, mid, hx, hy⟩
      exact ⟨mid, ⟨hs, next, hp, hx⟩, hy⟩
    · rintro ⟨mid, ⟨hs, next, hp, hx⟩, hy⟩
      exact ⟨hs, next, hp, mid, hx, hy⟩

/-- A write outside a segment leaves it alone. -/
theorem Segment.write {start stop : Option Ptr} {cells : List (Ptr × α)} {p : Ptr}
    (h : Segment heap start cells stop) (hp : p ∉ cells.map Prod.fst) (c : Cell α) :
    Segment (write heap p c) start cells stop := by
  induction cells generalizing start with
  | nil => exact h
  | cons x cells ih =>
    obtain ⟨q, v⟩ := x
    obtain ⟨hs, next, hq, hr⟩ := h
    simp only [List.map_cons, List.mem_cons, not_or] at hp
    exact ⟨hs, next, by rw [write_other (Ne.symm hp.1), hq], ih hr hp.2⟩

theorem Segment.allocated {start stop : Option Ptr} {cells : List (Ptr × α)}
    (h : Segment heap start cells stop) {p : Ptr} (hp : p ∈ cells.map Prod.fst) :
    (heap p).isSome := by
  induction cells generalizing start with
  | nil => cases hp
  | cons x cells ih =>
    obtain ⟨q, v⟩ := x
    obtain ⟨-, next, hq, hr⟩ := h
    rw [List.map_cons, List.mem_cons] at hp
    rcases hp with rfl | hp
    · exact Option.isSome_iff_exists.2 ⟨_, hq⟩
    · exact ih hr hp

theorem Chain.eq_nil_iff {start : Option Ptr} {cells : List (Ptr × α)}
    (h : Chain heap start cells) : cells = [] ↔ start = none := by
  cases cells with
  | nil => exact ⟨fun _ => h, fun _ => rfl⟩
  | cons x cells =>
    obtain ⟨p, v⟩ := x
    have hs : start = some p := h.1
    simp [hs]

/-- Following the links is deterministic. -/
theorem Chain.unique {start : Option Ptr} {xs ys : List (Ptr × α)}
    (hx : Chain heap start xs) (hy : Chain heap start ys) : xs = ys := by
  induction xs generalizing start ys with
  | nil => exact (hy.eq_nil_iff.2 hx).symm
  | cons x xs ih =>
    obtain ⟨p, v⟩ := x
    obtain ⟨rfl, next, hp, hr⟩ := hx
    cases ys with
    | nil => cases hy
    | cons y ys =>
      obtain ⟨q, w⟩ := y
      obtain ⟨hq, next', hq', hr'⟩ := hy
      obtain rfl := Option.some.inj hq
      obtain ⟨rfl, rfl⟩ := Cell.mk.inj (Option.some.inj (hp.symm.trans hq'))
      rw [ih hr hr']

/-- A list that ends is acyclic. -/
theorem Chain.nodup {start : Option Ptr} {cells : List (Ptr × α)} (h : Chain heap start cells) :
    (cells.map Prod.fst).Nodup := by
  induction cells generalizing start with
  | nil => exact List.nodup_nil
  | cons x cells ih =>
    obtain ⟨p, v⟩ := x
    obtain ⟨hs, next, hp, hr⟩ := h
    rw [List.map_cons, List.nodup_cons]
    refine ⟨?_, ih hr⟩
    intro hmem
    obtain ⟨⟨q, w⟩, hq, rfl⟩ := List.mem_map.1 hmem
    obtain ⟨pre, post, rfl⟩ := List.append_of_mem hq
    obtain ⟨mid, -, hmid, next', hq', hpost⟩ := segment_append.1 hr
    have hwhole : Chain heap (some q) ((q, v) :: (pre ++ (q, w) :: post)) := ⟨rfl, next, hp, hr⟩
    have hpart : Chain heap (some q) ((q, w) :: post) := ⟨rfl, next', hq', hpost⟩
    have hl := congrArg List.length (hwhole.unique hpart)
    simp only [List.length_cons, List.length_append] at hl
    omega

/-- The cell behind a prefix is stored, and links to the rest. -/
theorem Chain.split {start : Option Ptr} {pre post : List (Ptr × α)} {p : Ptr} {v : α}
    (h : Chain heap start (pre ++ (p, v) :: post)) :
    ∃ next, Segment heap start pre (some p) ∧ heap p = some ⟨v, next⟩ ∧ Chain heap next post := by
  obtain ⟨mid, hpre, rfl, next, hp, hpost⟩ := segment_append.1 h
  exact ⟨next, hpre, hp, hpost⟩

/-- Redirecting the link of one cell replaces everything behind it. -/
theorem Chain.relink {start : Option Ptr} {pre post rest : List (Ptr × α)} {p : Ptr} {v : α}
    {next : Option Ptr} (h : Chain heap start (pre ++ (p, v) :: post))
    (hrest : Chain heap next rest) (hp : p ∉ rest.map Prod.fst) :
    Chain (write heap p ⟨v, next⟩) start (pre ++ (p, v) :: rest) := by
  have hn := h.nodup
  rw [List.map_append, List.map_cons, List.nodup_append] at hn
  have hpre : p ∉ pre.map Prod.fst := fun hm => hn.2.2 p hm p (by simp) rfl
  obtain ⟨next', hseg, hcell, -⟩ := h.split
  exact segment_append.2 ⟨some p, hseg.write hpre _, rfl, next, write_same _ _ _,
    Segment.write hrest hp _⟩

end Segments

end MiniServiceDiscover.PointerChain
