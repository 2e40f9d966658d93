import Mathlib.Data.Finset.Card
import Mathlib.Data.Finset.Range
import Mathlib.Tactic.Basic

set_option autoImplicit false

/-! Programs on blocks that are allocated, read, written and freed: what becomes of the other
blocks, how many are left, and when such a program does what one without a memory does. -/
namespace MiniServiceDiscover.BlockMemory

section Memories

/-- Addresses are given out in order, and that of a freed block never again. -/
structure Memory (α : Type) where
  block : ℕ → Option α
  top : ℕ
  fresh : ∀ p, top ≤ p → block p = none

variable {α : Type}

def Memory.empty : Memory α := ⟨fun _ => none, 0, fun _ _ => rfl⟩

theorem Memory.lt_top {m : Memory α} {p : ℕ} (h : (m.block p).isSome) : p < m.top := by
  by_contra hp
  rw [m.fresh p (Nat.le_of_not_lt hp)] at h
  cases h

/-- The memory with one block more. -/
def Memory.push (m : Memory α) (a : α) : Memory α where
  block := Function.update m.block m.top (some a)
  top := m.top + 1
  fresh p hp := by
    rw [Function.update_of_ne (by omega)]
    exact m.fresh p (by omega)

/-- The memory with another content of a live block, or without it. -/
def Memory.put (m : Memory α) (p : ℕ) (o : Option α) (h : (m.block p).isSome) : Memory α where
  block := Function.update m.block p o
  top := m.top
  fresh q hq := by
    have hlt := m.lt_top h
    rw [Function.update_of_ne (by omega)]
    exact m.fresh q hq

/-- The blocks that have not been freed. -/
def Memory.live (m : Memory α) : Finset ℕ :=
  (Finset.range m.top).filter fun p => (m.block p).isSome

def Memory.count (m : Memory α) : ℕ := m.live.card

variable {m : Memory α} {p q : ℕ} {a : α}

theorem mem_live : p ∈ m.live ↔ (m.block p).isSome := by
  rw [Memory.live, Finset.mem_filter, Finset.mem_range]
  exact ⟨fun h => h.2, fun h => ⟨m.lt_top h, h⟩⟩

theorem push_top : (m.push a).block m.top = some a := Function.update_self _ _ _

theorem push_below (h : p < m.top) : (m.push a).block p = m.block p :=
  Function.update_of_ne (by omega) _ _

theorem push_keeps {b : α} (h : m.block p = some b) : (m.push a).block p = some b := by
  rw [push_below (m.lt_top (Option.isSome_iff_exists.2 ⟨b, h⟩)), h]

theorem put_same (o : Option α) (h : (m.block p).isSome) : (m.put p o h).block p = o :=
  Function.update_self _ _ _

theorem put_other (o : Option α) (h : (m.block p).isSome) (hq : q ≠ p) :
    (m.put p o h).block q = m.block q :=
  Function.update_of_ne hq _ _

theorem push_count : (m.push a).count = m.count + 1 := by
  have hlive : (m.push a).live = insert m.top m.live := by
    ext p
    rw [Finset.mem_insert, mem_live, mem_live]
    by_cases hp : p = m.top
    · subst hp
      rw [push_top]
      exact iff_of_true rfl (.inl rfl)
    · rw [or_iff_right hp]
      change ((Function.update m.block m.top (some a) p).isSome = true) ↔ _
      rw [Function.update_of_ne hp]
  have hnew : m.top ∉ m.live := by
    rw [mem_live, m.fresh m.top le_rfl]
    exact Bool.false_ne_true
  rw [Memory.count, hlive, Finset.card_insert_of_notMem hnew]
  rfl

theorem put_some_count (h : (m.block p).isSome) : (m.put p (some a) h).count = m.count := by
  refine congrArg Finset.card (Finset.ext fun q => ?_)
  rw [mem_live, mem_live]
  by_cases hq : q = p
  · subst hq
    rw [put_same]
    exact iff_of_true rfl h
  · rw [put_other _ h hq]

theorem put_none_count (h : (m.block p).isSome) : (m.put p none h).count + 1 = m.count := by
  have hlive : (m.put p none h).live = m.live.erase p := by
    ext q
    rw [Finset.mem_erase, mem_live, mem_live]
    by_cases hq : q = p
    · subst hq
      rw [put_same]
      exact iff_of_false Bool.false_ne_true fun hne => hne.1 rfl
    · rw [put_other _ h hq, and_iff_right hq]
  rw [Memory.count, hlive]
  exact Finset.card_erase_add_one (mem_live.2 h)

end Memories

section Programs

/-- What a program on a memory fails with: an error of its own, or a block that is not live or
not what it is taken for. -/
inductive Failure (ε : Type) where
  | fault (e : ε)
  | notLive (p : ℕ)
  deriving DecidableEq, Repr

abbrev Prog (α ε β : Type) := StateT (Memory α) (Except (Failure ε)) β

variable {α ε β : Type}

/-- A step that touches no memory. -/
def lift (x : Except ε β) : Prog α ε β := fun m =>
  match x with
  | .ok b => .ok (b, m)
  | .error e => .error (.fault e)

def malloc (a : α) : Prog α ε ℕ := fun m => .ok (m.top, m.push a)

/-- Reads a block as what it is taken for. -/
def read (view : α → Option β) (p : ℕ) : Prog α ε β := fun m =>
  match (m.block p).bind view with
  | some b => .ok (b, m)
  | none => .error (.notLive p)

def write (p : ℕ) (a : α) : Prog α ε Unit := fun m =>
  if h : (m.block p).isSome then .ok ((), m.put p (some a) h) else .error (.notLive p)

def free (p : ℕ) : Prog α ε Unit := fun m =>
  if h : (m.block p).isSome then .ok ((), m.put p none h) else .error (.notLive p)

def freeAll : List ℕ → Prog α ε Unit
  | [] => pure ()
  | p :: ps => do
    free p
    freeAll ps

variable {m : Memory α} {p : ℕ} {a : α}

theorem step_eq {γ : Type} {x : Prog α ε β} {f : β → Prog α ε γ} {b : β} {m' : Memory α}
    (hx : x m = .ok (b, m')) : (x >>= f) m = f b m' := by
  change (x m >>= fun r => f r.1 r.2) = _
  rw [hx]
  rfl

theorem step_error {γ : Type} {x : Prog α ε β} {f : β → Prog α ε γ} {e : Failure ε}
    (hx : x m = .error e) : (x >>= f) m = .error e := by
  change (x m >>= fun r => f r.1 r.2) = _
  rw [hx]
  rfl

theorem malloc_eq (m : Memory α) (a : α) :
    (malloc a : Prog α ε ℕ) m = .ok (m.top, m.push a) := rfl

theorem read_eq {view : α → Option β} {b : β} (ha : m.block p = some a) (hb : view a = some b) :
    (read view p : Prog α ε β) m = .ok (b, m) := by
  rw [read, ha]
  change (match view a with | some b => _ | none => _) = _
  rw [hb]

theorem write_eq (h : (m.block p).isSome) :
    (write p a : Prog α ε Unit) m = .ok ((), m.put p (some a) h) := dif_pos h

theorem free_eq (h : (m.block p).isSome) :
    (free p : Prog α ε Unit) m = .ok ((), m.put p none h) := dif_pos h

end Programs

section Returning
variable {α ε β γ : Type}

/-- The program returns, and this holds of what it returns and leaves behind. -/
def Returns (m : Memory α) (x : Prog α ε β) (Q : β → Memory α → Prop) : Prop :=
  ∃ b m', x m = .ok (b, m') ∧ Q b m'

variable {m : Memory α} {x : Prog α ε β} {f : β → Prog α ε γ} {Q R : β → Memory α → Prop}
  {T : γ → Memory α → Prop} {p : ℕ} {a : α}

theorem Returns.mono (h : Returns m x Q) (hQ : ∀ b m', Q b m' → R b m') : Returns m x R := by
  obtain ⟨b, m', hx, hb⟩ := h
  exact ⟨b, m', hx, hQ b m' hb⟩

theorem returns_pure {b : β} (h : Q b m) : Returns m (pure b : Prog α ε β) Q := ⟨b, m, rfl, h⟩

theorem Returns.step {b : β} {m' : Memory α} (hx : x m = .ok (b, m')) (h : Returns m' (f b) T) :
    Returns m (x >>= f) T := by
  obtain ⟨c, m'', hy, hc⟩ := h
  exact ⟨c, m'', (step_eq hx).trans hy, hc⟩

theorem Returns.bind (h : Returns m x Q) (hf : ∀ b m', Q b m' → Returns m' (f b) T) :
    Returns m (x >>= f) T := by
  obtain ⟨b, m', hx, hb⟩ := h
  exact Returns.step hx (hf b m' hb)

theorem returns_write {Q : Unit → Memory α → Prop} (hp : (m.block p).isSome)
    (h : Q () (m.put p (some a) hp)) : Returns m (write p a : Prog α ε Unit) Q :=
  ⟨(), _, write_eq hp, h⟩

theorem returns_free {Q : Unit → Memory α → Prop} (hp : (m.block p).isSome)
    (h : Q () (m.put p none hp)) : Returns m (free p : Prog α ε Unit) Q :=
  ⟨(), _, free_eq hp, h⟩

end Returning

section Growth
variable {α ε : Type} {m m' m'' : Memory α} {n k p : ℕ}

/-- All that was there is untouched, and there are so many blocks more. -/
structure Grows (m m' : Memory α) (n : ℕ) : Prop where
  top : m.top ≤ m'.top
  below : ∀ p < m.top, m'.block p = m.block p
  count : m'.count = m.count + n

theorem Grows.refl (m : Memory α) : Grows m m 0 := ⟨le_rfl, fun _ _ => rfl, rfl⟩

theorem Grows.trans (h : Grows m m' n) (h' : Grows m' m'' k) : Grows m m'' (n + k) where
  top := h.top.trans h'.top
  below p hp := (h'.below p (hp.trans_le h.top)).trans (h.below p hp)
  count := by rw [h'.count, h.count, Nat.add_assoc]

theorem Grows.keeps (h : Grows m m' n) {a : α} (hp : m.block p = some a) :
    m'.block p = some a := by
  rw [h.below p (m.lt_top (Option.isSome_iff_exists.2 ⟨a, hp⟩)), hp]

theorem grows_push (m : Memory α) (a : α) : Grows m (m.push a) 1 :=
  ⟨Nat.le_succ _, fun _ hp => push_below hp, push_count⟩

theorem Grows.put (h : Grows m m' n) (hp : m.top ≤ p) (a : α) (hlive : (m'.block p).isSome) :
    Grows m (m'.put p (some a) hlive) n where
  top := h.top
  below q hq := (put_other _ hlive (by omega)).trans (h.below q hq)
  count := (put_some_count hlive).trans h.count

theorem Grows.drop (h : Grows m m' (n + 1)) (hp : m.top ≤ p) (hlive : (m'.block p).isSome) :
    Grows m (m'.put p none hlive) n where
  top := h.top
  below q hq := (put_other _ hlive (by omega)).trans (h.below q hq)
  count := by
    have hcount := put_none_count hlive
    rw [h.count] at hcount
    omega

theorem freeAll_append (ps qs : List ℕ) : (freeAll (ps ++ qs) : Prog α ε Unit) = (do
    freeAll ps
    freeAll qs) := by
  induction ps with
  | nil => rfl
  | cons p ps ih =>
    change (free p >>= fun _ => freeAll (ps ++ qs)) =
      ((free p >>= fun _ => freeAll ps) >>= fun _ => freeAll qs)
    rw [ih, bind_assoc]

theorem freeAll_singleton (p : ℕ) : (freeAll [p] : Prog α ε Unit) = free p := bind_pure_unit

/-- Blocks that are live and different can all be freed, and no other is. -/
theorem returns_freeAll {ps : List ℕ} (hlive : ∀ p ∈ ps, (m.block p).isSome) (hps : ps.Nodup) :
    Returns m (freeAll ps : Prog α ε Unit) fun _ m' => m'.top = m.top ∧
      (∀ q, q ∉ ps → m'.block q = m.block q) ∧ m'.count + ps.length = m.count := by
  induction ps generalizing m with
  | nil => exact returns_pure ⟨rfl, fun _ _ => rfl, rfl⟩
  | cons p ps ih =>
    rw [List.forall_mem_cons] at hlive
    rw [List.nodup_cons] at hps
    refine Returns.step (free_eq hlive.1) ?_
    have hne : ∀ q ∈ ps, q ≠ p := fun q hq he => hps.1 (he ▸ hq)
    refine (ih (fun q hq => ?_) hps.2).mono fun _ m' h => ⟨h.1, fun q hq => ?_, ?_⟩
    · rw [put_other _ _ (hne q hq)]
      exact hlive.2 q hq
    · rw [List.mem_cons, not_or] at hq
      exact (h.2.1 q hq.2).trans (put_other _ _ hq.1)
    · rw [List.length_cons, ← put_none_count hlive.1, ← h.2.2]
      omega

/-- Blocks that are new can all be freed again. -/
theorem Grows.freeAll {ps : List ℕ} (h : Grows m m' ps.length)
    (hnew : ∀ p ∈ ps, m.top ≤ p ∧ (m'.block p).isSome) (hps : ps.Nodup) :
    Returns m' (freeAll ps : Prog α ε Unit) fun _ m'' => Grows m m'' 0 := by
  refine (returns_freeAll (fun p hp => (hnew p hp).2) hps).mono fun _ m'' h' => ?_
  obtain ⟨htop, hrest, hcount⟩ := h'
  refine ⟨h.top.trans htop.ge, fun q hq => ?_, ?_⟩
  · exact (hrest q fun hmem => absurd (hnew q hmem).1 (Nat.not_le.2 hq)).trans (h.below q hq)
  · rw [h.count] at hcount
    omega

end Growth

section Simulation
variable {α ε β γ δ η : Type}

/-- On this memory the program does what the one without a memory does: both fail with the same
error, or both return, and their results are related. -/
inductive Simulates (m : Memory α) (x : Prog α ε β) (y : Except ε γ)
    (Q : β → Memory α → γ → Prop) : Prop where
  | returns (b : β) (m' : Memory α) (c : γ) (left : x m = .ok (b, m')) (right : y = .ok c)
      (related : Q b m' c)
  | fails (e : ε) (left : x m = .error (.fault e)) (right : y = .error e)

variable {m : Memory α} {x : Prog α ε β} {y : Except ε γ} {f : β → Prog α ε δ}
  {g : γ → Except ε η} {Q : β → Memory α → γ → Prop} {R : δ → Memory α → η → Prop}

theorem Simulates.mono {Q' : β → Memory α → γ → Prop} (h : Simulates m x y Q)
    (hQ : ∀ b m' c, Q b m' c → Q' b m' c) : Simulates m x y Q' := by
  cases h with
  | returns b m' c left right related => exact .returns b m' c left right (hQ b m' c related)
  | fails e left right => exact .fails e left right

theorem simulates_pure {b : β} {c : γ} (h : Q b m c) :
    Simulates m (pure b : Prog α ε β) (.ok c) Q := .returns b m c rfl rfl h

theorem Simulates.bind (h : Simulates m x y Q)
    (hf : ∀ b m' c, Q b m' c → Simulates m' (f b) (g c) R) :
    Simulates m (x >>= f) (y >>= g) R := by
  cases h with
  | returns b m' c left right related =>
    rw [right]
    cases hf b m' c related with
    | returns d m'' e left' right' related' =>
      exact .returns d m'' e ((step_eq left).trans left') right' related'
    | fails e left' right' => exact .fails e ((step_eq left).trans left') right'
  | fails e left right =>
    rw [right]
    exact .fails e (step_error left) rfl

theorem Simulates.step {z : Except ε η} {b : β} {m' : Memory α} (hx : x m = .ok (b, m'))
    (h : Simulates m' (f b) z R) : Simulates m (x >>= f) z R := by
  cases h with
  | returns d m'' e left right related =>
    exact .returns d m'' e ((step_eq hx).trans left) right related
  | fails e left right => exact .fails e ((step_eq hx).trans left) right

/-- A step on the memory alone. -/
theorem Simulates.after {z : Except ε η} {P : β → Memory α → Prop} (h : Returns m x P)
    (hf : ∀ b m', P b m' → Simulates m' (f b) z R) : Simulates m (x >>= f) z R := by
  obtain ⟨b, m', hx, hb⟩ := h
  exact Simulates.step hx (hf b m' hb)

/-- The last steps are on the memory alone. -/
theorem Simulates.before {S : δ → Memory α → γ → Prop} (h : Simulates m x y Q)
    (hf : ∀ b m' c, Q b m' c → Returns m' (f b) fun d m'' => S d m'' c) :
    Simulates m (x >>= f) y S := by
  cases h with
  | returns b m' c left right related =>
    obtain ⟨d, m'', hd, hS⟩ := hf b m' c related
    exact .returns d m'' c ((step_eq left).trans hd) right hS
  | fails e left right => exact .fails e (step_error left) right

/-- The other one goes on to return what is made of its result. -/
theorem Simulates.made {g : γ → η} {S : β → Memory α → η → Prop}
    (h : Simulates m x y fun b m' c => S b m' (g c)) :
    Simulates m x (do
      let c ← y
      pure (g c)) S := by
  cases h with
  | returns b m' c left right related =>
    rw [right]
    exact .returns b m' (g c) left rfl related
  | fails e left right =>
    rw [right]
    exact .fails e left rfl

theorem Simulates.mapped {g : γ → η} {S : β → Memory α → η → Prop}
    (h : Simulates m x y fun b m' c => S b m' (g c)) : Simulates m x (y.map g) S := by
  have hmade := h.made
  cases y with
  | ok c => exact hmade
  | error e => exact hmade

/-- What the other one returns is what it returned. -/
theorem Simulates.known (h : Simulates m x y Q) :
    Simulates m x y fun b m' c => y = .ok c ∧ Q b m' c := by
  cases h with
  | returns b m' c left right related => exact .returns b m' c left right ⟨right, related⟩
  | fails e left right => exact .fails e left right

theorem Returns.simulates {c : γ} (h : Returns m x fun b m' => Q b m' c) :
    Simulates m x (.ok c : Except ε γ) Q := by
  obtain ⟨b, m', hx, hb⟩ := h
  exact .returns b m' c hx rfl hb

theorem simulates_lift (m : Memory α) (y : Except ε γ) :
    Simulates m (lift y) y fun c m' c' => c = c' ∧ m' = m := by
  cases y with
  | ok c => exact .returns c m c rfl rfl ⟨rfl, rfl⟩
  | error e => exact .fails e rfl rfl

theorem Simulates.ok (h : Simulates m x y Q) {c : γ} (hy : y = .ok c) :
    ∃ b m', x m = .ok (b, m') ∧ Q b m' c := by
  cases h with
  | returns b m' c' left right related =>
    obtain rfl := Except.ok.inj (right.symm.trans hy)
    exact ⟨b, m', left, related⟩
  | fails e _ right => exact nomatch right.symm.trans hy

theorem Simulates.error (h : Simulates m x y Q) {e : ε} (hy : y = .error e) :
    x m = .error (.fault e) := by
  cases h with
  | returns b m' c _ right _ => exact nomatch right.symm.trans hy
  | fails e' left right =>
    obtain rfl := Except.error.inj (right.symm.trans hy)
    exact left

end Simulation

end MiniServiceDiscover.BlockMemory
