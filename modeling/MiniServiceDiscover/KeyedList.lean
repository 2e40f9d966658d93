import Mathlib.Data.List.Basic
import Mathlib.Data.List.Induction
import Mathlib.Data.List.Nodup
import Mathlib.Data.List.TakeWhile
import Mathlib.Data.Set.Card
import Mathlib.Tactic.Basic

set_option autoImplicit false

/-!
# Key-unique lists and the histories that produce them

A registry is a list in which a key occurs at most once. The implementations
unlink the first match of a scan; on a key-unique list that is the deletion of
every entry with the key, which is what `delete` says.
-/
namespace MiniServiceDiscover.KeyedList

section Keys
variable {α κ : Type} (key : α → κ)

def Unique (l : List α) : Prop := (l.map key).Nodup

def Present (k : κ) (l : List α) : Prop := ∃ x ∈ l, key x = k

instance [DecidableEq κ] (k : κ) (l : List α) : Decidable (Present key k l) :=
  inferInstanceAs (Decidable (∃ x ∈ l, key x = k))

theorem present_cons {k : κ} {x : α} {l : List α} :
    Present key k (x :: l) ↔ key x = k ∨ Present key k l := by
  simp [Present]

theorem unique_nil : Unique key ([] : List α) := List.nodup_nil

theorem unique_cons {x : α} {l : List α} :
    Unique key (x :: l) ↔ ¬ Present key (key x) l ∧ Unique key l := by
  simp [Unique, Present]

end Keys

section Entries
variable {α κ : Type} [DecidableEq κ] (key : α → κ)

def delete (k : κ) (l : List α) : List α := l.filter (fun x => key x ≠ k)

def putFront (v : α) (l : List α) : List α := v :: delete key (key v) l

def putBack (v : α) (l : List α) : List α := delete key (key v) l ++ [v]

theorem mem_delete {k : κ} {l : List α} {x : α} : x ∈ delete key k l ↔ x ∈ l ∧ key x ≠ k := by
  simp [delete]

theorem mem_of_mem_putBacks {vs l : List α} {x : α}
    (h : x ∈ vs.foldl (fun l v => putBack key v l) l) : x ∈ vs ∨ x ∈ l := by
  induction vs generalizing l with
  | nil => exact .inr h
  | cons v vs ih =>
    rcases ih h with hx | hx
    · exact .inl (List.mem_cons_of_mem v hx)
    · rcases List.mem_append.1 hx with hx | hx
      · exact .inr ((mem_delete key).1 hx).1
      · exact .inl (List.mem_singleton.1 hx ▸ List.mem_cons_self)

theorem delete_eq_self {k : κ} {l : List α} (h : ¬ Present key k l) : delete key k l = l := by
  apply List.filter_eq_self.2
  intro x hx
  simpa using fun hk => h ⟨x, hx, hk⟩

theorem delete_cons (k : κ) (x : α) (l : List α) :
    delete key k (x :: l) = if key x = k then delete key k l else x :: delete key k l := by
  by_cases h : key x = k <;> simp [delete, h]

theorem delete_split {pre post : List α} {x : α} (h : Unique key (pre ++ x :: post)) :
    delete key (key x) (pre ++ x :: post) = pre ++ post := by
  rw [Unique, List.map_append, List.map_cons, List.nodup_middle, List.nodup_cons,
    ← List.map_append] at h
  have hrest : delete key (key x) (pre ++ post) = pre ++ post :=
    delete_eq_self key fun ⟨y, hy, hk⟩ => h.1 (hk ▸ List.mem_map_of_mem hy)
  rw [delete, List.filter_append, List.filter_cons_of_neg (by simp), ← List.filter_append]
  exact hrest

theorem delete_unique {l : List α} (h : Unique key l) (k : κ) : Unique key (delete key k l) :=
  h.sublist (List.filter_sublist.map key)

theorem delete_length (k : κ) (l : List α) : (delete key k l).length ≤ l.length :=
  List.length_filter_le _ _

theorem not_present_delete (k : κ) (l : List α) : ¬ Present key k (delete key k l) := by
  rintro ⟨x, hx, hk⟩
  exact ((mem_delete key).1 hx).2 hk

theorem putFront_unique {l : List α} (h : Unique key l) (v : α) : Unique key (putFront key v l) :=
  (unique_cons key).2 ⟨not_present_delete key (key v) l, delete_unique key h (key v)⟩

theorem putBack_unique {l : List α} (h : Unique key l) (v : α) : Unique key (putBack key v l) := by
  have hd := delete_unique key h (key v)
  have hn := not_present_delete key (key v) l
  unfold Unique putBack at *
  rw [List.map_append, List.nodup_append]
  refine ⟨hd, List.nodup_singleton _, ?_⟩
  intro a ha b hb
  obtain ⟨x, hx, rfl⟩ := List.mem_map.1 ha
  rw [List.map_singleton, List.mem_singleton] at hb
  subst hb
  exact fun he => hn ⟨x, hx, he⟩

/-- Unlinking the first match deletes the key when keys are unique. -/
theorem eraseP_eq_delete {l : List α} (h : Unique key l) (k : κ) :
    l.eraseP (fun x => key x = k) = delete key k l := by
  induction l with
  | nil => rfl
  | cons x l ih =>
    obtain ⟨hx, hl⟩ := (unique_cons key).1 h
    rw [delete_cons]
    by_cases hk : key x = k
    · subst hk
      rw [List.eraseP_cons_of_pos (by simp), if_pos rfl, delete_eq_self key hx]
    · rw [List.eraseP_cons_of_neg (by simpa using hk), if_neg hk, ih hl]

end Entries

section Costs
variable {α κ : Type} [DecidableEq κ] (key : α → κ) (cost : α → ℕ) (k : κ)

theorem delete_cost_le (l : List α) : ((delete key k l).map cost).sum ≤ (l.map cost).sum := by
  induction l with
  | nil => exact le_rfl
  | cons x l ih =>
    rw [delete_cons, List.map_cons, List.sum_cons]
    split_ifs
    · exact ih.trans (Nat.le_add_left _ _)
    · rw [List.map_cons, List.sum_cons]
      exact Nat.add_le_add_left ih _

/-- Where every entry costs something, a deletion that finds one saves something. -/
theorem delete_cost_eq_iff (pos : ∀ v, 0 < cost v) (l : List α) :
    ((delete key k l).map cost).sum = (l.map cost).sum ↔ ¬ Present key k l := by
  refine ⟨fun h => ?_, fun h => by rw [delete_eq_self key h]⟩
  induction l with
  | nil => exact fun ⟨x, hx, _⟩ => absurd hx List.not_mem_nil
  | cons x l ih =>
    have hle := delete_cost_le key cost k l
    have hpos := pos x
    rw [delete_cons, List.map_cons, List.sum_cons] at h
    rw [present_cons, not_or]
    split_ifs at h with hk
    · omega
    · rw [List.map_cons, List.sum_cons] at h
      exact ⟨hk, ih (Nat.add_left_cancel h)⟩

end Costs

section Lasts
variable {α κ : Type} [DecidableEq κ] (key : α → κ)

/-- The last entry of every key, in the order in which they stand. -/
def lasts : List α → List α
  | [] => []
  | v :: l => if Present key (key v) l then lasts l else v :: lasts l

theorem lasts_sublist (l : List α) : (lasts key l).Sublist l := by
  induction l with
  | nil => exact List.Sublist.refl _
  | cons v l ih =>
    rw [lasts]
    split_ifs
    · exact ih.cons v
    · exact ih.cons_cons v

theorem present_lasts_iff (k : κ) (l : List α) : Present key k (lasts key l) ↔ Present key k l := by
  induction l with
  | nil => exact Iff.rfl
  | cons v l ih =>
    rw [lasts, present_cons]
    split_ifs with hv
    · rw [ih]
      exact ⟨.inr, fun h => h.elim (fun he => he ▸ hv) id⟩
    · rw [present_cons, ih]

theorem lasts_unique (l : List α) : Unique key (lasts key l) := by
  induction l with
  | nil => exact unique_nil key
  | cons v l ih =>
    rw [lasts]
    split_ifs with hv
    · exact ih
    · exact (unique_cons key).2 ⟨fun h => hv ((present_lasts_iff key _ l).1 h), ih⟩

theorem mem_lasts_iff (l : List α) (v : α) :
    v ∈ lasts key l ↔ ∃ front back, l = front ++ v :: back ∧ ¬ Present key (key v) back := by
  induction l with
  | nil => simp [lasts]
  | cons w l ih =>
    have hsplit : (∃ front back, w :: l = front ++ v :: back ∧ ¬ Present key (key v) back) ↔
        (w = v ∧ ¬ Present key (key v) l) ∨
          ∃ front back, l = front ++ v :: back ∧ ¬ Present key (key v) back := by
      constructor
      · rintro ⟨_ | ⟨x, front⟩, back, he, hb⟩
        · obtain ⟨rfl, rfl⟩ := List.cons.inj he
          exact .inl ⟨rfl, hb⟩
        · exact .inr ⟨front, back, (List.cons.inj he).2, hb⟩
      · rintro (⟨rfl, hb⟩ | ⟨front, back, rfl, hb⟩)
        · exact ⟨[], l, rfl, hb⟩
        · exact ⟨w :: front, back, rfl, hb⟩
    rw [hsplit, ← ih, lasts]
    split_ifs with hw
    · exact ⟨.inr, fun h => h.elim (fun he => absurd hw (he.1 ▸ he.2)) id⟩
    · rw [List.mem_cons]
      refine or_congr ⟨?_, fun he => he.1.symm⟩ Iff.rfl
      rintro rfl
      exact ⟨rfl, hw⟩

/-- A later entry takes the place of its key. -/
theorem lasts_concat (l : List α) (v : α) : lasts key (l ++ [v]) = putBack key v (lasts key l) := by
  induction l with
  | nil => rfl
  | cons w l ih =>
    have hp : Present key (key w) (l ++ [v]) ↔ Present key (key w) l ∨ key v = key w := by
      simp [Present, or_and_right, exists_or]
    rw [List.cons_append, lasts, lasts, ih, putBack, putBack]
    by_cases hl : Present key (key w) l
    · rw [if_pos (hp.2 (.inl hl)), if_pos hl]
    · by_cases hv : key v = key w
      · rw [if_pos (hp.2 (.inr hv)), if_neg hl, delete_cons, if_pos hv.symm]
      · rw [if_neg (mt hp.1 (not_or.2 ⟨hl, hv⟩)), if_neg hl, delete_cons, if_neg (Ne.symm hv),
          List.cons_append]

theorem lasts_eq_self {l : List α} (h : Unique key l) : lasts key l = l := by
  induction l with
  | nil => rfl
  | cons v l ih =>
    obtain ⟨hv, hl⟩ := (unique_cons key).1 h
    rw [lasts, if_neg hv, ih hl]

end Lasts

/-- What one request does to a registry. -/
inductive Change (α κ : Type) where
  | put (v : α)
  | drop (k : κ)
  | keep

/-- The same request of entries in another form. -/
def Change.map {α β κ μ : Type} (f : α → β) (g : κ → μ) : Change α κ → Change β μ
  | .put v => .put (f v)
  | .drop k => .drop (g k)
  | .keep => .keep

section Histories
variable {α κ : Type} (key : α → κ)

def Change.Touches (k : κ) : Change α κ → Prop
  | .put v => key v = k
  | .drop k' => k' = k
  | .keep => False

/-- Change `i` put `v`, and nothing later has touched its key. -/
def Live (h : List (Change α κ)) (i : ℕ) (v : α) : Prop :=
  h[i]? = some (.put v) ∧ ∀ j c, i < j → h[j]? = some c → ¬ c.Touches key (key v)

/-- `v` was put later than `w`, and both are still live. -/
def Newer (h : List (Change α κ)) (v w : α) : Prop :=
  ∃ i j, j < i ∧ Live key h i v ∧ Live key h j w

theorem Live.lt {h : List (Change α κ)} {i : ℕ} {v : α} (live : Live key h i v) :
    i < h.length := (List.getElem?_eq_some_iff.1 live.1).1

/-- A live put is the last of its key. -/
theorem Live.index_unique {h : List (Change α κ)} {i j : ℕ} {v : α} (hi : Live key h i v)
    (hj : Live key h j v) : i = j := by
  have later : ∀ {i j : ℕ}, Live key h i v → Live key h j v → ¬ i < j :=
    fun hi hj hlt => hi.2 _ _ hlt hj.1 rfl
  exact Nat.le_antisymm (Nat.le_of_not_lt (later hj hi)) (Nat.le_of_not_lt (later hi hj))

theorem live_append {h : List (Change α κ)} {c : Change α κ} {i : ℕ} {v : α} :
    Live key (h ++ [c]) i v ↔
      (Live key h i v ∧ ¬ c.Touches key (key v)) ∨ (i = h.length ∧ c = .put v) := by
  constructor
  · intro live
    rcases Nat.lt_trichotomy i h.length with hi | hi | hi
    · left
      refine ⟨⟨?_, ?_⟩, live.2 h.length c hi (by simp)⟩
      · rw [← live.1, List.getElem?_append_left hi]
      · intro j d hij hj
        have hlt := (List.getElem?_eq_some_iff.1 hj).1
        exact live.2 j d hij (by rw [List.getElem?_append_left hlt, hj])
    · right
      refine ⟨hi, ?_⟩
      subst hi
      simpa using live.1
    · have hlt := live.lt key
      simp only [List.length_append, List.length_singleton] at hlt
      omega
  · rintro (⟨live, hc⟩ | ⟨rfl, rfl⟩)
    · refine ⟨by rw [List.getElem?_append_left (live.lt key), live.1], ?_⟩
      intro j d hij hj
      rcases Nat.lt_trichotomy j h.length with hlt | rfl | hgt
      · exact live.2 j d hij (by rw [← hj, List.getElem?_append_left hlt])
      · simp only [List.getElem?_append_right (Nat.le_refl _), Nat.sub_self,
          List.getElem?_cons_zero, Option.some.injEq] at hj
        exact hj ▸ hc
      · rw [List.getElem?_append_right (by omega)] at hj
        have := (List.getElem?_eq_some_iff.1 hj).1
        simp only [List.length_singleton] at this
        omega
    · refine ⟨by simp, ?_⟩
      intro j d hij hj
      have := (List.getElem?_eq_some_iff.1 hj).1
      simp only [List.length_append, List.length_singleton] at this
      omega

end Histories

section Replay
variable {α κ : Type} [DecidableEq κ] (key : α → κ)

def applyFront (l : List α) : Change α κ → List α
  | .put v => putFront key v l
  | .drop k => delete key k l
  | .keep => l

def replayFront (h : List (Change α κ)) : List α := h.foldl (applyFront key) []

theorem replayFront_append (h : List (Change α κ)) (c : Change α κ) :
    replayFront key (h ++ [c]) = applyFront key (replayFront key h) c := by
  simp [replayFront]

theorem mem_applyFront {l : List α} {c : Change α κ} {v : α} :
    v ∈ applyFront key l c ↔ (v ∈ l ∧ ¬ c.Touches key (key v)) ∨ c = .put v := by
  cases c with
  | put w =>
    simp only [applyFront, putFront, List.mem_cons, mem_delete, Change.Touches, Change.put.injEq]
    constructor
    · rintro (rfl | ⟨hv, hk⟩)
      · exact .inr rfl
      · exact .inl ⟨hv, fun h => hk h.symm⟩
    · rintro (⟨hv, hk⟩ | rfl)
      · exact .inr ⟨hv, fun h => hk h.symm⟩
      · exact .inl rfl
  | drop k =>
    simp only [applyFront, mem_delete, Change.Touches, reduceCtorEq, or_false]
    exact and_congr_right fun _ => not_congr eq_comm
  | keep => simp [applyFront, Change.Touches]

def applyBack (l : List α) : Change α κ → List α
  | .put v => putBack key v l
  | .drop k => delete key k l
  | .keep => l

theorem applyBack_length (l : List α) (c : Change α κ) :
    (applyBack key l c).length ≤ l.length + 1 := by
  cases c with
  | put v =>
    rw [applyBack, putBack, List.length_append]
    exact Nat.succ_le_succ (delete_length key _ l)
  | drop k => exact (delete_length key k l).trans (Nat.le_succ _)
  | keep => exact Nat.le_succ _

theorem delete_comm (k k' : κ) (l : List α) :
    delete key k (delete key k' l) = delete key k' (delete key k l) := by
  rw [delete, delete, delete, delete, List.filter_filter, List.filter_filter]
  exact List.filter_congr fun x _ => Bool.and_comm _ _

/-- A deletion passes a change of another key. -/
theorem delete_applyBack {k : κ} {c : Change α κ} (h : ¬ c.Touches key k) (l : List α) :
    delete key k (applyBack key l c) = applyBack key (delete key k l) c := by
  cases c with
  | put v =>
    have hv : delete key k [v] = [v] := delete_eq_self key fun hp => by
      obtain ⟨x, hx, hk⟩ := hp
      exact h (List.mem_singleton.1 hx ▸ hk)
    have happ : delete key k (delete key (key v) l ++ [v]) =
        delete key k (delete key (key v) l) ++ delete key k [v] := List.filter_append _ _
    rw [applyBack, applyBack, putBack, putBack, happ, hv, delete_comm]
  | drop k' => exact delete_comm key k k' l
  | keep => rfl

/-- An entry is registered exactly when some put of it is still live. -/
theorem mem_replayFront_iff (h : List (Change α κ)) (v : α) :
    v ∈ replayFront key h ↔ ∃ i, Live key h i v := by
  induction h using List.reverseRecOn with
  | nil => simp [replayFront, Live]
  | append_singleton h c ih =>
    rw [replayFront_append, mem_applyFront, ih]
    simp only [live_append]
    constructor
    · rintro (⟨⟨i, live⟩, hc⟩ | hc)
      · exact ⟨i, .inl ⟨live, hc⟩⟩
      · exact ⟨h.length, .inr ⟨rfl, hc⟩⟩
    · rintro ⟨i, ⟨live, hc⟩ | ⟨-, hc⟩⟩
      · exact .inl ⟨⟨i, live⟩, hc⟩
      · exact .inr hc

theorem applyFront_unique {l : List α} (hl : Unique key l) (c : Change α κ) :
    Unique key (applyFront key l c) := by
  cases c with
  | put v => exact putFront_unique key hl v
  | drop k => exact delete_unique key hl k
  | keep => exact hl

theorem replayFront_unique (h : List (Change α κ)) : Unique key (replayFront key h) := by
  induction h using List.reverseRecOn with
  | nil => exact unique_nil key
  | append_singleton h c ih =>
    rw [replayFront_append]
    exact applyFront_unique key ih c

theorem replayFront_newest_first (h : List (Change α κ)) :
    (replayFront key h).Pairwise (Newer key h) := by
  induction h using List.reverseRecOn with
  | nil => exact List.Pairwise.nil
  | append_singleton h c ih =>
    have keeps : ∀ l : List α, l.Sublist (replayFront key h) →
        (∀ x ∈ l, ¬ c.Touches key (key x)) → l.Pairwise (Newer key (h ++ [c])) := by
      intro l hl hc
      refine (ih.sublist hl).imp_of_mem ?_
      rintro v w hv hw ⟨i, j, hij, hi, hj⟩
      exact ⟨i, j, hij, (live_append key).2 (.inl ⟨hi, hc v hv⟩),
        (live_append key).2 (.inl ⟨hj, hc w hw⟩)⟩
    rw [replayFront_append]
    cases c with
    | keep => exact keeps _ (List.Sublist.refl _) (fun _ _ => id)
    | drop k =>
      exact keeps _ List.filter_sublist fun x hx hk => ((mem_delete key).1 hx).2 hk.symm
    | put v =>
      have rest := keeps (delete key (key v) (replayFront key h)) List.filter_sublist
        fun x hx hk => ((mem_delete key).1 hx).2 hk.symm
      refine List.pairwise_cons.2 ⟨?_, rest⟩
      intro w hw
      obtain ⟨hw, hk⟩ := (mem_delete key).1 hw
      obtain ⟨j, hj⟩ := (mem_replayFront_iff key h w).1 hw
      exact ⟨h.length, j, hj.lt key, (live_append key).2 (.inr ⟨rfl, rfl⟩),
        (live_append key).2 (.inl ⟨hj, fun ht => hk ht.symm⟩)⟩

/-- The same changes to a list that grows at its end. -/
def replayBack (h : List (Change α κ)) : List α := h.foldl (applyBack key) []

theorem replayBack_append (h : List (Change α κ)) (c : Change α κ) :
    replayBack key (h ++ [c]) = applyBack key (replayBack key h) c := by
  simp [replayBack]

theorem replayBack_length (h : List (Change α κ)) : (replayBack key h).length ≤ h.length := by
  induction h using List.reverseRecOn with
  | nil => exact Nat.le_refl _
  | append_singleton h c ih =>
    rw [replayBack_append, List.length_append]
    exact (applyBack_length key _ c).trans (Nat.succ_le_succ ih)

theorem reverse_applyFront (l : List α) (c : Change α κ) :
    (applyFront key l c).reverse = applyBack key l.reverse c := by
  have hdelete : ∀ k, (delete key k l).reverse = delete key k l.reverse :=
    fun k => List.filter_reverse.symm
  cases c with
  | put v => rw [applyFront, applyBack, putFront, putBack, List.reverse_cons, hdelete]
  | drop k => exact hdelete k
  | keep => rfl

/-- Where the entries are put changes their order and nothing else. -/
theorem replayBack_eq_reverse (h : List (Change α κ)) :
    replayBack key h = (replayFront key h).reverse := by
  induction h using List.reverseRecOn with
  | nil => rfl
  | append_singleton h c ih =>
    rw [replayBack_append, replayFront_append, reverse_applyFront, ih]

theorem mem_replayBack_iff (h : List (Change α κ)) (v : α) :
    v ∈ replayBack key h ↔ ∃ i, Live key h i v := by
  rw [replayBack_eq_reverse, List.mem_reverse, mem_replayFront_iff]

theorem replayBack_unique (h : List (Change α κ)) : Unique key (replayBack key h) := by
  rw [replayBack_eq_reverse, Unique, List.map_reverse]
  exact List.nodup_reverse.2 (replayFront_unique key h)

section Forms
variable {β μ : Type} [DecidableEq μ] {key} {key' : β → μ} {f : α → β} {g : κ → μ}

theorem delete_map (injective : Function.Injective g) (keys : ∀ v, key' (f v) = g (key v)) (k : κ)
    (l : List α) : delete key' (g k) (l.map f) = (delete key k l).map f := by
  rw [delete, delete, List.filter_map]
  refine congrArg (List.map f) (List.filter_congr fun v _ => ?_)
  simp only [Function.comp_apply, keys, injective.ne_iff]

/-- A registry keeps its form, whichever it is, as long as the keys stay apart. -/
theorem replayBack_map (injective : Function.Injective g) (keys : ∀ v, key' (f v) = g (key v))
    (h : List (Change α κ)) :
    replayBack key' (h.map (Change.map f g)) = (replayBack key h).map f := by
  induction h using List.reverseRecOn with
  | nil => rfl
  | append_singleton h c ih =>
    rw [List.map_append, List.map_singleton, replayBack_append, replayBack_append, ih]
    cases c with
    | put v =>
      change putBack key' (f v) _ = (putBack key v _).map f
      rw [putBack, putBack, keys, delete_map injective keys, List.map_append, List.map_singleton]
    | drop k => exact delete_map injective keys k _
    | keep => rfl

end Forms

theorem replayBack_oldest_first (h : List (Change α κ)) :
    (replayBack key h).Pairwise fun v w => Newer key h w v := by
  rw [replayBack_eq_reverse]
  exact List.pairwise_reverse.2 (replayFront_newest_first key h)

end Replay

section Ranks
variable {α : Type} {L : ℕ → α → Prop} {l : List α}

/-- The list holds the entries of an index each, the lowest first. -/
structure Indexed (L : ℕ → α → Prop) (l : List α) : Prop where
  mem_iff : ∀ v, v ∈ l ↔ ∃ i, L i v
  ascending : l.Pairwise fun v w => ∃ i j, i < j ∧ L i v ∧ L j w
  index_unique : ∀ i j v, L i v → L j v → i = j
  entry_unique : ∀ i v w, L i v → L i w → v = w

theorem Indexed.lt_of_mem (h : Indexed L l) {front back : List α} {v w : α} {i j : ℕ}
    (hl : l = front ++ back) (hv : v ∈ front) (hw : w ∈ back) (hi : L i v) (hj : L j w) : i < j := by
  obtain ⟨i', j', hij, hi', hj'⟩ := (List.pairwise_append.1 (hl ▸ h.ascending)).2.2 v hv w hw
  rwa [h.index_unique i i' v hi hi', h.index_unique j j' w hj hj']

/-- As many indices carry an entry that matches as entries match. -/
theorem Indexed.ncard_matching (h : Indexed L l) (p : α → Bool) :
    {i | ∃ v, L i v ∧ p v = true}.ncard = (l.filter p).length := by
  obtain ⟨index, hindex⟩ : ∃ index : α → ℕ, ∀ v ∈ l, L (index v) v := by
    classical
    refine ⟨fun v => if hv : ∃ i, L i v then hv.choose else 0, fun v hv => ?_⟩
    have hex := (h.mem_iff v).1 hv
    simp only [dif_pos hex]
    exact hex.choose_spec
  have hset : {i | ∃ v, L i v ∧ p v = true} = ↑((l.filter p).map index).toFinset := by
    ext i
    simp only [Set.mem_ofPred_eq, List.coe_toFinset, List.mem_map, List.mem_filter]
    constructor
    · rintro ⟨v, hv, hp⟩
      have hmem := (h.mem_iff v).2 ⟨i, hv⟩
      exact ⟨v, ⟨hmem, hp⟩, h.index_unique _ _ v (hindex v hmem) hv⟩
    · rintro ⟨v, ⟨hmem, hp⟩, rfl⟩
      exact ⟨v, hindex v hmem, hp⟩
  have hnodup : ((l.filter p).map index).Nodup := by
    refine List.pairwise_map.2 ((h.ascending.filter p).imp_of_mem ?_)
    rintro v w hv hw ⟨i, j, hij, hi, hj⟩
    rw [h.index_unique _ _ v (hindex v (List.mem_filter.1 hv).1) hi,
      h.index_unique _ _ w (hindex w (List.mem_filter.1 hw).1) hj]
    exact hij.ne
  rw [hset, Set.ncard_coe_finset, List.toFinset_card_of_nodup hnodup, List.length_map]

theorem Indexed.front {front back : List α} {v : α} {i : ℕ} (h : Indexed L l)
    (hl : l = front ++ v :: back) (hi : L i v) :
    Indexed (fun j w => j < i ∧ L j w) front := by
  refine ⟨fun w => ⟨fun hw => ?_, ?_⟩, ?_, fun j k w hj hk => h.index_unique j k w hj.2 hk.2,
    fun j w x hj hk => h.entry_unique j w x hj.2 hk.2⟩
  · obtain ⟨j, hj⟩ := (h.mem_iff w).1 (hl ▸ List.mem_append_left _ hw)
    exact ⟨j, h.lt_of_mem hl hw List.mem_cons_self hj hi, hj⟩
  · rintro ⟨j, hji, hj⟩
    have hmem : w ∈ front ++ v :: back := hl ▸ (h.mem_iff w).2 ⟨j, hj⟩
    rcases List.mem_append.1 hmem with hw | hw
    · exact hw
    rcases List.mem_cons.1 hw with rfl | hw
    · exact absurd (h.index_unique j i w hj hi) hji.ne
    · have hsplit : l = (front ++ [v]) ++ back := by simp [hl]
      exact absurd (h.lt_of_mem hsplit (by simp) hw hi hj) (Nat.lt_asymm hji)
  · refine (List.pairwise_append.1 (hl ▸ h.ascending)).1.imp_of_mem ?_
    rintro w x hw hx ⟨j, k, hjk, hj, hk⟩
    exact ⟨j, k, hjk, ⟨h.lt_of_mem hl hw List.mem_cons_self hj hi, hj⟩,
      ⟨h.lt_of_mem hl hx List.mem_cons_self hk hi, hk⟩⟩

/-- An entry is among the first few exactly when few indices below its own are in use. -/
theorem Indexed.mem_take_iff (h : Indexed L l) (n : ℕ) (v : α) :
    v ∈ l.take n ↔ ∃ i, L i v ∧ {j | j < i ∧ ∃ w, L j w}.ncard < n := by
  have hposition : ∀ (front back : List α) (i : ℕ), l = front ++ v :: back → L i v →
      {j | j < i ∧ ∃ w, L j w}.ncard = front.length := by
    intro front back i hl hi
    have hcount := (h.front hl hi).ncard_matching fun _ => true
    simp only [and_true, List.filter_true] at hcount
    rw [← hcount]
    congr 1
    ext j
    simp only [Set.mem_ofPred_eq, exists_and_left]
  constructor
  · intro hv
    obtain ⟨i, hi⟩ := (h.mem_iff v).1 (List.mem_of_mem_take hv)
    obtain ⟨front, back, hsplit⟩ := List.append_of_mem hv
    have hl : l = front ++ v :: (back ++ l.drop n) := by
      rw [← List.cons_append, ← List.append_assoc, ← hsplit, List.take_append_drop]
    refine ⟨i, hi, ?_⟩
    have hlen : (l.take n).length ≤ n := List.length_take_le n l
    rw [hsplit, List.length_append, List.length_cons] at hlen
    rw [hposition front _ i hl hi]
    omega
  · rintro ⟨i, hi, hlt⟩
    obtain ⟨front, back, hl⟩ := List.append_of_mem ((h.mem_iff v).2 ⟨i, hi⟩)
    rw [hposition front back i hl hi] at hlt
    obtain ⟨k, rfl⟩ := Nat.exists_eq_add_of_lt hlt
    rw [hl, List.take_append, List.mem_append]
    right
    rw [show front.length + k + 1 - front.length = k + 1 by omega, List.take_succ_cons]
    exact List.mem_cons_self

end Ranks

section Requests
variable {α κ β : Type} (key : α → κ) (puts drops : β → α → Prop)

/-- The request puts or drops an entry of this key. -/
def Carries (x : β) (k : κ) : Prop := ∃ v, (puts x v ∨ drops x v) ∧ key v = k

/-- Request `i` put `v`, and no later one carries its key. -/
def InForce (requests : List β) (i : ℕ) (v : α) : Prop :=
  (∃ x, requests[i]? = some x ∧ puts x v) ∧
    ∀ j x, i < j → requests[j]? = some x → ¬ Carries key puts drops x (key v)

/-- The list holds what the requests have put and not taken back, the oldest first. -/
structure Chronicle (requests : List β) (l : List α) : Prop where
  mem_iff : ∀ v, v ∈ l ↔ ∃ i, InForce key puts drops requests i v
  unique : Unique key l
  oldestFirst : l.Pairwise fun v w => ∃ i j, i < j ∧ InForce key puts drops requests i v ∧
    InForce key puts drops requests j w

/-- A request asks for one thing at most. -/
structure Exclusive : Prop where
  puts_unique : ∀ x v w, puts x v → puts x w → v = w
  drops_unique : ∀ x v w, drops x v → drops x w → v = w
  apart : ∀ x v w, puts x v → ¬ drops x w

open Classical in
noncomputable def changeOf (x : β) : Change α κ :=
  if h : ∃ v, puts x v then .put h.choose
  else if h : ∃ v, drops x v then .drop (key h.choose)
  else .keep

variable {puts drops} {x : β} {v : α}

theorem changeOf_put (h : Exclusive puts drops) (hv : puts x v) :
    changeOf key puts drops x = .put v := by
  have hex : ∃ v, puts x v := ⟨v, hv⟩
  rw [changeOf, dif_pos hex, h.puts_unique x _ v hex.choose_spec hv]

theorem changeOf_drop (h : Exclusive puts drops) (hv : drops x v) :
    changeOf key puts drops x = .drop (key v) := by
  have hno : ¬ ∃ w, puts x w := fun ⟨w, hw⟩ => h.apart x w v hw hv
  have hex : ∃ v, drops x v := ⟨v, hv⟩
  rw [changeOf, dif_neg hno, dif_pos hex, h.drops_unique x _ v hex.choose_spec hv]

theorem changeOf_keep (hp : ∀ v, ¬ puts x v) (hd : ∀ v, ¬ drops x v) :
    changeOf key puts drops x = .keep := by
  rw [changeOf, dif_neg (not_exists.2 hp), dif_neg (not_exists.2 hd)]

theorem changeOf_eq_put_iff (h : Exclusive puts drops) :
    changeOf key puts drops x = .put v ↔ puts x v := by
  refine ⟨fun he => ?_, changeOf_put key h⟩
  unfold changeOf at he
  split_ifs at he with hp
  rw [← Change.put.inj he]
  exact hp.choose_spec

theorem changeOf_touches_iff (h : Exclusive puts drops) (k : κ) :
    (changeOf key puts drops x).Touches key k ↔ Carries key puts drops x k := by
  by_cases hp : ∃ v, puts x v
  · obtain ⟨v, hv⟩ := hp
    rw [changeOf_put key h hv]
    refine ⟨fun hk => ⟨v, .inl hv, hk⟩, fun ⟨w, hw, hk⟩ => ?_⟩
    rw [← hk, h.puts_unique x w v (hw.resolve_right (h.apart x v w hv)) hv]
    rfl
  by_cases hd : ∃ v, drops x v
  · obtain ⟨v, hv⟩ := hd
    rw [changeOf_drop key h hv]
    refine ⟨fun hk => ⟨v, .inr hv, hk⟩, fun ⟨w, hw, hk⟩ => ?_⟩
    rw [← hk, h.drops_unique x w v (hw.resolve_left fun hw => hp ⟨w, hw⟩) hv]
    rfl
  · rw [changeOf_keep key (not_exists.1 hp) (not_exists.1 hd)]
    refine iff_of_false id ?_
    rintro ⟨v, hv | hv, -⟩
    · exact hp ⟨v, hv⟩
    · exact hd ⟨v, hv⟩

theorem inForce_iff_live (h : Exclusive puts drops) (requests : List β) (i : ℕ) (v : α) :
    InForce key puts drops requests i v ↔
      Live key (requests.map (changeOf key puts drops)) i v := by
  simp only [InForce, Live, List.getElem?_map, Option.map_eq_some_iff, ← changeOf_eq_put_iff key h,
    ← changeOf_touches_iff key h, forall_exists_index, and_imp]
  constructor
  · rintro ⟨h, hlater⟩
    exact ⟨h, fun j c hij x hx hc => hc ▸ hlater j x hij hx⟩
  · rintro ⟨h, hlater⟩
    exact ⟨h, fun j x hij hx => hlater j _ hij x hx rfl⟩

theorem replayBack_chronicle [DecidableEq κ] (h : Exclusive puts drops) (requests : List β) :
    Chronicle key puts drops requests
      (replayBack key (requests.map (changeOf key puts drops))) := by
  refine ⟨fun v => ?_, replayBack_unique key _, (replayBack_oldest_first key _).imp ?_⟩
  · simp only [mem_replayBack_iff, inForce_iff_live key h]
  · rintro v w ⟨i, j, hij, hi, hj⟩
    exact ⟨j, i, hij, (inForce_iff_live key h _ _ _).2 hj, (inForce_iff_live key h _ _ _).2 hi⟩

theorem Chronicle.indexed {requests : List β} {l : List α} (h : Exclusive puts drops)
    (hl : Chronicle key puts drops requests l) : Indexed (InForce key puts drops requests) l where
  mem_iff := hl.mem_iff
  ascending := hl.oldestFirst
  index_unique i j v hi hj := by
    rw [inForce_iff_live key h] at hi hj
    exact hi.index_unique key hj
  entry_unique i v w hv hw := by
    obtain ⟨⟨x, hx, hxv⟩, -⟩ := hv
    obtain ⟨⟨y, hy, hyw⟩, -⟩ := hw
    obtain rfl := Option.some.inj (hx.symm.trans hy)
    exact h.puts_unique x v w hxv hyw

end Requests

section Matching
variable {α : Type} (p : α → Bool)

/-- Of a list in some order, the entries in front of the first that does not match. -/
theorem mem_takeWhile_iff {R : α → α → Prop} (asymm : ∀ x y, R x y → ¬ R y x) {l : List α}
    (h : l.Pairwise R) {x : α} :
    x ∈ l.takeWhile p ↔ x ∈ l ∧ p x = true ∧ ∀ y ∈ l, R y x → p y = true := by
  induction l with
  | nil => simp
  | cons a l ih =>
    obtain ⟨ha, hl⟩ := List.pairwise_cons.1 h
    by_cases hp : p a = true
    · rw [List.takeWhile_cons_of_pos hp, List.mem_cons, ih hl]
      constructor
      · rintro (rfl | ⟨hx, hpx, hy⟩)
        · exact ⟨List.mem_cons_self, hp, List.forall_mem_cons.2
            ⟨fun _ => hp, fun y hy hyx => absurd hyx (asymm _ _ (ha y hy))⟩⟩
        · exact ⟨List.mem_cons_of_mem _ hx, hpx, List.forall_mem_cons.2 ⟨fun _ => hp, hy⟩⟩
      · rintro ⟨hx, hpx, hy⟩
        exact (List.mem_cons.1 hx).imp_right fun hx =>
          ⟨hx, hpx, (List.forall_mem_cons.1 hy).2⟩
    · rw [List.takeWhile_cons_of_neg hp]
      refine iff_of_false List.not_mem_nil ?_
      rintro ⟨hx, hpx, hy⟩
      rcases List.mem_cons.1 hx with rfl | hx
      · exact hp hpx
      · exact hp (hy a List.mem_cons_self (ha x hx))

section Replayed
variable {κ : Type} {key : α → κ}

/-- In a list of the live entries in some order of their puts, the entries in front of the
first that does not match are those no later entry of the order parts from the front. -/
theorem mem_takeWhile_live (before : ℕ → ℕ → Prop) (asymm : ∀ i j, before i j → ¬ before j i)
    (total : ∀ i j, ¬ before i j → j = i ∨ before j i) {h : List (Change α κ)} {l : List α}
    (hmem : ∀ v, v ∈ l ↔ ∃ i, Live key h i v)
    (hl : l.Pairwise fun v w => ∃ i j, before i j ∧ Live key h i v ∧ Live key h j w) (v : α) :
    v ∈ l.takeWhile p ↔
      ∃ i, Live key h i v ∧ ∀ j w, ¬ before i j → Live key h j w → p w = true := by
  rw [mem_takeWhile_iff p ?_ hl, hmem]
  · constructor
    · rintro ⟨⟨i, hi⟩, hp, hfront⟩
      refine ⟨i, hi, fun j w hij hj => ?_⟩
      rcases total i j hij with rfl | hji
      · have hvw : (Change.put v : Change α κ) = .put w := Option.some.inj (hi.1.symm.trans hj.1)
        exact Change.put.inj hvw ▸ hp
      · exact hfront w ((hmem w).2 ⟨j, hj⟩) ⟨j, i, hji, hj, hi⟩
    · rintro ⟨i, hi, hall⟩
      have irrefl : ¬ before i i := fun hii => asymm i i hii hii
      refine ⟨⟨i, hi⟩, hall i v irrefl hi, ?_⟩
      rintro w - ⟨j, i', hji, hj, hi'⟩
      obtain rfl := hi.index_unique key hi'
      exact hall j w (asymm j i hji) hj
  · rintro v w ⟨i, j, hij, hv, hw⟩ ⟨j', i', hji, hw', hv'⟩
    obtain rfl := hv.index_unique key hv'
    obtain rfl := hw.index_unique key hw'
    exact asymm i j hij hji

variable [DecidableEq κ]

theorem mem_takeWhile_replayFront (h : List (Change α κ)) (v : α) :
    v ∈ (replayFront key h).takeWhile p ↔
      ∃ i, Live key h i v ∧ ∀ j w, ¬ j < i → Live key h j w → p w = true :=
  mem_takeWhile_live p (fun i j => j < i) (fun _ _ hij => Nat.not_lt.2 hij.le)
    (fun _ _ hij => (Nat.lt_or_eq_of_le (Nat.le_of_not_lt hij)).symm.imp_left Eq.symm)
    (mem_replayFront_iff key h) (replayFront_newest_first key h) v

theorem mem_takeWhile_replayBack (h : List (Change α κ)) (v : α) :
    v ∈ (replayBack key h).takeWhile p ↔
      ∃ i, Live key h i v ∧ ∀ j w, ¬ i < j → Live key h j w → p w = true := by
  refine mem_takeWhile_live p (fun i j => i < j) (fun _ _ hij => Nat.not_lt.2 hij.le)
    (fun _ _ hij => (Nat.lt_or_eq_of_le (Nat.le_of_not_lt hij)).symm)
    (mem_replayBack_iff key h) ?_ v
  refine (replayBack_oldest_first key h).imp ?_
  rintro v w ⟨i, j, hij, hw, hv⟩
  exact ⟨j, i, hij, hv, hw⟩

end Replayed

/-- Every entry that stands before a matching entry matches as well. -/
def MatchesFirst (l : List α) : Prop := l.Pairwise (fun a b => p b = true → p a = true)

instance (l : List α) : Decidable (MatchesFirst p l) := by
  unfold MatchesFirst
  infer_instance

theorem matchesFirst_cons_pos {x : α} {l : List α} (hx : p x = true) :
    MatchesFirst p (x :: l) ↔ MatchesFirst p l := by
  simp [MatchesFirst, hx]

theorem matchesFirst_cons_neg {x : α} {l : List α} (hx : ¬ p x = true) :
    MatchesFirst p (x :: l) ↔ l.filter p = [] := by
  rw [List.filter_eq_nil_iff]
  constructor
  · intro h b hb hpb
    exact hx ((List.pairwise_cons.1 h).1 b hb hpb)
  · intro h
    refine List.pairwise_cons.2 ⟨fun b hb hpb => absurd hpb (h b hb), ?_⟩
    exact List.pairwise_iff_forall_sublist.2 fun {a b} hab hpb =>
      absurd hpb (h b (hab.subset (by simp)))

theorem takeWhile_sublist_filter (l : List α) : (l.takeWhile p).Sublist (l.filter p) := by
  have h : (l.takeWhile p).filter p = l.takeWhile p :=
    List.filter_eq_self.2 fun x hx => List.mem_takeWhile_imp hx
  rw [← h]
  exact (List.takeWhile_sublist p).filter p

theorem takeWhile_take {l : List α} {n : ℕ} (h : (l.takeWhile p).length ≤ n) :
    (l.take n).takeWhile p = l.takeWhile p := by
  induction l generalizing n with
  | nil => simp
  | cons x l ih =>
    by_cases hx : p x = true
    · rw [List.takeWhile_cons_of_pos hx, List.length_cons] at h
      obtain ⟨m, rfl⟩ := Nat.exists_eq_add_of_le' (Nat.lt_of_lt_of_le (Nat.succ_pos _) h)
      rw [List.take_succ_cons, List.takeWhile_cons_of_pos hx, List.takeWhile_cons_of_pos hx,
        ih (by omega)]
    · cases n with
      | zero => rw [List.take_zero, List.takeWhile_nil, List.takeWhile_cons_of_neg hx]
      | succ n =>
        rw [List.take_succ_cons, List.takeWhile_cons_of_neg hx, List.takeWhile_cons_of_neg hx]

theorem takeWhile_eq_filter_iff (l : List α) :
    l.takeWhile p = l.filter p ↔ MatchesFirst p l := by
  induction l with
  | nil => simp [MatchesFirst]
  | cons x l ih =>
    by_cases hx : p x = true
    · rw [matchesFirst_cons_pos p hx, List.takeWhile_cons_of_pos hx, List.filter_cons_of_pos hx,
        ← ih]
      simp
    · rw [matchesFirst_cons_neg p hx, List.takeWhile_cons_of_neg hx, List.filter_cons_of_neg hx]
      exact eq_comm

theorem forall_take_count_iff_take (l : List α) :
    (∀ x ∈ l.take (l.filter p).length, p x = true) ↔
      l.take (l.filter p).length = l.filter p := by
  constructor
  · intro h
    have hs : (l.take (l.filter p).length).filter p = l.take (l.filter p).length :=
      List.filter_eq_self.2 h
    rw [← hs]
    apply List.Sublist.eq_of_length ((List.take_sublist _ _).filter p)
    rw [hs, List.length_take, Nat.min_eq_left (List.length_filter_le _ _)]
  · intro h x hx
    rw [h] at hx
    exact (List.mem_filter.1 hx).2

theorem take_count_eq_filter_iff (l : List α) :
    l.take (l.filter p).length = l.filter p ↔ MatchesFirst p l := by
  induction l with
  | nil => simp [MatchesFirst]
  | cons x l ih =>
    by_cases hx : p x = true
    · rw [matchesFirst_cons_pos p hx, List.filter_cons_of_pos hx, ← ih]
      simp
    · rw [matchesFirst_cons_neg p hx, List.filter_cons_of_neg hx]
      constructor
      · intro h
        by_contra hne
        obtain ⟨n, hn⟩ := Nat.exists_eq_succ_of_ne_zero (mt List.length_eq_zero_iff.1 hne)
        rw [hn, List.take_succ_cons] at h
        have hm : x ∈ l.filter p := h ▸ List.mem_cons_self
        exact hx (List.mem_filter.1 hm).2
      · intro h
        rw [h]
        rfl

theorem forall_take_count_iff (l : List α) :
    (∀ x ∈ l.take (l.filter p).length, p x = true) ↔ MatchesFirst p l :=
  (forall_take_count_iff_take p l).trans (take_count_eq_filter_iff p l)

theorem matchesFirst_of_length_le {l : List α} (h : (l.filter p).length ≤ (l.takeWhile p).length) :
    MatchesFirst p l := by
  rw [← takeWhile_eq_filter_iff]
  exact (takeWhile_sublist_filter p l).eq_of_length_le h

theorem matchesFirst_of_filter_nil {l : List α} (h : l.filter p = []) : MatchesFirst p l := by
  apply matchesFirst_of_length_le
  rw [h]
  exact Nat.zero_le _

/-- In front and at the back at once only where there is nothing else, or nothing at all. -/
theorem matchesFirst_reverse_iff (l : List α) : MatchesFirst p l ∧ MatchesFirst p l.reverse ↔
    (∀ x ∈ l, p x = true) ∨ ∀ x ∈ l, ¬ p x = true := by
  constructor
  · rintro ⟨hfirst, hlast⟩
    cases l with
    | nil => exact .inl fun _ hx => absurd hx List.not_mem_nil
    | cons x l =>
      by_cases hx : p x = true
      · have hrest := (List.pairwise_cons.1 (List.pairwise_reverse.1 hlast)).1
        exact .inl (List.forall_mem_cons.2 ⟨hx, fun y hy => hrest y hy hx⟩)
      · have hnone := List.filter_eq_nil_iff.1 ((matchesFirst_cons_neg p hx).1 hfirst)
        exact .inr (List.forall_mem_cons.2 ⟨hx, hnone⟩)
  · rintro (hall | hnone)
    · exact ⟨List.pairwise_of_forall_mem_list fun a ha _ _ _ => hall a ha,
        List.pairwise_of_forall_mem_list fun a ha _ _ _ => hall a (List.mem_reverse.1 ha)⟩
    · exact ⟨List.pairwise_of_forall_mem_list fun _ _ b hb hpb => absurd hpb (hnone b hb),
        List.pairwise_of_forall_mem_list fun _ _ b hb hpb =>
          absurd hpb (hnone b (List.mem_reverse.1 hb))⟩

section Keyed
variable {κ : Type} [DecidableEq κ] {key : α → κ} {k : κ} {l : List α}

theorem filter_key_nil_iff : l.filter (fun x => decide (key x = k)) = [] ↔ ∀ x ∈ l, key x ≠ k := by
  simp only [List.filter_eq_nil_iff, decide_eq_true_eq, ne_eq]

theorem exists_key_iff :
    l.filter (fun x => decide (key x = k)) ≠ [] ↔ ∃ x ∈ l, key x = k := by
  rw [ne_eq, filter_key_nil_iff]
  simp

end Keyed

/-- Each entry has its counterpart when one list of them all has. -/
theorem exists_forall₂_iff {β : Type} {R : α → β → Prop} {l : List α} :
    (∃ m, List.Forall₂ R l m) ↔ ∀ x ∈ l, ∃ y, R x y := by
  induction l with
  | nil => simp
  | cons x l ih =>
    rw [List.forall_mem_cons, ← ih]
    constructor
    · rintro ⟨m, h⟩
      cases h with
      | cons hx hl => exact ⟨⟨_, hx⟩, _, hl⟩
    · rintro ⟨⟨y, hx⟩, m, hl⟩
      exact ⟨y :: m, .cons hx hl⟩

theorem exists_of_forall₂ {β : Type} {R : α → β → Prop} {l : List α} {m : List β}
    (h : List.Forall₂ R l m) {y : β} (hy : y ∈ m) : ∃ x ∈ l, R x y := by
  induction h with
  | nil => exact absurd hy List.not_mem_nil
  | @cons x z l m hx _ ih =>
    rcases List.mem_cons.1 hy with rfl | hy
    · exact ⟨x, List.mem_cons_self, hx⟩
    · obtain ⟨w, hw, hr⟩ := ih hy
      exact ⟨w, List.mem_cons_of_mem x hw, hr⟩

end Matching

end MiniServiceDiscover.KeyedList
