import Mathlib.Data.List.Basic
import Mathlib.Data.Nat.Basic
import Mathlib.Order.Basic
import Mathlib.Tactic.Basic
import Mathlib.Tactic.SplitIfs

set_option autoImplicit false

/-! Byte strings read as UTF-8. A string is cut into runes: the bytes of a well
formed encoding, or one byte that starts none. -/
namespace MiniServiceDiscover.Utf8Runes

def within (lo hi : ℕ) (b : UInt8) : Bool := decide (lo ≤ b.toNat) && decide (b.toNat ≤ hi)

def tail (b : UInt8) : Bool := within 0x80 0xBF b

/-- First two bytes of a three-byte encoding; surrogates and overlong forms are out. -/
def threeStart (a b : UInt8) : Bool :=
  (within 0xE0 0xE0 a && within 0xA0 0xBF b) || (within 0xE1 0xEC a && tail b) ||
    (within 0xED 0xED a && within 0x80 0x9F b) || (within 0xEE 0xEF a && tail b)

def fourStart (a b : UInt8) : Bool :=
  (within 0xF0 0xF0 a && within 0x90 0xBF b) || (within 0xF1 0xF3 a && tail b) ||
    (within 0xF4 0xF4 a && within 0x80 0x8F b)

/-- Length of the encoding at the head, `0` when there is none. -/
def runeSize : List UInt8 → ℕ
  | [] => 0
  | a :: s =>
    if a.toNat < 0x80 then 1
    else match s with
      | [] => 0
      | b :: s =>
        if within 0xC2 0xDF a && tail b then 2
        else match s with
          | [] => 0
          | c :: s =>
            if threeStart a b && tail c then 3
            else match s with
              | [] => 0
              | d :: _ => if fourStart a b && tail c && tail d then 4 else 0

inductive Rune where
  | valid (bytes : List UInt8)
  | invalid (b : UInt8)
  deriving DecidableEq, Repr

/-- The runes of a string, the first `k` bytes being passed over. -/
def runesFrom : ℕ → List UInt8 → List Rune
  | _, [] => []
  | k + 1, _ :: s => runesFrom k s
  | 0, a :: s =>
    match runeSize (a :: s) with
    | 0 => .invalid a :: runesFrom 0 s
    | n + 1 => .valid (a :: s.take n) :: runesFrom n s

def runes (s : List UInt8) : List Rune := runesFrom 0 s

def replacement : List UInt8 := [0xEF, 0xBF, 0xBD]

def Rune.bytes : Rune → List UInt8
  | .valid bytes => bytes
  | .invalid _ => replacement

/-- Every byte that starts no encoding is replaced by U+FFFD. -/
def coerce (s : List UInt8) : List UInt8 := (runes s).flatMap Rune.bytes

def IsValid (s : List UInt8) : Prop := coerce s = s

def IsRune (c : List UInt8) : Prop := c ≠ [] ∧ runeSize c = c.length

theorem runeSize_le (s : List UInt8) : runeSize s ≤ s.length := by
  unfold runeSize
  split
  · exact Nat.le_refl _
  · split_ifs
    · simp
    · split
      · exact Nat.zero_le _
      · split_ifs
        · simp
        · split
          · exact Nat.zero_le _
          · split_ifs
            · simp
            · split
              · exact Nat.zero_le _
              · split_ifs <;> simp

/-- The size is decided by the bytes of the encoding alone. -/
theorem runeSize_append {c : List UInt8} (h : IsRune c) (s : List UInt8) :
    runeSize (c ++ s) = c.length := by
  obtain ⟨hne, hs⟩ := h
  unfold runeSize at hs
  match c with
  | [] => exact absurd rfl hne
  | [a] =>
    by_cases ha : a.toNat < 0x80
    · simp [runeSize, ha]
    · simp [ha] at hs
  | [a, b] =>
    by_cases ha : a.toNat < 0x80
    · simp [ha] at hs
    · by_cases hb : (within 0xC2 0xDF a && tail b) = true
      · simp only [List.cons_append, List.nil_append, runeSize, ha, hb, if_true, if_false]
        rfl
      · simp [ha, hb] at hs
  | [a, b, c] =>
    by_cases ha : a.toNat < 0x80
    · simp [ha] at hs
    · by_cases hb : (within 0xC2 0xDF a && tail b) = true
      · simp [ha, hb] at hs
      · by_cases hc : (threeStart a b && tail c) = true
        · simp only [List.cons_append, List.nil_append, runeSize, ha, hb, hc, if_true, if_false]
          rfl
        · simp [ha, hb, hc] at hs
  | a :: b :: c :: d :: r =>
    by_cases ha : a.toNat < 0x80
    · simp [ha] at hs
    · by_cases hb : (within 0xC2 0xDF a && tail b) = true
      · simp [ha, hb] at hs
      · by_cases hc : (threeStart a b && tail c) = true
        · simp [ha, hb, hc] at hs
        · by_cases hd : (fourStart a b && tail c && tail d) = true
          · simp only [ha, hb, hc, hd, if_true, if_false] at hs
            simp only [List.cons_append, runeSize, ha, hb, hc, hd, if_true, if_false]
            exact hs
          · simp [ha, hb, hc, hd] at hs

theorem isRune_take {a : UInt8} {s : List UInt8} {n : ℕ} (h : runeSize (a :: s) = n + 1) :
    IsRune (a :: s.take n) := by
  refine ⟨List.cons_ne_nil _ _, ?_⟩
  have hle := runeSize_le (a :: s)
  rw [h, List.length_cons] at hle
  have hlen : (a :: s.take n).length = n + 1 := by
    rw [List.length_cons, List.length_take, Nat.min_eq_left (by omega)]
  rw [hlen]
  unfold runeSize at h
  by_cases ha : a.toNat < 0x80
  · simp only [ha, if_true] at h
    simp [runeSize, ha, ← h]
  · match s with
    | [] => simp [ha] at h
    | b :: s =>
      by_cases hb : (within 0xC2 0xDF a && tail b) = true
      · simp only [ha, hb, if_true, if_false] at h
        obtain rfl : n = 1 := by omega
        simp only [List.take_succ_cons, List.take_zero, runeSize, ha, hb, if_true, if_false]
      · match s with
        | [] => simp [ha, hb] at h
        | c :: s =>
          by_cases hc : (threeStart a b && tail c) = true
          · simp only [ha, hb, hc, if_true, if_false, Bool.false_eq_true] at h
            obtain rfl : n = 2 := by omega
            simp only [List.take_succ_cons, List.take_zero, runeSize, ha, hb, hc, if_true, if_false,
              Bool.false_eq_true]
          · match s with
            | [] => simp [ha, hb, hc] at h
            | d :: s =>
              by_cases hd : (fourStart a b && tail c && tail d) = true
              · simp only [ha, hb, hc, hd, if_true, if_false, Bool.false_eq_true] at h
                obtain rfl : n = 3 := by omega
                simp only [List.take_succ_cons, List.take_zero, runeSize, ha, hb, hc, hd, if_true,
                  if_false, Bool.false_eq_true]
              · simp [ha, hb, hc, hd] at h

theorem isRune_singleton {b : UInt8} (h : IsRune [b]) : b.toNat < 0x80 := by
  by_contra hb
  have hs := h.2
  simp [runeSize, hb] at hs

/-- The bytes of an encoding of more than one byte all have the top bit set. -/
theorem isRune_high {bytes : List UInt8} (h : IsRune bytes) (hne : ∀ b, bytes ≠ [b]) :
    ∀ b ∈ bytes, 0x80 ≤ b.toNat := by
  obtain ⟨hnil, hs⟩ := h
  have tail_high : ∀ {b : UInt8}, tail b = true → 0x80 ≤ b.toNat := by
    intro b hb
    simp only [tail, within, Bool.and_eq_true, decide_eq_true_eq] at hb
    exact hb.1
  have three_high : ∀ {a b : UInt8}, threeStart a b = true → 0x80 ≤ b.toNat := by
    intro a b hb
    simp only [threeStart, tail, within, Bool.or_eq_true, Bool.and_eq_true,
      decide_eq_true_eq] at hb
    omega
  have four_high : ∀ {a b : UInt8}, fourStart a b = true → 0x80 ≤ b.toNat := by
    intro a b hb
    simp only [fourStart, tail, within, Bool.or_eq_true, Bool.and_eq_true,
      decide_eq_true_eq] at hb
    omega
  unfold runeSize at hs
  match bytes with
  | [] => exact absurd rfl hnil
  | [a] => exact absurd rfl (hne a)
  | a :: b :: s =>
    by_cases ha : a.toNat < 0x80
    · simp [ha] at hs
    have ha' : 0x80 ≤ a.toNat := by omega
    by_cases hb : (within 0xC2 0xDF a && tail b) = true
    · simp only [ha, hb, if_true, if_false, List.length_cons] at hs
      obtain rfl : s = [] := List.length_eq_zero_iff.1 (by omega)
      rw [Bool.and_eq_true] at hb
      simp [ha', tail_high hb.2]
    match s with
    | [] => simp [ha, hb] at hs
    | c :: s =>
      by_cases hc : (threeStart a b && tail c) = true
      · simp only [ha, hb, hc, if_true, if_false, Bool.false_eq_true, List.length_cons] at hs
        obtain rfl : s = [] := List.length_eq_zero_iff.1 (by omega)
        rw [Bool.and_eq_true] at hc
        simp [ha', three_high hc.1, tail_high hc.2]
      match s with
      | [] => simp [ha, hb, hc] at hs
      | d :: s =>
        by_cases hd : (fourStart a b && tail c && tail d) = true
        · simp only [ha, hb, hc, hd, if_true, if_false, Bool.false_eq_true, List.length_cons] at hs
          obtain rfl : s = [] := List.length_eq_zero_iff.1 (by omega)
          simp only [Bool.and_eq_true] at hd
          simp [ha', four_high hd.1.1, tail_high hd.1.2, tail_high hd.2]
        · simp [ha, hb, hc, hd] at hs

theorem runesFrom_drop (k : ℕ) (s : List UInt8) : runesFrom k s = runes (s.drop k) := by
  induction s generalizing k with
  | nil => cases k <;> rfl
  | cons a s ih =>
    cases k with
    | zero => rfl
    | succ k => exact ih k

theorem runes_append {c : List UInt8} (h : IsRune c) (s : List UInt8) :
    runes (c ++ s) = .valid c :: runes s := by
  have hs := runeSize_append h s
  match c with
  | [] => exact absurd rfl h.1
  | a :: c =>
    rw [List.cons_append, List.length_cons] at hs
    rw [List.cons_append, runes, runesFrom, hs]
    change Rune.valid (a :: (c ++ s).take c.length) :: runesFrom c.length (c ++ s) = _
    rw [runesFrom_drop, List.take_left, List.drop_left]

theorem isRune_replacement : IsRune replacement := ⟨by decide, by decide⟩

theorem runes_flatten {cs : List (List UInt8)} (h : ∀ c ∈ cs, IsRune c) :
    runes cs.flatten = cs.map .valid := by
  induction cs with
  | nil => rfl
  | cons c cs ih =>
    rw [List.flatten_cons, runes_append (h c (by simp)), ih fun d hd => h d (by simp [hd])]
    rfl

theorem isRune_of_valid_mem {s bytes : List UInt8} (h : .valid bytes ∈ runes s) :
    IsRune bytes := by
  have go : ∀ (k : ℕ) (s : List UInt8), .valid bytes ∈ runesFrom k s → IsRune bytes := by
    intro k s
    induction s generalizing k with
    | nil =>
      intro h
      cases k <;> cases h
    | cons a s ih =>
      intro h
      cases k with
      | succ k => exact ih k h
      | zero =>
        rw [runesFrom] at h
        cases hs : runeSize (a :: s) with
        | zero =>
          rw [hs, List.mem_cons] at h
          rcases h with h | h
          · cases h
          · exact ih 0 h
        | succ n =>
          rw [hs, List.mem_cons] at h
          rcases h with h | h
          · cases h
            exact isRune_take hs
          · exact ih n h
  exact go 0 s h

theorem isRune_bytes {s : List UInt8} {r : Rune} (h : r ∈ runes s) : IsRune r.bytes := by
  cases r with
  | valid bytes => exact isRune_of_valid_mem h
  | invalid b => exact isRune_replacement

theorem runes_coerce (s : List UInt8) : runes (coerce s) = (runes s).map fun r => .valid r.bytes := by
  have h : ∀ c ∈ (runes s).map Rune.bytes, IsRune c := by
    intro c hc
    obtain ⟨r, hr, rfl⟩ := List.mem_map.1 hc
    exact isRune_bytes hr
  rw [coerce, List.flatMap_def, runes_flatten h, List.map_map]
  rfl

theorem coerce_isValid (s : List UInt8) : IsValid (coerce s) := by
  unfold IsValid
  rw [coerce, runes_coerce, List.flatMap_map]
  rfl

theorem coerce_length_le (s : List UInt8) : (coerce s).length ≤ 3 * s.length := by
  have go : ∀ (k : ℕ) (s : List UInt8), k ≤ s.length →
      ((runesFrom k s).flatMap Rune.bytes).length ≤ 3 * (s.length - k) := by
    intro k s
    induction s generalizing k with
    | nil =>
      intro _
      cases k <;> exact Nat.zero_le _
    | cons a s ih =>
      intro hk
      cases k with
      | succ k =>
        rw [List.length_cons] at hk ⊢
        rw [Nat.add_sub_add_right]
        exact ih k (by omega)
      | zero =>
        rw [runesFrom]
        have hle := runeSize_le (a :: s)
        cases hs : runeSize (a :: s) with
        | zero =>
          have h := ih 0 (Nat.zero_le _)
          simp only [List.flatMap_cons, List.length_append, Rune.bytes, replacement,
            List.length_cons, List.length_nil] at h ⊢
          omega
        | succ n =>
          rw [hs, List.length_cons] at hle
          have h := ih n (by omega)
          simp only [List.flatMap_cons, List.length_append, Rune.bytes, List.length_cons,
            List.length_take] at h ⊢
          omega
  simpa [coerce, runes] using go 0 s (Nat.zero_le _)

theorem runes_length_le (s : List UInt8) : (runes s).length ≤ s.length := by
  have go : ∀ (k : ℕ) (s : List UInt8), (runesFrom k s).length ≤ s.length := by
    intro k s
    induction s generalizing k with
    | nil => cases k <;> exact Nat.le_refl _
    | cons a s ih =>
      cases k with
      | succ k => exact (ih k).trans (Nat.le_succ _)
      | zero =>
        rw [runesFrom]
        cases runeSize (a :: s) with
        | zero => exact Nat.succ_le_succ (ih 0)
        | succ n => exact Nat.succ_le_succ (ih n)
  exact go 0 s

theorem isRune_length_le {bytes : List UInt8} (h : IsRune bytes) : bytes.length ≤ 4 := by
  rw [← h.2]
  unfold runeSize
  split
  · decide
  · split_ifs
    · decide
    · split
      · decide
      · split_ifs
        · decide
        · split
          · decide
          · split_ifs
            · decide
            · split
              · decide
              · split_ifs <;> decide

end MiniServiceDiscover.Utf8Runes
