import Mathlib.Data.List.Basic
import Mathlib.Tactic.Basic
import Mathlib.Tactic.SplitIfs

set_option autoImplicit false

/-! Strings of characters as UTF-16 code units and as UTF-8 bytes, and back. -/
namespace MiniServiceDiscover.UnicodeText

/-- One unit, or a surrogate pair from U+10000 on. -/
def charUnits (c : Char) : List UInt16 :=
  if c.toNat < 0x10000 then [c.toNat.toUInt16]
  else [(0xD800 + (c.toNat - 0x10000) / 0x400).toUInt16,
    (0xDC00 + (c.toNat - 0x10000) % 0x400).toUInt16]

def utf16 (s : List Char) : List UInt16 := s.flatMap charUnits

def utf8 (s : List Char) : List UInt8 := s.flatMap String.utf8EncodeChar

/-- No surrogate lacks its other half. -/
def WellFormed (units : List UInt16) : Prop := ∃ s, utf16 s = units

def IsUtf8 (bytes : List UInt8) : Prop := ∃ s, utf8 s = bytes

def isAscii (b : UInt8) : Bool := decide (b.toNat < 0x80)

def highSurrogate (u : UInt16) : Bool := decide (0xD800 ≤ u.toNat) && decide (u.toNat < 0xDC00)

def lowSurrogate (u : UInt16) : Bool := decide (0xDC00 ≤ u.toNat) && decide (u.toNat < 0xE000)

def pairChar (u v : UInt16) : Char :=
  Char.ofNat (0x10000 + (u.toNat - 0xD800) * 0x400 + (v.toNat - 0xDC00))

def ofUtf16 : List UInt16 → Option (List Char)
  | [] => some []
  | u :: s =>
    if highSurrogate u then
      match s with
      | [] => none
      | v :: s => if lowSurrogate v then (ofUtf16 s).map (pairChar u v :: ·) else none
    else if lowSurrogate u then none
    else (ofUtf16 s).map (Char.ofNat u.toNat :: ·)

def ofUtf8 (bytes : List UInt8) : Option (List Char) :=
  bytes.toByteArray.utf8Decode?.map Array.toList

section Bytes

theorem utf8_append (a b : List Char) : utf8 (a ++ b) = utf8 a ++ utf8 b := List.flatMap_append

@[simp] theorem ofUtf8_utf8 (s : List Char) : ofUtf8 (utf8 s) = some s := by
  have h : s.utf8Encode.utf8Decode? = some s.toArray := List.utf8Decode?_utf8Encode
  change s.utf8Encode.utf8Decode?.map Array.toList = some s
  rw [h]
  rfl

theorem utf8_injective {a b : List Char} (h : utf8 a = utf8 b) : a = b := by
  have hd := congrArg ofUtf8 h
  rw [ofUtf8_utf8, ofUtf8_utf8] at hd
  exact Option.some.inj hd

theorem utf8EncodeChar_ascii {c : Char} (h : c.toNat < 0x80) :
    String.utf8EncodeChar c = [c.toNat.toUInt8] := by
  rw [String.utf8EncodeChar, if_pos (show c.val.toNat ≤ 0x7F by exact Nat.le_of_lt_succ h)]
  rfl

theorem utf8EncodeChar_high {c : Char} (h : 0x80 ≤ c.toNat) :
    ∀ b ∈ String.utf8EncodeChar c, 0x80 ≤ b.toNat := by
  have high : ∀ n, 0x80 ≤ n → n < 0x100 → 0x80 ≤ (UInt8.ofNat n).toNat := by
    intro n hlow hlt
    rw [UInt8.toNat_ofNat_of_lt' hlt]
    exact hlow
  intro b hb
  rw [String.utf8EncodeChar, if_neg (show ¬ c.val.toNat ≤ 0x7F by exact Nat.not_le.2 h)] at hb
  split_ifs at hb <;>
    simp only [List.mem_cons, List.not_mem_nil, or_false] at hb
  · rcases hb with rfl | rfl <;> exact high _ (by omega) (by omega)
  · rcases hb with rfl | rfl | rfl <;> exact high _ (by omega) (by omega)
  · rcases hb with rfl | rfl | rfl | rfl <;> exact high _ (by omega) (by omega)

theorem IsUtf8.append {a b : List UInt8} (ha : IsUtf8 a) (hb : IsUtf8 b) : IsUtf8 (a ++ b) := by
  obtain ⟨s, rfl⟩ := ha
  obtain ⟨t, rfl⟩ := hb
  exact ⟨s ++ t, utf8_append s t⟩

theorem isUtf8_nil : IsUtf8 [] := ⟨[], rfl⟩

theorem isUtf8_ascii {b : UInt8} (h : b.toNat < 0x80) : IsUtf8 [b] := by
  have hc : (Char.ofUInt8 b).toNat = b.toNat := UInt8.toNat_toUInt32 b
  refine ⟨[Char.ofUInt8 b], ?_⟩
  rw [utf8, List.flatMap_singleton, utf8EncodeChar_ascii (hc ▸ h), hc]
  simp

theorem IsUtf8.flatMap {α : Type} {l : List α} {f : α → List UInt8}
    (h : ∀ a ∈ l, IsUtf8 (f a)) : IsUtf8 (l.flatMap f) := by
  induction l with
  | nil => exact isUtf8_nil
  | cons a l ih =>
    rw [List.forall_mem_cons] at h
    rw [List.flatMap_cons]
    exact h.1.append (ih h.2)

theorem isUtf8_of_all {l : List UInt8} (h : l.all isAscii = true) : IsUtf8 l := by
  rw [List.all_eq_true] at h
  have hl := IsUtf8.flatMap (f := fun b => [b]) fun b hb =>
    isUtf8_ascii (of_decide_eq_true (h b hb))
  rwa [List.flatMap_singleton'] at hl

end Bytes

section Units

theorem toNat_cases (c : Char) :
    c.toNat < 0xD800 ∨ (0xE000 ≤ c.toNat ∧ c.toNat < 0x110000) := c.valid

theorem toNat_toUInt16 {n : ℕ} (h : n < 0x10000) : n.toUInt16.toNat = n :=
  UInt16.toNat_ofNat_of_lt' h

theorem highSurrogate_iff (u : UInt16) :
    highSurrogate u = true ↔ 0xD800 ≤ u.toNat ∧ u.toNat < 0xDC00 := by
  rw [highSurrogate, Bool.and_eq_true, decide_eq_true_iff, decide_eq_true_iff]

theorem lowSurrogate_iff (u : UInt16) :
    lowSurrogate u = true ↔ 0xDC00 ≤ u.toNat ∧ u.toNat < 0xE000 := by
  rw [lowSurrogate, Bool.and_eq_true, decide_eq_true_iff, decide_eq_true_iff]

theorem ofUtf16_charUnits (c : Char) (s : List UInt16) :
    ofUtf16 (charUnits c ++ s) = (ofUtf16 s).map (c :: ·) := by
  have hc := toNat_cases c
  unfold charUnits
  split_ifs with h
  · have hu := toNat_toUInt16 h
    have hhigh : ¬ highSurrogate c.toNat.toUInt16 = true := by
      rw [highSurrogate_iff, hu]
      omega
    have hlow : ¬ lowSurrogate c.toNat.toUInt16 = true := by
      rw [lowSurrogate_iff, hu]
      omega
    rw [List.singleton_append, ofUtf16.eq_def]
    simp only [if_neg hhigh, if_neg hlow, hu, Char.ofNat_toNat]
  · obtain ⟨m, hm⟩ : ∃ m, c.toNat = 0x10000 + m := ⟨c.toNat - 0x10000, by omega⟩
    have hlt : m < 0x100000 := by omega
    rw [hm, Nat.add_sub_cancel_left]
    have hu : (0xD800 + m / 0x400).toUInt16.toNat = 0xD800 + m / 0x400 :=
      toNat_toUInt16 (by omega)
    have hv : (0xDC00 + m % 0x400).toUInt16.toNat = 0xDC00 + m % 0x400 :=
      toNat_toUInt16 (by omega)
    have hhigh : highSurrogate (0xD800 + m / 0x400).toUInt16 = true := by
      rw [highSurrogate_iff, hu]
      omega
    have hlow : lowSurrogate (0xDC00 + m % 0x400).toUInt16 = true := by
      rw [lowSurrogate_iff, hv]
      omega
    have hpair : pairChar (0xD800 + m / 0x400).toUInt16 (0xDC00 + m % 0x400).toUInt16 = c := by
      have hc : 0x10000 + (0xD800 + m / 0x400 - 0xD800) * 0x400 + (0xDC00 + m % 0x400 - 0xDC00) =
          c.toNat := by omega
      rw [pairChar, hu, hv, hc, Char.ofNat_toNat]
    rw [List.cons_append, List.singleton_append, ofUtf16.eq_def]
    simp only [hhigh, hlow, if_true, hpair]

@[simp] theorem ofUtf16_utf16 (s : List Char) : ofUtf16 (utf16 s) = some s := by
  induction s with
  | nil => rfl
  | cons c s ih =>
    rw [utf16, List.flatMap_cons, ofUtf16_charUnits]
    change (ofUtf16 (utf16 s)).map _ = _
    rw [ih]
    rfl

theorem toNat_ofNat {n : ℕ} (h : n.isValidChar) : (Char.ofNat n).toNat = n := by
  rw [Char.ofNat, dif_pos h]
  rfl

theorem charUnits_pairChar {u v : UInt16} (hu : highSurrogate u = true)
    (hv : lowSurrogate v = true) : charUnits (pairChar u v) = [u, v] := by
  rw [highSurrogate_iff] at hu
  rw [lowSurrogate_iff] at hv
  obtain ⟨m, hm⟩ : ∃ m, m = (u.toNat - 0xD800) * 0x400 + (v.toNat - 0xDC00) := ⟨_, rfl⟩
  have hnat : (pairChar u v).toNat = 0x10000 + m := by
    have hvalid : (0x10000 + m).isValidChar := .inr ⟨by omega, by omega⟩
    rw [pairChar, Nat.add_assoc, ← hm, toNat_ofNat hvalid]
  have hhigh : 0xD800 + m / 0x400 = u.toNat := by omega
  have hlow : 0xDC00 + m % 0x400 = v.toNat := by omega
  rw [charUnits, if_neg (by omega), hnat, Nat.add_sub_cancel_left, hhigh, hlow]
  simp

theorem charUnits_single {u : UInt16} (hu : ¬ highSurrogate u = true)
    (hv : ¬ lowSurrogate u = true) : charUnits (Char.ofNat u.toNat) = [u] := by
  rw [highSurrogate_iff] at hu
  rw [lowSurrogate_iff] at hv
  have hlt := u.toNat_lt
  have hvalid : u.toNat.isValidChar := by
    rw [Nat.isValidChar]
    omega
  have hnat := toNat_ofNat hvalid
  rw [charUnits, if_pos (by omega), hnat]
  simp

theorem utf16_ofUtf16 {units : List UInt16} {s : List Char} (h : ofUtf16 units = some s) :
    utf16 s = units := by
  induction units using ofUtf16.induct generalizing s with
  | case1 =>
    cases h
    rfl
  | case2 u hu =>
    rw [ofUtf16.eq_def] at h
    simp only [hu, if_true, reduceCtorEq] at h
  | case3 u hu v rest hv ih =>
    rw [ofUtf16.eq_def] at h
    simp only [hu, hv, if_true] at h
    obtain ⟨t, ht, rfl⟩ := Option.map_eq_some_iff.1 h
    rw [utf16, List.flatMap_cons, charUnits_pairChar hu hv]
    exact congrArg (u :: v :: ·) (ih ht)
  | case4 u hu v rest hv =>
    rw [ofUtf16.eq_def] at h
    simp only [hu, hv, if_true, if_false, reduceCtorEq] at h
  | case5 u rest hu hv =>
    rw [ofUtf16.eq_def] at h
    simp only [hu, hv, if_true, if_false, reduceCtorEq] at h
  | case6 u rest hu hv ih =>
    rw [ofUtf16.eq_def] at h
    simp only [hu, hv] at h
    obtain ⟨t, ht, rfl⟩ := Option.map_eq_some_iff.1 h
    rw [utf16, List.flatMap_cons, charUnits_single hu hv]
    exact congrArg (u :: ·) (ih ht)

theorem wellFormed_iff (units : List UInt16) : WellFormed units ↔ (ofUtf16 units).isSome := by
  constructor
  · rintro ⟨s, rfl⟩
    rw [ofUtf16_utf16]
    rfl
  · intro h
    obtain ⟨s, hs⟩ := Option.isSome_iff_exists.1 h
    exact ⟨s, utf16_ofUtf16 hs⟩

instance (units : List UInt16) : Decidable (WellFormed units) :=
  decidable_of_iff _ (wellFormed_iff units).symm

end Units

end MiniServiceDiscover.UnicodeText
