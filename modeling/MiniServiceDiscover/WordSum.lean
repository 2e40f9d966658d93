import Mathlib.Algebra.Order.BigOperators.Group.List
import Mathlib.Algebra.Order.Ring.Nat
import Mathlib.Data.List.Basic
import Mathlib.Tactic.Basic

set_option autoImplicit false

/-! Sixteen-bit words over bytes: little-endian layout and wrap-around sums.
A byte enters a sum zero-extended or sign-extended, and the two sums differ by
`256` for every byte with its top bit set. -/
namespace MiniServiceDiscover.WordSum

def lowByte (w : UInt16) : UInt8 := w.toUInt8

def highByte (w : UInt16) : UInt8 := (w >>> 8).toUInt8

def word (lo hi : UInt8) : UInt16 := lo.toUInt16 ||| (hi.toUInt16 <<< 8)

theorem word_toNat (lo hi : UInt8) : (word lo hi).toNat = lo.toNat + 256 * hi.toNat := by
  have hlo := lo.toNat_lt
  have hhi := hi.toNat_lt
  have hs : hi.toNat <<< 8 % 2 ^ 16 = hi.toNat <<< 8 := by
    rw [Nat.shiftLeft_eq]
    omega
  simp only [word, UInt16.toNat_or, UInt16.toNat_shiftLeft, UInt8.toNat_toUInt16]
  change lo.toNat ||| hi.toNat <<< 8 % 2 ^ 16 = _
  rw [hs, Nat.or_comm, ← Nat.shiftLeft_add_eq_or_of_lt (by omega), Nat.shiftLeft_eq]
  omega

theorem lowByte_toNat (w : UInt16) : (lowByte w).toNat = w.toNat % 256 := by
  simp [lowByte]

theorem highByte_toNat (w : UInt16) : (highByte w).toNat = w.toNat / 256 := by
  have h := w.toNat_lt
  simp only [highByte, UInt16.toNat_toUInt8, UInt16.toNat_shiftRight]
  change w.toNat >>> 8 % 2 ^ 8 = _
  rw [Nat.shiftRight_eq_div_pow]
  omega

@[simp] theorem word_bytes (w : UInt16) : word (lowByte w) (highByte w) = w := by
  apply UInt16.toNat_inj.1
  rw [word_toNat, lowByte_toNat, highByte_toNat]
  omega

section Sums
variable (f : UInt8 → UInt16)

def wordSum (l : List UInt8) : UInt16 := l.foldl (fun sum b => sum + f b) 0

theorem foldl_toNat (l : List UInt8) (s : UInt16) :
    (l.foldl (fun sum b => sum + f b) s).toNat =
      (s.toNat + (l.map fun b => (f b).toNat).sum) % 65536 := by
  induction l generalizing s with
  | nil =>
    have h := s.toNat_lt
    simp only [List.foldl_nil, List.map_nil, List.sum_nil]
    omega
  | cons b l ih =>
    rw [List.foldl_cons, ih, UInt16.toNat_add, List.map_cons, List.sum_cons]
    omega

theorem wordSum_toNat (l : List UInt8) :
    (wordSum f l).toNat = (l.map fun b => (f b).toNat).sum % 65536 := by
  rw [wordSum, foldl_toNat]
  simp

/-- A sum of costs that are each at most `c`. -/
theorem sum_map_le {α : Type} (cost : α → ℕ) (c : ℕ) {l : List α} (h : ∀ x ∈ l, cost x ≤ c) :
    (l.map cost).sum ≤ c * l.length := by
  have hs := List.sum_le_card_nsmul (l.map cost) c (by
    intro n hn
    obtain ⟨x, hx, rfl⟩ := List.mem_map.1 hn
    exact h x hx)
  rwa [List.length_map, Nat.nsmul_eq_mul, Nat.mul_comm] at hs

end Sums

def zeroExtend (b : UInt8) : UInt16 := b.toUInt16

def signExtend (b : UInt8) : UInt16 := b.toInt8.toInt16.toUInt16

def isHigh (b : UInt8) : Bool := decide (128 ≤ b.toNat)

def highCount (l : List UInt8) : ℕ := l.countP isHigh

theorem signExtend_toNat (b : UInt8) :
    (signExtend b).toNat = (zeroExtend b).toNat + if isHigh b then 65280 else 0 := by
  have hb := b.toNat_lt
  have hs : (signExtend b).toNat = (b.toBitVec.signExtend 16).toNat := rfl
  rw [hs, BitVec.toNat_signExtend, BitVec.msb_eq_decide, BitVec.toNat_setWidth,
    UInt8.toNat_toBitVec, zeroExtend, UInt8.toNat_toUInt16, isHigh]
  change b.toNat % 65536 + (if decide (128 ≤ b.toNat) = true then 65280 else 0) = _
  omega

theorem map_signExtend_sum (l : List UInt8) :
    (l.map fun b => (signExtend b).toNat).sum =
      (l.map fun b => (zeroExtend b).toNat).sum + 65280 * highCount l := by
  induction l with
  | nil => rfl
  | cons b l ih =>
    have hc : highCount (b :: l) = highCount l + if isHigh b then 1 else 0 := List.countP_cons
    rw [List.map_cons, List.map_cons, List.sum_cons, List.sum_cons, ih, hc, signExtend_toNat]
    split_ifs <;> omega

/-- Signed and unsigned accumulation agree exactly when the number of bytes
with the top bit set is a multiple of `256`. -/
theorem signed_eq_unsigned_iff (l : List UInt8) :
    wordSum signExtend l = wordSum zeroExtend l ↔ highCount l % 256 = 0 := by
  rw [← UInt16.toNat_inj, wordSum_toNat, wordSum_toNat, map_signExtend_sum]
  omega

end MiniServiceDiscover.WordSum
