import MiniServiceDiscover.JsonRoundTrip
import Mathlib.Data.Rat.Floor

set_option autoImplicit false

/-! The number a literal stands for, with its sign, fraction and exponent. -/
namespace MiniServiceDiscover.JsonNumber
open JsonText JsonRoundTrip

/-- The exponent behind the digits, from its letter on. -/
def exponentOf : List UInt8 → ℤ
  | _ :: 0x2D :: ds => -(natOf ds)
  | _ :: 0x2B :: ds => natOf ds
  | _ :: ds => natOf ds
  | [] => 0

/-- The digits on both sides of the point, moved by the exponent. -/
def magnitudeOf (s : List UInt8) : ℚ :=
  let whole := s.takeWhile isDigit
  match s.dropWhile isDigit with
  | 0x2E :: t =>
    let fraction := t.takeWhile isDigit
    natOf (whole ++ fraction) * 10 ^ (exponentOf (t.dropWhile isDigit) - fraction.length)
  | t => natOf whole * 10 ^ exponentOf t

def valueOf : List UInt8 → ℚ
  | 0x2D :: s => -magnitudeOf s
  | s => magnitudeOf s

/-- Toward zero. -/
def truncate (x : ℚ) : ℤ := if 0 ≤ x then ⌊x⌋ else ⌈x⌉

theorem truncate_natCast (n : ℕ) : truncate n = n := by
  rw [truncate, if_pos (Nat.cast_nonneg n), Int.floor_natCast]

theorem valueOf_digits {ds : List UInt8} (h : ∀ d ∈ ds, isDigit d = true) :
    valueOf ds = natOf ds := by
  have hmagnitude : magnitudeOf ds = natOf ds := by
    have hend : EndsNumber [] := trivial
    obtain ⟨ht, hd⟩ := takeWhile_digits h hend
    rw [List.append_nil] at ht hd
    simp [magnitudeOf, ht, hd, exponentOf]
  unfold valueOf
  split
  · exact absurd (h 0x2D (by simp)) (by decide)
  · exact hmagnitude

theorem valueOf_decimal (n : ℕ) : valueOf (decimal n) = n := by
  rw [valueOf_digits (decimal_digits n).digits, (decimal_digits n).value]

example : truncate (valueOf (ascii "-80.5")) = -80 := by decide +kernel

example : truncate (valueOf (ascii "6.6666e3")) = 6666 := by decide +kernel

end MiniServiceDiscover.JsonNumber
