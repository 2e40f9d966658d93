import Mathlib.Tactic.Basic

set_option autoImplicit false

/-! Computations that may fail: what one that returns has done, and errors it avoids. -/
namespace MiniServiceDiscover.Fallible

section Returns
variable {ε α β : Type}

theorem bind_eq_ok {x : Except ε α} {f : α → Except ε β} {b : β} :
    (x >>= f) = .ok b ↔ ∃ a, x = .ok a ∧ f a = .ok b := by
  cases x with
  | error e => exact ⟨(fun h => nomatch h), fun ⟨a, h, _⟩ => nomatch h⟩
  | ok a => exact ⟨fun h => ⟨a, rfl, h⟩, fun ⟨a', h, hf⟩ => Except.ok.inj h ▸ hf⟩

theorem map_eq_ok {x : Except ε α} {f : α → β} {b : β} :
    x.map f = .ok b ↔ ∃ a, x = .ok a ∧ f a = b := by
  cases x with
  | error e => exact ⟨(fun h => nomatch h), fun ⟨a, h, _⟩ => nomatch h⟩
  | ok a =>
    exact ⟨fun h => ⟨a, rfl, Except.ok.inj h⟩,
      fun ⟨a', h, hf⟩ => congrArg Except.ok (Except.ok.inj h ▸ hf)⟩

end Returns

section Avoids
variable {ε α β : Type} {e : ε}

/-- The computation does not fail with this error. -/
def Avoids (e : ε) (x : Except ε α) : Prop := x ≠ .error e

theorem avoids_ok (a : α) : Avoids e (.ok a : Except ε α) := nofun

theorem avoids_error {e' : ε} (h : e' ≠ e) : Avoids e (.error e' : Except ε α) :=
  fun he => h (Except.error.inj he)

theorem Avoids.bind {x : Except ε α} {f : α → Except ε β} (h : Avoids e x)
    (hf : ∀ a, x = .ok a → Avoids e (f a)) : Avoids e (x >>= f) := by
  cases x with
  | error e' => exact avoids_error fun he => h (congrArg Except.error he)
  | ok a => exact hf a rfl

theorem Avoids.map {x : Except ε α} (h : Avoids e x) (f : α → β) : Avoids e (x.map f) := by
  cases x with
  | error e' => exact avoids_error fun he => h (congrArg Except.error he)
  | ok a => exact avoids_ok _

end Avoids

end MiniServiceDiscover.Fallible
