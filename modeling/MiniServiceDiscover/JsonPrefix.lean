import MiniServiceDiscover.JsonRoundTrip

set_option autoImplicit false

/-! The reader never looks behind the value it returns: more text changes what
is left over and nothing else. A number is the exception, since digits that
follow belong to it. -/
namespace MiniServiceDiscover.JsonPrefix
open JsonText JsonRoundTrip

/-- The value shows where it ends. -/
def Delimited : Value → Prop
  | .num _ => False
  | _ => True

section Scanners
variable {s rest y : List UInt8}

theorem skipSpace_append {b : UInt8} {t : List UInt8} (h : skipSpace s = b :: t) :
    skipSpace (s ++ y) = b :: (t ++ y) := by
  have hd : s.dropWhile isSpace = b :: t := h
  rw [skipSpace, List.dropWhile_append, hd]
  rfl

theorem skipSpace_append_blank (h : skipSpace s = []) : skipSpace (s ++ y) = skipSpace y := by
  have hd : s.dropWhile isSpace = [] := h
  rw [skipSpace, List.dropWhile_append, hd]
  rfl

theorem ne_nil_of_skipSpace {b : UInt8} {t : List UInt8} (h : skipSpace s = b :: t) : s ≠ [] := by
  rintro rfl
  cases h

theorem scanString_append {es : List Elem} (h : scanString s = some (es, rest)) :
    scanString (s ++ y) = some (es, rest ++ y) := by
  refine scanString_induction
    (motive := fun s es rest => scanString (s ++ y) = some (es, rest ++ y)) ?_ ?_ h
  · intro s
    rw [List.cons_append, scanString.eq_def]
    simp only [if_true]
  · intro c e t es rest hc _ ih
    rw [List.append_assoc, hc, ih]
    rfl

theorem scanDigits_append {digits : List UInt8} (h : scanDigits s = some (digits, rest))
    (hr : rest ≠ []) : scanDigits (s ++ y) = some (digits, rest ++ y) := by
  unfold scanDigits at h
  split_ifs at h with hd
  obtain ⟨rfl, rfl⟩ := Prod.mk.inj (Option.some.inj h)
  have hdrop : (s ++ y).dropWhile isDigit = s.dropWhile isDigit ++ y := by
    rw [List.dropWhile_append, if_neg (by simpa using hr)]
  have htake : (s ++ y).takeWhile isDigit = s.takeWhile isDigit := by
    have hboth := (s ++ y).takeWhile_append_dropWhile (p := isDigit)
    rw [hdrop, ← List.append_assoc] at hboth
    exact List.append_cancel_right ((List.append_cancel_right hboth).trans
      s.takeWhile_append_dropWhile.symm)
  rw [scanDigits, htake, hdrop, if_neg hd]

theorem scanInteger_append {digits : List UInt8} (h : scanInteger s = some (digits, rest))
    (hr : rest ≠ []) : scanInteger (s ++ y) = some (digits, rest ++ y) := by
  cases s with
  | nil => cases h
  | cons b s =>
    rw [scanInteger] at h
    rw [List.cons_append, scanInteger]
    split_ifs at h with hb
    · obtain ⟨rfl, rfl⟩ := Prod.mk.inj (Option.some.inj h)
      rw [if_pos hb]
    · rw [if_neg hb]
      exact scanDigits_append h hr

theorem scanFraction_append {digits : List UInt8} (h : scanFraction s = some (digits, rest))
    (hr : rest ≠ []) : scanFraction (s ++ y) = some (digits, rest ++ y) := by
  unfold scanFraction at h
  split at h
  · obtain ⟨⟨ds, r⟩, hq, he⟩ := Option.map_eq_some_iff.1 h
    obtain ⟨rfl, rfl⟩ := Prod.mk.inj he
    rw [List.cons_append, scanFraction, scanDigits_append hq hr]
    rfl
  · rename_i hdot
    obtain ⟨rfl, rfl⟩ := Prod.mk.inj (Option.some.inj h)
    cases s with
    | nil => exact absurd rfl hr
    | cons b s =>
      rw [List.cons_append, scanFraction]
      exact fun t ht => hdot s (by rw [(List.cons.inj ht).1])

theorem scanExponent_append {digits : List UInt8} (h : scanExponent s = some (digits, rest))
    (hr : rest ≠ []) : scanExponent (s ++ y) = some (digits, rest ++ y) := by
  unfold scanExponent at h
  split at h
  · rename_i e s
    rw [List.cons_append, scanExponent.eq_def]
    simp only
    split_ifs at h with he
    · rw [if_pos he]
      split at h
      · rename_i g t
        rw [List.cons_append]
        simp only
        split_ifs at h with hg
        · obtain ⟨⟨ds, r⟩, hq, heq⟩ := Option.map_eq_some_iff.1 h
          obtain ⟨rfl, rfl⟩ := Prod.mk.inj heq
          rw [if_pos hg, scanDigits_append hq hr]
          rfl
        · obtain ⟨⟨ds, r⟩, hq, heq⟩ := Option.map_eq_some_iff.1 h
          obtain ⟨rfl, rfl⟩ := Prod.mk.inj heq
          rw [if_neg hg, ← List.cons_append, scanDigits_append hq hr]
          rfl
      · cases h
    · obtain ⟨rfl, rfl⟩ := Prod.mk.inj (Option.some.inj h)
      rw [if_neg he]
      rfl
  · obtain ⟨rfl, rfl⟩ := Prod.mk.inj (Option.some.inj h)
    exact absurd rfl hr

theorem ne_nil_of_length_le {a b : List UInt8} (h : a.length ≤ b.length) (ha : a ≠ []) :
    b ≠ [] := by
  rintro rfl
  exact ha (List.length_eq_zero_iff.1 (Nat.le_zero.1 h))

theorem scanMagnitude_append {digits : List UInt8} (h : scanMagnitude s = some (digits, rest))
    (hr : rest ≠ []) : scanMagnitude (s ++ y) = some (digits, rest ++ y) := by
  simp only [scanMagnitude, Option.bind_eq_bind, Option.bind_eq_some_iff] at h
  obtain ⟨⟨i, si⟩, hi, ⟨f, sf⟩, hf, ⟨e, se⟩, he, heq⟩ := h
  obtain ⟨rfl, rfl⟩ := Prod.mk.inj (Option.some.inj heq)
  have hsf : sf ≠ [] := ne_nil_of_length_le (scanExponent_length he) hr
  have hsi : si ≠ [] := ne_nil_of_length_le (scanFraction_length hf) hsf
  simp only [scanMagnitude, Option.bind_eq_bind, scanInteger_append hi hsi,
    Option.bind_some, scanFraction_append hf hsf, scanExponent_append he hr]

theorem scanNumber_append {digits : List UInt8} (h : scanNumber s = some (digits, rest))
    (hr : rest ≠ []) : scanNumber (s ++ y) = some (digits, rest ++ y) := by
  unfold scanNumber at h
  split at h
  · obtain ⟨⟨ds, r⟩, hq, he⟩ := Option.map_eq_some_iff.1 h
    obtain ⟨rfl, rfl⟩ := Prod.mk.inj he
    rw [List.cons_append, scanNumber, scanMagnitude_append hq hr]
    rfl
  · rename_i hminus
    cases s with
    | nil => cases h
    | cons b s =>
      rw [List.cons_append, scanNumber]
      · exact scanMagnitude_append h hr
      · exact fun t ht => hminus s (by rw [(List.cons.inj ht).1])

theorem scanWord_append {word : String} {v w : Value} (h : scanWord word v s = some (w, rest)) :
    scanWord word v (s ++ y) = some (w, rest ++ y) := by
  unfold scanWord at h
  split_ifs at h with ht
  obtain ⟨rfl, rfl⟩ := Prod.mk.inj (Option.some.inj h)
  have hl : (ascii word).length ≤ s.length := by
    have := congrArg List.length ht
    rw [List.length_take] at this
    omega
  rw [scanWord, List.take_append_of_le_length hl, if_pos ht, List.drop_append_of_le_length hl]

end Scanners

/-- More text and more fuel leave a value as it is. -/
structure Extends (fuel : ℕ) : Prop where
  value : ∀ g s v rest y, fuel ≤ g → parseValue fuel s = some (v, rest) →
    Delimited v ∨ rest ≠ [] → parseValue g (s ++ y) = some (v, rest ++ y)
  elements : ∀ g s vs rest y, fuel ≤ g → parseElements fuel s = some (vs, rest) →
    parseElements g (s ++ y) = some (vs, rest ++ y)
  members : ∀ g s ms rest y, fuel ≤ g → parseMembers fuel s = some (ms, rest) →
    parseMembers g (s ++ y) = some (ms, rest ++ y)

section Readers
variable {fuel g : ℕ} {s rest y : List UInt8}

theorem map_append {α β : Type} {f : α → β} {r r' : Option (α × List UInt8)} {b : β}
    (hr : ∀ a t, r = some (a, t) → r' = some (a, t ++ y))
    (h : (r.map fun q => (f q.1, q.2)) = some (b, rest)) :
    (r'.map fun q => (f q.1, q.2)) = some (b, rest ++ y) := by
  obtain ⟨⟨a, t⟩, hq, he⟩ := Option.map_eq_some_iff.1 h
  obtain ⟨rfl, rfl⟩ := Prod.mk.inj he
  rw [hr a t hq]
  rfl

theorem parseValue_append (ih : Extends fuel) (hg : fuel ≤ g) {v : Value}
    (h : parseValue (fuel + 1) s = some (v, rest)) (hv : Delimited v ∨ rest ≠ []) :
    parseValue (g + 1) (s ++ y) = some (v, rest ++ y) := by
  rw [parseValue] at h
  split at h
  · cases h
  rename_i b t hs
  rw [parseValue, skipSpace_append hs]
  simp only
  split_ifs at h ⊢ with h1 h2 h3 h4 h5 h6
  · exact map_append (fun _ _ => scanString_append) h
  · split at h
    · cases h
    rename_i c u hu
    rw [skipSpace_append hu]
    simp only
    split_ifs at h ⊢ with hc
    · obtain ⟨rfl, rfl⟩ := Prod.mk.inj (Option.some.inj h)
      rfl
    · exact map_append (fun _ _ => ih.members _ _ _ _ _ hg) h
  · split at h
    · cases h
    rename_i c u hu
    rw [skipSpace_append hu]
    simp only
    split_ifs at h ⊢ with hc
    · obtain ⟨rfl, rfl⟩ := Prod.mk.inj (Option.some.inj h)
      rfl
    · exact map_append (fun _ _ => ih.elements _ _ _ _ _ hg) h
  · exact scanWord_append h
  · exact scanWord_append h
  · exact scanWord_append h
  · obtain ⟨⟨ds, r⟩, hq, he⟩ := Option.map_eq_some_iff.1 h
    obtain ⟨rfl, rfl⟩ := Prod.mk.inj he
    rw [← List.cons_append, scanNumber_append hq (hv.resolve_left id)]
    rfl

theorem parseElements_append (ih : Extends fuel) (hg : fuel ≤ g) {vs : List Value}
    (h : parseElements (fuel + 1) s = some (vs, rest)) :
    parseElements (g + 1) (s ++ y) = some (vs, rest ++ y) := by
  rw [parseElements] at h
  split at h
  · cases h
  rename_i v t hv
  split at h
  · cases h
  rename_i c u hu
  rw [parseElements, ih.value _ _ _ _ _ hg hv (.inr (ne_nil_of_skipSpace hu))]
  simp only
  rw [skipSpace_append hu]
  simp only
  split_ifs at h ⊢ with h1 h2
  · obtain ⟨rfl, rfl⟩ := Prod.mk.inj (Option.some.inj h)
    rfl
  · exact map_append (fun _ _ => ih.elements _ _ _ _ _ hg) h

theorem parseMembers_append (ih : Extends fuel) (hg : fuel ≤ g)
    {ms : List (List Elem × Value)} (h : parseMembers (fuel + 1) s = some (ms, rest)) :
    parseMembers (g + 1) (s ++ y) = some (ms, rest ++ y) := by
  rw [parseMembers] at h
  split at h
  · cases h
  rename_i q afterQuote hs
  split_ifs at h with hq
  split at h
  · cases h
  rename_i k afterKey hk
  split at h
  · cases h
  rename_i c afterColon hc
  split_ifs at h with hcolon
  split at h
  · cases h
  rename_i v afterValue hv
  split at h
  · cases h
  rename_i d u hu
  have hval := ih.value g _ _ _ y hg hv (.inr (ne_nil_of_skipSpace hu))
  rw [parseMembers, skipSpace_append hs]
  simp only [hq, if_true, scanString_append hk, skipSpace_append hc, hcolon, hval,
    skipSpace_append hu]
  split_ifs at h ⊢ with h1 h2
  · obtain ⟨rfl, rfl⟩ := Prod.mk.inj (Option.some.inj h)
    rfl
  · exact map_append (fun _ _ => ih.members _ _ _ _ _ hg) h

theorem extends_all (fuel : ℕ) : Extends fuel := by
  induction fuel with
  | zero =>
    constructor <;>
    · intros
      contradiction
  | succ fuel ih =>
    refine ⟨?_, ?_, ?_⟩
    · intro g s v rest y hg h hv
      obtain ⟨g, rfl⟩ : ∃ k, g = k + 1 := ⟨g - 1, by omega⟩
      exact parseValue_append ih (Nat.le_of_succ_le_succ hg) h hv
    · intro g s vs rest y hg h
      obtain ⟨g, rfl⟩ : ∃ k, g = k + 1 := ⟨g - 1, by omega⟩
      exact parseElements_append ih (Nat.le_of_succ_le_succ hg) h
    · intro g s ms rest y hg h
      obtain ⟨g, rfl⟩ : ∃ k, g = k + 1 := ⟨g - 1, by omega⟩
      exact parseMembers_append ih (Nat.le_of_succ_le_succ hg) h

/-- Behind a whole text nothing but white space may follow. -/
theorem parse_append {v : Value} (h : parse s = some v) (hv : Delimited v)
    (hy : skipSpace y ≠ []) : parse (s ++ y) = none := by
  unfold parse at h
  split at h
  · cases h
  rename_i w rest hw
  split_ifs at h with hrest
  obtain rfl := Option.some.inj h
  have hl : s.length + 1 ≤ (s ++ y).length + 1 := by
    rw [List.length_append]
    omega
  rw [parse, (extends_all _).value _ _ _ _ y hl hw (.inl hv)]
  simp only
  rw [skipSpace_append_blank hrest, if_neg hy]

end Readers

end MiniServiceDiscover.JsonPrefix
