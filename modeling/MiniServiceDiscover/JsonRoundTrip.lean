import MiniServiceDiscover.JsonText
import Mathlib.Algebra.Order.BigOperators.Group.List
import Mathlib.Algebra.Order.Ring.Nat
import Mathlib.Data.Nat.Log

set_option autoImplicit false

/-! The reader undoes the writer, and the strings a reader returns are no longer
than the text they were read from. -/
namespace MiniServiceDiscover.JsonRoundTrip
open JsonText

def Printable : Elem → Prop
  | .byte b => 0x20 ≤ b.toNat ∧ b ≠ quote ∧ b ≠ backslash
  | .escaped b => letterOf b ≠ 0x75 ∧ escapeOf (letterOf b) = some b
  | .unit u => u < 65536

def Scalar.Printable : Scalar → Prop
  | .str es => ∀ e ∈ es, JsonRoundTrip.Printable e
  | .num _ => True

section Strings

/-- The marks of a string are escaped, and an escape is read as what it was written for. -/
structure Escapes (short : List UInt8) : Prop where
  quote : quote ∈ short
  backslash : backslash ∈ short
  read : ∀ b ∈ short, Printable (.escaped b)

theorem Escapes.printable {short : List UInt8} (h : Escapes short) (b : UInt8) :
    Printable (writtenElem short b) := by
  unfold writtenElem
  split_ifs with hs hc
  · exact h.read b hs
  · have := b.toNat_lt
    simp only [Printable]
    omega
  · exact ⟨Nat.le_of_not_lt hc, fun hq => hs (hq ▸ h.quote), fun hb => hs (hb ▸ h.backslash)⟩

theorem Escapes.of_all {short : List UInt8} (hq : JsonText.quote ∈ short)
    (hb : JsonText.backslash ∈ short)
    (h : (short.all fun b => letterOf b ≠ 0x75 ∧ escapeOf (letterOf b) = some b) = true) :
    Escapes short where
  quote := hq
  backslash := hb
  read := by
    intro b hm
    change letterOf b ≠ 0x75 ∧ escapeOf (letterOf b) = some b
    exact of_decide_eq_true (List.all_eq_true.1 h b hm)

theorem hexValue_hexDigit (n : ℕ) (h : n < 16) : hexValue (hexDigit n) = some n := by
  revert n
  decide

theorem hexUnit_hexDigits (u : ℕ) (h : u < 65536) :
    hexUnit (hexDigit (u / 4096 % 16)) (hexDigit (u / 256 % 16)) (hexDigit (u / 16 % 16))
      (hexDigit (u % 16)) = some u := by
  have hv : ∀ n, hexValue (hexDigit (n % 16)) = some (n % 16) :=
    fun n => hexValue_hexDigit _ (Nat.mod_lt _ (by decide))
  simp only [hexUnit, hv, Option.bind_eq_bind, Option.bind_some, Option.some.injEq]
  omega

/-- The scanner takes this front of a text for this element. -/
def Scans (c : List UInt8) (e : Elem) : Prop :=
  ∀ t, scanString (c ++ t) = (scanString t).map fun r => (e :: r.1, r.2)

theorem scanString_elem {e : Elem} (h : Printable e) : Scans (elemText e) e := by
  intro s
  cases e with
  | byte b =>
    obtain ⟨hb, hq, hs⟩ := h
    change scanString (b :: s) = _
    rw [scanString.eq_def]
    simp only [if_neg hq, if_neg hs, if_neg (show ¬ b.toNat < 0x20 by omega)]
  | escaped b =>
    obtain ⟨hu, he⟩ := h
    change scanString (backslash :: letterOf b :: s) = _
    rw [scanString.eq_def]
    simp only [show backslash ≠ quote by decide, if_false, if_true, if_neg hu, he]
  | unit u =>
    change scanString (backslash :: 0x75 :: hexDigit (u / 4096 % 16) :: hexDigit (u / 256 % 16) ::
      hexDigit (u / 16 % 16) :: hexDigit (u % 16) :: s) = _
    rw [scanString.eq_def]
    simp only [show backslash ≠ quote by decide, if_false, if_true, hexUnit_hexDigits u h]

/-- A text with a string at its front is elements one after the other, then a quote. -/
theorem scanString_induction {motive : List UInt8 → List Elem → List UInt8 → Prop}
    (ends : ∀ s, motive (quote :: s) [] s)
    (elem : ∀ c e t es rest, Scans c e → (elemText e).length ≤ c.length → motive t es rest →
      motive (c ++ t) (e :: es) rest)
    {s rest : List UInt8} {es : List Elem} (h : scanString s = some (es, rest)) :
    motive s es rest := by
  have cons : ∀ (c : List UInt8) (e : Elem) {t rest : List UInt8} {es : List Elem}, Scans c e →
      (elemText e).length ≤ c.length →
      (∀ {es rest}, scanString t = some (es, rest) → motive t es rest) →
      scanString (c ++ t) = some (es, rest) → motive (c ++ t) es rest := by
    intro c e t rest es hc hlen ih h
    rw [hc] at h
    obtain ⟨⟨fs, r⟩, hr, he⟩ := Option.map_eq_some_iff.1 h
    obtain ⟨rfl, rfl⟩ := Prod.mk.inj he
    exact elem c e t fs r hc hlen (ih hr)
  induction s using scanString.induct generalizing es rest with
  | case1 => cases h
  | case2 s =>
    rw [scanString.eq_def] at h
    simp only [if_true, Option.some.injEq, Prod.mk.injEq] at h
    obtain ⟨rfl, rfl⟩ := h
    exact ends s
  | case3 hq =>
    rw [scanString.eq_def] at h
    simp only [hq, if_false, if_true, reduceCtorEq] at h
  | case4 a b c d s hu hq =>
    rw [scanString.eq_def] at h
    simp only [hq, if_false, if_true, hu, reduceCtorEq] at h
  | case5 a b c d s u hu hq ih =>
    refine cons [backslash, 0x75, a, b, c, d] (.unit u) (fun t => ?_) (Nat.le_refl 6) ih h
    rw [scanString.eq_def]
    simp only [List.cons_append, List.nil_append, hq, if_false, if_true, hu]
  | case6 s hs hq =>
    rw [scanString.eq_def] at h
    simp only [hq, if_false, if_true, reduceCtorEq] at h
  | case7 e s he hv hq =>
    rw [scanString.eq_def] at h
    simp only [hq, he, if_false, if_true, hv, reduceCtorEq] at h
  | case8 e s he v hv hq ih =>
    refine cons [backslash, e] (.escaped v) (fun t => ?_) (Nat.le_refl 2) ih h
    rw [scanString.eq_def]
    simp only [List.cons_append, List.nil_append, hq, he, if_false, if_true, hv]
  | case9 e s hq hb hc =>
    rw [scanString.eq_def] at h
    simp only [hq, hb, hc, if_false, if_true, reduceCtorEq] at h
  | case10 e s hq hb hc ih =>
    refine cons [e] (.byte e) (fun t => ?_) (Nat.le_refl 1) ih h
    rw [scanString.eq_def]
    simp only [List.cons_append, List.nil_append, hq, hb, hc, if_false]

theorem scanString_elems {es : List Elem} (h : ∀ e ∈ es, Printable e) (rest : List UInt8) :
    scanString (es.flatMap elemText ++ quote :: rest) = some (es, rest) := by
  induction es with
  | nil =>
    change scanString (quote :: rest) = _
    rw [scanString.eq_def]
    simp only [if_true]
  | cons e es ih =>
    rw [List.flatMap_cons, List.append_assoc, scanString_elem (h e (by simp)),
      ih fun d hd => h d (by simp [hd])]
    rfl

end Strings

section Numbers

theorem digit_toNat {n : ℕ} (h : n < 10) : (digit n).toNat = 0x30 + n := by
  revert n
  decide

theorem isDigit_digit {n : ℕ} (h : n < 10) : isDigit (digit n) = true := by
  simp only [isDigit, digit_toNat h, Bool.and_eq_true, decide_eq_true_eq]
  omega

/-- What the digit loop leaves in front of its accumulator. -/
structure Digits (n : ℕ) (ds : List UInt8) : Prop where
  nonempty : ds ≠ []
  digits : ∀ d ∈ ds, isDigit d = true
  value : natOf ds = n
  noLeadingZero : ∀ t, ds = 0x30 :: t → t = []

theorem natOf_append (ds es : List UInt8) (d : UInt8) (h : es = [d]) :
    natOf (ds ++ es) = 10 * natOf ds + (d.toNat - 0x30) := by
  subst h
  simp [natOf]

theorem decimalFrom_digits (fuel n : ℕ) (h : n < fuel) (acc : List UInt8) :
    ∃ ds, decimalFrom fuel n acc = ds ++ acc ∧ Digits n ds ∧ (0 < n → ds.head? ≠ some 0x30) := by
  induction fuel generalizing n acc with
  | zero => omega
  | succ fuel ih =>
    by_cases hn : n < 10
    · refine ⟨[digit n], by rw [decimalFrom, if_pos hn]; rfl, ⟨by simp, ?_, ?_, ?_⟩, ?_⟩
      · intro d hd
        rw [List.mem_singleton] at hd
        exact hd ▸ isDigit_digit hn
      · simp [natOf, digit_toNat hn]
      · intro t ht
        exact (List.cons.inj ht).2.symm
      · intro hpos hz
        have hd : digit n = 0x30 := Option.some.inj hz
        have := digit_toNat hn
        rw [hd] at this
        change 0x30 = 0x30 + n at this
        omega
    · obtain ⟨ds, hds, hD, hz⟩ := ih (n / 10) (by omega) (digit (n % 10) :: acc)
      have hm : n % 10 < 10 := Nat.mod_lt _ (by decide)
      have hnz := hz (by omega)
      refine ⟨ds ++ [digit (n % 10)], ?_, ⟨by simp, ?_, ?_, ?_⟩, ?_⟩
      · rw [decimalFrom, if_neg hn, hds, List.append_assoc]
        rfl
      · intro d hd
        rcases List.mem_append.1 hd with hd | hd
        · exact hD.digits d hd
        · rw [List.mem_singleton] at hd
          exact hd ▸ isDigit_digit hm
      · rw [natOf_append _ _ _ rfl, hD.value, digit_toNat hm]
        omega
      · intro t ht
        obtain ⟨d, ds, rfl⟩ := List.exists_cons_of_ne_nil hD.nonempty
        rw [List.cons_append] at ht
        exact absurd (congrArg some (List.cons.inj ht).1) hnz
      · intro _ hh
        obtain ⟨d, ds, rfl⟩ := List.exists_cons_of_ne_nil hD.nonempty
        exact hnz hh

theorem decimal_digits (n : ℕ) : Digits n (decimal n) := by
  obtain ⟨ds, hds, hD, -⟩ := decimalFrom_digits (n + 1) n (Nat.lt_succ_self n) []
  rw [decimal, hds, List.append_nil]
  exact hD

/-- The text after a number: nothing in it continues the number. -/
def EndsNumber : List UInt8 → Prop
  | [] => True
  | b :: _ => isDigit b = false ∧ b ≠ 0x2E ∧ b ≠ 0x65 ∧ b ≠ 0x45

theorem takeWhile_digits {ds rest : List UInt8} (h : ∀ d ∈ ds, isDigit d = true)
    (hr : EndsNumber rest) :
    (ds ++ rest).takeWhile isDigit = ds ∧ (ds ++ rest).dropWhile isDigit = rest := by
  induction ds with
  | nil =>
    cases rest with
    | nil => exact ⟨rfl, rfl⟩
    | cons b rest =>
      have hb : ¬ isDigit b = true := by rw [hr.1]; decide
      exact ⟨List.takeWhile_cons_of_neg hb, List.dropWhile_cons_of_neg hb⟩
  | cons d ds ih =>
    have hd := h d (by simp)
    obtain ⟨ht, hdr⟩ := ih fun e he => h e (by simp [he])
    rw [List.cons_append, List.takeWhile_cons_of_pos hd, List.dropWhile_cons_of_pos hd, ht, hdr]
    exact ⟨rfl, rfl⟩

theorem scanFraction_ends {rest : List UInt8} (h : EndsNumber rest) :
    scanFraction rest = some ([], rest) := by
  unfold scanFraction
  split
  · exact absurd rfl h.2.1
  · rfl

theorem scanExponent_ends {rest : List UInt8} (h : EndsNumber rest) :
    scanExponent rest = some ([], rest) := by
  cases rest with
  | nil => rfl
  | cons b rest =>
    obtain ⟨-, -, h1, h2⟩ := h
    rw [scanExponent.eq_def]
    simp only [h1, h2, or_false, if_false]

theorem scanInteger_digits {n : ℕ} {ds rest : List UInt8} (h : Digits n ds)
    (hr : EndsNumber rest) : scanInteger (ds ++ rest) = some (ds, rest) := by
  obtain ⟨d, t, rfl⟩ := List.exists_cons_of_ne_nil h.nonempty
  rw [List.cons_append, scanInteger]
  by_cases hd : d = 0x30
  · subst hd
    obtain rfl := h.noLeadingZero t rfl
    rw [if_pos rfl]
    rfl
  · obtain ⟨ht, hdr⟩ := takeWhile_digits h.digits hr
    rw [List.cons_append] at ht hdr
    rw [if_neg hd, scanDigits, ht, hdr, if_neg (List.cons_ne_nil _ _)]

theorem scanMagnitude_decimal (n : ℕ) {rest : List UInt8} (hr : EndsNumber rest) :
    scanMagnitude (decimal n ++ rest) = some (decimal n, rest) := by
  simp only [scanMagnitude, scanInteger_digits (decimal_digits n) hr, scanFraction_ends hr,
    scanExponent_ends hr, Option.bind_eq_bind, Option.bind_some, List.append_nil]

theorem scanNumber_decimal (n : ℕ) {rest : List UInt8} (hr : EndsNumber rest) :
    scanNumber (decimal n ++ rest) = some (decimal n, rest) := by
  have h := decimal_digits n
  have hm := scanMagnitude_decimal n hr
  obtain ⟨d, t, hdt⟩ := List.exists_cons_of_ne_nil h.nonempty
  have hd := h.digits d (by rw [hdt]; simp)
  rw [hdt, List.cons_append] at hm ⊢
  unfold scanNumber
  split
  · rename_i heq
    rw [(List.cons.inj heq).1] at hd
    exact absurd hd (by decide)
  · exact hm

end Numbers

section Values

structure Layout.Blank (y : Layout) : Prop where
  key : ∀ b ∈ y.key, isSpace b = true
  value : ∀ b ∈ y.value, isSpace b = true
  close : ∀ b ∈ y.close, isSpace b = true

theorem skipSpace_append {w : List UInt8} (h : ∀ b ∈ w, isSpace b = true) (s : List UInt8) :
    skipSpace (w ++ s) = skipSpace s := by
  induction w with
  | nil => rfl
  | cons b w ih =>
    rw [skipSpace, List.cons_append, List.dropWhile_cons_of_pos (h b (by simp))]
    exact ih fun c hc => h c (by simp [hc])

theorem skipSpace_cons {b : UInt8} (h : isSpace b = false) (s : List UInt8) :
    skipSpace (b :: s) = b :: s :=
  List.dropWhile_cons_of_neg (by rw [h]; decide)

theorem digit_not_space {b : UInt8} (h : isDigit b = true) :
    isSpace b = false ∧ b ≠ quote ∧ b ≠ openBrace ∧ b ≠ 0x5B ∧ b ≠ 0x6E ∧ b ≠ 0x74 ∧ b ≠ 0x66 := by
  simp only [isDigit, Bool.and_eq_true, decide_eq_true_eq] at h
  have hne : ∀ c : UInt8, c.toNat < 0x30 ∨ 0x39 < c.toNat → b ≠ c := by
    rintro c hc rfl
    omega
  refine ⟨?_, hne _ (by decide), hne _ (by decide), hne _ (by decide), hne _ (by decide),
    hne _ (by decide), hne _ (by decide)⟩
  simp only [isSpace, Bool.or_eq_false_iff, beq_eq_false_iff_ne]
  exact ⟨⟨⟨hne _ (by decide), hne _ (by decide)⟩, hne _ (by decide)⟩, hne _ (by decide)⟩

/-- The reader takes this text for this value, whatever stands around it. -/
def Reads (text : List UInt8) (v : Value) : Prop :=
  ∀ (fuel : ℕ) (w rest : List UInt8), (∀ b ∈ w, isSpace b = true) → EndsNumber rest →
    parseValue (fuel + 1) (w ++ (text ++ rest)) = some (v, rest)

theorem stringText_reads {es : List Elem} (h : ∀ e ∈ es, Printable e) :
    Reads (stringText es) (.str es) := by
  intro fuel w rest hw hr
  have ht : stringText es ++ rest = quote :: (es.flatMap elemText ++ quote :: rest) := by
    simp [stringText]
  rw [parseValue, skipSpace_append hw, ht, skipSpace_cons (by decide)]
  simp only [if_true, scanString_elems h]
  rfl

/-- A number is read where no other kind of value starts. -/
theorem number_reads {b : UInt8} {t : List UInt8} (hs : isSpace b = false)
    (hb : b ∉ [quote, openBrace, 0x5B, 0x6E, 0x74, 0x66])
    (hn : ∀ rest, EndsNumber rest → scanNumber (b :: t ++ rest) = some (b :: t, rest)) :
    Reads (b :: t) (.num (b :: t)) := by
  intro fuel w rest hw hr
  have hscan := hn rest hr
  simp only [List.mem_cons, List.not_mem_nil, or_false, not_or] at hb
  obtain ⟨h1, h2, h3, h4, h5, h6⟩ := hb
  rw [List.cons_append] at hscan
  rw [parseValue, skipSpace_append hw, List.cons_append, skipSpace_cons hs]
  simp only [h1, h2, h3, h4, h5, h6, if_false, hscan]
  rfl

theorem decimal_reads (n : ℕ) : Reads (decimal n) (.num (decimal n)) := by
  have h := decimal_digits n
  have hscan : ∀ rest, EndsNumber rest → scanNumber (decimal n ++ rest) = some (decimal n, rest) :=
    fun _ => scanNumber_decimal n
  obtain ⟨d, t, hdt⟩ := List.exists_cons_of_ne_nil h.nonempty
  have hd := h.digits d (by rw [hdt]; simp)
  rw [hdt] at hscan ⊢
  exact number_reads (digit_not_space hd).1 (by simpa using (digit_not_space hd).2) hscan

theorem minus_reads (n : ℕ) : Reads (0x2D :: decimal n) (.num (0x2D :: decimal n)) := by
  refine number_reads (by decide) (by decide) fun rest hr => ?_
  have hm := scanMagnitude_decimal n hr
  change (scanMagnitude (decimal n ++ rest)).map _ = _
  rw [hm]
  rfl

theorem scalar_reads {v : Scalar} (hv : Scalar.Printable v) : Reads v.text v.value := by
  cases v with
  | str es => exact stringText_reads hv
  | num n => exact decimal_reads n

theorem endsNumber_blank {w : List UInt8} (hw : ∀ b ∈ w, isSpace b = true) {c : UInt8}
    (hc : EndsNumber [c]) (s : List UInt8) : EndsNumber (w ++ c :: s) := by
  cases w with
  | nil => exact hc
  | cons b w =>
    have hb := hw b (by simp)
    simp only [isSpace, Bool.or_eq_true, beq_iff_eq] at hb
    rcases hb with ((rfl | rfl) | rfl) | rfl <;>
      exact ⟨by decide, by decide, by decide, by decide⟩

end Values

section Objects
variable {α : Type} {key : α → List Elem} {text : α → List UInt8} {value : α → Value}

/-- One member, up to the comma or brace after it. -/
theorem parseMembers_entry (fuel : ℕ) {y : Layout} (hy : Layout.Blank y) {m : α}
    (hk : ∀ e ∈ key m, Printable e) (hv : Reads (text m) (value m)) {rest : List UInt8}
    (hr : EndsNumber rest) :
    parseMembers (fuel + 2) (entryText y (key m, text m) ++ rest) =
      match skipSpace rest with
      | [] => none
      | c :: u =>
        if c = closeBrace then some ([(key m, value m)], u)
        else if c = comma then
          (parseMembers (fuel + 1) u).map fun r => ((key m, value m) :: r.1, r.2)
        else none := by
  have ht : entryText y (key m, text m) ++ rest = y.key ++ quote :: ((key m).flatMap elemText ++
      quote :: colon :: (y.value ++ (text m ++ rest))) := by
    simp [entryText, stringText]
  rw [parseMembers, ht, skipSpace_append hy.key, skipSpace_cons (by decide)]
  simp only [if_true, scanString_elems hk]
  rw [skipSpace_cons (by decide)]
  cases hs : skipSpace rest <;>
    simp only [if_true, hv fuel y.value rest hy.value hr, hs]

theorem parseMembers_entries {y : Layout} (hy : Layout.Blank y) (ms : List α) (hne : ms ≠ [])
    (hk : ∀ m ∈ ms, ∀ e ∈ key m, Printable e) (hv : ∀ m ∈ ms, Reads (text m) (value m))
    (fuel : ℕ) (hf : ms.length < fuel) (rest : List UInt8) :
    parseMembers fuel (entriesText y (ms.map fun m => (key m, text m)) ++
        (y.close ++ closeBrace :: rest)) =
      some (ms.map fun m => (key m, value m), rest) := by
  induction ms generalizing fuel with
  | nil => exact absurd rfl hne
  | cons m ms ih =>
    obtain ⟨f, rfl⟩ : ∃ f, fuel = f + 2 := ⟨fuel - 2, by
      simp only [List.length_cons] at hf
      omega⟩
    have hkm := hk m (by simp)
    have hvm := hv m (by simp)
    cases ms with
    | nil =>
      rw [List.map_cons, List.map_nil, entriesText, parseMembers_entry f hy hkm hvm
        (endsNumber_blank hy.close ⟨by decide, by decide, by decide, by decide⟩ rest),
        skipSpace_append hy.close, skipSpace_cons (by decide)]
      simp only [if_true]
      rfl
    | cons n ms =>
      have hrec := ih (by simp) (fun k h => hk k (by simp [h])) (fun k h => hv k (by simp [h]))
        (f + 1) (by simp only [List.length_cons] at hf ⊢; omega)
      have hcomma : ∀ s, EndsNumber (comma :: s) :=
        fun _ => ⟨by decide, by decide, by decide, by decide⟩
      rw [List.map_cons, entriesText, List.append_assoc]
      · rw [List.cons_append, parseMembers_entry f hy hkm hvm (hcomma _),
          skipSpace_cons (by decide)]
        simp only [show comma ≠ closeBrace by decide, if_false, if_true, hrec]
        rfl
      · simp

theorem entriesText_length (y : Layout) (ms : List (List Elem × List UInt8)) :
    ms.length ≤ (entriesText y ms).length := by
  induction ms with
  | nil => exact Nat.le_refl _
  | cons m ms ih =>
    have hm : 1 ≤ (entryText y m).length := by
      simp only [entryText, stringText, List.length_append, List.length_cons]
      omega
    cases ms with
    | nil => simpa [entriesText] using hm
    | cons n ms =>
      rw [entriesText]
      · simp only [List.length_append, List.length_cons] at ih ⊢
        omega
      · simp

/-- A reader gets back the members of every flat record a writer lays out. -/
theorem parse_recordText {y : Layout} (hy : Layout.Blank y) (ms : List α) (hne : ms ≠ [])
    (hk : ∀ m ∈ ms, ∀ e ∈ key m, Printable e) (hv : ∀ m ∈ ms, Reads (text m) (value m)) :
    parse (recordText y (ms.map fun m => (key m, text m))) =
      some (.obj (ms.map fun m => (key m, value m))) := by
  obtain ⟨entries, hentries⟩ : ∃ entries, entries = entriesText y (ms.map fun m => (key m, text m)) :=
    ⟨_, rfl⟩
  have hlen := entriesText_length y (ms.map fun m => (key m, text m))
  rw [List.length_map, ← hentries] at hlen
  have hopen : ∃ u, skipSpace (entries ++ (y.close ++ [closeBrace])) = quote :: u := by
    obtain ⟨m, t, rfl⟩ := List.exists_cons_of_ne_nil hne
    obtain ⟨r, hr⟩ : ∃ r, entries ++ (y.close ++ [closeBrace]) = y.key ++ quote :: r := by
      rw [hentries]
      cases t <;> simp [entriesText, entryText, stringText]
    exact ⟨r, by rw [hr, skipSpace_append hy.key, skipSpace_cons (by decide)]⟩
  obtain ⟨u, hu⟩ := hopen
  have ht : recordText y (ms.map fun m => (key m, text m)) =
      openBrace :: (entries ++ (y.close ++ [closeBrace])) := by
    rw [recordText, ← hentries, List.append_assoc]
  have hms := parseMembers_entries hy ms hne hk hv
    (openBrace :: (entries ++ (y.close ++ [closeBrace]))).length
    (by
      simp only [List.length_append, List.length_cons]
      omega) []
  rw [← hentries] at hms
  rw [ht, parse, parseValue, skipSpace_cons (by decide)]
  simp only [show openBrace ≠ quote by decide, show quote ≠ closeBrace by decide, if_false, if_true,
    hu, hms]
  rfl

theorem objectText_eq_recordText (y : Layout) (ms : List (List Elem × Scalar)) :
    objectText y ms = recordText y (ms.map fun m => (m.1, m.2.text)) := by
  have h : membersText y ms = entriesText y (ms.map fun m => (m.1, m.2.text)) := by
    induction ms with
    | nil => rfl
    | cons m ms ih =>
      cases ms with
      | nil => rfl
      | cons n ms => exact congrArg (memberText y m ++ comma :: ·) ih
  rw [objectText, h]
  rfl

/-- A reader gets back the members of every flat object a writer lays out. -/
theorem parse_objectText {y : Layout} (hy : Layout.Blank y) (ms : List (List Elem × Scalar))
    (hne : ms ≠ []) (hk : ∀ m ∈ ms, ∀ e ∈ m.1, Printable e)
    (hv : ∀ m ∈ ms, Scalar.Printable m.2) :
    parse (objectText y ms) = some (.obj (ms.map fun m => (m.1, m.2.value))) := by
  rw [objectText_eq_recordText]
  exact parse_recordText hy ms hne hk fun m hm => scalar_reads (hv m hm)

end Objects

section Counts
variable {p : UInt8 → Bool}

/-- The bytes the writer puts around strings and numbers are not of this kind. -/
structure Layout.Free (p : UInt8 → Bool) (y : Layout) : Prop where
  marks : ∀ b ∈ [quote, comma, colon, openBrace, closeBrace], p b = false
  key : ∀ b ∈ y.key, p b = false
  value : ∀ b ∈ y.value, p b = false
  close : ∀ b ∈ y.close, p b = false

/-- One look at the marks and the gaps. -/
theorem Layout.free_of_any {y : Layout} (h : ([quote, comma, colon, openBrace, closeBrace] ++
    (y.key ++ (y.value ++ y.close))).any p = false) : Layout.Free p y := by
  simp only [List.any_append, Bool.or_eq_false_iff, List.any_eq_false, Bool.not_eq_true] at h
  exact ⟨h.1, h.2.1, h.2.2.1, h.2.2.2⟩

theorem countP_free {l : List UInt8} (h : ∀ b ∈ l, p b = false) : l.countP p = 0 :=
  List.countP_eq_zero.2 fun b hb => by rw [h b hb]; decide

theorem countP_stringText {y : Layout} (hy : Layout.Free p y) (es : List Elem) :
    (stringText es).countP p = (es.flatMap elemText).countP p := by
  have hq : p quote = false := hy.marks quote (by simp)
  rw [stringText, List.countP_cons, List.countP_append, List.countP_singleton, hq]
  rfl

theorem countP_memberText {y : Layout} (hy : Layout.Free p y) (m : List Elem × Scalar) :
    (memberText y m).countP p = (stringText m.1).countP p + m.2.text.countP p := by
  have hc : p colon = false := hy.marks colon (by simp)
  rw [memberText, List.countP_append, List.countP_append, List.countP_cons, List.countP_append,
    countP_free hy.key, countP_free hy.value, hc]
  simp

theorem countP_membersText {y : Layout} (hy : Layout.Free p y) (ms : List (List Elem × Scalar)) :
    (membersText y ms).countP p =
      (ms.map fun m => (stringText m.1).countP p + m.2.text.countP p).sum := by
  have hc : p comma = false := hy.marks comma (by simp)
  induction ms with
  | nil => rfl
  | cons m ms ih =>
    cases ms with
    | nil => simp [membersText, countP_memberText hy]
    | cons n ms =>
      rw [membersText]
      · rw [List.countP_append, List.countP_cons, ih, countP_memberText hy, hc, List.map_cons,
          List.sum_cons]
        rfl
      · simp

/-- How many bytes of a kind a printed object has, when only its strings and
numbers have such bytes. -/
theorem countP_objectText {y : Layout} (hy : Layout.Free p y) (ms : List (List Elem × Scalar)) :
    (objectText y ms).countP p =
      (ms.map fun m => (stringText m.1).countP p + m.2.text.countP p).sum := by
  have ho : p openBrace = false := hy.marks openBrace (by simp)
  have hc : p closeBrace = false := hy.marks closeBrace (by simp)
  rw [objectText, List.countP_cons, List.countP_append, List.countP_append, List.countP_singleton,
    countP_membersText hy, countP_free hy.close, ho, hc]
  rfl

theorem membersText_length_le (y : Layout) (ms : List (List Elem × Scalar)) :
    (membersText y ms).length ≤ (ms.map fun m => (memberText y m).length + 1).sum := by
  induction ms with
  | nil => exact Nat.le_refl _
  | cons m ms ih =>
    cases ms with
    | nil =>
      rw [membersText, List.map_cons, List.sum_cons]
      omega
    | cons n ms =>
      rw [membersText]
      · rw [List.length_append, List.length_cons, List.map_cons, List.sum_cons]
        omega
      · simp

end Counts

section Lengths

theorem decimalFrom_length (fuel n : ℕ) (h : n < fuel) (acc : List UInt8) :
    (decimalFrom fuel n acc).length = acc.length + (Nat.log 10 n + 1) := by
  induction fuel generalizing n acc with
  | zero => omega
  | succ fuel ih =>
    rw [decimalFrom]
    by_cases hn : n < 10
    · rw [if_pos hn, Nat.log_of_lt hn]
      rfl
    · rw [if_neg hn, ih (n / 10) (by omega), List.length_cons,
        Nat.log_of_one_lt_of_le (by decide) (Nat.le_of_not_lt hn)]
      omega

theorem decimal_length (n : ℕ) : (decimal n).length = Nat.log 10 n + 1 := by
  rw [decimal, decimalFrom_length _ _ (Nat.lt_succ_self n), List.length_nil, Nat.zero_add]

def elemsLength (es : List Elem) : ℕ := (es.flatMap elemText).length

def strLength : Value → ℕ
  | .str es => elemsLength es
  | _ => 0

def membersLength (ms : List (List Elem × Value)) : ℕ := (ms.map fun m => strLength m.2).sum

def valueLength : Value → ℕ
  | .str es => elemsLength es
  | .obj ms => membersLength ms
  | _ => 0

theorem strLength_le (v : Value) : strLength v ≤ valueLength v := by
  cases v <;> simp [strLength, valueLength]

theorem dropWhile_length_le (p : UInt8 → Bool) (s : List UInt8) :
    (s.dropWhile p).length ≤ s.length :=
  (List.dropWhile_suffix p).length_le

theorem scanString_length {s rest : List UInt8} {es : List Elem}
    (h : scanString s = some (es, rest)) : elemsLength es + rest.length < s.length := by
  refine scanString_induction
    (motive := fun s es rest => elemsLength es + rest.length < s.length) ?_ ?_ h
  · intro s
    simp [elemsLength]
  · intro c e t es rest _ hlen ih
    simp only [elemsLength, List.flatMap_cons, List.length_append] at ih ⊢
    omega

theorem scanDigits_length {s : List UInt8} {r : List UInt8 × List UInt8}
    (h : scanDigits s = some r) : r.2.length ≤ s.length := by
  unfold scanDigits at h
  split_ifs at h
  rw [← Option.some.inj h]
  exact dropWhile_length_le _ _

theorem scanInteger_length {s : List UInt8} {r : List UInt8 × List UInt8}
    (h : scanInteger s = some r) : r.2.length ≤ s.length := by
  unfold scanInteger at h
  split at h
  · cases h
  · split_ifs at h
    · rw [← Option.some.inj h]
      exact Nat.le_succ _
    · exact scanDigits_length h

theorem scanFraction_length {s : List UInt8} {r : List UInt8 × List UInt8}
    (h : scanFraction s = some r) : r.2.length ≤ s.length := by
  unfold scanFraction at h
  split at h
  · obtain ⟨q, hq, rfl⟩ := Option.map_eq_some_iff.1 h
    have := scanDigits_length hq
    simp only [List.length_cons]
    omega
  · rw [← Option.some.inj h]

theorem scanExponent_length {s : List UInt8} {r : List UInt8 × List UInt8}
    (h : scanExponent s = some r) : r.2.length ≤ s.length := by
  unfold scanExponent at h
  split at h
  · split_ifs at h
    · split at h
      · split_ifs at h
        · obtain ⟨q, hq, rfl⟩ := Option.map_eq_some_iff.1 h
          have := scanDigits_length hq
          simp only [List.length_cons] at this ⊢
          omega
        · obtain ⟨q, hq, rfl⟩ := Option.map_eq_some_iff.1 h
          have := scanDigits_length hq
          simp only [List.length_cons] at this ⊢
          omega
      · cases h
    · rw [← Option.some.inj h]
  · rw [← Option.some.inj h]

theorem scanMagnitude_length {s : List UInt8} {r : List UInt8 × List UInt8}
    (h : scanMagnitude s = some r) : r.2.length ≤ s.length := by
  simp only [scanMagnitude, Option.bind_eq_bind, Option.bind_eq_some_iff] at h
  obtain ⟨i, hi, f, hf, e, he, hr⟩ := h
  rw [← Option.some.inj hr]
  have h1 := scanInteger_length hi
  have h2 := scanFraction_length hf
  have h3 := scanExponent_length he
  simp only
  omega

theorem scanNumber_length {s : List UInt8} {r : List UInt8 × List UInt8}
    (h : scanNumber s = some r) : r.2.length ≤ s.length := by
  unfold scanNumber at h
  split at h
  · obtain ⟨q, hq, rfl⟩ := Option.map_eq_some_iff.1 h
    have := scanMagnitude_length hq
    simp only [List.length_cons]
    omega
  · exact scanMagnitude_length h

theorem scanWord_length {word : String} {v w : Value} {s rest : List UInt8}
    (h : scanWord word v s = some (w, rest)) : w = v ∧ rest.length ≤ s.length := by
  unfold scanWord at h
  split_ifs at h
  obtain ⟨rfl, rfl⟩ := Prod.mk.inj (Option.some.inj h)
  exact ⟨rfl, by rw [List.length_drop]; omega⟩

/-- What parsing at a given fuel keeps within the text it consumes. -/
structure Bounded (fuel : ℕ) : Prop where
  value : ∀ s v rest, parseValue fuel s = some (v, rest) →
    valueLength v + rest.length ≤ s.length
  elements : ∀ s vs rest, parseElements fuel s = some (vs, rest) → rest.length ≤ s.length
  members : ∀ s ms rest, parseMembers fuel s = some (ms, rest) →
    membersLength ms + rest.length ≤ s.length

theorem skipSpace_cons_length {s t : List UInt8} {b : UInt8} (h : skipSpace s = b :: t) :
    t.length < s.length := by
  have := dropWhile_length_le isSpace s
  rw [show s.dropWhile isSpace = b :: t from h, List.length_cons] at this
  omega

theorem parseValue_length {fuel : ℕ} (ih : Bounded fuel) {s rest : List UInt8} {v : Value}
    (h : parseValue (fuel + 1) s = some (v, rest)) : valueLength v + rest.length ≤ s.length := by
  rw [parseValue] at h
  split at h
  · cases h
  rename_i b t hs
  have ht := skipSpace_cons_length hs
  have word : ∀ {word : String} {u : Value}, valueLength u = 0 →
      scanWord word u (b :: t) = some (v, rest) → valueLength v + rest.length ≤ s.length := by
    intro word u hu hw
    obtain ⟨rfl, hl⟩ := scanWord_length hw
    rw [List.length_cons] at hl
    omega
  split_ifs at h
  · obtain ⟨⟨es, r⟩, hr, he⟩ := Option.map_eq_some_iff.1 h
    obtain ⟨rfl, rfl⟩ := Prod.mk.inj he
    have := scanString_length hr
    simp only [valueLength]
    omega
  · split at h
    · cases h
    rename_i c u hu
    have := skipSpace_cons_length hu
    split_ifs at h
    · obtain ⟨rfl, rfl⟩ := Prod.mk.inj (Option.some.inj h)
      simp only [valueLength, membersLength, List.map_nil, List.sum_nil]
      omega
    · obtain ⟨⟨ms, r⟩, hr, he⟩ := Option.map_eq_some_iff.1 h
      obtain ⟨rfl, rfl⟩ := Prod.mk.inj he
      have := ih.members _ _ _ hr
      simp only [valueLength]
      omega
  · split at h
    · cases h
    rename_i c u hu
    have := skipSpace_cons_length hu
    split_ifs at h
    · obtain ⟨rfl, rfl⟩ := Prod.mk.inj (Option.some.inj h)
      simp only [valueLength]
      omega
    · obtain ⟨⟨vs, r⟩, hr, he⟩ := Option.map_eq_some_iff.1 h
      obtain ⟨rfl, rfl⟩ := Prod.mk.inj he
      have := ih.elements _ _ _ hr
      simp only [valueLength]
      omega
  · exact word rfl h
  · exact word rfl h
  · exact word rfl h
  · obtain ⟨⟨lit, r⟩, hr, he⟩ := Option.map_eq_some_iff.1 h
    obtain ⟨rfl, rfl⟩ := Prod.mk.inj he
    have := scanNumber_length hr
    simp only [valueLength, List.length_cons] at this ⊢
    omega

theorem parseElements_length {fuel : ℕ} (ih : Bounded fuel) {s rest : List UInt8}
    {vs : List Value} (h : parseElements (fuel + 1) s = some (vs, rest)) :
    rest.length ≤ s.length := by
  rw [parseElements] at h
  split at h
  · cases h
  rename_i v t hv
  have hvl := ih.value _ _ _ hv
  split at h
  · cases h
  rename_i c u hu
  have := skipSpace_cons_length hu
  split_ifs at h
  · obtain ⟨rfl, rfl⟩ := Prod.mk.inj (Option.some.inj h)
    omega
  · obtain ⟨⟨ws, r⟩, hr, he⟩ := Option.map_eq_some_iff.1 h
    obtain ⟨rfl, rfl⟩ := Prod.mk.inj he
    have := ih.elements _ _ _ hr
    simp only
    omega

theorem parseMembers_length {fuel : ℕ} (ih : Bounded fuel) {s rest : List UInt8}
    {ms : List (List Elem × Value)} (h : parseMembers (fuel + 1) s = some (ms, rest)) :
    membersLength ms + rest.length ≤ s.length := by
  rw [parseMembers] at h
  split at h
  · cases h
  rename_i q afterQuote hs
  have h1 := skipSpace_cons_length hs
  split_ifs at h
  split at h
  · cases h
  rename_i k afterKey hk
  have h2 := scanString_length hk
  split at h
  · cases h
  rename_i c afterColon hc
  have h3 := skipSpace_cons_length hc
  split_ifs at h
  split at h
  · cases h
  rename_i v afterValue hv
  have h4 := ih.value _ _ _ hv
  have h5 := strLength_le v
  split at h
  · cases h
  rename_i d u hu
  have h6 := skipSpace_cons_length hu
  split_ifs at h
  · obtain ⟨rfl, rfl⟩ := Prod.mk.inj (Option.some.inj h)
    simp only [membersLength, List.map_cons, List.map_nil, List.sum_cons, List.sum_nil]
    omega
  · obtain ⟨⟨ns, r⟩, hr, he⟩ := Option.map_eq_some_iff.1 h
    obtain ⟨rfl, rfl⟩ := Prod.mk.inj he
    have := ih.members _ _ _ hr
    simp only [membersLength, List.map_cons, List.sum_cons] at this ⊢
    omega

theorem bounded (fuel : ℕ) : Bounded fuel := by
  induction fuel with
  | zero =>
    constructor <;>
    · intro s v rest h
      cases h
  | succ fuel ih =>
    exact ⟨fun _ _ _ => parseValue_length ih, fun _ _ _ => parseElements_length ih,
      fun _ _ _ => parseMembers_length ih⟩

/-- The strings of a parsed object together are no longer than its text. -/
theorem parse_obj_length {s : List UInt8} {ms : List (List Elem × Value)}
    (h : parse s = some (.obj ms)) : membersLength ms ≤ s.length := by
  unfold parse at h
  split at h
  · cases h
  rename_i v rest hv
  split_ifs at h
  obtain rfl := Option.some.inj h
  have := (bounded _).value _ _ _ hv
  simp only [valueLength] at this
  omega

end Lengths

end MiniServiceDiscover.JsonRoundTrip
