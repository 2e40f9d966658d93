import MiniServiceDiscover.JsonRoundTrip
import MiniServiceDiscover.UnicodeText

set_option autoImplicit false

/-! What JSON text says, whoever wrote it: strings of characters, numbers, and flat
records of both. -/
namespace MiniServiceDiscover.JsonMeaning
open JsonText JsonRoundTrip UnicodeText

/-- A character as its bytes, as an escape, or as a unit that is half of no pair. -/
inductive Writes : List Elem → Char → Prop where
  | raw (c : Char) : Writes ((String.utf8EncodeChar c).map .byte) c
  | escaped (b : UInt8) (h : b.toNat < 0x80) : Writes [.escaped b] (Char.ofUInt8 b)
  | unit (u : ℕ) (h : u < 0xD800 ∨ (0xE000 ≤ u ∧ u < 0x10000)) : Writes [.unit u] (Char.ofNat u)

inductive Means : List Elem → List Char → Prop where
  | nil : Means [] []
  | cons {es fs : List Elem} {c : Char} {cs : List Char} (h : Writes es c) (t : Means fs cs) :
      Means (es ++ fs) (c :: cs)

/-- What a member of a flat record holds. -/
inductive Datum where
  | text (s : List Char)
  | number (n : ℕ)
  deriving DecidableEq, Repr

inductive Denotes : Value → Datum → Prop where
  | text {es : List Elem} {s : List Char} (h : Means es s) : Denotes (.str es) (.text s)
  | number {literal : List UInt8} (h : literal.all isDigit = true) :
      Denotes (.num literal) (.number (natOf literal))

structure Member (m : List Elem × Value) (r : List Char × Datum) : Prop where
  key : Means m.1 r.1
  value : Denotes m.2 r.2

/-- The text is an object with these members, in this order. -/
def Record (text : List UInt8) (r : List (List Char × Datum)) : Prop :=
  ∃ ms, parse text = some (.obj ms) ∧ List.Forall₂ Member ms r

/-- A record in UTF-8, without a zero byte and with nothing behind its last brace. -/
structure Prints (text : List UInt8) (r : List (List Char × Datum)) : Prop where
  record : Record text r
  utf8 : IsUtf8 text
  noNul : (0 : UInt8) ∉ text
  ends : ∃ body, text = body ++ [closeBrace]

section Strings

theorem utf8EncodeChar_ofUInt8 {b : UInt8} (h : b.toNat < 0x80) :
    String.utf8EncodeChar (Char.ofUInt8 b) = [b] := by
  have hc : (Char.ofUInt8 b).toNat = b.toNat := UInt8.toNat_toUInt32 b
  rw [utf8EncodeChar_ascii (hc ▸ h), hc]
  simp

/-- A reader that takes bytes and escapes for what they stand for gets the characters in UTF-8. -/
theorem Means.bytes {f : Elem → List UInt8} (byte : ∀ b, f (.byte b) = [b])
    (escaped : ∀ b, f (.escaped b) = [b])
    (unit : ∀ u, u < 0xD800 ∨ (0xE000 ≤ u ∧ u < 0x10000) →
      f (.unit u) = String.utf8EncodeChar (Char.ofNat u)) {es : List Elem} {s : List Char}
    (h : Means es s) : es.flatMap f = utf8 s := by
  induction h with
  | nil => rfl
  | @cons es fs c cs hc _ ih =>
    have hone : es.flatMap f = String.utf8EncodeChar c := by
      cases hc with
      | raw c =>
        rw [List.flatMap_map]
        simp only [byte]
        exact List.flatMap_singleton' _
      | escaped b hb => rw [List.flatMap_singleton, escaped, utf8EncodeChar_ofUInt8 hb]
      | unit u hu => rw [List.flatMap_singleton, unit u hu]
    rw [List.flatMap_append, hone, ih]
    rfl

/-- A unit that is half of no pair, in one to three bytes. -/
theorem utf8EncodeChar_ofNat {u : ℕ} (h : u < 0xD800 ∨ (0xE000 ≤ u ∧ u < 0x10000)) :
    String.utf8EncodeChar (Char.ofNat u) =
      if u < 0x80 then [u.toUInt8]
      else if u < 0x800 then [(0xC0 + u / 64).toUInt8, (0x80 + u % 64).toUInt8]
      else [(0xE0 + u / 4096).toUInt8, (0x80 + u / 64 % 64).toUInt8, (0x80 + u % 64).toUInt8] := by
  have hvalid : u.isValidChar := by
    rw [Nat.isValidChar]
    omega
  have hval : (Char.ofNat u).val.toNat = u := toNat_ofNat hvalid
  rw [String.utf8EncodeChar, hval]
  by_cases h1 : u < 0x80
  · rw [if_pos (by omega), if_pos h1]
  · rw [if_neg (by omega), if_neg h1]
    by_cases h2 : u < 0x800
    · have hlead : u / 64 % 32 + 192 = 192 + u / 64 := by omega
      have htail : u % 64 + 128 = 128 + u % 64 := Nat.add_comm _ _
      rw [if_pos (by omega), if_pos h2, hlead, htail]
    · have hlead : u / 4096 % 16 + 224 = 224 + u / 4096 := by omega
      have hmid : u / 64 % 64 + 128 = 128 + u / 64 % 64 := Nat.add_comm _ _
      have htail : u % 64 + 128 = 128 + u % 64 := Nat.add_comm _ _
      rw [if_neg (by omega), if_neg h2, if_pos (by omega), hlead, hmid, htail]

theorem Means.append {es fs : List Elem} {s t : List Char} (h : Means es s) (h' : Means fs t) :
    Means (es ++ fs) (s ++ t) := by
  induction h with
  | nil => exact h'
  | cons hc _ ih =>
    rw [List.append_assoc]
    exact .cons hc ih

theorem Means.flatMap {f : Char → List Elem} (h : ∀ c, Writes (f c) c) (s : List Char) :
    Means (s.flatMap f) s := by
  induction s with
  | nil => exact .nil
  | cons c s ih => exact .cons (h c) ih

/-- The bytes of a character, escaped or not, still say that character. -/
theorem written_writes {short : List UInt8} (hshort : short.all isAscii = true) (c : Char) :
    Writes ((String.utf8EncodeChar c).map (writtenElem short)) c := by
  by_cases hc : c.toNat < 0x80
  · have hb : c.toNat.toUInt8.toNat = c.toNat := UInt8.toNat_ofNat_of_lt' (hc.trans (by decide))
    have hback : Char.ofUInt8 c.toNat.toUInt8 = c := by
      refine Char.toNat_inj.1 ((UInt8.toNat_toUInt32 _).trans hb)
    have hraw : Writes [.byte c.toNat.toUInt8] c := by
      have h := Writes.raw c
      rwa [utf8EncodeChar_ascii hc] at h
    rw [utf8EncodeChar_ascii hc, List.map_singleton, writtenElem]
    split_ifs with hs hctrl
    · have h := Writes.escaped c.toNat.toUInt8 (hb.trans_lt hc)
      rwa [hback] at h
    · have h := Writes.unit c.toNat (.inl (by omega))
      rw [Char.ofNat_toNat] at h
      rwa [hb]
    · exact hraw
  · have hall : (String.utf8EncodeChar c).map (writtenElem short) =
        (String.utf8EncodeChar c).map .byte := by
      refine List.map_congr_left fun b hb => ?_
      have hhigh := utf8EncodeChar_high (by omega) b hb
      have hns : b ∉ short := fun hm =>
        absurd (of_decide_eq_true (List.all_eq_true.1 hshort b hm)) (Nat.not_lt.2 hhigh)
      rw [writtenElem, if_neg hns, if_neg (by omega)]
    rw [hall]
    exact .raw c

theorem written_means {short : List UInt8} (hshort : short.all isAscii = true) (s : List Char) :
    Means ((utf8 s).map (writtenElem short)) s := by
  rw [utf8, List.map_flatMap]
  exact Means.flatMap (written_writes hshort) s

theorem raw_means (s : List Char) : Means ((utf8 s).map .byte) s := by
  rw [utf8, List.map_flatMap]
  exact Means.flatMap Writes.raw s

/-- In a record with distinct names, the first member of a name has its datum. -/
theorem find_member {f : List Elem → List UInt8} (hf : ∀ es s, Means es s → f es = utf8 s)
    {ms : List (List Elem × Value)} {r : List (List Char × Datum)} (h : List.Forall₂ Member ms r)
    (unique : (r.map Prod.fst).Nodup) {name : List Char} {d : Datum} (hm : (name, d) ∈ r) :
    ∃ m, (ms.find? fun m => f m.1 = utf8 name) = some m ∧ Denotes m.2 d := by
  induction h with
  | nil => exact absurd hm List.not_mem_nil
  | @cons m e ms r hme _ ih =>
    rw [List.map_cons, List.nodup_cons] at unique
    have hkey : f m.1 = utf8 e.1 := hf _ _ hme.key
    rcases List.mem_cons.1 hm with rfl | hm
    · exact ⟨m, List.find?_cons_of_pos (decide_eq_true hkey), hme.value⟩
    · have hne : ¬ f m.1 = utf8 name := fun he =>
        unique.1 (utf8_injective (hkey.symm.trans he) ▸ List.mem_map_of_mem hm)
      rw [List.find?_cons_of_neg (by simpa using hne)]
      exact ih unique.2 hm

end Strings

/-- Text in UTF-8 without a zero byte. -/
structure Clean (text : List UInt8) : Prop where
  utf8 : IsUtf8 text
  noNul : (0 : UInt8) ∉ text

/-- The text of a value and what it says. -/
structure Literal (text : List UInt8) (value : Value) (d : Datum) : Prop where
  reads : Reads text value
  denotes : Denotes value d
  clean : Clean text

section Writing

theorem Clean.append {a b : List UInt8} (ha : Clean a) (hb : Clean b) : Clean (a ++ b) :=
  ⟨ha.utf8.append hb.utf8, fun h => (List.mem_append.1 h).elim ha.noNul hb.noNul⟩

theorem clean_of_all {text : List UInt8}
    (h : (text.all fun b => isAscii b && b != 0) = true) : Clean text := by
  rw [List.all_eq_true] at h
  refine ⟨isUtf8_of_all (List.all_eq_true.2 fun b hb => ?_), fun h0 => ?_⟩
  · exact (Bool.and_eq_true_iff.1 (h b hb)).1
  · exact absurd (Bool.and_eq_true_iff.1 (h 0 h0)).2 (by decide)

theorem clean_space {gap : List UInt8} (h : ∀ b ∈ gap, isSpace b = true) : Clean gap := by
  refine clean_of_all (List.all_eq_true.2 fun b hb => ?_)
  have hs := h b hb
  simp only [isSpace, Bool.or_eq_true, beq_iff_eq] at hs
  rcases hs with ((rfl | rfl) | rfl) | rfl
  · decide
  · decide
  · decide
  · decide

theorem hexDigit_clean (n : ℕ) (h : n < 16) :
    (isAscii (hexDigit n) && hexDigit n != 0) = true := by
  revert n
  decide

theorem letterOf_clean {b : UInt8} (hb : b.toNat < 0x80) (hp : Printable (.escaped b)) :
    (isAscii (letterOf b) && letterOf b != 0) = true := by
  have go : ∀ n < 0x80, letterOf n.toUInt8 ≠ 0x75 ∧
      escapeOf (letterOf n.toUInt8) = some n.toUInt8 →
        (isAscii (letterOf n.toUInt8) && letterOf n.toUInt8 != 0) = true := by
    decide
  have h := go b.toNat hb
  simp only [Nat.toUInt8, UInt8.ofNat_toNat] at h
  exact h hp

/-- What stands for a character is text of its own. -/
theorem Writes.clean {es : List Elem} {c : Char} (h : Writes es c) (hp : ∀ e ∈ es, Printable e) :
    Clean (es.flatMap elemText) := by
  cases h with
  | raw c =>
    have hbytes : ((String.utf8EncodeChar c).map Elem.byte).flatMap elemText = utf8 [c] := by
      rw [List.flatMap_map, utf8, List.flatMap_singleton]
      exact List.flatMap_singleton' _
    refine ⟨hbytes ▸ ⟨[c], rfl⟩, fun h0 => ?_⟩
    rw [List.flatMap_map] at h0
    obtain ⟨b, hb, h0⟩ := List.mem_flatMap.1 h0
    have hlow := (hp (.byte b) (List.mem_map_of_mem hb)).1
    rw [← List.mem_singleton.1 h0] at hlow
    exact absurd hlow (by decide)
  | escaped b hb =>
    have hl := letterOf_clean hb (hp _ List.mem_cons_self)
    refine clean_of_all ?_
    rw [List.flatMap_singleton, elemText, List.all_cons, List.all_cons, hl]
    decide
  | unit u hu =>
    refine clean_of_all ?_
    have hd : ∀ n, (isAscii (hexDigit (n % 16)) && hexDigit (n % 16) != 0) = true := fun n =>
      hexDigit_clean _ (Nat.mod_lt _ (by decide))
    simp only [List.flatMap_singleton, elemText, List.all_cons, List.all_nil, hd]
    decide

theorem Means.clean {es : List Elem} {s : List Char} (h : Means es s)
    (hp : ∀ e ∈ es, Printable e) : Clean (es.flatMap elemText) := by
  induction h with
  | nil => exact ⟨isUtf8_nil, List.not_mem_nil⟩
  | cons hc _ ih =>
    rw [List.forall_mem_append] at hp
    rw [List.flatMap_append]
    exact (hc.clean hp.1).append (ih hp.2)

theorem stringText_clean {es : List Elem} {s : List Char} (h : Means es s)
    (hp : ∀ e ∈ es, Printable e) : Clean (stringText es) := by
  have hq : Clean [quote] := clean_of_all (by decide)
  exact hq.append ((h.clean hp).append hq)

theorem string_literal {es : List Elem} {s : List Char} (h : Means es s)
    (hp : ∀ e ∈ es, Printable e) : Literal (stringText es) (.str es) (.text s) :=
  ⟨stringText_reads hp, .text h, stringText_clean h hp⟩

theorem decimal_literal (n : ℕ) : Literal (decimal n) (.num (decimal n)) (.number n) := by
  have hd := decimal_digits n
  have hdenotes := Denotes.number (List.all_eq_true.2 hd.digits)
  rw [hd.value] at hdenotes
  refine ⟨decimal_reads n, hdenotes, clean_of_all (List.all_eq_true.2 fun b hb => ?_)⟩
  have hdigit := hd.digits b hb
  simp only [isDigit, Bool.and_eq_true, decide_eq_true_eq] at hdigit
  rw [Bool.and_eq_true, isAscii, decide_eq_true_iff, bne_iff_ne]
  refine ⟨by omega, ?_⟩
  rintro rfl
  exact absurd hdigit.1 (by decide)

variable {α : Type} {key : α → List Elem} {text : α → List UInt8} {value : α → Value}
  {name : α → List Char} {datum : α → Datum}

theorem entriesText_clean {y : Layout} (hy : Layout.Blank y) (ms : List α)
    (hk : ∀ m ∈ ms, Clean (stringText (key m))) (hv : ∀ m ∈ ms, Clean (text m)) :
    Clean (entriesText y (ms.map fun m => (key m, text m))) := by
  have hcolon : Clean [colon] := clean_of_all (by decide)
  have hcomma : Clean [comma] := clean_of_all (by decide)
  induction ms with
  | nil => exact ⟨isUtf8_nil, List.not_mem_nil⟩
  | cons m ms ih =>
    have hentry : Clean (entryText y (key m, text m)) :=
      (clean_space hy.key).append ((hk m List.mem_cons_self).append
        (hcolon.append ((clean_space hy.value).append (hv m List.mem_cons_self))))
    cases ms with
    | nil => exact hentry
    | cons n ms =>
      exact hentry.append (hcomma.append (ih (fun k hm => hk k (List.mem_cons_of_mem m hm))
        fun k hm => hv k (List.mem_cons_of_mem m hm)))

/-- A writer that lays out strings and literals prints the record of what they say. -/
theorem recordText_prints {y : Layout} (hy : Layout.Blank y) (ms : List α) (hne : ms ≠ [])
    (hp : ∀ m ∈ ms, ∀ e ∈ key m, Printable e) (hk : ∀ m ∈ ms, Means (key m) (name m))
    (hv : ∀ m ∈ ms, Literal (text m) (value m) (datum m)) :
    Prints (recordText y (ms.map fun m => (key m, text m)))
      (ms.map fun m => (name m, datum m)) := by
  have hopen : Clean [openBrace] := clean_of_all (by decide)
  have hclose : Clean [closeBrace] := clean_of_all (by decide)
  have hentries := entriesText_clean hy ms (fun m hm => stringText_clean (hk m hm) (hp m hm))
    fun m hm => (hv m hm).clean
  have hclean := hopen.append ((hentries.append (clean_space hy.close)).append hclose)
  refine ⟨⟨_, parse_recordText hy ms hne hp fun m hm => (hv m hm).reads, ?_⟩, hclean.utf8,
    hclean.noNul, openBrace :: (entriesText y _ ++ y.close), rfl⟩
  rw [List.forall₂_map_left_iff, List.forall₂_map_right_iff, List.forall₂_same]
  exact fun m hm => ⟨hk m hm, (hv m hm).denotes⟩

end Writing

end MiniServiceDiscover.JsonMeaning
