import MiniServiceDiscover.JavaJsonText
import MiniServiceDiscover.UnicodeText

set_option autoImplicit false

/-! What the Java codec relies on in the libraries for text of any characters, and
a library that does it: only quotes, slashes and control characters are escaped. -/
namespace MiniServiceDiscover.JavaUnicodeText
open JsonText JsonRoundTrip UnicodeText JavaProtocal JavaProvider JavaDaemon JavaJsonText

/-- A string that is there and has no lone surrogate, or a number. -/
def Whole : Field → Prop
  | .string none => False
  | .string (some s) => WellFormed s
  | .number _ => True

/-- The member reads as the value that was put. -/
def GivesBack (oj : OrgJson) (json : oj.Json) (m : String × Field) : Prop :=
  match m.2 with
  | .string none => False
  | .string (some s) => oj.getString json m.1 = some s
  | .number n => oj.getInt json m.1 = some n

/-- `toString` is that of the object of a map, `getBytes` that of its text. -/
structure Inverts (oj : OrgJson) (toString : List (String × Field) → JavaString)
    (getBytes : JavaString → JavaBytes) : Prop where
  print : ∀ map, oj.print map = getBytes (toString map)
  /-- The platform charset is UTF-8. -/
  getBytes : ∀ s, getBytes (utf16 s) = signed (utf8 s)
  newString : ∀ s, oj.newString (signed (utf8 s)) = utf16 s
  /-- No surrogate pair is parted in print. -/
  wellFormed : ∀ map, (∀ m ∈ map, Whole m.2) → WellFormed (toString map)
  /-- Parsing inverts printing. -/
  newJson : ∀ map, (map.map Prod.fst).Nodup → (∀ m ∈ map, Whole m.2) →
    ∃ json, oj.newJson (toString map) = some json ∧ ∀ m ∈ map, GivesBack oj json m

section Library

/-- Bytes with a two-character escape. -/
def shortEscapes : List UInt8 := [quote, backslash, 0x2F, 0x08, 0x0C, 0x0A, 0x0D, 0x09]

def byteElem (b : UInt8) : Elem := writtenElem shortEscapes b

def textElems (s : List Char) : List Elem := (utf8 s).map byteElem

def charsOf (s : JavaString) : List Char := (ofUtf16 s).getD []

def fieldLiteral : Field → List UInt8
  | .string none => ascii "null"
  | .string (some s) => JsonText.stringText (textElems (charsOf s))
  | .number n => numberText n

def bare : Layout := ⟨[], [], []⟩

def mapText (map : List (String × Field)) : List UInt8 :=
  recordText bare (map.map fun m => (textElems m.1.toList, fieldLiteral m.2))

def decoded (bytes : List UInt8) : JavaString := utf16 ((ofUtf8 bytes).getD [])

def encoded (s : JavaString) : List UInt8 := utf8 (charsOf s)

def elemBytes : Elem → List UInt8
  | .byte b => [b]
  | .escaped b => [b]
  | .unit u => utf8 [Char.ofNat u]

/-- The text of an object, and its bytes. -/
def toText (map : List (String × Field)) : JavaString := decoded (mapText map)

def bytesOf (s : JavaString) : JavaBytes := signed (encoded s)

def readRecord (text : JavaString) : Option (List (List Elem × Value)) :=
  match parse (encoded text) with
  | some (.obj ms) => some ms
  | _ => none

def memberOf (ms : List (List Elem × Value)) (key : String) : Option Value :=
  (ms.find? fun m => m.1.flatMap elemBytes = utf8 key.toList).map Prod.snd

def literalString : Value → Option JavaString
  | .str es => some (decoded (es.flatMap elemBytes))
  | _ => none

def literalInt : Value → Option Int32
  | .num (0x2D :: digits) =>
    if digits.all isDigit then some (Int32.ofInt (-(natOf digits))) else none
  | .num digits => if digits.all isDigit then some (Int32.ofNat (natOf digits)) else none
  | _ => none

def unicodeJson : OrgJson where
  Json := List (List Elem × Value)
  newString data := decoded (unsigned data)
  newJson := readRecord
  getString ms key := (memberOf ms key).bind literalString
  getInt ms key := (memberOf ms key).bind literalInt
  print map := bytesOf (toText map)

theorem unicodeJson_newString (data : JavaBytes) :
    unicodeJson.newString data = decoded (unsigned data) := by
  rw [unicodeJson]

theorem unicodeJson_newJson (text : JavaString) : unicodeJson.newJson text = readRecord text := rfl

theorem unicodeJson_print (map : List (String × Field)) :
    unicodeJson.print map = bytesOf (toText map) := by
  rw [unicodeJson]

end Library

section Characters

theorem decoded_utf8 (s : List Char) : decoded (utf8 s) = utf16 s := by
  rw [decoded, ofUtf8_utf8]
  rfl

theorem encoded_utf16 (s : List Char) : encoded (utf16 s) = utf8 s := by
  rw [encoded, charsOf, ofUtf16_utf16]
  rfl

theorem utf16_charsOf {s : JavaString} (h : WellFormed s) : utf16 (charsOf s) = s := by
  obtain ⟨cs, rfl⟩ := h
  rw [charsOf, ofUtf16_utf16]
  rfl

theorem shortEscapes_escapes : Escapes shortEscapes :=
  Escapes.of_all (by decide) (by decide) (by decide)

theorem byteElem_bytes (b : UInt8) : elemBytes (byteElem b) = [b] := by
  unfold byteElem writtenElem
  split_ifs with hs hc
  · rfl
  · have hc' : (Char.ofNat b.toNat).toNat = b.toNat := toNat_ofNat (.inl (by omega))
    rw [elemBytes, utf8, List.flatMap_singleton, utf8EncodeChar_ascii (by omega), hc']
    simp
  · rfl

theorem textElems_printable (s : List Char) : ∀ e ∈ textElems s, Printable e := by
  intro e he
  obtain ⟨b, -, rfl⟩ := List.mem_map.1 he
  exact shortEscapes_escapes.printable b

theorem textElems_bytes (s : List Char) : (textElems s).flatMap elemBytes = utf8 s := by
  rw [textElems, List.flatMap_map]
  simp only [byteElem_bytes]
  exact List.flatMap_singleton' (utf8 s)

theorem byteElem_ascii {b : UInt8} (h : b.toNat < 0x80) :
    (elemText (byteElem b)).all isAscii = true := by
  have go : ∀ n < 0x80, (elemText (byteElem n.toUInt8)).all isAscii = true := by decide
  simpa using go b.toNat h

theorem byteElem_high {b : UInt8} (h : 0x80 ≤ b.toNat) : elemText (byteElem b) = [b] := by
  have hs : b ∉ shortEscapes := by
    have low : shortEscapes.all isAscii = true := by decide
    exact fun hm => absurd (of_decide_eq_true (List.all_eq_true.1 low b hm)) (Nat.not_lt.2 h)
  rw [byteElem, writtenElem, if_neg hs, if_neg (by omega), elemText]

/-- What is escaped lies within a character. -/
theorem textElems_isUtf8 (s : List Char) : IsUtf8 ((textElems s).flatMap elemText) := by
  rw [textElems, List.flatMap_map, utf8, List.flatMap_assoc]
  refine IsUtf8.flatMap fun c _ => ?_
  by_cases hc : c.toNat < 0x80
  · rw [utf8EncodeChar_ascii hc, List.flatMap_singleton]
    refine isUtf8_of_all (byteElem_ascii ?_)
    have hb : c.toNat.toUInt8.toNat = c.toNat := UInt8.toNat_ofNat_of_lt' (hc.trans (by decide))
    rwa [hb]
  · have hsame : (String.utf8EncodeChar c).flatMap (fun b => elemText (byteElem b)) = utf8 [c] := by
      rw [utf8, List.flatMap_singleton]
      conv_rhs => rw [← List.flatMap_singleton' (String.utf8EncodeChar c)]
      exact List.flatMap_congr fun b hb => byteElem_high (utf8EncodeChar_high (by omega) b hb)
    exact ⟨[c], hsame.symm⟩

end Characters

section Numbers

theorem numberText_ascii (n : Int32) : (numberText n).all isAscii = true := by
  have hd : (decimal n.toInt.natAbs).all isAscii = true := by
    refine List.all_eq_true.2 fun b hb => decide_eq_true ?_
    have := (decimal_digits n.toInt.natAbs).digits b hb
    simp only [isDigit, Bool.and_eq_true, decide_eq_true_eq] at this
    omega
  unfold numberText
  split_ifs
  · rw [List.all_cons, hd]
    rfl
  · exact hd

theorem numberText_reads (n : Int32) : Reads (numberText n) (.num (numberText n)) := by
  unfold numberText
  split_ifs
  · exact minus_reads n.toInt.natAbs
  · exact decimal_reads n.toInt.natAbs

theorem literalInt_numberText (n : Int32) : literalInt (.num (numberText n)) = some n := by
  have h := decimal_digits n.toInt.natAbs
  unfold numberText
  split_ifs with hn
  · have habs : -(n.toInt.natAbs : ℤ) = n.toInt := by omega
    rw [literalInt, if_pos (List.all_eq_true.2 h.digits), h.value, habs, Int32.ofInt_toInt]
  · have habs : (n.toInt.natAbs : ℤ) = n.toInt := by omega
    have hne : ∀ t, decimal n.toInt.natAbs ≠ 0x2D :: t := by
      intro t ht
      exact absurd (h.digits 0x2D (by rw [ht]; simp)) (by decide)
    have hof : Int32.ofNat n.toInt.natAbs = n := by
      rw [← Int32.ofInt_eq_ofNat, habs, Int32.ofInt_toInt]
    rw [literalInt, if_pos (List.all_eq_true.2 h.digits), h.value, hof]
    exact hne

end Numbers

section Objects

def fieldValue : Field → Value
  | .string none => .null
  | .string (some s) => .str (textElems (charsOf s))
  | .number n => .num (numberText n)

theorem stringText_isUtf8 (s : List Char) : IsUtf8 (JsonText.stringText (textElems s)) := by
  have hq : IsUtf8 [quote] := isUtf8_ascii (by decide)
  exact hq.append ((textElems_isUtf8 s).append hq)

theorem fieldLiteral_isUtf8 (f : Field) : IsUtf8 (fieldLiteral f) := by
  rcases f with (_ | s) | n
  · exact isUtf8_of_all (by decide)
  · exact stringText_isUtf8 (charsOf s)
  · exact isUtf8_of_all (numberText_ascii n)

theorem entriesText_isUtf8 (map : List (String × Field)) :
    IsUtf8 (entriesText bare (map.map fun m => (textElems m.1.toList, fieldLiteral m.2))) := by
  have hcolon : IsUtf8 [colon] := isUtf8_ascii (by decide)
  have hcomma : IsUtf8 [comma] := isUtf8_ascii (by decide)
  have hentry : ∀ m : String × Field,
      IsUtf8 (entryText bare (textElems m.1.toList, fieldLiteral m.2)) := fun m =>
    (stringText_isUtf8 m.1.toList).append (hcolon.append (fieldLiteral_isUtf8 m.2))
  induction map with
  | nil => exact isUtf8_nil
  | cons m map ih =>
    cases map with
    | nil => exact hentry m
    | cons n map => exact (hentry m).append (hcomma.append ih)

theorem mapText_isUtf8 (map : List (String × Field)) : IsUtf8 (mapText map) := by
  have ho : IsUtf8 [openBrace] := isUtf8_ascii (by decide)
  have hc : IsUtf8 [closeBrace] := isUtf8_ascii (by decide)
  exact ho.append (((entriesText_isUtf8 map).append isUtf8_nil).append hc)

/-- The text of an object as characters. -/
theorem toText_chars (map : List (String × Field)) :
    ∃ s, toText map = utf16 s ∧ utf8 s = mapText map := by
  obtain ⟨s, hs⟩ := mapText_isUtf8 map
  exact ⟨s, by rw [toText, ← hs, decoded_utf8], hs⟩

theorem print_eq (map : List (String × Field)) : unicodeJson.print map = signed (mapText map) := by
  obtain ⟨s, ht, hs⟩ := toText_chars map
  rw [unicodeJson_print, bytesOf, ht, encoded_utf16, hs]

theorem bare_blank : Layout.Blank bare := ⟨by simp [bare], by simp [bare], by simp [bare]⟩

theorem fieldLiteral_reads {f : Field} (h : Whole f) : Reads (fieldLiteral f) (fieldValue f) := by
  rcases f with (_ | s) | n
  · exact h.elim
  · exact stringText_reads (textElems_printable (charsOf s))
  · exact numberText_reads n

theorem readRecord_toText {map : List (String × Field)} (whole : ∀ m ∈ map, Whole m.2) :
    readRecord (toText map) = some (map.map fun m => (textElems m.1.toList, fieldValue m.2)) := by
  obtain ⟨s, ht, hs⟩ := toText_chars map
  have hparse : parse (mapText map) =
      some (.obj (map.map fun m => (textElems m.1.toList, fieldValue m.2))) := by
    by_cases hne : map = []
    · subst hne
      rfl
    · refine parse_recordText bare_blank map hne ?_ fun m hm => ?_
      · exact fun m _ => textElems_printable m.1.toList
      · exact fieldLiteral_reads (whole m hm)
  rw [readRecord, ht, encoded_utf16, hs, hparse]

theorem memberOf_map {map : List (String × Field)} (unique : (map.map Prod.fst).Nodup)
    {m : String × Field} (hm : m ∈ map) :
    memberOf (map.map fun m => (textElems m.1.toList, fieldValue m.2)) m.1 =
      some (fieldValue m.2) := by
  induction map with
  | nil => cases hm
  | cons n map ih =>
    rw [List.map_cons, List.nodup_cons] at unique
    rw [List.map_cons, memberOf]
    rcases List.mem_cons.1 hm with rfl | hm
    · rw [List.find?_cons_of_pos (by simpa using textElems_bytes m.1.toList), Option.map_some]
    · have hne : ¬ utf8 n.1.toList = utf8 m.1.toList := fun he =>
        unique.1 (String.toList_injective (utf8_injective he) ▸ List.mem_map_of_mem hm)
      rw [List.find?_cons_of_neg (by simpa [textElems_bytes] using hne)]
      exact ih unique.2 hm

theorem givesBack_of_member {ms : List (List Elem × Value)} {m : String × Field}
    (whole : Whole m.2) (h : memberOf ms m.1 = some (fieldValue m.2)) :
    GivesBack unicodeJson ms m := by
  obtain ⟨key, f⟩ := m
  rcases f with (_ | s) | n
  · exact whole.elim
  · change (memberOf ms key).bind literalString = some s
    have hread : decoded ((textElems (charsOf s)).flatMap elemBytes) = s := by
      rw [textElems_bytes, decoded_utf8, utf16_charsOf whole]
    rw [h]
    exact congrArg some hread
  · change (memberOf ms key).bind literalInt = some n
    rw [h]
    exact literalInt_numberText n

theorem unicodeJson_inverts : Inverts unicodeJson toText bytesOf where
  print := unicodeJson_print
  getBytes := by
    intro s
    rw [bytesOf, encoded_utf16]
  newString := by
    intro s
    rw [unicodeJson_newString, unsigned_signed, decoded_utf8]
  wellFormed := by
    intro map _
    obtain ⟨s, ht, -⟩ := toText_chars map
    exact ⟨s, ht.symm⟩
  newJson := by
    intro map unique whole
    refine ⟨_, (unicodeJson_newJson _).trans (readRecord_toText whole), fun m hm => ?_⟩
    exact givesBack_of_member (whole m hm) (memberOf_map unique hm)

end Objects

end MiniServiceDiscover.JavaUnicodeText
