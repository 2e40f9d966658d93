import MiniServiceDiscover.CProtocal
import MiniServiceDiscover.JsonRoundTrip

set_option autoImplicit false

/-! A text codec that does what the C program relies on in cJSON: the parameter
of the C modules at a concrete value. -/
namespace MiniServiceDiscover.CJsonText
open JsonText JsonRoundTrip WordSum CProtocal

/-- The formatted layout of an object: one tab-indented line for each field. -/
def formatted : Layout := ⟨[0x0A, 0x09], [0x09], [0x0A]⟩

/-- Bytes with a two-character escape. -/
def shortEscapes : List UInt8 := [quote, backslash, 0x08, 0x0C, 0x0A, 0x0D, 0x09]

def printByte (b : UInt8) : Elem :=
  if b ∈ shortEscapes then .escaped b else if b.toNat < 0x20 then .unit b.toNat else .byte b

def printString (s : CString) : List Elem := s.bytes.map printByte

def keyElems (k : Key) : List Elem := (ascii k.name).map .byte

def fieldScalar : Field → Scalar
  | .string s => .str (printString s)
  | .number n => .num n.toNat

def members (root : List (Key × Field)) : List (List Elem × Scalar) :=
  root.map fun f => (keyElems f.1, fieldScalar f.2)

def printText (root : List (Key × Field)) : List UInt8 := objectText formatted (members root)

def unitBytes (u : ℕ) : List UInt8 :=
  if u < 0x80 then [u.toUInt8]
  else if u < 0x800 then [(0xC0 + u / 64).toUInt8, (0x80 + u % 64).toUInt8]
  else [(0xE0 + u / 4096).toUInt8, (0x80 + u / 64 % 64).toUInt8, (0x80 + u % 64).toUInt8]

def elemBytes : Elem → List UInt8
  | .byte b => [b]
  | .escaped b => [b]
  | .unit u => unitBytes u

/-- The string of a literal; an escaped terminator is passed over. -/
def readString (es : List Elem) : CString :=
  ⟨(es.flatMap elemBytes).filter (· != 0), fun h => by simp at h⟩

def readItem : Value → Item
  | .str es => .string (readString es)
  | .num literal => if literal.all isDigit then .number (natOf literal) else .other
  | _ => .other

def parseTree (text : CString) : Option (List (List Elem × Value)) :=
  match parse text.bytes with
  | some (.obj ms) => some ms
  | some _ => some []
  | none => none

def treeItem (tree : List (List Elem × Value)) (k : Key) : Option Item :=
  (tree.find? fun m => m.1.flatMap elemBytes = ascii k.name).map fun m => readItem m.2

section Strings

theorem shortEscapes_escapes : Escapes shortEscapes :=
  Escapes.of_all (by decide) (by decide) (by decide)

theorem printByte_printable (b : UInt8) : Printable (printByte b) := shortEscapes_escapes.printable b

theorem printByte_bytes (b : UInt8) : elemBytes (printByte b) = [b] := by
  unfold printByte
  split_ifs with hs hc
  · rfl
  · rw [elemBytes, unitBytes, if_pos (by omega)]
    simp
  · rfl

theorem hexDigit_plain (n : ℕ) (h : n < 16) : isHigh (hexDigit n) = false ∧ hexDigit n ≠ 0 := by
  revert n
  decide

theorem printByte_high (b : UInt8) :
    (elemText (printByte b)).countP isHigh = if isHigh b then 1 else 0 := by
  have hm : ∀ n, isHigh (hexDigit (n % 16)) = false :=
    fun n => (hexDigit_plain _ (Nat.mod_lt _ (by decide))).1
  unfold printByte
  by_cases hs : b ∈ shortEscapes
  · rw [if_pos hs]
    simp only [shortEscapes, List.mem_cons, List.not_mem_nil, or_false] at hs
    rcases hs with rfl | rfl | rfl | rfl | rfl | rfl | rfl <;> decide
  · rw [if_neg hs]
    by_cases hc : b.toNat < 0x20
    · have hb : isHigh b = false := by
        simp only [isHigh, decide_eq_false_iff_not]
        omega
      rw [if_pos hc, hb]
      simp only [elemText, List.countP_cons, List.countP_nil, hm]
      decide
    · rw [if_neg hc, elemText, List.countP_singleton]

theorem printByte_nul {b : UInt8} (h : b ≠ 0) : (0 : UInt8) ∉ elemText (printByte b) := by
  have hm : ∀ n, hexDigit (n % 16) ≠ 0 :=
    fun n => (hexDigit_plain _ (Nat.mod_lt _ (by decide))).2
  unfold printByte
  split_ifs with hs hc
  · simp only [shortEscapes, List.mem_cons, List.not_mem_nil, or_false] at hs
    rcases hs with rfl | rfl | rfl | rfl | rfl | rfl | rfl <;> decide
  · simp only [elemText, List.mem_cons, List.not_mem_nil, or_false, not_or]
    exact ⟨by decide, by decide, (hm _).symm, (hm _).symm, (hm _).symm, (hm _).symm⟩
  · rw [elemText, List.mem_singleton]
    exact h.symm

theorem printByte_length (b : UInt8) : (elemText (printByte b)).length ≤ byteCost b := by
  unfold printByte byteCost
  split_ifs with hs hc hq hc hq
  · exact (by decide : 2 ≤ 6)
  · exact Nat.le_refl 2
  · simp only [shortEscapes, List.mem_cons, List.not_mem_nil, or_false] at hs
    rcases hs with rfl | rfl | rfl | rfl | rfl | rfl | rfl <;> revert hc hq <;> decide
  · exact Nat.le_refl 6
  · exact (by decide : 1 ≤ 2)
  · exact Nat.le_refl 1

theorem readString_printString (s : CString) : readString (printString s) = s := by
  have hb : (printString s).flatMap elemBytes = s.bytes := by
    rw [printString, List.flatMap_map]
    simp only [printByte_bytes]
    exact List.flatMap_singleton' s.bytes
  obtain ⟨bytes, hn⟩ := s
  rw [readString, CString.mk.injEq, hb, List.filter_eq_self]
  intro b hm
  simpa using fun he : b = 0 => hn (he ▸ hm)

end Strings

section Objects

theorem formatted_blank : Layout.Blank formatted :=
  ⟨by simp [formatted, isSpace], by simp [formatted, isSpace], by simp [formatted, isSpace]⟩

theorem key_bytes (k : Key) : (keyElems k).flatMap elemBytes = ascii k.name := by
  rw [keyElems, List.flatMap_map]
  exact List.flatMap_singleton' (ascii k.name)

theorem key_name_injective {k k' : Key} (h : ascii k.name = ascii k'.name) : k = k' := by
  revert h
  cases k <;> cases k' <;> decide

theorem key_printable (k : Key) : ∀ e ∈ keyElems k, Printable e := by
  intro e he
  obtain ⟨b, hb, rfl⟩ := List.mem_map.1 he
  have hall : (ascii k.name).all (fun b => 0x20 ≤ b.toNat ∧ b ≠ quote ∧ b ≠ backslash) = true := by
    cases k <;> decide
  have hp := List.all_eq_true.1 hall b hb
  rw [decide_eq_true_eq] at hp
  exact hp

theorem fieldScalar_printable (f : Field) : Scalar.Printable (fieldScalar f) := by
  cases f with
  | string s =>
    intro e he
    obtain ⟨b, -, rfl⟩ := List.mem_map.1 he
    exact printByte_printable b
  | number n => exact trivial

theorem readItem_fieldScalar (f : Field) : readItem (fieldScalar f).value = f.item := by
  cases f with
  | string s => exact congrArg Item.string (readString_printString s)
  | number n =>
    have h := decimal_digits n.toNat
    rw [fieldScalar, Scalar.value, readItem, if_pos (List.all_eq_true.2 h.digits), h.value]
    rfl

theorem parse_printText {root : List (Key × Field)} (hne : root ≠ []) :
    parse (printText root) = some (.obj ((members root).map fun m => (m.1, m.2.value))) := by
  apply parse_objectText formatted_blank
  · simpa [members] using hne
  · intro m hm
    obtain ⟨f, -, rfl⟩ := List.mem_map.1 hm
    exact key_printable f.1
  · intro m hm
    obtain ⟨f, -, rfl⟩ := List.mem_map.1 hm
    exact fieldScalar_printable f.2

theorem find_members {root : List (Key × Field)} (h : (root.map Prod.fst).Nodup)
    {f : Key × Field} (hf : f ∈ root) :
    ((members root).map fun m => (m.1, m.2.value)).find?
        (fun m => m.1.flatMap elemBytes = ascii f.1.name) =
      some (keyElems f.1, (fieldScalar f.2).value) := by
  induction root with
  | nil => cases hf
  | cons g root ih =>
    rw [List.map_cons, List.nodup_cons] at h
    rw [members, List.map_cons, List.map_cons]
    rcases List.mem_cons.1 hf with rfl | hf
    · rw [List.find?_cons_of_pos (by simpa using key_bytes f.1)]
    · have hg : ¬ ascii g.1.name = ascii f.1.name := fun he =>
        h.1 (key_name_injective he ▸ List.mem_map_of_mem hf)
      rw [List.find?_cons_of_neg (by simpa [key_bytes] using hg)]
      exact ih h.2 hf

theorem treeItem_members {root : List (Key × Field)} (h : (root.map Prod.fst).Nodup)
    {f : Key × Field} (hf : f ∈ root) :
    treeItem ((members root).map fun m => (m.1, m.2.value)) f.1 = some f.2.item := by
  rw [treeItem, find_members h hf, Option.map_some, readItem_fieldScalar]

theorem stringText_printString_high {s : CString} {y : Layout} (hy : Layout.Free isHigh y) :
    (stringText (printString s)).countP isHigh = highCount s.bytes := by
  rw [countP_stringText hy, printString, highCount]
  induction s.bytes with
  | nil => rfl
  | cons b bytes ih =>
    rw [List.map_cons, List.flatMap_cons, List.countP_append, ih, printByte_high, List.countP_cons]
    omega

theorem formatted_free : Layout.Free isHigh formatted := Layout.free_of_any (by decide)

theorem decimal_high (n : ℕ) : (decimal n).countP isHigh = 0 := by
  apply countP_free
  intro b hb
  have := (decimal_digits n).digits b hb
  simp only [isDigit, Bool.and_eq_true, decide_eq_true_eq] at this
  simp only [isHigh, decide_eq_false_iff_not]
  omega

theorem printText_high (root : List (Key × Field)) :
    highCount (printText root) = (root.map fun f => f.2.highCount).sum := by
  rw [highCount, printText, countP_objectText formatted_free, members, List.map_map]
  congr 1
  apply List.map_congr_left
  rintro ⟨k, f⟩ -
  have hk : (stringText (keyElems k)).countP isHigh = 0 := by
    cases k <;> decide
  cases f with
  | string s =>
    exact (congrArg₂ (· + ·) hk (stringText_printString_high formatted_free)).trans (Nat.zero_add _)
  | number n => exact congrArg₂ (· + ·) hk (decimal_high n.toNat)

theorem decimal_port_length (n : UInt16) : (decimal n.toNat).length ≤ 5 := by
  have hn : n.toNat < 10 ^ 5 := n.toNat_lt.trans (by decide)
  have := Nat.log_lt_of_lt_pow' (b := 10) (by decide) hn
  rw [decimal_length]
  omega

theorem printString_length (s : CString) :
    (stringText (printString s)).length ≤ stringCost s + 2 := by
  have go : ((printString s).flatMap elemText).length ≤ stringCost s := by
    rw [printString, stringCost]
    induction s.bytes with
    | nil => exact Nat.le_refl _
    | cons b bytes ih =>
      have := printByte_length b
      rw [List.map_cons, List.flatMap_cons, List.length_append, List.map_cons, List.sum_cons]
      omega
  rw [stringText, List.length_cons, List.length_append, List.length_singleton]
  omega

theorem memberText_length (f : Key × Field) :
    (memberText formatted (keyElems f.1, fieldScalar f.2)).length + 1 ≤
      f.1.name.length + f.2.cost + 8 := by
  obtain ⟨k, f⟩ := f
  have hk : (stringText (keyElems k)).length = k.name.length + 2 := by
    cases k <;> decide
  have hf : (fieldScalar f).text.length ≤ f.cost := by
    cases f with
    | string s => exact printString_length s
    | number n => exact decimal_port_length n
  simp only [memberText, formatted, List.length_append, List.length_cons, List.length_nil, hk]
  omega

theorem printText_length (root : List (Key × Field)) :
    (printText root).length ≤ printCost root := by
  have hm := membersText_length_le formatted (members root)
  have hs : ((members root).map fun m => (memberText formatted m).length + 1).sum ≤
      (root.map fun f => f.1.name.length + f.2.cost + 8).sum := by
    rw [members, List.map_map]
    exact List.sum_le_sum fun f _ => memberText_length f
  simp only [printText, objectText, printCost, formatted, List.length_cons, List.length_append,
    List.length_nil] at hm ⊢
  simp only [formatted] at hs
  omega

def isNul (b : UInt8) : Bool := b == 0

theorem formatted_noNul : Layout.Free isNul formatted := Layout.free_of_any (by decide)

theorem printString_noNul (s : CString) : (stringText (printString s)).countP isNul = 0 := by
  rw [countP_stringText formatted_noNul]
  apply countP_free
  intro b hb
  obtain ⟨e, he, hb⟩ := List.mem_flatMap.1 hb
  obtain ⟨c, hc, rfl⟩ := List.mem_map.1 he
  have h0 : c ≠ 0 := fun h => s.noNul (h ▸ hc)
  rw [isNul, beq_eq_false_iff_ne]
  rintro rfl
  exact printByte_nul h0 hb

theorem decimal_noNul (n : ℕ) : (decimal n).countP isNul = 0 := by
  apply countP_free
  intro b hb
  have := (decimal_digits n).digits b hb
  rw [isNul, beq_eq_false_iff_ne]
  rintro rfl
  exact absurd this (by decide)

theorem printText_noNul (root : List (Key × Field)) : (0 : UInt8) ∉ printText root := by
  have hz : (printText root).countP isNul = 0 := by
    rw [printText, countP_objectText formatted_noNul, List.sum_eq_zero]
    intro n hn
    obtain ⟨m, hm, rfl⟩ := List.mem_map.1 hn
    obtain ⟨⟨k, f⟩, -, rfl⟩ := List.mem_map.1 hm
    have hk : (stringText (keyElems k)).countP isNul = 0 := by
      cases k <;> decide
    cases f with
    | string s => exact congrArg₂ (· + ·) hk (printString_noNul s)
    | number n => exact congrArg₂ (· + ·) hk (decimal_noNul n.toNat)
  exact fun hm => List.countP_eq_zero.1 hz 0 hm rfl

end Objects

def textCJson : CJson where
  Tree := List (List Elem × Value)
  print root := ⟨printText root, printText_noNul root⟩
  parse := parseTree
  item := treeItem

theorem parseTree_obj {text : CString} {ms : List (List Elem × Value)}
    (h : parse text.bytes = some (.obj ms)) : parseTree text = some ms := by
  rw [parseTree, h]

theorem textCJson_roundTrip (root : List (Key × Field)) (h : (root.map Prod.fst).Nodup) :
    ∃ json, parseTree ⟨printText root, printText_noNul root⟩ = some json ∧
      ∀ f ∈ root, treeItem json f.1 = some f.2.item := by
  by_cases hne : root = []
  · subst hne
    exact ⟨[], rfl, fun f hf => nomatch hf⟩
  · exact ⟨_, parseTree_obj (parse_printText hne), fun f hf => treeItem_members h hf⟩

theorem textCJson_documented : textCJson.Documented where
  roundTrip := textCJson_roundTrip
  rawHigh := printText_high
  printLength := printText_length

end MiniServiceDiscover.CJsonText
