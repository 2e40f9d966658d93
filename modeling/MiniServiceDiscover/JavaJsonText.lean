import MiniServiceDiscover.JavaDaemon
import MiniServiceDiscover.JsonRoundTrip

set_option autoImplicit false

/-! What the Java codec relies on in the library, and a library that does it: text
as the Android classes write and read it, for strings of plain ASCII. -/
namespace MiniServiceDiscover.JavaJsonText
open JsonText JsonRoundTrip JavaProtocal JavaProvider JavaDaemon

/-- The text `toString` builds is compact: at most six bytes for a character. -/
def fieldCost : String × Field → ℕ
  | (key, .string none) => 6 * key.length + 8
  | (key, .string (some s)) => 6 * key.length + 6 * s.length + 6
  | (key, .number _) => 6 * key.length + 15

/-- What the program relies on in the library. -/
structure Documented (oj : OrgJson) : Prop where
  printLength : ∀ map, (oj.print map).length ≤ 2 + (map.map fieldCost).sum

/-- The characters that are written as they are. -/
def plainUnit (u : UInt16) : Bool :=
  decide (0x20 ≤ u.toNat) && decide (u.toNat < 0x7F) && u != 0x22 && u != 0x5C

def unitText (u : UInt16) : List UInt8 :=
  if plainUnit u then [u.toUInt8] else elemText (.unit u.toNat)

def stringText (s : JavaString) : List UInt8 := quote :: (s.flatMap unitText ++ [quote])

def numberText (n : Int32) : List UInt8 :=
  if n.toInt < 0 then 0x2D :: decimal n.toInt.natAbs else decimal n.toInt.natAbs

def fieldText : Field → List UInt8
  | .string none => ascii "null"
  | .string (some s) => stringText s
  | .number n => numberText n

def memberText (m : String × Field) : List UInt8 :=
  stringText (javaString m.1) ++ colon :: fieldText m.2

def membersText : List (String × Field) → List UInt8
  | [] => []
  | [m] => memberText m
  | m :: ms => memberText m ++ comma :: membersText ms

def objectText (map : List (String × Field)) : List UInt8 :=
  openBrace :: (membersText map ++ [closeBrace])

def elemUnit : Elem → UInt16
  | .byte b => b.toUInt16
  | .escaped b => b.toUInt16
  | .unit u => u.toUInt16

def readObject (text : JavaString) : Option (List (List Elem × Value)) :=
  match parse (text.map UInt16.toUInt8) with
  | some (.obj ms) => some ms
  | _ => none

def member (ms : List (List Elem × Value)) (key : String) : Option Value :=
  (ms.find? fun m => m.1.map elemUnit = javaString key).map Prod.snd

def readString (ms : List (List Elem × Value)) (key : String) : Option JavaString :=
  match member ms key with
  | some (.str es) => some (es.map elemUnit)
  | _ => none

def readInt (ms : List (List Elem × Value)) (key : String) : Option Int32 :=
  match member ms key with
  | some (.num literal) => if literal.all isDigit then some (Int32.ofNat (natOf literal)) else none
  | _ => none

def textJson : OrgJson where
  Json := List (List Elem × Value)
  newString data := data.map fun b => b.toUInt8.toUInt16
  newJson := readObject
  getString := readString
  getInt := readInt
  print map := signed (objectText map)

section Lengths

theorem unitText_length (u : UInt16) : (unitText u).length ≤ 6 := by
  unfold unitText
  split_ifs
  · exact Nat.le_add_left 1 5
  · exact Nat.le_refl 6

theorem stringText_length (s : JavaString) : (stringText s).length ≤ 6 * s.length + 2 := by
  have h : (s.flatMap unitText).length ≤ 6 * s.length := by
    induction s with
    | nil => exact Nat.le_refl 0
    | cons u s ih =>
      have := unitText_length u
      rw [List.flatMap_cons, List.length_append, List.length_cons]
      omega
  rw [stringText, List.length_cons, List.length_append, List.length_singleton]
  omega

theorem numberText_length (n : Int32) : (numberText n).length ≤ 11 := by
  have hlow := n.le_toInt
  have hhigh := n.toInt_lt
  have hn : n.toInt.natAbs < 10 ^ 10 := by omega
  have hlog := Nat.log_lt_of_lt_pow' (b := 10) (by decide) hn
  have hd : (decimal n.toInt.natAbs).length ≤ 10 := by
    rw [decimal_length]
    omega
  rw [numberText]
  split_ifs
  · rw [List.length_cons]
    omega
  · omega

theorem memberText_length (m : String × Field) : (memberText m).length + 1 ≤ fieldCost m := by
  obtain ⟨key, f⟩ := m
  have hk := stringText_length (javaString key)
  have hkey : (javaString key).length = key.length := by
    rw [javaString, List.length_map, String.length_toList]
  rw [memberText, List.length_append, List.length_cons]
  rcases f with (_ | s) | n
  · have hn : (fieldText (.string none)).length = 4 := rfl
    simp only [hn, fieldCost]
    omega
  · have hs := stringText_length s
    simp only [fieldText, fieldCost]
    omega
  · have hn := numberText_length n
    simp only [fieldText, fieldCost]
    omega

theorem membersText_length (map : List (String × Field)) :
    (membersText map).length ≤ (map.map fieldCost).sum := by
  induction map with
  | nil => exact Nat.le_refl 0
  | cons m ms ih =>
    have hm := memberText_length m
    rw [List.map_cons, List.sum_cons]
    cases ms with
    | nil =>
      rw [membersText]
      omega
    | cons m' ms =>
      rw [membersText, List.length_append, List.length_cons]
      · omega
      · exact List.cons_ne_nil m' ms

theorem textJson_documented : Documented textJson where
  printLength map := by
    change (signed (objectText map)).length ≤ _
    have h := membersText_length map
    rw [signed_length, objectText, List.length_cons, List.length_append, List.length_singleton]
    omega

end Lengths

end MiniServiceDiscover.JavaJsonText
