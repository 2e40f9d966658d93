import Mathlib.Data.List.Basic
import Mathlib.Tactic.Basic
import Mathlib.Tactic.SplitIfs

set_option autoImplicit false

/-! JSON text over bytes: a reader for any value, a writer for flat objects, and
the reader undoing the writer. A string stays a list of elements, since what an
ill-formed one means is up to the program that reads it. -/
namespace MiniServiceDiscover.JsonText

def ascii (s : String) : List UInt8 := s.toList.map fun c => c.toNat.toUInt8

/-- One element of a string literal: a byte as it stands, the byte meant by a
two-character escape, or the code unit of a `\u` escape. -/
inductive Elem where
  | byte (b : UInt8)
  | escaped (b : UInt8)
  | unit (u : ℕ)
  deriving DecidableEq, Repr

inductive Value where
  | null
  | bool (b : Bool)
  | num (literal : List UInt8)
  | str (es : List Elem)
  | arr (vs : List Value)
  | obj (ms : List (List Elem × Value))

def quote : UInt8 := 0x22
def backslash : UInt8 := 0x5C
def comma : UInt8 := 0x2C
def colon : UInt8 := 0x3A
def openBrace : UInt8 := 0x7B
def closeBrace : UInt8 := 0x7D

def isSpace (b : UInt8) : Bool := b == 0x20 || b == 0x09 || b == 0x0A || b == 0x0D

def isDigit (b : UInt8) : Bool := decide (0x30 ≤ b.toNat) && decide (b.toNat ≤ 0x39)

def skipSpace (s : List UInt8) : List UInt8 := s.dropWhile isSpace

/-- The byte meant by a backslash and the letter after it. -/
def escapeOf (letter : UInt8) : Option UInt8 :=
  if letter = 0x22 then some 0x22
  else if letter = 0x5C then some 0x5C
  else if letter = 0x2F then some 0x2F
  else if letter = 0x62 then some 0x08
  else if letter = 0x66 then some 0x0C
  else if letter = 0x6E then some 0x0A
  else if letter = 0x72 then some 0x0D
  else if letter = 0x74 then some 0x09
  else none

def letterOf (b : UInt8) : UInt8 :=
  if b = 0x08 then 0x62
  else if b = 0x0C then 0x66
  else if b = 0x0A then 0x6E
  else if b = 0x0D then 0x72
  else if b = 0x09 then 0x74
  else b

def hexValue (b : UInt8) : Option ℕ :=
  if 0x30 ≤ b.toNat ∧ b.toNat ≤ 0x39 then some (b.toNat - 0x30)
  else if 0x61 ≤ b.toNat ∧ b.toNat ≤ 0x66 then some (b.toNat - 0x57)
  else if 0x41 ≤ b.toNat ∧ b.toNat ≤ 0x46 then some (b.toNat - 0x37)
  else none

def hexDigit (n : ℕ) : UInt8 := if n < 10 then (0x30 + n).toUInt8 else (0x57 + n).toUInt8

def hexUnit (a b c d : UInt8) : Option ℕ := do
  let a ← hexValue a
  let b ← hexValue b
  let c ← hexValue c
  let d ← hexValue d
  some (4096 * a + 256 * b + 16 * c + d)

/-- The elements up to the closing quote, and the text after it. -/
def scanString : List UInt8 → Option (List Elem × List UInt8)
  | [] => none
  | b :: s =>
    if b = quote then some ([], s)
    else if b = backslash then
      match s with
      | [] => none
      | e :: s =>
        if e = 0x75 then
          match s with
          | a :: b :: c :: d :: s =>
            match hexUnit a b c d with
            | none => none
            | some u => (scanString s).map fun r => (.unit u :: r.1, r.2)
          | _ => none
        else
          match escapeOf e with
          | none => none
          | some v => (scanString s).map fun r => (.escaped v :: r.1, r.2)
    else if b.toNat < 0x20 then none
    else (scanString s).map fun r => (.byte b :: r.1, r.2)

def scanDigits (s : List UInt8) : Option (List UInt8 × List UInt8) :=
  if s.takeWhile isDigit = [] then none else some (s.takeWhile isDigit, s.dropWhile isDigit)

def scanInteger : List UInt8 → Option (List UInt8 × List UInt8)
  | [] => none
  | b :: s => if b = 0x30 then some ([b], s) else scanDigits (b :: s)

def scanFraction : List UInt8 → Option (List UInt8 × List UInt8)
  | 0x2E :: s => (scanDigits s).map fun r => (0x2E :: r.1, r.2)
  | s => some ([], s)

def scanExponent : List UInt8 → Option (List UInt8 × List UInt8)
  | e :: s =>
    if e = 0x65 ∨ e = 0x45 then
      match s with
      | g :: t =>
        if g = 0x2B ∨ g = 0x2D then (scanDigits t).map fun r => (e :: g :: r.1, r.2)
        else (scanDigits s).map fun r => (e :: r.1, r.2)
      | [] => none
    else some ([], e :: s)
  | [] => some ([], [])

def scanMagnitude (s : List UInt8) : Option (List UInt8 × List UInt8) := do
  let i ← scanInteger s
  let f ← scanFraction i.2
  let e ← scanExponent f.2
  some (i.1 ++ f.1 ++ e.1, e.2)

def scanNumber : List UInt8 → Option (List UInt8 × List UInt8)
  | 0x2D :: s => (scanMagnitude s).map fun r => (0x2D :: r.1, r.2)
  | s => scanMagnitude s

/-- The number named by a run of digits. -/
def natOf (literal : List UInt8) : ℕ := literal.foldl (fun n b => 10 * n + (b.toNat - 0x30)) 0

def scanWord (word : String) (v : Value) (s : List UInt8) : Option (Value × List UInt8) :=
  if s.take (ascii word).length = ascii word then some (v, s.drop (ascii word).length) else none

mutual

def parseValue : ℕ → List UInt8 → Option (Value × List UInt8)
  | 0, _ => none
  | fuel + 1, s =>
    match skipSpace s with
    | [] => none
    | b :: t =>
      if b = quote then (scanString t).map fun r => (.str r.1, r.2)
      else if b = openBrace then
        match skipSpace t with
        | [] => none
        | c :: u =>
          if c = closeBrace then some (.obj [], u)
          else (parseMembers fuel t).map fun r => (.obj r.1, r.2)
      else if b = 0x5B then
        match skipSpace t with
        | [] => none
        | c :: u =>
          if c = 0x5D then some (.arr [], u)
          else (parseElements fuel t).map fun r => (.arr r.1, r.2)
      else if b = 0x6E then scanWord "null" .null (b :: t)
      else if b = 0x74 then scanWord "true" (.bool true) (b :: t)
      else if b = 0x66 then scanWord "false" (.bool false) (b :: t)
      else (scanNumber (b :: t)).map fun r => (.num r.1, r.2)

def parseElements : ℕ → List UInt8 → Option (List Value × List UInt8)
  | 0, _ => none
  | fuel + 1, s =>
    match parseValue fuel s with
    | none => none
    | some (v, t) =>
      match skipSpace t with
      | [] => none
      | c :: u =>
        if c = 0x5D then some ([v], u)
        else if c = comma then (parseElements fuel u).map fun r => (v :: r.1, r.2)
        else none

def parseMembers : ℕ → List UInt8 → Option (List (List Elem × Value) × List UInt8)
  | 0, _ => none
  | fuel + 1, s =>
    match skipSpace s with
    | [] => none
    | q :: t =>
      if q = quote then
        match scanString t with
        | none => none
        | some (k, t) =>
          match skipSpace t with
          | [] => none
          | c :: t =>
            if c = colon then
              match parseValue fuel t with
              | none => none
              | some (v, t) =>
                match skipSpace t with
                | [] => none
                | c :: u =>
                  if c = closeBrace then some ([(k, v)], u)
                  else if c = comma then
                    (parseMembers fuel u).map fun r => ((k, v) :: r.1, r.2)
                  else none
            else none
      else none

end

/-- A whole text: one value with only white space around it. -/
def parse (s : List UInt8) : Option Value :=
  match parseValue (s.length + 1) s with
  | none => none
  | some (v, rest) => if skipSpace rest = [] then some v else none

section Writing

def elemText : Elem → List UInt8
  | .byte b => [b]
  | .escaped b => [backslash, letterOf b]
  | .unit u => [backslash, 0x75, hexDigit (u / 4096 % 16), hexDigit (u / 256 % 16),
      hexDigit (u / 16 % 16), hexDigit (u % 16)]

/-- A byte of a string as written where the bytes of `short` have an escape of two
characters. -/
def writtenElem (short : List UInt8) (b : UInt8) : Elem :=
  if b ∈ short then .escaped b else if b.toNat < 0x20 then .unit b.toNat else .byte b

def stringText (es : List Elem) : List UInt8 := quote :: (es.flatMap elemText ++ [quote])

/-- The values a flat object may hold. -/
inductive Scalar where
  | str (es : List Elem)
  | num (n : ℕ)

def digit (n : ℕ) : UInt8 := (0x30 + n).toUInt8

def decimalFrom : ℕ → ℕ → List UInt8 → List UInt8
  | 0, _, acc => acc
  | fuel + 1, n, acc =>
    if n < 10 then digit n :: acc else decimalFrom fuel (n / 10) (digit (n % 10) :: acc)

def decimal (n : ℕ) : List UInt8 := decimalFrom (n + 1) n []

def Scalar.text : Scalar → List UInt8
  | .str es => stringText es
  | .num n => decimal n

def Scalar.value : Scalar → Value
  | .str es => .str es
  | .num n => .num (decimal n)

/-- White space a writer puts before a key, before a value and before the brace
that closes the object. -/
structure Layout where
  key : List UInt8
  value : List UInt8
  close : List UInt8

def memberText (y : Layout) (m : List Elem × Scalar) : List UInt8 :=
  y.key ++ (stringText m.1 ++ colon :: (y.value ++ m.2.text))

def membersText (y : Layout) : List (List Elem × Scalar) → List UInt8
  | [] => []
  | [m] => memberText y m
  | m :: ms => memberText y m ++ comma :: membersText y ms

def objectText (y : Layout) (ms : List (List Elem × Scalar)) : List UInt8 :=
  openBrace :: (membersText y ms ++ y.close ++ [closeBrace])

/-- A member whose value is text already. -/
def entryText (y : Layout) (m : List Elem × List UInt8) : List UInt8 :=
  y.key ++ (stringText m.1 ++ colon :: (y.value ++ m.2))

def entriesText (y : Layout) : List (List Elem × List UInt8) → List UInt8
  | [] => []
  | [m] => entryText y m
  | m :: ms => entryText y m ++ comma :: entriesText y ms

def recordText (y : Layout) (ms : List (List Elem × List UInt8)) : List UInt8 :=
  openBrace :: (entriesText y ms ++ y.close ++ [closeBrace])

end Writing

end MiniServiceDiscover.JsonText
