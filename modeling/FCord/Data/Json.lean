import Mathlib.Data.Int.Notation
import Mathlib.Data.Nat.Notation

/-!
# JSON texts

`Json.parse` reads a text as `JSON.parse` does and `Json.stringify` writes one as
`JSON.stringify` does.  A number is kept exactly, as the decimal `mantissa * 10 ^ exponent` its
literal denotes; an object keeps its members in the order of the text, and the last of several
members with one name is the one that is read (`Json.field?`).  A `\u` escape of a lone
surrogate has no character of its own and is read as U+FFFD.

The parser works on lists of characters.  It is structurally recursive on a bound `fuel`; that
the length of the text is always enough is part of `Json.parse_stringify` in
`FCord.Data.JsonRoundTrip`.
-/

namespace FCord

/-- The exact value `mantissa * 10 ^ exponent` of a number literal. -/
structure Decimal where
  mantissa : ℤ
  exponent : ℤ
  deriving DecidableEq, Repr

/-- The decimal of an integer. -/
def Decimal.ofInt (i : ℤ) : Decimal := ⟨i, 0⟩

/-- A JSON value. -/
inductive Json where
  | null
  | bool (b : Bool)
  | num (d : Decimal)
  | str (s : String)
  | arr (elements : List Json)
  | obj (members : List (String × Json))

namespace Json

/-! ### Writing -/

/-- The lower-case hexadecimal digit of `d < 16`. -/
def hexDigit (d : ℕ) : Char := if d < 10 then Char.ofNat (48 + d) else Char.ofNat (87 + d)

/-- A character inside a string literal. -/
def escapeChar (c : Char) : List Char :=
  if c = '"' then ['\\', '"']
  else if c = '\\' then ['\\', '\\']
  else if c.toNat = 8 then ['\\', 'b']
  else if c.toNat = 9 then ['\\', 't']
  else if c.toNat = 10 then ['\\', 'n']
  else if c.toNat = 12 then ['\\', 'f']
  else if c.toNat = 13 then ['\\', 'r']
  else if c.toNat < 32 then
    ['\\', 'u', '0', '0', hexDigit (c.toNat / 16), hexDigit (c.toNat % 16)]
  else [c]

/-- A string literal. -/
def writeString (s : String) : List Char := '"' :: s.toList.flatMap escapeChar ++ ['"']

/-- The digits of an integer, with its sign. -/
def writeInt (i : ℤ) : List Char :=
  if i < 0 then '-' :: Nat.toDigits 10 i.natAbs else Nat.toDigits 10 i.natAbs

/-- A number literal. -/
def writeNumber (d : Decimal) : List Char :=
  if d.exponent = 0 then writeInt d.mantissa else writeInt d.mantissa ++ 'e' :: writeInt d.exponent

mutual
/-- The text of a value. -/
def write : Json → List Char
  | .null => "null".toList
  | .bool true => "true".toList
  | .bool false => "false".toList
  | .num d => writeNumber d
  | .str s => writeString s
  | .arr [] => "[]".toList
  | .arr (x :: xs) => '[' :: (write x ++ writeElements xs)
  | .obj [] => "{}".toList
  | .obj ((k, v) :: ms) => '{' :: (writeString k ++ ':' :: (write v ++ writeMembers ms))

/-- The elements after the first one, with the closing bracket. -/
def writeElements : List Json → List Char
  | [] => [']']
  | x :: xs => ',' :: (write x ++ writeElements xs)

/-- The members after the first one, with the closing brace. -/
def writeMembers : List (String × Json) → List Char
  | [] => ['}']
  | (k, v) :: ms => ',' :: (writeString k ++ ':' :: (write v ++ writeMembers ms))
end

/-- `JSON.stringify`. -/
def stringify (j : Json) : String := String.ofList (write j)

/-! ### Reading -/

/-- The white space of JSON. -/
def isWs (c : Char) : Bool := c.toNat == 32 || c.toNat == 9 || c.toNat == 10 || c.toNat == 13

/-- Drop leading white space. -/
def skipWs (cs : List Char) : List Char := cs.dropWhile isWs

/-- The value of a hexadecimal digit. -/
def hexValue (c : Char) : Option ℕ :=
  if '0' ≤ c ∧ c ≤ '9' then some (c.toNat - 48)
  else if 'a' ≤ c ∧ c ≤ 'f' then some (c.toNat - 87)
  else if 'A' ≤ c ∧ c ≤ 'F' then some (c.toNat - 55)
  else none

/-- The UTF-16 code unit written by four hexadecimal digits, and the rest. -/
def codeUnit : List Char → Option (ℕ × List Char)
  | a :: b :: c :: d :: r =>
    match hexValue a, hexValue b, hexValue c, hexValue d with
    | some a, some b, some c, some d => some (((a * 16 + b) * 16 + c) * 16 + d, r)
    | _, _, _, _ => none
  | _ => none

/-- What follows `\u`: a code unit, or two of them that form a surrogate pair. -/
def unicodeEscape (cs : List Char) : Option (Char × List Char) :=
  match codeUnit cs with
  | none => none
  | some (hi, r) =>
    if 0xD800 ≤ hi ∧ hi < 0xDC00 then
      match r with
      | '\\' :: 'u' :: r' =>
        match codeUnit r' with
        | some (lo, r'') =>
          if 0xDC00 ≤ lo ∧ lo < 0xE000 then
            some (Char.ofNat (0x10000 + (hi - 0xD800) * 0x400 + (lo - 0xDC00)), r'')
          else some (Char.ofNat 0xFFFD, r)
        | none => none
      | _ => some (Char.ofNat 0xFFFD, r)
    else if 0xDC00 ≤ hi ∧ hi < 0xE000 then some (Char.ofNat 0xFFFD, r)
    else some (Char.ofNat hi, r)

/-- What follows a backslash. -/
def unescape : List Char → Option (Char × List Char)
  | [] => none
  | c :: r =>
    if c = 'u' then unicodeEscape r
    else if c = '"' ∨ c = '\\' ∨ c = '/' then some (c, r)
    else if c = 'b' then some (Char.ofNat 8, r)
    else if c = 't' then some (Char.ofNat 9, r)
    else if c = 'n' then some (Char.ofNat 10, r)
    else if c = 'f' then some (Char.ofNat 12, r)
    else if c = 'r' then some (Char.ofNat 13, r)
    else none

/-- The characters of a string literal whose opening quote has been read. -/
def readChars : ℕ → List Char → Option (List Char × List Char)
  | 0, _ => none
  | _ + 1, [] => none
  | fuel + 1, c :: r =>
    if c = '"' then some ([], r)
    else if c = '\\' then
      match unescape r with
      | none => none
      | some (x, r) => (readChars fuel r).map fun p => (x :: p.1, p.2)
    else if c.toNat < 32 then none
    else (readChars fuel r).map fun p => (c :: p.1, p.2)

/-- A string literal whose opening quote has been read. -/
def readString (cs : List Char) : Option (String × List Char) :=
  (readChars (cs.length + 1) cs).map fun p => (String.ofList p.1, p.2)

/-- At least one digit, as many as there are. -/
def readDigits (cs : List Char) : Option (List Char × List Char) :=
  let ds := cs.takeWhile Char.isDigit
  if ds = [] then none else some (ds, cs.dropWhile Char.isDigit)

/-- An optional minus sign. -/
def readSign : List Char → Bool × List Char
  | [] => (false, [])
  | c :: r => if c = '-' then (true, r) else (false, c :: r)

/-- The digits before the point: a single zero, or digits that do not start with one. -/
def readIntPart : List Char → Option (List Char × List Char)
  | [] => none
  | c :: r => if c = '0' then some (['0'], r) else readDigits (c :: r)

/-- The digits after the point, if there is one. -/
def readFraction : List Char → Option (List Char × List Char)
  | [] => some ([], [])
  | c :: r => if c = '.' then readDigits r else some ([], c :: r)

/-- The integer with these digits. -/
def signed (negative : Bool) (ds : List Char) : ℤ :=
  if negative then -(Nat.ofDigitChars 10 ds 0 : ℤ) else (Nat.ofDigitChars 10 ds 0 : ℤ)

/-- The exponent part, if there is one. -/
def readExponent : List Char → Option (ℤ × List Char)
  | [] => some (0, [])
  | c :: r =>
    if c = 'e' ∨ c = 'E' then
      let (negative, r) := match r with
        | '+' :: r => (false, r)
        | r => readSign r
      (readDigits r).map fun p => (signed negative p.1, p.2)
    else some (0, c :: r)

/-- A number literal. -/
def readNumber (cs : List Char) : Option (Json × List Char) :=
  let (negative, cs) := readSign cs
  match readIntPart cs with
  | none => none
  | some (ds, cs) =>
    match readFraction cs with
    | none => none
    | some (fs, cs) =>
      (readExponent cs).map fun p =>
        (.num ⟨signed negative (ds ++ fs), p.1 - fs.length⟩, p.2)

/-- The rest of a keyword. -/
def readKeyword (word : List Char) (j : Json) (cs : List Char) : Option (Json × List Char) :=
  if cs.take word.length = word then some (j, cs.drop word.length) else none

mutual
/-- A value, after white space. -/
def readValue : ℕ → List Char → Option (Json × List Char)
  | 0, _ => none
  | fuel + 1, cs =>
    match skipWs cs with
    | [] => none
    | c :: r =>
      if c = '"' then (readString r).map fun p => (.str p.1, p.2)
      else if c = '[' then
        match skipWs r with
        | [] => none
        | d :: r' =>
          if d = ']' then some (.arr [], r')
          else match readValue fuel (d :: r') with
            | none => none
            | some (x, r) => (readElements fuel r).map fun p => (.arr (x :: p.1), p.2)
      else if c = '{' then
        match skipWs r with
        | [] => none
        | d :: r' =>
          if d = '}' then some (.obj [], r')
          else match readMember fuel (d :: r') with
            | none => none
            | some (x, r) => (readMembers fuel r).map fun p => (.obj (x :: p.1), p.2)
      else if c = 'n' then readKeyword "ull".toList .null r
      else if c = 't' then readKeyword "rue".toList (.bool true) r
      else if c = 'f' then readKeyword "alse".toList (.bool false) r
      else readNumber (c :: r)

/-- The elements after the first one, with the closing bracket. -/
def readElements : ℕ → List Char → Option (List Json × List Char)
  | 0, _ => none
  | fuel + 1, cs =>
    match skipWs cs with
    | [] => none
    | c :: r =>
      if c = ']' then some ([], r)
      else if c = ',' then
        match readValue fuel r with
        | none => none
        | some (x, r) => (readElements fuel r).map fun p => (x :: p.1, p.2)
      else none

/-- The members after the first one, with the closing brace. -/
def readMembers : ℕ → List Char → Option (List (String × Json) × List Char)
  | 0, _ => none
  | fuel + 1, cs =>
    match skipWs cs with
    | [] => none
    | c :: r =>
      if c = '}' then some ([], r)
      else if c = ',' then
        match readMember fuel r with
        | none => none
        | some (x, r) => (readMembers fuel r).map fun p => (x :: p.1, p.2)
      else none

/-- One member of an object: its name, a colon and its value. -/
def readMember : ℕ → List Char → Option ((String × Json) × List Char)
  | 0, _ => none
  | fuel + 1, cs =>
    match skipWs cs with
    | [] => none
    | c :: r =>
      if c = '"' then
        match readString r with
        | none => none
        | some (k, r) =>
          match skipWs r with
          | [] => none
          | c :: r =>
            if c = ':' then (readValue fuel r).map fun p => ((k, p.1), p.2)
            else none
      else none
end

/-- `JSON.parse`: the value of a text, `none` where the call throws. -/
def parse (text : String) : Option Json :=
  let cs := text.toList
  match readValue (cs.length + 1) cs with
  | some (j, r) => if skipWs r = [] then some j else none
  | none => none

/-! ### Property access -/

/-- The member of an object that a property read finds: the last one with that name. -/
def lookup (members : List (String × Json)) (name : String) : Option Json :=
  (members.reverse.find? fun m => m.1 = name).map Prod.snd

/-- Reading a property of a value: a `TypeError` (`none`) on `null`, `undefined` (`some none`)
where there is no such property. -/
def field? (j : Json) (name : String) : Option (Option Json) :=
  match j with
  | .null => none
  | .obj members => some (lookup members name)
  | _ => some none

end Json

end FCord
