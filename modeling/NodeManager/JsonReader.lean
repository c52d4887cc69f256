import Mathlib.Tactic.Ring
import NodeManager.JsonValue

/-!
# The strict reader of JSON documents

`Json::Reader` of `jsoncpp.cpp` with `Features::strictMode`. The position in
the document is the list of the bytes that are left, and a token is its type
with its bytes. A value is read into one that is there already, and an error
leaves it as far as it was read. Messages and offsets of errors are left out:
only their number is, and no caller asks for it.
-/

namespace NodeManager.Json

/-- `TokenType`. -/
inductive TokenType
  | endOfStream
  | objectBegin
  | objectEnd
  | arrayBegin
  | arrayEnd
  | string
  | number
  | true
  | false
  | null
  | arraySeparator
  | memberSeparator
  | comment
  | error
  deriving DecidableEq, Repr

/-- `Token`, with the bytes from `start_` to `end_`. -/
structure Token where
  type : TokenType
  text : Str

/-- A blank between tokens. -/
def isSpace (c : UInt8) : Bool := c = 32 || c = 9 || c = 13 || c = 10

/-- A decimal digit. -/
def isDigit (c : UInt8) : Bool := 48 ≤ c && c ≤ 57

/-- `skipSpaces`. -/
def skipSpaces (s : Str) : Str := s.dropWhile isSpace

/-- `match`: whether the pattern follows, and what is left. -/
def matchPattern (pattern s : Str) : Bool × Str :=
  if pattern.isPrefixOf s then (Bool.true, s.drop pattern.length) else (Bool.false, s)

/-- `readString`: up to the closing quote, if there is one. -/
def readString : Str → Bool × Str
  | [] => (Bool.false, [])
  | 92 :: _ :: rest => readString rest
  | 34 :: rest => (Bool.true, rest)
  | _ :: rest => readString rest

/-- `readCStyleComment`. -/
def readCStyleComment : Str → Bool × Str
  | [] => (Bool.false, [])
  | [c] => (c = 47, [])
  | c :: d :: rest => if c = 42 ∧ d = 47 then (Bool.true, rest) else readCStyleComment (d :: rest)

/-- `readCppStyleComment`. -/
def readCppStyleComment : Str → Str
  | [] => []
  | 10 :: rest => rest
  | 13 :: 10 :: rest => rest
  | 13 :: rest => rest
  | _ :: rest => readCppStyleComment rest

/-- `readComment`, behind the first slash. -/
def readComment : Str → Bool × Str
  | 42 :: rest => readCStyleComment rest
  | 47 :: rest => (Bool.true, readCppStyleComment rest)
  | _ :: rest => (Bool.false, rest)
  | [] => (Bool.false, [])

/-- `readNumber`, behind the first character. -/
def readNumber (s : Str) : Str :=
  let integral := s.dropWhile isDigit
  let fractional := match integral with
    | 46 :: rest => rest.dropWhile isDigit
    | _ => integral
  match fractional with
  | [] => []
  | c :: rest =>
    if c = 101 ∨ c = 69 then
      match rest with
      | [] => []
      | sign :: digits => (if sign = 43 ∨ sign = 45 then digits else rest).dropWhile isDigit
    else fractional

/-- The type that the verdict on a token leaves it. -/
def TokenType.unlessBad (type : TokenType) (ok : Bool) : TokenType := if ok then type else .error

/-- The token that a character starts, and what is left behind it. -/
def scanToken (c : UInt8) (rest : Str) : TokenType × Str :=
  if c = 123 then (.objectBegin, rest)
  else if c = 125 then (.objectEnd, rest)
  else if c = 91 then (.arrayBegin, rest)
  else if c = 93 then (.arrayEnd, rest)
  else if c = 34 then
    let (ok, rest) := readString rest
    (TokenType.string.unlessBad ok, rest)
  else if c = 47 then
    let (ok, rest) := readComment rest
    (TokenType.comment.unlessBad ok, rest)
  else if isDigit c ∨ c = 45 then (.number, readNumber rest)
  else if c = 116 then
    let (ok, rest) := matchPattern (chars "rue") rest
    (TokenType.true.unlessBad ok, rest)
  else if c = 102 then
    let (ok, rest) := matchPattern (chars "alse") rest
    (TokenType.false.unlessBad ok, rest)
  else if c = 110 then
    let (ok, rest) := matchPattern (chars "ull") rest
    (TokenType.null.unlessBad ok, rest)
  else if c = 44 then (.arraySeparator, rest)
  else if c = 58 then (.memberSeparator, rest)
  else if c = 0 then (.endOfStream, rest)
  else (.error, rest)

/-- `readToken`, which succeeds also where the token is an error. -/
def readToken (s : Str) : Token × Str :=
  match skipSpaces s with
  | [] => (⟨.endOfStream, []⟩, [])
  | c :: rest =>
    let (type, left) := scanToken c rest
    (⟨type, (c :: rest).take (rest.length + 1 - left.length)⟩, left)

/-- Read on while the token is a comment. Every comment takes up bytes of what
is left, so their number suffices for the loop. -/
def skipComments : ℕ → Token × Str → Token × Str
  | 0, read => read
  | fuel + 1, (token, s) =>
    if token.type = .comment then skipComments fuel (readToken s) else (token, s)

/-- `readToken` until it is no comment. -/
def readTokenPastComments (s : Str) : Token × Str := skipComments s.length (readToken s)

/-- The loop of `recoverFromError`, for which the number of bytes left suffices
as well. -/
def recoverLoop (skipUntilToken : TokenType) : ℕ → Str → Str
  | 0, s => s
  | fuel + 1, s =>
    let (skip, s) := readToken s
    if skip.type = skipUntilToken ∨ skip.type = .endOfStream then s
    else recoverLoop skipUntilToken fuel s

/-- `recoverFromError`: what is left behind the token that is looked for. -/
def recoverFromError (skipUntilToken : TokenType) (s : Str) : Str :=
  recoverLoop skipUntilToken (s.length + 1) s

/-- The loop of `decodeNumber` over the digits, unless it turns to
`decodeDouble`. -/
def decodeDigits (maxIntegerValue : ℕ) : ℕ → Str → Option ℕ
  | value, [] => some value
  | value, c :: rest =>
    let threshold := maxIntegerValue / 10
    let digit := c.toNat - 48
    if ¬isDigit c then none
    else if value ≥ threshold ∧
        (value > threshold ∨ rest ≠ [] ∨ digit > maxIntegerValue % 10) then none
    else decodeDigits maxIntegerValue (value * 10 + digit) rest

/-- `decodeNumber`, given how a `double` is read. -/
def decodeNumber (readDouble : Str → Option Double) (text : Str) : Option Value :=
  let isNegative := text.head? = some 45
  let maxIntegerValue := if isNegative then 2 ^ 63 else 2 ^ 64 - 1
  match decodeDigits maxIntegerValue 0 (if isNegative then text.drop 1 else text) with
  | none => (readDouble text).map .real
  | some value =>
    if isNegative then some (.int (-value))
    else if value ≤ 2 ^ 31 - 1 then some (.int value)
    else some (.uint value)

/-- The value of a hexadecimal digit. -/
def hexValue (c : UInt8) : Option ℕ :=
  if 48 ≤ c ∧ c ≤ 57 then some (c.toNat - 48)
  else if 97 ≤ c ∧ c ≤ 102 then some (c.toNat - 97 + 10)
  else if 65 ≤ c ∧ c ≤ 70 then some (c.toNat - 65 + 10)
  else none

/-- `decodeUnicodeEscapeSequence`, of four bytes. -/
def decodeUnicodeEscapeSequence : Str → Option ℕ
  | c₁ :: c₂ :: c₃ :: c₄ :: _ =>
    [c₁, c₂, c₃, c₄].foldlM (fun unicode c => (hexValue c).map (unicode * 16 + ·)) 0
  | _ => none

/-- `decodeUnicodeCodePoint`, and how many bytes it takes. -/
def decodeUnicodeCodePoint (s : Str) : Option (ℕ × ℕ) := do
  let unicode ← decodeUnicodeEscapeSequence s
  if 0xD800 ≤ unicode ∧ unicode ≤ 0xDBFF then
    match s.drop 4 with
    | 92 :: 117 :: second =>
      let surrogatePair ← decodeUnicodeEscapeSequence second
      return (0x10000 + ((unicode &&& 0x3FF) <<< 10) + (surrogatePair &&& 0x3FF), 10)
    | _ => none
  else return (unicode, 4)

/-- `codePointToUTF8`. -/
def codePointToUTF8 (cp : ℕ) : Str :=
  if cp ≤ 0x7F then [UInt8.ofNat cp]
  else if cp ≤ 0x7FF then
    [UInt8.ofNat (0xC0 ||| (0x1F &&& cp >>> 6)), UInt8.ofNat (0x80 ||| (0x3F &&& cp))]
  else if cp ≤ 0xFFFF then
    [UInt8.ofNat (0xE0 ||| (0xF &&& cp >>> 12)), UInt8.ofNat (0x80 ||| (0x3F &&& cp >>> 6)),
      UInt8.ofNat (0x80 ||| (0x3F &&& cp))]
  else if cp ≤ 0x10FFFF then
    [UInt8.ofNat (0xF0 ||| (0x7 &&& cp >>> 18)), UInt8.ofNat (0x80 ||| (0x3F &&& cp >>> 12)),
      UInt8.ofNat (0x80 ||| (0x3F &&& cp >>> 6)), UInt8.ofNat (0x80 ||| (0x3F &&& cp))]
  else []

/-- The character that a simple escape stands for. -/
def simpleEscape (escape : UInt8) : Option UInt8 :=
  if escape = 34 ∨ escape = 47 ∨ escape = 92 then some escape
  else if escape = 98 then some 8
  else if escape = 102 then some 12
  else if escape = 110 then some 10
  else if escape = 114 then some 13
  else if escape = 116 then some 9
  else none

/-- The loop of `decodeString`, when the given number of bytes has been used up
before. -/
def decodeStringFrom : ℕ → Str → Option Str
  | _, [] => some []
  | used + 1, _ :: rest => decodeStringFrom used rest
  | 0, c :: rest =>
    if c = 34 then some []
    else if c = 92 then
      match rest with
      | [] => none
      | escape :: digits =>
        if escape = 117 then do
          let (unicode, used) ← decodeUnicodeCodePoint digits
          return codePointToUTF8 unicode ++ (← decodeStringFrom (used + 1) rest)
        else do
          let plain ← simpleEscape escape
          return plain :: (← decodeStringFrom 1 rest)
    else (decodeStringFrom 0 rest).map (c :: ·)

/-- `decodeString`, between the quotes of the token. -/
def decodeString (text : Str) : Option Str := decodeStringFrom 0 (text.drop 1).dropLast

/-- Reads a value into one that is there: whether it succeeded, the value, and
what is left of the document. -/
abbrev ValueReader := Value → Str → Except Error (Bool × Value × Str)

section Containers

variable (readValue : ValueReader)

/-- The loop of `readObject`, for which the number of bytes left suffices. -/
def readMembers : ℕ → Str → List (Str × Value) → Str → Except Error (Bool × Value × Str)
  | 0, _, members, s => .ok (Bool.false, .object members, s)
  | fuel + 1, name, members, s => do
    let recover := fun (members : List (Str × Value)) (s : Str) =>
      (Bool.false, Value.object members, recoverFromError .objectEnd s)
    let (tokenName, s) := readTokenPastComments s
    if tokenName.type = .objectEnd ∧ name = [] then
      return (Bool.true, .object members, s)
    if tokenName.type ≠ .string then
      return recover members s
    match decodeString tokenName.text with
    | none => return recover members s
    | some name =>
      let (colon, s) := readToken s
      if colon.type ≠ .memberSeparator then
        return recover members s
      let (ok, value, s) ← readValue ((KeyedList.get? name members).getD .null) s
      let members := KeyedList.set name value members
      if ¬ok then
        return recover members s
      let (comma, s) := readToken s
      if comma.type ≠ .objectEnd ∧ comma.type ≠ .arraySeparator ∧ comma.type ≠ .comment then
        return recover members s
      let (comma, s) := skipComments (s.length + 1) (comma, s)
      if comma.type = .objectEnd then
        return (Bool.true, .object members, s)
      readMembers fuel name members s

/-- The loop of `readArray`, for which the number of bytes left suffices. -/
def readElements : ℕ → List Value → Str → Except Error (Bool × Value × Str)
  | 0, elements, s => .ok (Bool.false, .array elements, s)
  | fuel + 1, elements, s => do
    let (ok, value, s) ← readValue .null s
    let elements := elements ++ [value]
    if ¬ok then
      return (Bool.false, .array elements, recoverFromError .arrayEnd s)
    let (currentToken, s) := readTokenPastComments s
    if currentToken.type ≠ .arraySeparator ∧ currentToken.type ≠ .arrayEnd then
      return (Bool.false, .array elements, recoverFromError .arrayEnd s)
    if currentToken.type = .arrayEnd then
      return (Bool.true, .array elements, s)
    readElements fuel elements s

/-- `readObject`, behind the opening brace. -/
def readObject (s : Str) : Except Error (Bool × Value × Str) :=
  readMembers readValue (s.length + 1) [] [] s

/-- `readArray`, behind the opening bracket. -/
def readArray (s : Str) : Except Error (Bool × Value × Str) :=
  match skipSpaces s with
  | 93 :: rest => .ok (Bool.true, .array [], rest)
  | s => readElements readValue (s.length + 1) [] s

end Containers

variable (readDouble : Str → Option Double)

/-- `stackLimit_g`. -/
def stackLimit : ℕ := 1000

/-- `readValue` with room for the given number of nested values on the stack. -/
def readValue : ℕ → ValueReader
  | 0, _, _ => .error .runtimeError
  | levels + 1, value, s =>
    let (token, s) := readToken s
    match token.type with
    | .objectBegin => readObject (readValue levels) s
    | .arrayBegin => readArray (readValue levels) s
    | .number =>
      match decodeNumber readDouble token.text with
      | none => .ok (Bool.false, value, s)
      | some decoded => .ok (Bool.true, decoded, s)
    | .string =>
      match decodeString token.text with
      | none => .ok (Bool.false, value, s)
      | some decoded => .ok (Bool.true, .string decoded, s)
    | .true => .ok (Bool.true, .bool Bool.true, s)
    | .false => .ok (Bool.true, .bool Bool.false, s)
    | .null => .ok (Bool.true, .null, s)
    | _ => .ok (Bool.false, value, s)

/-- Whether a strict root is one. -/
def Value.isContainer : Value → Bool
  | .array _ => Bool.true
  | .object _ => Bool.true
  | _ => Bool.false

/-- `Reader::parse` of a document into a root. What follows the root is not
looked at. -/
def strictParse (root : Value) (document : Str) : Except Error (Bool × Value) := do
  let (successful, root, _) ← readValue readDouble stackLimit root document
  if ¬root.isContainer then
    return (Bool.false, root)
  return (successful, root)

end NodeManager.Json
