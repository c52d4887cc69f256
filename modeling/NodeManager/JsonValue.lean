import Mathlib.Data.Int.Notation
import NodeManager.CommonDef
import NodeManager.Library.KeyedList

/-!
# JSON values

`Json::Value` of `jsoncpp.cpp` with the accesses that the program makes. The
members of an object are kept in the order of their names, which are compared
byte by byte. An access of the wrong kind throws.
-/

namespace NodeManager.Json

/-- The bits of a `double`. -/
abbrev Double := UInt64

/-- `Json::Value` by its type; comments and offsets are left out. -/
inductive Value
  /-- `nullValue`. -/
  | null
  /-- `intValue`. -/
  | int (value : ℤ)
  /-- `uintValue`. -/
  | uint (value : ℕ)
  /-- `realValue`. -/
  | real (value : Double)
  /-- `stringValue`. -/
  | string (value : Str)
  /-- `booleanValue`. -/
  | bool (value : Bool)
  /-- `arrayValue`. -/
  | array (elements : List Value)
  /-- `objectValue`. -/
  | object (members : List (Str × Value))

/-- The exceptions of the library. -/
inductive Error
  /-- `Json::LogicError`: an access of the wrong kind. -/
  | logicError
  /-- `Json::RuntimeError`: the reader exceeds its stack limit. -/
  | runtimeError
  deriving DecidableEq, Repr

/-- The characters of a literal. -/
def chars (literal : String) : Str := literal.toList.map fun c => UInt8.ofNat c.toNat

/-- `valueToString` of a `LargestUInt`. -/
def uintToString (value : ℕ) : Str := (Nat.toDigits 10 value).map fun c => UInt8.ofNat c.toNat

/-- `valueToString` of a `LargestInt`. -/
def intToString (value : ℤ) : Str :=
  if value < 0 then 45 :: uintToString value.natAbs else uintToString value.natAbs

/-- `valueToString` of a `bool`. -/
def boolToString (value : Bool) : Str := if value then chars "true" else chars "false"

namespace Value

/-- The members that `resolveReference` finds: a null value becomes an object. -/
def members : Value → Except Error (List (Str × Value))
  | null => .ok []
  | object members => .ok members
  | _ => .error .logicError

/-- The value of `v[key]`; a member that is missing is made, with a null value. -/
def resolve (v : Value) (key : Str) : Except Error Value := do
  let members ← v.members
  return (KeyedList.get? key members).getD null

/-- `v[key]...[key'] = value`. -/
def assign : Value → List Str → Value → Except Error Value
  | _, [], value => .ok value
  | v, key :: path, value => do
    let members ← v.members
    let member ← assign ((KeyedList.get? key members).getD null) path value
    return object (KeyedList.set key member members)

/-- `asString`, given how a `double` is printed. -/
def asString (realToString : Double → Str) : Value → Except Error Str
  | null => .ok []
  | string value => .ok value
  | bool value => .ok (boolToString value)
  | int value => .ok (intToString value)
  | uint value => .ok (uintToString value)
  | real value => .ok (realToString value)
  | array _ => .error .logicError
  | object _ => .error .logicError

end Value

end NodeManager.Json
