import PMROS2.Rosidl.MsgPrinter
import Mathlib.Data.Nat.Digits.Defs

/-!
# Types and numbers in IDL files

The functions of `rosidl_adapter.msg` that write types and values for `struct.idl.em`, which prints
them with `str`.  Floats are those that `repr` writes: the shortest digits and the place of the
point.

* `getIdlType`                  a type;
* `toIdlLiteral`                a default value or a constant;
* `FiniteFloat`, `PyFloat`      floats, with their `repr`;
* `FiniteFloat.Fixed`           when it has no exponent.
-/

namespace PMROS2.Rosidl
open PMROS2.Strings

/-! ## types -/

/-- `MSG_TYPE_TO_IDL`; none is a `KeyError` -/
def msgTypeToIdl : Primitive → Option Text
  | .bool => some "boolean".toList
  | .byte => some "octet".toList
  | .char => some "uint8".toList
  | .int8 => some "int8".toList
  | .uint8 => some "uint8".toList
  | .int16 => some "int16".toList
  | .uint16 => some "uint16".toList
  | .int32 => some "int32".toList
  | .uint32 => some "uint32".toList
  | .int64 => some "int64".toList
  | .uint64 => some "uint64".toList
  | .float32 => some "float".toList
  | .float64 => some "double".toList
  | .string => some "string".toList
  | .wstring => some "wstring".toList
  | .duration | .time => none

def idlIdentifier : BaseType → Option Text
  | .primitive p bound => (msgTypeToIdl p).map fun identifier =>
    match bound with
    | some n => if p.isString then identifier ++ '<' :: decimal n ++ ['>'] else identifier
    | none => identifier
  | .message pkgName type => some (pkgName ++ "::msg::".toList ++ type)

/-- `get_idl_type` -/
def getIdlType (t : MsgType) : Option Text := do
  let identifier ← idlIdentifier t.base
  let size := match t.arraySize with
    | some n => decimal n
    | none => "None".toList
  if !t.isArray then return identifier
  else if t.isFixedSizeArray then return identifier ++ '[' :: size ++ [']']
  else if !t.isUpperBound then return "sequence<".toList ++ identifier ++ ['>']
  else return "sequence<".toList ++ identifier ++ ", ".toList ++ size ++ ['>']

/-! ## values -/

section
variable {F : Type} (py : Python F)

/-- `bool(value)` -/
def Value.truth : Value F → Bool
  | .bool b => b
  | .int i => i ≠ 0
  | .float f => py.strFloat f ≠ "0.0".toList ∧ py.strFloat f ≠ "-0.0".toList
  | .str s => s ≠ []

def DefaultValue.truth : DefaultValue F → Bool
  | .one v => v.truth py
  | .many vs => vs.length ≠ 0

/-- what `for v in value` goes through; none is a `TypeError` -/
def DefaultValue.elements : DefaultValue F → Option (List (Value F))
  | .many vs => some vs
  | .one (.str s) => some (s.map fun c => .str [c])
  | .one _ => none

/-- `to_idl_literal`, as it is printed; none is an exception, and so it is of
`string_to_idl_string_literal` -/
def toIdlLiteral (stringLiteral : Text → Option Text) (idlType : Text) (value : DefaultValue F) :
    Option Text :=
  let string := match value with
    | .one (.str s) => stringLiteral s
    | _ => none
  if idlType.getLast? = some ']' ∨ startswith idlType "sequence<".toList then do
    let vs ← value.elements
    let elements := vs.map (Value.pyRepr py)
    let elements := elements ++ List.replicate (2 - elements.length) []
    let quoted := join ", ".toList (elements.map (replace ['"'] "\\\"".toList))
    return "\"(".toList ++ quoted ++ ")\"".toList
  else if idlType = "boolean".toList then
    some (if value.truth py then "TRUE".toList else "FALSE".toList)
  else if startswith idlType "string".toList then string
  else if startswith idlType "wstring".toList then string
  else some (value.pyStr py)

/-- the literal of a constant, or of the default of a field that is no array -/
def writtenLiteral (stringLiteral : Text → Option Text) (type : BaseType) (v : Value F) :
    Option Text := do
  let idlType ← getIdlType ⟨type, false, none, false⟩
  toIdlLiteral py stringLiteral idlType (.one v)

end

/-! ## floats -/

/-- the digits, with the point behind the first `point` of them; they begin and end with no zero -/
structure FiniteFloat where
  negative : Bool
  digits : Text
  point : Int
  nonempty : digits ≠ []
  allDigits : ∀ c ∈ digits, isDigit c = true
  shortest : digits = ['0'] ∧ point = 1 ∨
    digits.head? ≠ some '0' ∧ digits.getLast? ≠ some '0'

inductive PyFloat where
  | finite (f : FiniteFloat)
  | infinite (negative : Bool)
  | nan

namespace FiniteFloat

/-- no exponent is written -/
def Fixed (f : FiniteFloat) : Prop := -4 < f.point ∧ f.point ≤ 16

instance (f : FiniteFloat) : Decidable f.Fixed := inferInstanceAs (Decidable (_ ∧ _))

/-- the digits before the point -/
def whole (f : FiniteFloat) : Text :=
  if f.point ≤ 0 then ['0']
  else f.digits.take f.point.toNat ++ List.replicate (f.point.toNat - f.digits.length) '0'

/-- the digits behind the point -/
def fraction (f : FiniteFloat) : Text :=
  if f.point ≤ 0 then List.replicate (-f.point).toNat '0' ++ f.digits
  else if f.digits.length ≤ f.point.toNat then ['0']
  else f.digits.drop f.point.toNat

/-- one digit before the point -/
def mantissa (f : FiniteFloat) : Text :=
  if f.digits.length ≤ 1 then f.digits else f.digits.take 1 ++ '.' :: f.digits.drop 1

def exponentSign (f : FiniteFloat) : Char := if f.point - 1 < 0 then '-' else '+'

def exponentDigits (f : FiniteFloat) : Text :=
  let s := Nat.toDigits 10 (f.point - 1).natAbs
  if s.length < 2 then '0' :: s else s

/-- the `repr` of the float without its sign -/
def magnitude (f : FiniteFloat) : Text :=
  if f.Fixed then f.whole ++ '.' :: f.fraction
  else f.mantissa ++ 'e' :: f.exponentSign :: f.exponentDigits

def repr (f : FiniteFloat) : Text := if f.negative then '-' :: f.magnitude else f.magnitude

end FiniteFloat

def PyFloat.repr : PyFloat → Text
  | .finite f => f.repr
  | .infinite negative => if negative then "-inf".toList else "inf".toList
  | .nan => "nan".toList

end PMROS2.Rosidl
