import Mathlib
import PMROS2.Lib.Strings

/-!
# Types and values of `.msg` files

The classes `BaseType` and `Type` of `rosidl_adapter.parser` and its functions for values.
Python's conversions between numbers and texts are a parameter (`Python`); a function that raises
an exception returns it.

* `BaseType.parse`, `MsgType.parse`    types from their text, and `str` back;
* `parsePrimitiveValueString`          constants and the elements of default values.
-/

namespace PMROS2.Rosidl
open PMROS2.Strings

/-! ## Python -/

/-- the conversions of Python, with a type of floats -/
structure Python (F : Type) where
  /-- `int(text)`; none is a `ValueError` -/
  int : Text → Option Int
  /-- `float(text)` -/
  float : Text → Option F
  /-- `str` of a float -/
  strFloat : F → Text
  /-- `repr` of a string -/
  repr : Text → Text

/-- `'%u'` and `str`, of an integer -/
def decimal (i : Int) : Text := (toString i).toList

/-- exceptions, with the text they carry -/
inductive PyError
  | invalidResourceName (text : Text)
  | invalidFieldDefinition (text : Text)
  | invalidServiceSpecification (text : Text)
  | invalidActionSpecification (text : Text)
  | invalidValue (text : Text)
  | typeError (text : Text)
  | nameError (text : Text)
  | valueError (text : Text)
  | indexError
  | notImplementedError (text : Text)
  | assertionError (text : Text)
  deriving DecidableEq, Repr

/-! ## names -/

def isLower (c : Char) : Bool := 'a' ≤ c && c ≤ 'z'
def isUpper (c : Char) : Bool := 'A' ≤ c && c ≤ 'Z'
def isDigit (c : Char) : Bool := '0' ≤ c && c ≤ '9'

def hasDoubleUnderscore : Text → Bool
  | [] => false
  | c :: s => (c = '_' && s.head? = some '_') || hasDoubleUnderscore s

/-- `VALID_PACKAGE_NAME_PATTERN` matches the whole name -/
def isValidPackageName (name : Text) : Bool :=
  match name with
  | [] => false
  | c :: s => isLower c && s.all (fun d => isLower d || isDigit d || d = '_') &&
      !hasDoubleUnderscore name && name.getLast? ≠ some '_'

/-- `VALID_FIELD_NAME_PATTERN` is the same pattern -/
def isValidFieldName (name : Text) : Bool := isValidPackageName name

def messageSuffixes : List Text :=
  ["_Request".toList, "_Response".toList, "_Goal".toList, "_Result".toList, "_Feedback".toList]

/-- `is_valid_message_name`: `VALID_MESSAGE_NAME_PATTERN` without the prefix of samples and the
suffixes of services and actions, each taken off once and in this order -/
def isValidMessageName (name : Text) : Bool :=
  let samplePart := "Sample_".toList
  let name := if startswith name samplePart then name.drop samplePart.length else name
  let name := messageSuffixes.foldl
    (fun name suffix => if endswith name suffix then name.take (name.length - suffix.length)
      else name) name
  match name with
  | [] => false
  | c :: s => isUpper c && s.all fun d => isUpper d || isLower d || isDigit d

/-- `VALID_CONSTANT_NAME_PATTERN`: an underscore stands alone and before a letter or a digit -/
def isValidConstantName (name : Text) : Bool :=
  match name with
  | [] => false
  | c :: s => isUpper c && s.all (fun d => isUpper d || isDigit d || d = '_') &&
      !hasDoubleUnderscore name && name.getLast? ≠ some '_'

/-! ## types -/

inductive Primitive
  | bool | byte | char | float32 | float64 | int8 | uint8 | int16 | uint16 | int32 | uint32
  | int64 | uint64 | string | wstring | duration | time
  deriving DecidableEq, Repr

/-- `PRIMITIVE_TYPES` -/
def primitiveTypes : List (Text × Primitive) :=
  [("bool".toList, .bool), ("byte".toList, .byte), ("char".toList, .char),
   ("float32".toList, .float32), ("float64".toList, .float64), ("int8".toList, .int8),
   ("uint8".toList, .uint8), ("int16".toList, .int16), ("uint16".toList, .uint16),
   ("int32".toList, .int32), ("uint32".toList, .uint32), ("int64".toList, .int64),
   ("uint64".toList, .uint64), ("string".toList, .string), ("wstring".toList, .wstring),
   ("duration".toList, .duration), ("time".toList, .time)]

def Primitive.text : Primitive → Text
  | .bool => "bool".toList | .byte => "byte".toList | .char => "char".toList
  | .float32 => "float32".toList | .float64 => "float64".toList | .int8 => "int8".toList
  | .uint8 => "uint8".toList | .int16 => "int16".toList | .uint16 => "uint16".toList
  | .int32 => "int32".toList | .uint32 => "uint32".toList | .int64 => "int64".toList
  | .uint64 => "uint64".toList | .string => "string".toList | .wstring => "wstring".toList
  | .duration => "duration".toList | .time => "time".toList

/-- `BaseType`: a primitive type, with the upper bound of a string, or a message of a package -/
inductive BaseType
  | primitive (type : Primitive) (stringUpperBound : Option Nat)
  | message (pkgName type : Text)
  deriving DecidableEq, Repr

def stringBoundError (typeString : Text) : PyError :=
  .typeError ("the upper bound of the string type '".toList ++ typeString ++
    "' must be a valid integer value > 0".toList)

section
variable {F : Type} (py : Python F)

/-- the upper bound after `string<=` or `wstring<=` -/
def BaseType.parseBound (type : Primitive) (typeString boundString : Text) :
    Except PyError BaseType :=
  match py.int boundString with
  | none => .error (stringBoundError typeString)
  | some n => if n ≤ 0 then .error (stringBoundError typeString)
      else .ok (.primitive type (some n.toNat))

/-- `BaseType.__init__` -/
def BaseType.parse (typeString : Text) (contextPackageName : Option Text) :
    Except PyError BaseType :=
  match primitiveTypes.lookup typeString with
  | some p => .ok (.primitive p none)
  | none =>
    if startswith typeString "string<=".toList then
      BaseType.parseBound py .string typeString (typeString.drop 8)
    else if startswith typeString "wstring<=".toList then
      BaseType.parseBound py .wstring typeString (typeString.drop 9)
    else
      let named := fun pkgName type : Text =>
        if !isValidPackageName pkgName then .error (.invalidResourceName pkgName)
        else if !isValidMessageName type then .error (.invalidResourceName type)
        else .ok (.message pkgName type)
      match typeString.splitOn '/', contextPackageName with
      | [pkgName, type], _ => named pkgName type
      | [_], some pkgName => named pkgName typeString
      | _, _ => .error (.invalidResourceName typeString)

/-- `BaseType.__str__` -/
def BaseType.str : BaseType → Text
  | .message pkgName type => pkgName ++ '/' :: type
  | .primitive type none => type.text
  | .primitive type (some bound) => type.text ++ "<=".toList ++ decimal bound

/-- `Type`: a base type and the brackets after it -/
structure MsgType where
  base : BaseType
  isArray : Bool
  arraySize : Option Nat
  isUpperBound : Bool
  deriving DecidableEq, Repr

def arraySizeError (typeString : Text) : PyError :=
  .typeError ("the size of array type '<=' must be a valid integer value > 0 optionally prefixed with '".toList ++
    typeString ++ "' if it is only an upper bound".toList)

/-- the index of the last opening bracket, `rindex('[')` -/
def rindexBracket (s : Text) : Option Nat :=
  (s.reverse.findIdx? (· = '[')).map fun i => s.length - 1 - i

/-- the text between the brackets: the size, and whether it is an upper bound -/
def MsgType.parseSize (typeString sizeString : Text) : Except PyError (Option Nat × Bool) :=
  if sizeString = [] then .ok (none, false)
  else
    let isUpperBound := startswith sizeString "<=".toList
    let sizeString := if isUpperBound then sizeString.drop 2 else sizeString
    match py.int sizeString with
    | none => .error (arraySizeError typeString)
    | some n => if n ≤ 0 then .error (arraySizeError typeString)
        else .ok (some n.toNat, isUpperBound)

/-- `Type.__init__` -/
def MsgType.parse (typeString : Text) (contextPackageName : Option Text) :
    Except PyError MsgType :=
  match typeString.getLast? with
  | none => .error .indexError
  | some last =>
    if last = ']' then
      match rindexBracket typeString with
      -- the message is formatted with an argument it has no place for
      | none => .error (.typeError "not all arguments converted during string formatting".toList)
      | some index => do
        let (size, isUpperBound) ←
          MsgType.parseSize py typeString (typeString.drop (index + 1)).dropLast
        let base ← BaseType.parse py (typeString.take index) contextPackageName
        return ⟨base, true, size, isUpperBound⟩
    else do
      let base ← BaseType.parse py typeString contextPackageName
      return ⟨base, false, none, false⟩

/-- `Type.__str__` -/
def MsgType.str (t : MsgType) : Text :=
  if t.isArray then
    t.base.str ++ '[' :: (if t.isUpperBound then "<=".toList else []) ++
      (match t.arraySize with | none => [] | some n => decimal n) ++ [']']
  else t.base.str

/-- `is_fixed_size_array` -/
def MsgType.isFixedSizeArray (t : MsgType) : Bool :=
  t.isArray && t.arraySize.isSome && !t.isUpperBound

/-! ## values -/

inductive Value (F : Type)
  | bool (b : Bool)
  | int (i : Int)
  | float (f : F)
  | str (s : Text)
  deriving DecidableEq, Repr

/-- the value of a field: one value, or a list for an array -/
inductive DefaultValue (F : Type)
  | one (v : Value F)
  | many (vs : List (Value F))
  deriving DecidableEq, Repr

/-- the exception `InvalidValue` -/
def invalidValue (type valueString : Text) (messageSuffix : Text) : PyError :=
  .invalidValue ("value '".toList ++ valueString ++ "' can not be converted to type '".toList ++
    type ++ "': ".toList ++ messageSuffix)

/-- `value_string.lower()`: only the letters of `true` and `false` matter, and no other character
has one of them as its lower case -/
def lower (s : Text) : Text := s.map Char.toLower

def Primitive.bounds : Primitive → Option (Int × Int)
  | .byte | .char | .uint8 => some (0, 2 ^ 8 - 1)
  | .int8 => some (-2 ^ 7, 2 ^ 7 - 1)
  | .int16 => some (-2 ^ 15, 2 ^ 15 - 1)
  | .uint16 => some (0, 2 ^ 16 - 1)
  | .int32 => some (-2 ^ 31, 2 ^ 31 - 1)
  | .uint32 => some (0, 2 ^ 32 - 1)
  | .int64 => some (-2 ^ 63, 2 ^ 63 - 1)
  | .uint64 => some (0, 2 ^ 64 - 1)
  | _ => none

def parseInteger (p : Primitive) (lo hi : Int) (valueString : Text) : Except PyError (Value F) :=
  let ex := invalidValue p.text valueString ("must be a valid integer value >= ".toList ++
    decimal lo ++ " and <= ".toList ++ decimal hi)
  match py.int valueString with
  | none => .error ex
  | some v => if v < lo ∨ v > hi then .error ex else .ok (.int v)

/-- `re.search(r'(?<!\\)quote', s)`: a quote without a backslash before it -/
def hasBareQuote (quote : Char) : Text → Option Char → Bool
  | [], _ => false
  | c :: s, previous => (c = quote && previous ≠ some '\\') || hasBareQuote quote s (some c)

def unquote (p : Primitive) (valueString : Text) : Except PyError Text :=
  let inside := fun quote : Char =>
    let s := (valueString.drop 1).dropLast
    if hasBareQuote quote s none then
      .error (invalidValue p.text s "string inner quotes not properly escaped".toList)
    else .ok (replace ['\\', quote] [quote] s)
  if startswith valueString ['"'] && endswith valueString ['"'] then inside '"'
  else if startswith valueString ['\''] && endswith valueString ['\''] then inside '\''
  else .ok valueString

/-- `parse_primitive_value_string`, for the base type of a type that is no array -/
def parsePrimitiveValueString (type : BaseType) (valueString : Text) : Except PyError (Value F) :=
  match type with
  | .message .. => .error (.valueError "the passed type must be a non-array primitive type".toList)
  | .primitive p bound =>
    match p with
    | .bool =>
      if lower valueString = "true".toList ∨ lower valueString = "1".toList then .ok (.bool true)
      else if lower valueString = "false".toList ∨ lower valueString = "0".toList then
        .ok (.bool false)
      else .error (invalidValue p.text valueString
        "must be either 'true' / '1' or 'false' / '0'".toList)
    | .float32 | .float64 =>
      match py.float valueString with
      | some f => .ok (.float f)
      | none => .error (invalidValue p.text valueString
          "must be a floating point number using '.' as the separator".toList)
    | .string | .wstring => do
      let s ← unquote p valueString
      match bound with
      | none => return .str s
      | some n =>
        if s.length > n then do
          let base ← MsgType.parse py type.str none
          throw (invalidValue base.str s
            ("string must not exceed the maximum length of ".toList ++ decimal n ++
              " characters".toList))
        else return .str s
    | .duration | .time =>
      .error (.assertionError ("unknown primitive type '".toList ++ p.text ++ "'".toList))
    | .byte | .char =>
      parseInteger py p 0 255 valueString
    | .int8 | .uint8 | .int16 | .uint16 | .int32 | .uint32 | .int64 | .uint64 =>
      match p.bounds with
      | some (lo, hi) => parseInteger py p lo hi valueString
      | none => .error (.assertionError [])

end

end PMROS2.Rosidl
