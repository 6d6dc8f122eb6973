import PMROS2.Rosidl.MsgTypes

/-!
# The parser of `.msg`, `.srv` and `.action` files

`parse_message_string` of `rosidl_adapter.parser`: the hidden tracking fields come first, then one
line after the other is read; comments are attached to the element before or after them.

* `parseValueString`, `Field.make`, `Constant.make`   the elements;
* `MessageSpecification.make`                         no name twice;
* `parseMessageString`, `parseServiceString`, `parseActionString`.
-/

namespace PMROS2.Rosidl
open PMROS2.Strings

section
variable {F : Type} (py : Python F)

/-! ## array values -/

/-- the loop of `find_matching_end_quote` -/
def findMatchingEndQuoteLoop (quote : Char) : Nat → Text → Nat → Option Nat
  | 0, _, _ => none
  | n + 1, s, final =>
    if s = [] then none
    else
      match find quote (s.drop 1) with
      | none => none
      | some e =>
        if (s.drop e).take 2 ≠ ['\\', quote] then some (final + e)
        else findMatchingEndQuoteLoop quote n (s.drop (e + 2)) (e + 2)

/-- `find_matching_end_quote` -/
def findMatchingEndQuote (s : Text) (quote : Char) : Option Nat :=
  findMatchingEndQuoteLoop quote (s.length + 1) s 0

/-- one of the two quotes of the inner loop of `parse_string_array_value_string`: the values so
far, the rest, and whether a quoted value was read -/
def readQuoted (quote : Char) (st : List Text × Text × Bool) :
    Except PyError (List Text × Text × Bool) :=
  let (values, s, quoted) := st
  if startswith s [quote] then
    match findMatchingEndQuote s quote with
    | none => .error (.valueError ("string [".toList ++ s ++ "] incorrectly quoted\n[".toList ++
        join ", ".toList (values.map py.repr) ++ "]".toList))
    | some e =>
      let value := replace ['\\', quote] [quote] ((s.take (e + 1)).drop 1)
      .ok (values ++ [value], s.drop (e + 2), true)
  else .ok (values, s, quoted)

def parseStringArrayLoop : Nat → List Text → Text → Except PyError (List Text)
  | 0, values, _ => .ok values
  | n + 1, values, s =>
    if s = [] then .ok values
    else
      let s := lstripBlanks s
      match s.head? with
      | none => .error .indexError
      | some c =>
        if c = ',' then
          .error (.valueError ("unxepected ',' at beginning of [".toList ++ s ++ "]".toList))
        else do
          let st ← readQuoted py '"' (values, s, false)
          let (values, s, quoted) ← readQuoted py '\'' st
          let (values, s) := if quoted then (values, s)
            else match find ',' s with
              | none => (values ++ [s], [])
              | some i => (values ++ [s.take i], s.drop i)
          let s := lstripBlanks s
          let s := if s.head? = some ',' then s.drop 1 else s
          parseStringArrayLoop n values s

/-- `parse_string_array_value_string` -/
def parseStringArrayValueString (s : Text) : Except PyError (List Text) :=
  parseStringArrayLoop py (s.length + 1) [] s

/-- the elements of an array value, one by one -/
def parseElements (type : MsgType) (valueString : Text) (index : Nat) :
    List Text → Except PyError (List (Value F))
  | [] => .ok []
  | element :: elements =>
    match (do
      let base ← MsgType.parse py type.base.str none
      parsePrimitiveValueString py base.base (strip element)) with
    | .ok v => do
      let vs ← parseElements type valueString (index + 1) elements
      return v :: vs
    | .error (.invalidValue e) => .error (invalidValue type.str valueString
        ("element ".toList ++ decimal index ++ " with ".toList ++ e))
    | .error e => .error e

/-- `parse_value_string` -/
def parseValueString (type : MsgType) (valueString : Text) : Except PyError (DefaultValue F) :=
  match type.base with
  | .message .. => .error (.notImplementedError
      ("parsing string values into type '".toList ++ type.str ++ "' is not supported".toList))
  | .primitive p _ =>
    if !type.isArray then do
      let v ← parsePrimitiveValueString py type.base valueString
      return .one v
    else if !startswith valueString ['['] || !endswith valueString [']'] then
      .error (invalidValue type.str valueString
        "array value must start with '[' and end with ']'".toList)
    else do
      let elementsString := (valueString.drop 1).dropLast
      let valueStrings ← if p = .string ∨ p = .wstring then
          parseStringArrayValueString py elementsString
        else .ok (if elementsString = [] then [] else elementsString.splitOn ',')
      match type.arraySize with
      | some n =>
        if !type.isUpperBound && valueStrings.length ≠ n then
          throw (invalidValue type.str valueString ("array must have exactly ".toList ++ decimal n ++
            " elements, not ".toList ++ decimal valueStrings.length))
        else if type.isUpperBound && valueStrings.length > n then
          throw (invalidValue type.str valueString ("array must have not more than ".toList ++
            decimal n ++ " elements, not ".toList ++ decimal valueStrings.length))
        else do
          let vs ← parseElements py type valueString 0 valueStrings
          return .many vs
      | none => do
        let vs ← parseElements py type valueString 0 valueStrings
        return .many vs

/-! ## elements -/

/-- the keys `comment` and `unit` of `annotations` -/
structure Annotations where
  comment : Option (List Text)
  unit : Option Text
  deriving DecidableEq, Repr

structure Constant (F : Type) where
  type : Primitive
  name : Text
  value : Value F
  annotations : Annotations
  deriving DecidableEq, Repr

structure Field (F : Type) where
  type : MsgType
  name : Text
  defaultValue : Option (DefaultValue F)
  annotations : Annotations
  deriving DecidableEq, Repr

/-- `Constant.__init__` -/
def Constant.make (primitiveType name valueString : Text) : Except PyError (Constant F) :=
  match primitiveTypes.lookup primitiveType with
  | none => .error (.typeError ("the constant type '".toList ++ primitiveType ++
      "' must be a primitive type".toList))
  | some p =>
    if !isValidConstantName name then
      .error (.nameError ("the constant name '".toList ++ name ++ "' is not valid".toList))
    else do
      let type ← MsgType.parse py primitiveType none
      let value ← parsePrimitiveValueString py type.base valueString
      return ⟨p, name, value, ⟨none, none⟩⟩

/-- `Field.__init__` -/
def Field.make (type : MsgType) (name : Text) (defaultValueString : Option Text) :
    Except PyError (Field F) :=
  if !isValidFieldName name then
    .error (.nameError ("the field name '".toList ++ name ++ "' is not valid".toList))
  else
    match defaultValueString with
    | none => .ok ⟨type, name, none, ⟨none, none⟩⟩
    | some s => do
      let v ← parseValueString py type s
      return ⟨type, name, some v, ⟨none, none⟩⟩

/-! ## comments -/

/-- the match of `\s*\[([^,\]]+)\]` at the beginning of a text: all of it, the unit in the
brackets, and the rest -/
def matchUnit (s : Text) : Option (Text × Text × Text) :=
  let blanks := s.takeWhile isSpace
  match s.dropWhile isSpace with
  | '[' :: s' =>
    let unit := s'.takeWhile fun c => c ≠ ',' && c ≠ ']'
    match s'.dropWhile fun c => c ≠ ',' && c ≠ ']' with
    | ']' :: rest => if unit = [] then none else some (blanks ++ '[' :: unit ++ [']'], unit, rest)
    | _ => none
  | _ => none

/-- `re.findall`: from the left, matches do not overlap -/
def findUnits : Nat → Text → List (Text × Text)
  | 0, _ => []
  | _ + 1, [] => []
  | n + 1, c :: s =>
    match matchUnit (c :: s) with
    | some (all, unit, rest) => (all, unit) :: findUnits n rest
    | none => findUnits n s

/-- an empty line after an empty line goes -/
def condense : List Text → List Text
  | [] => []
  | [l] => [l]
  | l :: l' :: ls => if l = [] ∧ l' = [] then condense (l' :: ls) else l :: condense (l' :: ls)

/-- `process_comments` -/
def processComments (a : Annotations) : Annotations :=
  match a.comment with
  | none => a
  | some lines =>
    let comment := join ['\n'] lines
    let (lines, unit) := match findUnits comment.length comment with
      | [(all, unit)] => (lines.map (replace all []), some unit)
      | _ => (lines, a.unit)
    let lines := lines.dropWhile (· = [])
    let lines := (lines.reverse.dropWhile (· = [])).reverse
    ⟨some (condense lines), unit⟩

/-! ## messages -/

structure MessageSpecification (F : Type) where
  baseType : BaseType
  msgName : Text
  fields : List (Field F)
  constants : List (Constant F)
  annotations : Annotations
  deriving DecidableEq, Repr

/-- the names that occur more than once, in order -/
def duplicates (names : List Text) : List Text :=
  ((names.filter fun n => names.count n > 1).eraseDups).mergeSort (· ≤ ·)

/-- `MessageSpecification.__init__` -/
def MessageSpecification.make (pkgName msgName : Text) (fields : List (Field F))
    (constants : List (Constant F)) : Except PyError (MessageSpecification F) := do
  let baseType ← BaseType.parse py (pkgName ++ '/' :: msgName) none
  let duplicateFieldNames := duplicates (fields.map Field.name)
  if duplicateFieldNames ≠ [] then
    throw (.valueError ("the fields iterable contains duplicate names: ".toList ++
      join ", ".toList duplicateFieldNames))
  let duplicateConstantNames := duplicates (constants.map Constant.name)
  if duplicateConstantNames ≠ [] then
    throw (.valueError ("the constants iterable contains duplicate names: ".toList ++
      join ", ".toList duplicateConstantNames))
  return ⟨baseType, msgName, fields, constants, ⟨none, none⟩⟩

/-- `gijsvandenhoven_hack_measuring_fields_into_message` -/
def hackMeasuringFields (pkgName : Text) : Except PyError (List (Field F)) := do
  let tsType ← MsgType.parse py "int64".toList (some pkgName)
  let tsField ← Field.make py tsType "vandenhoven_timestamp".toList none
  let idType ← MsgType.parse py "int64".toList (some pkgName)
  let idField ← Field.make py idType "vandenhoven_identifier".toList none
  let hashType ← MsgType.parse py "int32".toList (some pkgName)
  let publisherHashField ← Field.make py hashType "vandenhoven_publisher_hash".toList none
  return [tsField, idField, publisherHashField]

/-- `last_element`: the last field or the last constant -/
inductive Element
  | field | constant
  deriving DecidableEq, Repr

/-- the variables of the loop over the lines -/
structure Loop (F : Type) where
  fileLevelEnded : Bool
  messageComments : List Text
  fields : List (Field F)
  constants : List (Constant F)
  lastElement : Option Element
  currentComments : List Text

/-- the comment lines of an element grow -/
def Annotations.addComments (a : Annotations) (cs : List Text) : Annotations :=
  { a with comment := some (a.comment.getD [] ++ cs) }

/-- `last_element.annotations.setdefault('comment', []) += cs` -/
def Loop.annotate (l : Loop F) (cs : List Text) : Loop F :=
  match l.lastElement with
  | none => l
  | some .field => { l with fields := l.fields.modify (l.fields.length - 1) fun f =>
      { f with annotations := f.annotations.addComments cs } }
  | some .constant => { l with constants := l.constants.modify (l.constants.length - 1) fun c =>
      { c with annotations := c.annotations.addComments cs } }

/-- the part of the loop that reads a field or a constant -/
def Loop.declare (pkgName : Text) (l : Loop F) (line : Text) : Except PyError (Loop F) :=
  let (typeString, _, rest) := partition ' ' line
  let rest := lstrip rest
  if rest = [] then .error (.invalidFieldDefinition line)
  else
    match find '=' rest with
    | none => do
      let (fieldName, _, defaultValueString) := partition ' ' rest
      let defaultValueString := lstrip defaultValueString
      let type ← MsgType.parse py typeString (some pkgName)
      let field ← Field.make py type fieldName
        (if defaultValueString = [] then none else some defaultValueString)
      let l := { l with fields := l.fields ++ [field], lastElement := some .field }
      return { l.annotate l.currentComments with currentComments := [] }
    | some _ => do
      let (name, _, value) := partition '=' rest
      let constant ← Constant.make py typeString (rstrip name) (lstrip value)
      let l := { l with constants := l.constants ++ [constant], lastElement := some .constant }
      return { l.annotate l.currentComments with currentComments := [] }

/-- the body of the loop over the lines -/
def Loop.step (pkgName : Text) (l : Loop F) (line : Text) : Except PyError (Loop F) :=
  let line := rstrip line
  if line = [] then .ok { l with fileLevelEnded := true }
  else
    let index := find '#' line
    if index = some 0 ∧ l.fileLevelEnded = false then
      .ok { l with messageComments := l.messageComments ++ [line.drop 1] }
    else
      let l := { l with fileLevelEnded := true }
      match index with
      | none => l.declare py pkgName line
      | some i =>
        let comment := line.drop (i + 1)
        let line := line.take i
        -- an indented comment belongs to the element before it
        if line ≠ [] ∧ strip line = [] then .ok (l.annotate [comment])
        else
          let l := { l with currentComments := l.currentComments ++ [comment] }
          let line := rstrip line
          if line = [] then .ok l else l.declare py pkgName line

/-- `parse_message_string` -/
def parseMessageString (pkgName msgName messageString : Text) :
    Except PyError (MessageSpecification F) := do
  let hidden ← hackMeasuringFields py pkgName
  let l ← (splitlines messageString).foldlM (Loop.step py pkgName)
    ⟨false, [], hidden, [], none, []⟩
  let msg ← MessageSpecification.make py pkgName msgName l.fields l.constants
  return { msg with
    annotations := processComments ⟨some l.messageComments, none⟩
    fields := msg.fields.map fun f => { f with annotations := processComments f.annotations }
    constants := msg.constants.map fun c =>
      { c with annotations := processComments c.annotations } }

/-! ## services and actions -/

structure ServiceSpecification (F : Type) where
  pkgName : Text
  srvName : Text
  request : MessageSpecification F
  response : MessageSpecification F

def separator : Text := "---".toList

/-- `parse_service_string` -/
def parseServiceString (pkgName srvName messageString : Text) :
    Except PyError (ServiceSpecification F) :=
  let lines := splitlines messageString
  match lines.count separator, lines.findIdx? (· = separator) with
  | 1, some i => do
    let request ← parseMessageString py pkgName (srvName ++ "_Request".toList)
      (join ['\n'] (lines.take i))
    let response ← parseMessageString py pkgName (srvName ++ "_Response".toList)
      (join ['\n'] (lines.drop (i + 1)))
    return ⟨pkgName, srvName, request, response⟩
  | _, none => .error (.invalidServiceSpecification
      "Could not find separator '---' between request and response".toList)
  | _, some _ => .error (.invalidServiceSpecification
      "Could not find unique separator '---' between request and response".toList)

structure ActionSpecification (F : Type) where
  pkgName : Text
  actionName : Text
  goal : MessageSpecification F
  result : MessageSpecification F
  feedback : MessageSpecification F

/-- `re.split('^---$', text, flags=re.MULTILINE)`; `cur` is the block so far, backwards -/
def splitBlocks : Bool → Text → Text → List Text
  | _, cur, [] => [cur.reverse]
  | lineStart, cur, '-' :: '-' :: '-' :: s =>
    if lineStart && (s.isEmpty || s.head? = some '\n') then cur.reverse :: splitBlocks false [] s
    else splitBlocks false ('-' :: cur) ('-' :: '-' :: s)
  | _, cur, c :: s => splitBlocks (c = '\n') (c :: cur) s

/-- `parse_action_string` -/
def parseActionString (pkgName actionName actionString : Text) :
    Except PyError (ActionSpecification F) :=
  match splitBlocks true [] actionString with
  | [goalString, resultString, feedbackString] => do
    let goal ← parseMessageString py pkgName (actionName ++ "_Goal".toList) goalString
    let result ← parseMessageString py pkgName (actionName ++ "_Result".toList) resultString
    let feedback ← parseMessageString py pkgName (actionName ++ "_Feedback".toList) feedbackString
    return ⟨pkgName, actionName, goal, result, feedback⟩
  | _ => .error (.invalidActionSpecification
      "Number of '---' separators nonconformant with action definition".toList)

end

end PMROS2.Rosidl
