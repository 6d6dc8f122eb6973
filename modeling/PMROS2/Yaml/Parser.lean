import PMROS2.Params.Value

/-!
# The YAML parameter file parser

`parse_events` is one flat loop over the events of libyaml.  It rebuilds the nesting of the file
from `map_level`, `map_depth` and two namespace strings, and it attaches every value to the last
parameter that was added.

Strings are lists of characters, one for each byte.  A scalar has the length libyaml gives, while
the code reads its text as a C string, up to the first NUL (`cstr`).  The arrays of `params_st`
are lists with the newest entry first; what is left in a slot that was given up is kept in
`Node.stale`, since the code does not clear it.  `Failure.undefined` is an access outside an
array.
-/

namespace PMROS2.Yaml

open Params

/-! ## events -/

inductive ScalarStyle where
  | plain
  | singleQuoted
  | doubleQuoted
  | literal
  | folded
  deriving DecidableEq, Repr

structure Scalar where
  value : List Char
  style : ScalarStyle := .plain
  deriving DecidableEq, Repr

inductive Event where
  | noEvent
  | streamStart
  | streamEnd
  | documentStart
  | documentEnd
  | alias
  | scalar (s : Scalar)
  | sequenceStart
  | sequenceEnd
  | mappingStart
  | mappingEnd
  deriving DecidableEq, Repr

/-- what `strlen`, `strcmp` and `strdup` see of a string -/
def cstr (s : List Char) : List Char := s.takeWhile (· ≠ '\x00')

def Scalar.quoted (s : Scalar) : Bool := s.style = .singleQuoted || s.style = .doubleQuoted

def maxStringSize : Nat := 256
def paramsKey : List Char := "ros__parameters".toList
def maxNumNodeEntries : Nat := 256
def maxNumParamsPerNode : Nat := 512

inductive Failure where
  | error (text : String)
  | invalidArgument
  | undefined
  deriving DecidableEq, Repr

/-! ## values -/

inductive DataType where
  | unknown
  | bool
  | int64
  | double
  | string
  deriving DecidableEq, Repr

/-- what `get_value` allocates, with its type -/
inductive Value where
  | bool (b : Bool)
  | int64 (i : Int64)
  | double (d : Float)
  | string (s : List Char)
  deriving DecidableEq

def Value.type : Value → DataType
  | .bool _ => .bool
  | .int64 _ => .int64
  | .double _ => .double
  | .string _ => .string

def trueNames : List (List Char) :=
  ["Y", "y", "yes", "Yes", "YES", "true", "True", "TRUE", "on", "On", "ON"].map String.toList

def falseNames : List (List Char) :=
  ["N", "n", "no", "No", "NO", "false", "False", "FALSE", "off", "Off", "OFF"].map String.toList

def digitVal (c : Char) : Option Nat :=
  if '0' ≤ c ∧ c ≤ '9' then some (c.toNat - '0'.toNat)
  else if 'a' ≤ c ∧ c ≤ 'z' then some (c.toNat - 'a'.toNat + 10)
  else if 'A' ≤ c ∧ c ≤ 'Z' then some (c.toNat - 'A'.toNat + 10)
  else none

/-- the number that all the characters give in a base -/
def digitsVal (base : Nat) (s : List Char) : Option Nat :=
  s.foldlM (fun n c => (digitVal c).bind fun d => if d < base then some (n * base + d) else none) 0

/-- the number without its sign, in the base that its beginning tells -/
def magnitude : List Char → Option Nat
  | [] => none
  | '0' :: 'x' :: c :: s => digitsVal 16 (c :: s)
  | '0' :: 'X' :: c :: s => digitsVal 16 (c :: s)
  | '0' :: s => digitsVal 8 s
  | s => digitsVal 10 s

def blanks : List Char := [' ', '\t', '\n', '\x0b', '\x0c', '\r']

/-- the number with its sign, if it is in the range of `long` -/
def signed (neg : Bool) (s : List Char) : Option Int64 :=
  (magnitude s).bind fun n =>
    let v : Int := if neg then -n else n
    if -2 ^ 63 ≤ v ∧ v < 2 ^ 63 then some (Int64.ofInt v) else none

/-- `strtol` in base 0, when it reads the whole string with `errno` left at 0 -/
def strtol (s : List Char) : Option Int64 :=
  match s.dropWhile (· ∈ blanks) with
  | '-' :: s => signed true s
  | '+' :: s => signed false s
  | s => signed false s

/-- texts are compared character by character -/
instance lawfulBEqText : LawfulBEq (List Char) := inferInstance

section
-- `strtod`, when it reads the whole string with `errno` left at 0
variable (strtod : List Char → Option Float)

def getValue (s : Scalar) : Value :=
  let value := cstr s.value
  if s.quoted then .string value
  else if value ∈ trueNames then .bool true
  else if value ∈ falseNames then .bool false
  else match strtol value with
    | some i => .int64 i
    | none => match strtod value with
      | some d => .double d
      | none => .string value

end

/-- `rcl_variant_t`: every member is a pointer, `none` is `NULL` -/
structure Variant where
  boolValue : Option Bool := none
  integerValue : Option Int64 := none
  doubleValue : Option Float := none
  stringValue : Option (List Char) := none
  byteArrayValue : Option (List UInt8) := none
  boolArrayValue : Option (List Bool) := none
  integerArrayValue : Option (List Int64) := none
  doubleArrayValue : Option (List Float) := none
  stringArrayValue : Option (List (List Char)) := none
  deriving DecidableEq

/-- a scalar value: `param_value->..._value = ret_val` -/
def Variant.setValue (v : Variant) : Value → Variant
  | .bool b => { v with boolValue := some b }
  | .int64 i => { v with integerValue := some i }
  | .double d => { v with doubleValue := some d }
  | .string s => { v with stringValue := some s }

def Variant.newArray (v : Variant) : Value → Variant
  | .bool _ => { v with boolArrayValue := some [] }
  | .int64 _ => { v with integerArrayValue := some [] }
  | .double _ => { v with doubleArrayValue := some [] }
  | .string _ => { v with stringArrayValue := some [] }

/-- `add_val_to_bool_arr` and its three siblings; `none` when the array is `NULL` -/
def Variant.addVal (v : Variant) : Value → Option Variant
  | .bool b => v.boolArrayValue.map fun l => { v with boolArrayValue := some (l ++ [b]) }
  | .int64 i => v.integerArrayValue.map fun l => { v with integerArrayValue := some (l ++ [i]) }
  | .double d => v.doubleArrayValue.map fun l => { v with doubleArrayValue := some (l ++ [d]) }
  | .string s => v.stringArrayValue.map fun l => { v with stringArrayValue := some (l ++ [s]) }

/-- the switch of `parse_value` -/
def storeValue (v : Variant) (val : Value) (isSeq : Bool) (seqDataType : DataType) :
    Except Failure (DataType × Variant) :=
  if isSeq then do
    let v' ←
      if seqDataType = .unknown then .ok (v.newArray val)
      else if seqDataType = val.type then .ok v
      else .error (.error "Sequence should be of same type. Value type does not belong")
    match v'.addVal val with
    | some v'' => .ok (val.type, v'')
    | none => .error .invalidArgument
  else .ok (seqDataType, v.setValue val)

/-! ## namespaces -/

/-- one of the two strings of `namespace_tracker_t` with its count: the string is `NULL` exactly
when the count is 0, and `names str more` has the count `more + 1` -/
inductive Namespace where
  | empty
  | names (str : List Char) (more : Nat)
  deriving DecidableEq

def Namespace.count : Namespace → Nat
  | .empty => 0
  | .names _ more => more + 1

def nodeNsSeparator : Char := '/'
def parameterNsSeparator : Char := '.'

def addNameToNs (sep : Char) (name : List Char) : Namespace → Except Failure Namespace
  | .empty => .ok (.names name 0)
  | .names [] _ => .error .undefined
  | .names cur more =>
    let sepStr := if cur.getLast? = some sep then [] else [sep]
    if cur.length + sepStr.length + name.length + 1 > maxStringSize then
      .error (.error "New namespace string is exceeding max string size")
    else .ok (.names (cur ++ sepStr ++ name) (more + 1))

def cutLast (sep : Char) (s : List Char) : List Char :=
  match s.reverse.dropWhile (· ≠ sep) with
  | [] => s
  | _ :: r => r.reverse

def remNameFromNs (sep : Char) : Namespace → Namespace
  | .empty => .empty
  | .names _ 0 => .empty
  | .names cur (more + 1) => .names (cutLast sep cur) more

/-- `replace_ns` with the old count and one more -/
def replaceNs (newNs : List Char) (ns : Namespace) : Namespace := .names newNs ns.count

/-! ## the state of the loop -/

structure Param where
  name : List Char
  value : Variant
  deriving DecidableEq

/-- `rcl_node_params_t`, with its name -/
structure Node where
  name : List Char
  params : List Param := []
  stale : List Variant := []
  deriving DecidableEq

structure State where
  isKey : Bool := true
  isSeq : Bool := false
  seqDataType : DataType := .unknown
  mapLevel : Nat := 1
  mapDepth : Nat := 0
  isNewMap : Bool := false
  nodeNs : Namespace := .empty
  parameterNs : Namespace := .empty
  nodes : List Node := []
  deriving DecidableEq

/-- a slot taken at the end of the arrays -/
def Node.addParam (n : Node) (name : List Char) : Node :=
  { n with params := ⟨name, n.stale.headD {}⟩ :: n.params, stale := n.stale.tail }

/-- a later error message takes the place of an earlier one -/
def Failure.setErrorMsg (text : String) : Failure → Failure
  | .error _ => .error text
  | f => f

/-- the key at the node name level -/
def parseNodeKey (name : List Char) (s : State) : Except Failure State :=
  if paramsKey.isPrefixOf name then
    match s.nodeNs with
    | .empty => .error (.error "There are no node names before ros__parameters")
    | .names str _ =>
      if s.nodes.length ≥ maxNumNodeEntries then .error .undefined
      else .ok { s with
        nodeNs := remNameFromNs nodeNsSeparator s.nodeNs
        nodes := { name := str } :: s.nodes
        mapLevel := s.mapLevel + 1 }
  else do
    let ns ← (addNameToNs nodeNsSeparator name s.nodeNs).mapError
      (Failure.setErrorMsg "Internal error adding node namespace")
    .ok { s with nodeNs := ns }

/-- a key in a new map: the last parameter is given up, and its name is the namespace -/
def giveUpParam (n : Node) (ns : Namespace) : Except Failure (Node × Namespace) :=
  match n.params with
  | [] => .error .undefined
  | p :: ps => .ok ({ n with params := ps, stale := p.value :: n.stale }, replaceNs p.name ns)

/-- the name of a new parameter; `none` when it is too long -/
def paramName (name : List Char) : Namespace → Option (List Char)
  | .empty => some name
  | .names str _ =>
    if str.length + name.length + 2 > maxStringSize then none
    else some (str ++ parameterNsSeparator :: name)

/-- the key at the parameters level -/
def parseParamKey (name : List Char) (s : State) : Except Failure State :=
  match s.nodes with
  | [] => .error .undefined
  | n :: others => do
    let (n, ns) ← if s.isNewMap then giveUpParam n s.parameterNs else .ok (n, s.parameterNs)
    if n.params.length ≥ maxNumParamsPerNode then
      .error (.error "Exceeded maximum allowed number of parameters for a node (512)")
    else
      -- an error message is set for a name that is too long, and `RCL_RET_OK` is returned
      let n := match paramName name ns with
        | some full => n.addParam full
        | none => n
      .ok { s with isNewMap := false, parameterNs := ns, nodes := n :: others }

def parseKey (k : Scalar) (s : State) : Except Failure State :=
  if k.value.length > maxStringSize then
    .error (.error "Scalar value is bigger than 256 bytes")
  else if k.value.length = 0 then .error (.error "No key")
  else match s.mapLevel with
    | 0 => .error (.error "Unintialized map level")
    | 1 => parseNodeKey (cstr k.value) s
    | 2 => parseParamKey (cstr k.value) s
    | _ => .error (.error "Unknown map level")

section
variable (strtod : List Char → Option Float)

def parseValue (v : Scalar) (s : State) : Except Failure State :=
  match s.nodes with
  | [] => .error .invalidArgument
  | n :: others => match n.params with
    | [] => .error .invalidArgument
    | p :: ps => do
      if v.value.length > maxStringSize then
        .error (.error "Scalar value is bigger than 256 bytes")
      else if !v.quoted && v.value.length = 0 then .error (.error "No value")
      else
        let (t, x) ← storeValue p.value (getValue strtod v) s.isSeq s.seqDataType
        .ok { s with
          seqDataType := t
          nodes := { n with params := { p with value := x } :: ps } :: others }

/-- the end of a mapping, before `map_depth--` -/
def endMapping (s : State) : State :=
  if s.mapLevel = 2 then
    if s.parameterNs.count > 0 then
      { s with parameterNs := remNameFromNs parameterNsSeparator s.parameterNs }
    else { s with mapLevel := s.mapLevel - 1 }
  else if s.mapLevel = 1 ∧ s.mapDepth = s.nodeNs.count + 1 then
    { s with nodeNs := remNameFromNs nodeNsSeparator s.nodeNs }
  else s

/-- one event that does not end the stream; libyaml keeps the nesting far below `2 ^ 32`, where
`map_depth - (num_node_ns + 1U)` would wrap into 2 -/
def step (s : State) : Event → Except Failure State
  | .scalar v =>
    if s.isKey then do
      let s ← parseKey v s
      .ok { s with isKey := false }
    else if s.mapLevel < 2 then .error (.error "Cannot have a value before ros__parameters")
    else do
      let s ← parseValue strtod v s
      .ok (if s.isSeq then s else { s with isKey := true })
  | .sequenceStart =>
    if s.isKey then .error (.error "Sequences cannot be key")
    else if s.mapLevel < 2 then
      .error (.error "Sequences can only be values and not keys in params")
    else .ok { s with isSeq := true, seqDataType := .unknown }
  | .sequenceEnd => .ok { s with isSeq := false, isKey := true }
  | .mappingStart =>
    let depth := s.mapDepth + 1
    .ok { s with
      mapDepth := depth
      isKey := true
      -- the map of `ros__parameters` itself is not a new namespace
      isNewMap := !(s.mapLevel = 2 && depth - (s.nodeNs.count + 1) = 2) }
  | .mappingEnd => .ok { endMapping s with mapDepth := s.mapDepth - 1 }
  | .alias => .error (.error "Will not support aliasing")
  | .noEvent => .error (.error "Received an empty event")
  | .streamStart | .documentStart | .documentEnd | .streamEnd => .ok s

end

end PMROS2.Yaml
