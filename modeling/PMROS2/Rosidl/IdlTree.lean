import PMROS2.Rosidl.IdlGrammar
import PMROS2.Rosidl.StringLiteral
import Mathlib.Algebra.Ring.Int.Defs

/-!
# The walk over the tree of an IDL file

The functions of `rosidl_parser.parser` that take types, values and members from the tree which
Lark returns.  `find_data` gives nodes in post order, `scan_values` gives tokens in the order of
the text.  An exception is the result `Except.error`.

* `AbstractType`         types; the values of arrays and sequences are nestable, as they assert;
* `getAbstractType`      the type of a type specification;
* `getConstExprValue`    the value of an expression;
* `addMessageMembers`    the members of a struct.
-/

namespace PMROS2.Rosidl
open PMROS2.Strings PMROS2.Grammars

/-! ## types -/

abbrev Node := Tree Rule Terminal

inductive IdlError where
  | assertion (text : Text)
  | stopIteration
  | indexError
  | attributeError
  | keyError
  | typeError
  | valueError
  | reError
  deriving DecidableEq, Repr

/-- a number, or the name of a constant -/
inductive Size where
  | number (n : Nat)
  | constant (name : Text)
  deriving DecidableEq, Repr

/-- `AbstractNestableType` -/
inductive NestableType where
  | basic (typename : Text)
  | named (name : Text)
  | namespaced (namespaces : List Text) (name : Text)
  | boundedString (maximumSize : Nat)
  | unboundedString
  | boundedWString (maximumSize : Size)
  | unboundedWString
  deriving DecidableEq, Repr

inductive AbstractType where
  | nestable (t : NestableType)
  | array (valueType : NestableType) (size : Nat)
  | boundedSequence (valueType : NestableType) (maximumSize : Nat)
  | unboundedSequence (valueType : NestableType)
  deriving DecidableEq, Repr

/-- `assert size > 0`, which compares a name with a number -/
def assertPositive : Size → Except IdlError Nat
  | .number n => if 0 < n then .ok n else .error (.assertion [])
  | .constant _ => .error .typeError

/-- `assert isinstance(value_type, AbstractNestableType)` -/
def assertNestable : AbstractType → Except IdlError NestableType
  | .nestable t => .ok t
  | _ => .error (.assertion [])

/-- `Array(value_type, size)` -/
def AbstractType.mkArray (valueType : AbstractType) (size : Size) :
    Except IdlError AbstractType := do
  let t ← assertNestable valueType
  let n ← assertPositive size
  return .array t n

def AbstractType.mkBoundedSequence (valueType : AbstractType) (maximumSize : Size) :
    Except IdlError AbstractType := do
  let t ← assertNestable valueType
  let n ← assertPositive maximumSize
  return .boundedSequence t n

def AbstractType.mkUnboundedSequence (valueType : AbstractType) :
    Except IdlError AbstractType := do
  let t ← assertNestable valueType
  return .unboundedSequence t

/-- `BASE_TYPE_SPEC_TO_IDL_TYPE` -/
def baseTypeSpecToIdlType : Rule → Option Text
  | .floatingPtTypeFloat => some "float".toList
  | .floatingPtTypeDouble => some "double".toList
  | .floatingPtTypeLongDouble => some "long double".toList
  | .charType => some "char".toList
  | .wideCharType => some "wchar".toList
  | .booleanType => some "boolean".toList
  | .octetType => some "octet".toList
  | .signedTinyInt => some "int8".toList
  | .unsignedTinyInt => some "uint8".toList
  | .signedShortInt => some "int16".toList
  | .unsignedShortInt => some "uint16".toList
  | .signedLongInt => some "int32".toList
  | .unsignedLongInt => some "uint32".toList
  | .signedLonglongInt => some "int64".toList
  | .unsignedLonglongInt => some "uint64".toList
  | _ => none

/-! ## values -/

/-- a string is a list of code points -/
inductive ConstValue where
  | str (s : Codecs.Text)
  | int (i : Int)
  /-- the float that a decimal text is converted to, with its sign apart -/
  | float (negative : Bool) (text : Text)
  | bool (b : Bool)
  deriving DecidableEq, Repr

def ConstValue.negate : ConstValue → ConstValue
  | .int i => .int (-i)
  | .float negative text => .float (!negative) text
  | v => v

/-- what the walk uses beside the tree: `str(tree)`, and the names that `unicode-escape` knows -/
structure Externals where
  str : Node → Text
  names : Codecs.Names

def codePoints (w : Text) : Codecs.Text := w.map Char.toNat

/-- `scan_values` for identifiers -/
def identifiers (t : Node) : List Text := (t.tokens.filter (·.1 = .identifier)).map (·.2)

/-- `next` of what a search gives -/
def next? {α : Type} : List α → Except IdlError α
  | [] => .error .stopIteration
  | a :: _ => .ok a

def getFirstIdentifierValue (tree : Node) : Except IdlError Text := next? (identifiers tree)

def onlyChild (t : Node) : Except IdlError Node :=
  match t.children with
  | [c] => .ok c
  | _ => .error (.assertion [])

/-- `child.value` -/
def tokenValue : Node → Except IdlError Text
  | .token _ w => .ok w
  | .node _ _ => .error .attributeError

/-- `int(text)`, of digits -/
def intOfDigits (s : Text) : Except IdlError Nat :=
  if s ≠ [] ∧ s.all isDigit = true then .ok (Nat.ofDigitChars 10 s 0) else .error .valueError

def getDecimalLiteralValue (decimalLiteral : Node) : Except IdlError Nat := do
  let values ← decimalLiteral.children.mapM tokenValue
  intOfDigits values.flatten

section
variable (E : Externals)

/-- a piece of the text that `float` converts -/
def floatPiece (literal : Node) : Node → Except IdlError Text
  | .token _ w => .ok w
  | .node .floatingPtLiteralDot _ => .ok ['.']
  | .node .floatingPtLiteralE _ => .ok ['e']
  | _ => .error (.assertion ("Unsupported tree: ".toList ++ E.str literal))

/-- `float(text)`, of digits around a dot and behind an `e`; none may be missing there -/
def floatOfText (s : Text) : Except IdlError ConstValue :=
  if s.getLast? = some 'e' then .error .valueError else .ok (.float false s)

def getFloatingPtLiteralValue (literal : Node) : Except IdlError ConstValue := do
  let values ← literal.children.mapM (floatPiece E literal)
  floatOfText values.flatten

/-- `get_string_literal_value`; for a wide string the pattern has the incomplete escape `\u.{1,4}`,
which `re.compile` refuses -/
def stringLiteralValue (allowUnicode : Bool) (literal : Node) : Except IdlError Codecs.Text :=
  match literal.children with
  | [] => .ok []
  | [.token _ w] =>
    if allowUnicode then .error .reError
    else match getStringLiteralValue E.names (some (codePoints w)) with
      | some value => .ok value
      | none => .error .valueError
  | _ => .error (.assertion [])

def getStringLiteralsValue (allowUnicode : Bool) (literals : Node) : Except IdlError ConstValue :=
  if literals.children = [] then .error (.assertion [])
  else do
    let values ← literals.children.mapM (stringLiteralValue E allowUnicode)
    return .str values.flatten

/-- a literal, and if it stands behind an odd number of minus signs -/
def getLiteralValue (constExpr literal : Node) (negateValue : Bool) :
    Except IdlError ConstValue := do
  let unsupported := IdlError.assertion ("Unsupported tree: ".toList ++ E.str constExpr)
  let signed := fun v : ConstValue => if negateValue then v.negate else v
  let child ← onlyChild literal
  match child with
  | .node .integerLiteral _ => do
    let child ← onlyChild child
    match child with
    | .node .decimalLiteral _ => do
      let n ← getDecimalLiteralValue child
      return signed (.int n)
    | _ => throw (.assertion ("Unsupported tree: ".toList ++ E.str child))
  | .node .floatingPtLiteral _ => do
    let v ← getFloatingPtLiteralValue E child
    return signed v
  | .node .booleanLiteral _ => do
    let child ← onlyChild child
    match child with
    | .node .booleanLiteralTrue _ => return .bool true
    | .node .booleanLiteralFalse _ => return .bool false
    | _ => throw (.assertion [])
  | .node .stringLiterals _ =>
    if negateValue then throw (.assertion []) else getStringLiteralsValue E false child
  | .node .wideStringLiterals _ =>
    if negateValue then throw (.assertion []) else getStringLiteralsValue E true child
  | _ => throw unsupported

def getConstExprValue (constExpr : Node) : Except IdlError ConstValue :=
  match constExpr.findData .primaryExpr with
  | [primaryExpr] => do
    let child ← onlyChild primaryExpr
    match child with
    | .node .scopedName (c :: _) =>
      return .str (match c with
        | .token _ w => codePoints w
        | .node _ _ => codePoints (E.str c))
    | .node .scopedName [] => throw .indexError
    | .node .literal _ =>
      getLiteralValue E constExpr child
        ((constExpr.findData .unaryOperatorMinus).length % 2 = 1)
    | _ => throw (.assertion ("Unsupported tree: ".toList ++ E.str constExpr))
  | _ => .error (.assertion [])

def getPositiveIntConst (positiveIntConst : Node) : Except IdlError Size :=
  if positiveIntConst.data? ≠ some .positiveIntConst then .error (.assertion [])
  else match positiveIntConst.findData .decimalLiteral with
    | decimalLiteral :: _ => do
      let n ← getDecimalLiteralValue decimalLiteral
      return .number n
    | [] =>
      match identifiers positiveIntConst with
      | name :: _ => .ok (.constant name)
      | [] => .error (.assertion ("Unsupported tree: ".toList ++ E.str positiveIntConst))

/-! ## types of the tree -/

/-- `while len(child.children) == 1: child = child.children[0]` -/
def descend : Node → Node
  | .node _ [t] => descend t
  | t => t

def baseType (child : Node) : Except IdlError AbstractType :=
  match descend child with
  | .node x _ =>
    match baseTypeSpecToIdlType x with
    | some typename => .ok (.nestable (.basic typename))
    | none => .error .keyError
  | .token _ _ => .error .attributeError

def scopedNameType (child : Node) : Except IdlError AbstractType :=
  if child.findData .scopedNameSeparator = [] then do
    let name ← getFirstIdentifierValue child
    return .nestable (.named name)
  else
    match (identifiers child).getLast? with
    | some name =>
      if (identifiers child).length > 1 then
        .ok (.nestable (.namespaced (identifiers child).dropLast name))
      else .error (.assertion [])
    | none => .error (.assertion [])

/-- `BoundedString(maximum_size)` behind `assert maximum_size > 0` -/
def boundedStringType (size : Size) : Except IdlError AbstractType := do
  let n ← assertPositive size
  return .nestable (.boundedString n)

/-- `string_type` and `wide_string_type` -/
def stringType (child : Node) (wide : Bool) : Except IdlError AbstractType :=
  match child.children with
  | [c] =>
    if c.data? = some .positiveIntConst then do
      let size ← getPositiveIntConst E c
      if wide then return .nestable (.boundedWString size) else boundedStringType size
    else .error (.assertion [])
  | _ => .ok (.nestable (if wide then .unboundedWString else .unboundedString))

def sizesOfSequence (child : Node) : List Node :=
  match child.findData .positiveIntConst with
  | [] => []
  | c :: cs =>
    match child.findPath c with
    | none => c :: cs
    | some path =>
      if path.length > 2 ∧ ((path.reverse.drop 1).head?.bind Tree.data?) = some .stringType then cs
      else c :: cs

def sequenceOf (child : Node) (basetype : AbstractType) : Except IdlError AbstractType :=
  match (sizesOfSequence child).getLast? with
  | some c => do
    let maximumSize ← getPositiveIntConst E c
    AbstractType.mkBoundedSequence basetype maximumSize
  | none => AbstractType.mkUnboundedSequence basetype

theorem sizeOf_last_lt {x : Rule} {t u c : Node} (h : (t.findData x).getLast? = some u)
    (hc : u.children = [c]) : sizeOf c < sizeOf t := by
  have hmem := (List.mem_filter.mp (List.mem_of_getLast? h)).1
  have hle := sizeOf_le_of_mem_subtrees t hmem
  cases u with
  | token _ _ => cases hc
  | node y ts =>
    obtain rfl : ts = [c] := hc
    rw [Tree.node.sizeOf_spec, List.cons.sizeOf_spec] at hle
    omega

/-- `get_abstract_type_from_type_spec` is the branch for the type inside of a sequence -/
def getAbstractType (tree : Node) : Except IdlError AbstractType :=
  match tree with
  | .node .simpleTypeSpec [child] =>
    match child.data? with
    | some .baseTypeSpec => baseType child
    | some .scopedName => scopedNameType child
    | _ => .error (.assertion ("Unsupported tree: ".toList ++ E.str child))
  | .node .templateTypeSpec [child] =>
    match child.data? with
    | some .sequenceType =>
      match _h : (child.findData .typeSpec).getLast? with
      | none => .error .indexError
      | some typeSpec =>
        match _hc : typeSpec.children with
        | [c] => do
          let basetype ← getAbstractType c
          sequenceOf E child basetype
        | _ => .error (.assertion [])
    | some .stringType => stringType E child false
    | some .wideStringType => stringType E child true
    | some .fixedPtType => .error (.assertion "TODO".toList)
    | _ => .error (.assertion ("Unsupported tree: ".toList ++ E.str child))
  | .node .simpleTypeSpec _ | .node .templateTypeSpec _ => .error (.assertion [])
  | _ => .error (.assertion ("Unsupported tree: ".toList ++ E.str tree))
termination_by sizeOf tree
decreasing_by
  have hlt := sizeOf_last_lt _h _hc
  rw [Tree.node.sizeOf_spec, List.cons.sizeOf_spec]
  omega

def getAbstractTypeFromTypeSpec (typeSpec : Node) : Except IdlError AbstractType := do
  let child ← onlyChild typeSpec
  getAbstractType E child

/-! ## members -/

inductive AnnotationValue where
  | none
  | one (v : ConstValue)
  | many (params : List (Text × ConstValue))
  deriving DecidableEq, Repr

structure Annotation where
  name : Text
  value : AnnotationValue
  deriving DecidableEq, Repr

def firstConstExprValue (tree : Node) : Except IdlError ConstValue := do
  let constExpr ← next? (tree.findData .constExpr)
  getConstExprValue E constExpr

/-- `value[key] = ...` in a dictionary that keeps its order -/
def setParam (params : List (Text × ConstValue)) (key : Text) (v : ConstValue) :
    List (Text × ConstValue) :=
  if params.any fun p => p.1 = key then params.map fun p => if p.1 = key then (key, v) else p
  else params ++ [(key, v)]

def annotationParams (params : List Node) : Except IdlError (List (Text × ConstValue)) :=
  params.foldlM (fun value param => do
    let v ← firstConstExprValue E param
    let key ← getFirstIdentifierValue param
    return setParam value key v) []

def annotationOf (annotationAppl : Node) : Except IdlError Annotation := do
  let value ← match annotationAppl.findData .annotationApplParam with
    | p :: ps => do
      let params ← annotationParams E (p :: ps)
      pure (AnnotationValue.many params)
    | [] =>
      if annotationAppl.children.length = 1 then pure AnnotationValue.none
      else do
        let v ← firstConstExprValue E annotationAppl
        pure (AnnotationValue.one v)
  let name ← getFirstIdentifierValue annotationAppl
  return ⟨name, value⟩

def getAnnotations (tree : Node) : Except IdlError (List Annotation) :=
  (tree.children.filter fun c => c.data? = some .annotationAppl).mapM (annotationOf E)

structure Member where
  type : AbstractType
  name : Text
  annotations : List Annotation
  deriving DecidableEq, Repr

/-- the size of an array declarator, in the tree `tree` -/
def arraySize (tree child : Node) : Except IdlError Size :=
  match child.findData .fixedArraySize with
  | [fixedArraySize] => do
    let positiveIntConst ← next? (fixedArraySize.findData .positiveIntConst)
    getPositiveIntConst E positiveIntConst
  | _ => .error (.assertion ("Unsupported multidimensional array: ".toList ++ E.str tree))

/-- `abstract_type` in one turn of the loop -/
def declaratorType (member child : Node) (abstractType : AbstractType) :
    Except IdlError AbstractType :=
  if child.data? = some .arrayDeclarator then do
    let size ← arraySize E member child
    abstractType.mkArray size
  else .ok abstractType

/-- the loop over the declarators; `abstractType` is set for an array and kept for the next -/
def declaratorLoop (member : Node) (annotations : List Annotation) :
    AbstractType → List Node → Except IdlError (List Member)
  | _, [] => .ok []
  | abstractType, declarator :: rest => do
    let child ← onlyChild declarator
    let abstractType ← declaratorType E member child abstractType
    let name ← getFirstIdentifierValue declarator
    let members ← declaratorLoop member annotations abstractType rest
    return ⟨abstractType, name, annotations⟩ :: members

def memberMembers (member : Node) : Except IdlError (List Member) := do
  let typeSpec ← match (member.findData .typeSpec).getLast? with
    | some t => pure t
    | none => throw .indexError
  let abstractType ← getAbstractTypeFromTypeSpec E typeSpec
  let annotations ← getAnnotations E member
  declaratorLoop E member annotations abstractType (member.findData .declarator)

def addMessageMembers (tree : Node) : Except IdlError (List Member) := do
  let members ← (tree.findData .member).mapM (memberMembers E)
  return members.flatten

end

end PMROS2.Rosidl
