import PMROS2.Lib.Simulation
import PMROS2.Yaml.Parser

/-!
# Parameter files as trees, and a recursive reader

A document is a mapping of namespaces (`NsMap`) or a single scalar; the entries under
`ros__parameters` are a mapping of parameters (`ParamMap`) with scalars, mappings and sequences.
A sequence holds scalars and, as its last item, perhaps another sequence: the end of that one makes
the parser expect a key.  `stream` lists the events of libyaml for a list of documents.

`readParams` and `readNs` read the trees by recursion and pass the namespaces on explicitly.  They
stop where the parser returns an error.  The parser does not return one for a parameter name that
is too long; there the readers give up (`Halt.outside`).
-/

namespace PMROS2.Yaml

open Simulation

/-! ## trees and their events -/

/-- a sequence whose last item may be a sequence again, and so on: the scalars of each level -/
def levelsEvents : List (List Scalar) → List Event
  | [] => []
  | l :: ls => .sequenceStart :: (l.map .scalar ++ (levelsEvents ls ++ [.sequenceEnd]))

inductive ParamMap where
  | nil
  | scalar (key value : Scalar) (rest : ParamMap)
  | seq (key : Scalar) (items : List Scalar) (nested : List (List Scalar)) (rest : ParamMap)
  | map (key : Scalar) (inner rest : ParamMap)
  deriving DecidableEq

def ParamMap.events : ParamMap → List Event
  | .nil => []
  | .scalar k v rest => .scalar k :: .scalar v :: rest.events
  | .seq k l ls rest => .scalar k :: (levelsEvents (l :: ls) ++ rest.events)
  | .map k inner rest =>
    .scalar k :: .mappingStart :: (inner.events ++ .mappingEnd :: rest.events)

def ParamMap.Proper : ParamMap → Prop
  | .nil => True
  | .scalar _ _ rest => rest.Proper
  | .seq _ _ _ rest => rest.Proper
  | .map _ inner rest => inner ≠ .nil ∧ inner.Proper ∧ rest.Proper

/-- `paramsSeq` is a `ros__parameters` with an empty sequence, or sequences that hold nothing but
the next one; it is the last entry -/
inductive NsMap where
  | nil
  | child (key : Scalar) (inner rest : NsMap)
  | params (key : Scalar) (entries : ParamMap) (rest : NsMap)
  | paramsSeq (key : Scalar) (nested : Nat)
  deriving DecidableEq

def NsMap.events : NsMap → List Event
  | .nil => []
  | .child k inner rest =>
    .scalar k :: .mappingStart :: (inner.events ++ .mappingEnd :: rest.events)
  | .params k ps rest =>
    .scalar k :: .mappingStart :: (ps.events ++ .mappingEnd :: rest.events)
  | .paramsSeq k n => .scalar k :: levelsEvents (List.replicate (n + 1) [])

def isParamsKey (k : Scalar) : Bool := paramsKey.isPrefixOf (cstr k.value)

/-- the parameters are what stands under the keys that the parser takes for `ros__parameters` -/
def NsMap.Proper : NsMap → Prop
  | .nil => True
  | .child k inner rest => isParamsKey k = false ∧ inner.Proper ∧ rest.Proper
  | .params k ps rest => isParamsKey k = true ∧ ps.Proper ∧ rest.Proper
  | .paramsSeq k _ => isParamsKey k = true

/-- a document with a sequence is refused -/
inductive Doc where
  | scalar (s : Scalar)
  | mapping (m : NsMap)
  deriving DecidableEq

def Doc.events : Doc → List Event
  | .scalar s => [.scalar s]
  | .mapping m => .mappingStart :: (m.events ++ [.mappingEnd])

def Doc.Proper : Doc → Prop
  | .scalar s => isParamsKey s = false
  | .mapping m => m.Proper

def documents : List Doc → List Event
  | [] => []
  | d :: ds => .documentStart :: (d.events ++ .documentEnd :: documents ds)

/-- the events of a file -/
def stream (docs : List Doc) : List Event := .streamStart :: (documents docs ++ [.streamEnd])

/-! ## what a parameter holds -/

inductive Values where
  | bools (l : List Bool)
  | int64s (l : List Int64)
  | doubles (l : List Float)
  | strings (l : List (List Char))
  deriving DecidableEq

def Values.single : Value → Values
  | .bool b => .bools [b]
  | .int64 i => .int64s [i]
  | .double d => .doubles [d]
  | .string s => .strings [s]

def Values.push : Values → Value → Option Values
  | .bools l, .bool b => some (.bools (l ++ [b]))
  | .int64s l, .int64 i => some (.int64s (l ++ [i]))
  | .doubles l, .double d => some (.doubles (l ++ [d]))
  | .strings l, .string s => some (.strings (l ++ [s]))
  | _, _ => none

def Values.type : Values → DataType
  | .bools _ => .bool
  | .int64s _ => .int64
  | .doubles _ => .double
  | .strings _ => .string

/-- the value of a parameter: a scalar, or the arrays of a sequence with what is nested in it -/
inductive Datum where
  | single (v : Value)
  | arrays (l : List Values)
  deriving DecidableEq

def Variant.setArray (v : Variant) : Values → Variant
  | .bools l => { v with boolArrayValue := some l }
  | .int64s l => { v with integerArrayValue := some l }
  | .doubles l => { v with doubleArrayValue := some l }
  | .strings l => { v with stringArrayValue := some l }

def Datum.variant : Datum → Variant
  | .single v => Variant.setValue {} v
  | .arrays l => l.foldl Variant.setArray {}

/-! ## the readers -/

section
variable (strtod : List Char → Option Float)

def keyFits (k : Scalar) : Bool := 0 < k.value.length && k.value.length ≤ maxStringSize

/-- the namespace in force and the parameters of the node so far, the newest first -/
structure ParamsRead where
  ns : Namespace := .empty
  done : List (List Char × Datum) := []

/-- the namespace in force and the nodes so far, the newest first -/
structure NodesRead where
  ns : Namespace := .empty
  nodes : List (List Char × List (List Char × Datum)) := []

/-- `map_level` at the end of a mapping of namespaces -/
def NsMap.level : NsMap → Nat
  | .nil => 1
  | .child _ _ rest => rest.level
  | .params _ _ rest => rest.level
  | .paramsSeq _ _ => 2

end

/-! ## the count of a namespace -/

section
variable {strtod : List Char → Option Float}

end

end PMROS2.Yaml
