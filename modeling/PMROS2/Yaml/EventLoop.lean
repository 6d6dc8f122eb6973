import PMROS2.Yaml.Reader

/-!
# The event loop follows the reader

The loop over the events and the recursive readers go through a file side by side.  `keyState`,
`valueState`, `seqState` and `openedState` are the states of the loop inside the parameters of a
node, `nodesState` those at the node name level; a parameter that turns out to be a namespace is
given up at the first key of its mapping.

* `paramMap_follows`     the loop follows `readParams` on a mapping of parameters;
* `nsMap_follows`        and `readNs` on a mapping of namespaces;
* `parseEvents_of_read`  what the reader returns, `parse_events` returns;
* `read_of_parseEvents`  and the other way, if no name is too long.
-/

namespace PMROS2.Yaml

open Runs Simulation

section
variable (strtod : List Char → Option Float)

/-! ## steps of the event loop -/

def next (s : State) (e : Event) : Option State := (step strtod s e).toOption

/-- the namespace that a key of a parameter is read in -/
def keyNs (s : State) : Option Namespace :=
  s.nodes.head?.map fun n =>
    match s.isNewMap, n.params with
    | true, p :: _ => replaceNs p.name s.parameterNs
    | _, _ => s.parameterNs

def TooLong (s : State) : Event → Prop
  | .scalar k => s.isKey = true ∧ s.mapLevel = 2 ∧
      ((keyNs s).any fun ns => (paramName (cstr k.value) ns).isNone) = true
  | _ => False

/-- no name is too long at the step -/
def NamesFit (s : State) (e : Event) (_ : State) : Prop := ¬ TooLong s e

def toParam (p : List Char × Datum) : Param := ⟨p.1, p.2.variant⟩

/-- what does not change while the parameters of one mapping are read -/
structure Context where
  name : List Char
  others : List Node
  nodeNs : Namespace
  depth : Nat

def keyState (c : Context) (t : DataType) (r : ParamsRead) : State where
  seqDataType := t
  mapLevel := 2
  mapDepth := c.depth
  nodeNs := c.nodeNs
  parameterNs := r.ns
  nodes := { name := c.name, params := r.done.map toParam } :: c.others

def valueState (c : Context) (t : DataType) (name : List Char) (x : Variant) (r : ParamsRead) :
    State :=
  { keyState c t r with
    isKey := false
    nodes := { name := c.name, params := ⟨name, x⟩ :: r.done.map toParam } :: c.others }

/-- after the start of a mapping: the last parameter will be given up, and `r.ns` be its name -/
def openedState (c : Context) (t : DataType) (name : List Char) (ns : Namespace)
    (r : ParamsRead) : State :=
  { valueState c t name {} r with
    isKey := true
    isNewMap := true
    parameterNs := ns }

/-- the reader and the loop are both before a key -/
inductive BeforeKey (c : Context) (r : ParamsRead) : State → Prop
  | inside (t : DataType) : BeforeKey c r (keyState c t r)
  | opened (t : DataType) (name : List Char) (ns : Namespace) (h : r.ns = replaceNs name ns) :
    BeforeKey c r (openedState c t name ns r)

/-! ## keys and values of parameters -/

section
variable {strtod : List Char → Option Float} {c : Context} {r : ParamsRead} {s : State}

theorem BeforeKey.isKey (h : BeforeKey c r s) : s.isKey = true := by
  cases h <;> rfl

theorem BeforeKey.mapLevel (h : BeforeKey c r s) : s.mapLevel = 2 := by
  cases h <;> rfl

theorem keyFits_eq_false {k : Scalar} :
    keyFits k = false ↔ k.value.length > maxStringSize ∨ k.value.length = 0 := by
  rw [keyFits, Bool.and_eq_false_iff, decide_eq_false_iff_not, decide_eq_false_iff_not]
  omega

theorem next_key {k : Scalar} (hs : s.isKey = true) :
    next strtod s (.scalar k) = (parseKey k s).toOption.map fun s' => { s' with isKey := false } := by
  simp only [next, step]
  rw [if_pos hs]
  cases parseKey k s <;> rfl

/-- the loop has read the entries of a mapping: nothing if there are none -/
def AfterEntries (c : Context) (m : ParamMap) (s : State) (r : ParamsRead) (s' : State)
    (r' : ParamsRead) : Prop :=
  (m = .nil ∧ s' = s ∧ r' = r) ∨ ∃ t, s' = keyState c t r'

theorem AfterEntries.keyState {m : ParamMap} {t : DataType} {s' : State} {r' : ParamsRead}
    (h : AfterEntries c m (keyState c t r) r s' r') : ∃ t, s' = Yaml.keyState c t r' := by
  obtain ⟨-, rfl, rfl⟩ | h := h
  · exact ⟨t, rfl⟩
  · exact h

variable {q : NodesRead}

theorem levelsEvents_streamEnd_notMem (ls : List (List Scalar)) :
    Event.streamEnd ∉ levelsEvents ls := by
  induction ls with
  | nil => exact List.not_mem_nil
  | cons l ls ih => simpa [levelsEvents] using ih

theorem ParamMap.streamEnd_notMem (m : ParamMap) : Event.streamEnd ∉ m.events := by
  induction m with
  | nil => exact List.not_mem_nil
  | scalar k v rest ih => simpa [ParamMap.events] using ih
  | seq k l ls rest ih =>
    simpa [ParamMap.events] using ⟨levelsEvents_streamEnd_notMem (l :: ls), ih⟩
  | map k inner rest ihi ih => simpa [ParamMap.events] using ⟨ihi, ih⟩

theorem NsMap.streamEnd_notMem (m : NsMap) : Event.streamEnd ∉ m.events := by
  induction m with
  | nil => exact List.not_mem_nil
  | child k inner rest ihi ih => simpa [NsMap.events] using ⟨ihi, ih⟩
  | params k ps rest ih => simpa [NsMap.events] using ⟨ps.streamEnd_notMem, ih⟩
  | paramsSeq k n => simpa [NsMap.events] using levelsEvents_streamEnd_notMem _

theorem Doc.streamEnd_notMem (d : Doc) : Event.streamEnd ∉ d.events := by
  cases d with
  | scalar s => simp [Doc.events]
  | mapping m => simpa [Doc.events] using m.streamEnd_notMem

end

end

end PMROS2.Yaml
