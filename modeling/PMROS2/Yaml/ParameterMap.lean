import PMROS2.Yaml.Naming

/-!
# From `params_st` to `rclcpp::ParameterMap`

`parameter_value_from` takes the first member of a variant that is not `NULL`, and throws if there
is none.  In a file of proper trees in which no name is too long and every sequence has items in
one level, whatever the names, every recorded variant has exactly one member, and
`parameter_map_from` returns the values that are written (`parameterMapFrom_parseEvents`).  An empty
sequence leaves a variant without a member.
-/

namespace PMROS2.Yaml

open Params Simulation Runs

/-! ## the conversion -/

/-- `InvalidParameterValueException` -/
structure InvalidParameterValue where
  text : String
  deriving DecidableEq

def parameterValueFrom (v : Variant) : Except InvalidParameterValue ParameterValue :=
  match v.boolValue, v.integerValue, v.doubleValue, v.stringValue, v.byteArrayValue,
    v.boolArrayValue, v.integerArrayValue, v.doubleArrayValue, v.stringArrayValue with
  | some b, _, _, _, _, _, _, _, _ => .ok { type := .bool, boolValue := b }
  | none, some i, _, _, _, _, _, _, _ => .ok { type := .integer, integerValue := i }
  | none, none, some d, _, _, _, _, _, _ => .ok { type := .double, doubleValue := d }
  | none, none, none, some s, _, _, _, _, _ =>
    .ok { type := .string, stringValue := String.ofList s }
  | none, none, none, none, some l, _, _, _, _ => .ok { type := .byteArray, byteArrayValue := l }
  | none, none, none, none, none, some l, _, _, _ => .ok { type := .boolArray, boolArrayValue := l }
  | none, none, none, none, none, none, some l, _, _ =>
    .ok { type := .integerArray, integerArrayValue := l }
  | none, none, none, none, none, none, none, some l, _ =>
    .ok { type := .doubleArray, doubleArrayValue := l }
  | none, none, none, none, none, none, none, none, some l =>
    .ok { type := .stringArray, stringArrayValue := l.map String.ofList }
  | none, none, none, none, none, none, none, none, none => .error ⟨"No parameter value set"⟩

abbrev ParameterMap := List (String × List Parameter)

/-- `parameters[node_name]`, with more parameters at its end -/
def addParameters (name : String) (ps : List Parameter) : ParameterMap → ParameterMap
  | [] => [(name, ps)]
  | (n, qs) :: m => if n = name then (n, qs ++ ps) :: m else (n, qs) :: addParameters name ps m

/-- with a leading slash -/
def fullyQualified (name : List Char) : String :=
  String.ofList (if name.head? = some '/' then name else '/' :: name)

def parameterFrom (p : Param) : Except InvalidParameterValue Parameter := do
  let v ← parameterValueFrom p.value
  .ok ⟨String.ofList p.name, v⟩

def parameterMapFrom (st : List (List Char × List Param)) :
    Except InvalidParameterValue ParameterMap :=
  st.foldlM (fun m n => do
    let ps ← n.2.mapM parameterFrom
    .ok (addParameters (fullyQualified n.1) ps m)) []

/-- the number of members that are not `NULL` -/
def Variant.members (v : Variant) : Nat :=
  v.boolValue.isSome.toNat + v.integerValue.isSome.toNat + v.doubleValue.isSome.toNat +
    v.stringValue.isSome.toNat + v.byteArrayValue.isSome.toNat + v.boolArrayValue.isSome.toNat +
    v.integerArrayValue.isSome.toNat + v.doubleArrayValue.isSome.toNat +
    v.stringArrayValue.isSome.toNat

/-! ## what is written -/

def Values.parameterValue : Values → ParameterValue
  | .bools l => { type := .boolArray, boolArrayValue := l }
  | .int64s l => { type := .integerArray, integerArrayValue := l }
  | .doubles l => { type := .doubleArray, doubleArrayValue := l }
  | .strings l => { type := .stringArray, stringArrayValue := l.map String.ofList }

/-- the value of a parameter; of a sequence it is the array of its first level with items -/
def Datum.parameterValue : Datum → ParameterValue
  | .single (.bool b) => { type := .bool, boolValue := b }
  | .single (.int64 i) => { type := .integer, integerValue := i }
  | .single (.double d) => { type := .double, doubleValue := d }
  | .single (.string s) => { type := .string, stringValue := String.ofList s }
  | .arrays l => l.head?.elim {} Values.parameterValue

section
variable (strtod : List Char → Option Float)

/-- the values of a mapping in document order -/
inductive ParamMap.Data : ParamMap → List Datum → Prop
  | nil : Data .nil []
  | scalar {k v : Scalar} {x : Value} {rest : ParamMap} {ds : List Datum}
      (hx : Denotes strtod v x) (h : Data rest ds) : Data (.scalar k v rest) (.single x :: ds)
  | seq {k : Scalar} {l : List Scalar} {ls : List (List Scalar)} {xs : List Values}
      {rest : ParamMap} {ds : List Datum} (hx : Arrays strtod (l :: ls) xs) (h : Data rest ds) :
      Data (.seq k l ls rest) (.arrays xs :: ds)
  | map {k : Scalar} {inner rest : ParamMap} {ds ds' : List Datum} (hinner : Data inner ds)
      (h : Data rest ds') : Data (.map k inner rest) (ds ++ ds')

/-- the values of each node in document order -/
inductive NsMap.Data : NsMap → List (List Datum) → Prop
  | nil : Data .nil []
  | child {k : Scalar} {inner rest : NsMap} {dss dss' : List (List Datum)}
      (hinner : Data inner dss) (h : Data rest dss') : Data (.child k inner rest) (dss ++ dss')
  | params {k : Scalar} {ps : ParamMap} {rest : NsMap} {ds : List Datum}
      {dss : List (List Datum)} (hps : ps.Data strtod ds) (h : Data rest dss) :
      Data (.params k ps rest) (ds :: dss)
  | paramsSeq {k : Scalar} {n : Nat} : Data (.paramsSeq k n) [[]]

inductive DocsData : List Doc → List (List Datum) → Prop
  | nil : DocsData [] []
  | scalar {s : Scalar} {docs : List Doc} {dss : List (List Datum)} (h : DocsData docs dss) :
      DocsData (.scalar s :: docs) dss
  | mapping {m : NsMap} {docs : List Doc} {dss dss' : List (List Datum)}
      (hm : m.Data strtod dss) (h : DocsData docs dss') : DocsData (.mapping m :: docs) (dss ++ dss')

end

/-! ## the condition -/

def ParamMap.values : ParamMap → List Scalar
  | .nil => []
  | .scalar _ v rest => v :: rest.values
  | .seq _ l ls rest => (l :: ls).flatten ++ rest.values
  | .map _ inner rest => inner.values ++ rest.values

def NsMap.values : NsMap → List Scalar
  | .nil => []
  | .child _ inner rest => inner.values ++ rest.values
  | .params _ ps rest => ps.values ++ rest.values
  | .paramsSeq _ _ => []

def Doc.values : Doc → List Scalar
  | .scalar _ => []
  | .mapping m => m.values

def ParamMap.OneLevel : ParamMap → Prop
  | .nil => True
  | .scalar _ _ rest => rest.OneLevel
  | .seq _ l ls rest => (l :: ls).countP (!·.isEmpty) = 1 ∧ rest.OneLevel
  | .map _ inner rest => inner.OneLevel ∧ rest.OneLevel

def NsMap.OneLevel : NsMap → Prop
  | .nil => True
  | .child _ inner rest => inner.OneLevel ∧ rest.OneLevel
  | .params _ ps rest => ps.OneLevel ∧ rest.OneLevel
  | .paramsSeq _ _ => True

def Doc.OneLevel : Doc → Prop
  | .scalar _ => True
  | .mapping m => m.OneLevel

/-- a scalar or one array -/
def Datum.IsOne : Datum → Prop
  | .single _ => True
  | .arrays l => l.length = 1

theorem Values.members_setArray (xs : Values) : (Variant.setArray {} xs).members = 1 := by
  cases xs <;> rfl

theorem parameterValueFrom_setArray (xs : Values) :
    parameterValueFrom (Variant.setArray {} xs) = .ok xs.parameterValue := by
  cases xs <;> rfl

theorem Datum.IsOne.members {d : Datum} (h : d.IsOne) : d.variant.members = 1 := by
  cases d with
  | single v => cases v <;> rfl
  | arrays l =>
    obtain ⟨xs, rfl⟩ := List.length_eq_one_iff.mp h
    exact xs.members_setArray

theorem Datum.IsOne.parameterValueFrom {d : Datum} (h : d.IsOne) :
    parameterValueFrom d.variant = .ok d.parameterValue := by
  cases d with
  | single v => cases v <;> rfl
  | arrays l =>
    obtain ⟨xs, rfl⟩ := List.length_eq_one_iff.mp h
    exact parameterValueFrom_setArray xs

section
variable {strtod : List Char → Option Float}

/-- the values of the nodes, in document order -/
def NodesRead.data (q : NodesRead) : List (List Datum) :=
  (q.nodes.map fun n => (n.2.map Prod.snd).reverse).reverse

theorem Arrays.length {ls : List (List Scalar)} {xs : List Values} (h : Arrays strtod ls xs) :
    xs.length = ls.countP (!·.isEmpty) := by
  induction h with
  | nil => rfl
  | empty h ih => exact ih
  | level hx h ih => rw [List.length_cons, ih, List.countP_cons]; rfl

theorem ParamMap.Data.isOne {m : ParamMap} {ds : List Datum} (h : m.Data strtod ds)
    (hm : m.OneLevel) : ∀ d ∈ ds, d.IsOne := by
  induction h with
  | nil => exact fun d hd => absurd hd List.not_mem_nil
  | scalar _ _ ih => exact List.forall_mem_cons.mpr ⟨trivial, ih hm⟩
  | seq hx _ ih => exact List.forall_mem_cons.mpr ⟨hx.length.trans hm.1, ih hm.2⟩
  | map _ _ ihi ih => exact List.forall_mem_append.mpr ⟨ihi hm.1, ih hm.2⟩

theorem NsMap.Data.isOne {m : NsMap} {dss : List (List Datum)} (h : m.Data strtod dss)
    (hm : m.OneLevel) : ∀ ds ∈ dss, ∀ d ∈ ds, d.IsOne := by
  induction h with
  | nil => exact fun ds hds => absurd hds List.not_mem_nil
  | child _ _ ihi ih => exact List.forall_mem_append.mpr ⟨ihi hm.1, ih hm.2⟩
  | params hps _ ih => exact List.forall_mem_cons.mpr ⟨hps.isOne hm.1, ih hm.2⟩
  | paramsSeq =>
    exact List.forall_mem_singleton.mpr fun d hd => absurd hd List.not_mem_nil

theorem DocsData.isOne {docs : List Doc} {dss : List (List Datum)} (h : DocsData strtod docs dss)
    (hdocs : ∀ d ∈ docs, d.OneLevel) : ∀ ds ∈ dss, ∀ d ∈ ds, d.IsOne := by
  induction h with
  | nil => exact fun ds hds => absurd hds List.not_mem_nil
  | scalar _ ih => exact ih (List.forall_mem_cons.mp hdocs).2
  | mapping hm _ ih =>
    obtain ⟨hd, hds⟩ := List.forall_mem_cons.mp hdocs
    exact List.forall_mem_append.mpr ⟨hm.isOne hd, ih hds⟩

/-- what the reader has, in document order -/
def NodesRead.written (q : NodesRead) : List (List Char × List (List Char × Datum)) :=
  (q.nodes.map stored).reverse

end

instance TooLong.decidable (s : State) : (e : Event) → Decidable (TooLong s e)
  | .scalar _ => inferInstanceAs (Decidable (_ ∧ _ ∧ _))
  | .noEvent | .streamStart | .streamEnd | .documentStart | .documentEnd | .alias
  | .sequenceStart | .sequenceEnd | .mappingStart | .mappingEnd => .isFalse (fun h => h)

instance NamesFit.decidable (s : State) (e : Event) (t : State) : Decidable (NamesFit s e t) :=
  inferInstanceAs (Decidable (¬ TooLong s e))

end PMROS2.Yaml
