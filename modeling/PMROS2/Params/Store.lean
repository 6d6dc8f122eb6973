import PMROS2.Params.Value

/-!
# The parameter store of a node

`NodeParameters` (`node_parameters.cpp`): the map `parameters_` from names to value and
descriptor, and the operations that change it.

A call returns a `Call`: what it returns or throws, the map it leaves behind (a C++ exception
does not undo what was written before it), and the event it has published.  The user callback is
any function of the list it is given; it may throw.  So may the clock and the publisher, behind the
last write; what they do in a call belongs to the call.

The loops of `set_parameters_atomically` are separate definitions, in the order of the source:
`scanParameters`, `stageDeclarations`, `anyInitialValuesUsed`, `copyStagedValues`,
`collectUndeclared`, `setParametersAtomicallyCommon`, `mergeStaged`, `undeclareAll`,
`changedParameters`.
-/

namespace PMROS2.Params

/-- `std::map<std::string, ParameterInfo>` -/
abbrev ParameterMap := Std.ExtTreeMap String ParameterInfo

/-- the exceptions the store throws, and the ones of a user callback, the clock and the publisher -/
inductive Exception where
  | invalidParameters (what : String)
  | parameterAlreadyDeclared (what : String)
  | parameterNotDeclared (what : String)
  | parameterImmutable (what : String)
  | invalidParameterValue (what : String)
  | user (what : String)
  | rcl (what : String)
  deriving DecidableEq

abbrev OnParametersSetCallback := List Parameter → Except Exception SetParametersResult

/-- `rcl_interfaces::msg::ParameterEvent` -/
structure ParameterEvent where
  stamp : Int64 := 0
  node : String := ""
  newParameters : List Parameter := []
  changedParameters : List Parameter := []
  deletedParameters : List Parameter := []
  deriving DecidableEq

structure NodeParameters where
  parameters : ParameterMap := ∅
  allowUndeclared : Bool := false
  parameterOverrides : Std.ExtTreeMap String ParameterValue := ∅
  onParametersSetCallback : Option OnParametersSetCallback := none
  /-- `events_publisher_` is not null -/
  eventsPublisher : Bool := true
  combinedName : String := ""

/-- what `node_clock_->get_clock()->now()` and `events_publisher_->publish(..)` do in a call -/
structure Publishing where
  now : Except Exception Int64 := .ok 0
  publish : Except Exception Unit := .ok ()

/-- what a call returns or throws, the map it leaves, and the event it publishes -/
structure Call (α : Type) where
  result : Except Exception α
  parameters : ParameterMap
  published : Option ParameterEvent := none

/-- `m[name]` of `std::map`: default-constructs the entry when there is none -/
def subscript (m : ParameterMap) (name : String) : ParameterMap :=
  if m.contains name then m else m.insert name {}

/-- the entry `m[name]` refers to -/
def entry (m : ParameterMap) (name : String) : ParameterInfo := m.getD name {}

/-- `__lockless_has_parameter` -/
def locklessHasParameter (m : ParameterMap) (name : String) : Bool := m.contains name

/-! ## checking and setting -/

/-- `__check_parameters`: the range check goes through `operator[]` of the map it is given -/
def checkParameters : ParameterMap → List Parameter → SetParametersResult × ParameterMap
  | infos, [] => ({ successful := true }, infos)
  | infos, p :: ps =>
    let result := checkParameterValueInRange (entry infos p.name).descriptor p.value
    if result.successful then checkParameters (subscript infos p.name) ps
    else (result, subscript infos p.name)

/-- one round of the loop that sets the values -/
def setOne (infos : ParameterMap) (p : Parameter) : ParameterMap :=
  infos.insert p.name
    { value := p.value
      descriptor := { (entry infos p.name).descriptor with name := p.name, type := p.getType } }

def setAll (infos : ParameterMap) (ps : List Parameter) : ParameterMap := ps.foldl setOne infos

/-- the verdict of the callback; no callback accepts everything -/
def callOnSet (cb : Option OnParametersSetCallback) (ps : List Parameter) :
    Except Exception SetParametersResult :=
  match cb with
  | none => .ok { successful := true }
  | some f => f ps

/-- `__set_parameters_atomically_common` -/
def setParametersAtomicallyCommon (ps : List Parameter) (infos : ParameterMap)
    (cb : Option OnParametersSetCallback) : Except Exception SetParametersResult × ParameterMap :=
  match callOnSet cb ps with
  | .error e => (.error e, infos)
  | .ok result =>
    if result.successful then
      let (result, infos) := checkParameters infos ps
      if result.successful then (.ok result, setAll infos ps) else (.ok result, infos)
    else (.ok result, infos)

/-- `__declare_parameter_common`; the entry is stored whatever the check said -/
def declareParameterCommon (name : String) (defaultValue : ParameterValue)
    (descriptor : ParameterDescriptor) (parametersOut : ParameterMap)
    (overrides : Std.ExtTreeMap String ParameterValue) (cb : Option OnParametersSetCallback)
    (event : ParameterEvent) (useOverrides : Bool) :
    Except Exception (SetParametersResult × ParameterMap × ParameterEvent) :=
  let initialValue :=
    match overrides[name]? with
    | some v => if useOverrides then v else defaultValue
    | none => defaultValue
  let infos : ParameterMap := (∅ : ParameterMap).insert name { descriptor := descriptor }
  match setParametersAtomicallyCommon [⟨name, initialValue⟩] infos cb with
  | (.error e, _) => .error e
  | (.ok result, infos) =>
    .ok (result, parametersOut.insert name (entry infos name),
      { event with newParameters := event.newParameters ++ [⟨name, initialValue⟩] })

/-! ## reading -/

/-- `NodeParameters::get_parameter`; a parameter that is not set counts as undeclared -/
def NodeParameters.getParameter (node : NodeParameters) (name : String) :
    Except Exception Parameter :=
  let undeclared : Except Exception Parameter :=
    if node.allowUndeclared then .ok ⟨"", {}⟩ else .error (.parameterNotDeclared name)
  match node.parameters[name]? with
  | some info => if info.value.type ≠ .notSet then .ok ⟨name, info.value⟩ else undeclared
  | none => undeclared

/-! ## publishing -/

/-- the event with its stamp, if it gets that far -/
def Publishing.stamped (publishing : Publishing) (event : ParameterEvent) :
    Except Exception ParameterEvent := do
  let stamp ← publishing.now
  publishing.publish
  return { event with stamp := stamp }

/-- the end of a call: publish if `events_publisher_` is not null, and return -/
def publishEvent {α : Type} (eventsPublisher : Bool) (published : Except Exception ParameterEvent)
    (result : α) (parameters : ParameterMap) : Call α :=
  if eventsPublisher then
    match published with
    | .error e => { result := .error e, parameters := parameters }
    | .ok event => { result := .ok result, parameters := parameters, published := some event }
  else { result := .ok result, parameters := parameters }

/-! ## declaring and undeclaring -/

/-- `NodeParameters::declare_parameter`; `publish` is what the publisher does -/
def NodeParameters.declareParameter (node : NodeParameters) (name : String)
    (defaultValue : ParameterValue) (descriptor : ParameterDescriptor)
    (publish : Except Exception Unit := .ok ()) : Call ParameterValue :=
  if name = "" then
    { result := .error (.invalidParameters "parameter name must not be empty")
      parameters := node.parameters }
  else if locklessHasParameter node.parameters name then
    { result := .error (.parameterAlreadyDeclared
        ("parameter '" ++ name ++ "' has already been declared"))
      parameters := node.parameters }
  else
    match declareParameterCommon name defaultValue descriptor node.parameters
        node.parameterOverrides node.onParametersSetCallback {} true with
    | .error e => { result := .error e, parameters := node.parameters }
    | .ok (result, parameters, event) =>
      if result.successful then
        publishEvent node.eventsPublisher (publish.map fun _ => event)
          (entry parameters name).value parameters
      else
        { result := .error (.invalidParameterValue
            ("parameter '" ++ name ++ "' could not be set: " ++ result.reason))
          parameters := parameters }

/-- `NodeParameters::undeclare_parameter` -/
def NodeParameters.undeclareParameter (node : NodeParameters) (name : String) : Call Unit :=
  match node.parameters[name]? with
  | none =>
    { result := .error (.parameterNotDeclared
        ("cannot undeclare parameter '" ++ name ++ "' which has not yet been declared"))
      parameters := node.parameters }
  | some info =>
    if info.descriptor.readOnly then
      { result := .error (.parameterImmutable
          ("cannot undeclare parameter '" ++ name ++ "' because it is read-only"))
        parameters := node.parameters }
    else { result := .ok (), parameters := node.parameters.erase name }

/-! ## setting atomically -/

/-- the first loop: an early exit (thrown or returned), or the parameters to be declared -/
def scanParameters (allowUndeclared : Bool) (m : ParameterMap) :
    List Parameter → Except (Except Exception SetParametersResult) (List Parameter)
  | [] => .ok []
  | p :: ps =>
    if p.name = "" then .error (.error (.invalidParameters "parameter name must not be empty"))
    else
      match m[p.name]? with
      | none =>
        if allowUndeclared then (scanParameters allowUndeclared m ps).map (p :: ·)
        else .error (.error (.parameterNotDeclared
          ("parameter '" ++ p.name ++ "' cannot be set because it was not declared")))
      | some info =>
        if info.descriptor.readOnly then
          .error (.ok { successful := false
                        reason := "parameter '" ++ p.name ++
                          "' cannot be set because it is read-only" })
        else scanParameters allowUndeclared m ps

/-- the second loop: implicit declarations go to a staging map, without the user callback -/
def stageDeclarations (overrides : Std.ExtTreeMap String ParameterValue) :
    List Parameter → ParameterMap → ParameterEvent →
      Except (Except Exception SetParametersResult) (ParameterMap × ParameterEvent)
  | [], staged, event => .ok (staged, event)
  | p :: ps, staged, event =>
    match declareParameterCommon p.name p.value {} staged overrides none event false with
    | .error e => .error (.error e)
    | .ok (result, staged, event) =>
      if result.successful then stageDeclarations overrides ps staged event
      else .error (.ok result)

/-- `__find_parameter_by_name`: the first parameter of that name -/
def findParameterByName (ps : List Parameter) (name : String) : Option Parameter :=
  ps.find? fun p => p.name = name

/-- does some first occurrence differ from the value that was staged last -/
def anyInitialValuesUsed (ps : List Parameter) (staged : ParameterMap) : Bool :=
  staged.toList.any fun kv =>
    match findParameterByName ps kv.1 with
    | some p => p.value != kv.2.value
    | none => false

def assignFirst (name : String) (v : ParameterValue) : List Parameter → List Parameter
  | [] => []
  | p :: ps => if p.name = name then ⟨name, v⟩ :: ps else p :: assignFirst name v ps

def copyStagedValues (staged : ParameterMap) (ps : List Parameter) : List Parameter :=
  staged.toList.foldl (fun ps kv => assignFirst kv.1 kv.2.value ps) ps

/-- the list that is set: the given one, or its copy with the staged values -/
def parametersToBeSet (staged : ParameterMap) (ps : List Parameter) : List Parameter :=
  if anyInitialValuesUsed ps staged then copyStagedValues staged ps else ps

/-- set parameters become undeclared by a `NOT_SET` anywhere in the list -/
def collectUndeclared (m : ParameterMap) (ps : List Parameter) : List Parameter :=
  ps.filter fun p =>
    p.getType = .notSet &&
      match m[p.name]? with
      | some info => info.value.type ≠ .notSet
      | none => false

/-- take over the infos of the implicitly declared parameters -/
def mergeStaged (m staged : ParameterMap) : ParameterMap :=
  staged.toList.foldl (fun m kv => m.insert kv.1 kv.2) m

def undeclareAll : List Parameter → ParameterMap → List Parameter → ParameterMap × List Parameter
  | [], m, deleted => (m, deleted)
  | p :: ps, m, deleted =>
    match m[p.name]? with
    | some info => undeclareAll ps (m.erase p.name) (deleted ++ [⟨p.name, info.value⟩])
    | none => undeclareAll ps m deleted

/-- the parameters that were neither declared nor undeclared -/
def changedParameters (staged : ParameterMap) (undeclared ps : List Parameter) : List Parameter :=
  ps.filter fun p => !staged.contains p.name && !undeclared.any fun q => q.name = p.name

/-- `NodeParameters::set_parameters_atomically`.  The `assert`s of the source are compiled out. -/
def NodeParameters.setParametersAtomically (node : NodeParameters) (ps : List Parameter)
    (publishing : Publishing) : Call SetParametersResult :=
  match scanParameters node.allowUndeclared node.parameters ps with
  | .error out => { result := out, parameters := node.parameters }
  | .ok toBeDeclared =>
    match stageDeclarations node.parameterOverrides toBeDeclared ∅ { node := node.combinedName } with
    | .error out => { result := out, parameters := node.parameters }
    | .ok (staged, event) =>
      let toBeSet := parametersToBeSet staged ps
      let toBeUndeclared := collectUndeclared node.parameters toBeSet
      match setParametersAtomicallyCommon toBeSet node.parameters node.onParametersSetCallback with
      | (.error e, parameters) => { result := .error e, parameters := parameters }
      | (.ok result, parameters) =>
        if result.successful then
          let (parameters, deleted) :=
            undeclareAll toBeUndeclared (mergeStaged parameters staged) []
          let event := { event with
            deletedParameters := deleted
            changedParameters := changedParameters staged toBeUndeclared toBeSet }
          publishEvent node.eventsPublisher (publishing.stamped event) result parameters
        else { result := .ok result, parameters := parameters }

/-- `NodeParameters::set_parameters`: one atomic call for each parameter, up to the first that
throws -/
def NodeParameters.setParameters (node : NodeParameters) :
    List (Parameter × Publishing) → Call (List SetParametersResult)
  | [] => { result := .ok [], parameters := node.parameters }
  | (p, publishing) :: ps =>
    let c := node.setParametersAtomically [p] publishing
    match c.result with
    | .error e => { result := .error e, parameters := c.parameters }
    | .ok r =>
      let rest := NodeParameters.setParameters { node with parameters := c.parameters } ps
      { result := rest.result.map (r :: ·), parameters := rest.parameters }

end PMROS2.Params
