import PMROS2.Lib.Runs
import PMROS2.Params.Declare

/-!
# Who follows the parameter events of a node

`/parameter_events` carries the events of all nodes.  An observer of one node takes the events
with the name of that node and looks for its parameters with a `ParameterEventsFilter`, as
`TimeSource::on_parameter_event` does.  `set_parameters_atomically` puts the name of the node into
its event, `declare_parameter` publishes one without it, and `undeclare_parameter` publishes none;
where the clock or the publisher throws, the value has changed already.

* `Observed.step`          a call on the node with the events it publishes, or an event of another;
* `InStep`                 the observer has the values that `get_parameter` returns;
* `Silenced`               the calls that throw between a change and its event;
* `Unheard`                the calls that change a value without an event the observer takes;
* `observer_in_step_iff`   the observer is in step along a run exactly when there are none.
-/

namespace PMROS2.Params
open Std PMROS2.Writes PMROS2.Runs

/-! ## the filter of events -/

/-- `ParameterEventsFilter::EventType` -/
inductive EventType where
  | new
  | deleted
  | changed
  deriving DecidableEq

/-- `ParameterEventsFilter`: what `get_events` returns -/
def parameterEventsFilter (event : ParameterEvent) (names : List String)
    (types : List EventType) : List (EventType × Parameter) :=
  let ofType (type : EventType) (ps : List Parameter) : List (EventType × Parameter) :=
    if types.contains type then
      (ps.filter fun p => names.contains p.name).map fun p => (type, p)
    else []
  ofType .new event.newParameters ++ ofType .changed event.changedParameters ++
    ofType .deleted event.deletedParameters

/-! ## the events of a call -/

/-- the events of `set_parameters` -/
def NodeParameters.publishedBySet (node : NodeParameters) :
    List (Parameter × Publishing) → List ParameterEvent
  | [] => []
  | (p, publishing) :: ps =>
    let c := node.setParametersAtomically [p] publishing
    c.published.toList ++
      match c.result with
      | .error _ => []
      | .ok _ => NodeParameters.publishedBySet { node with parameters := c.parameters } ps

/-- the events that a call hands to the publisher -/
def NodeParameters.published (node : NodeParameters) : Op → List ParameterEvent
  | .declare name v d publish => (node.declareParameter name v d publish).published.toList
  | .undeclare name => (node.undeclareParameter name).published.toList
  | .set ps => node.publishedBySet ps
  | .setAtomically ps publishing =>
    (node.setParametersAtomically ps publishing).published.toList
  | .setOnParametersSetCallback _ => []

def setValue (v : Option ParameterValue) : Option ParameterValue :=
  v.filter fun v => v.type ≠ .notSet

theorem setValue_of_notSet {v : ParameterValue} (h : v.type = .notSet) :
    setValue (some v) = none := Option.filter_some_neg (by simp [h])

theorem setValue_of_set {v : ParameterValue} (h : v.type ≠ .notSet) :
    setValue (some v) = some v := Option.filter_some_pos (by simp [h])

/-- `NodeParameters::get_parameter(name, parameter)`: the value, where it returns `true` -/
def valueIn (m : ParameterMap) (name : String) : Option ParameterValue :=
  setValue (m[name]?.map ParameterInfo.value)

/-! ## the observer -/

/-- the values an observer has noted -/
abbrev Copy := ExtTreeMap String ParameterValue

/-- one entry of the filter -/
def note (copy : Copy) : EventType × Parameter → Copy
  | (.new, p) | (.changed, p) => copy.insert p.name p.value
  | (.deleted, p) => copy.erase p.name

/-- an event arrives at an observer of the parameters `names` of the node `node` -/
def observe (node : String) (names : List String) (copy : Copy) (event : ParameterEvent) : Copy :=
  if event.node ≠ node then copy
  else (parameterEventsFilter event names [.new, .changed, .deleted]).foldl note copy

structure Observed where
  node : NodeParameters
  copy : Copy := ∅

inductive Happening where
  | call (op : Op)
  /-- an event that is not from the node -/
  | other (event : ParameterEvent)

def Observed.step (names : List String) (s : Observed) : Happening → Option Observed
  | .call op => some
    { node := s.node.after op
      copy := (s.node.published op).foldl (observe s.node.combinedName names) s.copy }
  | .other event =>
    if event.node = s.node.combinedName then none
    else some { s with copy := observe s.node.combinedName names s.copy event }

/-- a node that publishes its events and has declared nothing yet -/
def Observed.start (node : NodeParameters) : Observed :=
  { node := { node.fresh with eventsPublisher := true } }

/-- the observer has the values that `get_parameter` returns -/
def InStep (names : List String) (s : Observed) : Prop :=
  ∀ a ∈ names, setValue s.copy[a]? = valueIn s.node.parameters a

/-- a call that changes the value of a parameter in `names`, and throws before its event is out -/
structure Silenced (names : List String) (node : NodeParameters) (ps : List Parameter)
    (publishing : Publishing) : Prop where
  passes : Passes node ps
  throws : ¬ publishing.Succeeds node.eventsPublisher
  changes : ∃ a ∈ names, Unsets ps node.parameters a ∨
    ∃ p, lastOf a ps = some p ∧ setValue (some p.value) ≠ valueIn node.parameters a

/-- the call for one of the parameters of `set_parameters` is -/
inductive SilencedInSet (names : List String) :
    NodeParameters → List (Parameter × Publishing) → Prop
  | here {node : NodeParameters} {p : Parameter} {publishing : Publishing}
      {ps : List (Parameter × Publishing)} (h : Silenced names node [p] publishing) :
      SilencedInSet names node ((p, publishing) :: ps)
  | later {node : NodeParameters} {p : Parameter} {publishing : Publishing}
      {ps : List (Parameter × Publishing)} {r : SetParametersResult}
      (hok : (node.setParametersAtomically [p] publishing).result = .ok r)
      (h : SilencedInSet names
        { node with parameters := (node.setParametersAtomically [p] publishing).parameters } ps) :
      SilencedInSet names node ((p, publishing) :: ps)

/-- a call that gives, takes or changes the value of a parameter in `names` without an event of the
node; a declaration is one whatever comes of publishing it -/
inductive Unheard (names : List String) (s : Observed) : Happening → Prop
  | declare (name : String) (v : ParameterValue) (d : ParameterDescriptor)
      (publish : Except Exception Unit) (hname : name ∈ names)
      (hset : (s.node.initialValue name v).type ≠ .notSet) {value : ParameterValue}
      (hok : (s.node.declareParameter name v d).result = .ok value) :
      Unheard names s (.call (.declare name v d publish))
  | undeclare (name : String) (hname : name ∈ names)
      (hset : valueIn s.node.parameters name ≠ none)
      (hok : (s.node.undeclareParameter name).result = .ok ()) :
      Unheard names s (.call (.undeclare name))
  | set (ps : List (Parameter × Publishing)) (h : SilencedInSet names s.node ps) :
      Unheard names s (.call (.set ps))
  | setAtomically (ps : List Parameter) (publishing : Publishing)
      (h : Silenced names s.node ps publishing) :
      Unheard names s (.call (.setAtomically ps publishing))

/-! ## what an event does to a copy -/

section
variable {node : String} {names : List String} {a : String}

theorem foldl_note_insert (type : EventType) (htype : type ≠ .deleted) (ps : List Parameter)
    (copy : Copy) : (ps.map fun p => (type, p)).foldl note copy =
      ps.foldl (fun copy p => copy.insert p.name p.value) copy := by
  rw [List.foldl_map]
  cases type with
  | new => rfl
  | changed => rfl
  | deleted => exact absurd rfl htype

theorem lastOf_filter_names (ha : a ∈ names) (ps : List Parameter) :
    lastOf a (ps.filter fun p => names.contains p.name) = lastOf a ps :=
  lastBy_filter fun p _ hp => by rw [hp]; exact List.contains_iff_mem.mpr ha

/-- the last entry of a name counts, and a deleted name is gone -/
theorem observe_getElem? {event : ParameterEvent} (hnode : event.node = node) (ha : a ∈ names)
    (copy : Copy) : (observe node names copy event)[a]? =
      if a ∈ event.deletedParameters.map Parameter.name then none
      else ((lastOf a (event.newParameters ++ event.changedParameters)).map Parameter.value).or
        copy[a]? := by
  have hmem : a ∈ (event.deletedParameters.filter fun p => names.contains p.name).map
      Parameter.name ↔ a ∈ event.deletedParameters.map Parameter.name := by
    rw [List.mem_map, List.mem_map]
    constructor
    · rintro ⟨p, hp, hpa⟩
      exact ⟨p, (List.mem_filter.mp hp).1, hpa⟩
    · rintro ⟨p, hp, rfl⟩
      exact ⟨p, List.mem_filter.mpr ⟨hp, List.contains_iff_mem.mpr ha⟩, rfl⟩
  have hlast : lastOf a (event.newParameters ++ event.changedParameters) =
      (lastOf a (event.changedParameters.filter fun p => names.contains p.name)).or
        (lastOf a (event.newParameters.filter fun p => names.contains p.name)) := by
    rw [lastOf_filter_names ha, lastOf_filter_names ha]
    exact lastBy_append ..
  have hdel : ∀ (ps : List Parameter) (copy : Copy),
      (ps.map fun p => (EventType.deleted, p)).foldl note copy =
        ps.foldl (fun copy p => copy.erase p.name) copy := fun ps copy => List.foldl_map ..
  unfold observe parameterEventsFilter
  rw [if_neg (not_not_intro hnode)]
  simp only [show [EventType.new, .changed, .deleted].contains .new = true from rfl,
    show [EventType.new, .changed, .deleted].contains .changed = true from rfl,
    show [EventType.new, .changed, .deleted].contains .deleted = true from rfl, if_true]
  rw [List.foldl_append, List.foldl_append, hdel, foldl_note_insert .changed (by decide),
    foldl_note_insert .new (by decide), getElem?_foldl_erase Parameter.name,
    getElem?_foldl_insert Parameter.name, getElem?_foldl_insert Parameter.name, ← Option.or_assoc,
    ← Option.map_or, hlast]
  simp only [hmem]

/-! ## calls and the events they publish -/

/-- the events bring a copy that is in step with `m` in step with `m'` -/
def Carries (node : String) (names : List String) (m m' : ParameterMap)
    (events : List ParameterEvent) : Prop :=
  ∀ copy : Copy, (∀ a ∈ names, setValue copy[a]? = valueIn m a) →
    ∀ a ∈ names, setValue (events.foldl (observe node names) copy)[a]? = valueIn m' a

theorem carries_nil {m m' : ParameterMap} (h : ∀ a ∈ names, valueIn m' a = valueIn m a) :
    Carries node names m m' [] := fun _ hcopy a ha => (hcopy a ha).trans (h a ha).symm

theorem Carries.append {m m' m'' : ParameterMap} {events events' : List ParameterEvent}
    (h : Carries node names m m' events) (h' : Carries node names m' m'' events') :
    Carries node names m m'' (events ++ events') := by
  intro copy hcopy
  rw [List.foldl_append]
  exact h' _ (h copy hcopy)

/-- the events leave every copy that is in step with `m` out of step with `m'` -/
def Loses (node : String) (names : List String) (m m' : ParameterMap)
    (events : List ParameterEvent) : Prop :=
  ∀ copy : Copy, (∀ a ∈ names, setValue copy[a]? = valueIn m a) →
    ∃ a ∈ names, setValue (events.foldl (observe node names) copy)[a]? ≠ valueIn m' a

theorem loses_nil {m m' : ParameterMap} (h : ∃ a ∈ names, valueIn m' a ≠ valueIn m a) :
    Loses node names m m' [] := by
  intro copy hcopy
  obtain ⟨a, ha, hne⟩ := h
  refine ⟨a, ha, fun heq => hne ?_⟩
  rw [← heq]
  exact hcopy a ha

theorem Carries.loses {m m' m'' : ParameterMap} {events events' : List ParameterEvent}
    (h : Carries node names m m' events) (h' : Loses node names m' m'' events') :
    Loses node names m m'' (events ++ events') := by
  intro copy hcopy
  rw [List.foldl_append]
  exact h' _ (h copy hcopy)

end

theorem valueIn_of_entry {m m' : ParameterMap} {a : String}
    (h : (entry m' a).value = (entry m a).value) : valueIn m' a = valueIn m a := by
  have hvalue : ∀ m : ParameterMap, valueIn m a = setValue (some (entry m a).value) := fun m => by
    unfold valueIn
    rw [entry_eq]
    cases m[a]? with
    | none => rfl
    | some info => rfl
  rw [hvalue, hvalue, h]

section
variable (node : NodeParameters) (ps : List Parameter) (publishing : Publishing)

theorem published_of_failed (h : (node.setParametersAtomically ps publishing).succeeded = false) :
    (node.setParametersAtomically ps publishing).published = none := by
  revert h
  unfold NodeParameters.setParametersAtomically
  cases scanParameters node.allowUndeclared node.parameters ps with
  | error out => exact fun _ => rfl
  | ok d =>
    simp only
    cases stageDeclarations node.parameterOverrides d ∅ { node := node.combinedName } with
    | error out => exact fun _ => rfl
    | ok out =>
      obtain ⟨staged, event⟩ := out
      simp only
      rcases setParametersAtomicallyCommon (parametersToBeSet staged ps) node.parameters
        node.onParametersSetCallback with ⟨out, parameters⟩
      cases out with
      | error e => exact fun _ => rfl
      | ok result =>
        cases hr : result.successful with
        | false =>
          simp only [hr, Bool.false_eq_true, if_false, implies_true]
        | true =>
          simp only [hr, if_true]
          rcases publishEvent_cases publishing node.eventsPublisher with ⟨_, _, he⟩ | ⟨_, _, he⟩
          · rw [he]
            exact fun h => absurd (h.symm.trans hr) Bool.false_ne_true
          · rw [he]
            exact fun _ => rfl

theorem valueIn_of_not_passes (h : ¬ Passes node ps) (a : String) :
    valueIn (node.setParametersAtomically ps publishing).parameters a =
      valueIn node.parameters a := by
  by_cases hadm : AllAdmitted node ps
  case neg => rw [(setParametersAtomically_of_not_admitted node ps publishing hadm).2]
  cases hcb : callbackAccepts node.onParametersSetCallback (handedOver node.parameters ps) with
  | false => rw [(setParametersAtomically_of_rejected node ps publishing hadm hcb).2]
  | true =>
    cases hr : ps.all (inRange node.parameters) with
    | false =>
      rw [(setParametersAtomically_of_outOfRange node ps publishing hadm hcb hr).2]
      exact valueIn_of_entry (congrArg _ (entry_checkParameters_snd ..))
    | true => exact absurd ⟨hadm, hcb, hr⟩ h

theorem valueIn_of_passes (h : Passes node ps) (a : String) :
    (Unsets ps node.parameters a →
      valueIn (node.setParametersAtomically ps publishing).parameters a = none) ∧
    (¬ Unsets ps node.parameters a →
      valueIn (node.setParametersAtomically ps publishing).parameters a =
        (lastOf a ps).elim (valueIn node.parameters a) fun p => setValue (some p.value)) := by
  have hget := setParametersAtomically_getElem? node ps publishing h a
  unfold valueIn
  constructor
  · intro hu
    rw [hget.1 hu]
    rfl
  · intro hu
    rw [hget.2 hu]
    cases lastOf a ps with
    | none => rfl
    | some p => rfl

theorem wasSet_valueIn {m : ParameterMap} {a : String} (h : wasSet m a) : valueIn m a ≠ none := by
  obtain ⟨info, hinfo, hset⟩ := h
  unfold valueIn
  rw [hinfo, Option.map_some, setValue_of_set hset]
  exact Option.some_ne_none _

theorem valueIn_ne_iff (h : Passes node ps) (a : String) :
    valueIn (node.setParametersAtomically ps publishing).parameters a ≠ valueIn node.parameters a ↔
      Unsets ps node.parameters a ∨
        ∃ p, lastOf a ps = some p ∧ setValue (some p.value) ≠ valueIn node.parameters a := by
  obtain ⟨hunset, hkept⟩ := valueIn_of_passes node ps publishing h a
  by_cases hu : Unsets ps node.parameters a
  · rw [hunset hu]
    exact iff_of_true (wasSet_valueIn hu.1).symm (.inl hu)
  · rw [hkept hu, or_iff_right hu]
    cases lastOf a ps with
    | none => simp
    | some p => simp

theorem carries_setParametersAtomically (names : List String)
    (hpub : node.eventsPublisher = true) (hc : ¬ Silenced names node ps publishing) :
    Carries node.combinedName names node.parameters
      (node.setParametersAtomically ps publishing).parameters
      (node.setParametersAtomically ps publishing).published.toList := by
  cases hs : (node.setParametersAtomically ps publishing).succeeded with
  | false =>
    rw [published_of_failed node ps publishing hs]
    apply carries_nil
    intro a ha
    by_cases hp : Passes node ps
    · -- it has thrown behind the checks
      have hthrows : ¬ publishing.Succeeds node.eventsPublisher := fun hok =>
        Bool.eq_false_iff.mp hs ((succeeded_iff_passes node ps publishing).mpr ⟨hp, hok⟩)
      by_contra hne
      exact hc ⟨hp, hthrows, a, ha, (valueIn_ne_iff node ps publishing hp a).mp hne⟩
    · exact valueIn_of_not_passes node ps publishing hp a
  | true =>
    obtain ⟨hp, hok⟩ := (succeeded_iff_passes node ps publishing).mp hs
    obtain ⟨stamp, he⟩ := (passes_of_succeeds node ps publishing hp hok).2
    rw [he, hpub, if_pos rfl]
    intro copy hcopy a ha
    rw [Option.toList_some, List.foldl_cons, List.foldl_nil,
      @observe_getElem? node.combinedName names a _ rfl ha]
    obtain ⟨hunset, hkept⟩ := valueIn_of_passes node ps publishing hp a
    by_cases hu : Unsets ps node.parameters a
    · rw [if_pos ((mem_deletedParameters node ps hp stamp a).mpr hu), hunset hu]
      rfl
    · rw [if_neg fun h => hu ((mem_deletedParameters node ps hp stamp a).mp h), hkept hu,
        lastOf_settledEvent node ps stamp a hu]
      cases lastOf a ps with
      | none => exact hcopy a ha
      | some p => rfl

theorem Silenced.throws_call {names : List String} (h : Silenced names node ps publishing) :
    (∃ e, (node.setParametersAtomically ps publishing).result = .error e) ∧
      (node.setParametersAtomically ps publishing).published = none :=
  passes_of_not_succeeds node ps publishing h.passes h.throws

theorem Silenced.loses {names : List String} (h : Silenced names node ps publishing) :
    Loses node.combinedName names node.parameters
      (node.setParametersAtomically ps publishing).parameters
      (node.setParametersAtomically ps publishing).published.toList := by
  rw [(h.throws_call node ps publishing).2]
  obtain ⟨a, ha, hchange⟩ := h.changes
  exact loses_nil ⟨a, ha, (valueIn_ne_iff node ps publishing h.passes a).mpr hchange⟩

theorem not_silenced_of_ok {names : List String} {r : SetParametersResult}
    (h : (node.setParametersAtomically ps publishing).result = .ok r) :
    ¬ Silenced names node ps publishing := by
  intro hs
  obtain ⟨⟨e, he⟩, _⟩ := hs.throws_call node ps publishing
  rw [h] at he
  cases he

theorem carries_publishedBySet (names : List String) (ps : List (Parameter × Publishing))
    (hpub : node.eventsPublisher = true) (hc : ¬ SilencedInSet names node ps) :
    Carries node.combinedName names node.parameters (node.setParameters ps).parameters
      (node.publishedBySet ps) := by
  induction ps generalizing node with
  | nil => exact carries_nil fun _ _ => rfl
  | cons p ps ih =>
    obtain ⟨p, publishing⟩ := p
    have hone := carries_setParametersAtomically node [p] publishing names hpub
      fun h => hc (.here h)
    unfold NodeParameters.setParameters NodeParameters.publishedBySet
    simp only
    cases hr : (node.setParametersAtomically [p] publishing).result with
    | error e =>
      rw [List.append_nil]
      exact hone
    | ok r => exact hone.append (ih { node with parameters := _ } hpub fun h => hc (.later hr h))

theorem SilencedInSet.loses {names : List String} {ps : List (Parameter × Publishing)}
    {node : NodeParameters} (hpub : node.eventsPublisher = true)
    (h : SilencedInSet names node ps) :
    Loses node.combinedName names node.parameters (node.setParameters ps).parameters
      (node.publishedBySet ps) := by
  induction h with
  | here h =>
    obtain ⟨⟨e, he⟩, _⟩ := h.throws_call
    have hlost := h.loses
    unfold NodeParameters.setParameters NodeParameters.publishedBySet
    simp only [he, List.append_nil]
    exact hlost
  | @later node p publishing ps r hok _ ih =>
    have hone := carries_setParametersAtomically node [p] publishing names hpub
      (not_silenced_of_ok node [p] publishing hok)
    unfold NodeParameters.setParameters NodeParameters.publishedBySet
    simp only [hok]
    exact hone.loses (ih hpub)

theorem publishEvent_published {α : Type} {eventsPublisher : Bool}
    {published : Except Exception ParameterEvent} {result : α} {parameters : ParameterMap}
    {event : ParameterEvent}
    (h : (publishEvent eventsPublisher published result parameters).published = some event) :
    published = .ok event := by
  unfold publishEvent at h
  split at h
  · split at h
    · cases h
    · rw [Option.some.inj h]
  · cases h

/-- an entry without a value is as good as none -/
theorem valueIn_insert_of_notSet {m : ParameterMap} {name : String} (hnone : m[name]? = none)
    {info : ParameterInfo} (hinfo : info.value.type = .notSet) (a : String) :
    valueIn (m.insert name info) a = valueIn m a := by
  unfold valueIn
  rw [getElem?_insert_if]
  split
  · rename_i ha
    rw [← ha, hnone, Option.map_some, setValue_of_notSet hinfo]
    rfl
  · rfl

/-- a declaration stores its initial value, and an event that it publishes has not the name of the
node; or it is turned down, without an event and without a value -/
theorem declareParameter_cases (name : String) (v : ParameterValue) (d : ParameterDescriptor)
    (publish : Except Exception Unit) :
    ((∃ e, (node.declareParameter name v d).result = .error e) ∧
      (node.declareParameter name v d publish).published = none ∧
      ∀ a, valueIn (node.declareParameter name v d publish).parameters a =
        valueIn node.parameters a) ∨
    ((∃ value, (node.declareParameter name v d).result = .ok value) ∧
      node.parameters[name]? = none ∧
      (∀ event, (node.declareParameter name v d publish).published = some event →
        event.node = "") ∧
      ∃ info : ParameterInfo, info.value = node.initialValue name v ∧
        (node.declareParameter name v d publish).parameters =
          node.parameters.insert name info) := by
  unfold NodeParameters.declareParameter locklessHasParameter
  by_cases hname : name = ""
  · rw [if_pos hname, if_pos hname]
    exact .inl ⟨⟨_, rfl⟩, rfl, fun _ => rfl⟩
  rw [if_neg hname, if_neg hname]
  cases hnew : node.parameters.contains name with
  | true =>
    rw [if_pos rfl, if_pos rfl]
    exact .inl ⟨⟨_, rfl⟩, rfl, fun _ => rfl⟩
  | false =>
    have hnone : node.parameters[name]? = none :=
      ExtTreeMap.getElem?_eq_none_of_contains_eq_false hnew
    have hentry : entry ((∅ : ParameterMap).insert name { descriptor := d }) name
        = { descriptor := d } := by
      rw [entry_eq, getElem?_insert_if, if_pos rfl]
      rfl
    rw [if_neg Bool.false_ne_true, if_neg Bool.false_ne_true, declareParameterCommon_eq]
    cases hcb : callbackAccepts node.onParametersSetCallback
        [⟨name, node.initialValue name v⟩] with
    | false =>
      obtain ⟨out, hout, hfail⟩ := common_of_rejected
        ((∅ : ParameterMap).insert name { descriptor := d }) _ _ hcb
      rw [hout]
      cases out with
      | error e => exact .inl ⟨⟨_, rfl⟩, rfl, fun _ => rfl⟩
      | ok r =>
        simp only [hfail r rfl, Bool.false_eq_true, if_false]
        exact .inl ⟨⟨_, rfl⟩, trivial, valueIn_insert_of_notSet hnone (by rw [hentry])⟩
    | true =>
      rw [common_of_accepted _ _ _ hcb]
      have hfst := checkParameters_fst ((∅ : ParameterMap).insert name { descriptor := d })
        [⟨name, node.initialValue name v⟩]
      cases hr : [(⟨name, node.initialValue name v⟩ : Parameter)].all
          (inRange ((∅ : ParameterMap).insert name { descriptor := d })) with
      | false =>
        rw [hr] at hfst
        simp only [hfst, Bool.false_eq_true, if_false]
        refine .inl ⟨⟨_, rfl⟩, trivial, valueIn_insert_of_notSet hnone ?_⟩
        rw [entry_checkParameters_snd, hentry]
      | true =>
        rw [hr] at hfst
        simp only [hfst, if_true, Except.map, publishEvent_ok, publishEvent_parameters]
        refine .inr ⟨⟨_, rfl⟩, hnone, ?_, _, ?_, rfl⟩
        · intro event hevent
          have hpublished := publishEvent_published hevent
          cases publish with
          | error e => cases hpublished
          | ok u => rw [← Except.ok.inj hpublished]
        · rw [entry_eq, setAll_checkParameters_getElem? _ _ _ hr,
            show lastOf name [⟨name, node.initialValue name v⟩] =
              some ⟨name, node.initialValue name v⟩ by simp [lastBy]]
          rfl

theorem undeclareParameter_cases (name : String) :
    (node.undeclareParameter name).published = none ∧
    ((node.undeclareParameter name).result = .ok () ∧
        (node.undeclareParameter name).parameters = node.parameters.erase name ∨
      (node.undeclareParameter name).result ≠ .ok () ∧
        (node.undeclareParameter name).parameters = node.parameters) := by
  unfold NodeParameters.undeclareParameter
  cases node.parameters[name]? with
  | none => exact ⟨rfl, .inr ⟨(by simp), rfl⟩⟩
  | some info =>
    simp only
    split
    · exact ⟨rfl, .inr ⟨(by simp), rfl⟩⟩
    · exact ⟨rfl, .inl ⟨rfl, rfl⟩⟩

end

/-! ## runs -/

/-- what every call leaves as it is -/
structure Publishes (s : Observed) : Prop where
  publisher : s.node.eventsPublisher = true
  name : s.node.combinedName ≠ ""

theorem after_combinedName (node : NodeParameters) (op : Op) :
    (node.after op).combinedName = node.combinedName := by
  cases op <;> rfl

theorem after_eventsPublisher (node : NodeParameters) (op : Op) :
    (node.after op).eventsPublisher = node.eventsPublisher := by
  cases op <;> rfl

section
variable {names : List String} {s s' : Observed} {h : Happening}

theorem Publishes.step (hs : Publishes s) (hstep : Observed.step names s h = some s') :
    Publishes s' := by
  cases h with
  | call op =>
    obtain rfl := Option.some.inj hstep
    exact ⟨(after_eventsPublisher s.node op).trans hs.publisher,
      by rw [after_combinedName]; exact hs.name⟩
  | other event =>
    unfold Observed.step at hstep
    simp only at hstep
    split at hstep
    · cases hstep
    · obtain rfl := Option.some.inj hstep
      exact ⟨hs.publisher, hs.name⟩

theorem observe_of_ne {node : String} {event : ParameterEvent} (hne : event.node ≠ node)
    (copy : Copy) : observe node names copy event = copy := if_pos hne

theorem foldl_observe_declare (hs : Publishes s) (name : String) (v : ParameterValue)
    (d : ParameterDescriptor) (publish : Except Exception Unit)
    (hevent : ∀ event, (s.node.declareParameter name v d publish).published = some event →
      event.node = "") (copy : Copy) :
    (s.node.published (.declare name v d publish)).foldl (observe s.node.combinedName names) copy =
      copy := by
  unfold NodeParameters.published
  simp only
  cases hp : (s.node.declareParameter name v d publish).published with
  | none => rfl
  | some event =>
    rw [Option.toList_some, List.foldl_cons, List.foldl_nil]
    exact observe_of_ne (by rw [hevent event hp]; exact hs.name.symm) copy

theorem inStep_call (hs : Publishes s) (hin : InStep names s) (op : Op)
    (hc : ¬ Unheard names s (.call op))
    (hstep : Observed.step names s (.call op) = some s') : InStep names s' := by
  obtain rfl := Option.some.inj hstep
  cases op with
  | declare name v d publish =>
    intro a ha
    rcases declareParameter_cases s.node name v d publish with ⟨_, hpub, hkeep⟩ |
      ⟨⟨value, hok⟩, hnone, hevent, info, hinfo, hparams⟩
    · refine Eq.trans ?_ ((hin a ha).trans (hkeep a).symm)
      simp only [NodeParameters.published, hpub, Option.toList_none, List.foldl_nil]
    · rw [foldl_observe_declare hs name v d publish hevent, hin a ha]
      change _ = valueIn (s.node.declareParameter name v d publish).parameters a
      rw [hparams]
      unfold valueIn
      rw [getElem?_insert_if]
      split
      · -- a name of the observer is declared without a value
        rename_i hname
        subst hname
        have hunset : (s.node.initialValue name v).type = .notSet := by
          by_contra hset
          exact hc (.declare name v d publish ha hset hok)
        rw [hnone, Option.map_some, hinfo, setValue_of_notSet hunset]
        rfl
      · rfl
  | undeclare name =>
    intro a ha
    obtain ⟨hpub, h⟩ := undeclareParameter_cases s.node name
    simp only [NodeParameters.published, hpub, Option.toList_none, List.foldl_nil]
    rw [hin a ha]
    change _ = valueIn (s.node.undeclareParameter name).parameters a
    rcases h with ⟨hok, hparams⟩ | ⟨_, hparams⟩
    · rw [hparams]
      by_cases hname : name = a
      · subst hname
        have hunset : valueIn s.node.parameters name = none := by
          by_contra hset
          exact hc (.undeclare name ha hset hok)
        rw [hunset]
        unfold valueIn
        rw [getElem?_erase_if, if_pos rfl]
        rfl
      · unfold valueIn
        rw [getElem?_erase_if, if_neg hname]
    · rw [hparams]
  | set ps =>
    exact carries_publishedBySet s.node names ps hs.publisher (fun h => hc (.set ps h)) s.copy hin
  | setAtomically ps publishing =>
    exact carries_setParametersAtomically s.node ps publishing names hs.publisher
      (fun h => hc (.setAtomically ps publishing h)) s.copy hin
  | setOnParametersSetCallback cb => exact hin

theorem inStep_step (hs : Publishes s) (hin : InStep names s) (hc : ¬ Unheard names s h)
    (hstep : Observed.step names s h = some s') : InStep names s' := by
  cases h with
  | call op => exact inStep_call hs hin op hc hstep
  | other event =>
    unfold Observed.step at hstep
    simp only at hstep
    split at hstep
    · cases hstep
    · rename_i hne
      obtain rfl := Option.some.inj hstep
      intro a ha
      simp only [observe_of_ne hne]
      exact hin a ha

theorem not_inStep_of_unheard (hs : Publishes s) (hin : InStep names s) (hc : Unheard names s h)
    (hstep : Observed.step names s h = some s') : ¬ InStep names s' := by
  cases hc with
  | declare name v d publish hname hset hok =>
    obtain rfl := Option.some.inj hstep
    rcases declareParameter_cases s.node name v d publish with ⟨⟨e, he⟩, _⟩ |
      ⟨_, hnone, hevent, info, hinfo, hparams⟩
    · rw [hok] at he
      cases he
    · intro hin'
      have h := hin' name hname
      simp only [foldl_observe_declare hs name v d publish hevent] at h
      rw [hin name hname] at h
      change _ = valueIn (s.node.declareParameter name v d publish).parameters name at h
      rw [hparams] at h
      unfold valueIn at h
      rw [getElem?_insert_if, if_pos rfl, hnone, Option.map_some, hinfo,
        setValue_of_set hset] at h
      cases h
  | undeclare name hname hset hok =>
    obtain rfl := Option.some.inj hstep
    obtain ⟨hpub, h⟩ := undeclareParameter_cases s.node name
    rcases h with ⟨_, hparams⟩ | ⟨hne, _⟩
    · intro hin'
      have h := hin' name hname
      simp only [NodeParameters.published, hpub, Option.toList_none, List.foldl_nil] at h
      rw [hin name hname] at h
      change _ = valueIn (s.node.undeclareParameter name).parameters name at h
      rw [hparams] at h
      apply hset
      rw [h]
      unfold valueIn
      rw [getElem?_erase_if, if_pos rfl]
      rfl
    · exact absurd hok hne
  | set ps h =>
    obtain rfl := Option.some.inj hstep
    intro hin'
    obtain ⟨a, ha, hne⟩ := h.loses hs.publisher s.copy hin
    exact hne (hin' a ha)
  | setAtomically ps publishing h =>
    obtain rfl := Option.some.inj hstep
    intro hin'
    obtain ⟨a, ha, hne⟩ := (h.loses s.node ps publishing) s.copy hin
    exact hne (hin' a ha)

end

/-- **An observer follows the node**, through any calls and any events of other nodes, exactly as
long as no value of its parameters comes from `declare_parameter`, goes with `undeclare_parameter`, or
is changed by a call that throws before its event is out. -/
theorem observer_in_step_iff (node : NodeParameters) (names : List String)
    (happenings : List Happening) (hname : node.combinedName ≠ "") :
    Always (Observed.step names) (InStep names) (.start node) happenings ↔
      Along (Observed.step names) (fun s h _ => ¬ Unheard names s h) (.start node) happenings := by
  refine always_iff_along (I := fun s => Publishes s ∧ InStep names s) (fun s hs => hs.2)
    (fun s h s' hs hstep hc => ⟨hs.1.step hstep, inStep_step hs.1 hs.2 hc hstep⟩)
    (fun s h s' hs hstep hc => not_inStep_of_unheard hs.1 hs.2 (not_not.mp hc) hstep)
    happenings _ ⟨⟨rfl, hname⟩, fun a _ => ?_⟩
  unfold Observed.start NodeParameters.fresh valueIn
  simp only [ExtTreeMap.getElem?_empty]
  rfl

/-- a node that takes undeclared parameters: the observer hears of `a` -/
theorem observer_in_step_iff_set :
    ({ combinedName := "/n", allowUndeclared := true } : NodeParameters).combinedName ≠ "" ∧
    Always (Observed.step ["a"]) (InStep ["a"])
      (.start { combinedName := "/n", allowUndeclared := true })
      [.call (.setAtomically [⟨"a", .ofInt 1⟩] {})] := by
  refine ⟨by decide, (observer_in_step_iff _ _ _ (by decide)).mpr fun _ _ => ⟨?_, trivial⟩⟩
  rintro (_ | _ | _ | ⟨_, _, h⟩)
  exact h.throws fun _ => ⟨⟨0, rfl⟩, rfl⟩

end PMROS2.Params
