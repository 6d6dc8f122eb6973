import Mathlib.Data.List.Nodup

/-!
# The lifecycle state machine

`rcl_lifecycle` keeps a table of states, each with the transitions that may be taken from it, and
a pointer to the current state.  A pointer into the table is the index of the state; `none` is
the null pointer.  The numeric ids of states and transitions are the constants of the package
`lifecycle_msgs`, which is not part of the repository: they are a parameter `Ids`.

* `registerState`, `registerTransition`     building the table;
* `initDefaultStateMachine`                 the eleven states and twenty-five transitions;
* `triggerTransitionById`, `...ByLabel`     one move of the machine.
-/

namespace PMROS2.Lifecycle

/-! ## ids -/

/-- the constants of `lifecycle_msgs/msg/State` -/
inductive StateName
  | unknown | unconfigured | inactive | active | finalized
  | configuring | cleaningup | shuttingdown | activating | deactivating | errorprocessing
  deriving DecidableEq, Repr

/-- the constants of `lifecycle_msgs/msg/Transition` the default machine registers -/
inductive TransitionName
  | configure | onConfigureSuccess | onConfigureFailure | onConfigureError
  | cleanup | onCleanupSuccess | onCleanupFailure | onCleanupError
  | activate | onActivateSuccess | onActivateFailure | onActivateError
  | deactivate | onDeactivateSuccess | onDeactivateFailure | onDeactivateError
  | unconfiguredShutdown | inactiveShutdown | activeShutdown
  | onShutdownSuccess | onShutdownFailure | onShutdownError
  | onErrorSuccess | onErrorFailure | onErrorError
  deriving DecidableEq, Repr

/-- the values of the constants: different constants of one message have different values -/
structure Ids where
  state : StateName → UInt8
  transition : TransitionName → UInt8
  state_injective : Function.Injective state
  transition_injective : Function.Injective transition

/-! ## the table -/

structure Transition where
  label : List Char
  id : UInt8
  start : Option Nat
  goal : Option Nat
  deriving DecidableEq, Repr

structure State where
  label : List Char
  id : UInt8
  validTransitions : List Transition
  deriving DecidableEq, Repr

structure TransitionMap where
  states : List State
  transitions : List Transition
  deriving DecidableEq, Repr

inductive Error
  | stateAlreadyRegistered (id : UInt8)
  | stateNotRegistered
  deriving DecidableEq, Repr

/-- `rcl_lifecycle_get_state` -/
def getState (map : TransitionMap) (id : UInt8) : Option Nat :=
  map.states.findIdx? fun s => s.id == id

/-- `rcl_lifecycle_register_state` -/
def registerState (map : TransitionMap) (s : State) : Except Error TransitionMap :=
  match getState map s.id with
  | some _ => .error (.stateAlreadyRegistered s.id)
  | none => .ok { map with states := map.states ++ [s] }

/-- `rcl_lifecycle_register_transition`: the transition goes to the end of the map's array and,
once more, to the end of its start state's own array -/
def registerTransition (map : TransitionMap) (t : Transition) : Except Error TransitionMap :=
  match t.start.bind fun i => map.states[i]?.bind fun s => getState map s.id with
  | none => .error .stateNotRegistered
  | some i =>
    .ok { states := map.states.modify i fun s =>
            { s with validTransitions := s.validTransitions ++ [t] }
          transitions := map.transitions ++ [t] }

/-! ## the default machine -/

section
variable (ids : Ids)

def configureLabel : List Char := "configure".toList
def cleanupLabel : List Char := "cleanup".toList
def activateLabel : List Char := "activate".toList
def deactivateLabel : List Char := "deactivate".toList
def shutdownLabel : List Char := "shutdown".toList
def transitionSuccessLabel : List Char := "transition_success".toList
def transitionFailureLabel : List Char := "transition_failure".toList
def transitionErrorLabel : List Char := "transition_error".toList

/-- the states of `_register_primary_states` and `_register_transition_states`, in order -/
def stateTable : List (String × StateName) :=
  [("unknown", .unknown), ("unconfigured", .unconfigured), ("inactive", .inactive),
   ("active", .active), ("finalized", .finalized), ("configuring", .configuring),
   ("cleaningup", .cleaningup), ("shuttingdown", .shuttingdown), ("activating", .activating),
   ("deactivating", .deactivating), ("errorprocessing", .errorprocessing)]

/-- a line of `_register_transitions` -/
structure Row where
  label : List Char
  name : TransitionName
  start : StateName
  goal : StateName
  deriving DecidableEq, Repr

/-- the transitions of `_register_transitions`, in order -/
def transitionTable : List Row :=
  [⟨configureLabel, .configure, .unconfigured, .configuring⟩,
   ⟨transitionSuccessLabel, .onConfigureSuccess, .configuring, .inactive⟩,
   ⟨transitionFailureLabel, .onConfigureFailure, .configuring, .unconfigured⟩,
   ⟨transitionErrorLabel, .onConfigureError, .configuring, .errorprocessing⟩,
   ⟨cleanupLabel, .cleanup, .inactive, .cleaningup⟩,
   ⟨transitionSuccessLabel, .onCleanupSuccess, .cleaningup, .unconfigured⟩,
   ⟨transitionFailureLabel, .onCleanupFailure, .cleaningup, .inactive⟩,
   ⟨transitionErrorLabel, .onCleanupError, .cleaningup, .errorprocessing⟩,
   ⟨activateLabel, .activate, .inactive, .activating⟩,
   ⟨transitionSuccessLabel, .onActivateSuccess, .activating, .active⟩,
   ⟨transitionFailureLabel, .onActivateFailure, .activating, .inactive⟩,
   ⟨transitionErrorLabel, .onActivateError, .activating, .errorprocessing⟩,
   ⟨deactivateLabel, .deactivate, .active, .deactivating⟩,
   ⟨transitionSuccessLabel, .onDeactivateSuccess, .deactivating, .inactive⟩,
   ⟨transitionFailureLabel, .onDeactivateFailure, .deactivating, .active⟩,
   ⟨transitionErrorLabel, .onDeactivateError, .deactivating, .errorprocessing⟩,
   ⟨shutdownLabel, .unconfiguredShutdown, .unconfigured, .shuttingdown⟩,
   ⟨shutdownLabel, .inactiveShutdown, .inactive, .shuttingdown⟩,
   ⟨shutdownLabel, .activeShutdown, .active, .shuttingdown⟩,
   ⟨transitionSuccessLabel, .onShutdownSuccess, .shuttingdown, .finalized⟩,
   ⟨transitionFailureLabel, .onShutdownFailure, .shuttingdown, .finalized⟩,
   ⟨transitionErrorLabel, .onShutdownError, .shuttingdown, .errorprocessing⟩,
   ⟨transitionSuccessLabel, .onErrorSuccess, .errorprocessing, .unconfigured⟩,
   ⟨transitionFailureLabel, .onErrorFailure, .errorprocessing, .finalized⟩,
   ⟨transitionErrorLabel, .onErrorError, .errorprocessing, .finalized⟩]

/-- `_register_primary_states` and `_register_transition_states` -/
def registerStates (map : TransitionMap) : Except Error TransitionMap :=
  stateTable.foldlM
    (fun map (l, n) => registerState map ⟨l.toList, ids.state n, []⟩) map

/-- `_register_transitions`: the pointers to the states are looked up before the first
registration -/
def registerTransitions (map : TransitionMap) : Except Error TransitionMap :=
  let ptr := fun n => getState map (ids.state n)
  transitionTable.foldlM
    (fun map r => registerTransition map ⟨r.label, ids.transition r.name, ptr r.start, ptr r.goal⟩)
    map

/-- `rcl_lifecycle_state_machine_t`; `services` says that the communication interface is set up -/
structure Machine where
  map : TransitionMap
  current : Option Nat
  services : Bool
  deriving DecidableEq, Repr

/-- `rcl_lifecycle_init_default_state_machine`, after the services have been set up -/
def initDefaultStateMachine : Except Error Machine := do
  let map ← registerStates ids ⟨[], []⟩
  let map ← registerTransitions ids map
  return ⟨map, getState map (ids.state .unconfigured), true⟩

end

/-! ## moves -/

inductive RclRet
  | ok | error
  deriving DecidableEq, Repr

namespace Machine
variable (m : Machine)

/-- `rcl_lifecycle_state_machine_is_initialized` -/
def isInitialized : Bool :=
  m.services && !(m.map.states.isEmpty && m.map.transitions.isEmpty)

/-- the state the pointer `current_state` points to -/
def currentState : Option State := m.current.bind fun i => m.map.states[i]?

/-- `rcl_lifecycle_get_transition_by_id`, of the current state -/
def getTransitionById (id : UInt8) : Option Transition :=
  m.currentState.bind fun s => s.validTransitions.find? fun t => t.id == id

/-- `rcl_lifecycle_get_transition_by_label`, of the current state -/
def getTransitionByLabel (label : List Char) : Option Transition :=
  m.currentState.bind fun s => s.validTransitions.find? fun t => t.label == label

/-- `_trigger_transition`: the state is set before the notification is published -/
def triggerTransition (t : Option Transition) (published : Bool) : Machine × RclRet :=
  match t with
  | none => (m, .error)
  | some t =>
    match t.goal with
    | none => (m, .error)
    | some g =>
      let m' := { m with current := some g }
      (m', if published then .ok else .error)

def triggerTransitionById (id : UInt8) (published : Bool) : Machine × RclRet :=
  m.triggerTransition (m.getTransitionById id) published

def triggerTransitionByLabel (label : List Char) (published : Bool) : Machine × RclRet :=
  m.triggerTransition (m.getTransitionByLabel label) published

end Machine

/-! ## the table the registration leaves -/

section
variable (ids : Ids)

def stateNames : List StateName := stateTable.map Prod.snd

def stateIndex (n : StateName) : Nat := stateNames.idxOf n

theorem stateNames_nodup : stateNames.Nodup := by decide

theorem mem_stateNames (n : StateName) : n ∈ stateNames := by cases n <;> decide

def Row.transition (r : Row) : Transition :=
  ⟨r.label, ids.transition r.name, some (stateIndex r.start), some (stateIndex r.goal)⟩

/-- the array holds the states of the table in order -/
def Named (map : TransitionMap) : Prop := map.states.map State.id = stateNames.map ids.state

theorem getState_eq (map : TransitionMap) (id : UInt8) :
    getState map id = (map.states.map State.id).findIdx? (· == id) := by
  rw [getState, List.findIdx?_map]
  rfl

variable {ids}

theorem Named.getState {map : TransitionMap} (h : Named ids map) (n : StateName) :
    getState map (ids.state n) = some (stateIndex n) := by
  have hp : ((· == ids.state n) ∘ ids.state) = fun k => k == n := by
    funext k
    rw [Function.comp_apply, Bool.eq_iff_iff, beq_iff_eq, beq_iff_eq]
    exact ids.state_injective.eq_iff
  rw [getState_eq, h, List.findIdx?_map, hp]
  cases n <;> decide

theorem registerStates_loop (rows : List (String × StateName)) :
    ∀ map : TransitionMap,
      (map.states.map State.id ++ rows.map fun r => ids.state r.2).Nodup →
      rows.foldlM (fun map (l, n) => registerState map ⟨l.toList, ids.state n, []⟩) map =
        .ok { map with states := map.states ++
                rows.map fun r => ⟨r.1.toList, ids.state r.2, []⟩ } := by
  induction rows with
  | nil =>
    intro map _
    rw [List.map_nil, List.append_nil]
    rfl
  | cons r rows ih =>
    intro map hnd
    have hnew : getState map (ids.state r.2) = none := by
      rw [getState_eq, List.findIdx?_eq_none_iff]
      intro x hx
      rw [beq_eq_false_iff_ne]
      exact (List.nodup_append.mp hnd).2.2 x hx _ List.mem_cons_self
    have hreg : registerState map ⟨r.1.toList, ids.state r.2, []⟩ =
        .ok { map with states := map.states ++ [⟨r.1.toList, ids.state r.2, []⟩] } := by
      simp only [registerState, hnew]
    rw [List.foldlM_cons]
    show (registerState map ⟨r.1.toList, ids.state r.2, []⟩ >>= _) = _
    rw [hreg]
    show List.foldlM _ _ _ = _
    rw [ih _ (by simpa [List.append_assoc] using hnd)]
    simp only [List.map_cons, List.append_assoc, List.singleton_append]

theorem Named.modify {map : TransitionMap} (h : Named ids map) (i : Nat) (ts : List Transition)
    (t : Transition) :
    Named ids ⟨map.states.modify i fun s => { s with validTransitions := s.validTransitions ++ [t] },
      ts⟩ := by
  have hid : (map.states.modify i fun s =>
      { s with validTransitions := s.validTransitions ++ [t] }).map State.id =
      map.states.map State.id := by
    apply List.ext_getElem?
    intro j
    rw [List.getElem?_map, List.getElem?_modify, List.getElem?_map]
    cases map.states[j]? with
    | none => rfl
    | some s => by_cases hij : i = j <;> simp [hij]
  exact hid.trans h

theorem registerTransition_row {map : TransitionMap} (h : Named ids map) (r : Row) :
    registerTransition map (r.transition ids) =
      .ok ⟨map.states.modify (stateIndex r.start) fun s =>
          { s with validTransitions := s.validTransitions ++ [r.transition ids] },
        map.transitions ++ [r.transition ids]⟩ := by
  have hlen : stateIndex r.start < map.states.length := by
    have hl : map.states.length = stateNames.length := by
      simpa only [List.length_map] using congrArg List.length h
    rw [hl]
    exact List.idxOf_lt_length_of_mem (mem_stateNames r.start)
  have hid : map.states[stateIndex r.start].id = ids.state r.start := by
    have h1 : (map.states.map State.id)[stateIndex r.start]? =
        (stateNames.map ids.state)[stateIndex r.start]? := by rw [h]
    have h2 : stateNames[stateIndex r.start]? = some r.start :=
      List.getElem?_idxOf (mem_stateNames r.start)
    rw [List.getElem?_map, List.getElem?_map, List.getElem?_eq_getElem hlen, h2] at h1
    exact Option.some.inj h1
  have hs : ((r.transition ids).start.bind fun i =>
      map.states[i]?.bind fun s => getState map s.id) = some (stateIndex r.start) := by
    show (map.states[stateIndex r.start]?.bind fun s => getState map s.id) = _
    rw [List.getElem?_eq_getElem hlen, Option.bind_some, hid, h.getState]
  simp only [registerTransition, hs]

/-- what the registration of rows adds to each state -/
theorem registerTransitions_loop (rows : List Row) :
    ∀ map : TransitionMap, Named ids map →
      ∃ map', rows.foldlM (fun map r => registerTransition map (r.transition ids)) map = .ok map' ∧
        (∀ n, map'.states[stateIndex n]? = map.states[stateIndex n]?.map fun s =>
          { s with validTransitions := s.validTransitions ++
              (rows.filter fun r => r.start = n).map (Row.transition ids) }) ∧
        Named ids map' := by
  induction rows with
  | nil =>
    intro map h
    refine ⟨map, rfl, fun n => ?_, h⟩
    cases map.states[stateIndex n]? <;> simp
  | cons r rows ih =>
    intro map h
    obtain ⟨map', hm, hs, hn⟩ := ih _ (h.modify (stateIndex r.start)
      (map.transitions ++ [r.transition ids]) (r.transition ids))
    refine ⟨map', ?_, fun n => ?_, hn⟩
    · rw [List.foldlM_cons, registerTransition_row h]
      exact hm
    · rw [hs n]
      show (map.states.modify _ _)[stateIndex n]?.map _ = _
      rw [List.getElem?_modify]
      -- the row goes to its own start state and to no other
      by_cases hr : r.start = n
      · subst hr
        cases map.states[stateIndex r.start]? <;> simp
      · have hi : stateIndex r.start ≠ stateIndex n := by
          intro hi
          exact hr ((List.idxOf_inj (mem_stateNames r.start)).mp hi)
        cases map.states[stateIndex n]? <;> simp [hr, hi]

/-- the entry of a state in the finished table -/
def defaultState (ids : Ids) (n : StateName) : State :=
  ⟨((stateTable.find? fun r => r.2 = n).map fun r => r.1.toList).getD [], ids.state n,
    (transitionTable.filter fun r => r.start = n).map (Row.transition ids)⟩

/-- the machine has the finished table and is in the state `n` -/
structure At (ids : Ids) (m : Machine) (n : StateName) : Prop where
  table : ∀ k, m.map.states[stateIndex k]? = some (defaultState ids k)
  current : m.current = some (stateIndex n)
  services : m.services = true

/-- **The default machine.**  The registration succeeds and leaves every state with the rows of
the table that start in it, in the order of the table. -/
theorem initDefaultStateMachine_ok (ids : Ids) :
    ∃ m, initDefaultStateMachine ids = .ok m ∧ At ids m .unconfigured := by
  have hstates : registerStates ids ⟨[], []⟩ =
      .ok ⟨stateTable.map fun r => ⟨r.1.toList, ids.state r.2, []⟩, []⟩ := by
    refine registerStates_loop stateTable ⟨[], []⟩ ?_
    have hnd : (stateNames.map ids.state).Nodup := List.Nodup.map ids.state_injective stateNames_nodup
    simpa only [stateNames, List.map_map, List.map_nil, List.nil_append, Function.comp_def] using hnd
  have hnamed : Named ids ⟨stateTable.map fun r => ⟨r.1.toList, ids.state r.2, []⟩, []⟩ := by
    simp only [Named, stateNames, List.map_map, Function.comp_def]
  obtain ⟨map', hm, hs, hn⟩ := registerTransitions_loop transitionTable _ hnamed
  refine ⟨⟨map', some (stateIndex .unconfigured), true⟩, ?_, ⟨fun k => ?_, rfl, rfl⟩⟩
  · have htrans : registerTransitions ids
        ⟨stateTable.map fun r => ⟨r.1.toList, ids.state r.2, []⟩, []⟩ = .ok map' := by
      simp only [registerTransitions, hnamed.getState]
      exact hm
    rw [initDefaultStateMachine, hstates]
    show (registerTransitions ids _ >>= _) = _
    rw [htrans]
    show Except.ok (Machine.mk map' (getState map' (ids.state .unconfigured)) true) = _
    rw [hn.getState]
  · rw [hs k]
    cases k <;> rfl

/-! ## moves of the default machine -/

def rowsFrom (n : StateName) : List Row := transitionTable.filter fun r => r.start = n

namespace At
variable {m : Machine} {n : StateName}

theorem currentState (h : At ids m n) : m.currentState = some (defaultState ids n) := by
  rw [Machine.currentState, h.current, Option.bind_some, h.table]

theorem isInitialized (h : At ids m n) : m.isInitialized = true := by
  have hne : m.map.states ≠ [] := by
    intro hnil
    have := h.table n
    rw [hnil] at this
    cases this
  rw [Machine.isInitialized, h.services, List.isEmpty_eq_false_iff.mpr hne]
  rfl

theorem move (h : At ids m n) (k : StateName) :
    At ids { m with current := some (stateIndex k) } k := ⟨h.table, rfl, h.services⟩

theorem getTransitionById (h : At ids m n) (id : UInt8) :
    m.getTransitionById id =
      ((rowsFrom n).find? fun r => ids.transition r.name == id).map (Row.transition ids) := by
  rw [Machine.getTransitionById, h.currentState, Option.bind_some, defaultState, List.find?_map]
  rfl

theorem getTransitionByLabel (h : At ids m n) (label : List Char) :
    m.getTransitionByLabel label =
      ((rowsFrom n).find? fun r => r.label == label).map (Row.transition ids) := by
  rw [Machine.getTransitionByLabel, h.currentState, Option.bind_some, defaultState, List.find?_map]
  rfl

end At

end

end PMROS2.Lifecycle
