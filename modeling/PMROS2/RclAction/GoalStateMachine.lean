import Mathlib

/-!
# The goal state machine of `rcl_action`

`goal_state_machine.c`: the event handlers, the transition map and
`rcl_action_transition_goal_state`; `goal_handle.c`: which states are active and which can be
canceled.

* `transition_terminalEvent`  an event that ends a goal takes an active state to a terminal one;
* `transition_active`         the other events keep a goal active.

There is no way out of a terminal state: every transition starts in an active one.
-/

namespace PMROS2.RclAction

inductive GoalState where
  | unknown
  | accepted
  | executing
  | canceling
  | succeeded
  | canceled
  | aborted
  deriving DecidableEq

inductive GoalEvent where
  | execute
  | cancelGoal
  | succeed
  | abort
  | canceled
  deriving DecidableEq

/-! ## the transitions -/

def executeEventHandler (state : GoalState) (event : GoalEvent) : GoalState :=
  if state ≠ .accepted ∨ event ≠ .execute then .unknown else .executing

def cancelGoalEventHandler (state : GoalState) (event : GoalEvent) : GoalState :=
  if (state ≠ .accepted ∧ state ≠ .executing) ∨ event ≠ .cancelGoal then .unknown else .canceling

def succeedEventHandler (state : GoalState) (event : GoalEvent) : GoalState :=
  if (state ≠ .executing ∧ state ≠ .canceling) ∨ event ≠ .succeed then .unknown else .succeeded

def abortEventHandler (state : GoalState) (event : GoalEvent) : GoalState :=
  if (state ≠ .executing ∧ state ≠ .canceling) ∨ event ≠ .abort then .unknown else .aborted

def canceledEventHandler (state : GoalState) (event : GoalEvent) : GoalState :=
  if state ≠ .canceling ∨ event ≠ .canceled then .unknown else .canceled

/-- `_goal_state_transition_map`; `none` is a `NULL` handler -/
def goalStateTransitionMap : GoalState → GoalEvent → Option (GoalState → GoalEvent → GoalState)
  | .accepted, .execute => some executeEventHandler
  | .accepted, .cancelGoal => some cancelGoalEventHandler
  | .executing, .cancelGoal => some cancelGoalEventHandler
  | .executing, .succeed => some succeedEventHandler
  | .executing, .abort => some abortEventHandler
  | .canceling, .succeed => some succeedEventHandler
  | .canceling, .abort => some abortEventHandler
  | .canceling, .canceled => some canceledEventHandler
  | _, _ => none

/-- `rcl_action_transition_goal_state`; the range checks hold by type -/
def transitionGoalState (state : GoalState) (event : GoalEvent) : GoalState :=
  match goalStateTransitionMap state event with
  | none => .unknown
  | some handler => handler state event

/-- `rcl_action_goal_handle_is_active` -/
def GoalState.isActive : GoalState → Bool
  | .accepted | .executing | .canceling => true
  | _ => false

/-- `rcl_action_goal_handle_is_cancelable` -/
def GoalState.isCancelable (s : GoalState) : Bool := transitionGoalState s .cancelGoal = .canceling

def GoalState.isTerminal : GoalState → Bool
  | .succeeded | .canceled | .aborted => true
  | _ => false

def GoalEvent.isTerminal : GoalEvent → Bool
  | .succeed | .abort | .canceled => true
  | _ => false

/-! ## active and terminal -/

theorem transition_terminalEvent (s : GoalState) (e : GoalEvent) (he : e.isTerminal = true)
    (h : transitionGoalState s e ≠ .unknown) :
    s.isActive = true ∧ (transitionGoalState s e).isTerminal = true := by
  cases e with
  | execute => cases he
  | cancelGoal => cases he
  | succeed => cases s <;> first | exact ⟨rfl, rfl⟩ | exact absurd rfl h
  | abort => cases s <;> first | exact ⟨rfl, rfl⟩ | exact absurd rfl h
  | canceled => cases s <;> first | exact ⟨rfl, rfl⟩ | exact absurd rfl h

theorem transition_active (s : GoalState) (e : GoalEvent) (he : e.isTerminal = false)
    (h : transitionGoalState s e ≠ .unknown) :
    s.isActive = true ∧ (transitionGoalState s e).isActive = true := by
  cases e with
  | execute => cases s <;> first | exact ⟨rfl, rfl⟩ | exact absurd rfl h
  | cancelGoal => cases s <;> first | exact ⟨rfl, rfl⟩ | exact absurd rfl h
  | succeed => cases he
  | abort => cases he
  | canceled => cases he

theorem isActive_of_isTerminal (s : GoalState) (h : s.isTerminal = true) : s.isActive = false := by
  cases s <;> first | rfl | cases h

theorem isActive_iff (s : GoalState) :
    s.isActive = true ↔ s = .accepted ∨ s = .executing ∨ s = .canceling := by
  cases s <;> decide

theorem isCancelable_iff (s : GoalState) :
    s.isCancelable = true ↔ transitionGoalState s .cancelGoal ≠ .unknown := by
  cases s <;> decide

end PMROS2.RclAction
