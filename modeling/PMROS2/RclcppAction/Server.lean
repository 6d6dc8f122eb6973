import PMROS2.Lib.Runs
import PMROS2.RclAction.ActionServer

/-!
# The action server of `rclcpp_action`

`ServerBase` (`server.cpp`), `Server` (`server.hpp`) and `ServerGoalHandle`
(`server_goal_handle.hpp`, `server_goal_handle.cpp`) over the `rcl` server, as a transition
function.  One action is one section under `reentrant_mutex_`, or one state change of a goal
handle under its own mutex, by a thread of the user.  The four steps of `on_terminal_state`
(publish the result, publish the status, recalculate the timer, forget the handle) are separate
actions, and so are the steps of a cancel request around the user callback.  While a cancel
request is handled, `reentrant_mutex_` is taken.

Goal handles are numbered in the order of their allocation, result requests in the order in which
they are taken: the middleware gives every request an id of its own.  A `std::unordered_map` is a
function to `Option`; a missing vector of `result_requests_` is the empty one.  Taking and sending
succeed and user callbacks return.  Messages that are sent are kept in logs.
-/

namespace PMROS2.RclcppAction
open RclAction

inductive GoalResponse where
  | reject
  | acceptAndExecute
  | acceptAndDefer
  deriving DecidableEq

inductive CancelResponse where
  | reject
  | accept
  deriving DecidableEq

/-- the response of the result service; `none` is a default-constructed result -/
structure ResultResponse (ρ : Type*) where
  status : GoalState
  result : Option ρ := none
  deriving DecidableEq

/-- how far a `ServerGoalHandle` is -/
inductive Phase (ρ : Type*) where
  | active
  /-- the state is terminal, `on_terminal_state_` is still to be called -/
  | terminating (response : ResultResponse ρ)
  /-- `publish_result` has returned -/
  | published (response : ResultResponse ρ)
  /-- `notify_goal_terminal_state` has returned -/
  | notified (response : ResultResponse ρ)
  | finished (response : ResultResponse ρ)
  /-- `publish_result` has thrown -/
  | threw (response : ResultResponse ρ)

/-- the response that was given to `publish_result` -/
def Phase.ended {ρ : Type*} : Phase ρ → Option (ResultResponse ρ)
  | .published r | .notified r | .finished r | .threw r => some r
  | _ => none

def Phase.isActive {ρ : Type*} : Phase ρ → Bool
  | .active => true
  | _ => false

/-- a result request that was taken, with the goal of that id at the time, if there was one -/
structure TakenRequest where
  uuid : GoalUUID
  goal : Option Nat

/-- `action_msgs::srv::CancelGoal::Response` -/
structure CancelGoalResponse where
  returnCode : CancelReturnCode
  goalsCanceling : List GoalInfo
  deriving DecidableEq

/-- `execute_cancel_request_received` between two of its steps -/
structure CancelCall where
  returnCode : CancelReturnCode
  /-- the size of `goals` -/
  size : Nat
  /-- the goals that the loop has not dealt with -/
  remaining : List GoalInfo
  /-- the locked goal handle of the first of them, once the callback has accepted -/
  accepted : Option Nat := none
  goalsCanceling : List GoalInfo := []
  /-- the goals this request moved to `CANCELING` -/
  moved : List Nat := []

/-- the call before the first round of the loop -/
def CancelCall.start (code : CancelReturnCode) (goals : List GoalInfo) : CancelCall :=
  { returnCode := code, size := goals.length, remaining := goals }

/-- a round ends without the goal -/
def CancelCall.skip (c : CancelCall) (rest : List GoalInfo) : CancelCall :=
  { c with remaining := rest }

/-- the callback has accepted, the goal handle is locked -/
def CancelCall.hold (c : CancelCall) (h : Nat) : CancelCall := { c with accepted := some h }

/-- a round ends with the goal moved to `CANCELING` -/
def CancelCall.move (c : CancelCall) (h : Nat) (info : GoalInfo) (rest : List GoalInfo) :
    CancelCall :=
  { c with
    remaining := rest
    accepted := none
    goalsCanceling := c.goalsCanceling ++ [info]
    moved := c.moved ++ [h] }

/-- what became of a cancel request: the goals it moved and the responses it was sent -/
structure CancelOutcome where
  moved : List Nat
  responses : List CancelGoalResponse

structure State (ρ : Type*) where
  actionServer : ActionServer Nat
  impl : Nat → GoalHandleImpl := fun _ => {}
  /-- the goal handles below are allocated -/
  next : Nat := 0
  goalResults : GoalUUID → Option (ResultResponse ρ) := fun _ => none
  resultRequests : GoalUUID → List Nat := fun _ => []
  goalHandles : GoalUUID → Option Nat := fun _ => none
  /-- `goal_handles_` of `Server`: weak pointers to the `ServerGoalHandle`s -/
  serverGoalHandles : GoalUUID → Option Nat := fun _ => none
  /-- the `ServerGoalHandle` has not been destroyed -/
  alive : Nat → Bool := fun _ => false
  phase : Nat → Phase ρ := fun _ => .active
  cancelCall : Option CancelCall := none
  requests : List TakenRequest := []
  sent : List (Nat × ResultResponse ρ) := []
  goalResponses : List (GoalUUID × Bool) := []
  cancelOutcomes : List CancelOutcome := []

section
variable {ρ : Type*}

/-- the goal id of a goal handle -/
def State.uuid (s : State ρ) (h : Nat) : GoalUUID := (s.impl h).info.goalId

/-! ## goal requests -/

/-- `Server::call_handle_goal_callback`: the field `accepted` of the response -/
def isAccepted (answer : GoalResponse) : Bool :=
  answer = .acceptAndExecute || answer = .acceptAndDefer

/-- `Server::call_goal_accepted_callback` -/
def callGoalAcceptedCallback (s : State ρ) (h : Nat) (uuid : GoalUUID) : State ρ :=
  { s with
    alive := Function.update s.alive h true
    phase := Function.update s.phase h .active
    serverGoalHandles := Function.update s.serverGoalHandles uuid (some h) }

/-- `ServerBase::execute_goal_request_received`, with the answer of the user's `handle_goal`.
The response is sent before the goal is added; when it cannot be added the call throws. -/
def executeGoalRequestReceived (s : State ρ) (uuid : GoalUUID) (answer : GoalResponse)
    (now : Int64) : State ρ :=
  let s := { s with goalResponses := s.goalResponses ++ [(uuid, isAccepted answer)] }
  if isAccepted answer then
    match acceptNewGoal s.impl s.actionServer s.next { goalId := uuid } now with
    | none => s
    | some (impl, server) =>
      let h := s.next
      let s := { s with
        impl := impl
        actionServer := server
        next := s.next + 1
        goalHandles := Function.update s.goalHandles uuid (some h) }
      if answer = .acceptAndExecute then
        match updateGoalState (s.impl h) .execute with
        | .error _ => s
        | .ok g => callGoalAcceptedCallback { s with impl := Function.update s.impl h g } h uuid
      else callGoalAcceptedCallback s h uuid
  else s

/-! ## result requests -/

/-- the goal handle of the `rcl` server with that id -/
def State.goalOf (s : State ρ) (uuid : GoalUUID) : Option Nat :=
  s.actionServer.goalHandles.find? fun h => (s.impl h).info.goalId = uuid

/-- `ServerBase::execute_result_request_received` -/
def executeResultRequestReceived (s : State ρ) (uuid : GoalUUID) : State ρ :=
  let header := s.requests.length
  let resultResponse :=
    if goalExists s.impl s.actionServer uuid then s.goalResults uuid
    else some { status := .unknown }
  let request : TakenRequest := ⟨uuid, s.goalOf uuid⟩
  let s := { s with requests := s.requests ++ [request] }
  match resultResponse with
  | some r => { s with sent := s.sent ++ [(header, r)] }
  | none => { s with resultRequests :=
      Function.update s.resultRequests uuid (s.resultRequests uuid ++ [header]) }

/-! ## expired goals -/

/-- one round of the loop of `ServerBase::execute_check_expired_goals`, which has room for one
goal -/
def executeCheckExpiredGoals (s : State ρ) (now : Int64) : State ρ :=
  match expireGoals s.impl s.actionServer (some 1) now with
  | .error _ => s
  | .ok (server, expiredGoals, _) =>
    let s := { s with actionServer := server }
    match expiredGoals with
    | [] => s
    | info :: _ =>
      { s with
        goalResults := Function.update s.goalResults info.goalId none
        resultRequests := Function.update s.resultRequests info.goalId []
        goalHandles := Function.update s.goalHandles info.goalId none }

/-! ## goal handles -/

/-- `rcl_action_update_goal_state` through a goal handle; `none` when it throws -/
def updateHandle (s : State ρ) (h : Nat) (event : GoalEvent) : Option (State ρ) :=
  match updateGoalState (s.impl h) event with
  | .error _ => none
  | .ok g => some { s with impl := Function.update s.impl h g }

/-- a state change that ends the goal, up to the call of `on_terminal_state_` -/
def endGoal (event : GoalEvent) (status : GoalState) (s : State ρ) (h : Nat) (result : Option ρ) :
    State ρ :=
  match updateHandle s h event with
  | none => s
  | some s => { s with phase := Function.update s.phase h (.terminating ⟨status, result⟩) }

/-- `ServerGoalHandle::abort` -/
def abort (s : State ρ) (h : Nat) (result : Option ρ) : State ρ :=
  endGoal .abort .aborted s h result

/-- `ServerGoalHandle::succeed` -/
def succeed (s : State ρ) (h : Nat) (result : Option ρ) : State ρ :=
  endGoal .succeed .succeeded s h result

/-- `ServerGoalHandle::canceled` -/
def canceled (s : State ρ) (h : Nat) (result : Option ρ) : State ρ :=
  endGoal .canceled .canceled s h result

/-- `ServerGoalHandle::execute` -/
def execute (s : State ρ) (h : Nat) : State ρ := (updateHandle s h .execute).getD s

/-- `~ServerGoalHandle`: `try_canceling`, and the null result if it ended the goal -/
def destroy (s : State ρ) (h : Nat) : State ρ :=
  let s := { s with alive := Function.update s.alive h false }
  let s := if (s.impl h).state.isCancelable then (updateHandle s h .cancelGoal).getD s else s
  if (s.impl h).state = .canceling then endGoal .canceled .canceled s h none else s

/-- `ServerBase::publish_result` -/
def publishResult (s : State ρ) (h : Nat) (response : ResultResponse ρ) : State ρ :=
  let uuid := s.uuid h
  if goalExists s.impl s.actionServer uuid then
    { s with
      goalResults := Function.update s.goalResults uuid (some response)
      sent := s.sent ++ (s.resultRequests uuid).map (·, response)
      phase := Function.update s.phase h (.published response) }
  else { s with phase := Function.update s.phase h (.threw response) }

/-- `ServerBase::notify_goal_terminal_state` -/
def notifyGoalTerminalState (s : State ρ) (h : Nat) (response : ResultResponse ρ) (now : Int64) :
    State ρ :=
  { s with
    actionServer := notifyGoalDone s.impl s.actionServer now
    phase := Function.update s.phase h (.notified response) }

/-- the end of `on_terminal_state` -/
def eraseHandle (s : State ρ) (h : Nat) (response : ResultResponse ρ) : State ρ :=
  { s with
    serverGoalHandles := Function.update s.serverGoalHandles (s.uuid h) none
    phase := Function.update s.phase h (.finished response) }

/-! ## cancel requests -/

/-- `ServerBase::execute_cancel_request_received` up to the loop -/
def executeCancelRequestReceived (s : State ρ) (request : GoalInfo) : State ρ :=
  let (code, goals) := processCancelRequest s.impl s.actionServer request
  { s with cancelCall := some (.start code (goals.map fun h => (s.impl h).info)) }

/-- `Server::call_handle_cancel_callback` up to the answer of the user's callback -/
def callHandleCancelCallback (s : State ρ) (c : CancelCall) (info : GoalInfo)
    (rest : List GoalInfo) (answer : CancelResponse) : State ρ :=
  match s.serverGoalHandles info.goalId with
  | none => { s with cancelCall := some (c.skip rest) }
  | some h =>
    if s.alive h && answer = .accept then { s with cancelCall := some (c.hold h) }
    else { s with cancelCall := some (c.skip rest) }

/-- `_cancel_goal` and the response entry of the goal; when `_cancel_goal` throws, the call is
left without a response -/
def cancelGoal (s : State ρ) (c : CancelCall) (h : Nat) (info : GoalInfo) (rest : List GoalInfo) :
    State ρ :=
  match updateHandle s h .cancelGoal with
  | none => { s with
      cancelCall := none
      cancelOutcomes := s.cancelOutcomes ++ [⟨c.moved, []⟩] }
  | some s => { s with cancelCall := some (c.move h info rest) }

/-- the end of `execute_cancel_request_received` -/
def sendCancelResponse (s : State ρ) (c : CancelCall) : State ρ :=
  let code := if 1 ≤ c.size ∧ c.goalsCanceling = [] then .errorRejected else c.returnCode
  { s with
    cancelCall := none
    cancelOutcomes := s.cancelOutcomes ++ [⟨c.moved, [⟨code, c.goalsCanceling⟩]⟩] }

/-! ## the steps -/

inductive Action (ρ : Type*) where
  | goalRequest (uuid : GoalUUID) (answer : GoalResponse) (now : Int64)
  | resultRequest (uuid : GoalUUID)
  | checkExpiredGoals (now : Int64)
  | execute (h : Nat)
  | abort (h : Nat) (result : ρ)
  | succeed (h : Nat) (result : ρ)
  | canceled (h : Nat) (result : ρ)
  | destroy (h : Nat)
  | publish (h : Nat)
  | notify (h : Nat) (now : Int64)
  | eraseHandle (h : Nat)
  | cancelRequest (request : GoalInfo)
  | cancelCallback (answer : CancelResponse)
  | cancelGoal
  | sendCancelResponse

/-- the user can call the goal handle -/
def State.usable (s : State ρ) (h : Nat) : Bool := h < s.next && s.alive h

/-- no thread is in a method of the goal handle, nor does the cancel call hold it -/
def State.unused (s : State ρ) (h : Nat) : Bool :=
  (match s.phase h with
    | .active | .finished _ | .threw _ => true
    | _ => false) &&
  match s.cancelCall with
  | some c => c.accepted ≠ some h
  | none => true

/-- the mutex `goal_handles_mutex_` of `Server` is free -/
def State.handlesFree (s : State ρ) : Bool :=
  match s.cancelCall with
  | some c => c.accepted = none
  | none => true

def step (s : State ρ) : Action ρ → Option (State ρ)
  | .goalRequest uuid answer now =>
    if s.cancelCall.isNone then some (executeGoalRequestReceived s uuid answer now) else none
  | .resultRequest uuid =>
    if s.cancelCall.isNone then some (executeResultRequestReceived s uuid) else none
  | .checkExpiredGoals now =>
    if s.cancelCall.isNone then some (executeCheckExpiredGoals s now) else none
  | .execute h => if s.usable h then some (execute s h) else none
  | .abort h result => if s.usable h then some (abort s h (some result)) else none
  | .succeed h result => if s.usable h then some (succeed s h (some result)) else none
  | .canceled h result => if s.usable h then some (canceled s h (some result)) else none
  | .destroy h => if s.usable h && s.unused h then some (destroy s h) else none
  | .publish h =>
    match s.phase h with
    | .terminating r =>
      if h < s.next ∧ s.cancelCall.isNone then some (publishResult s h r) else none
    | _ => none
  | .notify h now =>
    match s.phase h with
    | .published r =>
      if h < s.next ∧ s.cancelCall.isNone then some (notifyGoalTerminalState s h r now) else none
    | _ => none
  | .eraseHandle h =>
    match s.phase h with
    | .notified r => if h < s.next ∧ s.handlesFree then some (eraseHandle s h r) else none
    | _ => none
  | .cancelRequest request =>
    if s.cancelCall.isNone then some (executeCancelRequestReceived s request) else none
  | .cancelCallback answer =>
    match s.cancelCall with
    | some c =>
      match c.accepted, c.remaining with
      | none, info :: rest => some (callHandleCancelCallback s c info rest answer)
      | _, _ => none
    | none => none
  | .cancelGoal =>
    match s.cancelCall with
    | some c =>
      match c.accepted, c.remaining with
      | some h, info :: rest => some (cancelGoal s c h info rest)
      | _, _ => none
    | none => none
  | .sendCancelResponse =>
    match s.cancelCall with
    | some c =>
      match c.accepted, c.remaining with
      | none, [] => some (sendCancelResponse s c)
      | _, _ => none
    | none => none

/-- a new server, with a timeout that `rcl_action_server_init` takes -/
def IsInit (s : State ρ) : Prop :=
  ∃ resultTimeout server, actionServerInit resultTimeout = .ok server ∧
    s = { actionServer := server }

end

end PMROS2.RclcppAction
