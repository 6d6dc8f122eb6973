import PMROS2.Lib.Runs
import PMROS2.Lib.Throwing
import PMROS2.RclAction.ActionServer

/-!
# The goal requests of the action client

`Client` (`client.hpp`), `ClientBase` (`client.cpp`) and `ClientGoalHandle`
(`client_goal_handle_impl.hpp`): what becomes of a goal request between `async_send_goal` and the
goal response, with the result request that an accepted goal starts.

A function that may throw is an action of `EStateM`: an exception leaves the state as it was at
that point.  A `std::map` is a function to `Option`; `Promise` is a `std::promise` that counts the
calls of `set_value` and `set_exception`.  What the callbacks of the user do and what the `rcl`
functions return are arguments; a callback makes no calls on the client itself.

* `handleGoalResponse`   `ClientBase::handle_goal_response`;
* `Answered`             what a goal response is to bring about;
* `Answerable`           the goal responses that bring it about;
* `goal_responses_iff`   these are the same along every run.
-/

namespace PMROS2.RclcppAction.Client
open Runs Throwing RclAction

inductive Error where
  /-- `throw_from_rcl_error` -/
  | rcl
  /-- `std::future_errc::promise_already_satisfied` -/
  | promiseAlreadySatisfied
  | unknownGoalHandle
  /-- an exception of a user callback -/
  | user
  deriving DecidableEq

/-! ## promises -/

structure Promise (γ : Type) where
  outcome : Option (Except Error γ) := none
  /-- calls of `set_value` and `set_exception` -/
  attempts : Nat := 0

/-- `set_value`, `set_exception`: only the first one is stored -/
def Promise.attempt {γ : Type} (p : Promise γ) (r : Except Error γ) : Promise γ :=
  { outcome := p.outcome.or (some r), attempts := p.attempts + 1 }

/-- satisfied, and nothing else was attempted -/
def Promise.SatisfiedOnce {γ : Type} (p : Promise γ) : Prop :=
  p.outcome.isSome = true ∧ p.attempts = 1

/-! ## the state of a client -/

/-- `SendGoalOptions`: the callbacks that are set -/
structure SendGoalOptions where
  goalResponseCallback : Bool := false
  resultCallback : Bool := false

/-- `WrappedResult` -/
structure WrappedResult (ρ : Type) where
  goalId : GoalUUID
  code : GoalState
  result : ρ

/-- `ClientGoalHandle` -/
structure GoalHandle (ρ : Type) where
  info : GoalInfo := {}
  status : GoalState := .accepted
  resultCallback : Bool := false
  isResultAware : Bool := false
  resultPromise : Promise (WrappedResult ρ) := {}

/-- a call of `async_send_goal`: what its response callback captures, and what became of it -/
structure SendCall where
  goalId : GoalUUID := 0
  /-- the sequence number of the request, if it was sent -/
  seq : Option Int := none
  options : SendGoalOptions := {}
  /-- the promise behind the future; a goal handle is its number, `none` the null pointer -/
  promise : Promise (Option Nat) := {}
  /-- how often `goal_response_callback` was called -/
  calls : Nat := 0

structure State (ρ : Type) where
  /-- the calls of `async_send_goal`, the first `sent` of them -/
  sends : Nat → SendCall := fun _ => {}
  sent : Nat := 0
  /-- the goal handles, the first `allocated` of them -/
  handles : Nat → GoalHandle ρ := fun _ => {}
  allocated : Nat := 0
  goalHandles : GoalUUID → Option Nat := fun _ => none
  pendingGoalResponses : Int → Option Nat := fun _ => none
  pendingResultResponses : Int → Option Nat := fun _ => none

variable {ρ : Type}

abbrev M (ρ : Type) := EStateM Error (State ρ)

def State.modifySend (s : State ρ) (n : Nat) (f : SendCall → SendCall) : State ρ :=
  { s with sends := Function.update s.sends n (f (s.sends n)) }

def State.modifyHandle (s : State ρ) (h : Nat) (f : GoalHandle ρ → GoalHandle ρ) : State ρ :=
  { s with handles := Function.update s.handles h (f (s.handles h)) }

/-! ## sending a goal -/

/-- `ClientBase::send_goal_request`; `ret` is what `rcl_action_send_goal_request` returns, with the
sequence number.  The `assert` behind it is not part of a release build. -/
def sendGoalRequest (ret : Option Int) (n : Nat) : M ρ Unit :=
  match ret with
  | none => throw .rcl
  | some seq => modify fun s =>
    { s with pendingGoalResponses := Function.update s.pendingGoalResponses seq (some n) }

/-- `Client::async_send_goal`; `goalId` is the one that `generate_goal_id` makes up -/
def asyncSendGoal (goalId : GoalUUID) (options : SendGoalOptions) (ret : Option Int) :
    M ρ Unit := do
  let n := (← get).sent
  modify fun s =>
    { s with
      sends := Function.update s.sends n { goalId := goalId, seq := ret, options := options }
      sent := n + 1 }
  sendGoalRequest ret n

/-! ## results -/

/-- `ClientBase::send_result_request`, for the response callback of `make_result_aware` -/
def sendResultRequest (ret : Option Int) (h : Nat) : M ρ Unit :=
  match ret with
  | none => throw .rcl
  | some seq => modify fun s =>
    { s with pendingResultResponses := Function.update s.pendingResultResponses seq (some h) }

/-- `Client::make_result_aware` -/
def makeResultAware (h : Nat) (ret : Option Int) : M ρ Unit := do
  sendResultRequest ret h
  modify fun s => s.modifyHandle h fun g => { g with isResultAware := true }

/-- `Client::async_get_result` -/
def asyncGetResult (h : Nat) (resultCallback : Bool) (ret : Option Int) : M ρ Unit := do
  let s ← get
  throwIf (s.goalHandles (s.handles h).info.goalId).isNone .unknownGoalHandle
  modify fun s => s.modifyHandle h fun g =>
    { g with resultCallback := resultCallback || g.resultCallback }
  if !(s.handles h).isResultAware then
    makeResultAware h ret

/-- `ClientGoalHandle::set_result` -/
def setResult (h : Nat) (r : WrappedResult ρ) (callbackThrows : Bool) : M ρ Unit := do
  let g := (← get).handles h
  modify fun s => s.modifyHandle h fun g =>
    { g with status := r.code, resultPromise := g.resultPromise.attempt (.ok r) }
  throwIf g.resultPromise.outcome.isSome .promiseAlreadySatisfied
  throwIf (g.resultCallback && callbackThrows) .user

/-- the response of the result service -/
structure ResultResponse (ρ : Type) where
  status : GoalState
  result : ρ

/-- the response callback of `make_result_aware` -/
def onResultResponse (h : Nat) (response : ResultResponse ρ) (callbackThrows : Bool) :
    M ρ Unit := do
  let goalId := ((← get).handles h).info.goalId
  setResult h { goalId := goalId, code := response.status, result := response.result }
    callbackThrows
  modify fun s => { s with goalHandles := Function.update s.goalHandles goalId none }

/-- `ClientBase::handle_result_response` -/
def handleResultResponse (seq : Int) (response : ResultResponse ρ) (callbackThrows : Bool) :
    M ρ Unit := do
  match (← get).pendingResultResponses seq with
  | none => return
  | some h =>
    onResultResponse h response callbackThrows
    modify fun s =>
      { s with pendingResultResponses := Function.update s.pendingResultResponses seq none }

/-- one status of `Client::handle_status_message` -/
def State.noteStatus (s : State ρ) (status : GoalUUID × GoalState) : State ρ :=
  match s.goalHandles status.1 with
  | none => s
  | some h =>
    let s := s.modifyHandle h fun g => { g with status := status.2 }
    if status.2 = .succeeded ∨ status.2 = .canceled ∨ status.2 = .aborted then
      { s with goalHandles := Function.update s.goalHandles status.1 none }
    else s

/-- `Client::handle_status_message` -/
def handleStatusMessage (statusList : List (GoalUUID × GoalState)) : M ρ Unit :=
  modify fun s => statusList.foldl State.noteStatus s

/-! ## goal responses -/

/-- the response of the goal service -/
structure GoalResponse where
  accepted : Bool
  stamp : Stamp := {}

/-- what is outside the client while it handles a goal response -/
structure Surroundings where
  /-- `goal_response_callback` throws -/
  callbackThrows : Bool := false
  /-- what `rcl_action_send_result_request` returns, with the sequence number -/
  resultRequest : Option Int

/-- `set_value` or `set_exception` on the promise of a call -/
def setPromise (n : Nat) (r : Except Error (Option Nat)) : M ρ Unit := do
  let satisfied := ((← get).sends n).promise.outcome.isSome
  modify fun s => s.modifySend n fun c => { c with promise := c.promise.attempt r }
  throwIf satisfied .promiseAlreadySatisfied

/-- `options.goal_response_callback(future)`, where it is set -/
def callGoalResponseCallback (n : Nat) (callbackThrows : Bool) : M ρ Unit := do
  if ((← get).sends n).options.goalResponseCallback then
    modify fun s => s.modifySend n fun c => { c with calls := c.calls + 1 }
    throwIf callbackThrows .user

/-- `new GoalHandle` and its place in `goal_handles_` -/
def State.addHandle (s : State ρ) (info : GoalInfo) (resultCallback : Bool) : State ρ :=
  { s with
    handles :=
      Function.update s.handles s.allocated { info := info, resultCallback := resultCallback }
    allocated := s.allocated + 1
    goalHandles := Function.update s.goalHandles info.goalId (some s.allocated) }

/-- the response callback of `async_send_goal` -/
def onGoalResponse (n : Nat) (response : GoalResponse) (env : Surroundings) : M ρ Unit := do
  let s ← get
  let call := s.sends n
  if !response.accepted then
    setPromise n (.ok none)
    callGoalResponseCallback n env.callbackThrows
  else
    let info := { goalId := call.goalId, stamp := response.stamp }
    modify fun s => s.addHandle info call.options.resultCallback
    setPromise n (.ok (some s.allocated))
    callGoalResponseCallback n env.callbackThrows
    if call.options.resultCallback then
      tryCatch (makeResultAware s.allocated env.resultRequest) fun e => setPromise n (.error e)

/-- `ClientBase::handle_goal_response` -/
def handleGoalResponse (seq : Int) (response : GoalResponse) (env : Surroundings) : M ρ Unit := do
  match (← get).pendingGoalResponses seq with
  -- "unknown goal response, ignoring..."
  | none => return
  | some n =>
    onGoalResponse n response env
    modify fun s =>
      { s with pendingGoalResponses := Function.update s.pendingGoalResponses seq none }

/-! ## runs -/

/-- the calls on a client, by the user and by the executor -/
inductive Action (ρ : Type) where
  | sendGoal (goalId : GoalUUID) (options : SendGoalOptions) (ret : Option Int)
  | goalResponse (seq : Int) (response : GoalResponse) (env : Surroundings)
  | getResult (h : Nat) (resultCallback : Bool) (ret : Option Int)
  | resultResponse (seq : Int) (response : ResultResponse ρ) (callbackThrows : Bool)
  | statusMessage (statusList : List (GoalUUID × GoalState))

def Action.run : Action ρ → M ρ Unit
  | .sendGoal goalId options ret => asyncSendGoal goalId options ret
  | .goalResponse seq response env => handleGoalResponse seq response env
  | .getResult h resultCallback ret => asyncGetResult h resultCallback ret
  | .resultResponse seq response callbackThrows => handleResultResponse seq response callbackThrows
  | .statusMessage statusList => handleStatusMessage statusList

/-- a call that throws leaves the client to the next one -/
def step (s : State ρ) (a : Action ρ) : Option (State ρ) := some (after a.run s)

/-! ## what does not touch the goal requests -/

def State.requests (s : State ρ) : (Nat → SendCall) × Nat × (Int → Option Nat) :=
  (s.sends, s.sent, s.pendingGoalResponses)

theorem keeps_sendResultRequest (ret : Option Int) (h : Nat) :
    Keeps State.requests (sendResultRequest ret h : M ρ Unit) := by
  cases ret with
  | none => exact Keeps.throw _
  | some seq => exact Keeps.modify fun _ => rfl

theorem keeps_makeResultAware (h : Nat) (ret : Option Int) :
    Keeps State.requests (makeResultAware h ret : M ρ Unit) :=
  Keeps.bind (keeps_sendResultRequest ret h) fun _ => Keeps.modify fun _ => rfl

theorem keeps_asyncGetResult (h : Nat) (resultCallback : Bool) (ret : Option Int) :
    Keeps State.requests (asyncGetResult h resultCallback ret : M ρ Unit) := by
  refine Keeps.bind Keeps.get fun s => Keeps.bind (Keeps.throwIf _ _) fun _ => ?_
  refine Keeps.bind (Keeps.modify fun _ => rfl) fun _ => ?_
  exact Keeps.ite (keeps_makeResultAware h ret) (Keeps.pure ())

theorem keeps_setResult (h : Nat) (r : WrappedResult ρ) (callbackThrows : Bool) :
    Keeps State.requests (setResult h r callbackThrows) := by
  refine Keeps.bind Keeps.get fun s => Keeps.bind (Keeps.modify fun _ => rfl) fun _ => ?_
  exact Keeps.bind (Keeps.throwIf _ _) fun _ => Keeps.throwIf _ _

theorem keeps_handleResultResponse (seq : Int) (response : ResultResponse ρ)
    (callbackThrows : Bool) :
    Keeps State.requests (handleResultResponse seq response callbackThrows) := by
  refine Keeps.bind Keeps.get fun s => ?_
  cases s.pendingResultResponses seq with
  | none => exact Keeps.pure _
  | some h =>
    refine Keeps.bind (Keeps.bind Keeps.get fun s => ?_) fun _ => Keeps.modify fun _ => rfl
    exact Keeps.bind (keeps_setResult h _ callbackThrows) fun _ => Keeps.modify fun _ => rfl

theorem requests_noteStatus (s : State ρ) (status : GoalUUID × GoalState) :
    (s.noteStatus status).requests = s.requests := by
  unfold State.noteStatus
  cases s.goalHandles status.1 with
  | none => rfl
  | some h =>
    simp only
    split
    · rfl
    · rfl

theorem keeps_handleStatusMessage (statusList : List (GoalUUID × GoalState)) :
    Keeps State.requests (handleStatusMessage statusList : M ρ Unit) := by
  refine Keeps.modify fun s => ?_
  induction statusList generalizing s with
  | nil => rfl
  | cons status rest ih => exact (ih _).trans (requests_noteStatus s status)

/-! ## one goal response -/

/-- nothing has happened to the promise, and the callback was not called -/
def SendCall.Fresh (c : SendCall) : Prop := c.promise = {} ∧ c.calls = 0

/-- what a goal response is to bring about for the call of `async_send_goal` behind it -/
def SendCall.IsDone (c : SendCall) : Prop :=
  c.promise.SatisfiedOnce ∧ c.calls = if c.options.goalResponseCallback then 1 else 0

/-- the callback of the user, if there is one, returns, and the result request that an accepted
goal with a result callback starts is sent -/
def SendCall.Clean (c : SendCall) (response : GoalResponse) (env : Surroundings) : Prop :=
  (c.options.goalResponseCallback = true → env.callbackThrows = false) ∧
    (response.accepted = true → c.options.resultCallback = true →
      env.resultRequest.isSome = true)

section
variable {s : State ρ} {n : Nat}

theorem setPromise_unsatisfied (r : Except Error (Option Nat))
    (h : (s.sends n).promise.outcome = none) :
    (setPromise n r).run s =
      .ok () (s.modifySend n fun c => { c with promise := c.promise.attempt r }) := by
  unfold setPromise
  rw [get_bind, h]
  rfl

theorem setPromise_satisfied (r : Except Error (Option Nat))
    (h : (s.sends n).promise.outcome.isSome = true) :
    (setPromise n r).run s = .error .promiseAlreadySatisfied
      (s.modifySend n fun c => { c with promise := c.promise.attempt r }) := by
  unfold setPromise
  rw [get_bind, h]
  rfl

theorem callGoalResponseCallback_unset (callbackThrows : Bool)
    (h : (s.sends n).options.goalResponseCallback = false) :
    (callGoalResponseCallback n callbackThrows).run s = .ok () s := by
  unfold callGoalResponseCallback
  rw [get_bind, h]
  rfl

theorem callGoalResponseCallback_returns
    (h : (s.sends n).options.goalResponseCallback = true) :
    (callGoalResponseCallback n false).run s =
      .ok () (s.modifySend n fun c => { c with calls := c.calls + 1 }) := by
  unfold callGoalResponseCallback
  rw [get_bind, h]
  rfl

theorem callGoalResponseCallback_throws
    (h : (s.sends n).options.goalResponseCallback = true) :
    (callGoalResponseCallback n true).run s =
      .error .user (s.modifySend n fun c => { c with calls := c.calls + 1 }) := by
  unfold callGoalResponseCallback
  rw [get_bind, h]
  rfl

end

/-- a value in the promise and the callback behind it -/
def SendCall.settle (c : SendCall) (r : Option Nat) : SendCall :=
  { c with
    promise := c.promise.attempt (.ok r)
    calls := c.calls + if c.options.goalResponseCallback then 1 else 0 }

theorem SendCall.Fresh.isDone_settle {c : SendCall} (h : c.Fresh) (r : Option Nat) :
    (c.settle r).IsDone := by
  refine ⟨⟨?_, ?_⟩, ?_⟩
  · show ((c.promise.outcome).or (some (.ok r))).isSome = true
    rw [Option.isSome_or, Option.isSome_some, Bool.or_true]
  · show c.promise.attempts + 1 = 1
    rw [h.1]
  · show c.calls + _ = _
    rw [h.2, Nat.zero_add]
    rfl

section
variable {s : State ρ} {n : Nat}

theorem sends_modifySend (f : SendCall → SendCall) : (s.modifySend n f).sends n = f (s.sends n) :=
  Function.update_self ..

theorem modifySend_modifySend (f g : SendCall → SendCall) :
    (s.modifySend n f).modifySend n g = s.modifySend n fun c => g (f c) := by
  unfold State.modifySend
  simp only [Function.update_self, Function.update_idem]

theorem modifySend_congr {f g : SendCall → SendCall} (h : f (s.sends n) = g (s.sends n)) :
    s.modifySend n f = s.modifySend n g := by
  unfold State.modifySend
  rw [h]

/-- the promise takes the value, and the callback returns -/
theorem settles (r : Option Nat) {callbackThrows : Bool} (hf : (s.sends n).promise.outcome = none)
    (hc : (s.sends n).options.goalResponseCallback = true → callbackThrows = false) :
    ∃ s₁, (setPromise n (.ok r)).run s = .ok () s₁ ∧
      (callGoalResponseCallback n callbackThrows).run s₁ =
        .ok () (s.modifySend n fun c => c.settle r) := by
  refine ⟨_, setPromise_unsatisfied (.ok r) hf, ?_⟩
  cases hcallback : (s.sends n).options.goalResponseCallback with
  | false =>
    rw [callGoalResponseCallback_unset callbackThrows (by rw [sends_modifySend]; exact hcallback)]
    apply congrArg
    apply modifySend_congr
    unfold SendCall.settle
    rw [hcallback]
    rfl
  | true =>
    rw [hc hcallback, callGoalResponseCallback_returns (by rw [sends_modifySend]; exact hcallback),
      modifySend_modifySend]
    apply congrArg
    apply modifySend_congr
    unfold SendCall.settle
    rw [hcallback]
    rfl

theorem settles_throws (r : Option Nat) (hf : (s.sends n).promise.outcome = none)
    (hc : (s.sends n).options.goalResponseCallback = true) :
    ∃ s₁ s₂, (setPromise n (.ok r)).run s = .ok () s₁ ∧
      (callGoalResponseCallback n true).run s₁ = .error .user s₂ ∧
        s₂.pendingGoalResponses = s.pendingGoalResponses :=
  ⟨_, _, setPromise_unsatisfied (.ok r) hf,
    callGoalResponseCallback_throws (by rw [sends_modifySend]; exact hc), rfl⟩

/-- **A clean goal response** settles its call and touches no other. -/
theorem onGoalResponse_clean {response : GoalResponse} {env : Surroundings}
    (hf : (s.sends n).Fresh) (hc : (s.sends n).Clean response env) :
    ∃ r s', (onGoalResponse n response env).run s = .ok () s' ∧
      s'.requests = (s.modifySend n fun c => c.settle r).requests := by
  have hnone : (s.sends n).promise.outcome = none := congrArg Promise.outcome hf.1
  unfold onGoalResponse
  rw [get_bind]
  cases haccepted : response.accepted with
  | false =>
    obtain ⟨s₁, hset, hcall⟩ := settles none hnone hc.1
    exact ⟨none, _, (bind_ok hset).trans hcall, rfl⟩
  | true =>
    -- the promise is set behind the new goal handle
    let s₀ := s.addHandle { goalId := (s.sends n).goalId, stamp := response.stamp }
      (s.sends n).options.resultCallback
    have hnone₀ : (s₀.sends n).promise.outcome = none := hnone
    obtain ⟨s₁, hset, hcall⟩ := settles (some s.allocated) hnone₀ hc.1
    refine ⟨some s.allocated, ?_⟩
    simp only [Bool.not_true, Bool.false_eq_true, if_false]
    rw [modify_bind, bind_ok hset, bind_ok hcall]
    cases hresult : (s.sends n).options.resultCallback with
    | false => exact ⟨_, rfl, rfl⟩
    | true =>
      obtain ⟨seq, hseq⟩ := Option.isSome_iff_exists.mp (hc.2 haccepted hresult)
      rw [hseq]
      exact ⟨_, tryCatch_ok rfl, rfl⟩

/-- **A goal response that is not clean** throws out of the response callback. -/
theorem onGoalResponse_unclean {response : GoalResponse} {env : Surroundings}
    (hf : (s.sends n).Fresh) (hc : ¬ (s.sends n).Clean response env) :
    ∃ e s', (onGoalResponse n response env).run s = .error e s' ∧
      s'.pendingGoalResponses = s.pendingGoalResponses := by
  have hnone : (s.sends n).promise.outcome = none := congrArg Promise.outcome hf.1
  unfold onGoalResponse
  rw [get_bind]
  by_cases hcallback : (s.sends n).options.goalResponseCallback = true → env.callbackThrows = false
  · -- the result request of an accepted goal is not sent: a second value for the promise
    obtain ⟨haccepted, hresult, hrequest⟩ : response.accepted = true ∧
        (s.sends n).options.resultCallback = true ∧ env.resultRequest = none := by
      by_contra hn
      refine hc ⟨hcallback, fun ha hr => ?_⟩
      rw [Option.isSome_iff_ne_none]
      exact fun hq => hn ⟨ha, hr, hq⟩
    let s₀ := s.addHandle { goalId := (s.sends n).goalId, stamp := response.stamp } true
    have hnone₀ : (s₀.sends n).promise.outcome = none := hnone
    obtain ⟨s₁, hset, hcall⟩ := settles (some s.allocated) hnone₀ hcallback
    simp only [haccepted, hresult, hrequest, Bool.not_true, Bool.false_eq_true, if_false, if_true]
    rw [modify_bind, bind_ok hset, bind_ok hcall]
    refine ⟨_, _, (tryCatch_error rfl).trans (setPromise_satisfied _ ?_), rfl⟩
    rw [sends_modifySend]
    show ((s₀.sends n).promise.outcome.or (some (.ok (some s.allocated)))).isSome = true
    rw [Option.isSome_or, Option.isSome_some, Bool.or_true]
  · obtain ⟨hset', hthrows⟩ := Classical.not_imp.mp hcallback
    rw [Bool.not_eq_false] at hthrows
    rw [hthrows]
    cases haccepted : response.accepted with
    | false =>
      obtain ⟨s₁, s₂, hset, hcall, hpending⟩ := settles_throws none hnone hset'
      exact ⟨_, s₂, (bind_ok hset).trans hcall, hpending⟩
    | true =>
      let s₀ := s.addHandle { goalId := (s.sends n).goalId, stamp := response.stamp }
        (s.sends n).options.resultCallback
      have hnone₀ : (s₀.sends n).promise.outcome = none := hnone
      obtain ⟨s₁, s₂, hset, hcall, hpending⟩ := settles_throws (some s.allocated) hnone₀ hset'
      simp only [Bool.not_true, Bool.false_eq_true, if_false]
      rw [modify_bind, bind_ok hset, bind_error hcall]
      exact ⟨_, s₂, rfl, hpending⟩

end

/-! ## runs of goal responses -/

/-- no promise and no callback is used twice -/
def AtMostOnce (s : State ρ) : Prop :=
  ∀ n, (s.sends n).promise.attempts ≤ 1 ∧ (s.sends n).calls ≤ 1

/-- **What a goal response is to bring about**: the promise of its call is satisfied, by the only
attempt, the callback has been called once, where it is set, and the entry is gone. -/
def Answered (s : State ρ) (a : Action ρ) (s' : State ρ) : Prop :=
  AtMostOnce s' ∧
    match a with
    | .goalResponse seq _ _ => ∀ n, s.pendingGoalResponses seq = some n →
        (s'.sends n).IsDone ∧ s'.pendingGoalResponses seq = none
    | _ => True

/-- the goal responses of calls that are pending are clean -/
def Answerable (s : State ρ) (a : Action ρ) : Prop :=
  match a with
  | .goalResponse seq response env => ∀ n, s.pendingGoalResponses seq = some n →
      (s.sends n).Clean response env
  | _ => True

/-- the calls that are pending are fresh, and each has one entry -/
structure Inv (s : State ρ) : Prop where
  fresh : ∀ seq n, s.pendingGoalResponses seq = some n → (s.sends n).Fresh ∧ n < s.sent
  single : ∀ seq seq' n, s.pendingGoalResponses seq = some n →
    s.pendingGoalResponses seq' = some n → seq = seq'
  once : AtMostOnce s

section
variable {s s' : State ρ}

theorem Inv.congr (h : s'.requests = s.requests) (hs : Inv s) : Inv s' := by
  obtain ⟨hsends, hrest⟩ := Prod.mk.inj h
  obtain ⟨hsent, hpending⟩ := Prod.mk.inj hrest
  constructor
  · rw [hpending, hsends, hsent]
    exact hs.fresh
  · rw [hpending]
    exact hs.single
  · unfold AtMostOnce
    rw [hsends]
    exact hs.once

theorem Inv.log (hs : Inv s) (c : SendCall) (hc : c.Fresh) :
    Inv { s with sends := Function.update s.sends s.sent c, sent := s.sent + 1 } := by
  refine ⟨fun seq n hn => ?_, hs.single, fun n => ?_⟩
  · obtain ⟨hfresh, hlt⟩ := hs.fresh seq n hn
    show (Function.update s.sends s.sent c n).Fresh ∧ n < s.sent + 1
    rw [Function.update_of_ne hlt.ne]
    exact ⟨hfresh, by omega⟩
  · show (Function.update s.sends s.sent c n).promise.attempts ≤ 1 ∧
      (Function.update s.sends s.sent c n).calls ≤ 1
    by_cases hn : n = s.sent
    · rw [hn, Function.update_self, hc.1, hc.2]
      exact ⟨Nat.zero_le 1, Nat.zero_le 1⟩
    · rw [Function.update_of_ne hn]
      exact hs.once n

theorem update_some_eq {p : Int → Option Nat} {seq seq' : Int} {n m : Nat} :
    Function.update p seq (some n) seq' = some m ↔
      seq' = seq ∧ n = m ∨ seq' ≠ seq ∧ p seq' = some m := by
  by_cases h : seq' = seq
  · rw [h, Function.update_self, Option.some_inj]
    simp
  · rw [Function.update_of_ne h]
    simp [h]

theorem update_none_eq {p : Int → Option Nat} {seq seq' : Int} {m : Nat} :
    Function.update p seq none seq' = some m ↔ seq' ≠ seq ∧ p seq' = some m := by
  by_cases h : seq' = seq
  · rw [h, Function.update_self]
    simp
  · rw [Function.update_of_ne h]
    simp [h]

/-- an entry for a call that has none -/
theorem Inv.enter (hs : Inv s) (seq : Int) {n : Nat} (hn : (s.sends n).Fresh ∧ n < s.sent)
    (hnew : ∀ seq', s.pendingGoalResponses seq' ≠ some n) :
    Inv { s with
      pendingGoalResponses := Function.update s.pendingGoalResponses seq (some n) } := by
  refine ⟨fun seq' m hm => ?_, fun seq₁ seq₂ m h₁ h₂ => ?_, hs.once⟩
  · obtain ⟨-, rfl⟩ | ⟨-, hm⟩ := update_some_eq.mp hm
    · exact hn
    · exact hs.fresh seq' m hm
  · obtain ⟨rfl, rfl⟩ | ⟨-, h₁⟩ := update_some_eq.mp h₁
    · obtain ⟨rfl, -⟩ | ⟨-, h₂⟩ := update_some_eq.mp h₂
      · rfl
      · exact absurd h₂ (hnew seq₂)
    · obtain ⟨-, rfl⟩ | ⟨-, h₂⟩ := update_some_eq.mp h₂
      · exact absurd h₁ (hnew seq₁)
      · exact hs.single seq₁ seq₂ m h₁ h₂

/-- a call that is done loses its entry -/
theorem Inv.leave (hs : Inv s) {seq : Int} {n : Nat} (hn : s.pendingGoalResponses seq = some n)
    {f : SendCall → SendCall} (hf : (f (s.sends n)).IsDone) :
    Inv { s.modifySend n f with
      pendingGoalResponses := Function.update s.pendingGoalResponses seq none } := by
  refine ⟨fun seq' m hm => ?_, fun seq₁ seq₂ m h₁ h₂ => ?_, fun m => ?_⟩
  · obtain ⟨hseq, hm⟩ := update_none_eq.mp hm
    have hmn : m ≠ n := fun h => hseq (hs.single seq' seq n (h ▸ hm) hn)
    show (Function.update s.sends n (f (s.sends n)) m).Fresh ∧ m < s.sent
    rw [Function.update_of_ne hmn]
    exact hs.fresh seq' m hm
  · exact hs.single seq₁ seq₂ m (update_none_eq.mp h₁).2 (update_none_eq.mp h₂).2
  · show (Function.update s.sends n (f (s.sends n)) m).promise.attempts ≤ 1 ∧
      (Function.update s.sends n (f (s.sends n)) m).calls ≤ 1
    by_cases hm : m = n
    · rw [hm, Function.update_self, hf.1.2, hf.2]
      refine ⟨Nat.le_refl 1, ?_⟩
      split
      · exact Nat.le_refl 1
      · exact Nat.zero_le 1
    · rw [Function.update_of_ne hm]
      exact hs.once m

theorem inv_sendGoal (goalId : GoalUUID) (options : SendGoalOptions) (ret : Option Int)
    (hs : Inv s) : Inv (after (asyncSendGoal goalId options ret) s) := by
  have hlog := hs.log { goalId := goalId, seq := ret, options := options } ⟨rfl, rfl⟩
  cases ret with
  | none => exact hlog
  | some seq =>
    -- the number of the call is new, so no entry has it
    refine hlog.enter seq ⟨?_, Nat.lt_succ_self s.sent⟩ fun seq' h => ?_
    · show (Function.update s.sends s.sent _ s.sent).Fresh
      rw [Function.update_self]
      exact ⟨rfl, rfl⟩
    · exact (hs.fresh seq' s.sent h).2.ne rfl

/-- **A clean response** to a pending call: the call is done, the entry gone, the invariant kept. -/
theorem handleGoalResponse_clean (hs : Inv s) {seq : Int} {response : GoalResponse}
    {env : Surroundings} {n : Nat} (hn : s.pendingGoalResponses seq = some n)
    (hc : (s.sends n).Clean response env) :
    let s' := after (handleGoalResponse seq response env) s
    Inv s' ∧ (s'.sends n).IsDone ∧ s'.pendingGoalResponses seq = none := by
  have hfresh := (hs.fresh seq n hn).1
  obtain ⟨r, s₁, hrun, hrequests⟩ := onGoalResponse_clean hfresh hc
  have hdone := hfresh.isDone_settle r
  obtain ⟨hsends, hrest⟩ := Prod.mk.inj hrequests
  obtain ⟨hsent, hpending⟩ := Prod.mk.inj hrest
  have hafter : after (handleGoalResponse seq response env) s =
      { s₁ with pendingGoalResponses := Function.update s₁.pendingGoalResponses seq none } := by
    apply after_ok
    unfold handleGoalResponse
    rw [get_bind, hn]
    exact bind_ok hrun
  intro s'
  have hs' : s' = _ := hafter
  rw [hs']
  refine ⟨Inv.congr ?_ (hs.leave hn (f := fun c => c.settle r) hdone), ?_, Function.update_self ..⟩
  · unfold State.requests
    rw [hsends, hsent, hpending]
    rfl
  · rw [hsends, sends_modifySend]
    exact hdone

theorem handleGoalResponse_unclean (hs : Inv s) {seq : Int} {response : GoalResponse}
    {env : Surroundings} {n : Nat} (hn : s.pendingGoalResponses seq = some n)
    (hc : ¬ (s.sends n).Clean response env) :
    (after (handleGoalResponse seq response env) s).pendingGoalResponses seq = some n := by
  obtain ⟨e, s₁, hrun, hpending⟩ := onGoalResponse_unclean (hs.fresh seq n hn).1 hc
  have hafter : after (handleGoalResponse seq response env) s = s₁ := by
    apply after_error
    unfold handleGoalResponse
    rw [get_bind, hn]
    exact bind_error hrun
  rw [hafter, hpending, hn]

theorem handleGoalResponse_unknown {seq : Int} (response : GoalResponse) (env : Surroundings)
    (hn : s.pendingGoalResponses seq = none) :
    after (handleGoalResponse seq response env) s = s := by
  apply after_ok
  unfold handleGoalResponse
  rw [get_bind, hn]
  rfl

theorem inv_step (a : Action ρ) (hs : Inv s) (hstep : step s a = some s') (hc : Answerable s a) :
    Inv s' := by
  obtain rfl := Option.some.inj hstep
  cases a with
  | sendGoal goalId options ret => exact inv_sendGoal goalId options ret hs
  | goalResponse seq response env =>
    cases hn : s.pendingGoalResponses seq with
    | none =>
      show Inv (after (handleGoalResponse seq response env) s)
      rw [handleGoalResponse_unknown response env hn]
      exact hs
    | some n => exact (handleGoalResponse_clean hs hn (hc n hn)).1
  | getResult h resultCallback ret => exact hs.congr (keeps_asyncGetResult h resultCallback ret s)
  | resultResponse seq response callbackThrows =>
    exact hs.congr (keeps_handleResultResponse seq response callbackThrows s)
  | statusMessage statusList => exact hs.congr (keeps_handleStatusMessage statusList s)

theorem answered_iff (a : Action ρ) (hs : Inv s) (hstep : step s a = some s') :
    Answered s a s' ↔ Answerable s a := by
  refine ⟨fun h => ?_, fun h => ⟨(inv_step a hs hstep h).once, ?_⟩⟩
  · cases a with
    | goalResponse seq response env =>
      intro n hn
      by_contra hc
      obtain rfl := Option.some.inj hstep
      have hstays := handleGoalResponse_unclean hs hn hc
      have hgone := (h.2 n hn).2
      exact Option.some_ne_none n (hstays.symm.trans hgone)
    | sendGoal | getResult | resultResponse | statusMessage => exact trivial
  · cases a with
    | goalResponse seq response env =>
      intro n hn
      obtain rfl := Option.some.inj hstep
      exact (handleGoalResponse_clean hs hn (h n hn)).2
    | sendGoal | getResult | resultResponse | statusMessage => exact trivial

end

theorem inv_init : Inv ({} : State ρ) :=
  ⟨fun _ _ h => (by cases h), fun _ _ _ h => (by cases h), fun _ => ⟨Nat.zero_le 1, Nat.zero_le 1⟩⟩

/-- **Goal responses**: along every run of a client, every goal response does all it is to do just
when every one that answers a pending call is clean: the callback of the user returns, and the
result request of an accepted goal is sent. -/
theorem goal_responses_iff (as : List (Action ρ)) :
    Along step Answered ({} : State ρ) as ↔
      Along step (fun s a _ => Answerable s a) ({} : State ρ) as :=
  along_iff_of_inv (I := Inv) (fun _ a _ hs h hc => inv_step a hs h hc)
    (fun _ a _ hs h => answered_iff a hs h) as {} inv_init

/-- the result request of an accepted goal cannot be sent: the promise is set a second time, which
throws, and the entry stays -/
theorem lost_result_request_keeps_entry :
    ¬ Along step Answered ({} : State Unit)
      [.sendGoal 1 { goalResponseCallback := true, resultCallback := true } (some 0),
        .goalResponse 0 { accepted := true } { resultRequest := none }] := by
  intro h
  obtain ⟨hdone, -⟩ := ((h _ rfl).2 _ rfl).1.2 0 rfl
  have hattempts : (2 : Nat) = 1 := hdone.1.2
  omega

end PMROS2.RclcppAction.Client
