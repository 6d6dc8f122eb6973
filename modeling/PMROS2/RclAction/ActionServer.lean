import PMROS2.RclAction.GoalStateMachine

/-!
# The action server of `rcl_action`

`action_server.c` and `goal_handle.c`.  A goal handle is a pointer of type `ι`; what it points to
is `impl : ι → GoalHandleImpl`.  The server holds the array of its goal handles, the timeout of
its options and the period of its expire timer (`none` when it is canceled).

Times are `int64_t` nanoseconds; the stamp of a goal is stored as seconds and nanoseconds.
Allocations succeed and the clock can be read; `now` is its reading.

`mem_expireScan_expired` says which goals `rcl_action_expire_goals` removes: the inactive ones
whose stamp is older than the timeout, as far as the scan reaches.
-/

set_option linter.unusedSectionVars false

namespace PMROS2.RclAction

/-- `uint8_t[16]` -/
abbrev GoalUUID := BitVec 128

structure Stamp where
  sec : Int32 := 0
  nanosec : UInt32 := 0
  deriving DecidableEq

structure GoalInfo where
  goalId : GoalUUID := 0
  stamp : Stamp := {}
  deriving DecidableEq

structure GoalHandleImpl where
  info : GoalInfo := {}
  state : GoalState := .unknown
  deriving DecidableEq

inductive RclRet where
  | invalidArgument
  | actionGoalEventInvalid
  deriving DecidableEq

/-- `action_msgs__srv__CancelGoal_Response__ERROR_*` -/
inductive CancelReturnCode where
  | errorNone
  | errorRejected
  | errorUnknownGoalId
  | errorGoalTerminated
  deriving DecidableEq

structure ActionServer (ι : Type*) where
  resultTimeout : Int64
  goalHandles : List ι := []
  expireTimer : Option Int64 := none

/-! ## stamps -/

/-- `_goal_info_stamp_to_nanosec` -/
def goalInfoStampToNanosec (info : GoalInfo) : Int64 :=
  info.stamp.sec.toInt64 * 1000000000 + info.stamp.nanosec.toUInt64.toInt64

/-- `_nanosec_to_goal_info_stamp` -/
def nanosecToGoalInfoStamp (nanosec : Int64) : Stamp :=
  { sec := (nanosec / 1000000000).toInt32
    nanosec := (nanosec % 1000000000).toUInt64.toUInt32 }

/-! ## goal handles -/

/-- `rcl_action_goal_handle_init` -/
def goalHandleInit (info : GoalInfo) : GoalHandleImpl := { info := info, state := .accepted }

/-- `rcl_action_update_goal_state` -/
def updateGoalState (g : GoalHandleImpl) (event : GoalEvent) : Except RclRet GoalHandleImpl :=
  let newState := transitionGoalState g.state event
  if newState = .unknown then .error .actionGoalEventInvalid else .ok { g with state := newState }

/-! ## the server -/

section
variable {ι : Type*} [DecidableEq ι] (impl : ι → GoalHandleImpl)

/-- `rcl_action_server_init`: `rcl_timer_init` refuses a negative period -/
def actionServerInit (resultTimeout : Int64) : Except RclRet (ActionServer ι) :=
  if resultTimeout < 0 then .error .invalidArgument else .ok { resultTimeout := resultTimeout }

/-- `rcl_action_server_goal_exists` -/
def goalExists (server : ActionServer ι) (uuid : GoalUUID) : Bool :=
  server.goalHandles.any fun h => (impl h).info.goalId = uuid

/-- `rcl_action_accept_new_goal`, with `handle` the memory allocated for the new goal handle -/
def acceptNewGoal (server : ActionServer ι) (handle : ι) (info : GoalInfo) (now : Int64) :
    Option ((ι → GoalHandleImpl) × ActionServer ι) :=
  if goalExists impl server info.goalId then none
  else some
    (Function.update impl handle
      (goalHandleInit { info with stamp := nanosecToGoalInfoStamp now }),
      { server with goalHandles := server.goalHandles ++ [handle] })

/-- `_recalculate_expire_timer`: the new period, or `none` to cancel the timer -/
def recalculateExpireTimer (timeout : Int64) (goalHandles : List ι) (now : Int64) : Option Int64 :=
  let inactive := goalHandles.filter fun h => !(impl h).state.isActive
  if inactive.isEmpty then none
  else
    let minimumPeriod := inactive.foldl (fun period h =>
      let delta := timeout - (now - goalInfoStampToNanosec (impl h).info)
      if delta < period then delta else period) timeout
    some (if minimumPeriod < 0 then 0 else minimumPeriod)

/-- `rcl_action_notify_goal_done` -/
def notifyGoalDone (server : ActionServer ι) (now : Int64) : ActionServer ι :=
  { server with
    expireTimer := recalculateExpireTimer impl server.resultTimeout server.goalHandles now }

/-! ## expiry -/

/-- the goal is not active and its stamp is older than the timeout -/
def isExpired (timeout now : Int64) (h : ι) : Bool :=
  !(impl h).state.isActive && decide (now - goalInfoStampToNanosec (impl h).info > timeout)

structure ExpireScan (ι : Type*) where
  kept : List ι
  expired : List ι
  /-- a goal info was written past the end of `expired_goals` -/
  overrun : Bool

/-- the loop of `rcl_action_expire_goals`; `i` is the index into the shrinking array, which is
what is compared with the capacity, and `numExpired` the index into `expired_goals` -/
def expireScan (timeout now : Int64) (capacity : Option Nat) :
    (i numExpired : Nat) → List ι → ExpireScan ι
  | _, _, [] => ⟨[], [], false⟩
  | i, numExpired, h :: hs =>
    if capacity.any (· ≤ i) then ⟨h :: hs, [], false⟩
    else if (impl h).state.isActive then
      let r := expireScan timeout now capacity (i + 1) numExpired hs
      { r with kept := h :: r.kept }
    else
      let past := capacity.any (· ≤ numExpired)
      if now - goalInfoStampToNanosec (impl h).info > timeout then
        let r := expireScan timeout now capacity i (numExpired + 1) hs
        { r with expired := h :: r.expired, overrun := past || r.overrun }
      else
        let r := expireScan timeout now capacity (i + 1) numExpired hs
        { r with kept := h :: r.kept, overrun := past || r.overrun }

/-- `rcl_action_expire_goals`: the new server, the goal infos that fit into `expired_goals` and
`num_expired`; without a capacity the optional arguments are not used -/
def expireGoals (server : ActionServer ι) (capacity : Option Nat) (now : Int64) :
    Except RclRet (ActionServer ι × List GoalInfo × Nat) :=
  if capacity = some 0 then .error .invalidArgument
  else
    let r := expireScan impl server.resultTimeout now capacity 0 0 server.goalHandles
    .ok ({ server with
          goalHandles := r.kept
          expireTimer := recalculateExpireTimer impl server.resultTimeout r.kept now },
      (r.expired.take (capacity.getD 0)).map fun h => (impl h).info, r.expired.length)

/-! ## canceling -/

/-- `rcl_action_process_cancel_request`: the return code and the goals to cancel -/
def processCancelRequest (server : ActionServer ι) (request : GoalInfo) :
    CancelReturnCode × List ι :=
  let requestNanosec := goalInfoStampToNanosec request
  if request.goalId ≠ 0 ∧ requestNanosec = 0 then
    match server.goalHandles.find? fun h => (impl h).info.goalId = request.goalId with
    | none => (.errorUnknownGoalId, [])
    | some h =>
      if (impl h).state.isCancelable then (.errorNone, [h]) else (.errorGoalTerminated, [])
  else
    let requestNanosec :=
      if request.goalId = 0 ∧ requestNanosec = 0 then Int64.maxValue else requestNanosec
    (.errorNone, server.goalHandles.filter fun h =>
      (impl h).state.isCancelable &&
        (goalInfoStampToNanosec (impl h).info ≤ requestNanosec ||
          (impl h).info.goalId = request.goalId))

/-! ## what the scan removes -/

variable {impl}

/-- the scan gets to the goal: fewer goals than the capacity are kept before it -/
def Reached (impl : ι → GoalHandleImpl) (timeout now : Int64) (capacity : Option Nat)
    (goalHandles : List ι) (h : ι) : Prop :=
  ∃ pre post, goalHandles = pre ++ h :: post ∧
    ∀ c ∈ capacity, (pre.filter fun h => !isExpired impl timeout now h).length < c

theorem expireScan_perm (impl : ι → GoalHandleImpl) (timeout now : Int64) (capacity : Option Nat)
    (i k : Nat) (hs : List ι) :
    ((expireScan impl timeout now capacity i k hs).kept ++
      (expireScan impl timeout now capacity i k hs).expired).Perm hs := by
  induction hs generalizing i k with
  | nil => exact .refl _
  | cons h hs ih =>
    unfold expireScan
    split
    · rw [List.append_nil]
    · split
      · exact (ih (i + 1) k).cons h
      · simp only
        split
        · exact List.perm_middle.trans ((ih i (k + 1)).cons h)
        · exact (ih (i + 1) k).cons h

theorem isExpired_of_active (timeout now : Int64) (h : ι) (ha : (impl h).state.isActive = true) :
    isExpired impl timeout now h = false := by
  unfold isExpired
  rw [ha, Bool.not_true, Bool.false_and]

theorem isExpired_of_inactive (timeout now : Int64) (h : ι)
    (ha : (impl h).state.isActive = false) :
    isExpired impl timeout now h =
      decide (now - goalInfoStampToNanosec (impl h).info > timeout) := by
  unfold isExpired
  rw [ha, Bool.not_false, Bool.true_and]

/-- the same for a scan started at index `i` -/
def ReachedFrom (impl : ι → GoalHandleImpl) (timeout now : Int64) (capacity : Option Nat) (i : Nat)
    (goalHandles : List ι) (h : ι) : Prop :=
  ∃ pre post, goalHandles = pre ++ h :: post ∧
    ∀ c ∈ capacity, i + (pre.filter fun h => !isExpired impl timeout now h).length < c

theorem not_reachedFrom_of_full (timeout now : Int64) (capacity : Option Nat) (i : Nat)
    (hs : List ι) (h : ι) (hc : capacity.any (· ≤ i) = true) :
    ¬ ReachedFrom impl timeout now capacity i hs h := by
  rintro ⟨pre, post, _, hlt⟩
  obtain ⟨c, hcap, hle⟩ := (Option.any_eq_true _ _).mp hc
  have h1 := hlt c hcap
  have h2 := of_decide_eq_true hle
  omega

/-- a goal that is kept takes one place of the capacity -/
theorem reachedFrom_cons_of_kept (timeout now : Int64) (capacity : Option Nat) (i : Nat) (x : ι)
    (hs : List ι) (h : ι) (hx : isExpired impl timeout now x = false)
    (hexp : isExpired impl timeout now h = true) :
    ReachedFrom impl timeout now capacity i (x :: hs) h ↔
      ReachedFrom impl timeout now capacity (i + 1) hs h := by
  have hfilter : ∀ pre : List ι, ((x :: pre).filter fun h => !isExpired impl timeout now h).length =
      (pre.filter fun h => !isExpired impl timeout now h).length + 1 := fun pre => by
    rw [List.filter_cons_of_pos (by simp [hx]), List.length_cons]
  constructor
  · rintro ⟨pre, post, hl, hlt⟩
    cases pre with
    | nil =>
      obtain ⟨rfl, _⟩ := List.cons.inj hl
      rw [hx] at hexp
      cases hexp
    | cons y pre =>
      obtain ⟨rfl, hl'⟩ := List.cons.inj hl
      refine ⟨pre, post, hl', fun c hcap => ?_⟩
      have := hlt c hcap
      rw [hfilter] at this
      omega
  · rintro ⟨pre, post, rfl, hlt⟩
    refine ⟨x :: pre, post, rfl, fun c hcap => ?_⟩
    have := hlt c hcap
    rw [hfilter]
    omega

/-- a goal that is removed takes none -/
theorem reachedFrom_cons_of_expired (timeout now : Int64) (capacity : Option Nat) (i : Nat) (x : ι)
    (hs : List ι) (h : ι) (hx : isExpired impl timeout now x = true)
    (hc : ¬ capacity.any (· ≤ i) = true) :
    ReachedFrom impl timeout now capacity i (x :: hs) h ↔
      h = x ∨ ReachedFrom impl timeout now capacity i hs h := by
  have hroom : ∀ c ∈ capacity, i < c := fun c hcap => by
    by_contra hle
    exact hc ((Option.any_eq_true _ _).mpr ⟨c, hcap, decide_eq_true (by omega)⟩)
  have hfilter : ∀ pre : List ι, ((x :: pre).filter fun h => !isExpired impl timeout now h) =
      pre.filter fun h => !isExpired impl timeout now h := fun pre => by
    rw [List.filter_cons_of_neg (by simp [hx])]
  constructor
  · rintro ⟨pre, post, hl, hlt⟩
    cases pre with
    | nil => exact .inl (List.cons.inj hl).1.symm
    | cons y pre =>
      obtain ⟨rfl, hl'⟩ := List.cons.inj hl
      refine .inr ⟨pre, post, hl', fun c hcap => ?_⟩
      rw [← hfilter pre]
      exact hlt c hcap
  · rintro (rfl | ⟨pre, post, rfl, hlt⟩)
    · exact ⟨[], hs, rfl, hroom⟩
    · refine ⟨x :: pre, post, rfl, fun c hcap => ?_⟩
      rw [hfilter]
      exact hlt c hcap

theorem mem_expireScan_expired_from (timeout now : Int64) (capacity : Option Nat) (i k : Nat)
    (hs : List ι) (h : ι) :
    h ∈ (expireScan impl timeout now capacity i k hs).expired ↔
      isExpired impl timeout now h = true ∧ ReachedFrom impl timeout now capacity i hs h := by
  induction hs generalizing i k with
  | nil =>
    refine ⟨fun hm => absurd hm List.not_mem_nil, ?_⟩
    rintro ⟨_, pre, post, hl, _⟩
    simp at hl
  | cons x hs ih =>
    -- `x` is kept and the scan goes on behind it
    have hkeep : isExpired impl timeout now x = false → ∀ k,
        (h ∈ (expireScan impl timeout now capacity (i + 1) k hs).expired ↔
          isExpired impl timeout now h = true ∧
            ReachedFrom impl timeout now capacity i (x :: hs) h) := by
      intro hx k
      rw [ih]
      exact and_congr_right fun hexp =>
        (reachedFrom_cons_of_kept timeout now capacity i x hs h hx hexp).symm
    unfold expireScan
    by_cases hc : capacity.any (· ≤ i) = true
    · rw [if_pos hc]
      exact ⟨fun hm => absurd hm List.not_mem_nil, fun hr =>
        absurd hr.2 (not_reachedFrom_of_full timeout now capacity i (x :: hs) h hc)⟩
    · rw [if_neg hc]
      cases ha : (impl x).state.isActive with
      | true =>
        rw [if_pos rfl]
        exact hkeep (isExpired_of_active timeout now x ha) k
      | false =>
        have hx := isExpired_of_inactive timeout now x ha
        simp only [Bool.false_eq_true, if_false]
        split
        · rename_i hold
          rw [decide_eq_true hold] at hx
          rw [reachedFrom_cons_of_expired timeout now capacity i x hs h hx hc]
          simp only [List.mem_cons, ih]
          constructor
          · rintro (rfl | ⟨hexp, hr⟩)
            · exact ⟨hx, .inl rfl⟩
            · exact ⟨hexp, .inr hr⟩
          · rintro ⟨hexp, hr⟩
            exact hr.imp_right fun hr => ⟨hexp, hr⟩
        · rename_i hyoung
          rw [decide_eq_false hyoung] at hx
          exact hkeep hx k

/-- **The scan removes the goals that it reaches and that are expired.** -/
theorem mem_expireScan_expired (timeout now : Int64) (capacity : Option Nat) (hs : List ι) (h : ι) :
    h ∈ (expireScan impl timeout now capacity 0 0 hs).expired ↔
      isExpired impl timeout now h = true ∧ Reached impl timeout now capacity hs h := by
  rw [mem_expireScan_expired_from]
  unfold ReachedFrom Reached
  simp only [Nat.zero_add]

end

end PMROS2.RclAction
