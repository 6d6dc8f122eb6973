import PMROS2.RclcppAction.Server

/-!
# What one step of the action server can do

`Move` lists the steps by their effect, each with the state it leads to, and `step_move` says that
there are no others.  `WellFormed` is the part of the invariant that every run keeps: the goals of
the `rcl` server have different ids, and the goal handle a `Server` knows for an id is the one the
`rcl` server has for it, if it has one.
-/

namespace PMROS2.RclcppAction
open Runs RclAction

section
variable {ρ : Type*}

/-! ## what one step can do -/

def Action.Ends : Action ρ → Nat → Prop
  | .abort k _, h | .succeed k _, h | .canceled k _, h | .destroy k, h => k = h
  | _, _ => False

/-- the scan of one round of `execute_check_expired_goals` -/
def State.scan (s : State ρ) (now : Int64) : ExpireScan Nat :=
  expireScan s.impl s.actionServer.resultTimeout now (some 1) 0 0 s.actionServer.goalHandles

/-- the state of goal `h` is set to `t` -/
def State.setState (s : State ρ) (h : Nat) (t : GoalState) : State ρ :=
  { s with impl := Function.update s.impl h { s.impl h with state := t } }

/-- a goal request is answered and the goal `s.next` is added in the state `t` -/
def State.addGoal (s : State ρ) (uuid : GoalUUID) (answer : GoalResponse) (now : Int64)
    (t : GoalState) : State ρ :=
  { s with
    goalResponses := s.goalResponses ++ [(uuid, isAccepted answer)]
    impl := Function.update s.impl s.next ⟨⟨uuid, nanosecToGoalInfoStamp now⟩, t⟩
    actionServer := { s.actionServer with goalHandles := s.actionServer.goalHandles ++ [s.next] }
    next := s.next + 1
    goalHandles := Function.update s.goalHandles uuid (some s.next)
    alive := Function.update s.alive s.next true
    phase := Function.update s.phase s.next .active
    serverGoalHandles := Function.update s.serverGoalHandles uuid (some s.next) }

/-- the steps by their effect -/
inductive Move (s : State ρ) : Action ρ → State ρ → Prop
  /-- a call of the user that throws -/
  | stutter (a : Action ρ) (h : Nat) (ha : a = .execute h ∨ a.Ends h) : Move s a s
  /-- a goal request is answered and adds no goal -/
  | answered (uuid : GoalUUID) (answer : GoalResponse) (now : Int64)
      (h : isAccepted answer = false ∨ goalExists s.impl s.actionServer uuid = true) :
      Move s (.goalRequest uuid answer now)
        { s with goalResponses := s.goalResponses ++ [(uuid, isAccepted answer)] }
  /-- a goal request is answered and adds the goal `s.next` -/
  | added (uuid : GoalUUID) (answer : GoalResponse) (now : Int64) (t : GoalState)
      (ha : isAccepted answer = true) (he : goalExists s.impl s.actionServer uuid = false)
      (ht : t.isActive = true) (hfree : s.cancelCall = none) :
      Move s (.goalRequest uuid answer now) (s.addGoal uuid answer now t)
  /-- a result request is answered -/
  | resultSent (uuid : GoalUUID) (r : ResultResponse ρ)
      (h : s.goalOf uuid = none ∧ r = { status := .unknown } ∨
        s.goalOf uuid ≠ none ∧ s.goalResults uuid = some r) :
      Move s (.resultRequest uuid)
        { s with
          requests := s.requests ++ [⟨uuid, s.goalOf uuid⟩]
          sent := s.sent ++ [(s.requests.length, r)] }
  /-- a result request is stored -/
  | resultStored (uuid : GoalUUID) (h : s.goalOf uuid ≠ none) (hr : s.goalResults uuid = none) :
      Move s (.resultRequest uuid)
        { s with
          requests := s.requests ++ [⟨uuid, s.goalOf uuid⟩]
          resultRequests := Function.update s.resultRequests uuid
            (s.resultRequests uuid ++ [s.requests.length]) }
  | noneExpired (now : Int64) (timer : Option Int64) (h : (s.scan now).expired = [])
      (hfree : s.cancelCall = none) :
      Move s (.checkExpiredGoals now)
        { s with actionServer := { s.actionServer with
            goalHandles := (s.scan now).kept
            expireTimer := timer } }
  /-- goals expire, and the maps forget the first of them -/
  | expired (now : Int64) (timer : Option Int64) (h : Nat) (hs : List Nat)
      (he : (s.scan now).expired = h :: hs) (hfree : s.cancelCall = none) :
      Move s (.checkExpiredGoals now)
        { s with
          actionServer := { s.actionServer with
            goalHandles := (s.scan now).kept
            expireTimer := timer }
          goalResults := Function.update s.goalResults (s.uuid h) none
          resultRequests := Function.update s.resultRequests (s.uuid h) []
          goalHandles := Function.update s.goalHandles (s.uuid h) none }
  /-- a goal handle starts executing -/
  | executed (h : Nat) (t : GoalState) (hn : h < s.next)
      (ha : (s.impl h).state.isActive = true) (ht : t.isActive = true) :
      Move s (.execute h) (s.setState h t)
  /-- a goal handle changes to a terminal state -/
  | ended (a : Action ρ) (h : Nat) (t : GoalState) (r : ResultResponse ρ) (alive : Nat → Bool)
      (hn : h < s.next) (ha : (s.impl h).state.isActive = true) (ht : t.isTerminal = true)
      (hr : r.status = t) (hend : a.Ends h) :
      Move s a
        { s.setState h t with
          alive := alive
          phase := Function.update s.phase h (.terminating r) }
  /-- a goal handle is destroyed after it has ended -/
  | destroyed (h : Nat) : Move s (.destroy h) { s with alive := Function.update s.alive h false }
  | published (h : Nat) (r : ResultResponse ρ) (hn : h < s.next) (hp : s.phase h = .terminating r)
      (he : goalExists s.impl s.actionServer (s.uuid h) = true) :
      Move s (.publish h)
        { s with
          goalResults := Function.update s.goalResults (s.uuid h) (some r)
          sent := s.sent ++ (s.resultRequests (s.uuid h)).map (·, r)
          phase := Function.update s.phase h (.published r) }
  | threw (h : Nat) (r : ResultResponse ρ) (hn : h < s.next) (hp : s.phase h = .terminating r)
      (he : goalExists s.impl s.actionServer (s.uuid h) = false) :
      Move s (.publish h) { s with phase := Function.update s.phase h (.threw r) }
  | notified (h : Nat) (r : ResultResponse ρ) (now : Int64) (timer : Option Int64)
      (hn : h < s.next) (hp : s.phase h = .published r) :
      Move s (.notify h now)
        { s with
          actionServer := { s.actionServer with expireTimer := timer }
          phase := Function.update s.phase h (.notified r) }
  | erased (h : Nat) (r : ResultResponse ρ) (hn : h < s.next) (hp : s.phase h = .notified r) :
      Move s (.eraseHandle h)
        { s with
          serverGoalHandles := Function.update s.serverGoalHandles (s.uuid h) none
          phase := Function.update s.phase h (.finished r) }
  | cancelBegan (request : GoalInfo) (code : CancelReturnCode) (goals : List Nat)
      (hp : processCancelRequest s.impl s.actionServer request = (code, goals))
      (hc : s.cancelCall = none) :
      Move s (.cancelRequest request)
        { s with cancelCall := some (.start code (goals.map fun h => (s.impl h).info)) }
  | cancelRejected (answer : CancelResponse) (c : CancelCall) (info : GoalInfo)
      (rest : List GoalInfo) (hc : s.cancelCall = some c) (hr : c.remaining = info :: rest)
      (ha : c.accepted = none) :
      Move s (.cancelCallback answer) { s with cancelCall := some (c.skip rest) }
  | cancelAccepted (c : CancelCall) (info : GoalInfo) (rest : List GoalInfo) (h : Nat)
      (hc : s.cancelCall = some c) (hr : c.remaining = info :: rest) (ha : c.accepted = none)
      (hs : s.serverGoalHandles info.goalId = some h) :
      Move s (.cancelCallback .accept)
        { s with cancelCall := some (c.hold h) }
  /-- `_cancel_goal` moves the goal -/
  | cancelMoved (c : CancelCall) (info : GoalInfo) (rest : List GoalInfo) (h : Nat) (t : GoalState)
      (hc : s.cancelCall = some c) (hr : c.remaining = info :: rest) (ha : c.accepted = some h)
      (hst : (s.impl h).state.isCancelable = true) (hact : (s.impl h).state.isActive = true)
      (ht : t.isActive = true) :
      Move s .cancelGoal
        { s.setState h t with cancelCall := some (c.move h info rest) }
  /-- `_cancel_goal` throws -/
  | cancelThrew (c : CancelCall) (info : GoalInfo) (rest : List GoalInfo) (h : Nat)
      (hc : s.cancelCall = some c) (hr : c.remaining = info :: rest) (ha : c.accepted = some h)
      (hst : (s.impl h).state.isCancelable = false) :
      Move s .cancelGoal
        { s with
          cancelCall := none
          cancelOutcomes := s.cancelOutcomes ++ [⟨c.moved, []⟩] }
  | cancelSent (c : CancelCall) (code : CancelReturnCode) (hc : s.cancelCall = some c)
      (hr : c.remaining = []) (ha : c.accepted = none) :
      Move s .sendCancelResponse
        { s with
          cancelCall := none
          cancelOutcomes := s.cancelOutcomes ++ [⟨c.moved, [⟨code, c.goalsCanceling⟩]⟩] }

/-! ## the functions of the server -/

theorem updateHandle_spec (s : State ρ) (h : Nat) (event : GoalEvent) :
    updateHandle s h event = none ∧ transitionGoalState (s.impl h).state event = .unknown ∨
    transitionGoalState (s.impl h).state event ≠ .unknown ∧
      updateHandle s h event =
        some (s.setState h (transitionGoalState (s.impl h).state event)) := by
  unfold updateHandle updateGoalState
  simp only
  by_cases ht : transitionGoalState (s.impl h).state event = .unknown
  · rw [if_pos ht]
    exact .inl ⟨rfl, ht⟩
  · rw [if_neg ht]
    exact .inr ⟨ht, rfl⟩

theorem usable_lt {s : State ρ} {h : Nat} (hu : s.usable h = true) : h < s.next := by
  unfold State.usable at hu
  rw [Bool.and_eq_true] at hu
  exact of_decide_eq_true hu.1

theorem endGoal_move (s : State ρ) (a : Action ρ) (h : Nat) (event : GoalEvent)
    (status : GoalState) (result : Option ρ) (hn : h < s.next) (ha : a.Ends h)
    (he : event.isTerminal = true)
    (hst : ∀ t, transitionGoalState t event ≠ .unknown → transitionGoalState t event = status) :
    Move s a (endGoal event status s h result) := by
  unfold endGoal
  rcases updateHandle_spec s h event with ⟨hu, _⟩ | ⟨ht, hu⟩
  · rw [hu]
    exact .stutter a h (.inr ha)
  · rw [hu]
    obtain ⟨hact, hterm⟩ := transition_terminalEvent _ event he ht
    exact .ended a h _ ⟨status, result⟩ s.alive hn hact hterm (hst _ ht).symm ha

theorem goalExists_eq (s : State ρ) (uuid : GoalUUID) :
    goalExists s.impl s.actionServer uuid = (s.goalOf uuid).isSome := by
  unfold goalExists State.goalOf
  rw [Bool.eq_iff_iff, List.find?_isSome, List.any_eq_true]

theorem executeGoalRequestReceived_move (s : State ρ) (uuid : GoalUUID) (answer : GoalResponse)
    (now : Int64) (hfree : s.cancelCall = none) :
    Move s (.goalRequest uuid answer now) (executeGoalRequestReceived s uuid answer now) := by
  unfold executeGoalRequestReceived acceptNewGoal
  cases ha : isAccepted answer with
  | false =>
    rw [if_neg Bool.false_ne_true]
    exact ha ▸ .answered uuid answer now (.inl ha)
  | true =>
    rw [if_pos rfl]
    cases he : goalExists s.impl s.actionServer uuid with
    | true =>
      simp only [if_true]
      exact ha ▸ .answered uuid answer now (.inr he)
    | false =>
      simp only [Bool.false_eq_true, if_false]
      split
      · -- a new goal handle is in the state `ACCEPTED`, so the event is valid
        rw [Function.update_self]
        have hmove := Move.added (s := s) uuid answer now .executing ha he rfl hfree
        unfold State.addGoal at hmove
        rw [ha] at hmove
        simp only [updateGoalState, goalHandleInit, transitionGoalState, goalStateTransitionMap,
          executeEventHandler, callGoalAcceptedCallback, ne_eq, not_true_eq_false, or_self,
          if_false, reduceCtorEq, Function.update_idem]
        exact hmove
      · have hmove := Move.added (s := s) uuid answer now .accepted ha he rfl hfree
        unfold State.addGoal at hmove
        rw [ha] at hmove
        exact hmove

theorem executeResultRequestReceived_move (s : State ρ) (uuid : GoalUUID) :
    Move s (.resultRequest uuid) (executeResultRequestReceived s uuid) := by
  unfold executeResultRequestReceived
  rw [goalExists_eq]
  cases hg : s.goalOf uuid with
  | none =>
    have hmove := Move.resultSent (s := s) uuid { status := .unknown } (.inl ⟨hg, rfl⟩)
    rw [hg] at hmove
    exact hmove
  | some h =>
    have hne : s.goalOf uuid ≠ none := by rw [hg]; exact Option.some_ne_none h
    simp only [Option.isSome_some, if_true]
    cases hr : s.goalResults uuid with
    | none =>
      have hmove := Move.resultStored (s := s) uuid hne hr
      rw [hg] at hmove
      exact hmove
    | some r =>
      have hmove := Move.resultSent (s := s) uuid r (.inr ⟨hne, hr⟩)
      rw [hg] at hmove
      exact hmove

theorem executeCheckExpiredGoals_move (s : State ρ) (now : Int64) (hfree : s.cancelCall = none) :
    Move s (.checkExpiredGoals now) (executeCheckExpiredGoals s now) := by
  unfold executeCheckExpiredGoals expireGoals
  rw [if_neg (by decide)]
  simp only [Option.getD_some]
  cases he : (s.scan now).expired with
  | nil =>
    rw [show (expireScan s.impl s.actionServer.resultTimeout now (some 1) 0 0
      s.actionServer.goalHandles).expired = [] from he]
    exact .noneExpired now _ he hfree
  | cons h hs =>
    rw [show (expireScan s.impl s.actionServer.resultTimeout now (some 1) 0 0
      s.actionServer.goalHandles).expired = h :: hs from he]
    exact .expired now _ h hs he hfree

theorem execute_move (s : State ρ) (h : Nat) (hn : h < s.next) :
    Move s (.execute h) (execute s h) := by
  unfold execute
  rcases updateHandle_spec s h .execute with ⟨hu, _⟩ | ⟨ht, hu⟩
  · rw [hu]
    exact .stutter _ h (.inl rfl)
  · rw [hu]
    obtain ⟨hact, hact'⟩ := transition_active _ .execute rfl ht
    exact .executed h _ hn hact hact'

/-- the destructor ends a goal that is active, and otherwise only frees the handle -/
theorem destroy_move (s : State ρ) (h : Nat) (hn : h < s.next) :
    Move s (.destroy h) (destroy s h) := by
  cases hact : (s.impl h).state.isActive with
  | true =>
    have hend : destroy s h =
        { s.setState h .canceled with
          alive := Function.update s.alive h false
          phase := Function.update s.phase h (.terminating { status := .canceled }) } := by
      rcases (isActive_iff _).mp hact with hst | hst | hst <;>
        simp [destroy, hst, GoalState.isCancelable, transitionGoalState, goalStateTransitionMap,
          cancelGoalEventHandler, canceledEventHandler, updateHandle, updateGoalState, endGoal,
          State.setState]
    rw [hend]
    exact .ended _ h .canceled { status := .canceled } _ hn hact rfl rfl rfl
  | false =>
    have hcan : (s.impl h).state.isCancelable = false := by
      rw [Bool.eq_false_iff, ne_eq, isCancelable_iff]
      intro ht
      rw [(transition_active _ .cancelGoal rfl ht).1] at hact
      cases hact
    have hne : (s.impl h).state ≠ .canceling := fun hst => by
      rw [hst] at hact
      cases hact
    have hsame : destroy s h = { s with alive := Function.update s.alive h false } := by
      unfold destroy
      simp only [hcan, Bool.false_eq_true, if_false, hne]
    rw [hsame]
    exact .destroyed h

theorem cancelGoal_move (s : State ρ) (c : CancelCall) (info : GoalInfo) (rest : List GoalInfo)
    (h : Nat) (hc : s.cancelCall = some c) (hr : c.remaining = info :: rest)
    (ha : c.accepted = some h) : Move s .cancelGoal (cancelGoal s c h info rest) := by
  unfold cancelGoal
  rcases updateHandle_spec s h .cancelGoal with ⟨hu, ht⟩ | ⟨ht, hu⟩
  · rw [hu]
    refine .cancelThrew c info rest h hc hr ha ?_
    rw [Bool.eq_false_iff, ne_eq, isCancelable_iff, ht]
    exact fun hne => hne rfl
  · rw [hu]
    obtain ⟨hact, hact'⟩ := transition_active _ .cancelGoal rfl ht
    exact .cancelMoved c info rest h _ hc hr ha ((isCancelable_iff _).mpr ht) hact hact'

theorem callHandleCancelCallback_move (s : State ρ) (c : CancelCall) (info : GoalInfo)
    (rest : List GoalInfo) (answer : CancelResponse) (hc : s.cancelCall = some c)
    (hr : c.remaining = info :: rest) (ha : c.accepted = none) :
    Move s (.cancelCallback answer) (callHandleCancelCallback s c info rest answer) := by
  unfold callHandleCancelCallback
  split
  · exact .cancelRejected answer c info rest hc hr ha
  · rename_i h hs
    split
    · rename_i hacc
      rw [Bool.and_eq_true, decide_eq_true_iff] at hacc
      rw [hacc.2]
      exact .cancelAccepted c info rest h hc hr ha hs
    · exact .cancelRejected answer c info rest hc hr ha

theorem publishResult_move (s : State ρ) (h : Nat) (r : ResultResponse ρ) (hn : h < s.next)
    (hp : s.phase h = .terminating r) : Move s (.publish h) (publishResult s h r) := by
  unfold publishResult
  cases he : goalExists s.impl s.actionServer (s.uuid h) with
  | true => simp only [he, if_true]; exact .published h r hn hp he
  | false => simp only [he, Bool.false_eq_true, if_false]; exact .threw h r hn hp he

/-- **There are no other steps.** -/
theorem step_move (s s' : State ρ) (a : Action ρ) (hs : step s a = some s') : Move s a s' := by
  cases a with
  | goalRequest uuid answer now =>
    obtain ⟨hfree, rfl⟩ := guarded_eq_some.mp hs
    exact executeGoalRequestReceived_move s uuid answer now (Option.isNone_iff_eq_none.mp hfree)
  | resultRequest uuid =>
    obtain ⟨_, rfl⟩ := guarded_eq_some.mp hs
    exact executeResultRequestReceived_move s uuid
  | checkExpiredGoals now =>
    obtain ⟨hfree, rfl⟩ := guarded_eq_some.mp hs
    exact executeCheckExpiredGoals_move s now (Option.isNone_iff_eq_none.mp hfree)
  | execute h =>
    obtain ⟨hu, rfl⟩ := guarded_eq_some.mp hs
    exact execute_move s h (usable_lt hu)
  | abort h result =>
    obtain ⟨hu, rfl⟩ := guarded_eq_some.mp hs
    exact endGoal_move s _ h .abort .aborted _ (usable_lt hu) rfl rfl fun t => by cases t <;> decide
  | succeed h result =>
    obtain ⟨hu, rfl⟩ := guarded_eq_some.mp hs
    exact endGoal_move s _ h .succeed .succeeded _ (usable_lt hu) rfl rfl fun t => by
      cases t <;> decide
  | canceled h result =>
    obtain ⟨hu, rfl⟩ := guarded_eq_some.mp hs
    exact endGoal_move s _ h .canceled .canceled _ (usable_lt hu) rfl rfl fun t => by
      cases t <;> decide
  | destroy h =>
    obtain ⟨hu, rfl⟩ := guarded_eq_some.mp hs
    exact destroy_move s h (usable_lt (Bool.and_eq_true _ _ ▸ hu).1)
  | publish h =>
    simp only [step] at hs
    split at hs
    · rename_i r hp
      obtain ⟨⟨hn, _⟩, rfl⟩ := guarded_eq_some.mp hs
      exact publishResult_move s h r hn hp
    · cases hs
  | notify h now =>
    simp only [step] at hs
    split at hs
    · rename_i r hp
      obtain ⟨⟨hn, _⟩, rfl⟩ := guarded_eq_some.mp hs
      exact .notified h r now _ hn hp
    · cases hs
  | eraseHandle h =>
    simp only [step] at hs
    split at hs
    · rename_i r hp
      obtain ⟨⟨hn, _⟩, rfl⟩ := guarded_eq_some.mp hs
      exact .erased h r hn hp
    · cases hs
  | cancelRequest request =>
    obtain ⟨hc, rfl⟩ := guarded_eq_some.mp hs
    exact .cancelBegan request _ _ rfl (Option.isNone_iff_eq_none.mp hc)
  | cancelCallback answer =>
    simp only [step] at hs
    split at hs
    · rename_i c hc
      split at hs
      · rename_i info rest ha hr
        obtain rfl := Option.some.inj hs
        exact callHandleCancelCallback_move s c info rest answer hc hr ha
      · cases hs
    · cases hs
  | cancelGoal =>
    simp only [step] at hs
    split at hs
    · rename_i c hc
      split at hs
      · rename_i h info rest ha hr
        obtain rfl := Option.some.inj hs
        exact cancelGoal_move s c info rest h hc hr ha
      · cases hs
    · cases hs
  | sendCancelResponse =>
    simp only [step] at hs
    split at hs
    · rename_i c hc
      split at hs
      · rename_i ha hr
        obtain rfl := Option.some.inj hs
        exact .cancelSent c _ hc hr ha
      · cases hs
    · cases hs

/-! ## the goals of the server -/

/-- the goal handles of the `rcl` server -/
abbrev State.listed (s : State ρ) : List Nat := s.actionServer.goalHandles

structure WellFormed (s : State ρ) : Prop where
  nodup : s.listed.Nodup
  allocated : ∀ h ∈ s.listed, h < s.next
  distinct : ∀ h ∈ s.listed, ∀ k ∈ s.listed, s.uuid h = s.uuid k → h = k
  known : ∀ u h, s.serverGoalHandles u = some h →
    h < s.next ∧ s.uuid h = u ∧ ∀ k ∈ s.listed, s.uuid k = u → k = h

theorem setState_info (s : State ρ) (h k : Nat) (t : GoalState) :
    ((s.setState h t).impl k).info = (s.impl k).info := by
  unfold State.setState
  by_cases hk : k = h
  · subst hk; simp
  · simp [hk]

theorem setState_uuid (s : State ρ) (h k : Nat) (t : GoalState) :
    (s.setState h t).uuid k = s.uuid k := congrArg GoalInfo.goalId (setState_info s h k t)

/-- removing goals and forgetting handles keeps a server well formed -/
theorem WellFormed.mono {s s' : State ρ} (hw : WellFormed s) (hnodup : s'.listed.Nodup)
    (hlisted : ∀ h ∈ s'.listed, h ∈ s.listed) (hnext : s'.next = s.next)
    (huuid : ∀ h, s'.uuid h = s.uuid h)
    (hknown : ∀ u h, s'.serverGoalHandles u = some h → s.serverGoalHandles u = some h) :
    WellFormed s' where
  nodup := hnodup
  allocated h hm := by rw [hnext]; exact hw.allocated h (hlisted h hm)
  distinct h hm k hk e := by
    rw [huuid, huuid] at e
    exact hw.distinct h (hlisted h hm) k (hlisted k hk) e
  known u h hu := by
    obtain ⟨hn, hid, hall⟩ := hw.known u h (hknown u h hu)
    refine ⟨by rw [hnext]; exact hn, by rw [huuid]; exact hid, fun k hk e => ?_⟩
    rw [huuid] at e
    exact hall k (hlisted k hk) e

theorem mem_listed_of_kept (s : State ρ) (now : Int64) (h : Nat) (hm : h ∈ (s.scan now).kept) :
    h ∈ s.listed :=
  (expireScan_perm _ _ _ _ _ _ _).mem_iff.mp (List.mem_append_left _ hm)

theorem kept_nodup (s : State ρ) (now : Int64) (hw : WellFormed s) : (s.scan now).kept.Nodup :=
  (List.nodup_append.mp ((expireScan_perm _ _ _ _ _ _ _).nodup_iff.mpr hw.nodup)).1

theorem goalExists_false (s : State ρ) (uuid : GoalUUID)
    (he : goalExists s.impl s.actionServer uuid = false) : ∀ h ∈ s.listed, s.uuid h ≠ uuid := by
  unfold goalExists at he
  rw [List.any_eq_false] at he
  exact fun h hm e => he h hm (decide_eq_true e)

theorem addGoal_uuid_of_ne (s : State ρ) (uuid : GoalUUID) (answer : GoalResponse) (now : Int64)
    (t : GoalState) (h : Nat) (hh : h ≠ s.next) :
    (s.addGoal uuid answer now t).uuid h = s.uuid h := by
  unfold State.uuid State.addGoal
  simp only [Function.update_of_ne hh]

theorem addGoal_uuid_next (s : State ρ) (uuid : GoalUUID) (answer : GoalResponse) (now : Int64)
    (t : GoalState) : (s.addGoal uuid answer now t).uuid s.next = uuid := by
  unfold State.uuid State.addGoal
  simp only [Function.update_self]

theorem wellFormed_added (s : State ρ) (uuid : GoalUUID) (answer : GoalResponse) (now : Int64)
    (t : GoalState) (hw : WellFormed s)
    (he : goalExists s.impl s.actionServer uuid = false) :
    WellFormed (s.addGoal uuid answer now t) := by
  have hother := goalExists_false s uuid he
  have hne : ∀ h ∈ s.listed, h ≠ s.next := fun h hm e => by
    have := hw.allocated h hm
    omega
  have hold := addGoal_uuid_of_ne s uuid answer now t
  have hnew := addGoal_uuid_next s uuid answer now t
  refine ⟨?_, ?_, ?_, ?_⟩
  · exact List.nodup_append.mpr ⟨hw.nodup, List.nodup_singleton _, fun a ha b hb hab => by
      rw [List.mem_singleton] at hb
      exact hne a ha (hab.trans hb)⟩
  · intro h hm
    rcases List.mem_append.mp hm with hm | hm
    · exact Nat.lt_succ_of_lt (hw.allocated h hm)
    · rw [List.mem_singleton.mp hm]
      exact Nat.lt_succ_self _
  · intro h hm k hk e
    rcases List.mem_append.mp hm with hm | hm <;> rcases List.mem_append.mp hk with hk | hk
    · rw [hold h (hne h hm), hold k (hne k hk)] at e
      exact hw.distinct h hm k hk e
    · rw [List.mem_singleton.mp hk, hnew, hold h (hne h hm)] at e
      exact absurd e (hother h hm)
    · rw [List.mem_singleton.mp hm, hnew, hold k (hne k hk)] at e
      exact absurd e.symm (hother k hk)
    · rw [List.mem_singleton.mp hm, List.mem_singleton.mp hk]
  · intro u h hu
    simp only [State.addGoal] at hu
    by_cases huu : u = uuid
    · rw [huu, Function.update_self] at hu
      obtain rfl := Option.some.inj hu
      refine ⟨Nat.lt_succ_self _, by rw [hnew, huu], fun k hk e => ?_⟩
      rcases List.mem_append.mp hk with hk | hk
      · rw [hold k (hne k hk), huu] at e
        exact absurd e (hother k hk)
      · exact List.mem_singleton.mp hk
    · rw [Function.update_of_ne huu] at hu
      obtain ⟨hn, hid, hall⟩ := hw.known u h hu
      refine ⟨Nat.lt_succ_of_lt hn, by rw [hold h (Nat.ne_of_lt hn), hid], fun k hk e => ?_⟩
      rcases List.mem_append.mp hk with hk | hk
      · rw [hold k (hne k hk)] at e
        exact hall k hk e
      · rw [List.mem_singleton.mp hk, hnew] at e
        exact absurd e.symm huu

theorem wellFormed_step (s : State ρ) (a : Action ρ) (s' : State ρ) (hw : WellFormed s)
    (hs : step s a = some s') : WellFormed s' := by
  cases step_move s s' a hs with
  | stutter => exact hw
  | added uuid answer now t _ he _ _ => exact wellFormed_added s uuid answer now t hw he
  | noneExpired now timer _ _ =>
    exact hw.mono (kept_nodup s now hw) (mem_listed_of_kept s now) rfl (fun _ => rfl)
      fun _ _ hu => hu
  | expired now timer h hs _ _ =>
    exact hw.mono (kept_nodup s now hw) (mem_listed_of_kept s now) rfl (fun _ => rfl)
      fun _ _ hu => hu
  | executed h t _ _ _ =>
    exact hw.mono hw.nodup (fun _ hm => hm) rfl (fun k => setState_uuid s h k t) fun _ _ hu => hu
  | ended _ h t r alive _ _ _ _ _ =>
    exact hw.mono hw.nodup (fun _ hm => hm) rfl (fun k => setState_uuid s h k t) fun _ _ hu => hu
  | cancelMoved c info rest h t _ _ _ _ _ _ =>
    exact hw.mono hw.nodup (fun _ hm => hm) rfl (fun k => setState_uuid s h k t) fun _ _ hu => hu
  | erased h r _ _ =>
    refine hw.mono hw.nodup (fun _ hm => hm) rfl (fun _ => rfl) fun u k hu => ?_
    simp only [Function.update_apply] at hu
    split at hu
    · cases hu
    · exact hu
  | answered | resultSent | resultStored | destroyed | published | threw | notified | cancelBegan |
    cancelRejected | cancelAccepted | cancelThrew | cancelSent =>
    all_goals exact hw.mono hw.nodup (fun _ hm => hm) rfl (fun _ => rfl) fun _ _ hu => hu

theorem wellFormed_init (s : State ρ) (hi : IsInit s) : WellFormed s := by
  obtain ⟨timeout, server, hinit, rfl⟩ := hi
  unfold actionServerInit at hinit
  split at hinit
  · cases hinit
  · obtain rfl := Except.ok.inj hinit
    exact ⟨List.nodup_nil, fun _ hm => absurd hm List.not_mem_nil,
      fun _ hm => absurd hm List.not_mem_nil, fun _ _ hu => by cases hu⟩

end

end PMROS2.RclcppAction
