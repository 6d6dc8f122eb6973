import PMROS2.Lifecycle.ChangeStateService

/-!
# Requests whose notification is not published

`_trigger_transition` (`rcl_lifecycle.c`) reports a notification that cannot be published with the
same error as a request that is not valid, but then the state has been set already;
`change_state` takes every error for a transition that has not been started.

* `trigger`               a request by id or by label;
* `kept_iff`              a failed request leaves the current state, exactly then;
* `rests_iff`             a `change_state` that does not start leaves the node in its primary state,
                          exactly then;
* `errors_leave_state_iff`   both.
-/

namespace PMROS2.Lifecycle

inductive Request where
  | byId (id : UInt8)
  | byLabel (label : List Char)

namespace Machine
variable (m : Machine)

/-- the transition of the current state that is asked for -/
def requested : Request → Option Transition
  | .byId id => m.getTransitionById id
  | .byLabel label => m.getTransitionByLabel label

/-- `rcl_lifecycle_trigger_transition_by_id` and `.._by_label`; `published`: the notification, if
there is to be one, is published -/
def trigger (publishNotification published : Bool) : Request → Machine × RclRet
  | .byId id => m.triggerTransitionById id (!publishNotification || published)
  | .byLabel label => m.triggerTransitionByLabel label (!publishNotification || published)

theorem trigger_eq (b published : Bool) (req : Request) :
    m.trigger b published req = m.triggerTransition (m.requested req) (!b || published) := by
  cases req <;> rfl

end Machine

/-- an error leaves the current state -/
def Kept (m : Machine) (r : Machine × RclRet) : Prop := r.2 = .error → r.1.current = m.current

/-- **A request that fails** leaves the current state unless its transition is there, the
notification is not published and the goal is another state. -/
theorem kept_iff (m : Machine) (b published : Bool) (req : Request) :
    Kept m (m.trigger b published req) ↔
      (b = true → published = false →
        ∀ t ∈ m.requested req, ∀ g ∈ t.goal, m.current = some g) := by
  rw [m.trigger_eq]
  cases hreq : m.requested req with
  | none =>
    refine iff_of_true (fun _ => rfl) ?_
    intro _ _ t ht
    cases ht
  | some t =>
    cases hgoal : t.goal with
    | none =>
      refine iff_of_true ?_ ?_
      · rw [Kept, Machine.triggerTransition, hgoal]
        exact fun _ => rfl
      · intro _ _ t' ht' g hg
        rw [← Option.some.inj ht', hgoal] at hg
        cases hg
    | some g =>
      rw [Kept, Machine.triggerTransition, hgoal]
      constructor
      · intro h hb hp t' ht' g' hg'
        rw [hb, hp] at h
        rw [← Option.some.inj ht', hgoal] at hg'
        rw [← Option.some.inj hg']
        exact (h rfl).symm
      · intro h herror
        cases b with
        | false => cases herror
        | true =>
          cases published with
          | true => cases herror
          | false => exact (h rfl rfl t rfl g hgoal).symm

/-! ## nodes -/

section
variable {ids : Ids} {m : Machine} {p : Primary}

/-- a `change_state` that does not start its transition fails, the node is in the primary state
`p`, and requests that this state allows are granted -/
def Rests (ids : Ids) (m : Machine) (p : Primary) (id : UInt8) (cbs : Callbacks)
    (published : Nat → Bool) (code : CallbackReturn) : Prop :=
  (m.trigger true (published 0) (.byId id)).2 = .error →
    (changeState m id cbs published code).2.1 = .error ∧
      At ids (changeState m id cbs published code).1 p.name ∧
      ∀ id' cbs' code', Design.requested ids p id' ≠ none →
        (changeState (changeState m id cbs published code).1 id' cbs' (fun _ => true) code').2.1 =
          .ok

theorem trigger_primary (h : At ids m p.name) (id : UInt8) (published : Bool) :
    m.trigger true published (.byId id) =
      m.moveTo ((Design.requested ids p id).map Stage.name) published := by
  show m.triggerTransitionById id (false || published) = _
  rw [Bool.false_or, h.triggerTransitionById, goalFrom_primary]

theorem accepts_of_at {m' : Machine} (h : At ids m' p.name) (id' : UInt8) (cbs' : Callbacks)
    (code' : CallbackReturn) (hr : Design.requested ids p id' ≠ none) :
    (changeState m' id' cbs' (fun _ => true) code').2.1 = .ok := by
  obtain ⟨s, hs⟩ := Option.ne_none_iff_exists'.mp hr
  obtain ⟨m'', hrun, -⟩ := changeState_valid h hs cbs' (fun _ => true) (fun _ => rfl) code'
  rw [hrun]

theorem stage_ne_primary (s : Stage) (p : Primary) : s.name ≠ p.name := by
  cases s <;> cases p <;> decide

/-- **A node whose transition is not started** rests in its primary state unless the request is
valid and its notification is not published. -/
theorem rests_iff (h : At ids m p.name) (id : UInt8) (cbs : Callbacks) (published : Nat → Bool)
    (code : CallbackReturn) :
    Rests ids m p id cbs published code ↔
      (published 0 = false → Design.requested ids p id = none) := by
  unfold Rests
  rw [trigger_primary h]
  cases hr : Design.requested ids p id with
  | none =>
    refine iff_of_true ?_ fun _ => rfl
    intro _
    rw [changeState_invalid h hr]
    exact ⟨rfl, h, fun id' cbs' code' => accepts_of_at h id' cbs' code'⟩
  | some s =>
    cases hp : published 0 with
    | true =>
      refine iff_of_true ?_ fun hbad => (by cases hbad)
      intro herror
      cases herror
    | false =>
      refine iff_of_false ?_ fun hbad => (by cases hbad rfl)
      intro hrests
      -- the call stops in the stage
      have htrig : m.triggerTransitionById id (published 0) =
          ({ m with current := some (stateIndex s.name) }, .error) := by
        rw [h.triggerTransitionById, goalFrom_primary, hr, hp]
        rfl
      have hcall : changeState m id cbs published code =
          ({ m with current := some (stateIndex s.name) }, .error, code) := by
        simp only [changeState, h.isInitialized, if_true, h.currentState, htrig]
      obtain ⟨-, hat, -⟩ := hrests rfl
      rw [hcall] at hat
      exact stage_ne_primary s p ((h.move s.name).name_unique hat)

end

/-- **Errors and the current state**: a request leaves the current state, and a node whose
transition is not started rests in its primary state, exactly then. -/
theorem errors_leave_state_iff (ids : Ids) (m : Machine) :
    (∀ (b published : Bool) (req : Request), Kept m (m.trigger b published req) ↔
      (b = true → published = false →
        ∀ t ∈ m.requested req, ∀ g ∈ t.goal, m.current = some g)) ∧
    ∀ p : Primary, At ids m p.name →
      ∀ (id : UInt8) (cbs : Callbacks) (published : Nat → Bool) (code : CallbackReturn),
        Rests ids m p id cbs published code ↔
          (published 0 = false → Design.requested ids p id = none) :=
  ⟨kept_iff m, fun _ h => rests_iff h⟩

/-- a new node: its configuration cannot be announced, and it rests -/
theorem errors_leave_state_iff_new : ∃ m, initDefaultStateMachine documentedIds = .ok m ∧
    ¬ Rests documentedIds m .unconfigured 1 alwaysSuccess (fun _ => false) .success := by
  obtain ⟨m, hm, h⟩ := initDefaultStateMachine_ok documentedIds
  refine ⟨m, hm, ?_⟩
  rw [(errors_leave_state_iff documentedIds m).2 .unconfigured h]
  intro hbad
  cases hbad rfl

/-- the node is told that its configuration has not begun, and is in `configuring` -/
theorem not_kept : ¬ ∀ (m : Machine) (b published : Bool) (req : Request),
    Kept m (m.trigger b published req) := by
  intro hall
  obtain ⟨m, -, h⟩ := initDefaultStateMachine_ok documentedIds
  have hkept := hall m true false (.byId 1)
  rw [Kept, trigger_primary (p := .unconfigured) h] at hkept
  have hsame : some (stateIndex .configuring) = m.current := hkept rfl
  rw [h.current] at hsame
  cases hsame

end PMROS2.Lifecycle
