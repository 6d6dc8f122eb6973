import PMROS2.RclcppAction.Moves

/-!
# Answers to goal requests

`execute_goal_request_received` sends the answer of the user's callback before
`rcl_action_accept_new_goal` looks for the id among the goals it has.

`goal_answered_iff`: throughout a run the answers are `accepted` exactly for the requests that got
a goal handle, if and only if no request is accepted by the user while the `rcl` server holds a
goal of the same id.
-/

namespace PMROS2.RclcppAction
open Runs RclAction

section
variable {ρ : Type*}

/-- the request is answered `accepted` exactly when both servers hold a new goal handle for it -/
def AnsweredRightly (s : State ρ) (a : Action ρ) (s' : State ρ) : Prop :=
  match a with
  | .goalRequest uuid _ _ => ∃ accepted,
      s'.goalResponses = s.goalResponses ++ [(uuid, accepted)] ∧
      (accepted = true ↔ ∃ h, s.next ≤ h ∧ h ∈ s'.listed ∧ s'.uuid h = uuid ∧
        s'.goalHandles uuid = some h)
  | _ => True

/-- the user rejects the goal, or its id is new to the `rcl` server -/
def FreshOrRejected (s : State ρ) (a : Action ρ) : Prop :=
  match a with
  | .goalRequest uuid answer _ => answer = .reject ∨ ∀ h ∈ s.listed, s.uuid h ≠ uuid
  | _ => True

theorem isAccepted_eq_false (answer : GoalResponse) :
    isAccepted answer = false ↔ answer = .reject := by
  cases answer <;> decide

theorem goalExists_iff (s : State ρ) (uuid : GoalUUID) :
    goalExists s.impl s.actionServer uuid = false ↔ ∀ h ∈ s.listed, s.uuid h ≠ uuid := by
  refine ⟨goalExists_false s uuid, fun h => ?_⟩
  unfold goalExists
  rw [List.any_eq_false]
  exact fun k hk e => h k hk (of_decide_eq_true e)

theorem answeredRightly_iff (s : State ρ) (a : Action ρ) (s' : State ρ) (hw : WellFormed s)
    (hs : step s a = some s') : AnsweredRightly s a s' ↔ FreshOrRejected s a := by
  cases step_move s s' a hs with
  | answered uuid answer now h =>
    -- no goal was added, so the answer has to be a rejection
    have hnone : ¬ ∃ h, s.next ≤ h ∧ h ∈ s.listed ∧ s.uuid h = uuid ∧
        s.goalHandles uuid = some h := by
      rintro ⟨h, hle, hm, _⟩
      have := hw.allocated h hm
      omega
    constructor
    · rintro ⟨accepted, hresp, hiff⟩
      obtain rfl : isAccepted answer = accepted := by simpa using hresp
      refine .inl ((isAccepted_eq_false answer).mp ?_)
      exact Bool.eq_false_iff.mpr fun ha => hnone (hiff.mp ha)
    · intro hf
      refine ⟨isAccepted answer, rfl, fun ha => ?_, fun he => absurd he hnone⟩
      rcases hf with hf | hf
      · rw [(isAccepted_eq_false answer).mpr hf] at ha
        cases ha
      · rw [ha, (goalExists_iff s uuid).mpr hf] at h
        rcases h with h | h <;> cases h
  | added uuid answer now t ha he _ _ =>
    refine ⟨fun _ => .inr ((goalExists_iff s uuid).mp he), fun _ => ⟨true, by rw [← ha]; rfl, ?_⟩⟩
    refine ⟨fun _ => ⟨s.next, le_refl _, List.mem_append_right _ (List.mem_singleton_self _), ?_, ?_⟩,
      fun _ => rfl⟩
    · exact addGoal_uuid_next s uuid answer now t
    · simp only [State.addGoal, Function.update_self]
  | stutter _ h ha =>
    rcases ha with rfl | ha
    · exact Iff.rfl
    · cases a <;> first | exact Iff.rfl | exact ha.elim
  | ended _ h t r alive _ _ _ _ hend =>
    cases a <;> first | exact Iff.rfl | exact hend.elim
  | resultSent | resultStored | noneExpired | expired | executed | destroyed | published | threw |
    notified | erased | cancelBegan | cancelRejected | cancelAccepted | cancelMoved | cancelThrew |
    cancelSent => all_goals exact Iff.rfl

/-- **The answers to goal requests.**  For every run of a new server: every request is answered
`accepted` exactly when it got a new goal handle, if and only if no request is accepted by the
user while a goal of its id is held. -/
theorem goal_answered_iff (s : State ρ) (as : List (Action ρ)) (hi : IsInit s) :
    Along step AnsweredRightly s as ↔ Along step (fun s a _ => FreshOrRejected s a) s as :=
  along_congr wellFormed_step answeredRightly_iff as s (wellFormed_init s hi)

end

/-- two requests with different ids -/
theorem goal_answered_iff_two :
    IsInit ({ actionServer := { resultTimeout := 10 } } : State Unit) ∧
    (Along step AnsweredRightly ({ actionServer := { resultTimeout := 10 } } : State Unit)
        [.goalRequest 1 .acceptAndExecute 0, .goalRequest 2 .acceptAndDefer 0] ↔
      Along step (fun s a _ => FreshOrRejected s a)
        ({ actionServer := { resultTimeout := 10 } } : State Unit)
        [.goalRequest 1 .acceptAndExecute 0, .goalRequest 2 .acceptAndDefer 0]) :=
  have hi : IsInit ({ actionServer := { resultTimeout := 10 } } : State Unit) :=
    ⟨10, _, rfl, rfl⟩
  ⟨hi, goal_answered_iff _ _ hi⟩

/-- the same id twice: the second request is answered `accepted` too, and gets no goal handle -/
theorem duplicate_goal_answered_accepted :
    ¬ Along step AnsweredRightly ({ actionServer := { resultTimeout := 10 } } : State Unit)
      [.goalRequest 1 .acceptAndExecute 0, .goalRequest 1 .acceptAndExecute 0] := by
  intro h
  obtain ⟨accepted, hresp, hiff⟩ := ((h _ rfl).2 _ rfl).1
  have hlog : [((1 : GoalUUID), true), (1, true)] = [(1, true), (1, accepted)] := hresp
  obtain rfl : true = accepted := by simpa using hlog
  obtain ⟨k, hle, hm, _⟩ := hiff.mp rfl
  have hlisted : k ∈ [0] := hm
  have hnext : 1 ≤ k := hle
  rw [List.mem_singleton] at hlisted
  omega

end PMROS2.RclcppAction
