import PMROS2.RclcppAction.Moves

/-!
# Where the responses of the action server come from

Results wait in `goal_results_`, requests in `result_requests_`, and a response is sent when the
two meet.  Whatever order the requests, the ends of goals and their expiry come in, a response with
a result is the one that a goal with the requested id ended with.

* `Ended`       the goal has ended with that response, which was given to `publish_result`;
* `Answers`     the response that a request for an id may get;
* `Origins`     the invariant: stored results and sent responses are answers.
-/

namespace PMROS2.RclcppAction
open Runs RclAction

section
variable {ρ : Type*}

def Phase.response : Phase ρ → Option (ResultResponse ρ)
  | .active => none
  | .terminating r | .published r | .notified r | .finished r | .threw r => some r

theorem Phase.response_of_ended {p : Phase ρ} {r : ResultResponse ρ} (h : p.ended = some r) :
    p.response = some r := by
  cases p with
  | active | terminating r' => cases h
  | published r' | notified r' | finished r' | threw r' => exact h

/-- the goal `h` has the id `u` and has ended with `r` -/
structure Ended (s : State ρ) (h : Nat) (u : GoalUUID) (r : ResultResponse ρ) : Prop where
  allocated : h < s.next
  uuid : s.uuid h = u
  ended : (s.phase h).ended = some r

/-- what a request for the id `u` may be answered: that there is no such goal, or what a goal with
that id ended with -/
def Answers (s : State ρ) (u : GoalUUID) (r : ResultResponse ρ) : Prop :=
  r = { status := .unknown } ∨ ∃ h, Ended s h u r

structure Origins (s : State ρ) : Prop where
  /-- a goal has the status it ended with, -/
  outcome : ∀ h r, (s.phase h).response = some r →
    (s.impl h).state = r.status ∧ r.status.isTerminal = true
  /-- a result in `goal_results_` is the one of a goal with that id, -/
  results : ∀ u r, s.goalResults u = some r → ∃ h, Ended s h u r
  /-- a request in `result_requests_` is for the id it is stored under, -/
  stored : ∀ u q, q ∈ s.resultRequests u →
    ∃ request, s.requests[q]? = some request ∧ request.uuid = u
  /-- and a response answers its request -/
  sent : ∀ q r, (q, r) ∈ s.sent →
    ∃ request, s.requests[q]? = some request ∧ Answers s request.uuid r

/-! ## what stays -/

variable {s s' : State ρ} {a : Action ρ}

/-- the goals that are there keep their ids, and what they ended with -/
structure GoalsStay (s s' : State ρ) : Prop where
  next : s.next ≤ s'.next
  uuid : ∀ h, h < s.next → s'.uuid h = s.uuid h
  ended : ∀ h r, h < s.next → (s.phase h).ended = some r → (s'.phase h).ended = some r

theorem GoalsStay.of_eq (hnext : s'.next = s.next) (himpl : s'.impl = s.impl)
    (hphase : s'.phase = s.phase) : GoalsStay s s' :=
  ⟨hnext.ge, fun h _ => by unfold State.uuid; rw [himpl], fun h r _ he => by rw [hphase, he]⟩

theorem GoalsStay.of_phase {h : Nat} {p : Phase ρ} (hnext : s'.next = s.next)
    (huuid : ∀ h, s'.uuid h = s.uuid h) (hphase : s'.phase = Function.update s.phase h p)
    (hp : ∀ r, (s.phase h).ended = some r → p.ended = some r) : GoalsStay s s' := by
  refine ⟨hnext.ge, fun k _ => huuid k, fun k r _ he => ?_⟩
  rw [hphase]
  by_cases hk : k = h
  · subst hk
    rw [Function.update_self]
    exact hp r he
  · rw [Function.update_of_ne hk, he]

theorem GoalsStay.of_setState {h : Nat} {t : GoalState} (hnext : s'.next = s.next)
    (himpl : s'.impl = (s.setState h t).impl) (hphase : s'.phase = s.phase) : GoalsStay s s' := by
  refine ⟨hnext.ge, fun k _ => ?_, fun k r _ he => by rw [hphase, he]⟩
  refine Eq.trans ?_ (setState_uuid s h k t)
  unfold State.uuid
  rw [himpl]

theorem Ended.stays {h : Nat} {u : GoalUUID} {r : ResultResponse ρ} (he : Ended s h u r)
    (hstay : GoalsStay s s') : Ended s' h u r :=
  ⟨Nat.lt_of_lt_of_le he.allocated hstay.next, (hstay.uuid h he.allocated).trans he.uuid,
    hstay.ended h r he.allocated he.ended⟩

theorem Answers.stays {u : GoalUUID} {r : ResultResponse ρ} (ha : Answers s u r)
    (hstay : GoalsStay s s') : Answers s' u r := by
  rcases ha with h | ⟨h, he⟩
  · exact .inl h
  · exact .inr ⟨h, he.stays hstay⟩

theorem Origins.active_of_isActive (ho : Origins s) {h : Nat}
    (hact : (s.impl h).state.isActive = true) : (s.phase h).response = none := by
  cases hr : (s.phase h).response with
  | none => rfl
  | some r =>
    obtain ⟨hstate, ht⟩ := ho.outcome h r hr
    rw [hstate, isActive_of_isTerminal _ ht] at hact
    cases hact

theorem Move.goalsStay (ho : Origins s) (hm : Move s a s') : GoalsStay s s' := by
  cases hm with
  | added uuid answer now t _ _ _ _ =>
    refine ⟨Nat.le_succ _, fun h hn => addGoal_uuid_of_ne s uuid answer now t h hn.ne,
      fun h r hn he => ?_⟩
    show (Function.update s.phase s.next .active h).ended = some r
    rw [Function.update_of_ne hn.ne, he]
  | executed h t _ _ _ => exact .of_setState (h := h) (t := t) rfl rfl rfl
  | cancelMoved c info rest h t _ _ _ _ _ _ => exact .of_setState (h := h) (t := t) rfl rfl rfl
  | ended _ h t r alive _ hact _ _ _ =>
    refine .of_phase (h := h) (p := .terminating r) rfl (fun k => setState_uuid s h k t) rfl
      fun r' he => ?_
    have hnone := ho.active_of_isActive hact
    rw [Phase.response_of_ended he] at hnone
    cases hnone
  | published h r _ hp _ =>
    refine .of_phase (h := h) (p := .published r) rfl (fun _ => rfl) rfl fun r' he => ?_
    rw [hp] at he
    cases he
  | threw h r _ hp _ =>
    refine .of_phase (h := h) (p := .threw r) rfl (fun _ => rfl) rfl fun r' he => ?_
    rw [hp] at he
    cases he
  | notified h r now timer _ hp =>
    refine .of_phase (h := h) (p := .notified r) rfl (fun _ => rfl) rfl fun r' he => ?_
    rw [hp] at he
    exact he
  | erased h r _ hp =>
    refine .of_phase (h := h) (p := .finished r) rfl (fun _ => rfl) rfl fun r' he => ?_
    rw [hp] at he
    exact he
  | stutter | answered | resultSent | resultStored | noneExpired | expired | destroyed |
    cancelBegan | cancelRejected | cancelAccepted | cancelThrew | cancelSent =>
    all_goals exact .of_eq rfl rfl rfl

/-! ## the invariant is kept -/

/-- a step that only adds requests and responses to the logs keeps the rest -/
theorem Origins.outcome_of_eq (ho : Origins s) (himpl : s'.impl = s.impl)
    (hphase : s'.phase = s.phase) (h : Nat) (r : ResultResponse ρ)
    (hr : (s'.phase h).response = some r) :
    (s'.impl h).state = r.status ∧ r.status.isTerminal = true := by
  rw [hphase] at hr
  rw [himpl]
  exact ho.outcome h r hr

theorem Origins.outcome_of_phase (ho : Origins s) {h : Nat} {p : Phase ρ}
    (himpl : s'.impl = s.impl) (hphase : s'.phase = Function.update s.phase h p)
    (hp : p.response = (s.phase h).response) (k : Nat) (r : ResultResponse ρ)
    (hr : (s'.phase k).response = some r) :
    (s'.impl k).state = r.status ∧ r.status.isTerminal = true := by
  rw [hphase] at hr
  rw [himpl]
  by_cases hk : k = h
  · subst hk
    rw [Function.update_self, hp] at hr
    exact ho.outcome k r hr
  · rw [Function.update_of_ne hk] at hr
    exact ho.outcome k r hr

theorem Origins.outcome_of_setState (ho : Origins s) {h : Nat} {t : GoalState}
    (hact : (s.impl h).state.isActive = true) (himpl : s'.impl = (s.setState h t).impl)
    (hphase : s'.phase = s.phase) (k : Nat) (r : ResultResponse ρ)
    (hr : (s'.phase k).response = some r) :
    (s'.impl k).state = r.status ∧ r.status.isTerminal = true := by
  rw [hphase] at hr
  have hk : k ≠ h := by
    rintro rfl
    rw [ho.active_of_isActive hact] at hr
    cases hr
  have hsame : s'.impl k = s.impl k := by
    rw [himpl]
    exact Function.update_of_ne hk ..
  rw [hsame]
  exact ho.outcome k r hr

theorem Move.outcome (ho : Origins s) (hm : Move s a s') (k : Nat) (r : ResultResponse ρ)
    (hr : (s'.phase k).response = some r) :
    (s'.impl k).state = r.status ∧ r.status.isTerminal = true := by
  cases hm with
  | added uuid answer now t _ _ _ _ =>
    by_cases hk : k = s.next
    · subst hk
      simp only [State.addGoal, Function.update_self] at hr
      cases hr
    · simp only [State.addGoal, Function.update_of_ne hk] at hr ⊢
      exact ho.outcome k r hr
  | executed h t _ hact _ => exact ho.outcome_of_setState (t := t) hact rfl rfl k r hr
  | cancelMoved c info rest h t _ _ _ _ hact _ =>
    exact ho.outcome_of_setState (t := t) hact rfl rfl k r hr
  | ended _ h t r' alive _ _ ht hstatus _ =>
    by_cases hk : k = h
    · subst hk
      simp only [State.setState, Function.update_self] at hr ⊢
      obtain rfl : r' = r := Option.some.inj hr
      exact ⟨hstatus.symm, hstatus ▸ ht⟩
    · simp only [State.setState, Function.update_of_ne hk] at hr ⊢
      exact ho.outcome k r hr
  | published h r' _ hp _ =>
    have hresponse : (.published r' : Phase ρ).response = (s.phase h).response := by
      rw [hp]
      rfl
    refine ho.outcome_of_phase (h := h) ?_ ?_ hresponse k r hr
    · rfl
    · rfl
  | threw h r' _ hp _ =>
    have hresponse : (.threw r' : Phase ρ).response = (s.phase h).response := by
      rw [hp]
      rfl
    refine ho.outcome_of_phase (h := h) ?_ ?_ hresponse k r hr
    · rfl
    · rfl
  | notified h r' now timer _ hp =>
    have hresponse : (.notified r' : Phase ρ).response = (s.phase h).response := by
      rw [hp]
      rfl
    refine ho.outcome_of_phase (h := h) ?_ ?_ hresponse k r hr
    · rfl
    · rfl
  | erased h r' _ hp =>
    have hresponse : (.finished r' : Phase ρ).response = (s.phase h).response := by
      rw [hp]
      rfl
    refine ho.outcome_of_phase (h := h) ?_ ?_ hresponse k r hr
    · rfl
    · rfl
  | stutter | answered | resultSent | resultStored | noneExpired | expired | destroyed |
    cancelBegan | cancelRejected | cancelAccepted | cancelThrew | cancelSent =>
    all_goals exact ho.outcome_of_eq rfl rfl k r hr

theorem Origins.results_stay (ho : Origins s) (hstay : GoalsStay s s') {u : GoalUUID}
    {r : ResultResponse ρ} (hr : s.goalResults u = some r) : ∃ h, Ended s' h u r := by
  obtain ⟨h, he⟩ := ho.results u r hr
  exact ⟨h, he.stays hstay⟩

theorem Origins.sent_stays (ho : Origins s) (hstay : GoalsStay s s') {q : Nat}
    {r : ResultResponse ρ} (hq : (q, r) ∈ s.sent) :
    ∃ request, s.requests[q]? = some request ∧ Answers s' request.uuid r := by
  obtain ⟨request, hrequest, ha⟩ := ho.sent q r hq
  exact ⟨request, hrequest, ha.stays hstay⟩

theorem Origins.frame (ho : Origins s) (hm : Move s a s')
    (hresults : s'.goalResults = s.goalResults) (hstored : s'.resultRequests = s.resultRequests)
    (hrequests : s'.requests = s.requests) (hsent : s'.sent = s.sent) : Origins s' := by
  have hstay := hm.goalsStay ho
  refine ⟨hm.outcome ho, fun u r hr => ?_, fun u q hq => ?_, fun q r hq => ?_⟩
  · rw [hresults] at hr
    exact ho.results_stay hstay hr
  · rw [hstored] at hq
    rw [hrequests]
    exact ho.stored u q hq
  · rw [hsent] at hq
    rw [hrequests]
    exact ho.sent_stays hstay hq

theorem requests_of_append {l : List TakenRequest} {new : TakenRequest} {q : Nat}
    {P : TakenRequest → Prop} (h : ∃ request, l[q]? = some request ∧ P request) :
    ∃ request, (l ++ [new])[q]? = some request ∧ P request := by
  obtain ⟨request, hq, hP⟩ := h
  exact ⟨request, by rw [List.getElem?_append_left (List.getElem?_eq_some_iff.mp hq).1, hq], hP⟩

theorem mem_update_of_ne {f : GoalUUID → List Nat} {u v : GoalUUID} {l : List Nat} {q : Nat}
    (h : q ∈ Function.update f u l v) : v = u ∧ q ∈ l ∨ v ≠ u ∧ q ∈ f v := by
  by_cases hv : v = u
  · subst hv
    rw [Function.update_self] at h
    exact .inl ⟨rfl, h⟩
  · rw [Function.update_of_ne hv] at h
    exact .inr ⟨hv, h⟩

theorem update_eq_some {f : GoalUUID → Option (ResultResponse ρ)} {u v : GoalUUID}
    {x : Option (ResultResponse ρ)} {r : ResultResponse ρ}
    (h : Function.update f u x v = some r) : v = u ∧ x = some r ∨ v ≠ u ∧ f v = some r := by
  by_cases hv : v = u
  · subst hv
    rw [Function.update_self] at h
    exact .inl ⟨rfl, h⟩
  · rw [Function.update_of_ne hv] at h
    exact .inr ⟨hv, h⟩

theorem origins_step (ho : Origins s) (hs : step s a = some s') : Origins s' := by
  have hm := step_move s s' a hs
  have hstay := hm.goalsStay ho
  have houtcome := hm.outcome ho
  cases hm with
  | resultSent uuid r h =>
    refine ⟨houtcome, fun u r' hr => ho.results_stay hstay hr,
      fun u q hq => requests_of_append (ho.stored u q hq), fun q r' hq => ?_⟩
    rcases List.mem_append.mp hq with hq | hq
    · exact requests_of_append (ho.sent_stays hstay hq)
    · -- the new request is answered with what is stored for its id
      obtain ⟨rfl, rfl⟩ := Prod.mk.inj (List.mem_singleton.mp hq)
      refine ⟨⟨uuid, s.goalOf uuid⟩, by simp, ?_⟩
      rcases h with ⟨_, h⟩ | ⟨_, h⟩
      · exact .inl h
      · exact .inr (ho.results_stay hstay h)
  | resultStored uuid h hr =>
    refine ⟨houtcome, fun u r hr => ho.results_stay hstay hr, fun u q hq => ?_, fun q r hq =>
      requests_of_append (ho.sent_stays hstay hq)⟩
    rcases mem_update_of_ne hq with ⟨rfl, hnew⟩ | ⟨_, hold⟩
    · rcases List.mem_append.mp hnew with hold | hnew
      · exact requests_of_append (ho.stored u q hold)
      · obtain rfl := List.mem_singleton.mp hnew
        exact ⟨⟨u, s.goalOf u⟩, by simp, rfl⟩
    · exact requests_of_append (ho.stored u q hold)
  | expired now timer h hs he hfree =>
    refine ⟨houtcome, fun u r hr => ?_, fun u q hq => ?_, fun q r hq => ho.sent_stays hstay hq⟩
    · rcases update_eq_some hr with ⟨_, hr⟩ | ⟨_, hr⟩
      · cases hr
      · exact ho.results_stay hstay hr
    · rcases mem_update_of_ne hq with ⟨_, hq⟩ | ⟨_, hq⟩
      · cases hq
      · exact ho.stored u q hq
  | published h r hn hp he =>
    have hended : Ended { s with
        goalResults := Function.update s.goalResults (s.uuid h) (some r)
        sent := s.sent ++ (s.resultRequests (s.uuid h)).map (·, r)
        phase := Function.update s.phase h (.published r) } h (s.uuid h) r :=
      ⟨hn, rfl, congrArg Phase.ended (Function.update_self h (.published r) s.phase)⟩
    refine ⟨houtcome, fun u r' hr => ?_, ho.stored, fun q r' hq => ?_⟩
    · rcases update_eq_some hr with ⟨rfl, hnew⟩ | ⟨_, hold⟩
      · obtain rfl := Option.some.inj hnew
        exact ⟨h, hended⟩
      · exact ho.results_stay hstay hold
    · rcases List.mem_append.mp hq with hq | hq
      · exact ho.sent_stays hstay hq
      · -- the requests stored for the id of the goal
        obtain ⟨q', hq', heq⟩ := List.mem_map.mp hq
        obtain ⟨rfl, rfl⟩ := Prod.mk.inj heq
        obtain ⟨request, hrequest, huuid⟩ := ho.stored _ q' hq'
        exact ⟨request, hrequest, .inr ⟨h, huuid ▸ hended⟩⟩
  | stutter | answered | added | noneExpired | executed | ended | destroyed | threw | notified |
    erased | cancelBegan | cancelRejected | cancelAccepted | cancelMoved | cancelThrew |
    cancelSent =>
    all_goals exact ho.frame (step_move _ _ _ hs) rfl rfl rfl rfl

theorem origins_init (h : IsInit s) : Origins s := by
  obtain ⟨resultTimeout, server, _, rfl⟩ := h
  exact ⟨fun _ _ hr => (by cases hr), fun _ _ hr => (by cases hr), fun _ _ hq => (by cases hq),
    fun _ _ hq => (by cases hq)⟩

end

end PMROS2.RclcppAction
