import PMROS2.RclcppAction.Moves

/-!
# Answers to result requests

Three paths share `goal_results_`, `result_requests_` and the goals of the `rcl` server: result
requests are taken, goals end and publish their results in a later step, and goals expire.

* `ResultsAnswered`   what the requests are promised;
* `ExpiresPublished`  a goal expires only after its result was published, and alone;
* `ResultInv`         the invariant that ties the two maps and the log of responses to the goals.
-/

namespace PMROS2.RclcppAction
open Runs RclAction

section
variable {ρ : Type*}

/-! ## the responses to one request -/

/-- the responses with that header in a log -/
def answersTo (sent : List (Nat × ResultResponse ρ)) (q : Nat) : List (ResultResponse ρ) :=
  (sent.filter fun m => m.1 = q).map Prod.snd

def State.responses (s : State ρ) (q : Nat) : List (ResultResponse ρ) := answersTo s.sent q

theorem answersTo_append (l l' : List (Nat × ResultResponse ρ)) (q : Nat) :
    answersTo (l ++ l') q = answersTo l q ++ answersTo l' q := by
  unfold answersTo
  rw [List.filter_append, List.map_append]

theorem answersTo_singleton (q q' : Nat) (r : ResultResponse ρ) :
    answersTo [(q', r)] q = if q' = q then [r] else [] := by
  unfold answersTo
  by_cases h : q' = q <;> simp [h]

theorem answersTo_map (l : List Nat) (r : ResultResponse ρ) (q : Nat) (h : l.Nodup) :
    answersTo (l.map (·, r)) q = if q ∈ l then [r] else [] := by
  induction l with
  | nil => rfl
  | cons a l ih =>
    obtain ⟨ha, hl⟩ := List.nodup_cons.mp h
    rw [List.map_cons, ← List.singleton_append, answersTo_append, answersTo_singleton, ih hl]
    by_cases haq : a = q
    · subst haq
      simp [ha]
    · simp [haq, Ne.symm haq]

/-! ## the property and its condition -/

/-- no request is answered twice; a request whose goal existed and was ended by its user is
answered once, with the result of the goal -/
structure ResultsAnswered (s : State ρ) : Prop where
  atMostOnce : ∀ q, (s.responses q).length ≤ 1
  /-- `publish_result` has been called, -/
  exactlyOnce : ∀ q request h r, s.requests[q]? = some request → request.goal = some h →
    (s.phase h).ended = some r → s.responses q = [r]
  /-- or it is the next step of the thread, which waits for `reentrant_mutex_` at most -/
  published : ∀ h r, h < s.next → s.phase h = .terminating r → s.cancelCall = none →
    ∃ s', step s (.publish h) = some s' ∧ ∀ q request, s.requests[q]? = some request →
      request.goal = some h → s'.responses q = [r]

/-- when the first goal of the server has expired, its result was published, and the goal after
it, if there is one, is active -/
def ExpiresPublished (s : State ρ) (a : Action ρ) : Prop :=
  match a with
  | .checkExpiredGoals now => ∀ h rest, s.listed = h :: rest →
      isExpired s.impl s.actionServer.resultTimeout now h = true →
      s.goalResults (s.uuid h) ≠ none ∧
        ∀ k, rest.head? = some k → (s.impl k).state.isActive = true
  | _ => True

instance (s : State ρ) (a : Action ρ) : Decidable (ExpiresPublished s a) :=
  match a with
  | .checkExpiredGoals now =>
    match hl : s.listed with
    | [] => .isTrue fun h rest e => by rw [hl] at e; cases e
    | h :: rest => decidable_of_iff
        (isExpired s.impl s.actionServer.resultTimeout now h = true →
          (s.goalResults (s.uuid h)).isSome = true ∧
            ∀ k ∈ rest.head?, (s.impl k).state.isActive = true) (by
        constructor
        · intro hp h' rest' e
          obtain ⟨rfl, rfl⟩ := List.cons.inj (hl.symm.trans e)
          simpa [Option.isSome_iff_ne_none] using hp
        · intro hp
          simpa [Option.isSome_iff_ne_none] using hp h rest hl)
  | .goalRequest .. | .resultRequest .. | .execute .. | .abort .. | .succeed .. | .canceled .. |
    .destroy .. | .publish .. | .notify .. | .eraseHandle .. | .cancelRequest .. |
    .cancelCallback .. | .cancelGoal | .sendCancelResponse => .isTrue trivial

/-- then the scan removes that goal alone, and writes nothing past `expired_goals` -/
theorem scan_of_first (s : State ρ) (now : Int64) (h : Nat) (rest : List Nat)
    (hl : s.listed = h :: rest)
    (he : isExpired s.impl s.actionServer.resultTimeout now h = true)
    (hk : ∀ k, rest.head? = some k → (s.impl k).state.isActive = true) :
    (s.scan now).expired = [h] ∧ (s.scan now).overrun = false := by
  unfold isExpired at he
  rw [Bool.and_eq_true, decide_eq_true_iff, Bool.not_eq_true'] at he
  obtain ⟨hact, hold⟩ := he
  unfold State.scan
  rw [show s.actionServer.goalHandles = h :: rest from hl]
  cases rest with
  | nil => simp [expireScan, hact, hold]
  | cons k rest =>
    have hk' := hk k rfl
    cases rest with
    | nil => simp [expireScan, hact, hold, hk']
    | cons m rest => simp [expireScan, hact, hold, hk']

/-- the scan with room for one goal removes nothing when the first goal has not expired -/
theorem scan_of_not_first (s : State ρ) (now : Int64) (h : Nat) (rest : List Nat)
    (hl : s.listed = h :: rest)
    (he : isExpired s.impl s.actionServer.resultTimeout now h = false) :
    (s.scan now).expired = [] := by
  unfold isExpired at he
  unfold State.scan
  rw [show s.actionServer.goalHandles = h :: rest from hl]
  cases hact : (s.impl h).state.isActive with
  | true => cases rest <;> simp [expireScan, hact]
  | false =>
    rw [hact, Bool.not_false, Bool.true_and, decide_eq_false_iff_not] at he
    cases rest <;> simp [expireScan, hact, he]

/-! ## the invariant -/

/-- the user is not in the methods that end an active goal -/
def ActiveInv (s : State ρ) : Prop :=
  ∀ h, (s.impl h).state.isActive = true → s.phase h = .active

/-- a request without a goal was answered at once; one for a goal has the result of the goal, if
it has ended, and otherwise waits for it -/
def Settled (s : State ρ) (q : Nat) : Option Nat → Prop
  | none => (s.responses q).length = 1
  | some h => h < s.next ∧ s.responses q = (s.phase h).ended.toList ∧
      ((s.phase h).ended = none → q ∈ s.resultRequests (s.uuid h))

/-- the stored requests for a goal, each once -/
def Stored (s : State ρ) (h : Nat) (qs : List Nat) : Prop :=
  qs.Nodup ∧ ∀ q ∈ qs, ∃ request, s.requests[q]? = some request ∧ request.goal = some h

structure ResultInv (s : State ρ) : Prop where
  wf : WellFormed s
  active : ActiveInv s
  /-- `goal_results_` has the results of the goals that have ended, -/
  results : ∀ h ∈ s.listed, s.goalResults (s.uuid h) = (s.phase h).ended
  /-- and nothing is kept for an id that the server does not know -/
  stale : ∀ u, (∀ h ∈ s.listed, s.uuid h ≠ u) → s.goalResults u = none ∧ s.resultRequests u = []
  gone : ∀ h, h < s.next → h ∉ s.listed → (s.phase h).ended ≠ none
  fresh : ∀ q, s.requests.length ≤ q → s.responses q = []
  settled : ∀ (q : Nat) (request : TakenRequest), s.requests[q]? = some request →
    Settled s q request.goal
  stored : ∀ h ∈ s.listed, (s.phase h).ended = none → Stored s h (s.resultRequests (s.uuid h))

theorem ResultInv.responses_le_one {s : State ρ} (hi : ResultInv s) (q : Nat) :
    (s.responses q).length ≤ 1 := by
  cases hq : s.requests[q]? with
  | none =>
    rw [hi.fresh q (List.getElem?_eq_none_iff.mp hq)]
    exact Nat.zero_le 1
  | some request =>
    have hset := hi.settled q request hq
    cases hg : request.goal with
    | none =>
      rw [hg] at hset
      exact le_of_eq hset
    | some h =>
      rw [hg] at hset
      rw [hset.2.1]
      cases (s.phase h).ended <;> simp

theorem ResultInv.responses_of_ended {s : State ρ} (hi : ResultInv s) (q : Nat)
    (request : TakenRequest) (h : Nat) (r : ResultResponse ρ) (hq : s.requests[q]? = some request)
    (hg : request.goal = some h) (hend : (s.phase h).ended = some r) : s.responses q = [r] := by
  have hset := hi.settled q request hq
  rw [hg] at hset
  rw [hset.2.1, hend]
  rfl

theorem ResultInv.listed_of_running {s : State ρ} (hi : ResultInv s) (h : Nat) (hn : h < s.next)
    (he : (s.phase h).ended = none) : h ∈ s.listed := by
  by_contra hm
  exact hi.gone h hn hm he

/-- a step that sends nothing for the request and keeps what is known about its goal -/
theorem Settled.congr {s s' : State ρ} {q : Nat} {goal : Option Nat} (hset : Settled s q goal)
    (hnext : s.next ≤ s'.next) (hresp : s'.responses q = s.responses q)
    (hended : ∀ h, goal = some h → h < s.next → (s'.phase h).ended = (s.phase h).ended)
    (hstored : ∀ h, goal = some h → h < s.next → (s.phase h).ended = none →
      q ∈ s.resultRequests (s.uuid h) → q ∈ s'.resultRequests (s'.uuid h)) :
    Settled s' q goal := by
  cases goal with
  | none =>
    show (s'.responses q).length = 1
    rw [hresp]
    exact hset
  | some h =>
    obtain ⟨hn, hans, hwait⟩ := hset
    have he := hended h rfl hn
    refine ⟨lt_of_lt_of_le hn hnext, by rw [hresp, he, hans], fun hend => ?_⟩
    rw [he] at hend
    exact hstored h rfl hn hend (hwait hend)

theorem ActiveInv.update {s s' : State ρ} (hi : ActiveInv s) (h : Nat) (p : Phase ρ)
    (himpl : s'.impl = s.impl) (hp : (s.phase h).isActive = false)
    (hphase : s'.phase = Function.update s.phase h p) : ActiveInv s' := by
  intro k hk
  rw [himpl] at hk
  have hkh : k ≠ h := by
    rintro rfl
    rw [hi k hk] at hp
    cases hp
  rw [hphase, Function.update_of_ne hkh]
  exact hi k hk

theorem ActiveInv.setState {s : State ρ} (hi : ActiveInv s) (h : Nat) (t : GoalState)
    (hact : (s.impl h).state.isActive = true) : ActiveInv (s.setState h t) := by
  intro k hk
  by_cases hkh : k = h
  · rw [hkh]
    exact hi h hact
  · unfold State.setState at hk
    simp only [Function.update_of_ne hkh] at hk
    exact hi k hk

theorem activeInv_step (s : State ρ) (a : Action ρ) (s' : State ρ) (hi : ActiveInv s)
    (hs : step s a = some s') : ActiveInv s' := by
  cases step_move s s' a hs with
  | added uuid answer now t _ _ _ _ =>
    intro k hk
    by_cases hkn : k = s.next
    · simp only [State.addGoal, hkn, Function.update_self]
    · simp only [State.addGoal, Function.update_of_ne hkn] at hk ⊢
      exact hi k hk
  | executed h t _ hact _ => exact hi.setState h t hact
  | cancelMoved c info rest h t _ _ _ _ hact _ => exact hi.setState h t hact
  | ended _ h t r alive _ _ ht _ _ =>
    intro k hk
    by_cases hkh : k = h
    · simp only [State.setState, hkh, Function.update_self] at hk
      rw [isActive_of_isTerminal t ht] at hk
      cases hk
    · simp only [State.setState, Function.update_of_ne hkh] at hk ⊢
      exact hi k hk
  | published h r _ hp _ =>
    exact hi.update h _ rfl (by rw [hp]; rfl) rfl
  | threw h r _ hp _ => exact hi.update h _ rfl (by rw [hp]; rfl) rfl
  | notified h r now timer _ hp => exact hi.update h _ rfl (by rw [hp]; rfl) rfl
  | erased h r _ hp => exact hi.update h _ rfl (by rw [hp]; rfl) rfl
  | stutter | answered | resultSent | resultStored | noneExpired | expired | destroyed |
    cancelBegan | cancelRejected | cancelAccepted | cancelThrew | cancelSent =>
    all_goals exact hi

/-- a step that touches neither the goals nor the requests -/
theorem ResultInv.frame {s s' : State ρ} (hi : ResultInv s) (hw : WellFormed s')
    (ha : ActiveInv s') (hlisted : ∀ h, h ∈ s'.listed ↔ h ∈ s.listed) (hnext : s'.next = s.next)
    (huuid : ∀ h, s'.uuid h = s.uuid h) (hended : ∀ h, (s'.phase h).ended = (s.phase h).ended)
    (hres : s'.goalResults = s.goalResults) (hpend : s'.resultRequests = s.resultRequests)
    (hreq : s'.requests = s.requests) (hsent : s'.sent = s.sent) : ResultInv s' := by
  have hresp : ∀ q, s'.responses q = s.responses q := fun q => by
    unfold State.responses
    rw [hsent]
  constructor
  · exact hw
  · exact ha
  · intro h hm
    rw [hres, huuid, hended]
    exact hi.results h ((hlisted h).mp hm)
  · intro u hu
    rw [hres, hpend]
    exact hi.stale u fun h hm => huuid h ▸ hu h ((hlisted h).mpr hm)
  · intro h hn hm
    rw [hended]
    exact hi.gone h (hnext ▸ hn) fun hm' => hm ((hlisted h).mpr hm')
  · intro q
    rw [hreq, hresp]
    exact hi.fresh q
  · intro q request hq
    rw [hreq] at hq
    refine (hi.settled q request hq).congr (le_of_eq hnext.symm) (hresp q) (fun h _ _ => hended h)
      fun h _ _ _ hm => ?_
    rw [hpend, huuid]
    exact hm
  · intro h hm hend
    unfold Stored
    rw [hpend, huuid, hreq]
    rw [hended] at hend
    exact hi.stored h ((hlisted h).mp hm) hend

theorem ended_update (s : State ρ) (h : Nat) (p : Phase ρ) (he : p.ended = (s.phase h).ended)
    (k : Nat) : (Function.update s.phase h p k).ended = (s.phase k).ended := by
  by_cases hk : k = h
  · rw [hk, Function.update_self, he]
  · rw [Function.update_of_ne hk]

end

end PMROS2.RclcppAction
