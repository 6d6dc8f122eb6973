import PMROS2.RclcppAction.Client

/-!
# What a client concludes from the responses it gets

`Exchange` says which requests a client has sent and which responses have reached it.  `Faithful`
is what the client makes of them: every entry of the pending maps is a request that was sent, every
promise of a goal request has what a response to this request says, and every result promise has
the result of a response to a request for this goal.

`Change` is what a response callback may do, whether it returns or throws.  It is transitive, and
every assignment of the callbacks is one, so that a whole callback is (`change_goalResponse`,
`change_resultResponse`, `change_getResult`).
-/

namespace PMROS2.RclcppAction.Client
open Throwing RclAction

variable {ρ : Type}

/-- the requests that were sent, with their sequence numbers and goal ids, and the responses that
were received -/
structure Exchange (ρ : Type) where
  goalSent : Int → GoalUUID → Prop
  goalAnswered : Int → Bool → Prop
  resultSent : Int → GoalUUID → Prop
  resultAnswered : Int → ResultResponse ρ → Prop

/-- the request of a call: its sequence number and its goal id -/
def SendCall.request (c : SendCall) : Option Int × GoalUUID := (c.seq, c.goalId)

/-- a promise of `async_send_goal` has what a response to the request says: the null pointer, or a
goal handle with the id of the request -/
def GoalSettled (x : Exchange ρ) (s : State ρ) (request : Option Int × GoalUUID)
    (o : Except Error (Option Nat)) : Prop :=
  ∃ seq accepted, request.1 = some seq ∧ x.goalSent seq request.2 ∧ x.goalAnswered seq accepted ∧
    (accepted = false ∧ o = .ok none ∨
      accepted = true ∧ ∃ h, h < s.allocated ∧ o = .ok (some h) ∧
        (s.handles h).info.goalId = request.2)

/-- the promise of a goal handle has the result of a response to a request for its goal -/
def ResultSettled (x : Exchange ρ) (goalId : GoalUUID) (o : Except Error (WrappedResult ρ)) :
    Prop :=
  ∃ seq response, x.resultSent seq goalId ∧ x.resultAnswered seq response ∧
    o = .ok { goalId := goalId, code := response.status, result := response.result }

structure Faithful (x : Exchange ρ) (s : State ρ) : Prop where
  pendingGoal : ∀ seq n, s.pendingGoalResponses seq = some n →
    n < s.sent ∧ (s.sends n).seq = some seq ∧ x.goalSent seq (s.sends n).goalId
  pendingResult : ∀ seq h, s.pendingResultResponses seq = some h →
    h < s.allocated ∧ x.resultSent seq (s.handles h).info.goalId
  goals : ∀ n o, n < s.sent → (s.sends n).promise.outcome = some o →
    GoalSettled x s (s.sends n).request o
  results : ∀ h o, h < s.allocated → (s.handles h).resultPromise.outcome = some o →
    ResultSettled x (s.handles h).info.goalId o

/-! ## changes -/

/-- goal handles are only added, and keep their ids -/
structure Grows (s s' : State ρ) : Prop where
  allocated : s.allocated ≤ s'.allocated
  goalId : ∀ h, h < s.allocated → (s'.handles h).info.goalId = (s.handles h).info.goalId

theorem GoalSettled.grows {x : Exchange ρ} {s s' : State ρ} {request : Option Int × GoalUUID}
    {o : Except Error (Option Nat)} (h : GoalSettled x s request o) (hgrows : Grows s s') :
    GoalSettled x s' request o := by
  obtain ⟨seq, accepted, hseq, hsent, hanswered, h⟩ := h
  refine ⟨seq, accepted, hseq, hsent, hanswered, h.imp id ?_⟩
  rintro ⟨ha, k, hk, ho, hid⟩
  exact ⟨ha, k, Nat.lt_of_lt_of_le hk hgrows.allocated, ho, (hgrows.goalId k hk).trans hid⟩

/-- a response callback has done something; `ret` is what the send of a result request returns -/
structure Change (x : Exchange ρ) (ret : Option Int) (s s' : State ρ) : Prop where
  grows : Grows s s'
  sent : s'.sent = s.sent
  request : ∀ n, (s'.sends n).request = (s.sends n).request
  pendingGoal : ∀ seq n, s'.pendingGoalResponses seq = some n → s.pendingGoalResponses seq = some n
  pendingResult : ∀ seq h, s'.pendingResultResponses seq = some h →
    s.pendingResultResponses seq = some h ∨ ret = some seq ∧ h < s'.allocated
  goals : ∀ n o, (s'.sends n).promise.outcome = some o →
    (s.sends n).promise.outcome = some o ∨ GoalSettled x s' (s'.sends n).request o
  results : ∀ h o, h < s'.allocated → (s'.handles h).resultPromise.outcome = some o →
    h < s.allocated ∧ (s.handles h).resultPromise.outcome = some o ∨
      ResultSettled x (s'.handles h).info.goalId o

section
variable {x : Exchange ρ} {ret : Option Int} {s s' s'' : State ρ}

theorem Change.refl (s : State ρ) : Change x ret s s :=
  ⟨⟨Nat.le_refl _, fun _ _ => rfl⟩, rfl, fun _ => rfl, fun _ _ h => h, fun _ _ h => .inl h,
    fun _ _ h => .inl h, fun _ _ hk h => .inl ⟨hk, h⟩⟩

theorem Change.trans (h : Change x ret s s') (h' : Change x ret s' s'') :
    Change x ret s s'' where
  grows := ⟨h.grows.allocated.trans h'.grows.allocated, fun k hk =>
    (h'.grows.goalId k (Nat.lt_of_lt_of_le hk h.grows.allocated)).trans (h.grows.goalId k hk)⟩
  sent := h'.sent.trans h.sent
  request n := (h'.request n).trans (h.request n)
  pendingGoal seq n hn := h.pendingGoal seq n (h'.pendingGoal seq n hn)
  pendingResult seq k hk := by
    rcases h'.pendingResult seq k hk with hk | hk
    · rcases h.pendingResult seq k hk with hk | ⟨hret, hk⟩
      · exact .inl hk
      · exact .inr ⟨hret, Nat.lt_of_lt_of_le hk h'.grows.allocated⟩
    · exact .inr hk
  goals n o ho := by
    rcases h'.goals n o ho with ho | ho
    · rcases h.goals n o ho with ho | ho
      · exact .inl ho
      · rw [h'.request n]
        exact .inr (ho.grows h'.grows)
    · exact .inr ho
  results k o hk ho := by
    rcases h'.results k o hk ho with ⟨hk', ho⟩ | ho
    · rcases h.results k o hk' ho with ho | ho
      · exact .inl ho
      · rw [h'.grows.goalId k hk']
        exact .inr ho
    · exact .inr ho

/-- **A faithful client stays faithful**, when the result request it sends is one of the exchange. -/
theorem Faithful.change (hs : Faithful x s) (h : Change x ret s s')
    (hret : ∀ seq k, ret = some seq → s'.pendingResultResponses seq = some k →
      x.resultSent seq (s'.handles k).info.goalId) : Faithful x s' where
  pendingGoal seq n hn := by
    obtain ⟨hseq, hgoalId⟩ := Prod.mk.inj (h.request n)
    rw [h.sent, hseq, hgoalId]
    exact hs.pendingGoal seq n (h.pendingGoal seq n hn)
  pendingResult seq k hk := by
    rcases h.pendingResult seq k hk with hk' | ⟨hseq, hlt⟩
    · obtain ⟨hlt, hsent⟩ := hs.pendingResult seq k hk'
      rw [h.grows.goalId k hlt]
      exact ⟨Nat.lt_of_lt_of_le hlt h.grows.allocated, hsent⟩
    · exact ⟨hlt, hret seq k hseq hk⟩
  goals n o hn ho := by
    rcases h.goals n o ho with ho | ho
    · rw [h.request n]
      exact (hs.goals n o (h.sent ▸ hn) ho).grows h.grows
    · exact ho
  results k o hk ho := by
    rcases h.results k o hk ho with ⟨hlt, ho⟩ | ho
    · rw [h.grows.goalId k hlt]
      exact hs.results k o hlt ho
    · exact ho

theorem Faithful.mono {y : Exchange ρ} (hs : Faithful x s)
    (hgoal : ∀ seq u, x.goalSent seq u → y.goalSent seq u)
    (hanswered : ∀ seq b, x.goalAnswered seq b → y.goalAnswered seq b)
    (hresult : ∀ seq u, x.resultSent seq u → y.resultSent seq u)
    (hresponse : ∀ seq r, x.resultAnswered seq r → y.resultAnswered seq r) : Faithful y s where
  pendingGoal seq n hn := (hs.pendingGoal seq n hn).imp id (And.imp id (hgoal seq _))
  pendingResult seq k hk := (hs.pendingResult seq k hk).imp id (hresult seq _)
  goals n o hn ho := by
    obtain ⟨seq, accepted, h₁, h₂, h₃, h₄⟩ := hs.goals n o hn ho
    exact ⟨seq, accepted, h₁, hgoal seq _ h₂, hanswered seq _ h₃, h₄⟩
  results k o hk ho := by
    obtain ⟨seq, response, h₁, h₂, h₃⟩ := hs.results k o hk ho
    exact ⟨seq, response, hresult seq _ h₁, hresponse seq _ h₂, h₃⟩

theorem faithful_init (x : Exchange ρ) : Faithful x ({} : State ρ) :=
  ⟨fun _ _ h => (by cases h), fun _ _ h => (by cases h), fun _ _ h => absurd h (Nat.not_lt_zero _),
    fun _ _ h => absurd h (Nat.not_lt_zero _)⟩

/-! ## single assignments -/

/-- an assignment to goal handles that leaves ids and promises alone -/
theorem Change.of_handles (hallocated : s'.allocated = s.allocated)
    (hinfo : ∀ h, (s'.handles h).info = (s.handles h).info)
    (houtcome : ∀ h, (s'.handles h).resultPromise.outcome = (s.handles h).resultPromise.outcome)
    (hrequests : s'.requests = s.requests)
    (hpending : s'.pendingResultResponses = s.pendingResultResponses) : Change x ret s s' := by
  obtain ⟨hsends, hrest⟩ := Prod.mk.inj hrequests
  obtain ⟨hsent, hgoal⟩ := Prod.mk.inj hrest
  refine ⟨⟨hallocated.ge, fun h _ => by rw [hinfo]⟩, hsent, fun n => by rw [hsends],
    fun seq n hn => by rwa [hgoal] at hn, fun seq h hh => .inl (by rwa [hpending] at hh),
    fun n o ho => .inl (by rwa [hsends] at ho), fun h o hh ho => .inl ⟨hallocated ▸ hh, ?_⟩⟩
  rwa [houtcome] at ho

theorem handles_modifyHandle (h k : Nat) (f : GoalHandle ρ → GoalHandle ρ) :
    (s.modifyHandle h f).handles k = if k = h then f (s.handles k) else s.handles k := by
  unfold State.modifyHandle
  by_cases hk : k = h
  · subst hk
    rw [if_pos rfl]
    exact Function.update_self ..
  · rw [if_neg hk]
    exact Function.update_of_ne hk ..

theorem sends_modifySend_eq (n k : Nat) (f : SendCall → SendCall) :
    (s.modifySend n f).sends k = if k = n then f (s.sends k) else s.sends k := by
  unfold State.modifySend
  by_cases hk : k = n
  · subst hk
    rw [if_pos rfl]
    exact Function.update_self ..
  · rw [if_neg hk]
    exact Function.update_of_ne hk ..

theorem change_modifyHandle (h : Nat) {f : GoalHandle ρ → GoalHandle ρ}
    (hinfo : ∀ g, (f g).info = g.info)
    (houtcome : ∀ g, (f g).resultPromise.outcome = g.resultPromise.outcome) :
    Change x ret s (s.modifyHandle h f) := by
  refine .of_handles rfl (fun k => ?_) (fun k => ?_) rfl rfl
  · rw [handles_modifyHandle]
    split
    · exact hinfo _
    · rfl
  · rw [handles_modifyHandle]
    split
    · exact houtcome _
    · rfl

/-- an assignment to the call of a goal request -/
theorem change_modifySend (n : Nat) {f : SendCall → SendCall}
    (hrequest : ∀ c, (f c).request = c.request)
    (houtcome : ∀ o, (f (s.sends n)).promise.outcome = some o →
      (s.sends n).promise.outcome = some o ∨ GoalSettled x s (s.sends n).request o) :
    Change x ret s (s.modifySend n f) := by
  refine ⟨⟨Nat.le_refl _, fun _ _ => rfl⟩, rfl, fun k => ?_, fun _ _ h => h, fun _ _ h => .inl h,
    fun k o ho => ?_, fun _ _ hk h => .inl ⟨hk, h⟩⟩
  · rw [sends_modifySend_eq]
    split
    · exact hrequest _
    · rfl
  · rw [sends_modifySend_eq] at ho ⊢
    split
    · rename_i hk
      rw [if_pos hk, hk] at ho
      rw [hk, hrequest]
      exact houtcome o ho
    · rename_i hk
      rw [if_neg hk] at ho
      exact .inl ho

/-- the result of a response goes into the promise of a goal handle -/
theorem change_setResult (h : Nat) {f : GoalHandle ρ → GoalHandle ρ}
    (hinfo : ∀ g, (f g).info = g.info)
    (houtcome : ∀ o, (f (s.handles h)).resultPromise.outcome = some o →
      (s.handles h).resultPromise.outcome = some o ∨ ResultSettled x (s.handles h).info.goalId o) :
    Change x ret s (s.modifyHandle h f) := by
  refine ⟨⟨Nat.le_refl _, fun k _ => ?_⟩, rfl, fun _ => rfl, fun _ _ h => h, fun _ _ h => .inl h,
    fun _ _ h => .inl h, fun k o hk ho => ?_⟩
  · rw [handles_modifyHandle]
    split
    · rw [hinfo]
    · rfl
  · rw [handles_modifyHandle] at ho ⊢
    split
    · rename_i hkh
      rw [if_pos hkh, hkh] at ho
      rw [hkh, hinfo]
      exact (houtcome o ho).imp (fun ho => ⟨hkh ▸ hk, ho⟩) id
    · rename_i hkh
      rw [if_neg hkh] at ho
      exact .inl ⟨hk, ho⟩

theorem change_addHandle (info : GoalInfo) (resultCallback : Bool) :
    Change x ret s (s.addHandle info resultCallback) := by
  have hold : ∀ k, k < s.allocated →
      (s.addHandle info resultCallback).handles k = s.handles k := fun k hk =>
    Function.update_of_ne hk.ne ..
  refine ⟨⟨Nat.le_succ _, fun k hk => by rw [hold k hk]⟩, rfl, fun _ => rfl, fun _ _ h => h,
    fun _ _ h => .inl h, fun _ _ h => .inl h, fun k o hk ho => ?_⟩
  rcases Nat.lt_succ_iff_lt_or_eq.mp hk with hlt | rfl
  · rw [hold k hlt] at ho
    exact .inl ⟨hlt, ho⟩
  · have hnew : (s.addHandle info resultCallback).handles s.allocated =
        { info := info, resultCallback := resultCallback } := Function.update_self ..
    rw [hnew] at ho
    cases ho

theorem goalId_addHandle (s : State ρ) (info : GoalInfo) (resultCallback : Bool) :
    ((s.addHandle info resultCallback).handles s.allocated).info.goalId = info.goalId := by
  have hnew : (s.addHandle info resultCallback).handles s.allocated =
      { info := info, resultCallback := resultCallback } := Function.update_self ..
  rw [hnew]

theorem change_forgetGoal (seq : Int) : Change x ret s
    { s with pendingGoalResponses := Function.update s.pendingGoalResponses seq none } :=
  ⟨⟨Nat.le_refl _, fun _ _ => rfl⟩, rfl, fun _ => rfl, fun _ _ h => (update_none_eq.mp h).2,
    fun _ _ h => .inl h, fun _ _ h => .inl h, fun _ _ hk h => .inl ⟨hk, h⟩⟩

theorem change_forgetResult (seq : Int) : Change x ret s
    { s with pendingResultResponses := Function.update s.pendingResultResponses seq none } :=
  ⟨⟨Nat.le_refl _, fun _ _ => rfl⟩, rfl, fun _ => rfl, fun _ _ h => h,
    fun _ _ h => .inl (update_none_eq.mp h).2, fun _ _ h => .inl h, fun _ _ hk h => .inl ⟨hk, h⟩⟩

theorem change_sendResult {seq : Int} {h : Nat} (hret : ret = some seq) (hh : h < s.allocated) :
    Change x ret s
      { s with pendingResultResponses := Function.update s.pendingResultResponses seq (some h) } := by
  refine ⟨⟨Nat.le_refl _, fun _ _ => rfl⟩, rfl, fun _ => rfl, fun _ _ h => h, fun seq' k hk => ?_,
    fun _ _ h => .inl h, fun _ _ hk h => .inl ⟨hk, h⟩⟩
  rcases update_some_eq.mp hk with ⟨rfl, rfl⟩ | ⟨_, hk⟩
  · exact .inr ⟨hret, hh⟩
  · exact .inl hk

end

/-! ## whole calls -/

section
variable {x : Exchange ρ} {ret : Option Int} {s₀ : State ρ}

/-- the promise of the call `n` was set, and there are `a` goal handles -/
structure Settled (x : Exchange ρ) (ret : Option Int) (s₀ : State ρ) (n a : Nat) (s : State ρ) :
    Prop where
  change : Change x ret s₀ s
  allocated : s.allocated = a
  outcome : (s.sends n).promise.outcome.isSome = true

theorem outcome_attempt {γ : Type} {p : Promise γ} {r o : Except Error γ}
    (h : (p.attempt r).outcome = some o) : p.outcome = some o ∨ p.outcome = none ∧ o = r := by
  unfold Promise.attempt at h
  cases hp : p.outcome with
  | none =>
    rw [hp] at h
    exact .inr ⟨rfl, (Option.some.inj h).symm⟩
  | some o' =>
    rw [hp] at h
    exact .inl h

theorem isSome_attempt {γ : Type} (p : Promise γ) (r : Except Error γ) :
    (p.attempt r).outcome.isSome = true := by
  unfold Promise.attempt
  cases p.outcome with
  | none => rfl
  | some o => rfl

theorem ensures_setPromise (n a : Nat) (r : Except Error (Option Nat)) :
    Ensures
      (fun s => Change x ret s₀ s ∧ s.allocated = a ∧
        ((s.sends n).promise.outcome = none → GoalSettled x s (s.sends n).request r))
      (setPromise n r) (fun _ => Settled x ret s₀ n a) (Change x ret s₀) := by
  refine Ensures.get_bind fun s hs => ?_
  obtain ⟨hchange, hallocated, hsettled⟩ := hs
  have hset : Settled x ret s₀ n a
      (s.modifySend n fun c => { c with promise := c.promise.attempt r }) := by
    refine ⟨hchange.trans (change_modifySend n (fun _ => rfl) fun o ho => ?_), hallocated, ?_⟩
    · rcases outcome_attempt ho with ho | ⟨hnone, rfl⟩
      · exact .inl ho
      · exact .inr (hsettled hnone)
    · rw [sends_modifySend_eq, if_pos rfl]
      exact isSome_attempt _ r
  refine Ensures.bind (Q := fun _ => Settled x ret s₀ n a) (Ensures.modify ?_) fun _ => ?_
  · rintro _ rfl
    exact hset
  · exact Ensures.throwIf (fun _ h _ => h) fun _ h _ => h.change

theorem ensures_callGoalResponseCallback (n a : Nat) (callbackThrows : Bool) :
    Ensures (Settled x ret s₀ n a) (callGoalResponseCallback n callbackThrows)
      (fun _ => Settled x ret s₀ n a) (Change x ret s₀) := by
  refine Ensures.get_bind fun s hs => Ensures.ite (fun _ => ?_) fun _ => Ensures.pure ?_
  · refine Ensures.bind (Q := fun _ => Settled x ret s₀ n a) (Ensures.modify ?_) fun _ => ?_
    · rintro _ rfl
      refine ⟨hs.change.trans (change_modifySend n (fun _ => rfl) fun o ho => .inl ho),
        hs.allocated, ?_⟩
      rw [sends_modifySend_eq, if_pos rfl]
      exact hs.outcome
    · exact Ensures.throwIf (fun _ h _ => h) fun _ h _ => h.change
  · rintro _ rfl
    exact hs

theorem ensures_makeResultAware (n a h : Nat) (hlt : h < a) :
    Ensures (Settled x ret s₀ n a) (makeResultAware h ret)
      (fun _ => Settled x ret s₀ n a) (Settled x ret s₀ n a) := by
  have hsend : Ensures (Settled x ret s₀ n a) (sendResultRequest ret h)
      (fun _ => Settled x ret s₀ n a) (Settled x ret s₀ n a) := by
    cases hret : ret with
    | none => exact Ensures.throw fun _ hs => hs
    | some seq =>
      refine Ensures.modify fun s hs => ⟨hs.change.trans ?_, hs.allocated, hs.outcome⟩
      exact change_sendResult rfl (hs.allocated ▸ hlt)
  refine Ensures.bind hsend fun _ => Ensures.modify fun s hs => ⟨hs.change.trans ?_,
    hs.allocated, hs.outcome⟩
  exact change_modifyHandle h (fun _ => rfl) fun _ => rfl

theorem ensures_onGoalResponse {seq : Int} {n : Nat} {response : GoalResponse}
    {env : Surroundings} (hseq : (s₀.sends n).seq = some seq)
    (hsent : x.goalSent seq (s₀.sends n).goalId)
    (hanswered : x.goalAnswered seq response.accepted) :
    Ensures (fun s => s = s₀) (onGoalResponse n response env)
      (fun _ => Change x env.resultRequest s₀) (Change x env.resultRequest s₀) := by
  refine Ensures.get_self ?_
  refine Ensures.ite (fun hrejected => ?_) fun haccepted => ?_
  · -- the null pointer
    have hfalse : response.accepted = false := by simpa using hrejected
    refine Ensures.bind (Ensures.weaken (ensures_setPromise n s₀.allocated (.ok none)) ?_
      (fun _ _ h => h) fun _ h => h) fun _ => ?_
    · rintro _ rfl
      exact ⟨Change.refl _, rfl, fun _ => ⟨seq, _, hseq, hsent, hanswered, .inl ⟨hfalse, rfl⟩⟩⟩
    · exact Ensures.weaken (ensures_callGoalResponseCallback n _ _) (fun _ h => h)
        (fun _ _ h => h.change) fun _ h => h
  · have htrue : response.accepted = true := by simpa using haccepted
    -- the new goal handle has the id of the request
    refine Ensures.bind (Q := fun _ s => s = s₀.addHandle
      { goalId := (s₀.sends n).goalId, stamp := response.stamp }
      (s₀.sends n).options.resultCallback) (Ensures.modify ?_) fun _ => ?_
    · rintro _ rfl
      rfl
    refine Ensures.bind (Ensures.weaken
      (ensures_setPromise n (s₀.allocated + 1) (.ok (some s₀.allocated))) ?_
      (fun _ _ h => h) fun _ h => h) fun _ => ?_
    · rintro _ rfl
      refine ⟨change_addHandle _ _, rfl, fun _ => ⟨seq, _, hseq, hsent, hanswered, .inr ⟨htrue,
        s₀.allocated, Nat.lt_succ_self _, rfl, ?_⟩⟩⟩
      exact goalId_addHandle ..
    refine Ensures.bind (ensures_callGoalResponseCallback n _ _) fun _ => ?_
    refine Ensures.ite (fun _ => ?_) fun _ => Ensures.pure fun _ h => h.change
    refine Ensures.tryCatch (Ensures.weaken
      (ensures_makeResultAware n _ s₀.allocated (Nat.lt_succ_self _)) (fun _ h => h)
      (fun _ _ h => h.change) fun _ h => h) fun e => ?_
    -- the promise has a value already
    refine Ensures.weaken (ensures_setPromise n (s₀.allocated + 1) (.error e)) (fun s hs => ?_)
      (fun _ _ h => h.change) fun _ h => h
    refine ⟨hs.change, hs.allocated, fun hnone => ?_⟩
    have hsome := hs.outcome
    rw [hnone] at hsome
    cases hsome

theorem change_goalResponse {s : State ρ} (hs : Faithful x s) {seq : Int}
    {response : GoalResponse} (env : Surroundings)
    (hanswered : x.goalAnswered seq response.accepted) :
    Change x env.resultRequest s (after (handleGoalResponse seq response env) s) := by
  refine Ensures.after (P := fun t => t = s) (Ensures.get_self ?_) rfl
  cases hn : s.pendingGoalResponses seq with
  | none =>
    refine Ensures.pure ?_
    rintro _ rfl
    exact Change.refl _
  | some n =>
    obtain ⟨_, hseq, hsent⟩ := hs.pendingGoal seq n hn
    refine Ensures.bind (ensures_onGoalResponse hseq hsent hanswered) fun _ => ?_
    exact Ensures.modify fun s' h => h.trans (change_forgetGoal seq)

theorem ensures_setResult {seq : Int} {h : Nat} {response : ResultResponse ρ}
    (hsent : x.resultSent seq (s₀.handles h).info.goalId)
    (hanswered : x.resultAnswered seq response) (callbackThrows : Bool) :
    Ensures (fun s => s = s₀)
      (setResult h
        { goalId := (s₀.handles h).info.goalId, code := response.status,
          result := response.result }
        callbackThrows)
      (fun _ => Change x ret s₀) (Change x ret s₀) := by
  refine Ensures.get_self ?_
  refine Ensures.bind (Q := fun _ => Change x ret s₀) (Ensures.modify ?_) fun _ => ?_
  · rintro _ rfl
    refine change_setResult h (fun _ => rfl) fun o ho => ?_
    rcases outcome_attempt ho with ho | ⟨_, rfl⟩
    · exact .inl ho
    · exact .inr ⟨seq, response, hsent, hanswered, rfl⟩
  · refine Ensures.bind (Q := fun _ => Change x ret s₀)
      (Ensures.throwIf (fun _ h _ => h) fun _ h _ => h) fun _ => ?_
    exact Ensures.throwIf (fun _ h _ => h) fun _ h _ => h

theorem change_forgetHandle (s : State ρ) (goalId : GoalUUID) : Change x ret s
    { s with goalHandles := Function.update s.goalHandles goalId none } :=
  .of_handles rfl (fun _ => rfl) (fun _ => rfl) rfl rfl

theorem change_resultResponse {s : State ρ} (hs : Faithful x s) {seq : Int}
    {response : ResultResponse ρ} (callbackThrows : Bool)
    (hanswered : x.resultAnswered seq response) :
    Change x none s (after (handleResultResponse seq response callbackThrows) s) := by
  refine Ensures.after (P := fun t => t = s) (Ensures.get_self ?_) rfl
  cases hh : s.pendingResultResponses seq with
  | none =>
    refine Ensures.pure ?_
    rintro _ rfl
    exact Change.refl _
  | some h =>
    have hsent := (hs.pendingResult seq h hh).2
    refine Ensures.bind (Q := fun _ => Change x none s) (Ensures.get_self ?_) fun _ => ?_
    · refine Ensures.bind (ensures_setResult hsent hanswered callbackThrows) fun _ => ?_
      exact Ensures.modify fun s' h => h.trans (change_forgetHandle s' _)
    · exact Ensures.modify fun s' h => h.trans (change_forgetResult seq)

theorem change_getResult {s : State ρ} {h : Nat} (hh : h < s.allocated) (resultCallback : Bool)
    (ret : Option Int) : Change x ret s (after (asyncGetResult h resultCallback ret) s) := by
  refine Ensures.after (P := fun t => t = s) (Ensures.get_self ?_) rfl
  refine Ensures.bind (Q := fun _ t => t = s) (Ensures.throwIf (fun _ h _ => h) ?_) fun _ => ?_
  · rintro _ rfl _
    exact Change.refl _
  refine Ensures.bind (Q := fun _ t => Change x ret s t) (Ensures.modify ?_) fun _ => ?_
  · rintro _ rfl
    exact change_modifyHandle h (fun _ => rfl) fun _ => rfl
  refine Ensures.ite (fun _ => ?_) fun _ => Ensures.pure fun _ h => h
  have hsend : Ensures (Change x ret s) (sendResultRequest ret h)
      (fun _ => Change x ret s) (Change x ret s) := by
    cases ret with
    | none => exact Ensures.throw fun _ hs => hs
    | some seq =>
      refine Ensures.modify fun s' hs => hs.trans (change_sendResult rfl ?_)
      exact Nat.lt_of_lt_of_le hh hs.grows.allocated
  refine Ensures.bind hsend fun _ => Ensures.modify fun s' hs => hs.trans ?_
  exact change_modifyHandle h (fun _ => rfl) fun _ => rfl

theorem change_noteStatus (s : State ρ) (status : GoalUUID × GoalState) :
    Change x ret s (s.noteStatus status) := by
  unfold State.noteStatus
  cases s.goalHandles status.1 with
  | none => exact Change.refl s
  | some h =>
    have hchange : Change x ret s (s.modifyHandle h fun g => { g with status := status.2 }) :=
      change_modifyHandle h (fun _ => rfl) fun _ => rfl
    simp only
    split
    · exact hchange.trans (change_forgetHandle _ _)
    · exact hchange

theorem change_statusMessage (s : State ρ) (statusList : List (GoalUUID × GoalState)) :
    Change x ret s (after (handleStatusMessage statusList) s) := by
  show Change x ret s (statusList.foldl State.noteStatus s)
  induction statusList generalizing s with
  | nil => exact Change.refl s
  | cons status rest ih => exact (change_noteStatus s status).trans (ih _)

/-- the state in which `async_send_goal` sends its request -/
def State.addSend (s : State ρ) (call : SendCall) : State ρ :=
  { s with sends := Function.update s.sends s.sent call, sent := s.sent + 1 }

theorem sends_addSend_of_lt (s : State ρ) (call : SendCall) {n : Nat} (hn : n < s.sent) :
    (s.addSend call).sends n = s.sends n :=
  Function.update_of_ne hn.ne ..

theorem sends_addSend_self (s : State ρ) (call : SendCall) : (s.addSend call).sends s.sent = call :=
  Function.update_self ..

theorem Faithful.addSend {s : State ρ} (hs : Faithful x s) {call : SendCall} (hcall : call.Fresh) :
    Faithful x (s.addSend call) where
  pendingGoal seq n hn := by
    obtain ⟨hlt, hseq⟩ := hs.pendingGoal seq n hn
    rw [sends_addSend_of_lt s call hlt]
    exact ⟨Nat.lt_succ_of_lt hlt, hseq⟩
  pendingResult := hs.pendingResult
  goals n o hn ho := by
    rcases Nat.lt_succ_iff_lt_or_eq.mp hn with hlt | rfl
    · rw [sends_addSend_of_lt s call hlt] at ho ⊢
      exact hs.goals n o hlt ho
    · rw [sends_addSend_self, hcall.1] at ho
      cases ho
  results := hs.results

/-- **Sending a goal request** keeps a client faithful, when the request is one of the exchange. -/
theorem faithful_sendGoal {s : State ρ} (hs : Faithful x s) {goalId : GoalUUID}
    (options : SendGoalOptions) {ret : Option Int}
    (hsent : ∀ seq, ret = some seq → x.goalSent seq goalId) :
    Faithful x (after (asyncSendGoal goalId options ret) s) := by
  have hfresh : SendCall.Fresh { goalId := goalId, seq := ret, options := options } := ⟨rfl, rfl⟩
  have hadd := hs.addSend hfresh
  cases ret with
  | none => exact hadd
  | some seq =>
    refine ⟨fun seq' n hn => ?_, hadd.pendingResult, hadd.goals, hadd.results⟩
    rcases update_some_eq.mp hn with ⟨rfl, rfl⟩ | ⟨_, hn⟩
    · refine ⟨Nat.lt_succ_self _, ?_⟩
      show ((s.addSend _).sends s.sent).seq = some seq' ∧
        x.goalSent seq' ((s.addSend _).sends s.sent).goalId
      rw [sends_addSend_self]
      exact ⟨rfl, hsent seq' rfl⟩
    · exact hadd.pendingGoal seq' n hn

end

end PMROS2.RclcppAction.Client
