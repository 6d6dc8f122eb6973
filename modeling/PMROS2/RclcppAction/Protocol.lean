import PMROS2.RclcppAction.Exchange
import PMROS2.RclcppAction.Origins

/-!
# An action server and its clients

`World` is a server with any number of clients.  A request that was sent may be taken any number of
times, late, after younger ones or never, and so may a response: the world keeps them in logs, and
a step that delivers one names its place there.  The header of a request, which the response goes
back with, is its client and its sequence number; the middleware numbers the requests of a client.

* `World.Consistent`       the invariant: the logs fit together, and the clients are faithful to them;
* `World.Agreement`        what a client believes of its goals is what the server did;
* `agreement_of_reach`     it does, in every reachable state.
-/

namespace PMROS2.RclcppAction
open Runs Throwing RclAction

/-- a goal or result request: who sent it, its sequence number, and the goal id in it -/
structure Request (ι : Type) where
  client : ι
  seq : Int
  goalId : GoalUUID

structure World (ι ρ : Type) where
  server : State ρ
  clients : ι → Client.State (Option ρ) := fun _ => {}
  goalRequests : List (Request ι) := []
  resultRequests : List (Request ι) := []
  /-- the headers of the goal requests that the server took, one for each goal response -/
  goalHeaders : List (ι × Int) := []
  /-- the headers of the result requests that the server took -/
  resultHeaders : List (ι × Int) := []

section
variable {ι ρ : Type} [DecidableEq ι]

/-- the sequence number was not given to a request of the client -/
def unused (log : List (Request ι)) (c : ι) (ret : Option Int) : Bool :=
  ret.all fun seq => log.all fun request => request.client ≠ c || request.seq ≠ seq

/-- the result request that a call has sent: the client waits for its response -/
def resultRequested (s : Client.State (Option ρ)) (c : ι) (ret : Option Int) : List (Request ι) :=
  match ret with
  | none => []
  | some seq =>
    match s.pendingResultResponses seq with
    | none => []
    | some h => [⟨c, seq, (s.handles h).info.goalId⟩]

/-- a call on a client, which may send a result request -/
def World.call (w : World ι ρ) (c : ι) (x : Client.M (Option ρ) Unit) (ret : Option Int) :
    World ι ρ :=
  let s := after x (w.clients c)
  { w with
    clients := Function.update w.clients c s
    resultRequests := w.resultRequests ++ resultRequested s c ret }

/-- the action of the server that takes no request -/
def Action.isInternal : Action ρ → Bool
  | .goalRequest .. | .resultRequest .. => false
  | _ => true

inductive WorldAction (ι ρ : Type) where
  | sendGoal (c : ι) (goalId : GoalUUID) (options : Client.SendGoalOptions) (ret : Option Int)
  /-- the server takes the goal request `i` -/
  | takeGoalRequest (i : Nat) (answer : GoalResponse) (now : Int64)
  /-- the goal response `j` reaches its client -/
  | goalResponse (j : Nat) (env : Client.Surroundings)
  | getResult (c : ι) (h : Nat) (resultCallback : Bool) (ret : Option Int)
  /-- the server takes the result request `i` -/
  | takeResultRequest (i : Nat)
  /-- the result response `j` reaches its client -/
  | resultResponse (j : Nat) (callbackThrows : Bool)
  | statusMessage (c : ι) (statusList : List (GoalUUID × GoalState))
  | server (a : Action ρ)

def World.step (w : World ι ρ) : WorldAction ι ρ → Option (World ι ρ)
  | .sendGoal c goalId options ret =>
    if unused w.goalRequests c ret then
      some { w with
        clients := Function.update w.clients c
          (after (Client.asyncSendGoal goalId options ret) (w.clients c))
        goalRequests := w.goalRequests ++ ret.toList.map fun seq => ⟨c, seq, goalId⟩ }
    else none
  | .takeGoalRequest i answer now =>
    (w.goalRequests[i]?).bind fun request =>
      (RclcppAction.step w.server (.goalRequest request.goalId answer now)).map fun s =>
        { w with
          server := s
          goalHeaders := w.goalHeaders ++ [(request.client, request.seq)] }
  | .goalResponse j env =>
    (w.goalHeaders[j]?).bind fun header => (w.server.goalResponses[j]?).bind fun response =>
      if unused w.resultRequests header.1 env.resultRequest then
        some (w.call header.1
          (Client.handleGoalResponse header.2 { accepted := response.2 } env) env.resultRequest)
      else none
  | .getResult c h resultCallback ret =>
    if h < (w.clients c).allocated ∧ unused w.resultRequests c ret = true then
      some (w.call c (Client.asyncGetResult h resultCallback ret) ret)
    else none
  | .takeResultRequest i =>
    (w.resultRequests[i]?).bind fun request =>
      (RclcppAction.step w.server (.resultRequest request.goalId)).map fun s =>
        { w with
          server := s
          resultHeaders := w.resultHeaders ++ [(request.client, request.seq)] }
  | .resultResponse j callbackThrows =>
    (w.server.sent[j]?).bind fun sent => (w.resultHeaders[sent.1]?).map fun header =>
      w.call header.1
        (Client.handleResultResponse header.2 ⟨sent.2.status, sent.2.result⟩ callbackThrows) none
  | .statusMessage c statusList =>
    some (w.call c (Client.handleStatusMessage statusList) none)
  | .server a =>
    if a.isInternal then (RclcppAction.step w.server a).map fun s => { w with server := s } else none

/-- a new server, and clients that have sent nothing -/
def World.IsInit (w : World ι ρ) : Prop := ∃ s : State ρ, RclcppAction.IsInit s ∧ w = { server := s }

/-! ## what the clients believe -/

/-- the promise of a call has the answer of the server to the request that the call has sent: the
null pointer when it was rejected, and when it was accepted a handle for this goal, which the
server has -/
def World.GoalAgrees (w : World ι ρ) (c : ι) (call : Client.SendCall)
    (o : Except Client.Error (Option Nat)) : Prop :=
  ∃ (seq : Int) (j : Nat) (accepted : Bool), call.seq = some seq ∧
    ⟨c, seq, call.goalId⟩ ∈ w.goalRequests ∧ w.goalHeaders[j]? = some (c, seq) ∧
    w.server.goalResponses[j]? = some (call.goalId, accepted) ∧
      (accepted = false ∧ o = .ok none ∨
        accepted = true ∧
          (∃ h, h < (w.clients c).allocated ∧ o = .ok (some h) ∧
            ((w.clients c).handles h).info.goalId = call.goalId) ∧
          ∃ k, k < w.server.next ∧ w.server.uuid k = call.goalId)

/-- the result of a goal handle: there is no such goal, or what a goal with this id ended with -/
def World.ResultAgrees (w : World ι ρ) (goalId : GoalUUID)
    (o : Except Client.Error (Client.WrappedResult (Option ρ))) : Prop :=
  ∃ r : ResultResponse ρ, o = .ok { goalId := goalId, code := r.status, result := r.result } ∧
    (r = { status := .unknown } ∨
      ∃ k, Ended w.server k goalId r ∧ (w.server.impl k).state = r.status ∧
        r.status.isTerminal = true)

structure World.Agreement (w : World ι ρ) (c : ι) : Prop where
  goals : ∀ n o, n < (w.clients c).sent → ((w.clients c).sends n).promise.outcome = some o →
    w.GoalAgrees c ((w.clients c).sends n) o
  results : ∀ h o, h < (w.clients c).allocated →
    ((w.clients c).handles h).resultPromise.outcome = some o →
      w.ResultAgrees ((w.clients c).handles h).info.goalId o

end

/-! ## the logs of the server -/

section
variable {ρ : Type} {s s' : State ρ} {a : Action ρ}

def Action.answered : Action ρ → List (GoalUUID × Bool)
  | .goalRequest uuid answer _ => [(uuid, isAccepted answer)]
  | _ => []

def Action.requested : Action ρ → List GoalUUID
  | .resultRequest uuid => [uuid]
  | _ => []

theorem logs_of_internal (h : a.isInternal = true) : a.answered = [] ∧ a.requested = [] := by
  cases a with
  | goalRequest | resultRequest => cases h
  | _ => exact ⟨rfl, rfl⟩

theorem logs_of_ends {h : Nat} (he : a.Ends h) : a.answered = [] ∧ a.requested = [] := by
  cases a with
  | abort | succeed | canceled | destroy => exact ⟨rfl, rfl⟩
  | _ => cases he

theorem logs_of_stutter {h : Nat} (he : a = .execute h ∨ a.Ends h) :
    a.answered = [] ∧ a.requested = [] := by
  rcases he with rfl | he
  · exact ⟨rfl, rfl⟩
  · exact logs_of_ends he

theorem goalResponses_step (hs : step s a = some s') :
    s'.goalResponses = s.goalResponses ++ a.answered := by
  cases step_move s s' a hs with
  | answered | added => rfl
  | stutter a h he => rw [(logs_of_stutter he).1, List.append_nil]
  | ended a h t r alive _ _ _ _ he => rw [(logs_of_ends he).1, List.append_nil]; rfl
  | _ => exact (List.append_nil _).symm

theorem requests_step (hs : step s a = some s') :
    s'.requests.map TakenRequest.uuid = s.requests.map TakenRequest.uuid ++ a.requested := by
  cases step_move s s' a hs with
  | resultSent | resultStored => exact List.map_append
  | stutter a h he => rw [(logs_of_stutter he).2, List.append_nil]
  | ended a h t r alive _ _ _ _ he => rw [(logs_of_ends he).2, List.append_nil]; rfl
  | _ => exact (List.append_nil _).symm

theorem sent_step (hs : step s a = some s') : s.sent <+: s'.sent := by
  cases step_move s s' a hs with
  | resultSent | published => exact List.prefix_append _ _
  | _ => exact List.prefix_refl _

/-- an accepted goal is one the server has or had -/
def Accepts (s : State ρ) : Prop :=
  ∀ u, (u, true) ∈ s.goalResponses → ∃ k, k < s.next ∧ s.uuid k = u

theorem accepts_step (ho : Origins s) (hw : WellFormed s) (ha : Accepts s)
    (hs : step s a = some s') : Accepts s' := by
  have hm := step_move s s' a hs
  have hstay := hm.goalsStay ho
  have hold : ∀ u, (u, true) ∈ s.goalResponses → ∃ k, k < s'.next ∧ s'.uuid k = u := by
    intro u hu
    obtain ⟨k, hk, hid⟩ := ha u hu
    exact ⟨k, Nat.lt_of_lt_of_le hk hstay.next, (hstay.uuid k hk).trans hid⟩
  intro u hu
  rw [goalResponses_step hs] at hu
  rcases List.mem_append.mp hu with hu | hu
  · exact hold u hu
  cases hm with
  | answered uuid answer now h =>
    obtain ⟨rfl, hyes⟩ := Prod.mk.inj (List.mem_singleton.mp hu)
    -- the response says accepted, but the goal was there already
    have he : goalExists s.impl s.actionServer u = true := by
      rcases h with h | h
      · rw [h] at hyes
        cases hyes
      · exact h
    obtain ⟨k, hk, hid⟩ := List.any_eq_true.mp he
    exact ⟨k, hw.allocated k hk, of_decide_eq_true hid⟩
  | added uuid answer now t _ _ _ _ =>
    obtain ⟨rfl, _⟩ := Prod.mk.inj (List.mem_singleton.mp hu)
    exact ⟨s.next, Nat.lt_succ_self _, addGoal_uuid_next s u answer now t⟩
  | stutter a h he =>
    rw [(logs_of_stutter he).1] at hu
    cases hu
  | ended a h t r alive _ _ _ _ he =>
    rw [(logs_of_ends he).1] at hu
    cases hu
  | _ => cases hu

end

/-! ## the logs of the world -/

section
variable {ι ρ : Type}

/-- what has passed between a client and the server -/
def World.exchange (w : World ι ρ) (c : ι) : Client.Exchange (Option ρ) where
  goalSent seq u := ⟨c, seq, u⟩ ∈ w.goalRequests
  goalAnswered seq accepted := ∃ (j : Nat) (u : GoalUUID),
    w.goalHeaders[j]? = some (c, seq) ∧ w.server.goalResponses[j]? = some (u, accepted)
  resultSent seq u := ⟨c, seq, u⟩ ∈ w.resultRequests
  resultAnswered seq response := ∃ (q : Nat) (r : ResultResponse ρ),
    w.resultHeaders[q]? = some (c, seq) ∧ (q, r) ∈ w.server.sent ∧
      response = ⟨r.status, r.result⟩

/-- the requests of a client have different sequence numbers -/
def Numbered (log : List (Request ι)) : Prop :=
  ∀ c seq u v, ⟨c, seq, u⟩ ∈ log → ⟨c, seq, v⟩ ∈ log → u = v

/-- every header that was taken is the one of a request that was sent, for the id beside it -/
def Taken (log : List (Request ι)) (headers : List (ι × Int)) (ids : List GoalUUID) : Prop :=
  List.Forall₂ (fun header u => ⟨header.1, header.2, u⟩ ∈ log) headers ids

theorem Taken.mem {log : List (Request ι)} {headers : List (ι × Int)} {ids : List GoalUUID}
    (h : Taken log headers ids) {j : Nat} {c : ι} {seq : Int} {u : GoalUUID}
    (hheader : headers[j]? = some (c, seq)) (hid : ids[j]? = some u) : ⟨c, seq, u⟩ ∈ log := by
  induction h generalizing j with
  | nil => cases hheader
  | cons hmem _ ih =>
    cases j with
    | zero =>
      obtain rfl := Option.some.inj hheader
      obtain rfl := Option.some.inj hid
      exact hmem
    | succ j => exact ih hheader hid

theorem Taken.mono {log log' : List (Request ι)} {headers : List (ι × Int)} {ids : List GoalUUID}
    (h : Taken log headers ids) (hlog : ∀ r ∈ log, r ∈ log') : Taken log' headers ids :=
  h.imp fun _ _ hmem => hlog _ hmem

theorem Taken.append {log : List (Request ι)} {headers : List (ι × Int)} {ids : List GoalUUID}
    (h : Taken log headers ids) {request : Request ι} (hmem : request ∈ log) :
    Taken log (headers ++ [(request.client, request.seq)]) (ids ++ [request.goalId]) :=
  List.rel_append h (.cons hmem .nil)

theorem Taken.append_nil {log : List (Request ι)} {headers : List (ι × Int)} {ids : List GoalUUID}
    (h : Taken log headers ids) : Taken log (headers ++ []) (ids ++ []) := by
  rwa [List.append_nil, List.append_nil]

/-- the logs have grown -/
structure World.Extends (w w' : World ι ρ) : Prop where
  goalRequests : w.goalRequests <+: w'.goalRequests
  resultRequests : w.resultRequests <+: w'.resultRequests
  goalHeaders : w.goalHeaders <+: w'.goalHeaders
  resultHeaders : w.resultHeaders <+: w'.resultHeaders
  goalResponses : w.server.goalResponses <+: w'.server.goalResponses
  sent : w.server.sent <+: w'.server.sent

theorem getElem?_of_prefix {α : Type} {l l' : List α} (h : l <+: l') {i : Nat} {x : α}
    (hx : l[i]? = some x) : l'[i]? = some x := by
  obtain ⟨t, rfl⟩ := h
  rw [List.getElem?_append_left (List.getElem?_eq_some_iff.mp hx).1, hx]

theorem World.Extends.faithful {w w' : World ι ρ} (h : w.Extends w') {c : ι}
    {s : Client.State (Option ρ)} (hs : Client.Faithful (w.exchange c) s) :
    Client.Faithful (w'.exchange c) s := by
  refine hs.mono (fun seq u hu => h.goalRequests.subset hu) ?_
    (fun seq u hu => h.resultRequests.subset hu) ?_
  · rintro seq accepted ⟨j, u, hheader, hresponse⟩
    exact ⟨j, u, getElem?_of_prefix h.goalHeaders hheader,
      getElem?_of_prefix h.goalResponses hresponse⟩
  · rintro seq response ⟨q, r, hheader, hsent, hr⟩
    exact ⟨q, r, getElem?_of_prefix h.resultHeaders hheader, h.sent.subset hsent, hr⟩

theorem numbered_concat [DecidableEq ι] {log : List (Request ι)} {c : ι} {seq : Int}
    (h : Numbered log) (hunused : unused log c (some seq) = true) (u : GoalUUID) :
    Numbered (log ++ [⟨c, seq, u⟩]) := by
  have hfresh : ∀ v, ⟨c, seq, v⟩ ∉ log := by
    intro v hv
    have hne := List.all_eq_true.mp hunused _ hv
    simp at hne
  intro d seq' v v' hmem hmem'
  rcases List.mem_append.mp hmem with hv | hv <;> rcases List.mem_append.mp hmem' with hv' | hv'
  · exact h d seq' v v' hv hv'
  · obtain ⟨rfl, rfl, rfl⟩ := Request.mk.inj (List.mem_singleton.mp hv')
    exact absurd hv (hfresh v)
  · obtain ⟨rfl, rfl, rfl⟩ := Request.mk.inj (List.mem_singleton.mp hv)
    exact absurd hv' (hfresh v')
  · exact congrArg Request.goalId
      ((List.mem_singleton.mp hv).trans (List.mem_singleton.mp hv').symm)

/-! ## the invariant -/

structure World.Consistent (w : World ι ρ) : Prop where
  origins : Origins w.server
  wellFormed : WellFormed w.server
  accepts : Accepts w.server
  goalNumbers : Numbered w.goalRequests
  goalTaken : Taken w.goalRequests w.goalHeaders (w.server.goalResponses.map Prod.fst)
  resultNumbers : Numbered w.resultRequests
  resultTaken : Taken w.resultRequests w.resultHeaders (w.server.requests.map TakenRequest.uuid)
  clients : ∀ c, Client.Faithful (w.exchange c) (w.clients c)

variable {w w' : World ι ρ}

/-- **A step of the server**, which has taken the requests with these headers. -/
theorem consistent_server (hw : w.Consistent) {a : Action ρ} {s : State ρ}
    {goalHeaders resultHeaders : List (ι × Int)} (hs : step w.server a = some s)
    (hgoal : Taken w.goalRequests (w.goalHeaders ++ goalHeaders)
      (w.server.goalResponses.map Prod.fst ++ a.answered.map Prod.fst))
    (hresult : Taken w.resultRequests (w.resultHeaders ++ resultHeaders)
      (w.server.requests.map TakenRequest.uuid ++ a.requested)) :
    World.Consistent { w with
      server := s
      goalHeaders := w.goalHeaders ++ goalHeaders
      resultHeaders := w.resultHeaders ++ resultHeaders } where
  origins := origins_step hw.origins hs
  wellFormed := wellFormed_step _ a _ hw.wellFormed hs
  accepts := accepts_step hw.origins hw.wellFormed hw.accepts hs
  goalNumbers := hw.goalNumbers
  goalTaken := by
    show Taken _ _ (s.goalResponses.map Prod.fst)
    rw [goalResponses_step hs, List.map_append]
    exact hgoal
  resultNumbers := hw.resultNumbers
  resultTaken := by
    show Taken _ _ (s.requests.map TakenRequest.uuid)
    rw [requests_step hs]
    exact hresult
  clients c := by
    have hextends : w.Extends { w with
        server := s
        goalHeaders := w.goalHeaders ++ goalHeaders
        resultHeaders := w.resultHeaders ++ resultHeaders } :=
      ⟨List.prefix_refl _, List.prefix_refl _, List.prefix_append _ _, List.prefix_append _ _,
        goalResponses_step hs ▸ List.prefix_append _ _, sent_step hs⟩
    exact hextends.faithful (hw.clients c)

theorem consistent_init (h : w.IsInit) : w.Consistent := by
  obtain ⟨s, hs, rfl⟩ := h
  have hempty : s.goalResponses = [] ∧ s.requests = [] := by
    obtain ⟨resultTimeout, server, _, rfl⟩ := hs
    exact ⟨rfl, rfl⟩
  refine ⟨origins_init hs, wellFormed_init s hs, fun u hu => ?_, fun _ _ _ _ hu => (by cases hu), ?_,
    fun _ _ _ _ hu => (by cases hu), ?_, fun _ => Client.faithful_init _⟩
  · rw [hempty.1] at hu
    cases hu
  · show Taken [] [] (s.goalResponses.map Prod.fst)
    rw [hempty.1]
    exact .nil
  · show Taken [] [] (s.requests.map TakenRequest.uuid)
    rw [hempty.2]
    exact .nil

theorem resultRequested_cases (s : Client.State (Option ρ)) (c : ι) (ret : Option Int) :
    resultRequested s c ret = [] ∨ ∃ seq h, ret = some seq ∧
      s.pendingResultResponses seq = some h ∧
      resultRequested s c ret = [⟨c, seq, (s.handles h).info.goalId⟩] := by
  unfold resultRequested
  cases ret with
  | none => exact .inl rfl
  | some seq =>
    cases hh : s.pendingResultResponses seq with
    | none => exact .inl (by simp only [hh])
    | some h => exact .inr ⟨seq, h, rfl, hh, by simp only [hh]⟩

/-- **The invariant gives agreement.** -/
theorem World.Consistent.agreement (hw : w.Consistent) (c : ι) : w.Agreement c where
  goals n o hn ho := by
    obtain ⟨seq, accepted, hseq, hsent, ⟨j, u, hheader, hresponse⟩, hcases⟩ :=
      (hw.clients c).goals n o hn ho
    -- the request that the server answered is the one of this call
    have hid : (w.server.goalResponses.map Prod.fst)[j]? = some u := by
      rw [List.getElem?_map, hresponse]
      rfl
    obtain rfl := hw.goalNumbers c seq _ _ (hw.goalTaken.mem hheader hid) hsent
    refine ⟨seq, j, accepted, hseq, hsent, hheader, hresponse, hcases.imp id ?_⟩
    rintro ⟨rfl, hhandle⟩
    exact ⟨rfl, hhandle, hw.accepts _ (List.mem_of_getElem? hresponse)⟩
  results h o hh ho := by
    obtain ⟨seq, response, hsent, ⟨q, r, hheader, hr, rfl⟩, rfl⟩ := (hw.clients c).results h o hh ho
    obtain ⟨request, hrequest, hanswers⟩ := hw.origins.sent q r hr
    have hid : (w.server.requests.map TakenRequest.uuid)[q]? = some request.uuid := by
      rw [List.getElem?_map, hrequest]
      rfl
    have huuid := hw.resultNumbers c seq _ _ (hw.resultTaken.mem hheader hid) hsent
    rw [huuid] at hanswers
    refine ⟨r, rfl, hanswers.imp id ?_⟩
    rintro ⟨k, hended⟩
    have houtcome := hw.origins.outcome k r (Phase.response_of_ended hended.ended)
    exact ⟨k, hended, houtcome.1, houtcome.2⟩

/-! ## the steps -/

variable [DecidableEq ι]

theorem faithful_update {s : Client.State (Option ρ)} {c : ι} (hw : w.Consistent)
    (hclients : w'.clients = Function.update w.clients c s) (hextends : w.Extends w')
    (hs : Client.Faithful (w'.exchange c) s) (d : ι) :
    Client.Faithful (w'.exchange d) (w'.clients d) := by
  rw [hclients]
  by_cases hd : d = c
  · subst hd
    rw [Function.update_self]
    exact hs
  · rw [Function.update_of_ne hd]
    exact hextends.faithful (hw.clients d)

/-- **A call on a client** that changes it as `Change` says. -/
theorem consistent_call (hw : w.Consistent) {c : ι} {x : Client.M (Option ρ) Unit}
    {ret : Option Int} (hunused : unused w.resultRequests c ret = true)
    (hchange : ∀ y : Client.Exchange (Option ρ), y.goalAnswered = (w.exchange c).goalAnswered →
      y.resultAnswered = (w.exchange c).resultAnswered → Client.Faithful y (w.clients c) →
        Client.Change y ret (w.clients c) (after x (w.clients c))) :
    (w.call c x ret).Consistent := by
  have hextends : w.Extends (w.call c x ret) :=
    ⟨List.prefix_refl _, List.prefix_append _ _, List.prefix_refl _, List.prefix_refl _,
      List.prefix_refl _, List.prefix_refl _⟩
  have hold := hextends.faithful (hw.clients c)
  have hs : Client.Faithful ((w.call c x ret).exchange c) (after x (w.clients c)) := by
    refine hold.change (hchange _ rfl rfl hold) ?_
    intro seq h hret hh
    -- the request that was sent is in the log
    refine List.mem_append_right _ ?_
    unfold resultRequested
    rw [hret]
    simp only [hh]
    exact List.mem_singleton.mpr rfl
  refine ⟨hw.origins, hw.wellFormed, hw.accepts, hw.goalNumbers, hw.goalTaken, ?_,
    hw.resultTaken.mono hextends.resultRequests.subset, faithful_update hw rfl hextends hs⟩
  show Numbered (w.resultRequests ++ _)
  rcases resultRequested_cases (after x (w.clients c)) c ret with h | ⟨seq, k, hret, _, h⟩
  · rw [h, List.append_nil]
    exact hw.resultNumbers
  · rw [h]
    exact numbered_concat hw.resultNumbers (hret ▸ hunused) _

theorem consistent_sendGoal (hw : w.Consistent) {c : ι} {goalId : GoalUUID}
    (options : Client.SendGoalOptions) {ret : Option Int}
    (hunused : unused w.goalRequests c ret = true) :
    World.Consistent { w with
      clients := Function.update w.clients c
        (after (Client.asyncSendGoal goalId options ret) (w.clients c))
      goalRequests := w.goalRequests ++ ret.toList.map fun seq => ⟨c, seq, goalId⟩ } := by
  set w' : World ι ρ := { w with
    clients := Function.update w.clients c
      (after (Client.asyncSendGoal goalId options ret) (w.clients c))
    goalRequests := w.goalRequests ++ ret.toList.map fun seq => ⟨c, seq, goalId⟩ }
  have hextends : w.Extends w' :=
    ⟨List.prefix_append _ _, List.prefix_refl _, List.prefix_refl _, List.prefix_refl _,
      List.prefix_refl _, List.prefix_refl _⟩
  have hs : Client.Faithful (w'.exchange c)
      (after (Client.asyncSendGoal goalId options ret) (w.clients c)) := by
    refine Client.faithful_sendGoal (hextends.faithful (hw.clients c)) options ?_
    rintro seq rfl
    exact List.mem_append_right _ (List.mem_singleton.mpr rfl)
  refine ⟨hw.origins, hw.wellFormed, hw.accepts, ?_,
    hw.goalTaken.mono hextends.goalRequests.subset, hw.resultNumbers, hw.resultTaken,
    faithful_update hw rfl hextends hs⟩
  show Numbered (w.goalRequests ++ _)
  cases ret with
  | none => exact (List.append_nil w.goalRequests).symm ▸ hw.goalNumbers
  | some seq => exact numbered_concat hw.goalNumbers hunused goalId

theorem consistent_step {a : WorldAction ι ρ} (hw : w.Consistent) (hs : w.step a = some w') :
    w'.Consistent := by
  cases a with
  | sendGoal c goalId options ret =>
    obtain ⟨hunused, rfl⟩ := guarded_eq_some.mp hs
    exact consistent_sendGoal hw options hunused
  | takeGoalRequest i answer now =>
    obtain ⟨request, hrequest, hs⟩ := Option.bind_eq_some_iff.mp hs
    obtain ⟨s, hserver, rfl⟩ := Option.map_eq_some_iff.mp hs
    have hmem := List.mem_of_getElem? hrequest
    have h := consistent_server hw hserver (hw.goalTaken.append hmem) hw.resultTaken.append_nil
    rwa [List.append_nil] at h
  | goalResponse j env =>
    obtain ⟨header, hheader, hs⟩ := Option.bind_eq_some_iff.mp hs
    obtain ⟨response, hresponse, hs⟩ := Option.bind_eq_some_iff.mp hs
    obtain ⟨hunused, rfl⟩ := guarded_eq_some.mp hs
    refine consistent_call hw hunused fun y hy _ hfaithful =>
      Client.change_goalResponse hfaithful env ?_
    rw [hy]
    exact ⟨j, response.1, hheader, hresponse⟩
  | getResult c h resultCallback ret =>
    obtain ⟨⟨hh, hunused⟩, rfl⟩ := guarded_eq_some.mp hs
    exact consistent_call hw hunused fun _ _ _ _ => Client.change_getResult hh resultCallback ret
  | takeResultRequest i =>
    obtain ⟨request, hrequest, hs⟩ := Option.bind_eq_some_iff.mp hs
    obtain ⟨s, hserver, rfl⟩ := Option.map_eq_some_iff.mp hs
    have hmem := List.mem_of_getElem? hrequest
    have h := consistent_server hw hserver hw.goalTaken.append_nil (hw.resultTaken.append hmem)
    rwa [List.append_nil] at h
  | resultResponse j callbackThrows =>
    obtain ⟨sent, hsent, hs⟩ := Option.bind_eq_some_iff.mp hs
    obtain ⟨header, hheader, rfl⟩ := Option.map_eq_some_iff.mp hs
    refine consistent_call hw rfl fun y _ hy hfaithful =>
      Client.change_resultResponse hfaithful callbackThrows ?_
    rw [hy]
    exact ⟨sent.1, sent.2, hheader, List.mem_of_getElem? hsent, rfl⟩
  | statusMessage c statusList =>
    obtain rfl := Option.some.inj hs
    exact consistent_call hw rfl fun _ _ _ _ => Client.change_statusMessage _ statusList
  | server a =>
    obtain ⟨hinternal, hs⟩ := Option.ite_none_right_eq_some.mp hs
    obtain ⟨s, hserver, rfl⟩ := Option.map_eq_some_iff.mp hs
    obtain ⟨hanswered, hrequested⟩ := logs_of_internal hinternal
    have hgoal : Taken w.goalRequests (w.goalHeaders ++ [])
        (w.server.goalResponses.map Prod.fst ++ a.answered.map Prod.fst) := by
      rw [hanswered]
      exact hw.goalTaken.append_nil
    have hresult : Taken w.resultRequests (w.resultHeaders ++ [])
        (w.server.requests.map TakenRequest.uuid ++ a.requested) := by
      rw [hrequested]
      exact hw.resultTaken.append_nil
    have h := consistent_server hw hserver hgoal hresult
    rwa [List.append_nil, List.append_nil] at h

/-- **A client and the server agree**, whatever the network loses, repeats or reorders. -/
theorem agreement_of_reach (h : Reach World.step Free World.IsInit w) (c : ι) : w.Agreement c :=
  (Reach.inv (fun _ h => consistent_init h) (fun _ _ _ hw _ hs => consistent_step hw hs) h).agreement
    c

end

/-- what the promises of two clients hold -/
def World.promises (w : World Bool Nat) : Option (Option Nat) × Option (GoalState × Option Nat) :=
  ((((w.clients true).sends 0).promise.outcome).bind Except.toOption,
    ((((w.clients false).handles 0).resultPromise.outcome).bind Except.toOption).map fun r =>
      (r.code, r.result))

/-- a client whose goal is accepted and succeeds, and one whose goal is rejected: the first goal
request is taken twice, and its response comes after the other -/
theorem agreement_two_clients :
    ∃ w : World Bool Nat, Reach World.step Free World.IsInit w ∧
      w.promises = (some none, some (.succeeded, some 7)) ∧ w.Agreement false := by
  have hi : World.IsInit
      { server := { actionServer := { resultTimeout := 10 } } : World Bool Nat } :=
    ⟨_, ⟨10, _, rfl, rfl⟩, rfl⟩
  have hrun : (exec World.step
      { server := { actionServer := { resultTimeout := 10 } } : World Bool Nat }
      [.sendGoal false 5 { resultCallback := true } (some 1), .sendGoal true 6 {} (some 1),
        .takeGoalRequest 0 .acceptAndExecute 0, .takeGoalRequest 1 .reject 0,
        .takeGoalRequest 0 .acceptAndExecute 0, .goalResponse 1 { resultRequest := none },
        .goalResponse 0 { resultRequest := some 1 }, .goalResponse 2 { resultRequest := some 2 },
        .takeResultRequest 0, .server (.succeed 0 7), .server (.publish 0),
        .resultResponse 0 false]).map World.promises =
      some (some none, some (.succeeded, some 7)) := by decide
  obtain ⟨w, hr, hw⟩ := Reach.of_exec_map hi _ (along_free _ _) _ hrun
  exact ⟨w, hr, hw, agreement_of_reach hr false⟩

end PMROS2.RclcppAction
