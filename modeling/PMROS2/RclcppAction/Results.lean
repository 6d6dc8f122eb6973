import PMROS2.RclcppAction.Answers

/-!
# Every result request is answered once

`ResultInv` is kept by a new goal, a result request, a published result and an expired goal; the
other steps do not touch what it speaks of.

`results_answered_of_reach`: no result request is answered twice, and every request whose goal
existed and has ended is answered once, with the result of that goal, in every run in which a
goal expires only after its result was published and only one goal expires at a time.
-/

namespace PMROS2.RclcppAction
open Runs RclAction

section
variable {ρ : Type*}

/-! ## a new goal -/

theorem resultInv_added (s : State ρ) (uuid : GoalUUID) (answer : GoalResponse) (now : Int64)
    (t : GoalState) (hi : ResultInv s) (he : goalExists s.impl s.actionServer uuid = false)
    (hw : WellFormed (s.addGoal uuid answer now t))
    (ha : ActiveInv (s.addGoal uuid answer now t)) : ResultInv (s.addGoal uuid answer now t) := by
  -- the id is new, so nothing is kept for it
  obtain ⟨hnores, hnoreq⟩ := hi.stale uuid (goalExists_false s uuid he)
  have hne : ∀ h, h < s.next → h ≠ s.next := fun _ => Nat.ne_of_lt
  have hold := addGoal_uuid_of_ne s uuid answer now t
  have hnew := addGoal_uuid_next s uuid answer now t
  have hphase : ∀ h, h < s.next → (s.addGoal uuid answer now t).phase h = s.phase h :=
    fun h hn => Function.update_of_ne (hne h hn) _ _
  have hphase' : (s.addGoal uuid answer now t).phase s.next = .active := Function.update_self ..
  have hmem : ∀ h, h ∈ (s.addGoal uuid answer now t).listed ↔ h ∈ s.listed ∨ h = s.next :=
    fun h => by
      show h ∈ s.listed ++ [s.next] ↔ _
      rw [List.mem_append, List.mem_singleton]
  constructor
  · exact hw
  · exact ha
  · intro h hm
    rcases (hmem h).mp hm with hm | rfl
    · have hn := hi.wf.allocated h hm
      rw [hold h (hne h hn), hphase h hn]
      exact hi.results h hm
    · rw [hnew, hphase']
      exact hnores
  · intro u hu
    refine hi.stale u fun h hm => ?_
    rw [← hold h (hne h (hi.wf.allocated h hm))]
    exact hu h ((hmem h).mpr (.inl hm))
  · intro h hn hm
    obtain ⟨hm', hh⟩ := not_or.mp (mt (hmem h).mpr hm)
    have hlt : h < s.next := by
      have : h < s.next + 1 := hn
      omega
    rw [hphase h hlt]
    exact hi.gone h hlt hm'
  · exact hi.fresh
  · intro q request hq
    refine (hi.settled q request hq).congr (Nat.le_succ _) rfl
      (fun h _ hn => by rw [hphase h hn]) fun h _ hn _ hm => ?_
    rw [hold h (hne h hn)]
    exact hm
  · intro h hm hend
    rcases (hmem h).mp hm with hm | rfl
    · have hn := hi.wf.allocated h hm
      rw [hphase h hn] at hend
      rw [hold h (hne h hn)]
      exact hi.stored h hm hend
    · rw [hnew, show (s.addGoal uuid answer now t).resultRequests uuid = [] from hnoreq]
      exact ⟨List.nodup_nil, fun _ hq => absurd hq List.not_mem_nil⟩

/-! ## a result request -/

theorem requests_append (l : List TakenRequest) (new request : TakenRequest) (q : Nat)
    (hq : (l ++ [new])[q]? = some request) :
    l[q]? = some request ∧ q < l.length ∨ q = l.length ∧ request = new := by
  rcases Nat.lt_trichotomy q l.length with hlt | heq | hgt
  · rw [List.getElem?_append_left hlt] at hq
    exact .inl ⟨hq, hlt⟩
  · rw [heq, List.getElem?_concat_length] at hq
    exact .inr ⟨heq, (Option.some.inj hq).symm⟩
  · rw [List.getElem?_eq_none (by rw [List.length_append, List.length_singleton]; omega)] at hq
    cases hq

theorem requests_append_of_some (l : List TakenRequest) (new request : TakenRequest) (q : Nat)
    (hq : l[q]? = some request) : (l ++ [new])[q]? = some request := by
  rw [List.getElem?_append_left (List.getElem?_eq_some_iff.mp hq).1]
  exact hq

theorem Stored.append {s : State ρ} {h : Nat} {qs : List Nat} (hst : Stored s h qs)
    (new : TakenRequest) {s' : State ρ} (hreq : s'.requests = s.requests ++ [new]) :
    Stored s' h qs := by
  refine ⟨hst.1, fun q hq => ?_⟩
  obtain ⟨request, hq', hgoal⟩ := hst.2 q hq
  rw [hreq]
  exact ⟨request, requests_append_of_some _ _ _ _ hq', hgoal⟩

/-- and can be stored itself -/
theorem Stored.append_new {s : State ρ} {h : Nat} {qs : List Nat} (hst : Stored s h qs)
    (new : TakenRequest) (hnew : new.goal = some h) {s' : State ρ}
    (hreq : s'.requests = s.requests ++ [new]) : Stored s' h (qs ++ [s.requests.length]) := by
  have hlt : ∀ q ∈ qs, q < s.requests.length := fun q hq => by
    obtain ⟨request, hq', _⟩ := hst.2 q hq
    exact (List.getElem?_eq_some_iff.mp hq').1
  have hfresh : s.requests.length ∉ qs := fun hq => lt_irrefl _ (hlt _ hq)
  have hnodup : (qs ++ [s.requests.length]).Nodup := by
    rw [← List.concat_eq_append]
    exact hst.1.concat hfresh
  refine ⟨hnodup, fun q hq => ?_⟩
  rcases List.mem_append.mp hq with hq | hq
  · exact (hst.append new hreq).2 q hq
  · rw [List.mem_singleton.mp hq, hreq]
    exact ⟨new, List.getElem?_concat_length, hnew⟩

theorem mem_update_append (f : GoalUUID → List Nat) (u v : GoalUUID) (l : List Nat) (q : Nat)
    (h : q ∈ f v) : q ∈ Function.update f u (f u ++ l) v := by
  by_cases hv : v = u
  · rw [hv, Function.update_self]
    exact List.mem_append_left _ (hv ▸ h)
  · rw [Function.update_of_ne hv]
    exact h

theorem goalOf_eq_some (s : State ρ) (uuid : GoalUUID) (h : Nat) (hg : s.goalOf uuid = some h) :
    h ∈ s.listed ∧ s.uuid h = uuid := by
  unfold State.goalOf at hg
  have hid := List.find?_some hg
  exact ⟨List.mem_of_find?_eq_some hg, of_decide_eq_true hid⟩

theorem resultInv_resultSent (s : State ρ) (uuid : GoalUUID) (r : ResultResponse ρ)
    (hi : ResultInv s) (hr : s.goalOf uuid = none ∧ r = { status := .unknown } ∨
      s.goalOf uuid ≠ none ∧ s.goalResults uuid = some r) :
    ResultInv { s with
      requests := s.requests ++ [⟨uuid, s.goalOf uuid⟩]
      sent := s.sent ++ [(s.requests.length, r)] } := by
  have hresp : ∀ q, answersTo (s.sent ++ [(s.requests.length, r)]) q =
      s.responses q ++ if s.requests.length = q then [r] else [] := fun q => by
    rw [answersTo_append, answersTo_singleton]
    rfl
  have hold : ∀ q, q < s.requests.length →
      answersTo (s.sent ++ [(s.requests.length, r)]) q = s.responses q := fun q hq => by
    rw [hresp, if_neg (Nat.ne_of_gt hq), List.append_nil]
  have hnew : answersTo (s.sent ++ [(s.requests.length, r)]) s.requests.length = [r] := by
    rw [hresp, if_pos rfl, hi.fresh _ (le_refl _), List.nil_append]
  -- a goal that is known has ended with `r`
  have hgoal : ∀ h, s.goalOf uuid = some h → h ∈ s.listed ∧ (s.phase h).ended = some r :=
    fun h hg => by
      obtain ⟨hm, hu⟩ := goalOf_eq_some s uuid h hg
      rcases hr with ⟨hn, _⟩ | ⟨_, hres⟩
      · rw [hg] at hn
        cases hn
      · rw [← hi.results h hm, hu]
        exact ⟨hm, hres⟩
  refine ⟨?_, hi.active, hi.results, hi.stale, hi.gone, ?_, ?_, ?_⟩
  · exact hi.wf.mono hi.wf.nodup (fun _ hm => hm) rfl (fun _ => rfl) fun _ _ hu => hu
  · intro q hq
    have hlt : s.requests.length < q := by simpa using hq
    exact (hresp q).trans (by rw [if_neg (Nat.ne_of_lt hlt), hi.fresh q (le_of_lt hlt)]; rfl)
  · intro q request hq
    rcases requests_append _ _ _ _ hq with ⟨hq', hlt⟩ | ⟨rfl, rfl⟩
    · exact (hi.settled q request hq').congr (le_refl _) (hold q hlt) (fun _ _ _ => rfl)
        fun _ _ _ _ hm => hm
    · -- the new request is answered with `r`
      cases hg : s.goalOf uuid with
      | none => exact congrArg List.length hnew
      | some h =>
        obtain ⟨hm, hend⟩ := hgoal h hg
        refine ⟨hi.wf.allocated h hm, hnew.trans (by rw [hend]; rfl), fun hnone => ?_⟩
        rw [hend] at hnone
        cases hnone
  · intro h hm hend
    exact (hi.stored h hm hend).append _ rfl

theorem resultInv_resultStored (s : State ρ) (uuid : GoalUUID) (hi : ResultInv s)
    (hg : s.goalOf uuid ≠ none) (hr : s.goalResults uuid = none) :
    ResultInv { s with
      requests := s.requests ++ [⟨uuid, s.goalOf uuid⟩]
      resultRequests := Function.update s.resultRequests uuid
        (s.resultRequests uuid ++ [s.requests.length]) } := by
  obtain ⟨g, hg⟩ := Option.ne_none_iff_exists'.mp hg
  obtain ⟨hgm, rfl⟩ := goalOf_eq_some s uuid g hg
  have hgend : (s.phase g).ended = none := by rw [← hi.results g hgm, hr]
  refine ⟨?_, hi.active, hi.results, ?_, hi.gone, ?_, ?_, ?_⟩
  · exact hi.wf.mono hi.wf.nodup (fun _ hm => hm) rfl (fun _ => rfl) fun _ _ hu => hu
  · intro u hu
    have hug : u ≠ s.uuid g := fun e => hu g hgm e.symm
    simp only [Function.update_of_ne hug]
    exact hi.stale u hu
  · intro q hq
    exact hi.fresh q (le_trans (by simp) hq)
  · intro q request hq
    rcases requests_append _ _ _ _ hq with ⟨hq', _⟩ | ⟨rfl, rfl⟩
    · refine (hi.settled q request hq').congr (le_refl _) rfl (fun _ _ _ => rfl)
        fun h _ _ _ hm => ?_
      exact mem_update_append s.resultRequests (s.uuid g) (s.uuid h) _ q hm
    · -- the new request waits for `g`
      rw [show (⟨s.uuid g, s.goalOf (s.uuid g)⟩ : TakenRequest).goal = some g from hg]
      refine ⟨hi.wf.allocated g hgm, ?_, fun _ => ?_⟩
      · rw [show (s.phase g).ended = none from hgend]
        exact hi.fresh _ (le_refl _)
      · show s.requests.length ∈ Function.update s.resultRequests (s.uuid g) _ (s.uuid g)
        rw [Function.update_self]
        exact List.mem_append_right _ (List.mem_singleton_self _)
  · intro h hm hend
    have hst := hi.stored h hm hend
    show Stored _ h (Function.update s.resultRequests (s.uuid g) _ (s.uuid h))
    by_cases hu : s.uuid h = s.uuid g
    · obtain rfl := hi.wf.distinct h hm g hgm hu
      rw [Function.update_self]
      exact hst.append_new _ hg rfl
    · rw [Function.update_of_ne hu]
      exact hst.append _ rfl

/-! ## a result is published -/

theorem resultInv_published (s : State ρ) (h : Nat) (r : ResultResponse ρ) (hi : ResultInv s)
    (hn : h < s.next) (hp : s.phase h = .terminating r) :
    ResultInv { s with
      goalResults := Function.update s.goalResults (s.uuid h) (some r)
      sent := s.sent ++ (s.resultRequests (s.uuid h)).map (·, r)
      phase := Function.update s.phase h (.published r) } := by
  have hend : (s.phase h).ended = none := by rw [hp]; rfl
  have hm := hi.listed_of_running h hn hend
  obtain ⟨hnd, hall⟩ := hi.stored h hm hend
  have hphase : ∀ k, k ≠ h → Function.update s.phase h (.published r) k = s.phase k :=
    fun k hk => Function.update_of_ne hk _ _
  -- the requests that wait for this goal get the result, the others nothing
  have hresp : ∀ q, answersTo (s.sent ++ (s.resultRequests (s.uuid h)).map (·, r)) q =
      s.responses q ++ if q ∈ s.resultRequests (s.uuid h) then [r] else [] := fun q => by
    rw [answersTo_append, answersTo_map _ _ _ hnd]
    rfl
  have hother : ∀ q, (∀ request, s.requests[q]? = some request → request.goal ≠ some h) →
      answersTo (s.sent ++ (s.resultRequests (s.uuid h)).map (·, r)) q = s.responses q :=
    fun q hq => by
      rw [hresp, if_neg, List.append_nil]
      intro hqm
      obtain ⟨request, hreq, hgoal⟩ := hall q hqm
      exact hq request hreq hgoal
  refine ⟨?_, ?_, ?_, ?_, ?_, ?_, ?_, ?_⟩
  · exact hi.wf.mono hi.wf.nodup (fun _ hm => hm) rfl (fun _ => rfl) fun _ _ hu => hu
  · exact hi.active.update h _ rfl (by rw [hp]; rfl) rfl
  · intro k hk
    show Function.update s.goalResults (s.uuid h) (some r) (s.uuid k) =
      (Function.update s.phase h (.published r) k).ended
    by_cases hkh : k = h
    · rw [hkh, Function.update_self, Function.update_self]
      rfl
    · have hu : s.uuid k ≠ s.uuid h := fun hu => hkh (hi.wf.distinct k hk h hm hu)
      rw [Function.update_of_ne hu, hphase k hkh]
      exact hi.results k hk
  · intro u hu
    have huh : u ≠ s.uuid h := fun e => hu h hm e.symm
    simp only [Function.update_of_ne huh]
    exact hi.stale u hu
  · intro k hk hkm
    have hkh : k ≠ h := fun e => hkm (e ▸ hm)
    simp only [hphase k hkh]
    exact hi.gone k hk hkm
  · intro q hq
    refine (hother q fun request hreq => ?_).trans (hi.fresh q hq)
    rw [List.getElem?_eq_none hq] at hreq
    cases hreq
  · intro q request hq
    have hset := hi.settled q request hq
    by_cases hg : request.goal = some h
    · -- it waited, and has the result now
      rw [hg] at hset ⊢
      obtain ⟨_, hnone, hwait⟩ := hset
      rw [hend] at hnone
      refine ⟨hn, ?_, fun hended => ?_⟩
      · refine (hresp q).trans ?_
        rw [hnone, if_pos (hwait hend)]
        simp only [Function.update_self]
        rfl
      · simp only [Function.update_self] at hended
        cases hended
    · have hkeep : answersTo _ q = s.responses q := hother q fun request' hreq => by
        rw [Option.some.inj (hreq.symm.trans hq)]
        exact hg
      refine hset.congr (le_refl _) hkeep (fun k hk _ => ?_) fun _ _ _ _ hm => hm
      have hkh : k ≠ h := fun e => hg (e ▸ hk)
      simp only [hphase k hkh]
  · intro k hk hended
    by_cases hkh : k = h
    · simp only [hkh, Function.update_self] at hended
      cases hended
    · simp only [hphase k hkh] at hended
      exact hi.stored k hk hended

/-! ## a goal expires -/

/-- under the condition the first goal of the server expires alone, with its result published -/
theorem expired_first (s : State ρ) (now : Int64) (h : Nat) (hs : List Nat)
    (hc : ExpiresPublished s (.checkExpiredGoals now)) (he : (s.scan now).expired = h :: hs) :
    (s.scan now).expired = [h] ∧ h ∈ s.listed ∧ s.goalResults (s.uuid h) ≠ none := by
  cases hl : s.listed with
  | nil =>
    have hnone : (s.scan now).expired = [] := by
      unfold State.scan
      rw [show s.actionServer.goalHandles = [] from hl]
      rfl
    rw [hnone] at he
    cases he
  | cons g rest =>
    cases hg : isExpired s.impl s.actionServer.resultTimeout now g with
    | false =>
      rw [scan_of_not_first s now g rest hl hg] at he
      cases he
    | true =>
      obtain ⟨hres, hk⟩ := hc g rest hl hg
      have hone := (scan_of_first s now g rest hl hg hk).1
      obtain rfl := (List.cons.inj (hone.symm.trans he)).1
      exact ⟨hone, List.mem_cons_self .., hres⟩

theorem mem_kept_iff (s : State ρ) (now : Int64) (h k : Nat) (hw : WellFormed s)
    (he : (s.scan now).expired = [h]) : k ∈ (s.scan now).kept ↔ k ∈ s.listed ∧ k ≠ h := by
  have hperm : ((s.scan now).kept ++ [h]).Perm s.listed := he ▸ expireScan_perm _ _ _ _ _ _ _
  have hnd := hperm.nodup_iff.mpr hw.nodup
  rw [← hperm.mem_iff, List.mem_append, List.mem_singleton]
  constructor
  · intro hk
    exact ⟨.inl hk, fun e => (List.nodup_append.mp hnd).2.2 k hk h (List.mem_singleton_self _) e⟩
  · rintro ⟨hk | hk, hne⟩
    · exact hk
    · exact absurd hk hne

theorem resultInv_expired (s : State ρ) (now : Int64) (timer : Option Int64) (h : Nat)
    (hi : ResultInv s) (he : (s.scan now).expired = [h]) (hm : h ∈ s.listed)
    (hres : s.goalResults (s.uuid h) ≠ none) :
    ResultInv { s with
      actionServer := { s.actionServer with
        goalHandles := (s.scan now).kept
        expireTimer := timer }
      goalResults := Function.update s.goalResults (s.uuid h) none
      resultRequests := Function.update s.resultRequests (s.uuid h) []
      goalHandles := Function.update s.goalHandles (s.uuid h) none } := by
  have hkept := fun k => mem_kept_iff s now h k hi.wf he
  have hend : (s.phase h).ended ≠ none := hi.results h hm ▸ hres
  -- the goals that stay have other ids
  have hother : ∀ k ∈ s.listed, k ≠ h → s.uuid k ≠ s.uuid h :=
    fun k hk hne hu => hne (hi.wf.distinct k hk h hm hu)
  refine ⟨?_, hi.active, ?_, ?_, ?_, hi.fresh, ?_, ?_⟩
  · exact hi.wf.mono (kept_nodup s now hi.wf) (mem_listed_of_kept s now) rfl (fun _ => rfl)
      fun _ _ hu => hu
  · intro k hk
    obtain ⟨hk, hne⟩ := (hkept k).mp hk
    exact (Function.update_of_ne (hother k hk hne) _ _).trans (hi.results k hk)
  · intro u hu
    by_cases huh : u = s.uuid h
    · simp only [huh, Function.update_self, and_self]
    · simp only [Function.update_of_ne huh]
      refine hi.stale u fun k hk e => ?_
      exact hu k ((hkept k).mpr ⟨hk, fun ek => huh (ek ▸ e.symm)⟩) e
  · intro k hk hkm
    by_cases hkh : k = h
    · rw [hkh]
      exact hend
    · exact hi.gone k hk fun hm' => hkm ((hkept k).mpr ⟨hm', hkh⟩)
  · intro q request hq
    refine (hi.settled q request hq).congr (le_refl _) rfl (fun _ _ _ => rfl)
      fun k _ hn hended hqm => ?_
    have hk := hi.listed_of_running k hn hended
    have hkh : k ≠ h := fun e => hend (e ▸ hended)
    show q ∈ Function.update s.resultRequests (s.uuid h) [] (s.uuid k)
    rw [Function.update_of_ne (hother k hk hkh)]
    exact hqm
  · intro k hk hended
    obtain ⟨hk, hne⟩ := (hkept k).mp hk
    show Stored _ k (Function.update s.resultRequests (s.uuid h) [] (s.uuid k))
    rw [Function.update_of_ne (hother k hk hne)]
    exact hi.stored k hk hended

/-! ## runs -/

theorem resultInv_step (s : State ρ) (a : Action ρ) (s' : State ρ) (hi : ResultInv s)
    (hc : ExpiresPublished s a) (hs : step s a = some s') : ResultInv s' := by
  have hw := wellFormed_step s a s' hi.wf hs
  have ha := activeInv_step s a s' hi.active hs
  cases step_move s s' a hs with
  | added uuid answer now t _ he _ _ => exact resultInv_added s uuid answer now t hi he hw ha
  | resultSent uuid r hr => exact resultInv_resultSent s uuid r hi hr
  | resultStored uuid hg hr => exact resultInv_resultStored s uuid hi hg hr
  | published h r hn hp _ => exact resultInv_published s h r hi hn hp
  | expired now timer h hs' he _ =>
    obtain ⟨hone, hm, hres⟩ := expired_first s now h hs' hc he
    exact resultInv_expired s now timer h hi hone hm hres
  | threw h r hn hp he =>
    -- a goal that has not ended is known, so `publish_result` finds it
    have hm := hi.listed_of_running h hn (by rw [hp]; rfl)
    exact absurd rfl (goalExists_false s (s.uuid h) he h hm)
  | noneExpired now timer he _ =>
    have hperm : (s.scan now).kept.Perm s.listed := by
      have := expireScan_perm s.impl s.actionServer.resultTimeout now (some 1) 0 0
        s.actionServer.goalHandles
      rwa [show (expireScan s.impl s.actionServer.resultTimeout now (some 1) 0 0
        s.actionServer.goalHandles).expired = [] from he, List.append_nil] at this
    exact hi.frame hw ha (fun _ => hperm.mem_iff) rfl (fun _ => rfl) (fun _ => rfl) rfl rfl rfl rfl
  | executed h t _ _ _ =>
    exact hi.frame hw ha (fun _ => Iff.rfl) rfl (fun k => setState_uuid s h k t) (fun _ => rfl) rfl
      rfl rfl rfl
  | cancelMoved c info rest h t _ _ _ _ _ _ =>
    exact hi.frame hw ha (fun _ => Iff.rfl) rfl (fun k => setState_uuid s h k t) (fun _ => rfl) rfl
      rfl rfl rfl
  | ended _ h t r alive _ hact _ _ _ =>
    have hp := hi.active h hact
    exact hi.frame hw ha (fun _ => Iff.rfl) rfl (fun k => setState_uuid s h k t)
      (ended_update s h _ (by rw [hp]; rfl)) rfl rfl rfl rfl
  | notified h r now timer _ hp =>
    exact hi.frame hw ha (fun _ => Iff.rfl) rfl (fun _ => rfl)
      (ended_update s h _ (by rw [hp]; rfl)) rfl rfl rfl rfl
  | erased h r _ hp =>
    exact hi.frame hw ha (fun _ => Iff.rfl) rfl (fun _ => rfl)
      (ended_update s h _ (by rw [hp]; rfl)) rfl rfl rfl rfl
  | stutter | answered | destroyed | cancelBegan | cancelRejected | cancelAccepted | cancelThrew |
    cancelSent =>
    all_goals
      exact hi.frame hw ha (fun _ => Iff.rfl) rfl (fun _ => rfl) (fun _ => rfl) rfl rfl rfl rfl

theorem resultInv_init (s : State ρ) (h : IsInit s) : ResultInv s := by
  have hw := wellFormed_init s h
  obtain ⟨_, server, _, rfl⟩ := h
  have hnone : ∀ (q : Nat) (request : TakenRequest), ([] : List TakenRequest)[q]? ≠ some request :=
    fun q request hq => by rw [List.getElem?_nil] at hq; cases hq
  exact ⟨hw, fun _ _ => rfl, fun _ _ => rfl, fun _ _ => ⟨rfl, rfl⟩,
    fun _ hn => absurd hn (Nat.not_lt_zero _), fun _ _ => rfl,
    fun q request hq => absurd hq (hnone q request),
    fun _ _ _ => ⟨List.nodup_nil, fun _ hq => absurd hq List.not_mem_nil⟩⟩

theorem publishResult_ended (s : State ρ) (h : Nat) (r : ResultResponse ρ) :
    ((publishResult s h r).phase h).ended = some r := by
  unfold publishResult
  simp only
  split <;> simp only [Function.update_self] <;> rfl

theorem publishResult_requests (s : State ρ) (h : Nat) (r : ResultResponse ρ) :
    (publishResult s h r).requests = s.requests := by
  unfold publishResult
  simp only
  split <;> rfl

theorem ResultInv.resultsAnswered {s : State ρ} (hi : ResultInv s) : ResultsAnswered s where
  atMostOnce := hi.responses_le_one
  exactlyOnce := hi.responses_of_ended
  published h r hn hp hfree := by
    have hs : step s (.publish h) = some (publishResult s h r) := by
      simp only [step, hp, hn, hfree, Option.isNone_none, and_self, if_true]
    have hi' : ResultInv (publishResult s h r) := resultInv_step s (.publish h) _ hi trivial hs
    refine ⟨_, hs, fun q request hq hg => ?_⟩
    apply hi'.responses_of_ended q request h r _ hg (publishResult_ended s h r)
    rw [publishResult_requests]
    exact hq

/-- **Result requests.**  In every state that is reached while a goal expires only after its
result was published, and with no inactive goal behind it in the list of the `rcl` server: no
request is answered twice, and a request whose goal existed and was ended by its user is answered
once, with the result of the goal. -/
theorem results_answered_of_reach (s : State ρ) (h : Reach step ExpiresPublished IsInit s) :
    ResultsAnswered s := by
  have hi : ResultInv s := Reach.inv (fun s hs => resultInv_init s hs)
    (fun s a s' hi hc hs => resultInv_step s a s' hi hc hs) h
  exact hi.resultsAnswered

end

def twoGoals : List (Action Unit) :=
  [.goalRequest 2 .acceptAndExecute 0, .goalRequest 1 .acceptAndExecute 0, .resultRequest 1,
    .succeed 0 (), .publish 0, .notify 0 1]

def newServer : State Unit := { actionServer := { resultTimeout := 10 } }

/-- the second goal succeeds and is published after the first has expired -/
theorem results_answered_two_goals :
    ∃ s : State Unit, Reach step ExpiresPublished IsInit s ∧
      s.responses 0 = [⟨.succeeded, some ()⟩] ∧ ResultsAnswered s := by
  have hi : IsInit newServer := ⟨10, _, rfl, rfl⟩
  have hC : Along step (fun s a _ => ExpiresPublished s a) newServer
      (twoGoals ++ [.checkExpiredGoals 12, .succeed 1 (), .publish 1]) := by decide
  have hrun : ((exec step newServer
      (twoGoals ++ [.checkExpiredGoals 12, .succeed 1 (), .publish 1])).map fun s =>
        s.responses 0) = some [⟨.succeeded, some ()⟩] := by decide
  obtain ⟨s, hr, hs⟩ := Reach.of_exec_map hi _ hC _ hrun
  exact ⟨s, hr, hs, results_answered_of_reach s hr⟩

/-- between two rounds of `execute_check_expired_goals` the second goal succeeds: it expires with
the requests for its result, and `publish_result` throws -/
theorem expired_before_published :
    ∃ s : State Unit, Reach step Free IsInit s ∧ ¬ ResultsAnswered s := by
  have hi : IsInit newServer := ⟨10, _, rfl, rfl⟩
  have hrun : ((exec step newServer
      (twoGoals ++ [.checkExpiredGoals 12, .succeed 1 (), .checkExpiredGoals 12, .publish 1])).map
        fun s => ((s.requests[0]?).map TakenRequest.goal, (s.phase 1).ended, s.responses 0)) =
      some (some (some 1), some ⟨.succeeded, some ()⟩, []) := by decide
  obtain ⟨s, hr, hs⟩ := Reach.of_exec_map hi _ (along_free _ _) _ hrun
  simp only [Prod.mk.injEq] at hs
  obtain ⟨hg, hend, hresp⟩ := hs
  obtain ⟨request, hq, hgoal⟩ := Option.map_eq_some_iff.mp hg
  refine ⟨s, hr, fun h => ?_⟩
  have hone := h.exactlyOnce 0 request 1 _ hq hgoal hend
  rw [hresp] at hone
  cases hone

end PMROS2.RclcppAction
