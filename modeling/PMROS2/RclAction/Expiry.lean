import PMROS2.Lib.Runs
import PMROS2.RclAction.ActionServer

/-!
# When goals expire

Runs of one `rcl_action` server: goals are accepted, change their states and expire, while the
clock is set to any value.  `terminalAt` remembers, for each goal, what the clock showed when the
goal reached a terminal state; the code keeps no such time and measures from the stamp of the
acceptance.

`removed_late_iff`: the goals that `rcl_action_expire_goals` removes have been terminal for
longer than the timeout, throughout a run, exactly when no call reaches a goal that was accepted
longer ago than the timeout but has not been terminal for so long.
-/

namespace PMROS2.RclAction.Expiry
open Runs

structure State where
  server : ActionServer Nat
  impl : Nat → GoalHandleImpl
  /-- the goal handles below are allocated -/
  next : Nat
  clock : Int64
  /-- the clock when the goal became terminal; not part of the program -/
  terminalAt : Nat → Option Int64

inductive Action where
  | accept (info : GoalInfo)
  | update (handle : Nat) (event : GoalEvent)
  | setClock (now : Int64)
  | notifyGoalDone
  | expire (capacity : Option Nat)

/-- a call that returns an error leaves the state as it is -/
def step (s : State) : Action → Option State
  | .accept info =>
    match acceptNewGoal s.impl s.server s.next info s.clock with
    | none => some s
    | some (impl, server) => some { s with impl := impl, server := server, next := s.next + 1 }
  | .update h event =>
    if h < s.next then
      match updateGoalState (s.impl h) event with
      | .error _ => some s
      | .ok g => some { s with
          impl := Function.update s.impl h g
          terminalAt := if g.state.isActive then s.terminalAt
            else Function.update s.terminalAt h (some s.clock) }
    else none
  | .setClock now => some { s with clock := now }
  | .notifyGoalDone => some { s with server := notifyGoalDone s.impl s.server s.clock }
  | .expire capacity =>
    match expireGoals s.impl s.server capacity s.clock with
    | .error _ => some s
    | .ok (server, _, _) => some { s with server := server }

/-- a new server -/
def State.init (server : ActionServer Nat) (clock : Int64) : State :=
  { server := server, impl := fun _ => {}, next := 0, clock := clock, terminalAt := fun _ => none }

def TerminalForLonger (s : State) (h : Nat) : Prop :=
  ∃ t, s.terminalAt h = some t ∧ s.clock.toInt - t.toInt > s.server.resultTimeout.toInt

/-- what the call removes has been terminal for longer than the timeout, and the timeout is not
negative -/
def RemovedLate (s : State) (a : Action) (s' : State) : Prop :=
  match a with
  | .expire _ => ∀ h ∈ s.server.goalHandles, h ∉ s'.server.goalHandles →
      TerminalForLonger s h ∧ ¬ s.server.resultTimeout < 0
  | _ => True

/-- the call reaches no goal whose stamp is older than the timeout and that became terminal at
most the timeout ago -/
def NoneBetween (s : State) (a : Action) : Prop :=
  match a with
  | .expire capacity => capacity ≠ some 0 → ∀ h t,
      Reached s.impl s.server.resultTimeout s.clock capacity s.server.goalHandles h →
      isExpired s.impl s.server.resultTimeout s.clock h = true → s.terminalAt h = some t →
      s.clock.toInt - t.toInt > s.server.resultTimeout.toInt
  | _ => True

/-! ## the invariant -/

structure Inv (s : State) : Prop where
  timeout : ¬ s.server.resultTimeout < 0
  nodup : s.server.goalHandles.Nodup
  allocated : ∀ h ∈ s.server.goalHandles, h < s.next
  terminal : ∀ h, h < s.next → (s.impl h).state.isActive = false → ∃ t, s.terminalAt h = some t

theorem expireGoals_ok (s : State) (capacity : Option Nat) (hc : capacity ≠ some 0) :
    ∃ timer, step s (.expire capacity) = some { s with
      server := { s.server with
        goalHandles := (expireScan s.impl s.server.resultTimeout s.clock capacity 0 0
          s.server.goalHandles).kept
        expireTimer := timer } } := by
  unfold step expireGoals
  simp only [hc, if_false]
  exact ⟨_, rfl⟩

theorem expireGoals_zero (s : State) : step s (.expire (some 0)) = some s := by
  unfold step expireGoals
  simp only [if_true]

theorem inv_accept (s s' : State) (info : GoalInfo) (hi : Inv s)
    (hs : step s (.accept info) = some s') : Inv s' := by
  simp only [step, acceptNewGoal] at hs
  split at hs
  · obtain rfl := Option.some.inj hs
    exact hi
  · rename_i impl server heq
    split at heq
    · cases heq
    · obtain ⟨rfl, rfl⟩ := Prod.mk.inj (Option.some.inj heq)
      obtain rfl := Option.some.inj hs
      have hfresh : s.next ∉ s.server.goalHandles := fun hm => by
        have := hi.allocated s.next hm
        omega
      refine ⟨hi.timeout, List.nodup_append.mpr ⟨hi.nodup, List.nodup_singleton _, ?_⟩, ?_, ?_⟩
      · intro a ha b hb hab
        rw [List.mem_singleton] at hb
        rw [hab, hb] at ha
        exact hfresh ha
      · intro h hm
        rcases List.mem_append.mp hm with hm | hm
        · have := hi.allocated h hm
          simp only
          omega
        · rw [List.mem_singleton] at hm
          simp only
          omega
      · intro h hlt hact
        simp only at hlt hact
        by_cases hn : h = s.next
        · rw [hn, Function.update_self] at hact
          cases hact
        · rw [Function.update_of_ne hn] at hact
          exact hi.terminal h (by omega) hact

theorem inv_update (s s' : State) (h : Nat) (event : GoalEvent) (hi : Inv s)
    (hs : step s (.update h event) = some s') : Inv s' := by
  simp only [step] at hs
  split at hs
  · split at hs
    · obtain rfl := Option.some.inj hs
      exact hi
    · rename_i g _
      obtain rfl := Option.some.inj hs
      refine ⟨hi.timeout, hi.nodup, hi.allocated, fun k hk hact => ?_⟩
      simp only at hact ⊢
      by_cases hkh : k = h
      · subst hkh
        rw [Function.update_self] at hact
        rw [if_neg (by simp [hact]), Function.update_self]
        exact ⟨_, rfl⟩
      · rw [Function.update_of_ne hkh] at hact
        obtain ⟨t, ht⟩ := hi.terminal k hk hact
        refine ⟨t, ?_⟩
        split
        · exact ht
        · rw [Function.update_of_ne hkh, ht]
  · cases hs

theorem inv_expire (s s' : State) (capacity : Option Nat) (hi : Inv s)
    (hs : step s (.expire capacity) = some s') : Inv s' := by
  by_cases hc : capacity = some 0
  · rw [hc, expireGoals_zero] at hs
    obtain rfl := Option.some.inj hs
    exact hi
  · obtain ⟨timer, he⟩ := expireGoals_ok s capacity hc
    rw [he] at hs
    obtain rfl := Option.some.inj hs
    have hperm := expireScan_perm s.impl s.server.resultTimeout s.clock capacity 0 0
      s.server.goalHandles
    have hnodup := hperm.nodup_iff.mpr hi.nodup
    exact ⟨hi.timeout, (List.nodup_append.mp hnodup).1, fun h hm =>
      hi.allocated h (hperm.mem_iff.mp (List.mem_append_left _ hm)), hi.terminal⟩

theorem inv_step (s : State) (a : Action) (s' : State) (hi : Inv s) (hs : step s a = some s') :
    Inv s' := by
  cases a with
  | accept info => exact inv_accept s s' info hi hs
  | update h event => exact inv_update s s' h event hi hs
  | expire capacity => exact inv_expire s s' capacity hi hs
  | setClock now =>
    obtain rfl := Option.some.inj hs
    exact ⟨hi.timeout, hi.nodup, hi.allocated, hi.terminal⟩
  | notifyGoalDone =>
    obtain rfl := Option.some.inj hs
    exact ⟨hi.timeout, hi.nodup, hi.allocated, hi.terminal⟩

/-! ## what is removed -/

/-- the goals that are gone after the call are the expired ones the scan reaches -/
theorem removed_iff (s s' : State) (capacity : Option Nat) (hi : Inv s)
    (hs : step s (.expire capacity) = some s') (h : Nat) :
    h ∈ s.server.goalHandles ∧ h ∉ s'.server.goalHandles ↔
      capacity ≠ some 0 ∧
      Reached s.impl s.server.resultTimeout s.clock capacity s.server.goalHandles h ∧
      isExpired s.impl s.server.resultTimeout s.clock h = true := by
  by_cases hc : capacity = some 0
  · rw [hc, expireGoals_zero] at hs
    obtain rfl := Option.some.inj hs
    exact ⟨fun hm => absurd hm.1 hm.2, fun hm => absurd hc hm.1⟩
  · obtain ⟨timer, he⟩ := expireGoals_ok s capacity hc
    rw [he] at hs
    obtain rfl := Option.some.inj hs
    have hperm := expireScan_perm s.impl s.server.resultTimeout s.clock capacity 0 0
      s.server.goalHandles
    have hdisj := (List.nodup_append.mp (hperm.nodup_iff.mpr hi.nodup)).2.2
    rw [and_comm (a := Reached _ _ _ _ _ _), ← mem_expireScan_expired, ← hperm.mem_iff,
      List.mem_append]
    constructor
    · rintro ⟨hm, hgone⟩
      exact ⟨hc, hm.resolve_left hgone⟩
    · rintro ⟨_, hm⟩
      exact ⟨.inr hm, fun hk => hdisj h hk h hm rfl⟩

/-- **Goals are removed late enough exactly when no call finds a goal between its acceptance
and its terminal state being older than the timeout.**  For every timeout that
`rcl_action_server_init` takes, every clock and every run. -/
theorem removed_late_iff (resultTimeout : Int64) (server : ActionServer Nat) (clock : Int64)
    (as : List Action) (h : actionServerInit resultTimeout = .ok server) :
    Along step RemovedLate (State.init server clock) as ↔
      Along step (fun s a _ => NoneBetween s a) (State.init server clock) as := by
  have hinit : Inv (State.init server clock) := by
    unfold actionServerInit at h
    split at h
    · cases h
    · obtain rfl := Except.ok.inj h
      exact ⟨‹_›, List.nodup_nil, fun _ hm => absurd hm List.not_mem_nil,
        fun _ hlt => absurd hlt (Nat.not_lt_zero _)⟩
  refine along_congr inv_step (fun s a s' hi hs => ?_) as _ hinit
  cases a with
  | expire capacity =>
    constructor
    · intro hlate hc h t hreach hexp ht
      obtain ⟨hm, hgone⟩ := (removed_iff s s' capacity hi hs h).mpr ⟨hc, hreach, hexp⟩
      obtain ⟨⟨t', ht', hlt⟩, _⟩ := hlate h hm hgone
      obtain rfl := Option.some.inj (ht.symm.trans ht')
      exact hlt
    · intro hnone h hm hgone
      obtain ⟨hc, hreach, hexp⟩ := (removed_iff s s' capacity hi hs h).mp ⟨hm, hgone⟩
      have hact : (s.impl h).state.isActive = false := by
        by_contra hact
        rw [isExpired_of_active _ _ _ (Bool.not_eq_false _ ▸ hact)] at hexp
        cases hexp
      obtain ⟨t, ht⟩ := hi.terminal h (hi.allocated h hm) hact
      exact ⟨⟨t, ht, hnone hc h t hreach hexp ht⟩, hi.timeout⟩
  | accept => exact Iff.rfl
  | update => exact Iff.rfl
  | setClock => exact Iff.rfl
  | notifyGoalDone => exact Iff.rfl

/-- a goal that ends at once and is collected late -/
theorem removed_late_iff_short_goal :
    actionServerInit 10 = .ok ({ resultTimeout := 10 } : ActionServer Nat) ∧
    (Along step RemovedLate (State.init { resultTimeout := 10 } 0)
        [.accept {}, .update 0 .execute, .update 0 .succeed, .setClock 100, .expire (some 1)] ↔
      Along step (fun s a _ => NoneBetween s a) (State.init { resultTimeout := 10 } 0)
        [.accept {}, .update 0 .execute, .update 0 .succeed, .setClock 100, .expire (some 1)]) :=
  ⟨rfl, removed_late_iff 10 _ 0 _ rfl⟩

/-- a goal that runs for longer than the timeout is removed as soon as it has succeeded -/
theorem long_goal_removed_at_once :
    ¬ Along step RemovedLate (State.init { resultTimeout := 10 } 0)
      [.accept {}, .update 0 .execute, .setClock 100, .update 0 .succeed, .expire (some 1)] := by
  intro h
  have h₁ := (h _ rfl).2
  have h₂ := (h₁ _ rfl).2
  have h₃ := (h₂ _ rfl).2
  have h₄ := (h₃ _ rfl).2
  obtain ⟨⟨t, ht, hlt⟩, _⟩ := (h₄ _ rfl).1 0 (by decide) (by decide)
  obtain rfl := Option.some.inj ht
  exact absurd hlt (by decide)

end PMROS2.RclAction.Expiry
