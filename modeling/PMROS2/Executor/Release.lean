import PMROS2.Executor.MultiThreaded

/-!
# Groups and timers are given back

`execute_any_executable` returns early, without the reset of the flag, when `spinning` was
cleared, and `run` then drops the callback group before `~AnyExecutable`.

`nothing_lost_of_reach`: whenever no thread has a taken executable, every group can be taken from
and no timer is scheduled, in every run in which no taken executable of a `MutuallyExclusive`
group is dropped by a cancel.
-/

set_option linter.unusedSectionVars false

namespace PMROS2.Executor.MultiThreaded
open Runs

section
variable {θ γ τ η : Type*} [DecidableEq θ] [DecidableEq γ] [DecidableEq τ] [DecidableEq η]
  (groupType : γ → CallbackGroupType)

/-- no thread has a taken executable -/
def Idle (s : State θ γ τ η) : Prop := ∀ t, (s.pc t).anyExec = none

/-- every group can be taken from, and no timer is scheduled -/
def NothingLost (s : State θ γ τ η) : Prop :=
  (∀ g, s.canBeTakenFrom g = true) ∧ s.scheduledTimers = ∅

/-- what is closed is held by a thread, and what is scheduled is served by one -/
structure Served (s : State θ γ τ η) : Prop where
  group : ∀ g, s.canBeTakenFrom g = false →
    groupType g = .mutuallyExclusive ∧ ∃ t, (s.pc t).holds = some g
  timer : ∀ timer ∈ s.scheduledTimers, ∃ t, Serves (s.pc t) timer

/-- `execute_any_executable` finds the executor still spinning, or the group is not mutually
exclusive -/
def NotDropped (s : State θ γ τ η) : Action θ γ τ η → Prop
  | .load t => ∀ e g, s.pc t = .taken e → e.callbackGroup = some g →
      groupType g = .mutuallyExclusive → s.spinning = true
  | _ => True

variable {groupType}

theorem exists_update {β : Type*} (f : Pc γ τ η → β → Prop) (pc : θ → Pc γ τ η) (t : θ)
    (p : Pc γ τ η) (b : β) (h : ∃ t', f (pc t') b) (ht : f (pc t) b → f p b) :
    ∃ t', f (Function.update pc t p t') b := by
  obtain ⟨t', ht'⟩ := h
  by_cases hne : t' = t
  · refine ⟨t, ?_⟩
    rw [Function.update_self]
    exact ht (hne ▸ ht')
  · refine ⟨t', ?_⟩
    rw [Function.update_of_ne hne]
    exact ht'

/-- a group that was closed stays with its thread when that thread keeps it in the step -/
theorem Served.group_update {s s' : State θ γ τ η} {t : θ} {p : Pc γ τ η} {g : γ}
    (hi : Served groupType s) (hg : s.canBeTakenFrom g = false)
    (hpc : s'.pc = Function.update s.pc t p)
    (hkeep : (s.pc t).holds = some g → p.holds = some g) :
    groupType g = .mutuallyExclusive ∧ ∃ t, (s'.pc t).holds = some g := by
  obtain ⟨hm, ht⟩ := hi.group g hg
  rw [hpc]
  exact ⟨hm, exists_update (fun p g => p.holds = some g) s.pc t p g ht hkeep⟩

theorem served_group_step (s s' : State θ γ τ η) (a : Action θ γ τ η)
    (hi : Served groupType s) (ha : NotDropped groupType s a)
    (hs : step groupType s a = some s') (g : γ) (hg : s'.canBeTakenFrom g = false) :
    groupType g = .mutuallyExclusive ∧ ∃ t, (s'.pc t).holds = some g := by
  cases step_move s s' a hs with
  | env _ hpc hf _ =>
    rw [hf] at hg
    rw [hpc]
    exact hi.group g hg
  | quiet _ t p h _ hpc hf _ =>
    rw [hf] at hg
    exact hi.group_update hg hpc fun hold => absurd hold (holds_ne_of_anyExec_none _ h g)
  | take _ t e g' h hg' _ hpc hf _ =>
    rw [hf] at hg
    by_cases he : e.callbackGroup = some g ∧ groupType g = .mutuallyExclusive
    · refine ⟨he.2, t, ?_⟩
      rw [hpc, Function.update_self]
      exact he.1
    · rw [markTaken_of_ne _ _ _ (not_and_or.mp he)] at hg
      exact hi.group_update hg hpc fun hold => absurd hold (holds_ne_of_anyExec_none _ h g)
  | alreadyScheduled _ t e h hpc hf _ =>
    rw [hf] at hg
    exact hi.group_update hg hpc fun hold => absurd hold (holds_ne_of_anyExec_none _ h g)
  | discard t e hdis hpc hf _ =>
    refine hi.group_update (store_false hf hg).2 hpc fun hold => ?_
    rw [hdis] at hold
    cases hold
  | load t e htaken hpc hf _ =>
    rw [hf] at hg
    refine hi.group_update hg hpc fun hold => ?_
    -- the thread goes on to execute, as it is not dropped
    rw [htaken] at hold
    rw [ha e g htaken hold (hi.group g hg).1]
    exact hold
  | reset t e hexec hpc hf _ =>
    obtain ⟨hne, hg⟩ := store_false hf hg
    refine hi.group_update hg hpc fun hold => ?_
    rw [hexec] at hold
    exact absurd hold hne
  | release t e hdone hpc hf _ =>
    rw [hf] at hg
    refine hi.group_update hg hpc fun hold => ?_
    rw [hdone] at hold
    cases hold

/-- a timer that was scheduled stays with its thread when that thread keeps it in the step -/
theorem Served.timer_update {s s' : State θ γ τ η} {t : θ} {p : Pc γ τ η} {timer : τ}
    (hi : Served groupType s) (ht : timer ∈ s.scheduledTimers)
    (hpc : s'.pc = Function.update s.pc t p)
    (hkeep : ∀ e, (s.pc t).serving = some e → e.timer = some timer → p.serving = some e) :
    ∃ t, Serves (s'.pc t) timer := by
  rw [hpc]
  refine exists_update Serves s.pc t p timer (hi.timer timer ht) ?_
  rintro ⟨e, he, htimer⟩
  exact ⟨e, hkeep e he htimer, htimer⟩

theorem served_timer_step (s s' : State θ γ τ η) (a : Action θ γ τ η)
    (hi : Served groupType s) (hs : step groupType s a = some s') (timer : τ)
    (ht : timer ∈ s'.scheduledTimers) : ∃ t, Serves (s'.pc t) timer := by
  cases step_move s s' a hs with
  | env _ hpc _ hsch =>
    rw [hsch] at ht
    rw [hpc]
    exact hi.timer timer ht
  | quiet _ t p h _ hpc _ hsch =>
    rw [hsch] at ht
    exact hi.timer_update ht hpc fun e he _ => absurd he (serving_ne_of_anyExec_none _ h e)
  | take _ t e g h _ _ hpc _ hsch =>
    by_cases he : e.timer = some timer
    · refine ⟨t, e, ?_, he⟩
      rw [hpc, Function.update_self]
      rfl
    · have hold := ((hsch timer).mp ht).resolve_right he
      exact hi.timer_update hold hpc fun e he _ => absurd he (serving_ne_of_anyExec_none _ h e)
  | alreadyScheduled _ t e h hpc _ hsch =>
    rw [hsch] at ht
    exact hi.timer_update ht hpc fun e he _ => absurd he (serving_ne_of_anyExec_none _ h e)
  | discard t e hdis hpc _ hsch =>
    rw [hsch] at ht
    refine hi.timer_update ht hpc fun e' he' _ => ?_
    rw [hdis] at he'
    cases he'
  | load t e htaken hpc _ hsch =>
    rw [hsch] at ht
    refine hi.timer_update ht hpc fun e' he' _ => ?_
    rw [htaken] at he'
    cases s.spinning <;> exact he'
  | reset t e hexec hpc _ hsch =>
    rw [hsch] at ht
    refine hi.timer_update ht hpc fun e' he' _ => ?_
    rw [hexec] at he'
    exact he'
  | release t e hdone hpc _ hsch =>
    obtain ⟨hold, hne⟩ := (hsch timer).mp ht
    refine hi.timer_update hold hpc fun e' he' htimer => ?_
    rw [hdone] at he'
    obtain rfl := Option.some.inj he'
    exact absurd htimer hne

/-- **Nothing is lost.**  In every run in which no taken executable of a mutually exclusive group
is dropped by a cancel, whenever no thread has a taken executable every group can be taken from
and no timer is scheduled. -/
theorem nothing_lost_of_reach (s : State θ γ τ η)
    (h : Reach (step groupType) (NotDropped groupType) IsInit s) (hidle : Idle s) :
    NothingLost s := by
  have hinv : Served groupType s := by
    refine Reach.inv (P := Served groupType) (fun s hi => ⟨?_, ?_⟩)
      (fun s a s' hi ha hs => ⟨?_, ?_⟩) h
    · intro g hg; rw [hi.2.1 g] at hg; cases hg
    · intro timer ht; rw [hi.2.2.1] at ht; cases ht
    · exact served_group_step s s' a hi ha hs
    · exact served_timer_step s s' a hi hs
  constructor
  · intro g
    by_contra hg
    obtain ⟨_, t, ht⟩ := hinv.group g (Bool.eq_false_iff.mpr hg)
    exact holds_ne_of_anyExec_none _ (hidle t) g ht
  · rw [Finset.eq_empty_iff_forall_notMem]
    intro timer htimer
    obtain ⟨t, e, he, _⟩ := hinv.timer timer htimer
    exact serving_ne_of_anyExec_none _ (hidle t) e he

end

/-- the timer has been served -/
theorem nothing_lost_after_callback :
    ∃ s : State Unit Unit Bool Unit, s.spinning = true ∧ Idle s ∧ NothingLost s := by
  have h₀ : Reach (step fun _ => .mutuallyExclusive) (NotDropped fun _ => .mutuallyExclusive)
      IsInit (newExecutor Unit) := .start (newExecutor_isInit Unit)
  have h₁ := Reach.next (a := Action.spin) h₀ trivial rfl
  have h₂ := Reach.next (a := Action.start ()) h₁ trivial rfl
  have h₃ := Reach.next (a := Action.check ()) h₂ trivial rfl
  have h₄ := Reach.next (a := Action.enter () (timerNode true)) h₃ trivial rfl
  have h₅ := Reach.next (a := Action.load ()) h₄ (fun _ _ _ _ _ => rfl) rfl
  have h₆ := Reach.next (a := Action.reset ()) h₅ trivial rfl
  have h₇ := Reach.next (a := Action.release ()) h₆ trivial rfl
  exact ⟨_, rfl, fun _ => rfl, nothing_lost_of_reach _ h₇ fun _ => rfl⟩

/-- canceled between taking and executing, the group stays closed -/
theorem canceled_group_stays_closed :
    ∃ s : State Unit Unit Bool Unit,
      Reach (step fun _ => .mutuallyExclusive) Free IsInit s ∧ Idle s ∧ ¬ NothingLost s := by
  have hrun : ((exec (step fun _ => .mutuallyExclusive) (newExecutor Unit)
      [.spin, .start (), .check (), .enter () (timerNode true), .cancel, .load (),
        .release ()]).map fun s => ((s.pc ()).anyExec.isNone, s.canBeTakenFrom ())) =
      some (true, false) := rfl
  obtain ⟨s, hs, hobs⟩ := Reach.of_exec_map (newExecutor_isInit _) _ (along_free _ _) _ hrun
  obtain ⟨hpc, hflag⟩ := Prod.mk.inj hobs
  refine ⟨s, hs, fun _ => Option.isNone_iff_eq_none.mp hpc, fun h => ?_⟩
  rw [h.1 ()] at hflag
  cases hflag

end PMROS2.Executor.MultiThreaded
