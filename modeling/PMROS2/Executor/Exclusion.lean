import PMROS2.Executor.MultiThreaded

/-!
# Mutual exclusion

The flag of a group is stored in four places: when an executable is taken, when its callback has
returned, when its timer is found to be scheduled already, and in `~AnyExecutable`.  The last one
comes after the `wait_mutex_` section, when another thread may have taken the group.

`mutualExclusion_of_reach`: no two threads have executables of one `MutuallyExclusive` group, in
every run in which a late `~AnyExecutable` finds the group unused.
-/

set_option linter.unusedSectionVars false

namespace PMROS2.Executor.MultiThreaded
open Runs

section
variable {θ γ τ η : Type*} [DecidableEq θ] [DecidableEq γ] [DecidableEq τ] [DecidableEq η]
  (groupType : γ → CallbackGroupType)

/-- no two threads are between taking an executable of one mutually exclusive group and the
reset of its flag -/
def MutualExclusion (s : State θ γ τ η) : Prop :=
  ∀ t t' g, groupType g = .mutuallyExclusive → (s.pc t).holds = some g →
    (s.pc t').holds = some g → t = t'

/-- a mutually exclusive group that a thread has taken is closed -/
def Closed (s : State θ γ τ η) : Prop :=
  ∀ t g, groupType g = .mutuallyExclusive → (s.pc t).holds = some g → s.canBeTakenFrom g = false

/-- the store of `~AnyExecutable`, which comes after the section in which the timer was found to
be scheduled already, meets no thread that has taken the group since -/
def LateStoreHarmless (s : State θ γ τ η) : Action θ γ τ η → Prop
  | .discard t => ∀ e g, s.pc t = .discarding e → e.callbackGroup = some g →
      groupType g = .mutuallyExclusive → ∀ t', (s.pc t').holds ≠ some g
  | _ => True

variable {groupType}

theorem closed_step (s s' : State θ γ τ η) (a : Action θ γ τ η) (hc : Closed groupType s)
    (hx : MutualExclusion groupType s) (ha : LateStoreHarmless groupType s a)
    (hs : step groupType s a = some s') : Closed groupType s' := by
  intro t' g hm hg
  cases step_move s s' a hs with
  | env _ hpc hf _ =>
    rw [hpc] at hg
    rw [hf]
    exact hc t' g hm hg
  | quiet _ t p _ hp hpc hf _ =>
    rw [hpc] at hg
    rw [hf]
    exact hc t' g hm (holds_of_update _ _ _ _ _ (holds_of_anyExec_none p hp) hg).2
  | take _ t e g' _ hg' hfree hpc hf _ =>
    rw [hpc, holds_update] at hg
    rw [hf]
    rcases hg with ⟨_, hg⟩ | ⟨_, hg⟩
    · exact markTaken_self s.canBeTakenFrom e g hg hm
    · -- the group that is taken was free, so it is another one
      have hclosed := hc t' g hm hg
      rw [markTaken_of_ne, hclosed]
      refine .inl fun he => ?_
      rw [hg', Option.some_inj] at he
      rw [he, hclosed] at hfree
      cases hfree
  | alreadyScheduled _ t e _ hpc hf _ =>
    rw [hpc] at hg
    rw [hf]
    exact hc t' g hm (holds_of_update _ _ _ _ _ rfl hg).2
  | discard t e hdis hpc hf _ =>
    rw [hpc] at hg
    obtain ⟨_, hg⟩ := holds_of_update _ _ _ _ _ rfl hg
    rw [hf, store_of_ne _ _ _ _ fun he => ha e g hdis he hm t' hg]
    exact hc t' g hm hg
  | load t e htaken hpc hf _ =>
    rw [hpc, holds_update] at hg
    rw [hf]
    rcases hg with ⟨_, hg⟩ | ⟨_, hg⟩
    · exact hc t g hm (by rw [htaken]; exact holds_of_load e _ g hg)
    · exact hc t' g hm hg
  | reset t e hexec hpc hf _ =>
    rw [hpc] at hg
    obtain ⟨hne, hg⟩ := holds_of_update _ _ _ _ _ rfl hg
    -- no other thread has the group that is reset
    rw [hf, store_of_ne _ _ _ _ fun he => hne (hx t' t g hm hg (by rw [hexec]; exact he))]
    exact hc t' g hm hg
  | release t e _ hpc hf _ =>
    rw [hpc] at hg
    rw [hf]
    exact hc t' g hm (holds_of_update _ _ _ _ _ rfl hg).2

/-- a thread that has taken a group after the step had it before, or took it free -/
theorem holds_before (s s' : State θ γ τ η) (a : Action θ γ τ η)
    (hs : step groupType s a = some s') (t' : θ) (g : γ) (hg : (s'.pc t').holds = some g) :
    (s.pc t').holds = some g ∨
      s.canBeTakenFrom g = true ∧ ∀ t'', t'' ≠ t' → s'.pc t'' = s.pc t'' := by
  cases step_move s s' a hs with
  | env _ hpc _ _ =>
    rw [hpc] at hg
    exact .inl hg
  | quiet _ t p _ hp hpc _ _ =>
    rw [hpc] at hg
    exact .inl (holds_of_update _ _ _ _ _ (holds_of_anyExec_none p hp) hg).2
  | take _ t e g' _ hg' hfree hpc _ _ =>
    rw [hpc, holds_update] at hg
    rcases hg with ⟨ht, hg⟩ | ⟨_, hg⟩
    · obtain rfl : g' = g := Option.some.inj (hg'.symm.trans hg)
      refine .inr ⟨hfree, fun t'' hne => ?_⟩
      rw [hpc, Function.update_of_ne (by rw [← ht]; exact hne)]
    · exact .inl hg
  | load t e htaken hpc _ _ =>
    rw [hpc, holds_update] at hg
    rcases hg with ⟨rfl, hg⟩ | ⟨_, hg⟩
    · left
      rw [htaken]
      exact holds_of_load e _ g hg
    · exact .inl hg
  | alreadyScheduled _ t e _ hpc _ _ =>
    rw [hpc] at hg
    exact .inl (holds_of_update _ _ _ _ _ rfl hg).2
  | discard t e _ hpc _ _ =>
    rw [hpc] at hg
    exact .inl (holds_of_update _ _ _ _ _ rfl hg).2
  | reset t e _ hpc _ _ =>
    rw [hpc] at hg
    exact .inl (holds_of_update _ _ _ _ _ rfl hg).2
  | release t e _ hpc _ _ =>
    rw [hpc] at hg
    exact .inl (holds_of_update _ _ _ _ _ rfl hg).2

theorem mutualExclusion_step (s s' : State θ γ τ η) (a : Action θ γ τ η)
    (hc : Closed groupType s) (hx : MutualExclusion groupType s)
    (hs : step groupType s a = some s') : MutualExclusion groupType s' := by
  intro t t' g hm ht ht'
  by_contra hne
  rcases holds_before s s' a hs t g ht with hold | ⟨hfree, hrest⟩
  · rcases holds_before s s' a hs t' g ht' with hold' | ⟨hfree', hrest'⟩
    · exact hne (hx t t' g hm hold hold')
    · rw [hc t g hm hold] at hfree'
      cases hfree'
  · rw [hrest t' (Ne.symm hne)] at ht'
    rw [hc t' g hm ht'] at hfree
    cases hfree

/-- **Mutual exclusion.**  In every run in which the late stores of `~AnyExecutable` are
harmless, two threads never have executables of one mutually exclusive group. -/
theorem mutualExclusion_of_reach (s : State θ γ τ η)
    (h : Reach (step groupType) (LateStoreHarmless groupType) IsInit s) :
    MutualExclusion groupType s := by
  have hinv : Closed groupType s ∧ MutualExclusion groupType s := by
    refine Reach.inv (P := fun s => Closed groupType s ∧ MutualExclusion groupType s)
      (fun s hi => ⟨?_, ?_⟩) (fun s a s' hi ha hs => ⟨?_, ?_⟩) h
    · intro t g _ hg; rw [hi.1 t] at hg; cases hg
    · intro t t' g _ hg; rw [hi.1 t] at hg; cases hg
    · exact closed_step s s' a hi.1 hi.2 ha hs
    · exact mutualExclusion_step s s' a hi.1 hi.2 hs
  exact hinv.2

end

/-- one of three threads has taken the group -/
theorem mutualExclusion_one_taken :
    ∃ s : State (Fin 3) Unit Bool Unit, (s.pc 0).holds = some () ∧
      MutualExclusion (fun _ => .mutuallyExclusive) s := by
  have hrun : Reach (step fun _ => .mutuallyExclusive)
      (LateStoreHarmless fun _ => .mutuallyExclusive) IsInit _ :=
    Reach.of_along (.start (newExecutor_isInit (Fin 3)))
      [.spin, .start 0, .check 0, .enter 0 (timerNode true)]
      (fun _ _ => ⟨trivial, fun _ _ => ⟨trivial, fun _ _ => ⟨trivial, fun _ _ =>
        ⟨trivial, trivial⟩⟩⟩⟩) rfl
  exact ⟨_, rfl, mutualExclusion_of_reach _ hrun⟩

/-- thread 0 has executed the first timer and not yet erased it from `scheduled_timers_`; thread
1 finds it scheduled and leaves the section; thread 2 takes the second timer; then the
destructor in thread 1 reopens the group, and thread 0 takes the first timer again -/
theorem late_store_reopens_group :
    ∃ s : State (Fin 3) Unit Bool Unit,
      Reach (step fun _ => .mutuallyExclusive) Free IsInit s ∧
      ¬ MutualExclusion (fun _ => .mutuallyExclusive) s := by
  have hrun : ((exec (step fun _ => .mutuallyExclusive) (newExecutor (Fin 3))
      [.spin, .start 0, .start 1, .start 2,
        .check 0, .enter 0 (timerNode true), .load 0, .reset 0,
        .check 1, .enter 1 (timerNode true),
        .check 2, .enter 2 (timerNode false), .load 2,
        .discard 1,
        .release 0, .check 0, .enter 0 (timerNode true)]).map fun s =>
      ((s.pc 0).holds, (s.pc 2).holds)) = some (some (), some ()) := rfl
  obtain ⟨s, hs, hheld⟩ := Reach.of_exec_map (newExecutor_isInit _) _ (along_free _ _) _ hrun
  obtain ⟨h0, h2⟩ := Prod.mk.inj hheld
  exact ⟨s, hs, fun h => absurd (h 0 2 () rfl h0 h2) (by decide)⟩

end PMROS2.Executor.MultiThreaded
