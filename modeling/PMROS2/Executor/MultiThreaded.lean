import PMROS2.Lib.Runs
import PMROS2.Executor.Ready

/-!
# The multi-threaded executor

`MultiThreadedExecutor::run` (`multi_threaded_executor.cpp`) for any threads, with
`Executor::get_next_executable`, `execute_any_executable`, `cancel` (`executor.cpp`) and
`~AnyExecutable` (`any_executable.cpp`), as a transition function.  One action is one
`wait_mutex_` section or one atomic access outside of a section; a section that has to wait is
split at `rcl_wait`, where it still owns the mutex.

The threads, groups, timers and handles are of any type.  What the environment decides is part
of the action: the nodes seen by the section, what `rcl_wait` reports, when the executor is
canceled.  User callbacks and `rcl_trigger_guard_condition` are taken to return.

`Move` lists what one step can do to the threads, the flags and the scheduled timers, and
`step_move` says that there is nothing else.
-/

set_option linter.unusedSectionVars false

namespace PMROS2.Executor.MultiThreaded
open Runs

inductive CallbackGroupType where
  | mutuallyExclusive
  | reentrant
  deriving DecidableEq

/-- where a thread is in `run` -/
inductive Pc (γ τ η : Type*) where
  /-- not in `run` -/
  | done
  /-- before the loop condition -/
  | top
  /-- before `wait_mutex_` -/
  | entering
  /-- in `rcl_wait`, with `wait_mutex_` -/
  | waiting
  /-- left the section with `continue`, before `~AnyExecutable` -/
  | discarding (e : AnyExecutable γ τ η)
  /-- before `spinning.load()` of `execute_any_executable` -/
  | taken (e : AnyExecutable γ τ η)
  /-- in the callback, before the store that resets the group -/
  | executing (e : AnyExecutable γ τ η)
  /-- `execute_any_executable` has returned -/
  | executed (e : AnyExecutable γ τ η)

structure State (θ γ τ η : Type*) where
  pc : θ → Pc γ τ η
  canBeTakenFrom : γ → Bool
  scheduledTimers : Finset τ
  spinning : Bool
  /-- `rclcpp::ok(context_)` -/
  ok : Bool
  /-- the thread that owns `wait_mutex_` between two steps -/
  waitMutex : Option θ
  memoryStrategy : MemoryStrategy τ η

inductive Action (θ γ τ η : Type*) where
  /-- `spinning.exchange(true)` in `spin` -/
  | spin
  /-- `spinning.store(false)`, by `cancel` or at the end of `spin` -/
  | cancel
  | shutdown
  | start (t : θ)
  | check (t : θ)
  | enter (t : θ) (nodes : WeakNodeList γ τ η)
  | wake (t : θ) (waitSet : WaitSet τ η) (nodes : WeakNodeList γ τ η)
  | discard (t : θ)
  | load (t : θ)
  | reset (t : θ)
  | release (t : θ)

/-- the `AnyExecutable` of a thread that has a callback group -/
def Pc.anyExec {γ τ η : Type*} : Pc γ τ η → Option (AnyExecutable γ τ η)
  | .discarding e | .taken e | .executing e | .executed e => some e
  | _ => none

/-- the executable whose timer the thread has put into `scheduled_timers_` -/
def Pc.serving {γ τ η : Type*} : Pc γ τ η → Option (AnyExecutable γ τ η)
  | .taken e | .executing e | .executed e => some e
  | _ => none

def Serves {γ τ η : Type*} (p : Pc γ τ η) (timer : τ) : Prop :=
  ∃ e, p.serving = some e ∧ e.timer = some timer

/-- the group of a thread between taking an executable and the reset of the flag -/
def Pc.holds {γ τ η : Type*} : Pc γ τ η → Option γ
  | .taken e | .executing e => e.callbackGroup
  | _ => none

section
variable {θ γ τ η : Type*} [DecidableEq θ] [DecidableEq γ] [DecidableEq τ] [DecidableEq η]
  (groupType : γ → CallbackGroupType)

/-- `callback_group->can_be_taken_from().store(b)` -/
def store (flags : γ → Bool) (g : Option γ) (b : Bool) : γ → Bool :=
  match g with
  | some g => Function.update flags g b
  | none => flags

/-- the end of `get_next_executable`: a mutually exclusive group is marked as taken -/
def markTaken (flags : γ → Bool) (e : AnyExecutable γ τ η) : γ → Bool :=
  match e.callbackGroup with
  | some g => if groupType g = .mutuallyExclusive then store flags (some g) false else flags
  | none => flags

/-- the rest of the section once an executable was found -/
def take (s : State θ γ τ η) (t : θ) (e : AnyExecutable γ τ η) : State θ γ τ η :=
  let flags := markTaken groupType s.canBeTakenFrom e
  match e.timer with
  | none => { s with canBeTakenFrom := flags, pc := Function.update s.pc t (.taken e) }
  | some timer =>
    if timer ∈ s.scheduledTimers then
      { s with canBeTakenFrom := store flags e.callbackGroup true
               pc := Function.update s.pc t (.discarding e) }
    else
      { s with canBeTakenFrom := flags
               scheduledTimers := insert timer s.scheduledTimers
               pc := Function.update s.pc t (.taken e) }

/-- the section up to `rcl_wait`: `wait_for_work` clears and collects before it waits -/
def enterSection (s : State θ γ τ η) (t : θ) (nodes : WeakNodeList γ τ η) : State θ γ τ η :=
  if s.ok && s.spinning then
    match getNextReadyExecutable s.canBeTakenFrom nodes s.memoryStrategy with
    | (some e, ms) => take groupType { s with memoryStrategy := ms } t e
    | (none, _) =>
      { s with memoryStrategy := collectEntities s.canBeTakenFrom nodes
               pc := Function.update s.pc t .waiting
               waitMutex := some t }
  else { s with pc := Function.update s.pc t .done }

/-- the section after `rcl_wait` -/
def leaveWait (s : State θ γ τ η) (t : θ) (waitSet : WaitSet τ η) (nodes : WeakNodeList γ τ η) :
    State θ γ τ η :=
  let s := { s with memoryStrategy := removeNullHandles waitSet s.memoryStrategy, waitMutex := none }
  if s.spinning then
    match getNextReadyExecutable s.canBeTakenFrom nodes s.memoryStrategy with
    | (some e, ms) => take groupType { s with memoryStrategy := ms } t e
    | (none, ms) => { s with memoryStrategy := ms, pc := Function.update s.pc t .top }
  else { s with pc := Function.update s.pc t .top }

def step (s : State θ γ τ η) : Action θ γ τ η → Option (State θ γ τ η)
  | .spin => if s.spinning then none else some { s with spinning := true }
  | .cancel => some { s with spinning := false }
  | .shutdown => some { s with ok := false }
  | .start t =>
    match s.pc t with
    | .done => some { s with pc := Function.update s.pc t .top }
    | _ => none
  | .check t =>
    match s.pc t with
    | .top => some { s with
        pc := Function.update s.pc t (if s.ok && s.spinning then .entering else .done) }
    | _ => none
  | .enter t nodes =>
    match s.pc t, s.waitMutex with
    | .entering, none => some (enterSection groupType s t nodes)
    | _, _ => none
  | .wake t waitSet nodes =>
    match s.pc t with
    | .waiting => some (leaveWait groupType s t waitSet nodes)
    | _ => none
  | .discard t =>
    match s.pc t with
    | .discarding e => some { s with
        canBeTakenFrom := store s.canBeTakenFrom e.callbackGroup true
        pc := Function.update s.pc t .top }
    | _ => none
  | .load t =>
    match s.pc t with
    | .taken e => some { s with
        pc := Function.update s.pc t (if s.spinning then .executing e else .executed e) }
    | _ => none
  | .reset t =>
    match s.pc t with
    | .executing e => some { s with
        canBeTakenFrom := store s.canBeTakenFrom e.callbackGroup true
        pc := Function.update s.pc t (.executed e) }
    | _ => none
  | .release t =>
    match s.pc t with
    | .executed e =>
      match e.timer, s.waitMutex with
      | none, _ => some { s with pc := Function.update s.pc t .top }
      | some timer, none => some { s with
          scheduledTimers := s.scheduledTimers.erase timer
          pc := Function.update s.pc t .top }
      | some _, some _ => none
    | _ => none

/-- a new executor: no thread runs, every group can be taken from -/
def IsInit (s : State θ γ τ η) : Prop :=
  (∀ t, s.pc t = .done) ∧ (∀ g, s.canBeTakenFrom g = true) ∧ s.scheduledTimers = ∅ ∧
    s.waitMutex = none

/-! ## what one step can do -/

/-- the steps, by their effect on the threads, the flags and the scheduled timers -/
inductive Move (s s' : State θ γ τ η) : Action θ γ τ η → Prop
  | env (a : Action θ γ τ η) (hpc : s'.pc = s.pc) (hf : s'.canBeTakenFrom = s.canBeTakenFrom)
      (ht : s'.scheduledTimers = s.scheduledTimers) : Move s s' a
  | quiet (a : Action θ γ τ η) (t : θ) (p : Pc γ τ η) (h : (s.pc t).anyExec = none)
      (hp : p.anyExec = none) (hpc : s'.pc = Function.update s.pc t p)
      (hf : s'.canBeTakenFrom = s.canBeTakenFrom)
      (ht : s'.scheduledTimers = s.scheduledTimers) : Move s s' a
  | take (a : Action θ γ τ η) (t : θ) (e : AnyExecutable γ τ η) (g : γ)
      (h : (s.pc t).anyExec = none) (hg : e.callbackGroup = some g)
      (hfree : s.canBeTakenFrom g = true) (hpc : s'.pc = Function.update s.pc t (.taken e))
      (hf : s'.canBeTakenFrom = markTaken groupType s.canBeTakenFrom e)
      (ht : ∀ timer, timer ∈ s'.scheduledTimers ↔
        timer ∈ s.scheduledTimers ∨ e.timer = some timer) : Move s s' a
  | alreadyScheduled (a : Action θ γ τ η) (t : θ) (e : AnyExecutable γ τ η)
      (h : (s.pc t).anyExec = none) (hpc : s'.pc = Function.update s.pc t (.discarding e))
      (hf : s'.canBeTakenFrom = s.canBeTakenFrom)
      (ht : s'.scheduledTimers = s.scheduledTimers) : Move s s' a
  | discard (t : θ) (e : AnyExecutable γ τ η) (h : s.pc t = .discarding e)
      (hpc : s'.pc = Function.update s.pc t .top)
      (hf : s'.canBeTakenFrom = store s.canBeTakenFrom e.callbackGroup true)
      (ht : s'.scheduledTimers = s.scheduledTimers) : Move s s' (.discard t)
  | load (t : θ) (e : AnyExecutable γ τ η) (h : s.pc t = .taken e)
      (hpc : s'.pc = Function.update s.pc t (if s.spinning then .executing e else .executed e))
      (hf : s'.canBeTakenFrom = s.canBeTakenFrom)
      (ht : s'.scheduledTimers = s.scheduledTimers) : Move s s' (.load t)
  | reset (t : θ) (e : AnyExecutable γ τ η) (h : s.pc t = .executing e)
      (hpc : s'.pc = Function.update s.pc t (.executed e))
      (hf : s'.canBeTakenFrom = store s.canBeTakenFrom e.callbackGroup true)
      (ht : s'.scheduledTimers = s.scheduledTimers) : Move s s' (.reset t)
  | release (t : θ) (e : AnyExecutable γ τ η) (h : s.pc t = .executed e)
      (hpc : s'.pc = Function.update s.pc t .top) (hf : s'.canBeTakenFrom = s.canBeTakenFrom)
      (ht : ∀ timer, timer ∈ s'.scheduledTimers ↔
        timer ∈ s.scheduledTimers ∧ e.timer ≠ some timer) : Move s s' (.release t)

variable {groupType}

/-- marking a free group as taken and resetting it at once changes nothing -/
theorem store_markTaken (flags : γ → Bool) (e : AnyExecutable γ τ η) (g : γ)
    (hg : e.callbackGroup = some g) (hfree : flags g = true) :
    store (markTaken groupType flags e) e.callbackGroup true = flags := by
  unfold markTaken
  rw [hg]
  simp only [store]
  split
  · rw [Function.update_idem, ← hfree, Function.update_eq_self]
  · rw [← hfree, Function.update_eq_self]

theorem take_move (s : State θ γ τ η) (ms : MemoryStrategy τ η) (mutex : Option θ)
    (a : Action θ γ τ η) (t : θ) (e : AnyExecutable γ τ η) (h : (s.pc t).anyExec = none)
    (he : HasFreeGroup s.canBeTakenFrom e) :
    Move groupType s
      (take groupType { s with memoryStrategy := ms, waitMutex := mutex } t e) a := by
  obtain ⟨g, hg, hfree⟩ := he
  unfold take
  cases htimer : e.timer with
  | none =>
    refine .take a t e g h hg hfree rfl rfl fun timer => ?_
    simp [htimer]
  | some timer =>
    by_cases hs : timer ∈ s.scheduledTimers
    · simp only [hs, if_true]
      exact .alreadyScheduled a t e h rfl (store_markTaken s.canBeTakenFrom e g hg hfree) rfl
    · simp only [hs, if_false]
      refine .take a t e g h hg hfree rfl rfl fun timer' => ?_
      rw [Finset.mem_insert, htimer, or_comm, Option.some_inj, eq_comm]

theorem enterSection_move (s : State θ γ τ η) (a : Action θ γ τ η) (t : θ)
    (nodes : WeakNodeList γ τ η) (h : (s.pc t).anyExec = none) :
    Move groupType s (enterSection groupType s t nodes) a := by
  unfold enterSection
  split
  · split
    · rename_i e ms hnext
      have hready : (getNextReadyExecutable s.canBeTakenFrom nodes s.memoryStrategy).1 = some e := by
        rw [hnext]
      exact take_move s ms s.waitMutex a t e h (getNextReadyExecutable_group hready)
    · exact .quiet a t .waiting h rfl rfl rfl rfl
  · exact .quiet a t .done h rfl rfl rfl rfl

theorem leaveWait_move (s : State θ γ τ η) (a : Action θ γ τ η) (t : θ) (waitSet : WaitSet τ η)
    (nodes : WeakNodeList γ τ η) (h : (s.pc t).anyExec = none) :
    Move groupType s (leaveWait groupType s t waitSet nodes) a := by
  unfold leaveWait
  simp only
  split
  · split
    · rename_i e ms hnext
      have hready : (getNextReadyExecutable s.canBeTakenFrom nodes
          (removeNullHandles waitSet s.memoryStrategy)).1 = some e := by
        rw [hnext]
      exact take_move s ms none a t e h (getNextReadyExecutable_group hready)
    · exact .quiet a t .top h rfl rfl rfl rfl
  · exact .quiet a t .top h rfl rfl rfl rfl

theorem step_move (s s' : State θ γ τ η) (a : Action θ γ τ η)
    (hs : step groupType s a = some s') : Move groupType s s' a := by
  cases a with
  | spin =>
    simp only [step] at hs
    split at hs
    · cases hs
    · obtain rfl := Option.some.inj hs
      exact .env _ rfl rfl rfl
  | cancel =>
    obtain rfl := Option.some.inj hs
    exact .env _ rfl rfl rfl
  | shutdown =>
    obtain rfl := Option.some.inj hs
    exact .env _ rfl rfl rfl
  | start t =>
    simp only [step] at hs
    split at hs
    · rename_i hpc
      obtain rfl := Option.some.inj hs
      exact .quiet _ t .top (by rw [hpc]; rfl) rfl rfl rfl rfl
    · cases hs
  | check t =>
    simp only [step] at hs
    split at hs
    · rename_i hpc
      obtain rfl := Option.some.inj hs
      exact .quiet _ t _ (by rw [hpc]; rfl) (by split <;> rfl) rfl rfl rfl
    · cases hs
  | enter t nodes =>
    simp only [step] at hs
    split at hs
    · rename_i hpc _
      obtain rfl := Option.some.inj hs
      exact enterSection_move s _ t nodes (by rw [hpc]; rfl)
    · cases hs
  | wake t waitSet nodes =>
    simp only [step] at hs
    split at hs
    · rename_i hpc
      obtain rfl := Option.some.inj hs
      exact leaveWait_move s _ t waitSet nodes (by rw [hpc]; rfl)
    · cases hs
  | discard t =>
    simp only [step] at hs
    split at hs
    · rename_i e hpc
      obtain rfl := Option.some.inj hs
      exact .discard t e hpc rfl rfl rfl
    · cases hs
  | load t =>
    simp only [step] at hs
    split at hs
    · rename_i e hpc
      obtain rfl := Option.some.inj hs
      exact .load t e hpc rfl rfl rfl
    · cases hs
  | reset t =>
    simp only [step] at hs
    split at hs
    · rename_i e hpc
      obtain rfl := Option.some.inj hs
      exact .reset t e hpc rfl rfl rfl
    · cases hs
  | release t =>
    simp only [step] at hs
    split at hs
    · rename_i e hpc
      split at hs
      · rename_i htimer
        obtain rfl := Option.some.inj hs
        refine .release t e hpc rfl rfl fun timer => ?_
        simp [htimer]
      · rename_i timer htimer _
        obtain rfl := Option.some.inj hs
        refine .release t e hpc rfl rfl fun timer' => ?_
        rw [Finset.mem_erase, htimer, and_comm, Option.some_inj.ne, ne_comm]
      · cases hs
    · cases hs

/-! ## threads, flags and scheduled timers after a step -/

theorem holds_update (pc : θ → Pc γ τ η) (t t' : θ) (p : Pc γ τ η) (g : γ) :
    (Function.update pc t p t').holds = some g ↔
      t' = t ∧ p.holds = some g ∨ t' ≠ t ∧ (pc t').holds = some g := by
  by_cases ht : t' = t
  · subst ht; simp
  · simp [ht]

theorem holds_of_update (pc : θ → Pc γ τ η) (t t' : θ) (p : Pc γ τ η) (g : γ)
    (hp : p.holds = none) (h : (Function.update pc t p t').holds = some g) :
    t' ≠ t ∧ (pc t').holds = some g := by
  rw [holds_update, hp] at h
  rcases h with ⟨_, h⟩ | h
  · cases h
  · exact h

theorem holds_of_load (e : AnyExecutable γ τ η) (b : Bool) (g : γ)
    (h : (if b then Pc.executing e else Pc.executed e).holds = some g) :
    e.callbackGroup = some g := by
  cases b with
  | true => exact h
  | false => cases h

theorem holds_of_anyExec_none (p : Pc γ τ η) (h : p.anyExec = none) : p.holds = none := by
  cases p <;> first | rfl | cases h

theorem holds_ne_of_anyExec_none (p : Pc γ τ η) (h : p.anyExec = none) (g : γ) :
    p.holds ≠ some g := by
  rw [holds_of_anyExec_none p h]
  exact (Option.some_ne_none g).symm

theorem serving_ne_of_anyExec_none (p : Pc γ τ η) (h : p.anyExec = none)
    (e : AnyExecutable γ τ η) : p.serving ≠ some e := by
  have hnone : p.serving = none := by cases p <;> first | rfl | cases h
  rw [hnone]
  exact (Option.some_ne_none e).symm

theorem store_of_ne (flags : γ → Bool) (o : Option γ) (g : γ) (b : Bool) (h : o ≠ some g) :
    store flags o b g = flags g := by
  cases o with
  | none => rfl
  | some g' => exact Function.update_of_ne (fun e => h (by rw [e])) _ _

/-- a flag that is clear after a reset belongs to another group, and was clear before -/
theorem store_false {flags flags' : γ → Bool} {o : Option γ} {g : γ}
    (h : flags' = store flags o true) (hg : flags' g = false) : o ≠ some g ∧ flags g = false := by
  subst h
  have hne : o ≠ some g := by
    rintro rfl
    simp only [store, Function.update_self, Bool.true_eq_false] at hg
  exact ⟨hne, by rwa [store_of_ne _ _ _ _ hne] at hg⟩

theorem markTaken_self (flags : γ → Bool) (e : AnyExecutable γ τ η) (g : γ)
    (hg : e.callbackGroup = some g) (hm : groupType g = .mutuallyExclusive) :
    markTaken groupType flags e g = false := by
  unfold markTaken
  rw [hg]
  simp only [hm, if_true, store, Function.update_self]

theorem markTaken_of_ne (flags : γ → Bool) (e : AnyExecutable γ τ η) (g : γ)
    (hg : e.callbackGroup ≠ some g ∨ groupType g ≠ .mutuallyExclusive) :
    markTaken groupType flags e g = flags g := by
  unfold markTaken
  cases hg' : e.callbackGroup with
  | none => rfl
  | some g' =>
    by_cases hm : groupType g' = .mutuallyExclusive
    · simp only [hm, if_true]
      refine Function.update_of_ne (fun he => ?_) _ _
      rcases hg with hg | hg
      · exact hg (by rw [hg', he])
      · exact hg (by rw [he, hm])
    · simp only [hm, if_false]

end

/-- a new executor for one mutually exclusive group with two timers -/
def newExecutor (θ : Type*) : State θ Unit Bool Unit :=
  { pc := fun _ => .done
    canBeTakenFrom := fun _ => true
    scheduledTimers := ∅
    spinning := false
    ok := true
    waitMutex := none
    memoryStrategy := {} }

theorem newExecutor_isInit (θ : Type*) : IsInit (newExecutor θ) :=
  ⟨fun _ => rfl, fun _ => rfl, rfl, rfl⟩

def timerNode (timer : Bool) : WeakNodeList Unit Bool Unit :=
  [[{ group := (), timers := [⟨timer, true⟩] }]]

end PMROS2.Executor.MultiThreaded
