import PMROS2.Lib.Runs
import PMROS2.Lib.Slots
import PMROS2.Rcl.Timer

/-!
# The wait set of `rcl`

`wait.c` without `rcl_wait`.  A wait set has one array of `rcl` handles and one of `rmw` handles for
each kind of entity, and an array of timers.  The guard conditions of the timers share the `rmw`
array of the guard conditions: it has room for as many handles as there are slots for guard
conditions and for timers, and the handles of the timers stand behind the others.

A `NULL` array is the empty one.  A read or write behind the end of an array, and a use of a block
that was deallocated, is undefined (`none`).  Which allocations fail is decided by the environment.

* `failureKeeps_iff`     an adder that fails leaves everything as it was exactly when it is not the
                         `rmw` handle that it lacks;
* `adds_in_step_iff`     over a run of adders the two arrays of every kind stay in step, and every
                         failure leaves them as they were, under the same condition.
-/

namespace PMROS2.Rcl
open Runs Slots

/-! ## the wait set -/

/-- the entities with an `rmw` array of their own -/
inductive Kind where
  | subscription
  | guardCondition
  | client
  | service
  | event
  deriving DecidableEq

def Kind.all : List Kind := [.subscription, .guardCondition, .client, .service, .event]

/-- what `rcl_<kind>_get_rmw_handle` points to -/
structure RmwHandle where
  address : Nat
  data : Nat
  deriving DecidableEq

structure Entity where
  address : Nat
  /-- `none` when the `rmw` handle cannot be obtained -/
  rmwHandle : Option RmwHandle
  deriving DecidableEq

structure TimerHandle where
  address : Nat
  /-- `rcl_timer_get_guard_condition`; a timer has one when its clock is a ROS clock -/
  guardCondition : Option Entity := none
  deriving DecidableEq

/-- the arrays of one kind -/
structure EntitySet where
  entities : List (Option Entity) := []
  index : Nat := 0
  rmw : List (Option Nat) := []
  count : Nat := 0
  /-- the block of the entities was deallocated and is still pointed to -/
  dangling : Bool := false
  deriving DecidableEq

structure WaitSet where
  sets : Kind → EntitySet := fun _ => {}
  timers : List (Option TimerHandle) := []
  timerIndex : Nat := 0

def WaitSet.update (w : WaitSet) (k : Kind) (s : EntitySet) : WaitSet :=
  { w with sets := Function.update w.sets k s }

/-! ## adding -/

/-- what is stored for a handle: its data, and for an event the handle itself, which is written
over the data -/
def stored : Kind → RmwHandle → Nat
  | .event, h => h.address
  | _, h => h.data

/-- `SET_ADD` and `SET_ADD_RMW`: what is returned, the wait set and the caller's `*index` -/
def WaitSet.add (w : WaitSet) (k : Kind) (entity : Option Entity) (index : Option Nat) :
    Option (Except Failure Unit × WaitSet × Option Nat) :=
  match entity with
  | none => some (.error .invalidArgument, w, index)
  | some e =>
    if ¬ (w.sets k).index < (w.sets k).entities.length then some (.error .waitSetFull, w, index)
    else
      let currentIndex := (w.sets k).index
      let s := { w.sets k with
        entities := (w.sets k).entities.set currentIndex (some e)
        index := currentIndex + 1 }
      let index := index.map fun _ => currentIndex
      match e.rmwHandle with
      | none => some (.error .error, w.update k s, index)
      | some h => do
        let rmw ← write s.rmw currentIndex (some (stored k h))
        return (.ok (), w.update k { s with rmw := rmw, count := s.count + 1 }, index)

/-- `rcl_wait_set_add_subscription` -/
def WaitSet.addSubscription (w : WaitSet) := w.add .subscription

/-- `rcl_wait_set_add_guard_condition` -/
def WaitSet.addGuardCondition (w : WaitSet) := w.add .guardCondition

/-- `rcl_wait_set_add_client` -/
def WaitSet.addClient (w : WaitSet) := w.add .client

/-- `rcl_wait_set_add_service` -/
def WaitSet.addService (w : WaitSet) := w.add .service

/-- `rcl_wait_set_add_event` -/
def WaitSet.addEvent (w : WaitSet) := w.add .event

/-- `rcl_wait_set_add_timer` -/
def WaitSet.addTimer (w : WaitSet) (timer : Option TimerHandle) (index : Option Nat) :
    Option (Except Failure Unit × WaitSet × Option Nat) :=
  match timer with
  | none => some (.error .invalidArgument, w, index)
  | some t =>
    if ¬ w.timerIndex < w.timers.length then some (.error .waitSetFull, w, index)
    else
      let w₁ := { w with
        timers := w.timers.set w.timerIndex (some t)
        timerIndex := w.timerIndex + 1 }
      let index := index.map fun _ => w.timerIndex
      match t.guardCondition with
      | none => some (.ok (), w₁, index)
      | some guardCondition =>
        match guardCondition.rmwHandle with
        | none => some (.error .error, w₁, index)
        | some h => do
          let s := w₁.sets .guardCondition
          let rmw ← write s.rmw (s.entities.length + (w₁.timerIndex - 1)) (some h.data)
          return (.ok (), w₁.update .guardCondition { s with rmw := rmw }, index)

/-! ## clearing -/

/-- `SET_CLEAR` and `SET_CLEAR_RMW` -/
def EntitySet.clear (s : EntitySet) : EntitySet :=
  let s := if s.entities = [] && !s.dangling then s
    else { s with entities := s.entities.map fun _ => none, index := 0 }
  if s.rmw = [] then s
  else { s with rmw := List.replicate s.count none ++ s.rmw.drop s.count, count := 0 }

/-- `rcl_wait_set_clear` -/
def WaitSet.clear (w : WaitSet) : Option WaitSet :=
  -- the count is the length of the `memset`
  if Kind.all.all fun k => (w.sets k).rmw = [] || (w.sets k).count ≤ (w.sets k).rmw.length then
    some { sets := fun k => (w.sets k).clear
           timers := w.timers.map fun _ => none
           timerIndex := if w.timers = [] then w.timerIndex else 0 }
  else none

/-! ## resizing -/

structure Sizes where
  entities : Kind → Nat
  timers : Nat

inductive Allocation where
  | entities (k : Kind)
  | rmw (k : Kind)
  | timers
  deriving DecidableEq

section
variable (sizes : Sizes) (fails : Allocation → Bool)

/-- `SET_RESIZE` with the `rmw` array: whether it succeeded -/
def WaitSet.resizeSet (k : Kind) (w : WaitSet) : Option (Bool × WaitSet) :=
  let s := w.sets k
  if s.dangling then none
  else if sizes.entities k = 0 then
    some (true, w.update k { s with
      entities := [], index := 0, rmw := [], count := if s.rmw = [] then s.count else 0 })
  else if fails (.entities k) then
    some (false, w.update k { s with entities := [], index := 0 })
  else if fails (.rmw k) then
    some (false, w.update k { dangling := true })
  else
    some (true, w.update k
      { entities := List.replicate (sizes.entities k) none
        rmw := List.replicate (sizes.entities k) none })

/-- `SET_RESIZE` of the guard conditions -/
def WaitSet.resizeGuardConditions (w : WaitSet) : Option (Bool × WaitSet) :=
  let s := w.sets .guardCondition
  if sizes.entities .guardCondition ≠ 0 && fails (.entities .guardCondition) then
    some (false, w.update .guardCondition { s with entities := [], index := 0 })
  else
    some (true, w.update .guardCondition
      { s with entities := List.replicate (sizes.entities .guardCondition) none, index := 0 })

/-- the `rmw` array of the guard conditions, with room for those of the timers -/
def WaitSet.resizeRmwGuardConditions (w : WaitSet) : Option (Bool × WaitSet) :=
  let s := w.sets .guardCondition
  let size := sizes.entities .guardCondition + sizes.timers
  if size ≠ 0 && fails (.rmw .guardCondition) then
    some (false, { w.update .guardCondition { s with entities := [], rmw := [], count := 0 } with
      timers := [] })
  else some (true, w.update .guardCondition { s with rmw := List.replicate size none, count := 0 })

/-- `SET_RESIZE` of the timers -/
def WaitSet.resizeTimers (w : WaitSet) : Option (Bool × WaitSet) :=
  if sizes.timers ≠ 0 && fails .timers then
    some (false, { w with timers := [], timerIndex := 0 })
  else some (true, { w with timers := List.replicate sizes.timers none, timerIndex := 0 })

def resizeParts : List (WaitSet → Option (Bool × WaitSet)) → WaitSet → Option (Bool × WaitSet)
  | [], w => some (true, w)
  | f :: fs, w => do
    let (resized, w) ← f w
    if resized then resizeParts fs w else return (false, w)

/-- `rcl_wait_set_resize` -/
def WaitSet.resize (w : WaitSet) : Option (Except Failure Unit × WaitSet) := do
  let (resized, w) ← resizeParts
    [WaitSet.resizeSet sizes fails .subscription, WaitSet.resizeGuardConditions sizes fails,
      WaitSet.resizeRmwGuardConditions sizes fails, WaitSet.resizeTimers sizes fails,
      WaitSet.resizeSet sizes fails .client, WaitSet.resizeSet sizes fails .service,
      WaitSet.resizeSet sizes fails .event] w
  return (if resized then .ok () else .error .badAlloc, w)

end

/-- `rcl_wait_set_init` with allocations that succeed -/
def WaitSet.init (sizes : Sizes) : Option (Except Failure Unit × WaitSet) :=
  WaitSet.resize sizes (fun _ => false) {}

/-! ## runs of adders -/

/-- a call of one of the adders -/
inductive Add where
  | entity (k : Kind) (entity : Option Entity) (index : Option Nat)
  | timer (timer : Option TimerHandle) (index : Option Nat)

/-- the `*index` of the caller -/
def Add.index : Add → Option Nat
  | .entity _ _ index => index
  | .timer _ index => index

/-- the adder of a kind -/
def WaitSet.addEntity (w : WaitSet) :
    Kind → Option Entity → Option Nat → Option (Except Failure Unit × WaitSet × Option Nat)
  | .subscription => w.addSubscription
  | .guardCondition => w.addGuardCondition
  | .client => w.addClient
  | .service => w.addService
  | .event => w.addEvent

def WaitSet.call (w : WaitSet) : Add → Option (Except Failure Unit × WaitSet × Option Nat)
  | .entity k entity index => w.addEntity k entity index
  | .timer timer index => w.addTimer timer index

def addStep (w : WaitSet) (a : Add) : Option WaitSet := (w.call a).map fun r => r.2.1

/-- a call that fails leaves the wait set and `*index` as they were -/
def FailureKeeps (w : WaitSet) (a : Add) : Prop :=
  ∀ ret w' index, w.call a = some (ret, w', index) → ret ≠ .ok () → w' = w ∧ index = a.index

/-- where there is room for an entity, its `rmw` handle can be obtained -/
def Obtainable (w : WaitSet) : Add → Prop
  | .entity k entity _ => ∀ e, entity = some e →
    (w.sets k).index < (w.sets k).entities.length → e.rmwHandle.isSome = true
  | .timer timer _ => ∀ t, timer = some t → w.timerIndex < w.timers.length →
    ∀ guardCondition, t.guardCondition = some guardCondition →
      guardCondition.rmwHandle.isSome = true

/-- as many `rmw` handles as entities, and every slot of the two arrays describes one entity -/
def InStep (w : WaitSet) : Prop :=
  ∀ k, (w.sets k).index = (w.sets k).count ∧ ∀ j < (w.sets k).index, ∃ e h,
    (w.sets k).entities[j]? = some (some e) ∧ e.rmwHandle = some h ∧
      (w.sets k).rmw[j]? = some (some (stored k h))

def Cleared (w : WaitSet) : Prop := ∀ k, (w.sets k).index = 0 ∧ (w.sets k).count = 0

section
variable {w w' : WaitSet}

theorem addEntity_eq (w : WaitSet) (k : Kind) : w.addEntity k = w.add k := by
  cases k with
  | _ => rfl

@[simp] theorem update_sets_self (w : WaitSet) (k : Kind) (s : EntitySet) :
    (w.update k s).sets k = s := by
  unfold WaitSet.update
  exact Function.update_self ..

theorem update_sets_of_ne (w : WaitSet) {k k' : Kind} (h : k' ≠ k) (s : EntitySet) :
    (w.update k s).sets k' = w.sets k' := by
  unfold WaitSet.update
  exact Function.update_of_ne h ..

theorem inStep_of_cleared (h : Cleared w) : InStep w := by
  intro k
  obtain ⟨hindex, hcount⟩ := h k
  rw [hindex, hcount]
  exact ⟨rfl, fun j hj => absurd hj (Nat.not_lt_zero j)⟩

/-- what an adder of a kind with a `rmw` array can do -/
theorem add_cases {k : Kind} {entity : Option Entity} {index index' : Option Nat}
    {ret : Except Failure Unit} (h : w.addEntity k entity index = some (ret, w', index')) :
    (ret ≠ .ok () ∧ w' = w ∧ index' = index) ∨
    ∃ e, entity = some e ∧ (w.sets k).index < (w.sets k).entities.length ∧
      ((e.rmwHandle = none ∧ ret ≠ .ok () ∧ w' = w.update k
          { w.sets k with
            entities := (w.sets k).entities.set (w.sets k).index (some e)
            index := (w.sets k).index + 1 }) ∨
      ∃ hd rmw, e.rmwHandle = some hd ∧ ret = .ok () ∧
        write (w.sets k).rmw (w.sets k).index (some (stored k hd)) = some rmw ∧
        w' = w.update k
          { w.sets k with
            entities := (w.sets k).entities.set (w.sets k).index (some e)
            index := (w.sets k).index + 1
            rmw := rmw
            count := (w.sets k).count + 1 }) := by
  rw [addEntity_eq] at h
  unfold WaitSet.add at h
  cases entity with
  | none =>
    cases h
    exact .inl ⟨nofun, rfl, rfl⟩
  | some e =>
    by_cases hroom : (w.sets k).index < (w.sets k).entities.length
    · simp only [hroom, not_true_eq_false, if_false] at h
      refine .inr ⟨e, rfl, hroom, ?_⟩
      cases hrmw : e.rmwHandle with
      | none =>
        rw [hrmw] at h
        cases h
        exact .inl ⟨rfl, nofun, rfl⟩
      | some hd =>
        rw [hrmw] at h
        obtain ⟨rmw, hwrite, heq⟩ := Option.bind_eq_some_iff.mp h
        cases heq
        exact .inr ⟨hd, rmw, rfl, rfl, hwrite, rfl⟩
    · simp only [hroom, not_false_eq_true, if_true] at h
      cases h
      exact .inl ⟨nofun, rfl, rfl⟩

/-- what the adder of timers can do -/
theorem addTimer_cases {timer : Option TimerHandle} {index index' : Option Nat}
    {ret : Except Failure Unit} (h : w.addTimer timer index = some (ret, w', index')) :
    (ret ≠ .ok () ∧ w' = w ∧ index' = index) ∨
    ∃ t, timer = some t ∧ w.timerIndex < w.timers.length ∧
      w'.timers = w.timers.set w.timerIndex (some t) ∧ w'.timerIndex = w.timerIndex + 1 ∧
      ((t.guardCondition = none ∧ ret = .ok () ∧ w'.sets = w.sets) ∨
      ∃ g, t.guardCondition = some g ∧
        ((g.rmwHandle = none ∧ ret ≠ .ok ()) ∨
        ∃ hd rmw, g.rmwHandle = some hd ∧ ret = .ok () ∧
          write (w.sets .guardCondition).rmw
            ((w.sets .guardCondition).entities.length + w.timerIndex) (some hd.data) = some rmw ∧
          w'.sets = Function.update w.sets .guardCondition
            { w.sets .guardCondition with rmw := rmw })) := by
  unfold WaitSet.addTimer at h
  cases timer with
  | none =>
    cases h
    exact .inl ⟨nofun, rfl, rfl⟩
  | some t =>
    by_cases hroom : w.timerIndex < w.timers.length
    · simp only [hroom, not_true_eq_false, if_false] at h
      refine .inr ⟨t, rfl, hroom, ?_⟩
      cases hg : t.guardCondition with
      | none =>
        rw [hg] at h
        cases h
        exact ⟨rfl, rfl, .inl ⟨rfl, rfl, rfl⟩⟩
      | some g =>
        rw [hg] at h
        simp only at h
        cases hrmw : g.rmwHandle with
        | none =>
          rw [hrmw] at h
          cases h
          exact ⟨rfl, rfl, .inr ⟨g, rfl, .inl ⟨hrmw, nofun⟩⟩⟩
        | some hd =>
          rw [hrmw] at h
          obtain ⟨rmw, hwrite, heq⟩ := Option.bind_eq_some_iff.mp h
          cases heq
          exact ⟨rfl, rfl, .inr ⟨g, rfl, .inr ⟨hd, rmw, hrmw, rfl, hwrite, rfl⟩⟩⟩
    · simp only [hroom, not_false_eq_true, if_true] at h
      cases h
      exact .inl ⟨nofun, rfl, rfl⟩

/-- with room for an entity that has no `rmw` handle, the call fails and has moved the index -/
theorem add_unobtainable {k : Kind} {e : Entity} {index : Option Nat}
    (hroom : (w.sets k).index < (w.sets k).entities.length) (hrmw : e.rmwHandle = none) :
    ∃ w' index', w.addEntity k (some e) index = some (.error .error, w', index') ∧ w' ≠ w := by
  rw [addEntity_eq]
  unfold WaitSet.add
  simp only [hroom, not_true_eq_false, if_false, hrmw]
  refine ⟨_, _, rfl, fun heq => ?_⟩
  have hindex := congrArg (fun w : WaitSet => (w.sets k).index) heq
  rw [update_sets_self] at hindex
  exact absurd hindex (Nat.succ_ne_self _)

theorem addTimer_unobtainable {t : TimerHandle} {g : Entity} {index : Option Nat}
    (hroom : w.timerIndex < w.timers.length) (hg : t.guardCondition = some g)
    (hrmw : g.rmwHandle = none) :
    ∃ w' index', w.addTimer (some t) index = some (.error .error, w', index') ∧ w' ≠ w := by
  unfold WaitSet.addTimer
  simp only [hroom, not_true_eq_false, if_false, hg, hrmw]
  refine ⟨_, _, rfl, fun heq => ?_⟩
  exact absurd (congrArg WaitSet.timerIndex heq) (Nat.succ_ne_self _)

/-- **A failing adder** leaves everything as it was, unless it lacks the `rmw` handle. -/
theorem failureKeeps_iff (w : WaitSet) (a : Add) : FailureKeeps w a ↔ Obtainable w a := by
  constructor
  · intro hkeeps
    cases a with
    | entity k entity index =>
      intro e he hroom
      subst he
      by_contra hnone
      obtain ⟨w', index', hcall, hne⟩ := add_unobtainable hroom
        (Option.not_isSome_iff_eq_none.mp hnone)
      exact hne (hkeeps (.error .error) w' index' hcall nofun).1
    | timer timer index =>
      intro t ht hroom g hg
      subst ht
      by_contra hnone
      obtain ⟨w', index', hcall, hne⟩ := addTimer_unobtainable hroom hg
        (Option.not_isSome_iff_eq_none.mp hnone)
      exact hne (hkeeps (.error .error) w' index' hcall nofun).1
  · intro hobt ret w' index' hcall hret
    cases a with
    | entity k entity index =>
      rcases add_cases hcall with ⟨-, hkept⟩ | ⟨e, he, hroom, ⟨hnone, -⟩ | ⟨hd, rmw, -, hok, -⟩⟩
      · exact hkept
      · have hsome := hobt e he hroom
        rw [hnone] at hsome
        cases hsome
      · exact absurd hok hret
    | timer timer index =>
      rcases addTimer_cases hcall with
        ⟨-, hkept⟩ | ⟨t, ht, hroom, -, -, ⟨-, hok, -⟩ | ⟨g, hg, ⟨hnone, -⟩ | ⟨hd, rmw, -, hok, -⟩⟩⟩
      · exact hkept
      · exact absurd hok hret
      · have hsome := hobt t ht hroom g hg
        rw [hnone] at hsome
        cases hsome
      · exact absurd hok hret

/-- a kind stays in step when an entity is added to it -/
theorem inStep_push {k : Kind} {s : EntitySet} {e : Entity} {hd : RmwHandle}
    {rmw : List (Option Nat)} (hcount : s.index = s.count)
    (hslots : ∀ j < s.index, ∃ e h, s.entities[j]? = some (some e) ∧ e.rmwHandle = some h ∧
      s.rmw[j]? = some (some (stored k h)))
    (hroom : s.index < s.entities.length) (hrmw : e.rmwHandle = some hd)
    (hwrite : write s.rmw s.index (some (stored k hd)) = some rmw) :
    s.index + 1 = s.count + 1 ∧ ∀ j < s.index + 1, ∃ e' h,
      (s.entities.set s.index (some e))[j]? = some (some e') ∧ e'.rmwHandle = some h ∧
        rmw[j]? = some (some (stored k h)) := by
  obtain ⟨hlt, rfl⟩ := guarded_eq_some.mp hwrite
  refine ⟨congrArg (· + 1) hcount, fun j hj => ?_⟩
  rcases Nat.lt_or_eq_of_le (Nat.le_of_lt_succ hj) with hold | rfl
  · obtain ⟨e', h, hent, hh, hslot⟩ := hslots j hold
    refine ⟨e', h, ?_, hh, ?_⟩
    · rw [List.getElem?_set_ne (Nat.ne_of_gt hold), hent]
    · rw [List.getElem?_set_ne (Nat.ne_of_gt hold), hslot]
  · refine ⟨e, hd, ?_, hrmw, ?_⟩
    · rw [List.getElem?_set_self hroom]
    · rw [List.getElem?_set_self hlt]

/-- a step of a run of adders -/
theorem inStep_call {a : Add} (h : InStep w) (hobt : Obtainable w a) (hstep : addStep w a = some w') :
    InStep w' := by
  obtain ⟨⟨ret, w₁, index'⟩, hcall, rfl⟩ := Option.map_eq_some_iff.mp hstep
  cases a with
  | entity k entity index =>
    rcases add_cases hcall with
      ⟨-, rfl, -⟩ | ⟨e, he, hroom, ⟨hnone, -⟩ | ⟨hd, rmw, hrmw, -, hwrite, rfl⟩⟩
    · exact h
    · have hsome := hobt e he hroom
      rw [hnone] at hsome
      cases hsome
    · intro k'
      by_cases hk : k' = k
      · subst hk
        show _ ∧ _
        rw [update_sets_self]
        exact inStep_push (h k').1 (h k').2 hroom hrmw hwrite
      · show _ ∧ _
        rw [update_sets_of_ne w hk]
        exact h k'
  | timer timer index =>
    rcases addTimer_cases hcall with ⟨-, rfl, -⟩ | ⟨t, ht, hroom, -, -, ⟨-, -, hsets⟩ |
      ⟨g, hg, ⟨hnone, -⟩ | ⟨hd, rmw, -, -, hwrite, hsets⟩⟩⟩
    · exact h
    · unfold InStep
      show ∀ k, (w₁.sets k).index = _ ∧ _
      rw [hsets]
      exact h
    · have hsome := hobt t ht hroom g hg
      rw [hnone] at hsome
      cases hsome
    · obtain ⟨-, rfl⟩ := guarded_eq_some.mp hwrite
      intro k
      show (w₁.sets k).index = _ ∧ _
      rw [hsets]
      by_cases hk : k = .guardCondition
      · subst hk
        rw [Function.update_self]
        refine ⟨(h _).1, fun j hj => ?_⟩
        -- the handles of the timers stand behind all slots for guard conditions
        obtain ⟨e, hd', hent, hh, hslot⟩ := (h .guardCondition).2 j hj
        have hlt : j < (w.sets .guardCondition).entities.length := by
          have := List.getElem?_eq_some_iff.mp hent
          exact this.1
        refine ⟨e, hd', hent, hh, ?_⟩
        rw [List.getElem?_set_ne (by omega), hslot]
      · rw [Function.update_of_ne hk]
        exact h k

end

/-- **The arrays in step.**  Over every run of adders since a clear, a failing adder leaves the wait
set and `*index` as they were and the arrays of every kind stay in step, exactly when every entity
that there is room for has an `rmw` handle; and so for one call on any wait set. -/
theorem adds_in_step_iff (w : WaitSet) (hw : Cleared w) (as : List Add) :
    (∀ (w₁ : WaitSet) (a : Add), FailureKeeps w₁ a ↔ Obtainable w₁ a) ∧
    ((Along addStep (fun w a _ => FailureKeeps w a) w as ∧ Always addStep InStep w as) ↔
      Along addStep (fun w a _ => Obtainable w a) w as) := by
  refine ⟨failureKeeps_iff, ?_⟩
  have hkeeps : Along addStep (fun w a _ => FailureKeeps w a) w as ↔
      Along addStep (fun w a _ => Obtainable w a) w as :=
    along_congr (I := fun _ => True) (fun _ _ _ _ _ => trivial)
      (fun w a _ _ _ => failureKeeps_iff w a) as w trivial
  refine ⟨fun h => hkeeps.mp h.1, fun h => ⟨hkeeps.mpr h, ?_⟩⟩
  exact always_of_inv (fun _ _ _ hI hs hC => inStep_call hI hC hs) as w (inStep_of_cleared hw) h

def twoSubscriptions : WaitSet where
  sets := fun k => match k with
    | .subscription => { entities := [none, none], rmw := [none, none] }
    | _ => {}

/-- a full set refuses a third subscription and stays in step -/
theorem adds_in_step_iff_full :
    Always addStep InStep twoSubscriptions
      [.entity .subscription (some ⟨1, some ⟨11, 12⟩⟩) (some 7),
        .entity .subscription (some ⟨2, some ⟨21, 22⟩⟩) none,
        .entity .subscription (some ⟨3, none⟩) none] := by
  have hcleared : Cleared twoSubscriptions := by
    intro k
    cases k with
    | _ => exact ⟨rfl, rfl⟩
  refine ((adds_in_step_iff twoSubscriptions hcleared _).2.mpr ?_).2
  refine (along_cons_some _ rfl).mpr ⟨?_, (along_cons_some _ rfl).mpr ⟨?_,
    (along_cons_some _ rfl).mpr ⟨?_, trivial⟩⟩⟩
  · exact fun e he _ => Option.some.inj he ▸ rfl
  · exact fun e he _ => Option.some.inj he ▸ rfl
  · exact fun e _ hroom => absurd hroom (by decide)

/-- a subscription without an `rmw` handle takes a slot and moves `*index`, and the next one is
stored in a slot that `rmw_wait` is not told about -/
theorem failed_add_moves_index :
    ∃ w₁ w₂, twoSubscriptions.addSubscription (some ⟨1, none⟩) (some 7) =
        some (.error .error, w₁, some 0) ∧
      (w₁.sets .subscription).index = 1 ∧
      w₁.addSubscription (some ⟨2, some ⟨21, 22⟩⟩) none = some (.ok (), w₂, none) ∧
      (w₂.sets .subscription).index = 2 ∧ (w₂.sets .subscription).count = 1 ∧
      (w₂.sets .subscription).rmw = [none, some 22] :=
  ⟨_, _, rfl, rfl, rfl, rfl, rfl, rfl⟩

end PMROS2.Rcl
