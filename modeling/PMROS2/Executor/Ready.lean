import Mathlib

/-!
# Finding the next executable

`Executor::get_next_timer`, `Executor::get_next_ready_executable` (`executor.cpp`) and the
functions of the memory strategy they call (`memory_strategy.cpp`,
`allocator_memory_strategy.hpp`).

`weak_nodes_` is seen as the nodes, groups and entities that `lock()` gives at the time of the
call; an expired pointer is left out, as every loop skips it.  A timer comes with the answer of
its `is_ready()`.  Handles and waitables are known by their address `η`.

`getNextReadyExecutable_group`: whatever is found has a callback group, and the flag of that
group was read as `true`.
-/

set_option linter.unusedSectionVars false

namespace PMROS2.Executor

structure Subscription (η : Type*) where
  subscriptionHandle : η
  intraProcessSubscriptionHandle : Option η := none
  deriving DecidableEq

structure Timer (τ : Type*) where
  timer : τ
  isReady : Bool

structure GroupView (γ τ η : Type*) where
  group : γ
  timers : List (Timer τ) := []
  subscriptions : List (Subscription η) := []
  services : List η := []
  clients : List η := []
  waitables : List η := []

/-- the nodes of the executor, each with its callback groups -/
abbrev WeakNodeList (γ τ η : Type*) := List (List (GroupView γ τ η))

/-- `AnyExecutable`; only one of the first six is set -/
structure AnyExecutable (γ τ η : Type*) where
  subscription : Option (Subscription η) := none
  subscriptionIntraProcess : Option (Subscription η) := none
  timer : Option τ := none
  service : Option η := none
  client : Option η := none
  waitable : Option η := none
  callbackGroup : Option γ := none

/-- the ready lists of `AllocatorMemoryStrategy` -/
structure MemoryStrategy (τ η : Type*) where
  subscriptionHandles : List η := []
  serviceHandles : List η := []
  clientHandles : List η := []
  timerHandles : List τ := []
  waitableHandles : List η := []

/-- which entries of the wait set are not null after `rcl_wait`, and which waitables are ready -/
structure WaitSet (τ η : Type*) where
  subscriptions : η → Bool := fun _ => false
  services : η → Bool := fun _ => false
  clients : η → Bool := fun _ => false
  timers : τ → Bool := fun _ => false
  waitables : η → Bool := fun _ => false

section
variable {γ τ η : Type*} [DecidableEq η]

/-! ## searching the nodes -/

def getSubscriptionByHandle (nodes : WeakNodeList γ τ η) (h : η) : Option (Subscription η) :=
  nodes.flatten.findSome? fun g => g.subscriptions.find? fun s =>
    s.subscriptionHandle = h ∨ s.intraProcessSubscriptionHandle = some h

def getGroupBySubscription (nodes : WeakNodeList γ τ η) (s : Subscription η) : Option γ :=
  (nodes.flatten.find? fun g => s ∈ g.subscriptions).map GroupView.group

/-- `get_service_by_handle` and `get_client_by_handle` -/
def getByHandle (entities : GroupView γ τ η → List η) (nodes : WeakNodeList γ τ η) (h : η) :
    Option η :=
  nodes.flatten.findSome? fun g => (entities g).find? (· = h)

/-- `get_group_by_service`, `get_group_by_client` and `get_group_by_waitable` -/
def getGroupBy (entities : GroupView γ τ η → List η) (nodes : WeakNodeList γ τ η) (x : η) :
    Option γ :=
  (nodes.flatten.find? fun g => x ∈ entities g).map GroupView.group

/-- the loop over a ready list: handles whose entity or group is gone are erased, those whose
group is in use are left for the next time, and the first of the others is taken -/
def takeNext {β : Type*} (find : η → Option β) (groupOf : β → Option γ) (canBeTakenFrom : γ → Bool) :
    List η → Option (η × β × γ) × List η
  | [] => (none, [])
  | h :: hs =>
    match find h with
    | none => takeNext find groupOf canBeTakenFrom hs
    | some x =>
      match groupOf x with
      | none => takeNext find groupOf canBeTakenFrom hs
      | some g =>
        if canBeTakenFrom g then (some (h, x, g), hs)
        else
          let (r, hs') := takeNext find groupOf canBeTakenFrom hs
          (r, h :: hs')

theorem takeNext_group {β : Type*} (find : η → Option β) (groupOf : β → Option γ)
    (canBeTakenFrom : γ → Bool) (hs : List η) (r : η × β × γ)
    (h : (takeNext find groupOf canBeTakenFrom hs).1 = some r) : canBeTakenFrom r.2.2 = true := by
  induction hs with
  | nil => cases h
  | cons k hs ih =>
    unfold takeNext at h
    split at h
    · exact ih h
    · split at h
      · exact ih h
      · split at h
        · obtain rfl := Option.some.inj h
          assumption
        · exact ih h

/-! ## the next executable of each kind -/

variable (canBeTakenFrom : γ → Bool) (nodes : WeakNodeList γ τ η)

/-- `Executor::get_next_timer` -/
def getNextTimer : Option (AnyExecutable γ τ η) :=
  nodes.flatten.findSome? fun g =>
    if canBeTakenFrom g.group then
      (g.timers.find? Timer.isReady).map fun t =>
        { timer := some t.timer, callbackGroup := some g.group }
    else none

def getNextSubscription (hs : List η) : Option (AnyExecutable γ τ η) × List η :=
  let (r, hs) := takeNext (getSubscriptionByHandle nodes) (getGroupBySubscription nodes)
    canBeTakenFrom hs
  (r.map fun (h, s, g) =>
    if s.intraProcessSubscriptionHandle = some h then
      { subscriptionIntraProcess := some s, callbackGroup := some g }
    else { subscription := some s, callbackGroup := some g }, hs)

def getNextService (hs : List η) : Option (AnyExecutable γ τ η) × List η :=
  let (r, hs) := takeNext (getByHandle GroupView.services nodes)
    (getGroupBy GroupView.services nodes) canBeTakenFrom hs
  (r.map fun (_, x, g) => { service := some x, callbackGroup := some g }, hs)

def getNextClient (hs : List η) : Option (AnyExecutable γ τ η) × List η :=
  let (r, hs) := takeNext (getByHandle GroupView.clients nodes)
    (getGroupBy GroupView.clients nodes) canBeTakenFrom hs
  (r.map fun (_, x, g) => { client := some x, callbackGroup := some g }, hs)

/-- the ready list holds the waitables themselves -/
def getNextWaitable (hs : List η) : Option (AnyExecutable γ τ η) × List η :=
  let (r, hs) := takeNext some (getGroupBy GroupView.waitables nodes) canBeTakenFrom hs
  (r.map fun (_, x, g) => { waitable := some x, callbackGroup := some g }, hs)

/-- `Executor::get_next_ready_executable` -/
def getNextReadyExecutable (ms : MemoryStrategy τ η) :
    Option (AnyExecutable γ τ η) × MemoryStrategy τ η :=
  match getNextTimer canBeTakenFrom nodes with
  | some e => (some e, ms)
  | none =>
    let (r, hs) := getNextSubscription canBeTakenFrom nodes ms.subscriptionHandles
    let ms := { ms with subscriptionHandles := hs }
    match r with
    | some e => (some e, ms)
    | none =>
      let (r, hs) := getNextService canBeTakenFrom nodes ms.serviceHandles
      let ms := { ms with serviceHandles := hs }
      match r with
      | some e => (some e, ms)
      | none =>
        let (r, hs) := getNextClient canBeTakenFrom nodes ms.clientHandles
        let ms := { ms with clientHandles := hs }
        match r with
        | some e => (some e, ms)
        | none =>
          let (r, hs) := getNextWaitable canBeTakenFrom nodes ms.waitableHandles
          (r, { ms with waitableHandles := hs })

/-! ## filling the ready lists -/

/-- `collect_entities`, after `clear_handles` -/
def collectEntities : MemoryStrategy τ η :=
  let groups := nodes.flatten.filter fun g => canBeTakenFrom g.group
  { subscriptionHandles := groups.flatMap fun g => g.subscriptions.flatMap fun s =>
      s.subscriptionHandle :: s.intraProcessSubscriptionHandle.toList
    serviceHandles := groups.flatMap GroupView.services
    clientHandles := groups.flatMap GroupView.clients
    timerHandles := groups.flatMap fun g => g.timers.map Timer.timer
    waitableHandles := groups.flatMap GroupView.waitables }

/-- `remove_null_handles` -/
def removeNullHandles (waitSet : WaitSet τ η) (ms : MemoryStrategy τ η) : MemoryStrategy τ η :=
  { subscriptionHandles := ms.subscriptionHandles.filter waitSet.subscriptions
    serviceHandles := ms.serviceHandles.filter waitSet.services
    clientHandles := ms.clientHandles.filter waitSet.clients
    timerHandles := ms.timerHandles.filter waitSet.timers
    waitableHandles := ms.waitableHandles.filter waitSet.waitables }

/-! ## the group of what is found -/

def HasFreeGroup (e : AnyExecutable γ τ η) : Prop :=
  ∃ g, e.callbackGroup = some g ∧ canBeTakenFrom g = true

variable {canBeTakenFrom nodes}

theorem hasFreeGroup_of_takeNext {β : Type*} {find : η → Option β} {groupOf : β → Option γ}
    {hs : List η} {f : η × β × γ → AnyExecutable γ τ η} {e : AnyExecutable γ τ η}
    (hf : ∀ r, (f r).callbackGroup = some r.2.2)
    (h : (takeNext find groupOf canBeTakenFrom hs).1.map f = some e) :
    HasFreeGroup canBeTakenFrom e := by
  obtain ⟨r, hr, rfl⟩ := Option.map_eq_some_iff.mp h
  exact ⟨r.2.2, hf r, takeNext_group find groupOf canBeTakenFrom hs r hr⟩

theorem getNextTimer_group {e : AnyExecutable γ τ η}
    (h : getNextTimer canBeTakenFrom nodes = some e) : HasFreeGroup canBeTakenFrom e := by
  obtain ⟨_, g, _, _, hg, _⟩ := List.findSome?_eq_some_iff.mp h
  split at hg
  · obtain ⟨t, _, rfl⟩ := Option.map_eq_some_iff.mp hg
    exact ⟨g.group, rfl, ‹_›⟩
  · cases hg

/-- **What is found has a callback group that can be taken from.** -/
theorem getNextReadyExecutable_group {ms : MemoryStrategy τ η} {e : AnyExecutable γ τ η}
    (h : (getNextReadyExecutable canBeTakenFrom nodes ms).1 = some e) :
    HasFreeGroup canBeTakenFrom e := by
  unfold getNextReadyExecutable at h
  split at h
  · rename_i e' ht
    obtain rfl := Option.some.inj h
    exact getNextTimer_group ht
  · simp only at h
    split at h
    · rename_i e' hs
      obtain rfl := Option.some.inj h
      refine hasFreeGroup_of_takeNext (fun r => ?_) hs
      obtain ⟨h, s, g⟩ := r
      simp only
      split <;> rfl
    · split at h
      · rename_i e' hs
        obtain rfl := Option.some.inj h
        exact hasFreeGroup_of_takeNext (fun _ => rfl) hs
      · split at h
        · rename_i e' hs
          obtain rfl := Option.some.inj h
          exact hasFreeGroup_of_takeNext (fun _ => rfl) hs
        · exact hasFreeGroup_of_takeNext (fun _ => rfl) h

end

end PMROS2.Executor
