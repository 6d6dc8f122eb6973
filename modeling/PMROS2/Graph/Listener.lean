import Mathlib.Data.List.Nodup
import PMROS2.Lib.Runs

/-!
# Who hears of a change of the graph

`NodeGraph` (`node_graph.cpp`), `GraphListener` (`graph_listener.cpp`) and `Event` (`event.cpp`): a
user registers an event with its node, and the thread of the listener, which waits for the graph
guard conditions of all nodes, sets the events of a node when its graph has changed.

An action is a section under a mutex or an atomic access.  `shutdown_mutex_` is held by a `Call`;
the calls of `add_node` and `remove_node` hold `node_graph_interfaces_barrier_mutex_` from
`acquire_nodes_lock_` on, and `node_graph_interfaces_mutex_` is held by the loop during a round.
`graph_mutex_` is held by a thread in `wait_for_graph_change` that is about to sleep.

`rcl_wait` returns when a guard condition of the wait set has been triggered, with the entries of
the others reset, and takes the triggers.  The other calls of `rcl` succeed.
-/

namespace PMROS2.Graph

/-! ## the state -/

inductive GuardCondition where
  | interrupt
  | shutdown
  /-- the graph guard condition of a node -/
  | graph (n : Nat)
  deriving DecidableEq

/-- how far the first call of `get_graph_event` is with the listener; only `outside` has
`should_add_to_graph_listener_` set -/
inductive Joining where
  | outside
  | mustAdd
  /-- `add_node` has returned -/
  | mustStart
  | inside
  /-- `add_node` has thrown -/
  | refused
  /-- the destructor waits in `remove_node` -/
  | leaving
  | gone
  deriving DecidableEq

structure NodeGraph where
  graphEvents : List Nat := []
  graphUsersCount : Nat := 0
  joining : Joining := .outside
  /-- calls of `get_graph_event` that have not tested `should_add_to_graph_listener_` -/
  registered : Nat := 0

inductive WaiterPhase where
  | entering
  /-- the predicate was false, and `graph_mutex_` is held -/
  | deciding
  | asleep
  | woken
  deriving DecidableEq

/-- a thread in `wait_for_graph_change`, behind the test that the event is registered -/
structure Waiter where
  node : Nat
  event : Nat
  phase : WaiterPhase := .entering

/-- a thread that holds `shutdown_mutex_` -/
inductive Call where
  | add (n : Nat)
  | remove (n : Nat)
  /-- `listener_thread_.join()` -/
  | join
  deriving DecidableEq

/-- the thread of the listener -/
inductive Loop where
  | notStarted
  | idle
  | building (todo : List Nat) (guardConditions : List GuardCondition) (graphGcIndexes : List Nat)
  | waiting (guardConditions : List GuardCondition) (graphGcIndexes : List Nat)
  | notifying (todo : List (Nat × Nat)) (guardConditions : List (Option GuardCondition))
  /-- in `notify_graph_change`, behind the section under `graph_mutex_` -/
  | announcing (n : Nat) (todo : List (Nat × Nat)) (guardConditions : List (Option GuardCondition))
  | exited
  deriving DecidableEq

structure State where
  nodes : Nat → NodeGraph := fun _ => {}
  /-- the events below are allocated -/
  nextEvent : Nat := 0
  isSet : Nat → Bool := fun _ => false
  /-- a user holds the event -/
  alive : Nat → Bool := fun _ => false
  /-- the graph has changed since the event was registered or cleared -/
  due : Nat → Bool := fun _ => false
  triggered : GuardCondition → Bool := fun _ => false
  nodeGraphInterfaces : List Nat := []
  call : Option Call := none
  loop : Loop := .notStarted
  isShutdown : Bool := false
  contextOk : Bool := true
  waiters : List Waiter := []
  /-- `NodeNotFoundError` has left a destructor -/
  crashed : Bool := false

/-- `node_graph_interfaces_mutex_` is held by the loop -/
def Loop.holdsNodes : Loop → Bool
  | .building .. | .waiting .. | .notifying .. | .announcing .. => true
  | _ => false

/-- `node_graph_interfaces_barrier_mutex_` is held -/
def Call.holdsBarrier : Call → Bool
  | .add _ | .remove _ => true
  | .join => false

/-- the destructor of the node has not been called -/
def Joining.usable : Joining → Bool
  | .leaving | .gone => false
  | _ => true

def State.graphMutexFree (s : State) (n : Nat) : Bool :=
  s.waiters.all fun w => w.node ≠ n || w.phase ≠ .deciding

def State.modifyNode (s : State) (n : Nat) (f : NodeGraph → NodeGraph) : State :=
  { s with nodes := Function.update s.nodes n (f (s.nodes n)) }

def State.setJoining (s : State) (n : Nat) (j : Joining) : State :=
  s.modifyNode n fun g => { g with joining := j }

def State.trigger (s : State) (gc : GuardCondition) : State :=
  { s with triggered := Function.update s.triggered gc true }

/-! ## the node -/

/-- `NodeGraph::get_graph_event`, under the mutex -/
def getGraphEvent (s : State) (n : Nat) : State :=
  { s.modifyNode n fun g => { g with
      graphEvents := g.graphEvents ++ [s.nextEvent]
      graphUsersCount := g.graphUsersCount + 1
      registered := g.registered + 1 } with
    nextEvent := s.nextEvent + 1
    alive := Function.update s.alive s.nextEvent true }

/-- `should_add_to_graph_listener_.exchange(false)` in `get_graph_event` -/
def exchange (s : State) (n : Nat) : State :=
  s.modifyNode n fun g => { g with
    joining := if g.joining = .outside then .mustAdd else g.joining
    registered := g.registered - 1 }

/-- `notify_graph_change`, under the mutex -/
def setEvents (s : State) (n : Nat) : State :=
  { s.modifyNode n fun g =>
      if g.graphEvents.all s.alive then g
      else { g with
        graphEvents := g.graphEvents.filter s.alive
        graphUsersCount := (g.graphEvents.filter s.alive).length } with
    isSet := fun e => s.isSet e || (s.alive e && (s.nodes n).graphEvents.contains e) }

/-- `graph_cv_.notify_all()` -/
def notifyAll (s : State) (n : Nat) : State :=
  { s with waiters := s.waiters.map fun w =>
      if w.node = n ∧ w.phase = .asleep then { w with phase := .woken } else w }

/-! ## the listener -/

/-- `acquire_nodes_lock_`, up to the wait for the mutex -/
def acquireNodesLock (s : State) (c : Call) : State := { s.trigger .interrupt with call := some c }

/-- `GraphListener::add_node`, up to the wait for the mutex -/
def addNode (s : State) (n : Nat) : State :=
  -- `GraphListenerShutdownError`
  if s.isShutdown then s.setJoining n .refused else acquireNodesLock s (.add n)

/-- the rest of `add_node` -/
def addedNode (s : State) (n : Nat) : State :=
  if n ∈ s.nodeGraphInterfaces then { s.setJoining n .refused with call := none }
  else
    { s.setJoining n .mustStart with
      nodeGraphInterfaces := s.nodeGraphInterfaces ++ [n]
      call := none }

/-- `GraphListener::start_if_not_started`, which throws after `shutdown` -/
def startIfNotStarted (s : State) (n : Nat) : State :=
  { s.setJoining n .inside with
    loop := match s.loop with
      | .notStarted => if s.isShutdown then .notStarted else .idle
      | loop => loop }

/-- `remove_node_`, out of a destructor -/
def removeFrom (s : State) (n : Nat) : State :=
  if n ∈ s.nodeGraphInterfaces then
    { s.setJoining n .gone with nodeGraphInterfaces := s.nodeGraphInterfaces.erase n }
  else { s.setJoining n .gone with crashed := true }

/-- `~NodeGraph`, with `GraphListener::remove_node` up to the wait for the mutex -/
def destroyNode (s : State) (n : Nat) : State :=
  if (s.nodes n).joining = .outside then s.setJoining n .gone
  else if s.isShutdown then removeFrom s n
  else acquireNodesLock (s.setJoining n .leaving) (.remove n)

/-- `GraphListener::shutdown`, up to the join -/
def shutdown (s : State) : State :=
  if s.isShutdown then s
  else
    match s.loop with
    | .notStarted => { s with isShutdown := true }
    | _ => { s.trigger .interrupt with isShutdown := true, call := some .join }

/-- one round of the loop in which the wait set is filled: the node is waited for when it has
users -/
def addGraphGuardCondition (s : State) (n : Nat) (todo : List Nat)
    (guardConditions : List GuardCondition) (graphGcIndexes : List Nat) : Loop :=
  if (s.nodes n).graphUsersCount = 0 then .building todo guardConditions (graphGcIndexes ++ [0])
  else .building todo (guardConditions ++ [.graph n]) (graphGcIndexes ++ [guardConditions.length])

/-- `rcl_wait` -/
def wakeUp (s : State) (guardConditions : List GuardCondition) (graphGcIndexes : List Nat) :
    State :=
  { s with
    triggered := fun gc => s.triggered gc && !guardConditions.contains gc
    loop := .notifying (s.nodeGraphInterfaces.zip graphGcIndexes)
      (guardConditions.map fun gc => if s.triggered gc then some gc else none) }

/-- `notify_shutdown`, where the shutdown guard condition was triggered -/
def notifyShutdown (s : State) (n : Nat) (guardConditions : List (Option GuardCondition)) : State :=
  if guardConditions[1]? = some (some .shutdown) then notifyAll s n else s

/-! ## the steps -/

inductive Action where
  | getGraphEvent (n : Nat)
  | exchange (n : Nat)
  | addNode (n : Nat)
  | addedNode (n : Nat)
  | startIfNotStarted (n : Nat)
  /-- the last pointer of a user is gone -/
  | dropEvent (e : Nat)
  | checkAndClear (e : Nat)
  | graphChange (n : Nat)
  | waitForGraphChange (n e : Nat)
  /-- the waiter `i` evaluates its predicate -/
  | decide (i : Nat)
  | sleep (i : Nat)
  | timeOut (i : Nat)
  | destroyNode (n : Nat)
  | removedNode (n : Nat)
  | shutdownContext
  | shutdown
  | joined
  | beginRound
  | fillWaitSet
  | wakeUp
  | notifyNode
  | announce

def step (s : State) : Action → Option State
  | .getGraphEvent n =>
    if (s.nodes n).joining.usable ∧ s.graphMutexFree n = true then some (getGraphEvent s n)
    else none
  | .exchange n => if 0 < (s.nodes n).registered then some (exchange s n) else none
  | .addNode n =>
    if (s.nodes n).joining = .mustAdd ∧ s.call = none then some (addNode s n) else none
  | .addedNode n =>
    if s.call = some (.add n) ∧ s.loop.holdsNodes = false then some (addedNode s n) else none
  | .startIfNotStarted n =>
    if (s.nodes n).joining = .mustStart ∧ s.call = none then some (startIfNotStarted s n) else none
  | .dropEvent e =>
    if s.waiters.all (·.event ≠ e) then
      some { s with alive := Function.update s.alive e false }
    else none
  | .checkAndClear e =>
    if s.alive e then
      some { s with
        isSet := Function.update s.isSet e false
        due := Function.update s.due e false }
    else none
  | .graphChange n =>
    some { s.trigger (.graph n) with
      due := fun e => s.due e || (s.nodes n).graphEvents.contains e }
  | .waitForGraphChange n e =>
    if (s.nodes n).joining.usable ∧ s.alive e = true ∧ s.graphMutexFree n = true then
      -- `EventNotRegisteredError`
      if e ∈ (s.nodes n).graphEvents then some { s with waiters := s.waiters ++ [⟨n, e, .entering⟩] }
      else some s
    else none
  | .decide i =>
    (s.waiters[i]?).bind fun w =>
      if w.phase ≠ .deciding ∧ s.graphMutexFree w.node = true then
        if s.isSet w.event || !s.contextOk then some { s with waiters := s.waiters.eraseIdx i }
        else some { s with waiters := s.waiters.set i { w with phase := .deciding } }
      else none
  | .sleep i =>
    (s.waiters[i]?).bind fun w =>
      if w.phase = .deciding then
        some { s with waiters := s.waiters.set i { w with phase := .asleep } }
      else none
  | .timeOut i =>
    (s.waiters[i]?).bind fun w =>
      if (w.phase = .asleep ∨ w.phase = .woken) ∧ s.graphMutexFree w.node = true then
        some { s with waiters := s.waiters.eraseIdx i }
      else none
  | .destroyNode n =>
    if (s.nodes n).joining ∈ [.outside, .inside, .refused] ∧ (s.nodes n).registered = 0 ∧
        s.call = none ∧ s.waiters.all (·.node ≠ n) = true then
      some (destroyNode s n)
    else none
  | .removedNode n =>
    if s.call = some (.remove n) ∧ s.loop.holdsNodes = false then
      some { removeFrom s n with call := none }
    else none
  | .shutdownContext => some { s.trigger .shutdown with contextOk := false }
  | .shutdown => if s.call = none then some (shutdown s) else none
  | .joined =>
    match s.call, s.loop with
    | some .join, .exited => some { s with call := none }
    | _, _ => none
  | .beginRound =>
    match s.loop with
    | .idle =>
      if s.isShutdown then some { s with loop := .exited }
      else if s.call.any Call.holdsBarrier then none
      else some { s with loop := .building s.nodeGraphInterfaces [.interrupt, .shutdown] [] }
    | _ => none
  | .fillWaitSet =>
    match s.loop with
    | .building [] guardConditions graphGcIndexes =>
      some { s with loop := .waiting guardConditions graphGcIndexes }
    | .building (n :: todo) guardConditions graphGcIndexes =>
      some { s with loop := addGraphGuardCondition s n todo guardConditions graphGcIndexes }
    | _ => none
  | .wakeUp =>
    match s.loop with
    | .waiting guardConditions graphGcIndexes =>
      if guardConditions.any s.triggered then some (wakeUp s guardConditions graphGcIndexes)
      else none
    | _ => none
  | .notifyNode =>
    match s.loop with
    | .notifying [] _ => some { s with loop := .idle }
    | .notifying ((n, i) :: todo) guardConditions =>
      if guardConditions[i]? = some (some (.graph n)) then
        if s.graphMutexFree n then
          some { setEvents s n with loop := .announcing n todo guardConditions }
        else none
      else some { notifyShutdown s n guardConditions with loop := .notifying todo guardConditions }
    | _ => none
  -- where the shutdown guard condition was triggered, `notify_shutdown` wakes the waiters once more
  | .announce =>
    match s.loop with
    | .announcing n todo guardConditions =>
      some { notifyAll s n with loop := .notifying todo guardConditions }
    | _ => none

theorem nodes_modifyNode (s : State) (n m : Nat) (f : NodeGraph → NodeGraph) :
    (s.modifyNode n f).nodes m = if m = n then f (s.nodes m) else s.nodes m := by
  unfold State.modifyNode
  by_cases hm : m = n
  · subst hm
    rw [if_pos rfl]
    exact Function.update_self ..
  · rw [if_neg hm]
    exact Function.update_of_ne hm ..

end PMROS2.Graph
