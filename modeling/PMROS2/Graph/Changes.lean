import PMROS2.Graph.Nodes

/-!
# What the users of a node hear of the changes

* `Move`              the steps by what they do to the events and their waiters;
* `Heard`             the invariant: an event that is due is set, or the graph guard condition of its
                      node is still triggered, or the loop is on its way to the node;
* `Informed`          what the users of a node can rely on;
* `informed_of_reach` they can, in every reachable state;
* `not_watched_after_last_user` the loop may be blocked on other nodes while a change is pending.
-/

namespace PMROS2.Graph
open Runs

/-! ## the loop and the events -/

/-- the loop has seen the guard condition of the node triggered, and has not come to the node -/
def Loop.Tells (l : Loop) (n : Nat) : Prop :=
  match l with
  | .notifying todo guardConditions | .announcing _ todo guardConditions =>
    ∃ i, (n, i) ∈ todo ∧ guardConditions[i]? = some (some (.graph n))
  | _ => False

/-- the loop has set the events of the node and is about to wake the waiters -/
def Loop.Announces (l : Loop) (n : Nat) : Prop :=
  ∃ todo guardConditions, l = .announcing n todo guardConditions

def NodeGraph.events (g : NodeGraph) : List Nat × Nat := (g.graphEvents, g.graphUsersCount)

/-- what there is of events and waiters -/
def State.users (s : State) : Nat × (Nat → Bool) × (Nat → Bool) × (Nat → Bool) × List Waiter :=
  (s.nextEvent, s.isSet, s.alive, s.due, s.waiters)

/-- a step that is about the nodes and the listener only -/
structure Quiet (s s' : State) : Prop where
  events : ∀ n, (s'.nodes n).events = (s.nodes n).events
  users : s'.users = s.users
  triggered : ∀ gc, s.triggered gc = true → s'.triggered gc = true
  tells : ∀ n, s.loop.Tells n → s'.loop.Tells n
  announces : ∀ n, s.loop.Announces n → s'.loop.Announces n

/-- the steps by their effect -/
inductive Move (s : State) : State → Prop
  | quiet (s' : State) (h : Quiet s s') : Move s s'
  | registered (n : Nat) : Move s (getGraphEvent s n)
  | dropped (e : Nat) (h : ∀ w ∈ s.waiters, w.event ≠ e) :
      Move s { s with alive := Function.update s.alive e false }
  | cleared (e : Nat) :
      Move s { s with
        isSet := Function.update s.isSet e false
        due := Function.update s.due e false }
  | changed (n : Nat) :
      Move s { s.trigger (.graph n) with
        due := fun e => s.due e || (s.nodes n).graphEvents.contains e }
  | entered (n e : Nat) (halive : s.alive e = true) (he : e ∈ (s.nodes n).graphEvents) :
      Move s { s with waiters := s.waiters ++ [⟨n, e, .entering⟩] }
  | left (i : Nat) : Move s { s with waiters := s.waiters.eraseIdx i }
  | decided (i : Nat) (w : Waiter) (hw : s.waiters[i]? = some w) (hset : s.isSet w.event = false) :
      Move s { s with waiters := s.waiters.set i { w with phase := .deciding } }
  | slept (i : Nat) (w : Waiter) (hw : s.waiters[i]? = some w) (hphase : w.phase = .deciding) :
      Move s { s with waiters := s.waiters.set i { w with phase := .asleep } }
  | woken (guardConditions : List GuardCondition) (graphGcIndexes : List Nat)
      (hloop : s.loop = .waiting guardConditions graphGcIndexes) :
      Move s (wakeUp s guardConditions graphGcIndexes)
  | told (n i : Nat) (todo : List (Nat × Nat)) (guardConditions : List (Option GuardCondition))
      (hloop : s.loop = .notifying ((n, i) :: todo) guardConditions)
      (hfree : s.graphMutexFree n = true) :
      Move s { setEvents s n with loop := .announcing n todo guardConditions }
  | skipped (n i : Nat) (todo : List (Nat × Nat)) (guardConditions : List (Option GuardCondition))
      (hloop : s.loop = .notifying ((n, i) :: todo) guardConditions)
      (hnot : guardConditions[i]? ≠ some (some (.graph n))) :
      Move s { notifyShutdown s n guardConditions with loop := .notifying todo guardConditions }
  | announced (n : Nat) (todo : List (Nat × Nat)) (guardConditions : List (Option GuardCondition))
      (hloop : s.loop = .announcing n todo guardConditions) :
      Move s { notifyAll s n with loop := .notifying todo guardConditions }

/-! ## quiet steps -/

section
variable {s s' s'' : State}

theorem Quiet.refl (s : State) : Quiet s s :=
  ⟨fun _ => rfl, rfl, fun _ h => h, fun _ h => h, fun _ h => h⟩

theorem Quiet.trans (h : Quiet s s') (h' : Quiet s' s'') : Quiet s s'' :=
  ⟨fun n => (h'.events n).trans (h.events n), h'.users.trans h.users,
    fun gc hgc => h'.triggered gc (h.triggered gc hgc), fun n hn => h'.tells n (h.tells n hn),
    fun n hn => h'.announces n (h.announces n hn)⟩

theorem Quiet.of_listener (hnodes : s'.nodes = s.nodes) (husers : s'.users = s.users)
    (htriggered : s'.triggered = s.triggered) (hloop : s'.loop = s.loop) : Quiet s s' :=
  ⟨fun n => by rw [hnodes], husers, fun gc h => by rwa [htriggered], fun n h => by rwa [hloop],
    fun n h => by rwa [hloop]⟩

theorem Quiet.of_loop (l : Loop) (htells : ∀ n, ¬ s.loop.Tells n)
    (hannounces : ∀ n, ¬ s.loop.Announces n) : Quiet s { s with loop := l } :=
  ⟨fun _ => rfl, rfl, fun _ h => h, fun n h => absurd h (htells n),
    fun n h => absurd h (hannounces n)⟩

theorem quiet_modifyNode (s : State) (n : Nat) {f : NodeGraph → NodeGraph}
    (hf : ∀ g, (f g).events = g.events) : Quiet s (s.modifyNode n f) := by
  refine ⟨fun m => ?_, rfl, fun _ h => h, fun _ h => h, fun _ h => h⟩
  rw [nodes_modifyNode]
  split
  · exact hf _
  · rfl

theorem quiet_setJoining (s : State) (n : Nat) (j : Joining) : Quiet s (s.setJoining n j) :=
  quiet_modifyNode s n fun _ => rfl

theorem quiet_trigger (s : State) (gc : GuardCondition) : Quiet s (s.trigger gc) := by
  refine ⟨fun _ => rfl, rfl, fun gc' h => ?_, fun _ h => h, fun _ h => h⟩
  unfold State.trigger
  by_cases hgc : gc' = gc
  · subst hgc
    exact Function.update_self ..
  · exact (Function.update_of_ne hgc ..).trans h

theorem quiet_acquireNodesLock (s : State) (c : Call) : Quiet s (acquireNodesLock s c) :=
  (quiet_trigger s .interrupt).trans (.of_listener rfl rfl rfl rfl)

theorem quiet_addNode (s : State) (n : Nat) : Quiet s (addNode s n) := by
  unfold addNode
  split
  · exact quiet_setJoining s n _
  · exact quiet_acquireNodesLock s _

theorem quiet_addedNode (s : State) (n : Nat) : Quiet s (addedNode s n) := by
  unfold addedNode
  split
  · exact (quiet_setJoining s n _).trans (.of_listener rfl rfl rfl rfl)
  · exact (quiet_setJoining s n _).trans (.of_listener rfl rfl rfl rfl)

theorem quiet_removeFrom (s : State) (n : Nat) : Quiet s (removeFrom s n) := by
  unfold removeFrom
  split
  · exact (quiet_setJoining s n _).trans (.of_listener rfl rfl rfl rfl)
  · exact (quiet_setJoining s n _).trans (.of_listener rfl rfl rfl rfl)

theorem quiet_destroyNode (s : State) (n : Nat) : Quiet s (destroyNode s n) := by
  unfold destroyNode
  split
  · exact quiet_setJoining s n _
  split
  · exact quiet_removeFrom s n
  · exact (quiet_setJoining s n _).trans (quiet_acquireNodesLock _ _)

theorem quiet_startIfNotStarted (s : State) (n : Nat) : Quiet s (startIfNotStarted s n) := by
  refine (quiet_setJoining s n .inside).trans ?_
  unfold startIfNotStarted
  cases hloop : s.loop with
  | notStarted =>
    refine .of_loop _ (fun m h => ?_) fun m h => ?_
    · have h' : s.loop.Tells m := h
      rw [hloop] at h'
      exact h'
    · obtain ⟨todo, guardConditions, h'⟩ : s.loop.Announces m := h
      rw [hloop] at h'
      cases h'
  | _ => exact .of_listener rfl rfl rfl hloop.symm

theorem quiet_shutdown (s : State) : Quiet s (shutdown s) := by
  unfold shutdown
  split
  · exact .refl s
  split
  · exact .of_listener rfl rfl rfl rfl
  · exact (quiet_trigger s .interrupt).trans (.of_listener rfl rfl rfl rfl)

theorem quiet_round (l : Loop) (h : s.loop = .idle ∨ ∃ todo guardConditions graphGcIndexes,
    s.loop = .building todo guardConditions graphGcIndexes) : Quiet s { s with loop := l } := by
  refine .of_loop l (fun n hn => ?_) fun n hn => ?_
  · rcases h with h | ⟨_, _, _, h⟩
    all_goals
      rw [h] at hn
      exact hn
  · obtain ⟨_, _, hn⟩ := hn
    rcases h with h | ⟨_, _, _, h⟩
    all_goals
      rw [h] at hn
      cases hn

theorem step_move {a : Action} (hs : step s a = some s') : Move s s' := by
  cases a with
  | getGraphEvent n =>
    obtain ⟨_, rfl⟩ := guarded_eq_some.mp hs
    exact .registered n
  | exchange n =>
    obtain ⟨_, rfl⟩ := guarded_eq_some.mp hs
    exact .quiet _ (quiet_modifyNode s n fun _ => rfl)
  | addNode n =>
    obtain ⟨_, rfl⟩ := guarded_eq_some.mp hs
    exact .quiet _ (quiet_addNode s n)
  | addedNode n =>
    obtain ⟨_, rfl⟩ := guarded_eq_some.mp hs
    exact .quiet _ (quiet_addedNode s n)
  | startIfNotStarted n =>
    obtain ⟨_, rfl⟩ := guarded_eq_some.mp hs
    exact .quiet _ (quiet_startIfNotStarted s n)
  | dropEvent e =>
    obtain ⟨h, rfl⟩ := guarded_eq_some.mp hs
    exact .dropped e fun w hw => of_decide_eq_true (List.all_eq_true.mp h w hw)
  | checkAndClear e =>
    obtain ⟨_, rfl⟩ := guarded_eq_some.mp hs
    exact .cleared e
  | graphChange n =>
    obtain rfl := Option.some.inj hs
    exact .changed n
  | waitForGraphChange n e =>
    obtain ⟨⟨_, halive, _⟩, hs⟩ := Option.ite_none_right_eq_some.mp hs
    by_cases he : e ∈ (s.nodes n).graphEvents
    · rw [if_pos he] at hs
      obtain rfl := Option.some.inj hs
      exact .entered n e halive he
    · rw [if_neg he] at hs
      obtain rfl := Option.some.inj hs
      exact .quiet s (.refl s)
  | decide i =>
    obtain ⟨w, hw, hs⟩ := Option.bind_eq_some_iff.mp hs
    obtain ⟨_, hs⟩ := Option.ite_none_right_eq_some.mp hs
    by_cases hpred : (s.isSet w.event || !s.contextOk) = true
    · rw [if_pos hpred] at hs
      obtain rfl := Option.some.inj hs
      exact .left i
    · rw [if_neg hpred] at hs
      obtain rfl := Option.some.inj hs
      rw [Bool.or_eq_true, not_or, Bool.not_eq_true] at hpred
      exact .decided i w hw hpred.1
  | sleep i =>
    obtain ⟨w, hw, hs⟩ := Option.bind_eq_some_iff.mp hs
    obtain ⟨hphase, rfl⟩ := guarded_eq_some.mp hs
    exact .slept i w hw hphase
  | timeOut i =>
    obtain ⟨w, _, hs⟩ := Option.bind_eq_some_iff.mp hs
    obtain ⟨_, rfl⟩ := guarded_eq_some.mp hs
    exact .left i
  | destroyNode n =>
    obtain ⟨_, rfl⟩ := guarded_eq_some.mp hs
    exact .quiet _ (quiet_destroyNode s n)
  | removedNode n =>
    obtain ⟨_, rfl⟩ := guarded_eq_some.mp hs
    exact .quiet _ ((quiet_removeFrom s n).trans (.of_listener rfl rfl rfl rfl))
  | shutdownContext =>
    obtain rfl := Option.some.inj hs
    exact .quiet _ ((quiet_trigger s .shutdown).trans (.of_listener rfl rfl rfl rfl))
  | shutdown =>
    obtain ⟨_, rfl⟩ := guarded_eq_some.mp hs
    exact .quiet _ (quiet_shutdown s)
  | joined =>
    simp only [step] at hs
    split at hs
    · obtain rfl := Option.some.inj hs
      exact .quiet _ (.of_listener rfl rfl rfl rfl)
    · cases hs
  | beginRound =>
    simp only [step] at hs
    split at hs
    · rename_i hloop
      split at hs
      · obtain rfl := Option.some.inj hs
        exact .quiet _ (quiet_round _ (.inl hloop))
      split at hs
      · cases hs
      · obtain rfl := Option.some.inj hs
        exact .quiet _ (quiet_round _ (.inl hloop))
    · cases hs
  | fillWaitSet =>
    simp only [step] at hs
    split at hs
    · rename_i guardConditions graphGcIndexes hloop
      obtain rfl := Option.some.inj hs
      exact .quiet _ (quiet_round _ (.inr ⟨_, _, _, hloop⟩))
    · rename_i n todo guardConditions graphGcIndexes hloop
      obtain rfl := Option.some.inj hs
      exact .quiet _ (quiet_round _ (.inr ⟨_, _, _, hloop⟩))
    · cases hs
  | wakeUp =>
    simp only [step] at hs
    split at hs
    · rename_i guardConditions graphGcIndexes hloop
      obtain ⟨_, rfl⟩ := guarded_eq_some.mp hs
      exact .woken guardConditions graphGcIndexes hloop
    · cases hs
  | notifyNode =>
    simp only [step] at hs
    split at hs
    · rename_i guardConditions hloop
      obtain rfl := Option.some.inj hs
      refine .quiet _ (.of_loop _ (fun n hn => ?_) fun n hn => ?_)
      · rw [hloop] at hn
        obtain ⟨_, hmem, _⟩ := hn
        cases hmem
      · rw [hloop] at hn
        obtain ⟨_, _, hn⟩ := hn
        cases hn
    · rename_i n i todo guardConditions hloop
      split at hs
      · obtain ⟨hfree, rfl⟩ := guarded_eq_some.mp hs
        exact .told n i todo guardConditions hloop hfree
      · rename_i hnot
        obtain rfl := Option.some.inj hs
        exact .skipped n i todo guardConditions hloop hnot
    · cases hs
  | announce =>
    simp only [step] at hs
    split at hs
    · rename_i n todo guardConditions hloop
      obtain rfl := Option.some.inj hs
      exact .announced n todo guardConditions hloop
    · cases hs

end

/-! ## the invariant -/

structure Heard (s : State) : Prop where
  count : ∀ n, (s.nodes n).graphUsersCount = (s.nodes n).graphEvents.length
  fresh : ∀ n e, e ∈ (s.nodes n).graphEvents → e < s.nextEvent
  owner : ∀ n m e, e ∈ (s.nodes n).graphEvents → e ∈ (s.nodes m).graphEvents → n = m
  due : ∀ e, s.due e = true → e < s.nextEvent
  waiter : ∀ w ∈ s.waiters, w.event ∈ (s.nodes w.node).graphEvents ∧ s.alive w.event = true
  deciding : ∀ w ∈ s.waiters, w.phase = .deciding → s.isSet w.event = false
  asleep : ∀ w ∈ s.waiters, w.phase = .asleep → s.isSet w.event = true → s.loop.Announces w.node
  heard : ∀ n e, e ∈ (s.nodes n).graphEvents → s.due e = true →
    s.isSet e = true ∨ s.triggered (.graph n) = true ∨ s.loop.Tells n

section
variable {s s' : State}

theorem Heard.quiet (hi : Heard s) (h : Quiet s s') : Heard s' := by
  have hevents : ∀ n, (s'.nodes n).graphEvents = (s.nodes n).graphEvents := fun n =>
    (Prod.mk.inj (h.events n)).1
  have hcount : ∀ n, (s'.nodes n).graphUsersCount = (s.nodes n).graphUsersCount := fun n =>
    (Prod.mk.inj (h.events n)).2
  obtain ⟨hnext, hrest⟩ := Prod.mk.inj h.users
  obtain ⟨hset, hrest⟩ := Prod.mk.inj hrest
  obtain ⟨halive, hrest⟩ := Prod.mk.inj hrest
  obtain ⟨hdue, hwaiters⟩ := Prod.mk.inj hrest
  refine ⟨fun n => ?_, fun n e he => ?_, fun n m e hn hm => ?_, fun e he => ?_, fun w hw => ?_,
    fun w hw hphase => ?_, fun w hw hphase he => ?_, fun n e he hd => ?_⟩
  · rw [hevents, hcount]
    exact hi.count n
  · rw [hevents] at he
    exact hnext ▸ hi.fresh n e he
  · rw [hevents] at hn hm
    exact hi.owner n m e hn hm
  · exact hnext ▸ hi.due e (hdue ▸ he)
  · rw [hwaiters] at hw
    rw [hevents, halive]
    exact hi.waiter w hw
  · rw [hset]
    exact hi.deciding w (hwaiters ▸ hw) hphase
  · exact h.announces _ (hi.asleep w (hwaiters ▸ hw) hphase (hset ▸ he))
  · rw [hevents] at he
    rw [hset]
    rcases hi.heard n e he (hdue ▸ hd) with h' | h' | h'
    · exact .inl h'
    · exact .inr (.inl (h.triggered _ h'))
    · exact .inr (.inr (h.tells n h'))

/-- the waiters change, and each of those that are there was there before or may be -/
theorem Heard.of_waiters (hi : Heard s) {waiters : List Waiter}
    (h : ∀ w ∈ waiters, w ∈ s.waiters ∨
      (w.event ∈ (s.nodes w.node).graphEvents ∧ s.alive w.event = true) ∧
        (w.phase = .entering ∨ s.isSet w.event = false)) :
    Heard { s with waiters := waiters } := by
  refine ⟨hi.count, hi.fresh, hi.owner, hi.due, fun w hw => ?_, fun w hw hphase => ?_,
    fun w hw hphase he => ?_, hi.heard⟩
  · rcases h w hw with hold | hnew
    · exact hi.waiter w hold
    · exact hnew.1
  · rcases h w hw with hold | ⟨_, hnew | hnew⟩
    · exact hi.deciding w hold hphase
    · rw [hnew] at hphase
      cases hphase
    · exact hnew
  · rcases h w hw with hold | ⟨_, hnew | hnew⟩
    · exact hi.asleep w hold hphase he
    · rw [hnew] at hphase
      cases hphase
    · have he' : s.isSet w.event = true := he
      rw [hnew] at he'
      cases he'

/-- one waiter goes on to another phase, while its event is not set -/
theorem Heard.of_phase (hi : Heard s) {i : Nat} {w : Waiter} (hw : s.waiters[i]? = some w)
    (hset : s.isSet w.event = false) (phase : WaiterPhase) :
    Heard { s with waiters := s.waiters.set i { w with phase := phase } } := by
  refine hi.of_waiters fun v hv => ?_
  rcases List.mem_or_eq_of_mem_set hv with hold | rfl
  · exact .inl hold
  · exact .inr ⟨hi.waiter w (List.mem_of_getElem? hw), .inr hset⟩

theorem Heard.registered (hi : Heard s) (n : Nat) : Heard (getGraphEvent s n) := by
  have hnodes : ∀ m, (getGraphEvent s n).nodes m = if m = n then { s.nodes m with
      graphEvents := (s.nodes m).graphEvents ++ [s.nextEvent]
      graphUsersCount := (s.nodes m).graphUsersCount + 1
      registered := (s.nodes m).registered + 1 } else s.nodes m := fun m =>
    nodes_modifyNode s n m fun g => { g with
      graphEvents := g.graphEvents ++ [s.nextEvent]
      graphUsersCount := g.graphUsersCount + 1
      registered := g.registered + 1 }
  have hmem : ∀ m e, e ∈ ((getGraphEvent s n).nodes m).graphEvents →
      e ∈ (s.nodes m).graphEvents ∨ e = s.nextEvent ∧ m = n := by
    intro m e he
    rw [hnodes] at he
    by_cases hm : m = n
    · rw [if_pos hm] at he
      exact (List.mem_append.mp he).imp id fun h => ⟨List.mem_singleton.mp h, hm⟩
    · rw [if_neg hm] at he
      exact .inl he
  have hkeep : ∀ m e, e ∈ (s.nodes m).graphEvents →
      e ∈ ((getGraphEvent s n).nodes m).graphEvents := by
    intro m e he
    rw [hnodes]
    split
    · exact List.mem_append_left _ he
    · exact he
  have hold : ∀ m e, e ∈ (s.nodes m).graphEvents → e ≠ s.nextEvent := fun m e he =>
    Nat.ne_of_lt (hi.fresh m e he)
  refine ⟨fun m => ?_, fun m e he => ?_, fun m k e hm hk => ?_, fun e he =>
    Nat.lt_succ_of_lt (hi.due e he), fun w hw => ⟨hkeep _ _ (hi.waiter w hw).1, ?_⟩, hi.deciding,
    hi.asleep, fun m e he hd => ?_⟩
  · rw [hnodes]
    split
    · show _ + 1 = (_ ++ [s.nextEvent]).length
      rw [List.length_append, hi.count m]
      rfl
    · exact hi.count m
  · show e < s.nextEvent + 1
    rcases hmem m e he with he | ⟨rfl, _⟩
    · exact Nat.lt_succ_of_lt (hi.fresh m e he)
    · exact Nat.lt_succ_self _
  · rcases hmem m e hm with hm | ⟨rfl, rfl⟩
    · rcases hmem k e hk with hk | ⟨rfl, _⟩
      · exact hi.owner m k e hm hk
      · exact absurd rfl (hold m _ hm)
    · rcases hmem k _ hk with hk | ⟨_, rfl⟩
      · exact absurd rfl (hold k _ hk)
      · rfl
  · obtain ⟨hevent, halive⟩ := hi.waiter w hw
    exact (Function.update_of_ne (hold _ _ hevent) ..).trans halive
  · rcases hmem m e he with he | ⟨rfl, _⟩
    · exact hi.heard m e he hd
    · -- nothing has changed since the event was made
      exact absurd (hi.due _ hd) (Nat.lt_irrefl _)

theorem graphEvents_setEvents (s : State) (n m : Nat) :
    ((setEvents s n).nodes m).graphEvents =
      if m = n then (s.nodes m).graphEvents.filter s.alive else (s.nodes m).graphEvents := by
  have hnode := nodes_modifyNode s n m fun g =>
    if g.graphEvents.all s.alive then g
    else { g with
      graphEvents := g.graphEvents.filter s.alive
      graphUsersCount := (g.graphEvents.filter s.alive).length }
  refine (congrArg NodeGraph.graphEvents hnode).trans ?_
  split
  · split
    · rename_i hall
      exact (List.filter_eq_self.mpr (List.all_eq_true.mp hall)).symm
    · rfl
  · rfl

theorem graphUsersCount_setEvents (hi : Heard s) (n m : Nat) :
    ((setEvents s n).nodes m).graphUsersCount = ((setEvents s n).nodes m).graphEvents.length := by
  rw [graphEvents_setEvents]
  have hnode := nodes_modifyNode s n m fun g =>
    if g.graphEvents.all s.alive then g
    else { g with
      graphEvents := g.graphEvents.filter s.alive
      graphUsersCount := (g.graphEvents.filter s.alive).length }
  refine (congrArg NodeGraph.graphUsersCount hnode).trans ?_
  split
  · split
    · rename_i hall
      rw [List.filter_eq_self.mpr (List.all_eq_true.mp hall)]
      exact hi.count m
    · rfl
  · exact hi.count m

theorem isSet_setEvents (s : State) (n e : Nat) : (setEvents s n).isSet e = true ↔
    s.isSet e = true ∨ s.alive e = true ∧ e ∈ (s.nodes n).graphEvents := by
  show (s.isSet e || (s.alive e && (s.nodes n).graphEvents.contains e)) = true ↔ _
  rw [Bool.or_eq_true, Bool.and_eq_true, List.contains_iff_mem]

/-- the loop comes to a node whose guard condition was triggered -/
theorem Heard.told (hi : Heard s) {n i : Nat} {todo : List (Nat × Nat)}
    {guardConditions : List (Option GuardCondition)}
    (hloop : s.loop = .notifying ((n, i) :: todo) guardConditions)
    (hfree : s.graphMutexFree n = true) :
    Heard { setEvents s n with loop := .announcing n todo guardConditions } := by
  have hmem : ∀ m e, e ∈ ((setEvents s n).nodes m).graphEvents → e ∈ (s.nodes m).graphEvents := by
    intro m e he
    rw [graphEvents_setEvents] at he
    split at he
    · exact (List.mem_filter.mp he).1
    · exact he
  have hkeep : ∀ m e, s.alive e = true → e ∈ (s.nodes m).graphEvents →
      e ∈ ((setEvents s n).nodes m).graphEvents := by
    intro m e halive he
    rw [graphEvents_setEvents]
    split
    · exact List.mem_filter.mpr ⟨he, halive⟩
    · exact he
  -- a waiter of another node has an event of another node
  have hother : ∀ w ∈ s.waiters, w.node ≠ n → (setEvents s n).isSet w.event = true →
      s.isSet w.event = true := by
    intro w hw hne hset
    rcases (isSet_setEvents s n w.event).mp hset with h | ⟨_, h⟩
    · exact h
    · exact absurd (hi.owner _ _ _ (hi.waiter w hw).1 h) hne
  refine ⟨graphUsersCount_setEvents hi n, fun m e he => hi.fresh m e (hmem m e he),
    fun m k e hm hk => hi.owner m k e (hmem m e hm) (hmem k e hk), hi.due,
    fun w hw => ⟨hkeep _ _ (hi.waiter w hw).2 (hi.waiter w hw).1, (hi.waiter w hw).2⟩,
    fun w hw hphase => ?_, fun w hw hphase hset => ?_, fun m e he hd => ?_⟩
  · -- the mutex is free, so that the waiter is one of another node
    have hne := List.all_eq_true.mp hfree w hw
    rw [hphase] at hne
    have hne' : w.node ≠ n := by simpa using hne
    refine Bool.eq_false_iff.mpr fun hset => ?_
    have hold := hother w hw hne' hset
    rw [hi.deciding w hw hphase] at hold
    cases hold
  · by_cases hne : w.node = n
    · exact ⟨todo, guardConditions, by rw [hne]⟩
    · obtain ⟨_, _, h⟩ := hi.asleep w hw hphase (hother w hw hne hset)
      rw [hloop] at h
      cases h
  · by_cases hm : m = n
    · -- the events that are left are alive, and are set
      rw [graphEvents_setEvents, if_pos hm, List.mem_filter] at he
      exact .inl ((isSet_setEvents s n e).mpr (.inr ⟨he.2, hm ▸ he.1⟩))
    · rcases hi.heard m e (hmem m e he) hd with h | h | h
      · exact .inl ((isSet_setEvents s n e).mpr (.inl h))
      · exact .inr (.inl h)
      · rw [hloop] at h
        obtain ⟨j, hj, hready⟩ := h
        refine .inr (.inr ⟨j, (List.mem_cons.mp hj).resolve_left fun heq => ?_, hready⟩)
        exact hm (Prod.mk.inj heq).1

/-- `rcl_wait` returns: the triggers it takes are those the loop will tell -/
theorem Heard.woken (hi : Heard s) (hl : Listed s) {guardConditions : List GuardCondition}
    {graphGcIndexes : List Nat} (hloop : s.loop = .waiting guardConditions graphGcIndexes) :
    Heard (wakeUp s guardConditions graphGcIndexes) := by
  have hbuilt : Built s.nodeGraphInterfaces guardConditions graphGcIndexes := by
    have h := hl.loop
    rw [hloop] at h
    exact h
  refine ⟨hi.count, hi.fresh, hi.owner, hi.due, hi.waiter, hi.deciding, fun w hw hphase hset => ?_,
    fun n e he hd => ?_⟩
  · obtain ⟨_, _, h⟩ := hi.asleep w hw hphase hset
    rw [hloop] at h
    cases h
  · rcases hi.heard n e he hd with h | h | h
    · exact .inl h
    · by_cases hmem : .graph n ∈ guardConditions
      · obtain ⟨i, hi', hgc⟩ := hbuilt.inSet n hmem
        refine .inr (.inr ⟨i, hi', ?_⟩)
        rw [List.getElem?_map, hgc]
        exact congrArg some (if_pos h)
      · refine .inr (.inl ?_)
        show (s.triggered (.graph n) && !guardConditions.contains (.graph n)) = true
        rw [h, List.contains_eq_mem, decide_eq_false hmem]
        rfl
    · rw [hloop] at h
      exact h.elim

/-- the loop goes past a node whose guard condition was not triggered -/
theorem Heard.skipped (hi : Heard s) {n i : Nat} {todo : List (Nat × Nat)}
    {guardConditions : List (Option GuardCondition)}
    (hloop : s.loop = .notifying ((n, i) :: todo) guardConditions)
    (hnot : guardConditions[i]? ≠ some (some (.graph n))) :
    Heard { s with loop := .notifying todo guardConditions } := by
  refine ⟨hi.count, hi.fresh, hi.owner, hi.due, hi.waiter, hi.deciding, fun w hw hphase hset => ?_,
    fun m e he hd => ?_⟩
  · obtain ⟨_, _, h⟩ := hi.asleep w hw hphase hset
    rw [hloop] at h
    cases h
  · rcases hi.heard m e he hd with h | h | h
    · exact .inl h
    · exact .inr (.inl h)
    · rw [hloop] at h
      obtain ⟨j, hj, hready⟩ := h
      refine .inr (.inr ⟨j, (List.mem_cons.mp hj).resolve_left fun heq => ?_, hready⟩)
      obtain ⟨rfl, rfl⟩ := Prod.mk.inj heq
      exact hnot hready

/-- every waiter after `notify_all` was one before, and a sleeper is one of another node -/
theorem mem_notifyAll {n : Nat} {w : Waiter} (hw : w ∈ (notifyAll s n).waiters) :
    ∃ v ∈ s.waiters, v.node = w.node ∧ v.event = w.event ∧
      (w.phase = .woken ∨ v = w ∧ (w.phase = .asleep → w.node ≠ n)) := by
  obtain ⟨v, hv, rfl⟩ := List.mem_map.mp hw
  refine ⟨v, hv, ?_⟩
  split
  · exact ⟨rfl, rfl, .inl rfl⟩
  · rename_i h
    exact ⟨rfl, rfl, .inr ⟨rfl, fun hphase hnode => h ⟨hnode, hphase⟩⟩⟩

/-- the waiters of a node are woken -/
theorem Heard.notified (hi : Heard s) (n : Nat) {loop : Loop}
    (htells : ∀ m, s.loop.Tells m → loop.Tells m)
    (hannounces : ∀ m, m ≠ n → s.loop.Announces m → loop.Announces m) :
    Heard { notifyAll s n with loop := loop } := by
  refine ⟨hi.count, hi.fresh, hi.owner, hi.due, fun w hw => ?_, fun w hw hphase => ?_,
    fun w hw hphase hset => ?_, fun m e he hd =>
      (hi.heard m e he hd).imp id fun h => h.imp id (htells m)⟩
  · obtain ⟨v, hv, hnode, hevent, _⟩ := mem_notifyAll hw
    have h := hi.waiter v hv
    rwa [hnode, hevent] at h
  · obtain ⟨v, hv, _, _, h | ⟨rfl, _⟩⟩ := mem_notifyAll hw
    · rw [h] at hphase
      cases hphase
    · exact hi.deciding v hv hphase
  · obtain ⟨v, hv, _, _, h | ⟨rfl, hne⟩⟩ := mem_notifyAll hw
    · rw [h] at hphase
      cases hphase
    · exact hannounces _ (hne hphase) (hi.asleep v hv hphase hset)

theorem update_false {f : Nat → Bool} {e k : Nat} (h : Function.update f e false k = true) :
    k ≠ e ∧ f k = true := by
  by_cases hke : k = e
  · rw [hke, Function.update_self] at h
    cases h
  · rw [Function.update_of_ne hke] at h
    exact ⟨hke, h⟩

theorem heard_move (hi : Heard s) (hl : Listed s) (hm : Move s s') : Heard s' := by
  cases hm with
  | quiet _ h => exact hi.quiet h
  | registered n => exact hi.registered n
  | dropped e h =>
    refine ⟨hi.count, hi.fresh, hi.owner, hi.due, fun w hw => ⟨(hi.waiter w hw).1, ?_⟩, hi.deciding,
      hi.asleep, hi.heard⟩
    exact (Function.update_of_ne (h w hw) ..).trans (hi.waiter w hw).2
  | cleared e =>
    refine ⟨hi.count, hi.fresh, hi.owner, fun k hk => hi.due k (update_false hk).2, hi.waiter,
      fun w hw hphase => ?_, fun w hw hphase hset =>
        hi.asleep w hw hphase (update_false hset).2, fun n k hk hd => ?_⟩
    · refine Bool.eq_false_iff.mpr fun hset => ?_
      have hold := (update_false hset).2
      rw [hi.deciding w hw hphase] at hold
      cases hold
    · obtain ⟨hne, hd⟩ := update_false hd
      exact (hi.heard n k hk hd).imp (fun h => (Function.update_of_ne hne ..).trans h) id
  | changed n =>
    have htrigger := (quiet_trigger s (.graph n)).triggered
    refine ⟨hi.count, hi.fresh, hi.owner, fun e he => ?_, hi.waiter, hi.deciding, hi.asleep,
      fun m e he hd => ?_⟩
    · rcases Bool.or_eq_true_iff.mp he with he | he
      · exact hi.due e he
      · exact hi.fresh n e (List.contains_iff_mem.mp he)
    · rcases Bool.or_eq_true_iff.mp hd with hd | hd
      · exact (hi.heard m e he hd).imp id fun h => h.imp (htrigger _) id
      · -- an event of the node that has changed
        rw [hi.owner m n e he (List.contains_iff_mem.mp hd)]
        exact .inr (.inl (Function.update_self ..))
  | entered n e halive he =>
    refine hi.of_waiters fun w hw => ?_
    rcases List.mem_append.mp hw with hw | hw
    · exact .inl hw
    · obtain rfl := List.mem_singleton.mp hw
      exact .inr ⟨⟨he, halive⟩, .inl rfl⟩
  | left i => exact hi.of_waiters fun w hw => .inl (List.mem_of_mem_eraseIdx hw)
  | decided i w hw hset => exact hi.of_phase hw hset _
  | slept i w hw hphase =>
    exact hi.of_phase hw (hi.deciding w (List.mem_of_getElem? hw) hphase) _
  | woken guardConditions graphGcIndexes hloop => exact hi.woken hl hloop
  | told n i todo guardConditions hloop hfree => exact hi.told hloop hfree
  | skipped n i todo guardConditions hloop hnot =>
    have h := hi.skipped hloop hnot
    unfold notifyShutdown
    split
    · exact h.notified n (fun _ ht => ht) fun _ _ ha => ha
    · exact h
  | announced n todo guardConditions hloop =>
    refine hi.notified n (fun m h => ?_) fun m hne h => ?_
    · rw [hloop] at h
      exact h
    · obtain ⟨_, _, h⟩ := h
      rw [hloop] at h
      exact absurd (Loop.announcing.inj h).1.symm hne

theorem heard_init : Heard ({} : State) :=
  ⟨fun _ => rfl, fun _ _ h => (by cases h), fun _ _ _ h => (by cases h), fun _ h => (by cases h),
    fun _ h => (by cases h), fun _ h => (by cases h), fun _ h => (by cases h),
    fun _ _ h => (by cases h)⟩

/-! ## what the users can rely on -/

/-- no guard condition that the loop waits for is triggered -/
def State.Blocked (s : State) : Prop :=
  ∃ guardConditions graphGcIndexes, s.loop = .waiting guardConditions graphGcIndexes ∧
    ∀ gc ∈ guardConditions, s.triggered gc = false

/-- the loop waits for changes of the graph of the node -/
def State.Watches (s : State) (n : Nat) : Prop :=
  ∃ guardConditions graphGcIndexes, s.loop = .waiting guardConditions graphGcIndexes ∧
    .graph n ∈ guardConditions

structure Informed (s : State) : Prop where
  /-- a node that has events has users -/
  counted : ∀ n, (s.nodes n).graphUsersCount = (s.nodes n).graphEvents.length
  /-- after a change an event of the node is set, or the next round sets it, or this one does -/
  kept : ∀ n e, e ∈ (s.nodes n).graphEvents → s.due e = true →
    s.isSet e = true ∨ s.triggered (.graph n) = true ∨ s.loop.Tells n
  /-- when the loop is blocked, every change of the nodes it waits for has been heard, -/
  heard : s.Blocked → ∀ n, s.Watches n → ∀ e ∈ (s.nodes n).graphEvents, s.due e = true →
    s.isSet e = true
  /-- and no thread sleeps on an event that is set -/
  awake : s.Blocked → ∀ w ∈ s.waiters, w.phase = .asleep → s.isSet w.event = false

theorem Heard.informed (hi : Heard s) : Informed s := by
  refine ⟨hi.count, hi.heard, ?_, ?_⟩
  · rintro ⟨guardConditions, graphGcIndexes, hloop, hfree⟩ n ⟨guardConditions', _, hloop', hmem⟩ e he hd
    obtain ⟨rfl, _⟩ := Loop.waiting.inj (hloop.symm.trans hloop')
    rcases hi.heard n e he hd with h | h | h
    · exact h
    · rw [hfree _ hmem] at h
      cases h
    · rw [hloop] at h
      exact h.elim
  · rintro ⟨guardConditions, graphGcIndexes, hloop, _⟩ w hw hphase
    refine Bool.eq_false_iff.mpr fun hset => ?_
    obtain ⟨_, _, h⟩ := hi.asleep w hw hphase hset
    rw [hloop] at h
    cases h

end

/-- **A change is kept** in the guard condition of its node until the loop sets the events, however
the users, the listener and the changes interleave; of the nodes that the loop waits for, it has
heard every change by the time it is blocked. -/
theorem informed_of_reach {s : State} (h : Reach step Free (· = {}) s) : Informed s := by
  have hi : Listed s ∧ Heard s := by
    refine Reach.inv (P := fun s => Listed s ∧ Heard s) ?_ (fun s a s' hi _ hs => ?_) h
    · rintro s rfl
      exact ⟨listed_init, heard_init⟩
    · exact ⟨listed_step hi.1 hs, heard_move hi.2 hi.1 (step_move hs)⟩
  exact hi.2.informed

/-- an event of the node 0, and the first round of the loop, which the interrupt of `add_node`
ends -/
def firstRound : List Action :=
  [.getGraphEvent 0, .exchange 0, .addNode 0, .addedNode 0, .startIfNotStarted 0, .beginRound,
    .fillWaitSet, .fillWaitSet, .wakeUp, .notifyNode, .notifyNode]

/-- the next round, up to `rcl_wait` -/
def nextRound : List Action := [.beginRound, .fillWaitSet, .fillWaitSet]

/-- a thread sleeps, the graph changes, and the loop waits again -/
theorem informed_change : ∃ s, Reach step Free (· = {}) s ∧
    (s.loop = .waiting [.interrupt, .shutdown, .graph 0] [2] ∧ s.isSet 0 = true ∧
      s.waiters.map Waiter.phase = [.woken]) ∧ Informed s := by
  have hrun : ((exec step {} (firstRound ++ [.waitForGraphChange 0 0, .decide 0, .sleep 0] ++
      nextRound ++ [.graphChange 0, .wakeUp, .notifyNode, .announce, .notifyNode] ++
        nextRound)).map fun s => (s.loop, s.isSet 0, s.waiters.map Waiter.phase)) =
      some (.waiting [.interrupt, .shutdown, .graph 0] [2], true, [.woken]) := by decide
  obtain ⟨s, hr, hs⟩ := Reach.of_exec_map (I := fun s => s = {}) rfl _
    (along_free _ _) _ hrun
  obtain ⟨hloop, hset, hphase⟩ := by simpa only [Prod.mk.injEq] using hs
  exact ⟨s, hr, ⟨hloop, hset, hphase⟩, informed_of_reach hr⟩

/-- The loop does not wait for a node whose users were all gone when the round began, and
`get_graph_event` does not interrupt it: a change of the graph is not heard. -/
theorem not_watched_after_last_user : ∃ s, Reach step Free (· = {}) s ∧ s.Blocked ∧
    1 ∈ (s.nodes 0).graphEvents ∧ s.due 1 = true ∧ s.isSet 1 = false := by
  have hrun : ((exec step {} (firstRound ++ nextRound ++ [.dropEvent 0, .graphChange 0, .wakeUp,
      .notifyNode, .announce, .notifyNode] ++ nextRound ++
        [.getGraphEvent 0, .exchange 0, .graphChange 0])).map fun s =>
          (s.loop, (s.triggered .interrupt, s.triggered .shutdown), (s.nodes 0).graphEvents,
            s.due 1, s.isSet 1)) =
      some (.waiting [.interrupt, .shutdown] [0], (false, false), [1], true, false) := by
    decide
  obtain ⟨s, hr, hs⟩ := Reach.of_exec_map (I := fun s => s = {}) rfl _
    (along_free _ _) _ hrun
  simp only [Prod.mk.injEq] at hs
  obtain ⟨hloop, ⟨hinterrupt, hshutdown⟩, hevents, hdue, hset⟩ := hs
  refine ⟨s, hr, ⟨_, _, hloop, fun gc hgc => ?_⟩, hevents ▸ List.mem_singleton.mpr rfl, hdue, hset⟩
  rcases List.mem_cons.mp hgc with rfl | hgc
  · exact hinterrupt
  · exact List.mem_singleton.mp hgc ▸ hshutdown

end PMROS2.Graph
