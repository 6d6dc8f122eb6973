import PMROS2.Graph.Listener

/-!
# The nodes of the listener

The listener keeps plain pointers to its nodes, and a destructor takes the pointer out.

* `Listed`              the invariant: the listener has just the nodes that were added to it;
* `Sound`               no pointer dangles, and no destructor has thrown;
* `NotRefused`          the node that is destroyed was not refused by a listener that is shut down;
* `sound_iff`           the first holds along a run just when its steps meet the second.
-/

namespace PMROS2.Graph
open Runs

/-- the listener has the node -/
def Joining.added : Joining → Bool
  | .mustStart | .inside | .leaving => true
  | _ => false

/-- the thread of the listener does not run -/
def Loop.stopped : Loop → Bool
  | .notStarted | .exited => true
  | _ => false

/-- the wait set, with the index of every node in it -/
structure Built (nodes : List Nat) (guardConditions : List GuardCondition)
    (graphGcIndexes : List Nat) : Prop where
  length : nodes.length = graphGcIndexes.length
  inSet : ∀ n, .graph n ∈ guardConditions →
    ∃ i, (n, i) ∈ nodes.zip graphGcIndexes ∧ guardConditions[i]? = some (.graph n)

/-- the loop works on the nodes of the listener -/
def Loop.Listed (l : Loop) (nodes : List Nat) : Prop :=
  match l with
  | .building todo guardConditions graphGcIndexes =>
    ∃ done, nodes = done ++ todo ∧ Built done guardConditions graphGcIndexes
  | .waiting guardConditions graphGcIndexes => Built nodes guardConditions graphGcIndexes
  | .notifying todo _ => ∀ p ∈ todo, p.1 ∈ nodes
  | .announcing n todo _ => n ∈ nodes ∧ ∀ p ∈ todo, p.1 ∈ nodes
  | _ => True

structure Listed (s : State) : Prop where
  member : ∀ n, n ∈ s.nodeGraphInterfaces ↔ (s.nodes n).joining.added = true
  nodup : s.nodeGraphInterfaces.Nodup
  adding : ∀ n, s.call = some (.add n) → (s.nodes n).joining = .mustAdd
  removing : ∀ n, s.call = some (.remove n) → (s.nodes n).joining = .leaving
  refused : ∀ n, (s.nodes n).joining = .refused → s.isShutdown = true
  joined : s.isShutdown = true → s.call = some .join ∨ s.loop.stopped = true
  loop : s.loop.Listed s.nodeGraphInterfaces

/-! ## the wait set -/

section
variable {done : List Nat} {guardConditions : List GuardCondition} {graphGcIndexes : List Nat}

theorem built_nil : Built [] [.interrupt, .shutdown] [] := by
  refine ⟨rfl, fun n h => ?_⟩
  simp at h

theorem Built.skip (h : Built done guardConditions graphGcIndexes) (n : Nat) :
    Built (done ++ [n]) guardConditions (graphGcIndexes ++ [0]) := by
  refine ⟨by rw [List.length_append, List.length_append, h.length]; rfl, fun m hm => ?_⟩
  obtain ⟨i, hi, hgc⟩ := h.inSet m hm
  rw [List.zip_append h.length]
  exact ⟨i, List.mem_append_left _ hi, hgc⟩

theorem Built.add (h : Built done guardConditions graphGcIndexes) (n : Nat) :
    Built (done ++ [n]) (guardConditions ++ [.graph n])
      (graphGcIndexes ++ [guardConditions.length]) := by
  refine ⟨by rw [List.length_append, List.length_append, h.length]; rfl, fun m hm => ?_⟩
  rw [List.zip_append h.length]
  rcases List.mem_append.mp hm with hm | hm
  · obtain ⟨i, hi, hgc⟩ := h.inSet m hm
    have hlt := (List.getElem?_eq_some_iff.mp hgc).1
    exact ⟨i, List.mem_append_left _ hi, (List.getElem?_append_left hlt).trans hgc⟩
  · obtain rfl := GuardCondition.graph.inj (List.mem_singleton.mp hm)
    exact ⟨guardConditions.length, List.mem_append_right _ (List.mem_singleton.mpr rfl), by simp⟩

end

/-! ## the invariant is kept -/

section
variable {s s' : State}

theorem joining_modifyNode (s : State) (n m : Nat) (f : NodeGraph → NodeGraph) :
    ((s.modifyNode n f).nodes m).joining =
      if m = n then (f (s.nodes m)).joining else (s.nodes m).joining := by
  rw [nodes_modifyNode]
  split <;> rfl

theorem joining_setJoining (s : State) (n m : Nat) (j : Joining) :
    ((s.setJoining n j).nodes m).joining = if m = n then j else (s.nodes m).joining :=
  joining_modifyNode s n m _

theorem joining_getGraphEvent (s : State) (n m : Nat) :
    ((getGraphEvent s n).nodes m).joining = (s.nodes m).joining := by
  refine (joining_modifyNode s n m fun g => { g with
    graphEvents := g.graphEvents ++ [s.nextEvent]
    graphUsersCount := g.graphUsersCount + 1
    registered := g.registered + 1 }).trans ?_
  split <;> rfl

theorem joining_setEvents (s : State) (n m : Nat) :
    ((setEvents s n).nodes m).joining = (s.nodes m).joining := by
  refine (joining_modifyNode s n m fun g =>
    if g.graphEvents.all s.alive then g
    else { g with
      graphEvents := g.graphEvents.filter s.alive
      graphUsersCount := (g.graphEvents.filter s.alive).length }).trans ?_
  split
  · split <;> rfl
  · rfl

theorem Listed.of_loop (hi : Listed s) (hjoining : ∀ n, (s'.nodes n).joining = (s.nodes n).joining)
    (hsame : (s'.nodeGraphInterfaces, s'.call, s'.isShutdown) =
      (s.nodeGraphInterfaces, s.call, s.isShutdown))
    (hstopped : s.loop.stopped = true → s'.loop.stopped = true)
    (hloop : s'.loop.Listed s.nodeGraphInterfaces) : Listed s' := by
  obtain ⟨hlist, hrest⟩ := Prod.mk.inj hsame
  obtain ⟨hcall, hshutdown⟩ := Prod.mk.inj hrest
  refine ⟨fun n => ?_, hlist ▸ hi.nodup, fun n h => ?_, fun n h => ?_, fun n h => ?_, fun h => ?_,
    hlist ▸ hloop⟩
  · rw [hlist, hjoining]
    exact hi.member n
  · rw [hjoining]
    exact hi.adding n (hcall ▸ h)
  · rw [hjoining]
    exact hi.removing n (hcall ▸ h)
  · rw [hshutdown]
    exact hi.refused n (hjoining n ▸ h)
  · rw [hcall]
    exact (hi.joined (hshutdown ▸ h)).imp id hstopped

theorem Listed.frame (hi : Listed s) (hjoining : ∀ n, (s'.nodes n).joining = (s.nodes n).joining)
    (hsame : (s'.nodeGraphInterfaces, s'.call, s'.isShutdown) =
      (s.nodeGraphInterfaces, s.call, s.isShutdown)) (hloop : s'.loop = s.loop) : Listed s' :=
  hi.of_loop hjoining hsame (fun h => hloop ▸ h) (hloop ▸ hi.loop)

theorem Loop.listed_of_free {l : Loop} (h : l.holdsNodes = false) (nodes : List Nat) :
    l.Listed nodes := by
  cases l with
  | building | waiting | notifying | announcing => cases h
  | notStarted | idle | exited => trivial

/-- the node `n` goes on to `j`, and no thread holds `shutdown_mutex_` afterwards -/
theorem Listed.of_joining (hi : Listed s) {n : Nat} {j : Joining}
    (hjoining : ∀ m, (s'.nodes m).joining = if m = n then j else (s.nodes m).joining)
    (hmember : n ∈ s'.nodeGraphInterfaces ↔ j.added = true)
    (hothers : ∀ m, m ≠ n → (m ∈ s'.nodeGraphInterfaces ↔ m ∈ s.nodeGraphInterfaces))
    (hnodup : s'.nodeGraphInterfaces.Nodup) (hcall : s'.call = none)
    (hshutdown : s'.isShutdown = s.isShutdown) (hrefused : j = .refused → s.isShutdown = true)
    (hjoined : s.isShutdown = true → s'.loop.stopped = true)
    (hloop : s'.loop.Listed s'.nodeGraphInterfaces) : Listed s' := by
  refine ⟨fun m => ?_, hnodup, fun m h => ?_, fun m h => ?_, fun m h => ?_, fun h => ?_, hloop⟩
  · rw [hjoining]
    by_cases hm : m = n
    · rw [if_pos hm, hm]
      exact hmember
    · rw [if_neg hm, hothers m hm]
      exact hi.member m
  · rw [hcall] at h
    cases h
  · rw [hcall] at h
    cases h
  · rw [hshutdown]
    rw [hjoining] at h
    by_cases hm : m = n
    · rw [if_pos hm] at h
      exact hrefused h
    · rw [if_neg hm] at h
      exact hi.refused m h
  · exact .inr (hjoined (hshutdown ▸ h))

theorem Listed.stopped_of_free (hi : Listed s) (hcall : s.call = none)
    (h : s.isShutdown = true) : s.loop.stopped = true := by
  rcases hi.joined h with hjoin | hstopped
  · rw [hcall] at hjoin
    cases hjoin
  · exact hstopped

theorem Listed.acquire (hi : Listed s) {c : Call} (hshutdown : s.isShutdown = false)
    (hadding : ∀ n, c = .add n → (s.nodes n).joining = .mustAdd)
    (hremoving : ∀ n, c = .remove n → (s.nodes n).joining = .leaving) :
    Listed (acquireNodesLock s c) := by
  refine ⟨hi.member, hi.nodup, fun n h => hadding n (Option.some.inj h),
    fun n h => hremoving n (Option.some.inj h), hi.refused, fun h => ?_, hi.loop⟩
  rw [show (acquireNodesLock s c).isShutdown = s.isShutdown from rfl, hshutdown] at h
  cases h

/-- `should_add_to_graph_listener_` is not about the list -/
theorem listed_exchange (hi : Listed s) (n : Nat) : Listed (exchange s n) := by
  have hjoining : ∀ m, ((exchange s n).nodes m).joining = (s.nodes m).joining ∨
      (s.nodes m).joining = .outside ∧ ((exchange s n).nodes m).joining = .mustAdd := by
    intro m
    unfold exchange
    rw [joining_modifyNode]
    split
    · by_cases h : (s.nodes m).joining = .outside
      · exact .inr ⟨h, if_pos h⟩
      · exact .inl (if_neg h)
    · exact .inl rfl
  have hkeep : ∀ m j, j ≠ .outside → (s.nodes m).joining = j →
      ((exchange s n).nodes m).joining = j := by
    intro m j hj h
    rcases hjoining m with heq | ⟨houtside, _⟩
    · exact heq.trans h
    · exact absurd (h.symm.trans houtside) hj
  refine ⟨fun m => ?_, hi.nodup, fun m h => hkeep m _ (by decide) (hi.adding m h),
    fun m h => hkeep m _ (by decide) (hi.removing m h), fun m h => ?_, hi.joined, hi.loop⟩
  · show m ∈ s.nodeGraphInterfaces ↔ _
    rw [hi.member]
    rcases hjoining m with heq | ⟨houtside, hmust⟩
    · rw [heq]
    · rw [houtside, hmust]
      decide
  · rcases hjoining m with heq | ⟨_, hmust⟩
    · exact hi.refused m (heq ▸ h)
    · rw [hmust] at h
      cases h

theorem listed_addNode (hi : Listed s) {n : Nat} (hjoining : (s.nodes n).joining = .mustAdd)
    (hcall : s.call = none) : Listed (addNode s n) := by
  unfold addNode
  split
  · rename_i hshutdown
    refine hi.of_joining (joining_setJoining s n · .refused) ?_ (fun _ _ => Iff.rfl) hi.nodup hcall
      rfl (fun _ => hshutdown) (hi.stopped_of_free hcall) hi.loop
    show n ∈ s.nodeGraphInterfaces ↔ _
    rw [hi.member, hjoining]
    rfl
  · rename_i hshutdown
    refine hi.acquire (Bool.eq_false_iff.mpr hshutdown) ?_ ?_
    · rintro m ⟨⟩
      exact hjoining
    · rintro m ⟨⟩

theorem listed_addedNode (hi : Listed s) {n : Nat} (hcall : s.call = some (.add n))
    (hfree : s.loop.holdsNodes = false) : Listed (addedNode s n) := by
  have hjoining := hi.adding n hcall
  have hnot : n ∉ s.nodeGraphInterfaces := by
    rw [hi.member, hjoining]
    decide
  unfold addedNode
  rw [if_neg hnot]
  refine hi.of_joining (joining_setJoining s n · .mustStart) ?_ (fun m hm => ?_) ?_ rfl rfl
    (fun h => by cases h) (fun h => ?_) (Loop.listed_of_free hfree _)
  · exact iff_of_true (List.mem_append_right _ (List.mem_singleton.mpr rfl)) rfl
  · show m ∈ s.nodeGraphInterfaces ++ [n] ↔ _
    rw [List.mem_append, List.mem_singleton, or_iff_left hm]
  · exact List.nodup_append.mpr ⟨hi.nodup, List.nodup_singleton n, fun a ha b hb hab =>
      hnot (List.mem_singleton.mp hb ▸ hab ▸ ha)⟩
  · rcases hi.joined h with hjoin | hstopped
    · rw [hcall] at hjoin
      cases hjoin
    · exact hstopped

theorem listed_startIfNotStarted (hi : Listed s) {n : Nat}
    (hjoining : (s.nodes n).joining = .mustStart) (hcall : s.call = none) :
    Listed (startIfNotStarted s n) := by
  have hmember : n ∈ s.nodeGraphInterfaces := by
    rw [hi.member, hjoining]
    rfl
  refine hi.of_joining (joining_setJoining s n · .inside) (iff_of_true hmember rfl)
    (fun _ _ => Iff.rfl) hi.nodup hcall rfl (fun h => by cases h) (fun h => ?_) ?_
  · have hstopped := hi.stopped_of_free hcall h
    unfold startIfNotStarted
    cases hloop : s.loop with
    | notStarted => simp only [h, if_true]; rfl
    | exited => rfl
    | _ =>
      rw [hloop] at hstopped
      cases hstopped
  · unfold startIfNotStarted
    have hlisted := hi.loop
    cases hloop : s.loop with
    | notStarted =>
      simp only
      split
      · trivial
      · trivial
    | _ =>
      rw [hloop] at hlisted
      exact hlisted

theorem listed_removeFrom (hi : Listed s) (n : Nat)
    (hstopped : s.isShutdown = true → s.loop.stopped = true) (hfree : s.loop.holdsNodes = false) :
    Listed { removeFrom s n with call := none } := by
  unfold removeFrom
  split
  · refine hi.of_joining (joining_setJoining s n · .gone) ?_ (fun m hm => List.mem_erase_of_ne hm)
      (hi.nodup.erase n) rfl rfl (fun h => by cases h) hstopped (Loop.listed_of_free hfree _)
    exact iff_of_false (fun h => ((hi.nodup.mem_erase_iff).mp h).1 rfl) (by decide)
  · rename_i hnot
    exact hi.of_joining (joining_setJoining s n · .gone) (iff_of_false hnot (by decide))
      (fun _ _ => Iff.rfl) hi.nodup rfl rfl (fun h => by cases h) hstopped
      (Loop.listed_of_free hfree _)

theorem crashed_removeFrom (hi : Listed s) (n : Nat) :
    (removeFrom s n).crashed = (s.crashed || !(s.nodes n).joining.added) := by
  unfold removeFrom
  split
  · rename_i h
    rw [(hi.member n).mp h, Bool.not_true, Bool.or_false]
    rfl
  · rename_i h
    rw [hi.member, Bool.not_eq_true] at h
    rw [h, Bool.not_false, Bool.or_true]

theorem Loop.free_of_stopped {l : Loop} (h : l.stopped = true) : l.holdsNodes = false := by
  cases l with
  | notStarted | exited => rfl
  | _ => cases h

theorem listed_destroyNode (hi : Listed s) {n : Nat}
    (hjoining : (s.nodes n).joining ∈ [.outside, .inside, .refused]) (hcall : s.call = none) :
    Listed (destroyNode s n) := by
  unfold destroyNode
  split
  · rename_i houtside
    refine hi.of_joining (joining_setJoining s n · .gone) ?_ (fun _ _ => Iff.rfl) hi.nodup hcall rfl
      (fun h => by cases h) (hi.stopped_of_free hcall) hi.loop
    show n ∈ s.nodeGraphInterfaces ↔ _
    rw [hi.member, houtside]
    rfl
  split
  · rename_i hshutdown
    have hstopped := hi.stopped_of_free hcall hshutdown
    have h := listed_removeFrom hi n (fun _ => hstopped) (Loop.free_of_stopped hstopped)
    have hsame : { removeFrom s n with call := none } = removeFrom s n := by
      unfold removeFrom
      rw [← hcall]
      split <;> rfl
    rwa [hsame] at h
  · rename_i houtside hshutdown
    have hinside : (s.nodes n).joining = .inside := by
      simp only [List.mem_cons, List.not_mem_nil, or_false] at hjoining
      rcases hjoining with h | h | h
      · exact absurd h houtside
      · exact h
      · exact absurd (hi.refused n h) hshutdown
    have hleaving : Listed (s.setJoining n .leaving) := by
      refine hi.of_joining (joining_setJoining s n · .leaving) ?_ (fun _ _ => Iff.rfl) hi.nodup hcall
        rfl (fun h => by cases h) (hi.stopped_of_free hcall) hi.loop
      show n ∈ s.nodeGraphInterfaces ↔ _
      rw [hi.member, hinside]
      rfl
    refine hleaving.acquire (Bool.eq_false_iff.mpr hshutdown) ?_ ?_
    · rintro m ⟨⟩
    · rintro m ⟨⟩
      rw [joining_setJoining, if_pos rfl]

/-- the destructor throws when `add_node` had thrown -/
theorem crashed_destroyNode (hi : Listed s) {n : Nat}
    (hjoining : (s.nodes n).joining ∈ [.outside, .inside, .refused]) :
    (destroyNode s n).crashed = (s.crashed || decide ((s.nodes n).joining = .refused)) := by
  simp only [List.mem_cons, List.not_mem_nil, or_false] at hjoining
  unfold destroyNode
  rcases hjoining with h | h | h
  · rw [if_pos h, h]
    exact (Bool.or_false _).symm
  · rw [if_neg (by rw [h]; decide), h]
    split
    · rw [crashed_removeFrom hi, h]
      rfl
    · exact (Bool.or_false _).symm
  · rw [if_neg (by rw [h]; decide), if_pos (hi.refused n h), crashed_removeFrom hi, h]
    rfl

theorem listed_shutdown (hi : Listed s) : Listed (shutdown s) := by
  unfold shutdown
  split
  · exact hi
  split
  · rename_i hloop
    refine ⟨hi.member, hi.nodup, hi.adding, hi.removing, fun _ _ => rfl, fun _ => .inr ?_, hi.loop⟩
    show s.loop.stopped = true
    rw [hloop]
    rfl
  · exact ⟨hi.member, hi.nodup, fun _ h => (by cases h), fun _ h => (by cases h),
      fun _ _ => rfl, fun _ => .inl rfl, hi.loop⟩

theorem Listed.run (hi : Listed s) {l : Loop} (hstopped : s.loop.stopped = false)
    (hl : l.Listed s.nodeGraphInterfaces) : Listed { s with loop := l } :=
  hi.of_loop (fun _ => rfl) rfl (fun h => by rw [hstopped] at h; cases h) hl

theorem listed_fillWaitSet (hi : Listed s) (hs : step s .fillWaitSet = some s') : Listed s' := by
  have hlisted := hi.loop
  simp only [step] at hs
  split at hs
  · rename_i guardConditions graphGcIndexes hloop
    obtain rfl := Option.some.inj hs
    rw [hloop] at hlisted
    obtain ⟨done, hdone, hbuilt⟩ := hlisted
    rw [List.append_nil] at hdone
    exact hi.run (by rw [hloop]; rfl) (hdone ▸ hbuilt)
  · rename_i n todo guardConditions graphGcIndexes hloop
    obtain rfl := Option.some.inj hs
    rw [hloop] at hlisted
    obtain ⟨done, hdone, hbuilt⟩ := hlisted
    have hdone' : s.nodeGraphInterfaces = done ++ [n] ++ todo := by rw [hdone, List.append_assoc]; rfl
    refine hi.run (by rw [hloop]; rfl) ?_
    unfold addGraphGuardCondition
    split
    · exact ⟨_, hdone', hbuilt.skip n⟩
    · exact ⟨_, hdone', hbuilt.add n⟩
  · cases hs

theorem listed_notifyNode (hi : Listed s) (hs : step s .notifyNode = some s') : Listed s' := by
  have hlisted := hi.loop
  simp only [step] at hs
  split at hs
  · rename_i hloop
    obtain rfl := Option.some.inj hs
    exact hi.run (by rw [hloop]; rfl) trivial
  · rename_i n i todo guardConditions hloop
    rw [hloop] at hlisted
    have hstopped : s.loop.stopped = false := by rw [hloop]; rfl
    have htodo : ∀ p ∈ todo, p.1 ∈ s.nodeGraphInterfaces := fun p hp =>
      hlisted p (List.mem_cons_of_mem _ hp)
    split at hs
    · obtain ⟨_, rfl⟩ := guarded_eq_some.mp hs
      exact hi.of_loop (joining_setEvents s n) rfl (fun h => by rw [hstopped] at h; cases h)
        ⟨hlisted (n, i) List.mem_cons_self, htodo⟩
    · obtain rfl := Option.some.inj hs
      unfold notifyShutdown
      split
      · exact hi.of_loop (fun _ => rfl) rfl (fun h => by rw [hstopped] at h; cases h) htodo
      · exact hi.run hstopped htodo
  · cases hs

theorem listed_step {a : Action} (hi : Listed s) (hs : step s a = some s') : Listed s' := by
  cases a with
  | getGraphEvent n =>
    obtain ⟨_, rfl⟩ := guarded_eq_some.mp hs
    exact hi.frame (joining_getGraphEvent s n) rfl rfl
  | exchange n =>
    obtain ⟨_, rfl⟩ := guarded_eq_some.mp hs
    exact listed_exchange hi n
  | addNode n =>
    obtain ⟨⟨hjoining, hcall⟩, rfl⟩ := guarded_eq_some.mp hs
    exact listed_addNode hi hjoining hcall
  | addedNode n =>
    obtain ⟨⟨hcall, hfree⟩, rfl⟩ := guarded_eq_some.mp hs
    exact listed_addedNode hi hcall hfree
  | startIfNotStarted n =>
    obtain ⟨⟨hjoining, hcall⟩, rfl⟩ := guarded_eq_some.mp hs
    exact listed_startIfNotStarted hi hjoining hcall
  | dropEvent e =>
    obtain ⟨_, rfl⟩ := guarded_eq_some.mp hs
    exact hi.frame (fun _ => rfl) rfl rfl
  | checkAndClear e =>
    obtain ⟨_, rfl⟩ := guarded_eq_some.mp hs
    exact hi.frame (fun _ => rfl) rfl rfl
  | graphChange n =>
    obtain rfl := Option.some.inj hs
    exact hi.frame (fun _ => rfl) rfl rfl
  | waitForGraphChange n e =>
    obtain ⟨_, hs⟩ := Option.ite_none_right_eq_some.mp hs
    split at hs
    · obtain rfl := Option.some.inj hs
      exact hi.frame (fun _ => rfl) rfl rfl
    · obtain rfl := Option.some.inj hs
      exact hi
  | decide i =>
    obtain ⟨w, _, hs⟩ := Option.bind_eq_some_iff.mp hs
    obtain ⟨_, hs⟩ := Option.ite_none_right_eq_some.mp hs
    split at hs
    · obtain rfl := Option.some.inj hs
      exact hi.frame (fun _ => rfl) rfl rfl
    · obtain rfl := Option.some.inj hs
      exact hi.frame (fun _ => rfl) rfl rfl
  | sleep i =>
    obtain ⟨w, _, hs⟩ := Option.bind_eq_some_iff.mp hs
    obtain ⟨_, rfl⟩ := guarded_eq_some.mp hs
    exact hi.frame (fun _ => rfl) rfl rfl
  | timeOut i =>
    obtain ⟨w, _, hs⟩ := Option.bind_eq_some_iff.mp hs
    obtain ⟨_, rfl⟩ := guarded_eq_some.mp hs
    exact hi.frame (fun _ => rfl) rfl rfl
  | destroyNode n =>
    obtain ⟨⟨hjoining, _, hcall, _⟩, rfl⟩ := guarded_eq_some.mp hs
    exact listed_destroyNode hi hjoining hcall
  | removedNode n =>
    obtain ⟨⟨hcall, hfree⟩, rfl⟩ := guarded_eq_some.mp hs
    refine listed_removeFrom hi n (fun h => ?_) hfree
    rcases hi.joined h with hjoin | hstopped
    · rw [hcall] at hjoin
      cases hjoin
    · exact hstopped
  | shutdownContext =>
    obtain rfl := Option.some.inj hs
    exact hi.frame (fun _ => rfl) rfl rfl
  | shutdown =>
    obtain ⟨_, rfl⟩ := guarded_eq_some.mp hs
    exact listed_shutdown hi
  | joined =>
    simp only [step] at hs
    split at hs
    · rename_i hloop
      obtain rfl := Option.some.inj hs
      refine ⟨hi.member, hi.nodup, fun _ h => (by cases h), fun _ h => (by cases h), hi.refused,
        fun _ => .inr ?_, hi.loop⟩
      show s.loop.stopped = true
      rw [hloop]
      rfl
    · cases hs
  | beginRound =>
    simp only [step] at hs
    split at hs
    · rename_i hloop
      have hstopped : s.loop.stopped = false := by rw [hloop]; rfl
      split at hs
      · obtain rfl := Option.some.inj hs
        exact hi.run hstopped trivial
      split at hs
      · cases hs
      · obtain rfl := Option.some.inj hs
        exact hi.run hstopped ⟨[], rfl, built_nil⟩
    · cases hs
  | fillWaitSet => exact listed_fillWaitSet hi hs
  | wakeUp =>
    have hlisted := hi.loop
    simp only [step] at hs
    split at hs
    · rename_i guardConditions graphGcIndexes hloop
      obtain ⟨_, rfl⟩ := guarded_eq_some.mp hs
      refine hi.of_loop (fun _ => rfl) rfl (fun h => by rw [hloop] at h; cases h) ?_
      exact fun p hp => (List.of_mem_zip hp).1
    · cases hs
  | notifyNode => exact listed_notifyNode hi hs
  | announce =>
    have hlisted := hi.loop
    simp only [step] at hs
    split at hs
    · rename_i n todo guardConditions hloop
      obtain rfl := Option.some.inj hs
      rw [hloop] at hlisted
      exact hi.of_loop (fun _ => rfl) rfl (fun h => by rw [hloop] at h; cases h) hlisted.2
    · cases hs

/-! ## the pointers -/

/-- the loop has a pointer to the node, or its guard condition in the wait set -/
def Loop.Uses (l : Loop) (n : Nat) : Prop :=
  match l with
  | .building todo guardConditions _ => n ∈ todo ∨ .graph n ∈ guardConditions
  | .waiting guardConditions _ => .graph n ∈ guardConditions
  | .notifying todo _ => ∃ i, (n, i) ∈ todo
  | .announcing m todo _ => n = m ∨ ∃ i, (n, i) ∈ todo
  | _ => False

/-- the nodes that the listener knows are there, and no destructor has thrown -/
structure Sound (s : State) : Prop where
  pointers : ∀ n, n ∈ s.nodeGraphInterfaces ∨ s.loop.Uses n → (s.nodes n).joining ≠ .gone
  crashed : s.crashed = false

def NotRefused (s : State) (a : Action) : Prop :=
  ∀ n, a = .destroyNode n → (s.nodes n).joining ≠ .refused

theorem Built.mem {nodes : List Nat} {guardConditions : List GuardCondition}
    {graphGcIndexes : List Nat} (h : Built nodes guardConditions graphGcIndexes) {n : Nat}
    (hn : .graph n ∈ guardConditions) : n ∈ nodes := by
  obtain ⟨i, hi, _⟩ := h.inSet n hn
  exact (List.of_mem_zip hi).1

theorem Listed.uses (hi : Listed s) {n : Nat} (hn : s.loop.Uses n) : n ∈ s.nodeGraphInterfaces := by
  have hlisted := hi.loop
  cases hloop : s.loop with
  | building todo guardConditions graphGcIndexes =>
    rw [hloop] at hn hlisted
    obtain ⟨done, hdone, hbuilt⟩ := hlisted
    rw [hdone]
    exact List.mem_append.mpr (hn.symm.imp hbuilt.mem id)
  | waiting guardConditions graphGcIndexes =>
    rw [hloop] at hn hlisted
    exact hlisted.mem hn
  | notifying todo guardConditions =>
    rw [hloop] at hn hlisted
    obtain ⟨i, hmem⟩ := hn
    exact hlisted _ hmem
  | announcing m todo guardConditions =>
    rw [hloop] at hn hlisted
    rcases hn with rfl | ⟨i, hmem⟩
    · exact hlisted.1
    · exact hlisted.2 _ hmem
  | _ =>
    rw [hloop] at hn
    exact hn.elim

theorem Listed.sound (hi : Listed s) (hcrashed : s.crashed = false) : Sound s := by
  refine ⟨fun n hn hgone => ?_, hcrashed⟩
  have hmem : n ∈ s.nodeGraphInterfaces := hn.elim id hi.uses
  rw [hi.member, hgone] at hmem
  cases hmem

theorem crashed_step {a : Action} (hi : Listed s) (hs : step s a = some s')
    (ha : ∀ n, a ≠ .destroyNode n) : s'.crashed = s.crashed := by
  cases a with
  | destroyNode n => exact absurd rfl (ha n)
  | removedNode n =>
    obtain ⟨⟨hcall, _⟩, rfl⟩ := guarded_eq_some.mp hs
    show (removeFrom s n).crashed = _
    rw [crashed_removeFrom hi, hi.removing n hcall]
    exact Bool.or_false _
  | addNode n =>
    obtain ⟨_, rfl⟩ := guarded_eq_some.mp hs
    unfold addNode
    split <;> rfl
  | addedNode n =>
    obtain ⟨_, rfl⟩ := guarded_eq_some.mp hs
    unfold addedNode
    split <;> rfl
  | shutdown =>
    obtain ⟨_, rfl⟩ := guarded_eq_some.mp hs
    unfold shutdown
    split
    · rfl
    split <;> rfl
  | waitForGraphChange n e =>
    obtain ⟨_, hs⟩ := Option.ite_none_right_eq_some.mp hs
    split at hs
    all_goals
      obtain rfl := Option.some.inj hs
      rfl
  | decide i =>
    obtain ⟨w, _, hs⟩ := Option.bind_eq_some_iff.mp hs
    obtain ⟨_, hs⟩ := Option.ite_none_right_eq_some.mp hs
    split at hs
    all_goals
      obtain rfl := Option.some.inj hs
      rfl
  | sleep i | timeOut i =>
    obtain ⟨w, _, hs⟩ := Option.bind_eq_some_iff.mp hs
    obtain ⟨_, rfl⟩ := guarded_eq_some.mp hs
    rfl
  | graphChange | shutdownContext =>
    obtain rfl := Option.some.inj hs
    rfl
  | getGraphEvent | exchange | startIfNotStarted | dropEvent | checkAndClear =>
    obtain ⟨_, rfl⟩ := guarded_eq_some.mp hs
    rfl
  | joined | fillWaitSet | announce =>
    simp only [step] at hs
    split at hs
    all_goals cases hs
    all_goals rfl
  | beginRound =>
    simp only [step] at hs
    split at hs
    · split at hs
      · obtain rfl := Option.some.inj hs
        rfl
      split at hs
      · cases hs
      · obtain rfl := Option.some.inj hs
        rfl
    · cases hs
  | wakeUp =>
    simp only [step] at hs
    split at hs
    · obtain ⟨_, rfl⟩ := guarded_eq_some.mp hs
      rfl
    · cases hs
  | notifyNode =>
    simp only [step] at hs
    split at hs
    · obtain rfl := Option.some.inj hs
      rfl
    · split at hs
      · obtain ⟨_, rfl⟩ := guarded_eq_some.mp hs
        rfl
      · obtain rfl := Option.some.inj hs
        unfold notifyShutdown
        split <;> rfl
    · cases hs

theorem listed_init : Listed ({} : State) :=
  ⟨fun _ => iff_of_false List.not_mem_nil Bool.false_ne_true, List.nodup_nil, fun _ h => (by cases h),
    fun _ h => (by cases h), fun _ h => (by cases h), fun h => (by cases h), trivial⟩

end

/-- **The pointers of the listener.**  Along a run no pointer of the listener dangles and no
destructor throws just when every node that is destroyed was not refused: a node is refused when
its first `get_graph_event` comes after `shutdown`. -/
theorem sound_iff (as : List Action) :
    Always step Sound {} as ↔ Along step (fun s a _ => NotRefused s a) {} as := by
  refine always_iff_along (I := fun s => Listed s ∧ s.crashed = false) (fun s h => h.1.sound h.2)
    ?_ ?_ as _ ⟨listed_init, rfl⟩
  · intro s a s' hi hs ha
    refine ⟨listed_step hi.1 hs, ?_⟩
    by_cases hd : ∃ n, a = .destroyNode n
    · obtain ⟨n, rfl⟩ := hd
      obtain ⟨⟨hjoining, _⟩, rfl⟩ := guarded_eq_some.mp hs
      rw [crashed_destroyNode hi.1 hjoining, hi.2, Bool.false_or]
      exact decide_eq_false (ha n rfl)
    · exact (crashed_step hi.1 hs fun n hn => hd ⟨n, hn⟩).trans hi.2
  · intro s a s' hi hs ha hsound
    obtain ⟨n, hn⟩ := not_forall.mp ha
    obtain ⟨rfl, hrefused⟩ := Classical.not_imp.mp hn
    obtain ⟨⟨hjoining, _⟩, rfl⟩ := guarded_eq_some.mp hs
    have hcrashed := hsound.crashed
    rw [crashed_destroyNode hi.1 hjoining, not_not.mp hrefused, decide_eq_true rfl,
      Bool.or_true] at hcrashed
    cases hcrashed

end PMROS2.Graph
