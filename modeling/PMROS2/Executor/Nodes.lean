import PMROS2.Lib.Runs
import Mathlib

/-!
# The nodes of the executors

`Executor::add_node`, `remove_node`, the clean-up of expired nodes in `wait_for_work` and
`~Executor` (`executor.cpp`), for any executors and nodes.

A node is known by its identity; `weak_nodes_` holds identities, and `lock()` of one gives the
node as long as it is not destroyed.  The flag `associated_with_executor_` lives in the node and
the lists live in the executors, so the state is one `World` of all of them.  The guard
condition of a node is `gc n`; addresses may be used again, so `gc` is any function.

* `Consistent`            the lists are aligned, a node is in one executor at most, and its flag
                          says whether it is in one;
* `consistent_always_iff` it holds throughout a run exactly when every `remove_node` is called on
                          the executor that has the node, or on a node that no executor has.
-/

set_option linter.unusedSectionVars false

namespace PMROS2.Executor.Nodes
open Runs

structure NodeLists (ν γ : Type*) where
  weakNodes : List ν := []
  guardConditions : List γ := []
  /-- `memory_strategy_->guard_conditions_` -/
  strategyGuardConditions : List γ := []

structure World (ε ν γ : Type*) where
  executors : ε → NodeLists ν γ
  /-- `associated_with_executor_` of a node -/
  hasExecutor : ν → Bool
  destroyed : ν → Bool

section
variable {ε ν γ : Type*} [DecidableEq ε] [DecidableEq ν] [DecidableEq γ] (gc : ν → γ)

/-- `AllocatorMemoryStrategy::add_guard_condition` -/
def addGuardCondition (g : γ) (l : List γ) : List γ := if g ∈ l then l else l ++ [g]

/-- `AllocatorMemoryStrategy::remove_guard_condition` -/
def removeGuardCondition (g : γ) (l : List γ) : List γ := l.erase g

/-- the loop with the two iterators: erases the matching nodes and the guard conditions beside
them, and lists the latter -/
def eraseNodes (p : ν → Bool) : List ν → List γ → List ν × List γ × List γ
  | n :: ns, g :: gs =>
    let (ns', gs', erased) := eraseNodes p ns gs
    if p n then (ns', gs', g :: erased) else (n :: ns', g :: gs', erased)
  | ns, gs => (ns, gs, [])

def World.setExecutor (w : World ε ν γ) (e : ε) (x : NodeLists ν γ) : World ε ν γ :=
  { w with executors := Function.update w.executors e x }

/-- `Executor::add_node`; `trigger` is the error text when `rcl_trigger_guard_condition` fails -/
def addNode (w : World ε ν γ) (e : ε) (n : ν) (notify : Bool) (trigger : Option String) :
    Except String Unit × World ε ν γ :=
  if w.hasExecutor n then (.error "Node has already been added to an executor.", w)
  else
    let w := { w with hasExecutor := Function.update w.hasExecutor n true }
    let x := w.executors e
    if x.weakNodes.any fun m => !w.destroyed m && m = n then
      (.error "Cannot add node to executor, node already added.", w)
    else
      let x := { x with weakNodes := x.weakNodes ++ [n]
                        guardConditions := x.guardConditions ++ [gc n] }
      match notify, trigger with
      | true, some what => (.error what, w.setExecutor e x)
      | _, _ =>
        (.ok (), w.setExecutor e
          { x with strategyGuardConditions := addGuardCondition (gc n) x.strategyGuardConditions })

/-- `Executor::remove_node` -/
def removeNode (w : World ε ν γ) (e : ε) (n : ν) (notify : Bool) (trigger : Option String) :
    Except String Unit × World ε ν γ :=
  let x := w.executors e
  let (ns, gs, erased) := eraseNodes (fun m => !w.destroyed m && m = n) x.weakNodes x.guardConditions
  let x := { x with weakNodes := ns, guardConditions := gs }
  -- the flag is cleared whether or not the node was found
  let w := { w with hasExecutor := Function.update w.hasExecutor n false }
  match notify && !erased.isEmpty, trigger with
  | true, some what => (.error what, w.setExecutor e x)
  | _, _ =>
    (.ok (), w.setExecutor e
      { x with strategyGuardConditions := removeGuardCondition (gc n) x.strategyGuardConditions })

/-- the clean-up in `Executor::wait_for_work`; `collect_entities` reports an expired node -/
def cleanUp (w : World ε ν γ) (e : ε) : World ε ν γ :=
  let x := w.executors e
  if x.weakNodes.any w.destroyed then
    let (ns, gs, erased) := eraseNodes w.destroyed x.weakNodes x.guardConditions
    w.setExecutor e
      { weakNodes := ns
        guardConditions := gs
        strategyGuardConditions :=
          erased.foldl (fun l g => removeGuardCondition g l) x.strategyGuardConditions }
  else w

/-- `~Executor`; the identity then stands for a new executor -/
def destroyExecutor (w : World ε ν γ) (e : ε) : World ε ν γ :=
  let x := w.executors e
  { w with
    hasExecutor := x.weakNodes.foldl
      (fun f n => if w.destroyed n then f else Function.update f n false) w.hasExecutor
    executors := Function.update w.executors e
      { strategyGuardConditions :=
          x.guardConditions.foldl (fun l g => removeGuardCondition g l) x.strategyGuardConditions } }

inductive Action (ε ν : Type*) where
  | addNode (e : ε) (n : ν) (notify : Bool) (trigger : Option String)
  | removeNode (e : ε) (n : ν) (notify : Bool) (trigger : Option String)
  | waitForWork (e : ε)
  | destroyExecutor (e : ε)
  | destroyNode (n : ν)

/-- a call needs the node alive (it is passed as a `SharedPtr`); a call that throws leaves the
state it made -/
def step (w : World ε ν γ) : Action ε ν → Option (World ε ν γ)
  | .addNode e n notify trigger =>
    if w.destroyed n then none else some (addNode gc w e n notify trigger).2
  | .removeNode e n notify trigger =>
    if w.destroyed n then none else some (removeNode gc w e n notify trigger).2
  | .waitForWork e => some (cleanUp w e)
  | .destroyExecutor e => some (destroyExecutor w e)
  | .destroyNode n => some { w with destroyed := Function.update w.destroyed n true }

/-- new executors, whose memory strategies hold `guards`, and new nodes -/
def World.init (guards : ε → List γ) : World ε ν γ :=
  { executors := fun e => { strategyGuardConditions := guards e }
    hasExecutor := fun _ => false
    destroyed := fun _ => false }

/-- the lists are aligned, a live node is in one executor at most, and its flag says whether it
is in one -/
structure Consistent (w : World ε ν γ) : Prop where
  aligned : ∀ e, (w.executors e).guardConditions = (w.executors e).weakNodes.map gc
  atMostOne : ∀ n, w.destroyed n = false → ∀ e e', n ∈ (w.executors e).weakNodes →
    n ∈ (w.executors e').weakNodes → e = e'
  flag : ∀ n, w.destroyed n = false →
    (w.hasExecutor n = true ↔ ∃ e, n ∈ (w.executors e).weakNodes)

/-- `remove_node` is called on the executor that has the node, or no executor has it -/
def RemovesOwn (w : World ε ν γ) : Action ε ν → Prop
  | .removeNode e n _ _ =>
    n ∈ (w.executors e).weakNodes ∨ ∀ e', n ∉ (w.executors e').weakNodes
  | _ => True

/-! ## what the operations do to consistent lists -/

variable {gc}

theorem eraseNodes_map (p : ν → Bool) (ns : List ν) :
    eraseNodes p ns (ns.map gc) =
      (ns.filter (!p ·), (ns.filter (!p ·)).map gc, (ns.filter p).map gc) := by
  induction ns with
  | nil => rfl
  | cons n ns ih =>
    rw [List.map_cons, eraseNodes, ih]
    cases hn : p n <;> simp [hn]

theorem addNode_spec (w : World ε ν γ) (e : ε) (n : ν) (notify : Bool) (trigger : Option String)
    (h : Consistent gc w) (hn : w.destroyed n = false) :
    (addNode gc w e n notify trigger).2 = w ∨
    w.hasExecutor n = false ∧ ∃ l, (addNode gc w e n notify trigger).2 =
      { executors := Function.update w.executors e
          ⟨(w.executors e).weakNodes ++ [n], (w.executors e).guardConditions ++ [gc n], l⟩
        hasExecutor := Function.update w.hasExecutor n true
        destroyed := w.destroyed } := by
  unfold addNode
  cases hf : w.hasExecutor n with
  | true => left; rfl
  | false =>
    right
    -- the flag is clear, so the second check finds nothing
    have habsent : (w.executors e).weakNodes.any (fun m => !w.destroyed m && m = n) = false := by
      rw [List.any_eq_false]
      intro m hm hmn
      simp only [Bool.and_eq_true, decide_eq_true_eq] at hmn
      obtain ⟨_, rfl⟩ := hmn
      rw [(h.flag m hn).mpr ⟨e, hm⟩] at hf
      cases hf
    simp only [Bool.false_eq_true, if_false, habsent]
    refine ⟨trivial, ?_⟩
    cases notify with
    | false => exact ⟨_, rfl⟩
    | true => cases trigger <;> exact ⟨_, rfl⟩

theorem removeNode_spec (w : World ε ν γ) (e : ε) (n : ν) (notify : Bool)
    (trigger : Option String) (h : Consistent gc w) (hn : w.destroyed n = false) :
    ∃ l, (removeNode gc w e n notify trigger).2 =
      { executors := Function.update w.executors e
          ⟨(w.executors e).weakNodes.filter (· ≠ n),
            ((w.executors e).weakNodes.filter (· ≠ n)).map gc, l⟩
        hasExecutor := Function.update w.hasExecutor n false
        destroyed := w.destroyed } := by
  have hp : (fun m => !(!w.destroyed m && decide (m = n))) = fun m => decide (m ≠ n) := by
    funext m
    by_cases hm : m = n
    · simp [hm, hn]
    · simp [hm]
  unfold removeNode
  simp only [h.aligned e, eraseNodes_map, hp]
  split
  · exact ⟨_, rfl⟩
  · exact ⟨_, rfl⟩

theorem cleanUp_spec (w : World ε ν γ) (e : ε) (h : Consistent gc w) :
    ∃ l, cleanUp w e = w.setExecutor e
      ⟨(w.executors e).weakNodes.filter (!w.destroyed ·),
        ((w.executors e).weakNodes.filter (!w.destroyed ·)).map gc, l⟩ := by
  unfold cleanUp
  simp only [h.aligned e, eraseNodes_map]
  split
  · exact ⟨_, rfl⟩
  · -- nothing has expired, and the lists stay as they are
    rename_i hany
    have hself : (w.executors e).weakNodes.filter (!w.destroyed ·) = (w.executors e).weakNodes := by
      rw [List.filter_eq_self]
      intro m hm
      rw [Bool.not_eq_true, List.any_eq_false] at hany
      simpa using hany m hm
    refine ⟨(w.executors e).strategyGuardConditions, ?_⟩
    unfold World.setExecutor
    rw [hself, ← h.aligned e, Function.update_eq_self]

theorem foldl_clear (d : ν → Bool) (ns : List ν) (f : ν → Bool) (n : ν) (hn : d n = false) :
    (ns.foldl (fun f m => if d m then f else Function.update f m false) f) n =
      if n ∈ ns then false else f n := by
  induction ns generalizing f with
  | nil => rfl
  | cons m ns ih =>
    rw [List.foldl_cons, ih]
    by_cases hmn : n = m
    · subst hmn
      simp [hn]
    · cases d m <;> simp [hmn]

/-! ## the steps -/

theorem addNode_consistent (w : World ε ν γ) (e : ε) (n : ν) (notify : Bool)
    (trigger : Option String) (h : Consistent gc w) (hn : w.destroyed n = false) :
    Consistent gc (addNode gc w e n notify trigger).2 := by
  rcases addNode_spec w e n notify trigger h hn with hw | ⟨hf, l, hw⟩
  · rw [hw]; exact h
  · rw [hw]
    have hnone : ∀ e', n ∉ (w.executors e').weakNodes := fun e' he' => by
      rw [(h.flag n hn).mpr ⟨e', he'⟩] at hf
      cases hf
    have hmem : ∀ m e', m ∈ (Function.update w.executors e
        ⟨(w.executors e).weakNodes ++ [n], (w.executors e).guardConditions ++ [gc n], l⟩
          e').weakNodes ↔ m ∈ (w.executors e').weakNodes ∨ m = n ∧ e' = e := by
      intro m e'
      by_cases he : e' = e
      · subst he; simp
      · simp [he]
    refine ⟨fun e' => ?_, fun m hm e₁ e₂ h₁ h₂ => ?_, fun m hm => ?_⟩
    · by_cases he : e' = e
      · subst he; simp [h.aligned]
      · simp [he, h.aligned]
    · rcases (hmem m e₁).mp h₁ with h₁' | ⟨hmn, he₁⟩
      · rcases (hmem m e₂).mp h₂ with h₂' | ⟨hmn, _⟩
        · exact h.atMostOne m hm e₁ e₂ h₁' h₂'
        · exact absurd (hmn ▸ h₁') (hnone e₁)
      · rcases (hmem m e₂).mp h₂ with h₂' | ⟨_, he₂⟩
        · exact absurd (hmn ▸ h₂') (hnone e₂)
        · rw [he₁, he₂]
    · simp only [hmem]
      by_cases hmn : m = n
      · subst hmn
        rw [Function.update_self]
        exact ⟨fun _ => ⟨e, .inr ⟨rfl, rfl⟩⟩, fun _ => rfl⟩
      · rw [Function.update_of_ne hmn, h.flag m hm]
        simp [hmn]

theorem mem_removed (w : World ε ν γ) (e e' : ε) (n m : ν) (l : List γ) :
    m ∈ (Function.update w.executors e ⟨(w.executors e).weakNodes.filter (· ≠ n),
      ((w.executors e).weakNodes.filter (· ≠ n)).map gc, l⟩ e').weakNodes ↔
    m ∈ (w.executors e').weakNodes ∧ ¬ (m = n ∧ e' = e) := by
  by_cases he : e' = e
  · subst he; simp
  · simp [he]

theorem removeNode_consistent (w : World ε ν γ) (e : ε) (n : ν) (notify : Bool)
    (trigger : Option String) (h : Consistent gc w) (hn : w.destroyed n = false)
    (hown : n ∈ (w.executors e).weakNodes ∨ ∀ e', n ∉ (w.executors e').weakNodes) :
    Consistent gc (removeNode gc w e n notify trigger).2 := by
  obtain ⟨l, hw⟩ := removeNode_spec w e n notify trigger h hn
  rw [hw]
  have hgone : ∀ e', n ∈ (w.executors e').weakNodes → e' = e := fun e' he' => by
    rcases hown with hown | hown
    · exact h.atMostOne n hn e' e he' hown
    · exact absurd he' (hown e')
  refine ⟨fun e' => ?_, fun m hm e₁ e₂ h₁ h₂ => ?_, fun m hm => ?_⟩
  · by_cases he : e' = e
    · subst he; simp
    · simp [he, h.aligned]
  · exact h.atMostOne m hm e₁ e₂ ((mem_removed w e e₁ n m l).mp h₁).1
      ((mem_removed w e e₂ n m l).mp h₂).1
  · simp only [mem_removed]
    by_cases hmn : m = n
    · subst hmn
      rw [Function.update_self]
      refine ⟨fun hf => absurd hf Bool.false_ne_true, ?_⟩
      rintro ⟨e', he', hne⟩
      exact absurd ⟨rfl, hgone e' he'⟩ hne
    · rw [Function.update_of_ne hmn, h.flag m hm]
      simp [hmn]

theorem removeNode_breaks (w : World ε ν γ) (e : ε) (n : ν) (notify : Bool)
    (trigger : Option String) (h : Consistent gc w) (hn : w.destroyed n = false)
    (hown : ¬ (n ∈ (w.executors e).weakNodes ∨ ∀ e', n ∉ (w.executors e').weakNodes)) :
    ¬ Consistent gc (removeNode gc w e n notify trigger).2 := by
  obtain ⟨l, hw⟩ := removeNode_spec w e n notify trigger h hn
  rw [hw]
  intro hc
  push Not at hown
  obtain ⟨hout, e', he'⟩ := hown
  have hne : e' ≠ e := fun he => hout (he ▸ he')
  have hflag := (hc.flag n hn).mpr ⟨e', (mem_removed w e e' n n l).mpr ⟨he', fun h => hne h.2⟩⟩
  simp only [Function.update_self, Bool.false_eq_true] at hflag

theorem cleanUp_consistent (w : World ε ν γ) (e : ε) (h : Consistent gc w) :
    Consistent gc (cleanUp w e) := by
  obtain ⟨l, hw⟩ := cleanUp_spec w e h
  rw [hw]
  have hmem : ∀ m e', w.destroyed m = false →
      (m ∈ ((w.setExecutor e ⟨(w.executors e).weakNodes.filter (!w.destroyed ·),
        ((w.executors e).weakNodes.filter (!w.destroyed ·)).map gc, l⟩).executors e').weakNodes ↔
      m ∈ (w.executors e').weakNodes) := by
    intro m e' hm
    unfold World.setExecutor
    by_cases he : e' = e
    · subst he; simp [hm]
    · simp [he]
  refine ⟨fun e' => ?_, fun m hm e₁ e₂ h₁ h₂ => ?_, fun m hm => ?_⟩
  · unfold World.setExecutor
    by_cases he : e' = e
    · subst he; simp
    · simp [he, h.aligned]
  · exact h.atMostOne m hm e₁ e₂ ((hmem m e₁ hm).mp h₁) ((hmem m e₂ hm).mp h₂)
  · rw [show (w.setExecutor e _).hasExecutor = w.hasExecutor from rfl, h.flag m hm]
    exact exists_congr fun e' => (hmem m e' hm).symm

theorem destroyExecutor_consistent (w : World ε ν γ) (e : ε) (h : Consistent gc w) :
    Consistent gc (destroyExecutor w e) := by
  have hmem : ∀ m e', m ∈ ((destroyExecutor w e).executors e').weakNodes ↔
      e' ≠ e ∧ m ∈ (w.executors e').weakNodes := by
    intro m e'
    unfold destroyExecutor
    by_cases he : e' = e
    · subst he; simp
    · simp [he]
  refine ⟨fun e' => ?_, fun m hm e₁ e₂ h₁ h₂ => ?_, fun m hm => ?_⟩
  · unfold destroyExecutor
    by_cases he : e' = e
    · subst he; simp
    · simp [he, h.aligned]
  · exact h.atMostOne m hm e₁ e₂ ((hmem m e₁).mp h₁).2 ((hmem m e₂).mp h₂).2
  · rw [show (destroyExecutor w e).hasExecutor m = _ from
      foldl_clear w.destroyed (w.executors e).weakNodes w.hasExecutor m hm]
    simp only [hmem]
    by_cases hme : m ∈ (w.executors e).weakNodes
    · rw [if_pos hme]
      refine ⟨fun hf => absurd hf Bool.false_ne_true, ?_⟩
      rintro ⟨e', hne, he'⟩
      exact absurd (h.atMostOne m hm e' e he' hme) hne
    · rw [if_neg hme, h.flag m hm]
      exact exists_congr fun e' => ⟨fun he' => ⟨fun e => hme (e ▸ he'), he'⟩, fun he' => he'.2⟩

theorem destroyNode_consistent (w : World ε ν γ) (n : ν) (h : Consistent gc w) :
    Consistent gc { w with destroyed := Function.update w.destroyed n true } := by
  have hlive : ∀ m, Function.update w.destroyed n true m = false → w.destroyed m = false := by
    intro m hm
    by_cases hmn : m = n
    · rw [hmn, Function.update_self] at hm; cases hm
    · rwa [Function.update_of_ne hmn] at hm
  exact ⟨h.aligned, fun m hm => h.atMostOne m (hlive m hm), fun m hm => h.flag m (hlive m hm)⟩

theorem step_consistent (w w' : World ε ν γ) (a : Action ε ν) (h : Consistent gc w)
    (hs : step gc w a = some w') (ha : RemovesOwn w a) : Consistent gc w' := by
  cases a with
  | addNode e n notify trigger =>
    obtain ⟨hn, rfl⟩ := by simpa [step] using hs
    exact addNode_consistent w e n notify trigger h hn
  | removeNode e n notify trigger =>
    obtain ⟨hn, rfl⟩ := by simpa [step] using hs
    exact removeNode_consistent w e n notify trigger h hn ha
  | waitForWork e =>
    obtain rfl := Option.some.inj hs
    exact cleanUp_consistent w e h
  | destroyExecutor e =>
    obtain rfl := Option.some.inj hs
    exact destroyExecutor_consistent w e h
  | destroyNode n =>
    obtain rfl := Option.some.inj hs
    exact destroyNode_consistent w n h

theorem step_breaks (w w' : World ε ν γ) (a : Action ε ν) (h : Consistent gc w)
    (hs : step gc w a = some w') (ha : ¬ RemovesOwn w a) : ¬ Consistent gc w' := by
  cases a with
  | removeNode e n notify trigger =>
    obtain ⟨hn, rfl⟩ := by simpa [step] using hs
    exact removeNode_breaks w e n notify trigger h hn ha
  | addNode => exact absurd trivial ha
  | waitForWork => exact absurd trivial ha
  | destroyExecutor => exact absurd trivial ha
  | destroyNode => exact absurd trivial ha

theorem init_consistent (guards : ε → List γ) :
    Consistent gc (World.init guards : World ε ν γ) :=
  { aligned := fun _ => rfl
    atMostOne := fun _ _ _ _ h => absurd h List.not_mem_nil
    flag := fun _ _ => ⟨fun h => absurd h Bool.false_ne_true,
      fun ⟨_, h⟩ => absurd h List.not_mem_nil⟩ }

variable (gc)

/-- **The lists and flags stay consistent throughout a run exactly when every `remove_node` of
the run is called on the executor that has the node, or on a node that no executor has.** -/
theorem consistent_always_iff (guards : ε → List γ) (as : List (Action ε ν)) :
    Always (step gc) (Consistent gc) (World.init guards) as ↔
      Along (step gc) (fun w a _ => RemovesOwn w a) (World.init guards) as :=
  always_iff_along (fun _ h => h) (fun w a w' h hs ha => step_consistent w w' a h hs ha)
    (fun w a w' h hs ha => step_breaks w w' a h hs ha) as _ (init_consistent guards)

end

/-- two executors, one node: removed from the executor that does not have it, the node stays in
the list of the other with its flag cleared -/
theorem removeNode_other_executor :
    ¬ Always (step (id : Unit → Unit)) (Consistent id) (World.init fun _ : Bool => [])
      [.addNode false () true none, .removeNode true () true none] := by
  intro h
  have hc : Consistent id (removeNode id (addNode id (World.init fun _ : Bool => []) false () true
      none).2 true () true none).2 := (h.2 _ rfl).2 _ rfl
  have hflag := (hc.flag () rfl).mpr ⟨false, by decide⟩
  cases hflag

end PMROS2.Executor.Nodes
