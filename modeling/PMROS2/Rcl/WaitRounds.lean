import PMROS2.Rcl.Wait

/-!
# The wait set over many rounds

Runs of the adders, `rcl_wait_set_clear`, `rcl_wait_set_resize` and `rcl_wait` on one wait set.  A
round remembers what was added since the last clear or resize and whether it was waited.

The guard condition of a timer is written to its slot behind those of the guard conditions when the
timer has one; a timer without one leaves the slot as it finds it, and a clear empties only as many
slots as were handed to `rmw_wait`.  So a slot may keep a handle of an earlier round.

* `Shape`                what every operation keeps: the arrays fit together;
* `timerLoop_moves`      the handles of the timers are moved behind the others, inside the array;
* `filled_reach`         the timers stand in the first slots, in every run;
* `wait_set_coherent`    in every run in which no timer without a guard condition finds a handle in
                         its slot, `rmw_wait` is handed what was added in the round.
-/

namespace PMROS2.Rcl
open Runs Slots

/-! ## what fits together -/

/-- the arrays of a wait set -/
structure Shape (w : WaitSet) : Prop where
  rmw : ∀ k, (w.sets k).rmw.length =
    (w.sets k).entities.length + if k = .guardCondition then w.timers.length else 0
  index : ∀ k, (w.sets k).index ≤ (w.sets k).entities.length
  count : ∀ k, (w.sets k).count ≤ (w.sets k).rmw.length
  live : ∀ k, (w.sets k).dangling = false
  timers : w.timerIndex ≤ w.timers.length

section
variable {w w' : WaitSet}

theorem Shape.entities_le (h : Shape w) (k : Kind) :
    (w.sets k).entities.length ≤ (w.sets k).rmw.length := by
  rw [h.rmw]
  exact Nat.le_add_right _ _

theorem Shape.of_lengths (h : Shape w)
    (hsets : ∀ k, (w'.sets k).entities.length = (w.sets k).entities.length ∧
      (w'.sets k).rmw.length = (w.sets k).rmw.length ∧ (w'.sets k).index = (w.sets k).index ∧
      (w'.sets k).count ≤ (w.sets k).rmw.length ∧ (w'.sets k).dangling = (w.sets k).dangling)
    (htimers : w'.timers.length = w.timers.length) (hindex : w'.timerIndex = w.timerIndex) :
    Shape w' where
  rmw := fun k => by rw [(hsets k).1, (hsets k).2.1, htimers, h.rmw]
  index := fun k => by
    rw [(hsets k).1, (hsets k).2.2.1]
    exact h.index k
  count := fun k => by
    rw [(hsets k).2.1]
    exact (hsets k).2.2.2.1
  live := fun k => by
    rw [(hsets k).2.2.2.2]
    exact h.live k
  timers := by
    rw [htimers, hindex]
    exact h.timers

/-- the wait set that a resize makes -/
def sized (sizes : Sizes) : WaitSet where
  sets := fun k =>
    { entities := List.replicate (sizes.entities k) none
      rmw := List.replicate
        (sizes.entities k + if k = .guardCondition then sizes.timers else 0) none }
  timers := List.replicate sizes.timers none

theorem shape_sized (sizes : Sizes) : Shape (sized sizes) where
  rmw := fun k => by
    show (List.replicate _ none).length =
      (List.replicate _ none).length + if _ then (List.replicate _ none).length else 0
    rw [List.length_replicate, List.length_replicate, List.length_replicate]
  index := fun _ => Nat.zero_le _
  count := fun _ => Nat.zero_le _
  live := fun _ => rfl
  timers := Nat.zero_le _

/-- a part of a resize whose allocations succeed -/
theorem resizeSet_eq {sizes : Sizes} {fails : Allocation → Bool} (hfails : ∀ a, fails a = false)
    {k : Kind} (hk : k ≠ .guardCondition) (hlive : (w.sets k).dangling = false)
    (hcount : (w.sets k).count ≤ (w.sets k).rmw.length) :
    WaitSet.resizeSet sizes fails k w = some (true, w.update k ((sized sizes).sets k)) := by
  unfold WaitSet.resizeSet sized
  simp only [hlive, Bool.false_eq_true, if_false, hfails, if_neg hk, Nat.add_zero]
  split
  · next hzero =>
    have hnone : (if (w.sets k).rmw = [] then (w.sets k).count else 0) = 0 := by
      split
      · next hnil =>
        rw [hnil] at hcount
        exact Nat.le_zero.mp hcount
      · rfl
    rw [hnone, hzero]
    rfl
  · rfl

theorem resizeParts_cons {f : WaitSet → Option (Bool × WaitSet)} (hf : f w = some (true, w'))
    (fs : List (WaitSet → Option (Bool × WaitSet))) :
    resizeParts (f :: fs) w = resizeParts fs w' := by
  rw [resizeParts, hf]
  rfl

theorem resizeGuardConditions_eq {sizes : Sizes} {fails : Allocation → Bool}
    (hfails : ∀ a, fails a = false) :
    WaitSet.resizeGuardConditions sizes fails w = some (true, w.update .guardCondition
      { w.sets .guardCondition with
        entities := List.replicate (sizes.entities .guardCondition) none, index := 0 }) := by
  unfold WaitSet.resizeGuardConditions
  rw [hfails, Bool.and_false]
  rfl

theorem resizeRmwGuardConditions_eq {sizes : Sizes} {fails : Allocation → Bool}
    (hfails : ∀ a, fails a = false) :
    WaitSet.resizeRmwGuardConditions sizes fails w = some (true, w.update .guardCondition
      { w.sets .guardCondition with
        rmw := List.replicate (sizes.entities .guardCondition + sizes.timers) none
        count := 0 }) := by
  unfold WaitSet.resizeRmwGuardConditions
  simp only [hfails, Bool.and_false, Bool.false_eq_true, if_false]

theorem resizeTimers_eq {sizes : Sizes} {fails : Allocation → Bool}
    (hfails : ∀ a, fails a = false) :
    WaitSet.resizeTimers sizes fails w =
      some (true, { w with timers := List.replicate sizes.timers none, timerIndex := 0 }) := by
  unfold WaitSet.resizeTimers
  rw [hfails, Bool.and_false]
  rfl

/-- a resize whose allocations succeed -/
theorem resize_eq (h : Shape w) (sizes : Sizes) {fails : Allocation → Bool}
    (hfails : ∀ a, fails a = false) :
    WaitSet.resize sizes fails w = some (.ok (), sized sizes) := by
  have hset : ∀ {w' : WaitSet} {k : Kind}, k ≠ .guardCondition → w'.sets k = w.sets k →
      WaitSet.resizeSet sizes fails k w' = some (true, w'.update k ((sized sizes).sets k)) := by
    intro w' k hk hsame
    apply resizeSet_eq hfails hk
    · rw [hsame]
      exact h.live k
    · rw [hsame]
      exact h.count k
  have hparts : resizeParts
      [WaitSet.resizeSet sizes fails .subscription, WaitSet.resizeGuardConditions sizes fails,
        WaitSet.resizeRmwGuardConditions sizes fails, WaitSet.resizeTimers sizes fails,
        WaitSet.resizeSet sizes fails .client, WaitSet.resizeSet sizes fails .service,
        WaitSet.resizeSet sizes fails .event] w = some (true, sized sizes) := by
    refine Eq.trans (resizeParts_cons (hset (by decide) ?_) _) ?_
    · rfl
    refine Eq.trans (resizeParts_cons (resizeGuardConditions_eq hfails) _) ?_
    refine Eq.trans (resizeParts_cons (resizeRmwGuardConditions_eq hfails) _) ?_
    refine Eq.trans (resizeParts_cons (resizeTimers_eq hfails) _) ?_
    refine Eq.trans (resizeParts_cons (hset (by decide) ?_) _) ?_
    · rfl
    refine Eq.trans (resizeParts_cons (hset (by decide) ?_) _) ?_
    · rfl
    refine Eq.trans (resizeParts_cons (hset (by decide) ?_) _) ?_
    · rfl
    refine congrArg (fun sets => some (true, WaitSet.mk sets _ 0)) (funext fun k => ?_)
    cases k with
    | subscription => rfl
    | guardCondition =>
      show EntitySet.mk _ _ _ _ (w.sets .guardCondition).dangling = _
      rw [h.live]
      rfl
    | client => rfl
    | service => rfl
    | event => rfl
  unfold WaitSet.resize
  rw [hparts]
  rfl

theorem clear_eq (h : Shape w) :
    w.clear = some
      { sets := fun k => (w.sets k).clear
        timers := w.timers.map fun _ => none
        timerIndex := 0 } := by
  unfold WaitSet.clear
  rw [if_pos]
  · have hindex : (if w.timers = [] then w.timerIndex else 0) = 0 := by
      split
      · next hnil =>
        have := h.timers
        rw [hnil] at this
        exact Nat.le_zero.mp this
      · rfl
    rw [hindex]
  · rw [List.all_eq_true]
    intro k _
    rw [decide_eq_true (h.count k), Bool.or_true]

end

/-! ## the handles that are handed over -/

/-- the `rmw` handles of entities -/
def handles (k : Kind) (es : List Entity) : List Nat :=
  es.filterMap fun e => e.rmwHandle.map (stored k)

/-- the `rmw` handle of the guard condition of a timer -/
def guardHandle (t : TimerHandle) : Option Nat :=
  t.guardCondition.bind fun g => g.rmwHandle.map RmwHandle.data

def timerHandles (readings : TimerReadings) (i : Nat) (ts : List TimerHandle) : List Nat :=
  (ts.zipIdx i).filterMap fun t => if readings.canceled t.2 then none else guardHandle t.1

theorem timerHandles_cons_canceled {readings : TimerReadings} {i : Nat}
    (h : readings.canceled i = true) (t : TimerHandle) (ts : List TimerHandle) :
    timerHandles readings i (t :: ts) = timerHandles readings (i + 1) ts := by
  unfold timerHandles
  rw [List.zipIdx_cons, List.filterMap_cons_none (by rw [h, if_pos rfl])]

theorem timerHandles_cons {readings : TimerReadings} {i : Nat}
    (h : readings.canceled i = false) (t : TimerHandle) (ts : List TimerHandle) :
    timerHandles readings i (t :: ts) =
      (guardHandle t).toList ++ timerHandles readings (i + 1) ts := by
  unfold timerHandles
  rw [List.zipIdx_cons]
  cases hg : guardHandle t with
  | none =>
    rw [List.filterMap_cons_none (by rw [h, if_neg Bool.false_ne_true]; exact hg)]
    rfl
  | some handle =>
    rw [List.filterMap_cons_some (by rw [h, if_neg Bool.false_ne_true]; exact hg)]
    rfl

section
variable {readings : TimerReadings} {size cap : Nat}

theorem move_spec {l : TimerLoop} {xs : List Nat} (hold : Holds cap l.guardConditions l.count xs)
    (hroom : l.count < cap) (slot : Option Nat) :
    ∃ l', l.move slot = some l' ∧ Holds cap l'.guardConditions l'.count (xs ++ slot.toList) ∧
      l'.count ≤ l.count + 1 ∧ ∀ j, l.count < j → l'.guardConditions[j]? = l.guardConditions[j]? := by
  cases slot with
  | none =>
    refine ⟨l, rfl, ?_, Nat.le_succ _, fun _ _ => rfl⟩
    rw [Option.toList_none, List.append_nil]
    exact hold
  | some handle =>
    obtain ⟨slots, hwrite, hpush⟩ := hold.push hroom handle
    rw [TimerLoop.move, hwrite]
    refine ⟨_, rfl, hpush, Nat.le_refl _, fun j hj => ?_⟩
    obtain ⟨-, rfl⟩ := guarded_eq_some.mp hwrite
    exact List.getElem?_set_ne (Nat.ne_of_lt hj)

theorem TimerLoop.use_guardConditions (l : TimerLoop) (t : Int) :
    (l.use t).guardConditions = l.guardConditions ∧ (l.use t).count = l.count := by
  unfold TimerLoop.use
  split
  · exact ⟨rfl, rfl⟩
  · exact ⟨rfl, rfl⟩

/-- **The handles of the timers** are moved behind those that are there, inside the array. -/
theorem timerLoop_moves (hdefined : ∀ i, (readings.untilNextCall i).isSome = true)
    (rest : List TimerHandle) : ∀ (i : Nat) (l : TimerLoop) (xs : List Nat),
    (∀ j t, rest[j]? = some t → l.timers[i + j]? = some (some t)) →
    (∀ j t, rest[j]? = some t → l.guardConditions[size + (i + j)]? = some (guardHandle t)) →
    Holds cap l.guardConditions l.count xs → l.count ≤ size + i →
    ∃ failure l', timerLoop readings size (List.range' i rest.length) l = some (failure, l') ∧
      l'.timers.length = l.timers.length ∧ l'.guardConditions.length = cap ∧ l'.count ≤ cap ∧
      (failure = none →
        Holds cap l'.guardConditions l'.count (xs ++ timerHandles readings i rest)) := by
  induction rest with
  | nil =>
    intro i l xs _ _ hold _
    refine ⟨none, l, rfl, rfl, hold.length, hold.le, fun _ => ?_⟩
    show Holds cap l.guardConditions l.count (xs ++ [])
    rw [List.append_nil]
    exact hold
  | cons t rest ih =>
    intro i l xs htimers hslots hold hcount
    have htimer := htimers 0 t rfl
    have hslot := hslots 0 t rfl
    rw [Nat.add_zero] at htimer hslot
    have htimers' : ∀ j t', rest[j]? = some t' → l.timers[i + 1 + j]? = some (some t') := by
      intro j t' ht'
      rw [Nat.add_assoc, Nat.add_comm 1 j]
      exact htimers (j + 1) t' ht'
    have hslots' : ∀ j t', rest[j]? = some t' →
        l.guardConditions[size + (i + 1 + j)]? = some (guardHandle t') := by
      intro j t' ht'
      rw [Nat.add_assoc i 1 j, Nat.add_comm 1 j]
      exact hslots (j + 1) t' ht'
    rw [List.length_cons, List.range'_succ, timerLoop]
    simp only [htimer]
    by_cases hc : readings.canceled i = true
    · rw [if_pos hc, timerHandles_cons_canceled hc]
      have hothers : ∀ j t', rest[j]? = some t' →
          (l.timers.set i none)[i + 1 + j]? = some (some t') := by
        intro j t' ht'
        rw [List.getElem?_set_ne (by omega)]
        exact htimers' j t' ht'
      have hnext : l.count ≤ size + (i + 1) := by omega
      obtain ⟨failure, l', hloop, hlen, hrest⟩ := ih (i + 1) { l with timers := l.timers.set i none }
        xs hothers hslots' hold hnext
      exact ⟨failure, l', hloop, hlen.trans List.length_set, hrest⟩
    · rw [if_neg hc, timerHandles_cons (Bool.eq_false_of_not_eq_true hc), hslot]
      -- the slot of the timer is behind those that are taken
      have hroom : l.count < cap := by
        obtain ⟨hlt, -⟩ := List.getElem?_eq_some_iff.mp hslot
        rw [hold.length] at hlt
        omega
      obtain ⟨l₁, hmove, hold₁, hcount₁, hkept⟩ := move_spec hold hroom (guardHandle t)
      obtain ⟨until', huntil⟩ := Option.isSome_iff_exists.mp (hdefined i)
      have htimers₁ := (TimerLoop.move_eq_some hmove).1
      simp only [Option.bind_eq_bind, Option.bind_some, hmove, huntil]
      cases until' with
      | error e =>
        refine ⟨some e, l₁, rfl, ?_, hold₁.length, hold₁.le, fun hnone => (by cases hnone)⟩
        rw [htimers₁]
      | ok time =>
        obtain ⟨hgcs, hcnt⟩ := l₁.use_guardConditions time
        have hused : (l₁.use time).timers = l.timers := by
          rw [TimerLoop.use_timers, htimers₁]
        have hbehind : ∀ j t', rest[j]? = some t' →
            (l₁.use time).guardConditions[size + (i + 1 + j)]? = some (guardHandle t') := by
          intro j t' ht'
          rw [hgcs, hkept _ (by omega)]
          exact hslots' j t' ht'
        have hold₂ : Holds cap (l₁.use time).guardConditions (l₁.use time).count
            (xs ++ (guardHandle t).toList) := by
          rw [hgcs, hcnt]
          exact hold₁
        have hnext : (l₁.use time).count ≤ size + (i + 1) := by
          rw [hcnt]
          omega
        obtain ⟨failure, l', hloop, hlen, hrest⟩ := ih (i + 1) (l₁.use time)
          (xs ++ (guardHandle t).toList) (by rw [hused]; exact htimers') hbehind hold₂ hnext
        refine ⟨failure, l', hloop, ?_, ?_⟩
        · rw [hlen, hused]
        · rw [← List.append_assoc]
          exact hrest

/-- the second loop has a result -/
theorem readyLoop_defined (hdefined : ∀ i, (readings.ready i).isSome = true) (is : List Nat) :
    ∀ timers : List (Option TimerHandle), (∀ i ∈ is, i < timers.length) →
      ∃ failure timers', readyLoop readings is timers = some (failure, timers') ∧
        timers'.length = timers.length := by
  induction is with
  | nil => exact fun timers _ => ⟨none, timers, rfl, rfl⟩
  | cons i is ih =>
    intro timers hrange
    have hrange' : ∀ j ∈ is, j < timers.length := fun j hj => hrange j (List.mem_cons_of_mem i hj)
    obtain ⟨slot, hslot⟩ : ∃ slot, timers[i]? = some slot :=
      ⟨_, List.getElem?_eq_getElem (hrange i List.mem_cons_self)⟩
    rw [readyLoop, hslot]
    cases slot with
    | none => exact ih timers hrange'
    | some t =>
      obtain ⟨ready, hready⟩ := Option.isSome_iff_exists.mp (hdefined i)
      simp only [Option.bind_eq_bind, hready, Option.bind_some]
      cases ready with
      | error e => exact ⟨some e, timers, rfl, rfl⟩
      | ok isReady =>
        cases isReady with
        | true => exact ih timers hrange'
        | false =>
          obtain ⟨failure, timers', hloop, hlen⟩ := ih (timers.set i none) (by
            intro j hj
            rw [List.length_set]
            exact hrange' j hj)
          exact ⟨failure, timers', hloop, hlen.trans List.length_set⟩

end

/-! ## rounds -/

/-- a wait set, what was added to it since the last clear or resize, and whether it was waited -/
structure Round where
  waitSet : WaitSet
  added : Kind → List Entity := fun _ => []
  timers : List TimerHandle := []
  waited : Bool := false

inductive WaitAction where
  | add (a : Add)
  | clear
  | resize (sizes : Sizes) (fails : Allocation → Bool)
  | wait (timeout : Int) (readings : TimerReadings) (rmw : RmwWait)

/-- an adder has succeeded -/
def Round.record (s : Round) : Add → Round
  | .entity k (some e) _ => { s with added := Function.update s.added k (s.added k ++ [e]) }
  | .timer (some t) _ => { s with timers := s.timers ++ [t] }
  | _ => s

def roundStep (s : Round) : WaitAction → Option Round
  | .add a =>
    match s.waitSet.call a with
    | none => none
    | some (.ok _, w, _) => some { s.record a with waitSet := w }
    | some (.error _, w, _) => some { s with waitSet := w }
  | .clear => s.waitSet.clear.map fun w => { waitSet := w }
  | .resize sizes fails => (s.waitSet.resize sizes fails).map fun r => { waitSet := r.2 }
  | .wait timeout readings rmw =>
    (rclWait s.waitSet timeout readings rmw).map fun r =>
      { s with waitSet := r.waitSet, waited := true }

def SlotEmpty (w : WaitSet) : Add → Prop
  | .entity _ _ _ => True
  | .timer timer _ => ∀ t, timer = some t → t.guardCondition = none →
    w.timerIndex < w.timers.length →
      (w.sets .guardCondition).rmw[(w.sets .guardCondition).entities.length + w.timerIndex]? =
        some none

/-- entities are added before the wait, with an `rmw` handle, and a timer without a guard condition
to an empty slot; the wait is followed by a clear or a resize; allocations succeed and the times of
the timers do not overflow -/
def Orderly (s : Round) : WaitAction → Prop
  | .add a => s.waited = false ∧ Obtainable s.waitSet a ∧ SlotEmpty s.waitSet a
  | .clear => True
  | .resize _ fails => ∀ a, fails a = false
  | .wait _ readings _ => s.waited = false ∧
    ∀ i, (readings.untilNextCall i).isSome = true ∧ (readings.ready i).isSome = true

/-- what `rmw_wait` is handed: the handles of what was added in the round, and behind those of the
guard conditions the ones of the timers that are not canceled -/
def HandsOver (s : Round) : WaitAction → Round → Prop
  | .wait timeout readings rmw, _ => ∀ r handed,
    rclWait s.waitSet timeout readings rmw = some r → r.handed = some handed →
      ∀ k, handed.arrays k = (handles k (s.added k) ++
        if k = .guardCondition then timerHandles readings 0 s.timers else []).map some
  | _, _ => True

/-- the arrays hold what was added in the round -/
structure Filling (s : Round) : Prop where
  index : ∀ k, (s.waitSet.sets k).index = (s.waitSet.sets k).count
  handles : ∀ k, Holds (s.waitSet.sets k).rmw.length (s.waitSet.sets k).rmw
    (s.waitSet.sets k).count (handles k (s.added k))
  timers : Holds s.waitSet.timers.length s.waitSet.timers s.waitSet.timerIndex s.timers
  slots : ∀ j t, s.timers[j]? = some t →
    (s.waitSet.sets .guardCondition).rmw[(s.waitSet.sets .guardCondition).entities.length + j]? =
      some (guardHandle t)

/-- the arrays fit together, and before the wait they hold what was added -/
structure Coherent (s : Round) : Prop where
  shape : Shape s.waitSet
  filling : s.waited = false → Filling s

/-! ## clearing and resizing -/

section
variable {w : WaitSet} {s : Round}

/-- a wait set with nothing in it -/
theorem coherent_of_cleared (h : Shape w) (hw : Cleared w) (ht : w.timerIndex = 0) :
    Coherent { waitSet := w } where
  shape := h
  filling := fun _ =>
    { index := fun k => by
        obtain ⟨hindex, hcount⟩ := hw k
        exact hindex.trans hcount.symm
      handles := fun k => by
        show Holds _ (w.sets k).rmw (w.sets k).count []
        rw [(hw k).2]
        exact ⟨rfl, rfl, rfl⟩
      timers := by
        show Holds _ w.timers w.timerIndex []
        rw [ht]
        exact ⟨rfl, rfl, rfl⟩
      slots := fun j t hj => by cases hj }

theorem coherent_sized (sizes : Sizes) : Coherent { waitSet := sized sizes } :=
  coherent_of_cleared (shape_sized sizes) (fun _ => ⟨rfl, rfl⟩) rfl

/-- the arrays of a kind after a clear -/
theorem EntitySet.clear_spec {s : EntitySet} (hindex : s.index ≤ s.entities.length)
    (hcount : s.count ≤ s.rmw.length) :
    s.clear.entities.length = s.entities.length ∧ s.clear.rmw.length = s.rmw.length ∧
      s.clear.index = 0 ∧ s.clear.count = 0 ∧ s.clear.dangling = s.dangling := by
  have hentities : ∀ s' : EntitySet, s' = (if s.entities = [] && !s.dangling then s
      else { s with entities := s.entities.map fun _ => none, index := 0 }) →
      s'.entities.length = s.entities.length ∧ s'.index = 0 ∧ s'.rmw = s.rmw ∧
        s'.count = s.count ∧ s'.dangling = s.dangling := by
    intro s' hs'
    split at hs'
    · next hnil =>
      obtain ⟨hnil, -⟩ := Bool.and_eq_true_iff.mp hnil
      rw [of_decide_eq_true hnil] at hindex
      subst hs'
      exact ⟨rfl, Nat.le_zero.mp hindex, rfl, rfl, rfl⟩
    · subst hs'
      exact ⟨List.length_map _, rfl, rfl, rfl, rfl⟩
  obtain ⟨hlen, hzero, hrmw, hcnt, hdang⟩ := hentities _ rfl
  unfold EntitySet.clear
  simp only [hrmw, hcnt]
  split
  · next hnil =>
    rw [hnil] at hcount
    exact ⟨hlen, by rw [hrmw], hzero, hcnt.trans (Nat.le_zero.mp hcount), hdang⟩
  · refine ⟨hlen, ?_, hzero, rfl, hdang⟩
    rw [List.length_append, List.length_replicate, List.length_drop]
    omega

theorem coherent_clear (h : Shape w) : ∃ w', w.clear = some w' ∧ Coherent { waitSet := w' } := by
  have hspec := fun k => EntitySet.clear_spec (h.index k) (h.count k)
  refine ⟨_, clear_eq h, coherent_of_cleared ⟨fun k => ?_, fun k => ?_, fun k => ?_, fun k => ?_,
    Nat.zero_le _⟩ (fun k => ⟨(hspec k).2.2.1, (hspec k).2.2.2.1⟩) rfl⟩
  · show (w.sets k).clear.rmw.length = (w.sets k).clear.entities.length +
      if k = .guardCondition then (w.timers.map fun _ => none).length else 0
    rw [(hspec k).1, (hspec k).2.1, List.length_map, h.rmw]
  · show (w.sets k).clear.index ≤ _
    rw [(hspec k).2.2.1]
    exact Nat.zero_le _
  · show (w.sets k).clear.count ≤ _
    rw [(hspec k).2.2.2.1]
    exact Nat.zero_le _
  · show (w.sets k).clear.dangling = false
    rw [(hspec k).2.2.2.2]
    exact h.live k

/-! ## adding -/

/-- an adder never writes behind an array -/
theorem exists_call (h : Shape w) (a : Add) : ∃ r, w.call a = some r := by
  cases a with
  | entity k entity index =>
    show ∃ r, w.addEntity k entity index = some r
    rw [addEntity_eq]
    unfold WaitSet.add
    cases entity with
    | none => exact ⟨_, rfl⟩
    | some e =>
      by_cases hroom : (w.sets k).index < (w.sets k).entities.length
      · simp only [hroom, not_true_eq_false, if_false]
        cases e.rmwHandle with
        | none => exact ⟨_, rfl⟩
        | some hd =>
          have hlt := Nat.lt_of_lt_of_le hroom (h.entities_le k)
          simp only [write, if_pos hlt]
          exact ⟨_, rfl⟩
      · simp only [hroom, not_false_eq_true, if_true]
        exact ⟨_, rfl⟩
  | timer timer index =>
    show ∃ r, w.addTimer timer index = some r
    unfold WaitSet.addTimer
    cases timer with
    | none => exact ⟨_, rfl⟩
    | some t =>
      by_cases hroom : w.timerIndex < w.timers.length
      · simp only [hroom, not_true_eq_false, if_false]
        cases t.guardCondition with
        | none => exact ⟨_, rfl⟩
        | some g =>
          simp only
          cases g.rmwHandle with
          | none => exact ⟨_, rfl⟩
          | some hd =>
            have hlt : (w.sets .guardCondition).entities.length + (w.timerIndex + 1 - 1) <
                (w.sets .guardCondition).rmw.length := by
              rw [h.rmw, if_pos rfl]
              omega
            simp only [write]
            rw [if_pos hlt]
            exact ⟨_, rfl⟩
      · simp only [hroom, not_false_eq_true, if_true]
        exact ⟨_, rfl⟩

theorem handles_append (k : Kind) (es : List Entity) {e : Entity} {hd : RmwHandle}
    (h : e.rmwHandle = some hd) : handles k (es ++ [e]) = handles k es ++ [stored k hd] := by
  unfold handles
  rw [List.filterMap_append]
  congr 1
  exact List.filterMap_cons_some (by rw [h]; rfl)

/-- the arrays of a kind are exchanged for others of the same length -/
theorem Shape.update (h : Shape w) {k : Kind} {s : EntitySet}
    (hent : s.entities.length = (w.sets k).entities.length)
    (hrmw : s.rmw.length = (w.sets k).rmw.length) (hindex : s.index ≤ (w.sets k).entities.length)
    (hcount : s.count ≤ (w.sets k).rmw.length) (hlive : s.dangling = (w.sets k).dangling) :
    Shape (w.update k s) := by
  have hother : ∀ k', k' ≠ k → (w.update k s).sets k' = w.sets k' :=
    fun k' hk => update_sets_of_ne w hk s
  refine ⟨fun k' => ?_, fun k' => ?_, fun k' => ?_, fun k' => ?_, h.timers⟩
  · show _ = _ + if k' = .guardCondition then w.timers.length else 0
    by_cases hk : k' = k
    · rw [hk, update_sets_self, hrmw, hent, h.rmw]
    · rw [hother k' hk, h.rmw]
  · by_cases hk : k' = k
    · rw [hk, update_sets_self, hent]
      exact hindex
    · rw [hother k' hk]
      exact h.index k'
  · by_cases hk : k' = k
    · rw [hk, update_sets_self, hrmw]
      exact hcount
    · rw [hother k' hk]
      exact h.count k'
  · by_cases hk : k' = k
    · rw [hk, update_sets_self, hlive]
      exact h.live k
    · rw [hother k' hk]
      exact h.live k'

/-- an entity is added -/
theorem coherent_push {index : Option Nat} (h : Shape s.waitSet) (hf : Filling s) {k : Kind}
    {e : Entity} {hd : RmwHandle} {rmw : List (Option Nat)}
    (hroom : (s.waitSet.sets k).index < (s.waitSet.sets k).entities.length)
    (hrmw : e.rmwHandle = some hd)
    (hwrite : write (s.waitSet.sets k).rmw (s.waitSet.sets k).index (some (stored k hd)) =
      some rmw) :
    Coherent { s.record (.entity k (some e) index) with
      waitSet := s.waitSet.update k
        { s.waitSet.sets k with
          entities := (s.waitSet.sets k).entities.set (s.waitSet.sets k).index (some e)
          index := (s.waitSet.sets k).index + 1
          rmw := rmw
          count := (s.waitSet.sets k).count + 1 } } := by
  have hin : (s.waitSet.sets k).count < (s.waitSet.sets k).rmw.length := by
    rw [← hf.index]
    exact Nat.lt_of_lt_of_le hroom (h.entities_le k)
  obtain ⟨slots, hwrite', hpush⟩ := (hf.handles k).push hin (stored k hd)
  rw [← hf.index k] at hwrite'
  obtain rfl := Option.some.inj (hwrite.symm.trans hwrite')
  have hlen : rmw.length = (s.waitSet.sets k).rmw.length := hpush.length
  refine ⟨h.update List.length_set hlen hroom hin rfl, fun _ => ⟨fun k' => ?_, fun k' => ?_,
    hf.timers, fun j t hj => ?_⟩⟩
  · show ((s.waitSet.update k _).sets k').index = ((s.waitSet.update k _).sets k').count
    by_cases hk : k' = k
    · rw [hk, update_sets_self]
      exact congrArg (· + 1) (hf.index k)
    · rw [update_sets_of_ne _ hk]
      exact hf.index k'
  · show Holds ((s.waitSet.update k _).sets k').rmw.length ((s.waitSet.update k _).sets k').rmw
      ((s.waitSet.update k _).sets k').count
      (handles k' (Function.update s.added k (s.added k ++ [e]) k'))
    by_cases hk : k' = k
    · rw [hk, update_sets_self, Function.update_self, handles_append k _ hrmw]
      show Holds rmw.length rmw _ _
      rw [hlen]
      exact hpush
    · rw [update_sets_of_ne _ hk, Function.update_of_ne hk]
      exact hf.handles k'
  · have hslot := hf.slots j t hj
    show ((s.waitSet.update k _).sets .guardCondition).rmw[
      ((s.waitSet.update k _).sets .guardCondition).entities.length + j]? = _
    by_cases hk : Kind.guardCondition = k
    · subst hk
      rw [update_sets_self]
      -- the slots of the timers stand behind the one that was written
      obtain ⟨-, rfl⟩ := guarded_eq_some.mp hwrite
      rw [List.length_set, List.getElem?_set_ne (by omega)]
      exact hslot
    · rw [update_sets_of_ne _ hk]
      exact hslot

/-- a timer is added and its slot has the handle of its guard condition -/
theorem coherent_pushTimer {index : Option Nat} {w' : WaitSet} (h : Shape s.waitSet)
    (hf : Filling s) {t : TimerHandle} {rmw : List (Option Nat)}
    (hroom : s.waitSet.timerIndex < s.waitSet.timers.length)
    (htimers : w'.timers = s.waitSet.timers.set s.waitSet.timerIndex (some t))
    (hindex : w'.timerIndex = s.waitSet.timerIndex + 1)
    (hsets : w'.sets = Function.update s.waitSet.sets .guardCondition
      { s.waitSet.sets .guardCondition with rmw := rmw })
    (hlen : rmw.length = (s.waitSet.sets .guardCondition).rmw.length)
    (hself : rmw[(s.waitSet.sets .guardCondition).entities.length + s.waitSet.timerIndex]? =
      some (guardHandle t))
    (hother : ∀ j, j ≠ (s.waitSet.sets .guardCondition).entities.length + s.waitSet.timerIndex →
      rmw[j]? = (s.waitSet.sets .guardCondition).rmw[j]?) :
    Coherent { s.record (.timer (some t) index) with waitSet := w' } := by
  have hgc : w'.sets .guardCondition = { s.waitSet.sets .guardCondition with rmw := rmw } := by
    rw [hsets, Function.update_self]
  have hkind : ∀ k, k ≠ .guardCondition → w'.sets k = s.waitSet.sets k := fun k hk => by
    rw [hsets, Function.update_of_ne hk]
  have htlen : w'.timers.length = s.waitSet.timers.length := by
    rw [htimers, List.length_set]
  have hshape := h.update (s := { s.waitSet.sets .guardCondition with rmw := rmw }) rfl hlen
    (h.index _) (h.count _) rfl
  obtain ⟨slots, hwrite, hpush⟩ := hf.timers.push hroom t
  obtain ⟨-, rfl⟩ := guarded_eq_some.mp hwrite
  refine ⟨⟨fun k => ?_, fun k => ?_, fun k => ?_, fun k => ?_, ?_⟩, fun _ => ⟨fun k => ?_,
    fun k => ?_, ?_, fun j t' hj => ?_⟩⟩
  · show (w'.sets k).rmw.length = _ + if k = .guardCondition then w'.timers.length else 0
    rw [hsets, htlen]
    exact hshape.rmw k
  · show (w'.sets k).index ≤ _
    rw [hsets]
    exact hshape.index k
  · show (w'.sets k).count ≤ _
    rw [hsets]
    exact hshape.count k
  · show (w'.sets k).dangling = false
    rw [hsets]
    exact hshape.live k
  · show w'.timerIndex ≤ w'.timers.length
    rw [hindex, htlen]
    exact hroom
  · show (w'.sets k).index = (w'.sets k).count
    by_cases hk : k = .guardCondition
    · rw [hk, hgc]
      exact hf.index .guardCondition
    · rw [hkind k hk]
      exact hf.index k
  · show Holds (w'.sets k).rmw.length (w'.sets k).rmw (w'.sets k).count (handles k (s.added k))
    by_cases hk : k = .guardCondition
    · rw [hk, hgc]
      show Holds rmw.length rmw (s.waitSet.sets .guardCondition).count _
      rw [hlen]
      refine (hf.handles .guardCondition).of_eq hlen fun j hj => hother j ?_
      have hle := h.index .guardCondition
      rw [hf.index .guardCondition] at hle
      omega
    · rw [hkind k hk]
      exact hf.handles k
  · show Holds w'.timers.length w'.timers w'.timerIndex (s.timers ++ [t])
    rw [htlen, htimers, hindex]
    exact hpush
  · show (w'.sets .guardCondition).rmw[(w'.sets .guardCondition).entities.length + j]? = _
    rw [hgc]
    show rmw[(s.waitSet.sets .guardCondition).entities.length + j]? = _
    have hcount := hf.timers.count
    replace hj : (s.timers ++ [t])[j]? = some t' := hj
    by_cases hlt : j < s.timers.length
    · rw [List.getElem?_append_left hlt] at hj
      rw [hother _ (by omega)]
      exact hf.slots j t' hj
    · -- the last one is the new one
      rw [List.getElem?_append_right (Nat.not_lt.mp hlt)] at hj
      obtain ⟨hzero, -⟩ := List.getElem?_eq_some_iff.mp hj
      have hlast : j = s.timers.length := by
        rw [List.length_singleton] at hzero
        omega
      rw [hlast, Nat.sub_self] at hj
      obtain rfl := Option.some.inj hj
      rw [hlast, ← hcount]
      exact hself

/-- an adder that is orderly -/
theorem coherent_add (h : Coherent s) {a : Add} (hwaited : s.waited = false)
    (hobt : Obtainable s.waitSet a) (hslot : SlotEmpty s.waitSet a) :
    ∃ s', roundStep s (.add a) = some s' ∧ Coherent s' := by
  have hf := h.filling hwaited
  obtain ⟨⟨ret, w', index'⟩, hcall⟩ := exists_call h.shape a
  unfold roundStep
  simp only [hcall]
  cases a with
  | entity k entity index =>
    rcases add_cases hcall with
      ⟨hret, rfl, -⟩ | ⟨e, rfl, hroom, ⟨hnone, -⟩ | ⟨hd, rmw, hrmw, rfl, hwrite, rfl⟩⟩
    · cases ret with
      | error e => exact ⟨s, rfl, h⟩
      | ok _ => exact absurd rfl hret
    · have hsome := hobt e rfl hroom
      rw [hnone] at hsome
      cases hsome
    · exact ⟨_, rfl, coherent_push h.shape hf hroom hrmw hwrite⟩
  | timer timer index =>
    rcases addTimer_cases hcall with ⟨hret, rfl, -⟩ | ⟨t, rfl, hroom, htimers, hindex,
      ⟨hg, rfl, hsets⟩ | ⟨g, hg, ⟨hnone, -⟩ | ⟨hd, rmw, hrmw, rfl, hwrite, hsets⟩⟩⟩
    · cases ret with
      | error e => exact ⟨s, rfl, h⟩
      | ok _ => exact absurd rfl hret
    · refine ⟨_, rfl, coherent_pushTimer h.shape hf hroom htimers hindex ?_ rfl ?_ fun _ _ => rfl⟩
      · rw [hsets, Function.update_eq_self]
      · rw [hslot t rfl hg hroom]
        unfold guardHandle
        rw [hg]
        rfl
    · have hsome := hobt t rfl hroom g hg
      rw [hnone] at hsome
      cases hsome
    · obtain ⟨hlt, rfl⟩ := guarded_eq_some.mp hwrite
      refine ⟨_, rfl, coherent_pushTimer h.shape hf hroom htimers hindex hsets List.length_set ?_ ?_⟩
      · rw [List.getElem?_set_self hlt]
        unfold guardHandle
        rw [hg, Option.bind_some, hrmw]
        rfl
      · exact fun j hj => List.getElem?_set_ne (Ne.symm hj)

/-! ## waiting -/

/-- the first loop on a wait set that holds what was added -/
theorem timerLoop_filling (h : Shape s.waitSet) (hf : Filling s) {readings : TimerReadings}
    (hdefined : ∀ i, (readings.untilNextCall i).isSome = true) (timeout : Int) :
    ∃ failure l, timerLoop readings (s.waitSet.sets .guardCondition).entities.length
        (List.range s.waitSet.timerIndex)
        { timers := s.waitSet.timers
          guardConditions := (s.waitSet.sets .guardCondition).rmw
          count := (s.waitSet.sets .guardCondition).count
          minTimeout := boundOf timeout } = some (failure, l) ∧
      l.timers.length = s.waitSet.timers.length ∧
      l.guardConditions.length = (s.waitSet.sets .guardCondition).rmw.length ∧
      l.count ≤ (s.waitSet.sets .guardCondition).rmw.length ∧
      (failure = none → l.guardConditions.take l.count =
        (handles .guardCondition (s.added .guardCondition) ++
          timerHandles readings 0 s.timers).map some) := by
  have htimers : ∀ j t, s.timers[j]? = some t → s.waitSet.timers[0 + j]? = some (some t) := by
    intro j t hj
    obtain ⟨hlt, -⟩ := List.getElem?_eq_some_iff.mp hj
    have hvalue := congrArg (·[j]?) hf.timers.values
    rw [List.getElem?_take, if_pos (by rw [hf.timers.count]; exact hlt), List.getElem?_map,
      hj] at hvalue
    rw [Nat.zero_add]
    exact hvalue
  have hslots : ∀ j t, s.timers[j]? = some t →
      (s.waitSet.sets .guardCondition).rmw[
        (s.waitSet.sets .guardCondition).entities.length + (0 + j)]? = some (guardHandle t) := by
    intro j t hj
    rw [Nat.zero_add]
    exact hf.slots j t hj
  have hcount : (s.waitSet.sets .guardCondition).count ≤
      (s.waitSet.sets .guardCondition).entities.length + 0 := by
    rw [← hf.index]
    exact h.index .guardCondition
  obtain ⟨failure, l, hloop, hlen, hgcs, hle, hholds⟩ := timerLoop_moves hdefined s.timers 0
    { timers := s.waitSet.timers
      guardConditions := (s.waitSet.sets .guardCondition).rmw
      count := (s.waitSet.sets .guardCondition).count
      minTimeout := boundOf timeout } _ htimers hslots (hf.handles .guardCondition) hcount
  rw [← hf.timers.count, ← List.range_eq_range'] at hloop
  exact ⟨failure, l, hloop, hlen, hgcs, hle, fun hnone => (hholds hnone).values⟩

theorem shape_moved (h : Shape w) {l : TimerLoop} (htimers : l.timers.length = w.timers.length)
    (hgcs : l.guardConditions.length = (w.sets .guardCondition).rmw.length)
    (hcount : l.count ≤ (w.sets .guardCondition).rmw.length) : Shape (w.moved l) := by
  have hupdate := h.update (k := .guardCondition)
    (s := { w.sets .guardCondition with rmw := l.guardConditions, count := l.count })
    rfl hgcs (h.index _) hcount rfl
  exact hupdate.of_lengths (fun k => ⟨rfl, rfl, rfl, hupdate.count k, rfl⟩) htimers rfl

/-- the part behind `rmw_wait` has a result -/
theorem afterRmwWait_defined (h : Shape w) {readings : TimerReadings}
    (hdefined : ∀ i, (readings.ready i).isSome = true) (handed : Handed) (flag : Bool)
    (rmw : RmwWait) :
    ∃ r, afterRmwWait w handed flag readings rmw = some r ∧ Shape r.waitSet ∧
      r.handed = some handed := by
  obtain ⟨failure, timers, hloop, hlen⟩ := readyLoop_defined hdefined (List.range w.timerIndex)
    w.timers fun i hi => Nat.lt_of_lt_of_le (List.mem_range.mp hi) h.timers
  have hwaited : Shape
      { w with sets := fun k => (w.sets k).waited (rmw.ready k), timers := timers } :=
    h.of_lengths (fun k => ⟨rfl, List.length_mapIdx, rfl, h.count k, rfl⟩) hlen rfl
  unfold afterRmwWait
  simp only [hloop, Option.bind_eq_bind, Option.bind_some]
  cases failure with
  | some e => exact ⟨_, rfl, hwaited, rfl⟩
  | none =>
    by_cases herr : rmw.ret = .error
    · simp only [herr, if_true]
      exact ⟨_, rfl, hwaited, rfl⟩
    · simp only [herr, if_false]
      have hprune : Kind.all.all (fun k => decide (((w.sets k).waited (rmw.ready k)).entities.length ≤
          ((w.sets k).waited (rmw.ready k)).rmw.length)) = true := by
        rw [List.all_eq_true]
        exact fun k _ => decide_eq_true (hwaited.entities_le k)
      unfold WaitSet.prune
      rw [if_pos hprune]
      refine ⟨_, rfl, ?_, rfl⟩
      exact hwaited.of_lengths (fun k => ⟨List.length_mapIdx, rfl, rfl, hwaited.count k, rfl⟩) rfl rfl

/-- **A wait** on a wait set that holds what was added. -/
theorem rclWait_filling (h : Shape s.waitSet) (hf : Filling s) {readings : TimerReadings}
    (hdefined : ∀ i, (readings.untilNextCall i).isSome = true ∧ (readings.ready i).isSome = true)
    (timeout : Int) (rmw : RmwWait) :
    ∃ r, rclWait s.waitSet timeout readings rmw = some r ∧ Shape r.waitSet ∧
      ∀ handed, r.handed = some handed → ∀ k, handed.arrays k = (handles k (s.added k) ++
        if k = .guardCondition then timerHandles readings 0 s.timers else []).map some := by
  unfold rclWait
  split
  · exact ⟨_, rfl, h, fun _ hh => (by cases hh)⟩
  · obtain ⟨failure, l, hloop, hlen, hgcs, hcount, htake⟩ :=
      timerLoop_filling h hf (fun i => (hdefined i).1) timeout
    have hmoved := shape_moved h hlen hgcs hcount
    simp only [hloop, Option.bind_eq_bind, Option.bind_some]
    cases failure with
    | some e => exact ⟨_, rfl, hmoved, fun _ hh => (by cases hh)⟩
    | none =>
      obtain ⟨r, hr, hshape, hhanded⟩ := afterRmwWait_defined hmoved (fun i => (hdefined i).2)
        ⟨timeoutArgument timeout l,
          fun k => ((s.waitSet.moved l).sets k).rmw.take ((s.waitSet.moved l).sets k).count⟩
        l.isTimerTimeout rmw
      refine ⟨r, hr, hshape, fun handed hh k => ?_⟩
      obtain rfl := Option.some.inj (hhanded.symm.trans hh)
      show ((s.waitSet.update .guardCondition _).sets k).rmw.take
        ((s.waitSet.update .guardCondition _).sets k).count = _
      by_cases hk : k = .guardCondition
      · rw [hk, update_sets_self, if_pos rfl]
        exact htake rfl
      · rw [update_sets_of_ne _ hk, if_neg hk, List.append_nil]
        exact (hf.handles k).values

/-! ## every run -/

theorem step_coherent (h : Coherent s) {a : WaitAction} (ho : Orderly s a) :
    ∃ s', roundStep s a = some s' ∧ Coherent s' ∧ HandsOver s a s' := by
  cases a with
  | add a =>
    obtain ⟨s', hstep, hcoh⟩ := coherent_add h ho.1 ho.2.1 ho.2.2
    exact ⟨s', hstep, hcoh, trivial⟩
  | clear =>
    obtain ⟨w', hclear, hcoh⟩ := coherent_clear h.shape
    refine ⟨_, ?_, hcoh, trivial⟩
    rw [roundStep, hclear]
    rfl
  | resize sizes fails =>
    refine ⟨_, ?_, coherent_sized sizes, trivial⟩
    rw [roundStep, resize_eq h.shape sizes ho]
    rfl
  | wait timeout readings rmw =>
    obtain ⟨r, hr, hshape, hhanded⟩ :=
      rclWait_filling h.shape (h.filling ho.1) ho.2 timeout rmw
    refine ⟨{ s with waitSet := r.waitSet, waited := true }, ?_,
      ⟨hshape, fun hw => absurd hw.symm Bool.false_ne_true⟩, ?_⟩
    · rw [roundStep, hr]
      rfl
    · intro r' handed hr' hh
      obtain rfl := Option.some.inj (hr.symm.trans hr')
      exact hhanded handed hh

end

theorem init_eq (sizes : Sizes) : WaitSet.init sizes = some (.ok (), sized sizes) := by
  apply resize_eq _ sizes fun _ => rfl
  refine ⟨fun k => ?_, fun _ => Nat.le_refl _, fun _ => Nat.le_refl _, fun _ => rfl, Nat.le_refl _⟩
  show 0 = 0 + if k = .guardCondition then 0 else 0
  rw [ite_self]

/-- **Coherence of the wait set.**  In every orderly run nothing is read or written behind an array,
and every `rmw_wait` is handed exactly the handles of what was added in its round. -/
theorem wait_set_coherent (sizes : Sizes) {w : WaitSet} (hinit : WaitSet.init sizes = some (.ok (), w))
    (as : List WaitAction) (h : Meets roundStep Orderly { waitSet := w } as) :
    (exec roundStep { waitSet := w } as).isSome = true ∧
      Along roundStep HandsOver { waitSet := w } as := by
  have hw : sized sizes = w :=
    (Prod.ext_iff.mp (Option.some.inj ((init_eq sizes).symm.trans hinit))).2
  subst hw
  obtain ⟨hexec, -, halong⟩ := exec_of_meets (fun _ _ hI hC => step_coherent hI hC) as _
    (coherent_sized sizes) h
  exact ⟨hexec, halong⟩

/-- one slot for a guard condition and one for a timer -/
def oneOfEach : Sizes where
  entities := fun k => if k = .guardCondition then 1 else 0
  timers := 1

def waitingTimer : TimerReadings where
  canceled := fun _ => false
  untilNextCall := fun _ => some (.ok 1000)
  ready := fun _ => some (.ok false)

/-- a guard condition and a timer of a ROS clock, waited for and cleared -/
theorem wait_set_coherent_round :
    (exec roundStep { waitSet := sized oneOfEach }
      [.add (.entity .guardCondition (some ⟨1, some ⟨10, 11⟩⟩) none),
        .add (.timer (some ⟨2, some ⟨3, some ⟨30, 31⟩⟩⟩) none),
        .wait 0 waitingTimer ⟨.timeout, fun _ _ => false⟩, .clear]).isSome = true := by
  refine (wait_set_coherent oneOfEach (init_eq oneOfEach) _ ?_).1
  refine ⟨⟨rfl, fun e he _ => Option.some.inj he ▸ rfl, trivial⟩, fun s₁ hs₁ => ?_⟩
  obtain rfl := Option.some.inj hs₁
  refine ⟨⟨rfl, ?_, ?_⟩, fun s₂ hs₂ => ?_⟩
  · intro t ht _ g hg
    obtain rfl := Option.some.inj ht
    exact Option.some.inj hg ▸ rfl
  · intro t ht hg
    obtain rfl := Option.some.inj ht
    cases hg
  · obtain rfl := Option.some.inj hs₂
    exact ⟨⟨rfl, fun _ => ⟨rfl, rfl⟩⟩, fun _ _ => ⟨trivial, fun _ _ => trivial⟩⟩

/-- after a clear a timer without a guard condition finds the handle of the timer before it in its
slot, and `rmw_wait` is handed this handle -/
theorem stale_handle_is_handed_over :
    ∃ s r handed, exec roundStep { waitSet := sized oneOfEach }
        [.add (.timer (some ⟨2, some ⟨3, some ⟨30, 31⟩⟩⟩) none), .clear,
          .add (.timer (some ⟨4, none⟩) none)] = some s ∧
      s.timers = [⟨4, none⟩] ∧ s.added .guardCondition = [] ∧
      rclWait s.waitSet 0 waitingTimer ⟨.timeout, fun _ _ => false⟩ = some r ∧
      r.handed = some handed ∧ handed.arrays .guardCondition = [some 31] :=
  ⟨_, _, _, rfl, rfl, rfl, rfl, rfl, rfl⟩

/-! ## the timers stand in front -/

section
variable {readings : TimerReadings}

theorem present_of_set {timers : List (Option TimerHandle)} {i j : Nat}
    (h : Present (timers.set i none) j) : Present timers j := by
  obtain ⟨t, ht⟩ := h
  by_cases hij : i = j
  · subst hij
    obtain ⟨hlt, -⟩ := List.getElem?_eq_some_iff.mp ht
    rw [List.length_set] at hlt
    rw [List.getElem?_set_self hlt] at ht
    cases ht
  · rw [List.getElem?_set_ne hij] at ht
    exact ⟨t, ht⟩

/-- the first loop puts no timer anywhere -/
theorem timerLoop_present {size : Nat} {failure : Option Failure} (is : List Nat) :
    ∀ l l' : TimerLoop, timerLoop readings size is l = some (failure, l') →
      ∀ j, Present l'.timers j → Present l.timers j := by
  induction is with
  | nil =>
    intro l l' h j hj
    cases h
    exact hj
  | cons i is ih =>
    intro l l' h j hj
    unfold timerLoop at h
    cases hslot : l.timers[i]? with
    | none =>
      rw [hslot] at h
      cases h
    | some slot =>
      rw [hslot] at h
      cases slot with
      | none => exact ih l l' h j hj
      | some t₀ =>
        simp only at h
        by_cases hc : readings.canceled i = true
        · rw [if_pos hc] at h
          exact present_of_set (ih _ l' h j hj)
        · rw [if_neg hc] at h
          obtain ⟨slot, -, h⟩ := Option.bind_eq_some_iff.mp h
          obtain ⟨l₁, hmove, h⟩ := Option.bind_eq_some_iff.mp h
          obtain ⟨r, -, h⟩ := Option.bind_eq_some_iff.mp h
          have htimers := (TimerLoop.move_eq_some hmove).1
          cases r with
          | error e =>
            cases h
            rw [← htimers]
            exact hj
          | ok t =>
            have hpresent := ih _ l' h j hj
            rw [TimerLoop.use_timers, htimers] at hpresent
            exact hpresent

theorem readyLoop_present {failure : Option Failure} (is : List Nat) :
    ∀ timers timers', readyLoop readings is timers = some (failure, timers') →
      ∀ j, Present timers' j → Present timers j := by
  induction is with
  | nil =>
    intro timers timers' h j hj
    cases h
    exact hj
  | cons i is ih =>
    intro timers timers' h j hj
    unfold readyLoop at h
    cases hslot : timers[i]? with
    | none =>
      rw [hslot] at h
      cases h
    | some slot =>
      rw [hslot] at h
      cases slot with
      | none => exact ih timers timers' h j hj
      | some t₀ =>
        obtain ⟨r, -, h⟩ := Option.bind_eq_some_iff.mp h
        cases r with
        | error e =>
          cases h
          exact hj
        | ok ready =>
          cases ready with
          | true => exact ih timers timers' h j hj
          | false => exact present_of_set (ih _ timers' h j hj)

/-- a wait puts no timer anywhere -/
theorem rclWait_present {w : WaitSet} {timeout : Int} {rmw : RmwWait} {r : WaitResult}
    (h : rclWait w timeout readings rmw = some r) :
    r.waitSet.timerIndex = w.timerIndex ∧
      ∀ j, Present r.waitSet.timers j → Present w.timers j := by
  unfold rclWait at h
  split at h
  · cases h
    exact ⟨rfl, fun _ hj => hj⟩
  · obtain ⟨⟨failure, l⟩, hloop, h⟩ := Option.bind_eq_some_iff.mp h
    have hfirst := timerLoop_present _ _ _ hloop
    cases failure with
    | some e =>
      cases h
      exact ⟨rfl, hfirst⟩
    | none =>
      obtain ⟨⟨failure, timers⟩, hready, h⟩ := Option.bind_eq_some_iff.mp h
      have hsecond := readyLoop_present _ _ _ hready
      cases failure with
      | some e =>
        cases h
        exact ⟨rfl, fun j hj => hfirst j (hsecond j hj)⟩
      | none =>
        simp only at h
        split at h
        · cases h
          exact ⟨rfl, fun j hj => hfirst j (hsecond j hj)⟩
        · obtain ⟨w', hprune, h⟩ := Option.bind_eq_some_iff.mp h
          cases h
          obtain ⟨-, rfl⟩ := guarded_eq_some.mp hprune
          exact ⟨rfl, fun j hj => hfirst j (hsecond j hj)⟩

theorem not_present_replicate (n j : Nat) :
    ¬ Present (List.replicate n (none : Option TimerHandle)) j := by
  intro h
  obtain ⟨t, ht⟩ := h
  have hmem := List.mem_of_getElem? ht
  cases List.eq_of_mem_replicate hmem

theorem not_present_map_none (timers : List (Option TimerHandle)) (j : Nat) :
    ¬ Present (timers.map fun _ => (none : Option TimerHandle)) j := by
  rw [List.map_const']
  exact not_present_replicate _ j

end

section
variable {w w' : WaitSet}

theorem filled_addTimer (h : Filled w) {timer : Option TimerHandle} {index index' : Option Nat}
    {ret : Except Failure Unit} (hadd : w.addTimer timer index = some (ret, w', index')) :
    Filled w' := by
  rcases addTimer_cases hadd with ⟨-, rfl, -⟩ | ⟨t, -, -, htimers, hindex, -⟩
  · exact h
  · intro j hj
    rw [htimers] at hj
    rw [hindex]
    by_cases hjw : w.timerIndex = j
    · omega
    · exact Nat.lt_succ_of_lt (h j ((present_set_of_ne hjw (some t)).mp hj))

theorem filled_resizeParts {fs : List (WaitSet → Option (Bool × WaitSet))} {resized : Bool}
    (hfs : ∀ f ∈ fs, ∀ w resized w', Filled w → f w = some (resized, w') → Filled w') :
    ∀ w w', Filled w → resizeParts fs w = some (resized, w') → Filled w' := by
  induction fs with
  | nil =>
    intro w w' h hparts
    cases hparts
    exact h
  | cons f fs ih =>
    intro w w' h hparts
    obtain ⟨⟨resized₁, w₁⟩, hf, hrest⟩ := Option.bind_eq_some_iff.mp hparts
    have h₁ := hfs f List.mem_cons_self w resized₁ w₁ h hf
    cases resized₁ with
    | true => exact ih (fun g hg => hfs g (List.mem_cons_of_mem f hg)) w₁ w' h₁ hrest
    | false =>
      cases hrest
      exact h₁

theorem filled_resizeSet {sizes : Sizes} {fails : Allocation → Bool} {k : Kind} {resized : Bool}
    (h : Filled w) (hr : WaitSet.resizeSet sizes fails k w = some (resized, w')) : Filled w' := by
  unfold WaitSet.resizeSet at hr
  simp only at hr
  repeat' split at hr
  all_goals cases hr
  all_goals exact h

theorem filled_resize {sizes : Sizes} {fails : Allocation → Bool} {r : Except Failure Unit × WaitSet}
    (h : Filled w) (hr : WaitSet.resize sizes fails w = some r) : Filled r.2 := by
  obtain ⟨⟨resized, w₁⟩, hparts, hret⟩ := Option.bind_eq_some_iff.mp hr
  cases hret
  refine filled_resizeParts ?_ w w₁ h hparts
  intro f hf w resized w' h hw'
  simp only [List.mem_cons, List.not_mem_nil, or_false] at hf
  rcases hf with rfl | rfl | rfl | rfl | rfl | rfl | rfl
  · exact filled_resizeSet h hw'
  · unfold WaitSet.resizeGuardConditions at hw'
    simp only at hw'
    split at hw'
    · cases hw'
      exact h
    · cases hw'
      exact h
  · unfold WaitSet.resizeRmwGuardConditions at hw'
    simp only at hw'
    split at hw'
    · cases hw'
      exact fun j hj => absurd hj (not_present_replicate 0 j)
    · cases hw'
      exact h
  · unfold WaitSet.resizeTimers at hw'
    split at hw'
    · cases hw'
      exact fun j hj => absurd hj (not_present_replicate 0 j)
    · cases hw'
      exact fun j hj => absurd hj (not_present_replicate _ j)
  · exact filled_resizeSet h hw'
  · exact filled_resizeSet h hw'
  · exact filled_resizeSet h hw'

theorem filled_step {s s' : Round} {a : WaitAction} (h : Filled s.waitSet)
    (hs : roundStep s a = some s') : Filled s'.waitSet := by
  cases a with
  | add a =>
    rw [roundStep] at hs
    match hcall : s.waitSet.call a with
    | none =>
      rw [hcall] at hs
      cases hs
    | some (ret, w', index) =>
      have hw' : Filled w' := by
        cases a with
        | entity k entity index =>
          rcases add_cases hcall with ⟨-, rfl, -⟩ | ⟨e, -, -, ⟨-, -, rfl⟩ | ⟨hd, rmw, -, -, -, rfl⟩⟩
          · exact h
          · exact h
          · exact h
        | timer timer index => exact filled_addTimer h hcall
      rw [hcall] at hs
      cases ret with
      | ok _ =>
        cases hs
        exact hw'
      | error e =>
        cases hs
        exact hw'
  | clear =>
    obtain ⟨w', hclear, rfl⟩ := Option.map_eq_some_iff.mp hs
    obtain ⟨-, rfl⟩ := guarded_eq_some.mp hclear
    exact fun j hj => absurd hj (not_present_map_none _ j)
  | resize sizes fails =>
    obtain ⟨r, hr, rfl⟩ := Option.map_eq_some_iff.mp hs
    exact filled_resize h hr
  | wait timeout readings rmw =>
    obtain ⟨r, hr, rfl⟩ := Option.map_eq_some_iff.mp hs
    obtain ⟨hindex, hpresent⟩ := rclWait_present hr
    intro j hj
    show j < r.waitSet.timerIndex
    rw [hindex]
    exact h j (hpresent j hj)

/-- **The timers stand in front** in every wait set that a run reaches. -/
theorem filled_reach {s : Round}
    (h : Reach roundStep Free (fun s => ∃ sizes, s = { waitSet := sized sizes }) s) :
    Filled s.waitSet := by
  refine h.inv (fun s hs => ?_) fun s a s' hP _ hs => filled_step hP hs
  obtain ⟨sizes, rfl⟩ := hs
  exact fun j hj => absurd hj (not_present_replicate _ j)

end

end PMROS2.Rcl
