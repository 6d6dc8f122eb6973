import Mathlib.Order.Bounds.Basic
import PMROS2.Rcl.WaitSet

/-!
# `rcl_wait`

The function looks at the timers twice.  Before it blocks it drops those that are canceled, moves
the guard conditions of the others behind the ones that were added and finds the earliest time a
timer is due; after it has blocked it drops those that are not ready.

What the functions of the timers return is part of the input, for either look, and so is what
`rmw_wait` does: it returns, and of the slots it was handed it leaves those that are ready.

* `timerLoop_times`      the first loop finds the least time and tells whether it was a timer's;
* `readyLoop_slots`      the second loop drops the timers that are not ready;
* `wait_outcome_iff`     what `rmw_wait` is told, what is left in the slots and when the result is
                         a timeout.
-/

namespace PMROS2.Rcl
open Checked Slots

/-! ## the environment -/

/-- what the functions of the timers return during a call, by the slot of the timer -/
structure TimerReadings where
  canceled : Nat → Bool
  untilNextCall : Nat → Option (Except Failure Int)
  ready : Nat → Option (Except Failure Bool)

/-- the functions on the timers and clock readings that the two loops meet -/
def TimerReadings.of (first second : Nat → Timer × Reading) : TimerReadings where
  canceled := fun i => (first i).1.canceled
  untilNextCall := fun i => timerGetTimeUntilNextCall (first i).1 (first i).2
  ready := fun i => timerIsReady (second i).1 (second i).2

inductive RmwRet where
  | ok
  | timeout
  | error
  deriving DecidableEq

/-- what `rmw_wait` returns and which of the slots it leaves -/
structure RmwWait where
  ret : RmwRet
  ready : Kind → Nat → Bool

structure RmwTime where
  sec : Nat
  nsec : Nat
  deriving DecidableEq

/-- the arguments of `rmw_wait` -/
structure Handed where
  timeout : Option RmwTime
  arrays : Kind → List (Option Nat)

/-! ## the loops -/

/-- the variables of the first loop -/
structure TimerLoop where
  timers : List (Option TimerHandle)
  guardConditions : List (Option Nat)
  count : Nat
  isTimerTimeout : Bool := false
  minTimeout : Int

/-- the guard condition of a timer is moved behind those that are waited for -/
def TimerLoop.move (l : TimerLoop) : Option Nat → Option TimerLoop
  | none => some l
  | some handle => do
    let guardConditions ← write l.guardConditions l.count (some handle)
    return { l with guardConditions := guardConditions, count := l.count + 1 }

/-- the time of a timer is used for the timeout -/
def TimerLoop.use (l : TimerLoop) (timerTimeout : Int) : TimerLoop :=
  if timerTimeout < l.minTimeout then { l with isTimerTimeout := true, minTimeout := timerTimeout }
  else l

/-- the loop before `rmw_wait`, over the indices of the timers -/
def timerLoop (readings : TimerReadings) (sizeOfGuardConditions : Nat) :
    List Nat → TimerLoop → Option (Option Failure × TimerLoop)
  | [], l => some (none, l)
  | i :: is, l =>
    match l.timers[i]? with
    | none => none
    | some none => timerLoop readings sizeOfGuardConditions is l
    | some (some _) =>
      if readings.canceled i then
        timerLoop readings sizeOfGuardConditions is { l with timers := l.timers.set i none }
      else do
        let slot ← l.guardConditions[sizeOfGuardConditions + i]?
        let l ← l.move slot
        match ← readings.untilNextCall i with
        | .error e => return (some e, l)
        | .ok timerTimeout =>
          timerLoop readings sizeOfGuardConditions is (l.use timerTimeout)

/-- the loop behind `rmw_wait` -/
def readyLoop (readings : TimerReadings) :
    List Nat → List (Option TimerHandle) → Option (Option Failure × List (Option TimerHandle))
  | [], timers => some (none, timers)
  | i :: is, timers =>
    match timers[i]? with
    | none => none
    | some none => readyLoop readings is timers
    | some (some _) => do
      match ← readings.ready i with
      | .error e => return (some e, timers)
      | .ok true => readyLoop readings is timers
      | .ok false => readyLoop readings is (timers.set i none)

/-! ## the function -/

/-- `min_timeout` before the loop -/
def boundOf (timeout : Int) : Int := if timeout > 0 then timeout else int64Max

/-- `timeout_argument` -/
def timeoutArgument (timeout : Int) (l : TimerLoop) : Option RmwTime :=
  if timeout = 0 then some ⟨0, 0⟩
  else if timeout > 0 || l.isTimerTimeout then
    let minTimeout := if l.minTimeout < 0 then 0 else l.minTimeout
    some ⟨(minTimeout / 1000000000).toNat, (minTimeout % 1000000000).toNat⟩
  else none

def WaitSet.moved (w : WaitSet) (l : TimerLoop) : WaitSet :=
  { w.update .guardCondition
      { w.sets .guardCondition with rmw := l.guardConditions, count := l.count } with
    timers := l.timers }

/-- the slots that `rmw_wait` was handed and that are not ready are `NULL` -/
def EntitySet.waited (s : EntitySet) (ready : Nat → Bool) : EntitySet :=
  { s with rmw := s.rmw.mapIdx fun i h => if i < s.count && !ready i then none else h }

/-- the handles whose `rmw` slot is `NULL` are set to `NULL` -/
def EntitySet.prune (s : EntitySet) : EntitySet :=
  { s with entities := s.entities.mapIdx fun i e => if (s.rmw.getD i none).isSome then e else none }

def WaitSet.prune (w : WaitSet) : Option WaitSet :=
  if Kind.all.all fun k => (w.sets k).entities.length ≤ (w.sets k).rmw.length then
    some { w with sets := fun k => (w.sets k).prune }
  else none

/-- what a call of `rcl_wait` returns, the wait set and what it handed to `rmw_wait` -/
structure WaitResult where
  ret : Except Failure Unit
  waitSet : WaitSet
  handed : Option Handed := none

/-- the part behind `rmw_wait` -/
def afterRmwWait (w : WaitSet) (handed : Handed) (isTimerTimeout : Bool) (readings : TimerReadings)
    (rmw : RmwWait) : Option WaitResult := do
  let w := { w with sets := fun k => (w.sets k).waited (rmw.ready k) }
  let (failure, timers) ← readyLoop readings (List.range w.timerIndex) w.timers
  let w := { w with timers := timers }
  match failure with
  | some e => return { ret := .error e, waitSet := w, handed := some handed }
  | none =>
    if rmw.ret = .error then
      return { ret := .error .error, waitSet := w, handed := some handed }
    else
      let w ← w.prune
      return { ret := if rmw.ret = .timeout && !isTimerTimeout then .error .timeout else .ok ()
               waitSet := w
               handed := some handed }

/-- `rcl_wait` -/
def rclWait (w : WaitSet) (timeout : Int) (readings : TimerReadings) (rmw : RmwWait) :
    Option WaitResult :=
  if (Kind.all.all fun k => (w.sets k).entities = []) && w.timers = [] then
    some { ret := .error .waitSetEmpty, waitSet := w }
  else do
    let gcs := w.sets .guardCondition
    let (failure, l) ← timerLoop readings gcs.entities.length (List.range w.timerIndex)
      { timers := w.timers, guardConditions := gcs.rmw, count := gcs.count
        minTimeout := boundOf timeout }
    let w := w.moved l
    match failure with
    | some e => return { ret := .error e, waitSet := w }
    | none =>
      let arrays := fun k => (w.sets k).rmw.take (w.sets k).count
      afterRmwWait w ⟨timeoutArgument timeout l, arrays⟩ l.isTimerTimeout readings rmw

/-! ## what the loops do -/

section
variable {readings : TimerReadings}

/-- a timer is in a slot -/
def Present (timers : List (Option TimerHandle)) (i : Nat) : Prop :=
  ∃ t, timers[i]? = some (some t)

/-- the times until the next call of the timers that are not canceled -/
def timesOf (readings : TimerReadings) (timers : List (Option TimerHandle)) (is : List Nat) :
    Set Int :=
  {t | ∃ i ∈ is, Present timers i ∧ readings.canceled i = false ∧
    readings.untilNextCall i = some (.ok t)}

theorem present_set_of_ne {timers : List (Option TimerHandle)} {i j : Nat} (h : i ≠ j)
    (t : Option TimerHandle) : Present (timers.set i t) j ↔ Present timers j := by
  unfold Present
  rw [List.getElem?_set_ne h]

theorem timesOf_congr {timers timers' : List (Option TimerHandle)} {is : List Nat}
    (h : ∀ j ∈ is, Present timers' j ↔ Present timers j) :
    timesOf readings timers' is = timesOf readings timers is := by
  ext t
  refine exists_congr fun i => and_congr_right fun hi => ?_
  rw [h i hi]

theorem mem_timesOf_cons {timers : List (Option TimerHandle)} {i : Nat} {is : List Nat} {t : Int} :
    t ∈ timesOf readings timers (i :: is) ↔
      (Present timers i ∧ readings.canceled i = false ∧
        readings.untilNextCall i = some (.ok t)) ∨ t ∈ timesOf readings timers is := by
  constructor
  · intro h
    obtain ⟨j, hj, hrest⟩ := h
    rcases List.mem_cons.mp hj with rfl | hj
    · exact .inl hrest
    · exact .inr ⟨j, hj, hrest⟩
  · intro h
    rcases h with hrest | ⟨j, hj, hrest⟩
    · exact ⟨i, List.mem_cons_self, hrest⟩
    · exact ⟨j, List.mem_cons_of_mem i hj, hrest⟩

theorem timesOf_cons_of_skipped {timers : List (Option TimerHandle)} {i : Nat} (is : List Nat)
    (h : ¬ (Present timers i ∧ readings.canceled i = false)) :
    timesOf readings timers (i :: is) = timesOf readings timers is := by
  ext t
  rw [mem_timesOf_cons]
  exact ⟨fun hor => hor.resolve_left fun hi => h ⟨hi.1, hi.2.1⟩, .inr⟩

theorem timesOf_cons_of_used {timers : List (Option TimerHandle)} {i : Nat} (is : List Nat) {t : Int}
    (hp : Present timers i) (hc : readings.canceled i = false)
    (ht : readings.untilNextCall i = some (.ok t)) :
    timesOf readings timers (i :: is) = insert t (timesOf readings timers is) := by
  ext t'
  rw [mem_timesOf_cons, Set.mem_insert_iff]
  refine or_congr_left ⟨fun h => ?_, fun h => ⟨hp, hc, h ▸ ht⟩⟩
  exact Except.ok.inj (Option.some.inj (h.2.2.symm.trans ht))

theorem TimerLoop.move_eq_some {l l' : TimerLoop} {slot : Option Nat} (h : l.move slot = some l') :
    l'.timers = l.timers ∧ l'.isTimerTimeout = l.isTimerTimeout ∧
      l'.minTimeout = l.minTimeout := by
  unfold TimerLoop.move at h
  cases slot with
  | none =>
    cases h
    exact ⟨rfl, rfl, rfl⟩
  | some handle =>
    obtain ⟨gcs, -, heq⟩ := Option.bind_eq_some_iff.mp h
    cases heq
    exact ⟨rfl, rfl, rfl⟩

theorem TimerLoop.use_timers (l : TimerLoop) (t : Int) : (l.use t).timers = l.timers := by
  unfold TimerLoop.use
  split
  · rfl
  · rfl

theorem TimerLoop.use_minTimeout (l : TimerLoop) (t : Int) :
    (l.use t).minTimeout = min t l.minTimeout := by
  unfold TimerLoop.use
  split
  · next hlt => exact (min_eq_left hlt.le).symm
  · next hlt => exact (min_eq_right (not_lt.mp hlt)).symm

theorem TimerLoop.use_isTimerTimeout (l : TimerLoop) (t : Int) :
    (l.use t).isTimerTimeout = true ↔ l.isTimerTimeout = true ∨ t < l.minTimeout := by
  unfold TimerLoop.use
  split
  · next hlt => exact ⟨fun _ => .inr hlt, fun _ => rfl⟩
  · next hlt => exact ⟨.inl, fun h => h.resolve_right hlt⟩

theorem isLeast_insert_min {a b m : Int} {s : Set Int} (h : IsLeast (insert (min a b) s) m) :
    IsLeast (insert b (insert a s)) m := by
  refine ⟨?_, fun x hx => ?_⟩
  · rcases Set.mem_insert_iff.mp h.1 with rfl | hm
    · rcases le_total a b with hab | hab
      · exact .inr (.inl (min_eq_left hab))
      · exact .inl (min_eq_right hab)
    · exact .inr (.inr hm)
  · have hmin : m ≤ min a b := h.2 (Set.mem_insert _ s)
    rcases hx with rfl | rfl | hx
    · exact hmin.trans (min_le_right _ _)
    · exact hmin.trans (min_le_left _ _)
    · exact h.2 (Set.mem_insert_of_mem _ hx)

/-- a step of the first loop that goes on -/
theorem timerLoop_cons {size i : Nat} {is : List Nat} {l l' : TimerLoop}
    (h : timerLoop readings size (i :: is) l = some (none, l')) :
    (l.timers[i]? = some none ∧ timerLoop readings size is l = some (none, l')) ∨
    (Present l.timers i ∧ readings.canceled i = true ∧
      timerLoop readings size is { l with timers := l.timers.set i none } = some (none, l')) ∨
    ∃ slot l₁ t, Present l.timers i ∧ readings.canceled i = false ∧
      l.guardConditions[size + i]? = some slot ∧ l.move slot = some l₁ ∧
      readings.untilNextCall i = some (.ok t) ∧
      timerLoop readings size is (l₁.use t) = some (none, l') := by
  unfold timerLoop at h
  match hslot : l.timers[i]? with
  | none =>
    rw [hslot] at h
    cases h
  | some none =>
    rw [hslot] at h
    exact .inl ⟨rfl, h⟩
  | some (some t₀) =>
    rw [hslot] at h
    simp only at h
    by_cases hc : readings.canceled i = true
    · rw [if_pos hc] at h
      exact .inr (.inl ⟨⟨t₀, hslot⟩, hc, h⟩)
    · rw [if_neg hc] at h
      obtain ⟨slot, hgc, h⟩ := Option.bind_eq_some_iff.mp h
      obtain ⟨l₁, hmove, h⟩ := Option.bind_eq_some_iff.mp h
      obtain ⟨r, hr, h⟩ := Option.bind_eq_some_iff.mp h
      cases r with
      | error e => cases h
      | ok t =>
        exact .inr (.inr ⟨slot, l₁, t, ⟨t₀, hslot⟩, Bool.eq_false_of_not_eq_true hc, hgc, hmove, hr,
          h⟩)

/-- **The first loop** finds the least time and remembers whether a timer was due before the
timeout. -/
theorem timerLoop_times {size : Nat} (is : List Nat) : ∀ l l' : TimerLoop, is.Nodup →
    timerLoop readings size is l = some (none, l') →
    IsLeast (insert l.minTimeout (timesOf readings l.timers is)) l'.minTimeout ∧
    (l'.isTimerTimeout = true ↔
      l.isTimerTimeout = true ∨ ∃ t ∈ timesOf readings l.timers is, t < l.minTimeout) := by
  induction is with
  | nil =>
    intro l l' _ h
    cases h
    have hempty : timesOf readings l.timers [] = ∅ := by
      refine Set.eq_empty_of_forall_notMem fun t ht => ?_
      obtain ⟨i, hi, -⟩ := ht
      exact absurd hi List.not_mem_nil
    rw [hempty]
    refine ⟨?_, .inl, fun h => h.resolve_right fun hex => ?_⟩
    · rw [insert_empty_eq]
      exact isLeast_singleton
    · obtain ⟨t, ht, -⟩ := hex
      exact absurd ht (Set.notMem_empty t)
  | cons i is ih =>
    intro l l' hnodup h
    obtain ⟨hi, hnodup⟩ := List.nodup_cons.mp hnodup
    rcases timerLoop_cons h with ⟨hslot, hrest⟩ | ⟨hpresent, hc, hrest⟩ |
      ⟨slot, l₁, t, hpresent, hc, -, hmove, ht, hrest⟩
    · have hskip : ¬ Present l.timers i := by
        intro hp
        obtain ⟨t, ht⟩ := hp
        rw [hslot] at ht
        cases ht
      rw [timesOf_cons_of_skipped is fun hp => hskip hp.1]
      exact ih l l' hnodup hrest
    · have hother : ∀ j ∈ is, Present (l.timers.set i none) j ↔ Present l.timers j :=
        fun j hj => present_set_of_ne (ne_of_mem_of_not_mem hj hi).symm none
      have hc' : ¬ readings.canceled i = false := by
        rw [hc]
        exact Bool.true_eq_false.mp
      rw [timesOf_cons_of_skipped is fun hp => hc' hp.2, ← timesOf_congr hother]
      exact ih _ l' hnodup hrest
    · obtain ⟨htimers, hold, hmin⟩ := TimerLoop.move_eq_some hmove
      obtain ⟨hleast, hflag⟩ := ih _ l' hnodup hrest
      rw [TimerLoop.use_timers, htimers, TimerLoop.use_minTimeout, hmin] at hleast hflag
      rw [TimerLoop.use_isTimerTimeout, hold, hmin] at hflag
      rw [timesOf_cons_of_used is hpresent hc ht]
      refine ⟨isLeast_insert_min hleast, ?_⟩
      rw [hflag, or_assoc]
      refine or_congr_right ⟨fun h => ?_, fun h => ?_⟩
      · rcases h with hlt | ⟨t', ht', hlt⟩
        · exact ⟨t, Set.mem_insert t _, hlt⟩
        · exact ⟨t', Set.mem_insert_of_mem t ht', hlt.trans_le (min_le_right _ _)⟩
      · obtain ⟨t', ht', hlt⟩ := h
        by_cases htl : t < l.minTimeout
        · exact .inl htl
        · rcases Set.mem_insert_iff.mp ht' with rfl | ht'
          · exact absurd hlt htl
          · exact .inr ⟨t', ht', lt_min (by omega) hlt⟩

/-- the canceled timers are dropped -/
theorem timerLoop_slots {size : Nat} (is : List Nat) : ∀ l l' : TimerLoop, is.Nodup →
    timerLoop readings size is l = some (none, l') → ∀ j t,
      (l'.timers[j]? = some (some t) ↔
        l.timers[j]? = some (some t) ∧ (j ∈ is → readings.canceled j = false)) := by
  induction is with
  | nil =>
    intro l l' _ h j t
    cases h
    exact (and_iff_left fun hj => absurd hj List.not_mem_nil).symm
  | cons i is ih =>
    intro l l' hnodup h j t
    obtain ⟨hi, hnodup⟩ := List.nodup_cons.mp hnodup
    rcases timerLoop_cons h with ⟨hslot, hrest⟩ | ⟨hpresent, hc, hrest⟩ |
      ⟨slot, l₁, time, hpresent, hc, -, hmove, -, hrest⟩
    · rw [ih l l' hnodup hrest j t]
      refine and_congr_right fun hj => ?_
      have hji : j ≠ i := fun heq => by
        rw [heq, hslot] at hj
        cases hj
      rw [List.mem_cons, or_iff_right hji]
    · rw [ih _ l' hnodup hrest j t]
      by_cases hji : j = i
      · subst hji
        refine ⟨fun hj => ?_, fun hj => ?_⟩
        · obtain ⟨t₀, ht₀⟩ := hpresent
          obtain ⟨hlt, -⟩ := List.getElem?_eq_some_iff.mp ht₀
          rw [List.getElem?_set_self hlt] at hj
          cases hj.1
        · rw [hj.2 List.mem_cons_self] at hc
          cases hc
      · rw [List.getElem?_set_ne (Ne.symm hji), List.mem_cons, or_iff_right hji]
    · rw [ih _ l' hnodup hrest j t, TimerLoop.use_timers, (TimerLoop.move_eq_some hmove).1,
        List.mem_cons]
      refine and_congr_right fun _ => ⟨fun hj hor => ?_, fun hj hin => hj (.inr hin)⟩
      rcases hor with rfl | hin
      · exact hc
      · exact hj hin

/-- **The second loop** drops the timers that are not ready. -/
theorem readyLoop_slots (is : List Nat) : ∀ timers timers', is.Nodup →
    readyLoop readings is timers = some (none, timers') → ∀ j t,
      (timers'[j]? = some (some t) ↔
        timers[j]? = some (some t) ∧ (j ∈ is → readings.ready j = some (.ok true))) := by
  induction is with
  | nil =>
    intro timers timers' _ h j t
    cases h
    exact (and_iff_left fun hj => absurd hj List.not_mem_nil).symm
  | cons i is ih =>
    intro timers timers' hnodup h j t
    obtain ⟨hi, hnodup⟩ := List.nodup_cons.mp hnodup
    unfold readyLoop at h
    match hslot : timers[i]? with
    | none =>
      rw [hslot] at h
      cases h
    | some none =>
      rw [hslot] at h
      rw [ih timers timers' hnodup h j t]
      refine and_congr_right fun hj => ?_
      have hji : j ≠ i := fun heq => by
        rw [heq, hslot] at hj
        cases hj
      rw [List.mem_cons, or_iff_right hji]
    | some (some t₀) =>
      rw [hslot] at h
      obtain ⟨r, hr, h⟩ := Option.bind_eq_some_iff.mp h
      match r with
      | .error e => cases h
      | .ok true =>
        rw [ih timers timers' hnodup h j t, List.mem_cons]
        refine and_congr_right fun _ => ⟨fun hj hor => ?_, fun hj hin => hj (.inr hin)⟩
        rcases hor with rfl | hin
        · exact hr
        · exact hj hin
      | .ok false =>
        rw [ih _ timers' hnodup h j t]
        by_cases hji : j = i
        · subst hji
          refine ⟨fun hj => ?_, fun hj => ?_⟩
          · obtain ⟨hlt, -⟩ := List.getElem?_eq_some_iff.mp hslot
            rw [List.getElem?_set_self hlt] at hj
            cases hj.1
          · rw [hj.2 List.mem_cons_self] at hr
            cases hr
        · rw [List.getElem?_set_ne (Ne.symm hji), List.mem_cons, or_iff_right hji]

theorem timerLoop_failure {size : Nat} {e : Failure} (is : List Nat) : ∀ l l' : TimerLoop,
    timerLoop readings size is l = some (some e, l') →
      ∃ i, readings.untilNextCall i = some (.error e) := by
  induction is with
  | nil =>
    intro l l' h
    cases h
  | cons i is ih =>
    intro l l' h
    unfold timerLoop at h
    match hslot : l.timers[i]? with
    | none =>
      rw [hslot] at h
      cases h
    | some none =>
      rw [hslot] at h
      exact ih l l' h
    | some (some t₀) =>
      rw [hslot] at h
      simp only at h
      by_cases hc : readings.canceled i = true
      · rw [if_pos hc] at h
        exact ih _ l' h
      · rw [if_neg hc] at h
        obtain ⟨slot, -, h⟩ := Option.bind_eq_some_iff.mp h
        obtain ⟨l₁, -, h⟩ := Option.bind_eq_some_iff.mp h
        obtain ⟨r, hr, h⟩ := Option.bind_eq_some_iff.mp h
        cases r with
        | error e' =>
          cases h
          exact ⟨i, hr⟩
        | ok t => exact ih _ l' h

theorem readyLoop_failure {e : Failure} (is : List Nat) : ∀ timers timers',
    readyLoop readings is timers = some (some e, timers') →
      ∃ i, readings.ready i = some (.error e) := by
  induction is with
  | nil =>
    intro timers timers' h
    cases h
  | cons i is ih =>
    intro timers timers' h
    unfold readyLoop at h
    match hslot : timers[i]? with
    | none =>
      rw [hslot] at h
      cases h
    | some none =>
      rw [hslot] at h
      exact ih timers timers' h
    | some (some t₀) =>
      rw [hslot] at h
      obtain ⟨r, hr, h⟩ := Option.bind_eq_some_iff.mp h
      match r with
      | .error e' =>
        cases h
        exact ⟨i, hr⟩
      | .ok true => exact ih timers timers' h
      | .ok false => exact ih _ timers' h

/-! ## the outcome -/

/-- the part behind `rmw_wait` hands nothing more out, and returns what `rmw_wait` and the first
loop told when the second loop gets through -/
theorem afterRmwWait_cases {w : WaitSet} {handed : Handed} {flag : Bool} {rmw : RmwWait}
    {r : WaitResult} (h : afterRmwWait w handed flag readings rmw = some r) :
    r.handed = some handed ∧
    ((∃ e i, readings.ready i = some (.error e) ∧ r.ret = .error e) ∨
      (rmw.ret = .error ∧ r.ret = .error .error) ∨
      ∃ timers, readyLoop readings (List.range w.timerIndex) w.timers = some (none, timers) ∧
        rmw.ret ≠ .error ∧
        r.ret = (if rmw.ret = .timeout && !flag then .error .timeout else .ok ()) ∧
        r.waitSet.timers = timers ∧
        ∀ k, r.waitSet.sets k = ((w.sets k).waited (rmw.ready k)).prune) := by
  obtain ⟨⟨failure, timers⟩, hloop, h⟩ := Option.bind_eq_some_iff.mp h
  cases failure with
  | some e =>
    cases h
    obtain ⟨i, hi⟩ := readyLoop_failure _ _ _ hloop
    exact ⟨rfl, .inl ⟨e, i, hi, rfl⟩⟩
  | none =>
    simp only at h
    by_cases herr : rmw.ret = .error
    · rw [if_pos herr] at h
      cases h
      exact ⟨rfl, .inr (.inl ⟨herr, rfl⟩)⟩
    · rw [if_neg herr] at h
      obtain ⟨w', hprune, h⟩ := Option.bind_eq_some_iff.mp h
      cases h
      unfold WaitSet.prune at hprune
      obtain ⟨-, rfl⟩ := Runs.guarded_eq_some.mp hprune
      exact ⟨rfl, .inr (.inr ⟨timers, hloop, herr, rfl, rfl, fun k => rfl⟩)⟩

end

section
variable (w : WaitSet) (first second : Nat → Timer × Reading)

/-- a timer is waited for: it was not canceled when the first loop looked at it -/
def Awaited (i : Nat) : Prop := Present w.timers i ∧ (first i).1.canceled = false

/-- the times until the next call of the timers that are waited for -/
def awaitedTimes : Set Int :=
  {t | ∃ i, Awaited w first i ∧ timerGetTimeUntilNextCall (first i).1 (first i).2 = some (.ok t)}

/-- a timer that is waited for was ready when the second loop looked at it -/
def ReadyAfter (i : Nat) : Prop :=
  Awaited w first i ∧ timerIsReady (second i).1 (second i).2 = some (.ok true)

/-- what `rmw_wait` is to be told -/
structure TimeoutArgument (timeout : Int) (argument : Option RmwTime) : Prop where
  zero : timeout = 0 → argument = some ⟨0, 0⟩
  null : argument = none ↔ timeout < 0 ∧ ¬ ∃ i, Awaited w first i
  least : ∀ time, argument = some time → timeout ≠ 0 → time.nsec < 1000000000 ∧
    ∃ m, IsLeast ({t | 0 < timeout ∧ t = timeout} ∪ awaitedTimes w first) m ∧
      (time.sec : Int) * 1000000000 + time.nsec = max 0 m

/-- what is to be left in the slots: the timers that are ready, and of the other entities only those
that `rmw_wait` has left, which are the ready ones among those it was handed -/
structure SlotsLeft (rmw : RmwWait) (w' : WaitSet) : Prop where
  timers : ∀ i t, w'.timers[i]? = some (some t) ↔
    w.timers[i]? = some (some t) ∧ ReadyAfter w first second i
  entities : ∀ (k : Kind) (i : Nat) (e : Entity), (w'.sets k).entities[i]? = some (some e) →
    (w.sets k).entities[i]? = some (some e) ∧ (∃ h, (w'.sets k).rmw[i]? = some (some h)) ∧
      (i < (w'.sets k).count → rmw.ready k i = true)

/-- there are no timers behind those that were added -/
def Filled : Prop := ∀ i, Present w.timers i → i < w.timerIndex

variable {w first second}

theorem timesOf_range (hw : Filled w) :
    timesOf (.of first second) w.timers (List.range w.timerIndex) = awaitedTimes w first := by
  ext t
  constructor
  · intro h
    obtain ⟨i, -, hp, hc, ht⟩ := h
    exact ⟨i, ⟨hp, hc⟩, ht⟩
  · intro h
    obtain ⟨i, ⟨hp, hc⟩, ht⟩ := h
    exact ⟨i, List.mem_range.mpr (hw i hp), hp, hc, ht⟩

theorem split_time {m : Int} (hm : 0 ≤ m) :
    ((m % 1000000000).toNat) < 1000000000 ∧
      (((m / 1000000000).toNat : Nat) : Int) * 1000000000 + ((m % 1000000000).toNat : Nat) = m := by
  omega

/-- the argument that is made of the least time -/
theorem least_of_minTimeout {timeout m : Int} {s : Set Int} (hleast : IsLeast s m) {time : RmwTime}
    (htime : (⟨((if m < 0 then 0 else m) / 1000000000).toNat,
      ((if m < 0 then 0 else m) % 1000000000).toNat⟩ : RmwTime) = time)
    (hs : s = {t | 0 < timeout ∧ t = timeout} ∪ awaitedTimes w first) :
    time.nsec < 1000000000 ∧
      ∃ m, IsLeast ({t | 0 < timeout ∧ t = timeout} ∪ awaitedTimes w first) m ∧
        (time.sec : Int) * 1000000000 + time.nsec = max 0 m := by
  have hmax : (if m < 0 then 0 else m) = max 0 m := by
    split
    · next h => exact (max_eq_left h.le).symm
    · next h => exact (max_eq_right (not_lt.mp h)).symm
  rw [hmax] at htime
  obtain ⟨hlt, hsum⟩ := split_time (le_max_left 0 m)
  rw [← htime]
  exact ⟨hlt, m, hs ▸ hleast, hsum⟩

theorem timeoutArgument_iff {timeout : Int} {l : TimerLoop}
    (hleast : IsLeast (insert (boundOf timeout) (awaitedTimes w first)) l.minTimeout)
    (hflag : l.isTimerTimeout = true ↔ ∃ t ∈ awaitedTimes w first, t < boundOf timeout) :
    TimeoutArgument w first timeout (timeoutArgument timeout l) ↔
      (timeout < 0 → (∃ i, Awaited w first i) → ∃ t ∈ awaitedTimes w first, t < int64Max) := by
  unfold timeoutArgument
  rcases lt_trichotomy timeout 0 with hneg | hzero | hpos
  · have hbound : boundOf timeout = int64Max := if_neg (by omega)
    rw [hbound] at hleast hflag
    rw [if_neg (by omega)]
    cases hf : l.isTimerTimeout with
    | true =>
      obtain ⟨t, ht, hlt⟩ := hflag.mp hf
      obtain ⟨i, hi, -⟩ := id ht
      rw [if_pos (by rw [Bool.or_true])]
      refine ⟨fun _ _ _ => ⟨t, ht, hlt⟩, fun _ => ⟨?_, ?_, ?_⟩⟩
      · exact fun h => absurd h (by omega)
      · exact ⟨fun h => (by cases h), fun h => absurd ⟨i, hi⟩ h.2⟩
      · intro time htime _
        -- the least time is a timer's, since one of them is before the bound
        have hmin : l.minTimeout < int64Max := (hleast.2 (Set.mem_insert_of_mem _ ht)).trans_lt hlt
        have hmem : l.minTimeout ∈ awaitedTimes w first :=
          (Set.mem_insert_iff.mp hleast.1).resolve_left hmin.ne
        refine least_of_minTimeout (s := awaitedTimes w first)
          ⟨hmem, fun x hx => hleast.2 (Set.mem_insert_of_mem _ hx)⟩ (Option.some.inj htime) ?_
        ext x
        exact ⟨.inr, fun h => h.resolve_left fun hx => absurd hx.1 (by omega)⟩
    | false =>
      have hnone : ¬ ∃ t ∈ awaitedTimes w first, t < int64Max := by
        rw [← hflag, hf]
        exact Bool.false_ne_true
      rw [if_neg (by rw [Bool.or_false, decide_eq_true_eq]; omega)]
      constructor
      · intro h _ hi
        exact absurd hi (h.null.mp rfl).2
      · intro h
        refine ⟨fun hz => absurd hz (by omega), ⟨fun _ => ⟨hneg, fun hi => hnone (h hneg hi)⟩,
          fun _ => rfl⟩, fun time htime => (by cases htime)⟩
  · rw [if_pos hzero]
    refine ⟨fun _ h => absurd h (by omega), fun _ => ⟨fun _ => rfl, ?_, fun _ _ h => absurd hzero h⟩⟩
    exact ⟨fun h => (by cases h), fun h => absurd h.1 (by omega)⟩
  · have hbound : boundOf timeout = timeout := if_pos hpos
    rw [hbound] at hleast
    rw [if_neg (by omega), if_pos (by rw [decide_eq_true hpos, Bool.true_or])]
    refine ⟨fun _ h => absurd h (by omega), fun _ => ⟨fun h => absurd h (by omega), ?_, ?_⟩⟩
    · exact ⟨fun h => (by cases h), fun h => absurd h.1 (by omega)⟩
    · intro time htime _
      refine least_of_minTimeout hleast (Option.some.inj htime) ?_
      ext x
      rw [Set.mem_insert_iff]
      exact or_congr_left ⟨fun h => ⟨hpos, h⟩, fun h => h.2⟩

/-- a handle that is left has an `rmw` slot that is not `NULL` -/
theorem EntitySet.of_prune {s : EntitySet} {i : Nat} {e : Entity}
    (h : s.prune.entities[i]? = some (some e)) :
    s.entities[i]? = some (some e) ∧ ∃ h, s.rmw[i]? = some (some h) := by
  unfold EntitySet.prune at h
  rw [List.getElem?_mapIdx, Option.map_eq_some_iff] at h
  obtain ⟨slot, hslot, hif⟩ := h
  by_cases hrmw : (s.rmw.getD i none).isSome = true
  · rw [if_pos hrmw] at hif
    subst hif
    refine ⟨hslot, ?_⟩
    rw [List.getD_eq_getElem?_getD] at hrmw
    cases hr : s.rmw[i]? with
    | none =>
      rw [hr] at hrmw
      cases hrmw
    | some slot =>
      rw [hr] at hrmw
      obtain ⟨handle, rfl⟩ := Option.isSome_iff_exists.mp hrmw
      exact ⟨handle, rfl⟩
  · rw [if_neg hrmw] at hif
    cases hif

theorem EntitySet.of_waited {s : EntitySet} {ready : Nat → Bool} {i h : Nat}
    (hh : (s.waited ready).rmw[i]? = some (some h)) (hi : i < s.count) : ready i = true := by
  unfold EntitySet.waited at hh
  rw [List.getElem?_mapIdx, Option.map_eq_some_iff] at hh
  obtain ⟨slot, -, hif⟩ := hh
  by_contra hready
  rw [if_pos (by rw [decide_eq_true hi, Bool.eq_false_iff.mpr hready]; rfl)] at hif
  cases hif

theorem slotsLeft_of_loops (hw : Filled w) {rmw : RmwWait} {l : TimerLoop}
    {timers : List (Option TimerHandle)} {w' : WaitSet}
    (hfirst : ∀ j t, l.timers[j]? = some (some t) ↔ w.timers[j]? = some (some t) ∧
      (j ∈ List.range w.timerIndex → (first j).1.canceled = false))
    (hsecond : ∀ j t, timers[j]? = some (some t) ↔ l.timers[j]? = some (some t) ∧
      (j ∈ List.range w.timerIndex → timerIsReady (second j).1 (second j).2 = some (.ok true)))
    (htimers : w'.timers = timers)
    (hsets : ∀ k, w'.sets k = (((w.moved l).sets k).waited (rmw.ready k)).prune) :
    SlotsLeft w first second rmw w' := by
  refine ⟨fun i t => ?_, fun k i e he => ?_⟩
  · rw [htimers, hsecond, hfirst, and_assoc]
    refine and_congr_right fun ht => ?_
    have hi : i ∈ List.range w.timerIndex := List.mem_range.mpr (hw i ⟨t, ht⟩)
    refine ⟨fun h => ⟨⟨⟨t, ht⟩, h.1 hi⟩, h.2 hi⟩, fun h => ⟨fun _ => h.1.2, fun _ => h.2⟩⟩
  · have hent : ((w.moved l).sets k).entities = (w.sets k).entities := by
      show ((w.update .guardCondition _).sets k).entities = _
      by_cases hk : k = .guardCondition
      · subst hk
        rw [update_sets_self]
      · rw [update_sets_of_ne w hk]
    rw [hsets] at he ⊢
    obtain ⟨hslot, hrmw⟩ := EntitySet.of_prune he
    rw [← hent]
    exact ⟨hslot, hrmw, fun hi => hrmw.elim fun _ hh => EntitySet.of_waited hh hi⟩

theorem reading_of_untilNextCall {t : Timer} {now : Reading} {e : Failure}
    (h : timerGetTimeUntilNextCall t now = some (.error e)) : now = .error e := by
  unfold timerGetTimeUntilNextCall at h
  cases now with
  | error e' =>
    cases h
    rfl
  | ok now =>
    obtain ⟨x, -, hx⟩ := Option.bind_eq_some_iff.mp h
    cases hx

theorem reading_of_isReady {t : Timer} {now : Reading} {e : Failure}
    (h : timerIsReady t now = some (.error e)) : now = .error e := by
  obtain ⟨r, hr, h⟩ := Option.bind_eq_some_iff.mp h
  cases r with
  | error e' =>
    cases h
    exact reading_of_untilNextCall hr
  | ok time => cases h

/-- **The outcome of `rcl_wait`.**  `rmw_wait` is told what it is to be told, unless the wait is
without end and every timer that is waited for is as far away as can be; the slots are left as they
are to be left; and the result is a timeout when `rmw_wait` timed out and no timer is ready exactly
when, where it times out, some timer was due before the timeout if and only if some timer is
ready. -/
theorem wait_outcome_iff (hw : Filled w) (timeout : Int)
    (hclock : ∀ i, (first i).2 ≠ .error .timeout ∧ (second i).2 ≠ .error .timeout) (rmw : RmwWait)
    {r : WaitResult} (h : rclWait w timeout (.of first second) rmw = some r) :
    (∀ handed, r.handed = some handed →
      (TimeoutArgument w first timeout handed.timeout ↔
        (timeout < 0 → (∃ i, Awaited w first i) → ∃ t ∈ awaitedTimes w first, t < int64Max))) ∧
    (r.ret = .ok () ∨ r.ret = .error .timeout →
      SlotsLeft w first second rmw r.waitSet ∧
      ((r.ret = .error .timeout ↔
          rmw.ret = .timeout ∧ ¬ ∃ i, ReadyAfter w first second i) ↔
        (rmw.ret = .timeout →
          ((∃ t ∈ awaitedTimes w first, t < boundOf timeout) ↔
            ∃ i, ReadyAfter w first second i)))) := by
  have hreturned : ∀ e : Failure, e ≠ .timeout → r.ret = .error e →
      ¬ (r.ret = .ok () ∨ r.ret = .error .timeout) := by
    intro e he hret hor
    rw [hret] at hor
    rcases hor with hok | htimeout
    · cases hok
    · exact he (Except.error.inj htimeout)
  unfold rclWait at h
  by_cases hempty : ((Kind.all.all fun k => (w.sets k).entities = []) && w.timers = []) = true
  · rw [if_pos hempty] at h
    cases h
    exact ⟨fun _ hh => (by cases hh), fun hor => absurd hor (hreturned .waitSetEmpty (by decide) rfl)⟩
  rw [if_neg hempty] at h
  obtain ⟨⟨failure, l⟩, hloop, h⟩ := Option.bind_eq_some_iff.mp h
  cases failure with
  | some e =>
    obtain ⟨i, hi⟩ := timerLoop_failure _ _ _ hloop
    have he : e ≠ .timeout := fun heq => (hclock i).1 (heq ▸ reading_of_untilNextCall hi)
    cases h
    exact ⟨fun _ hh => (by cases hh), fun hor => absurd hor (hreturned e he rfl)⟩
  | none =>
    obtain ⟨hleast, hflag⟩ := timerLoop_times _ _ _ List.nodup_range hloop
    rw [timesOf_range hw] at hleast hflag
    have hfirst := timerLoop_slots _ _ _ List.nodup_range hloop
    have hflag' : l.isTimerTimeout = true ↔ ∃ t ∈ awaitedTimes w first, t < boundOf timeout := by
      rw [hflag]
      exact or_iff_right Bool.false_ne_true
    obtain ⟨hhanded, hcases⟩ := afterRmwWait_cases h
    refine ⟨fun handed hh => ?_, fun hor => ?_⟩
    · obtain rfl := Option.some.inj (hhanded.symm.trans hh)
      exact timeoutArgument_iff hleast hflag'
    · rcases hcases with ⟨e, i, hi, hret⟩ | ⟨-, hret⟩ | ⟨timers, hready, hrmw, hret, htimers, hsets⟩
      · have he : e ≠ .timeout := fun heq => (hclock i).2 (heq ▸ reading_of_isReady hi)
        exact absurd hor (hreturned e he hret)
      · exact absurd hor (hreturned .error (by decide) hret)
      · have hsecond := readyLoop_slots _ _ _ List.nodup_range hready
        refine ⟨slotsLeft_of_loops hw hfirst hsecond htimers hsets, ?_⟩
        have hif : r.ret = .error .timeout ↔ rmw.ret = .timeout ∧
            ¬ ∃ t ∈ awaitedTimes w first, t < boundOf timeout := by
          rw [hret, ← hflag', Bool.not_eq_true]
          by_cases hcond : (decide (rmw.ret = .timeout) && !l.isTimerTimeout) = true
          · rw [if_pos hcond]
            rw [Bool.and_eq_true, decide_eq_true_eq, Bool.not_eq_true'] at hcond
            exact iff_of_true rfl hcond
          · rw [if_neg hcond]
            rw [Bool.and_eq_true, decide_eq_true_eq, Bool.not_eq_true'] at hcond
            exact iff_of_false nofun hcond
        rw [hif]
        by_cases htimeout : rmw.ret = .timeout
        · rw [and_iff_right htimeout, and_iff_right htimeout, forall_prop_of_true htimeout]
          exact not_iff_not
        · exact iff_of_true (iff_of_false (fun hc => htimeout hc.1) fun hc => htimeout hc.1)
            fun hc => absurd hc htimeout

end

def oneTimer : WaitSet where
  sets := fun k => match k with
    | .guardCondition => { rmw := [none] }
    | _ => {}
  timers := [some { address := 1 }]
  timerIndex := 1

def tenSeconds : Timer := { period := 10000000000, lastCallTime := 0, nextCallTime := 10000000000 }

/-- a timer that is due before the timeout and is ready then: no timeout is returned -/
theorem wait_outcome_iff_due :
    ∃ r, rclWait oneTimer 5000000000
        (.of (fun _ => (tenSeconds, .ok 9000000000)) fun _ => (tenSeconds, .ok 10000000000))
        ⟨.timeout, fun _ _ => false⟩ = some r ∧
      (r.ret = .error .timeout ↔ RmwRet.timeout = .timeout ∧
        ¬ ∃ i, ReadyAfter oneTimer (fun _ => (tenSeconds, .ok 9000000000))
          (fun _ => (tenSeconds, .ok 10000000000)) i) := by
  have hfilled : Filled oneTimer := by
    intro i hi
    obtain ⟨t, ht⟩ := hi
    obtain ⟨hlt, -⟩ := List.getElem?_eq_some_iff.mp ht
    exact hlt
  have hclock : ∀ now : Int, (.ok now : Reading) ≠ .error .timeout := by
    intro now h
    cases h
  have hawaited : Awaited oneTimer (fun _ => (tenSeconds, .ok 9000000000)) 0 := ⟨⟨_, rfl⟩, rfl⟩
  refine ⟨_, rfl, ((wait_outcome_iff hfilled 5000000000
    (fun _ => ⟨hclock _, hclock _⟩) ⟨.timeout, fun _ _ => false⟩ rfl).2 (.inl rfl)).2.mpr fun _ =>
      iff_of_true ?_ ?_⟩
  · exact ⟨1000000000, ⟨0, hawaited, rfl⟩, by decide⟩
  · exact ⟨0, hawaited, rfl⟩

/-- a timer that is not due for ten seconds hides the timeout of a wait that does not block -/
theorem far_timer_hides_timeout :
    ∃ r, rclWait oneTimer 0 (.of (fun _ => (tenSeconds, .ok 0)) fun _ => (tenSeconds, .ok 0))
        ⟨.timeout, fun _ _ => false⟩ = some r ∧
      timerIsReady tenSeconds (.ok 0) = some (.ok false) ∧
      r.waitSet.timers = [none] ∧ r.ret = .ok () :=
  ⟨_, rfl, rfl, rfl, rfl⟩

end PMROS2.Rcl
