import PMROS2.Rcl.Timer
import PMROS2.RclAction.ActionServer

/-!
# The expire timer of an action server

`_recalculate_expire_timer` on the timer itself.  It computes how long it is until the next goal
expires, resets the timer, which schedules it by the period that it has, and exchanges the period
afterwards.

* `recalculateLoop_spec`     the loop counts the goals that are not active and finds the minimum;
* `refines_period`           what `recalculateExpireTimer` says about the period is what happens;
* `firesAtExpiry_iff`        the timer fires when the next goal expires exactly when its old period
                             was the right one already.
-/

namespace PMROS2.RclAction
open Checked Rcl

variable {ι : Type*} (impl : ι → GoalHandleImpl)

/-! ## the function -/

/-- the loop of `_recalculate_expire_timer`, with `num_inactive_goals` and `minimum_period` -/
def recalculateLoop (timeout now : Int) : List ι → Nat → Int → Option (Nat × Int)
  | [], numInactiveGoals, minimumPeriod => some (numInactiveGoals, minimumPeriod)
  | h :: hs, numInactiveGoals, minimumPeriod =>
    if (impl h).state.isActive then recalculateLoop timeout now hs numInactiveGoals minimumPeriod
    else do
      let age ← int64 (now - (goalInfoStampToNanosec (impl h).info).toInt)
      let delta ← int64 (timeout - age)
      recalculateLoop timeout now hs (numInactiveGoals + 1)
        (if delta < minimumPeriod then delta else minimumPeriod)

/-- `_recalculate_expire_timer`; the clock is read once more by `rcl_timer_reset` -/
def recalculateTimer (expireTimer : Timer) (timeout : Int) (goalHandles : List ι)
    (now resetNow : Reading) : Option (Except Failure Unit × Timer) :=
  match now with
  | .error _ => some (.error .error, expireTimer)
  | .ok currentTime => do
    let (numInactiveGoals, minimumPeriod) ←
      recalculateLoop impl timeout currentTime goalHandles 0 timeout
    if goalHandles.length = 0 ∨ numInactiveGoals = 0 then
      return (.ok (), timerCancel expireTimer)
    else
      let minimumPeriod := if minimumPeriod < 0 then 0 else minimumPeriod
      match ← timerReset expireTimer resetNow with
      | (.error e, expireTimer) => return (.error e, expireTimer)
      | (.ok (), expireTimer) =>
        return (.ok (), (timerExchangePeriod expireTimer minimumPeriod).2)

/-! ## the loop -/

/-- how long it is until a goal expires -/
def untilExpiry (timeout now : Int) (h : ι) : Int :=
  timeout - (now - (goalInfoStampToNanosec (impl h).info).toInt)

/-- the goals that are not active -/
def inactive (goalHandles : List ι) : List ι := goalHandles.filter fun h => !(impl h).state.isActive

variable {impl}

theorem inactive_cons (h : ι) (hs : List ι) :
    inactive impl (h :: hs) =
      if (impl h).state.isActive then inactive impl hs else h :: inactive impl hs := by
  unfold inactive
  rw [List.filter_cons]
  cases (impl h).state.isActive <;> rfl

theorem mem_inactive {goalHandles : List ι} {h : ι} :
    h ∈ inactive impl goalHandles ↔ h ∈ goalHandles ∧ (impl h).state.isActive = false := by
  unfold inactive
  rw [List.mem_filter, Bool.not_eq_true']

/-- the loop counts the goals that are not active and takes the minimum of their times -/
theorem recalculateLoop_spec {timeout now : Int} {goalHandles : List ι} {n : Nat} {m : Int}
    {r : Nat × Int} (h : recalculateLoop impl timeout now goalHandles n m = some r) :
    r = (n + (inactive impl goalHandles).length,
      ((inactive impl goalHandles).map (untilExpiry impl timeout now)).foldl min m) ∧
    ∀ g ∈ inactive impl goalHandles,
      Fits (now - (goalInfoStampToNanosec (impl g).info).toInt) ∧
        Fits (untilExpiry impl timeout now g) := by
  induction goalHandles generalizing n m with
  | nil =>
    obtain rfl := Option.some.inj h
    exact ⟨rfl, fun g hg => absurd hg List.not_mem_nil⟩
  | cons g goalHandles ih =>
    rw [recalculateLoop] at h
    rw [inactive_cons]
    cases ha : (impl g).state.isActive with
    | true =>
      rw [ha, if_pos rfl] at h
      rw [if_pos rfl]
      exact ih h
    | false =>
      rw [ha, if_neg Bool.false_ne_true] at h
      obtain ⟨hage, h⟩ := int64_bind_eq_some.mp h
      obtain ⟨hdelta, h⟩ := int64_bind_eq_some.mp h
      obtain ⟨hr, hfits⟩ := ih h
      have hmin : (if untilExpiry impl timeout now g < m then untilExpiry impl timeout now g
          else m) = min m (untilExpiry impl timeout now g) := by
        rw [min_comm, min_def_lt]
      rw [if_neg Bool.false_ne_true, List.length_cons, List.map_cons, List.foldl_cons, ← hmin, hr]
      refine ⟨?_, fun k hk => ?_⟩
      · show (n + 1 + _, _) = _
        rw [Nat.add_right_comm, Nat.add_assoc]
        rfl
      · rcases List.mem_cons.mp hk with rfl | hk
        · exact ⟨hage, hdelta⟩
        · exact hfits k hk

/-! ## the timer afterwards -/

/-- the timer after a call that returns `RCL_RET_OK` -/
theorem recalculateTimer_ok {t t' : Timer} {timeout now resetNow : Int} {goalHandles : List ι}
    (h : recalculateTimer impl t timeout goalHandles (.ok now) (.ok resetNow) =
      some (.ok (), t')) :
    (inactive impl goalHandles = [] ∧ t' = timerCancel t) ∨
    (inactive impl goalHandles ≠ [] ∧ t' =
      { t with
        nextCallTime := resetNow + t.loadPeriod
        canceled := false
        period := toUnsigned (max 0
          (((inactive impl goalHandles).map (untilExpiry impl timeout now)).foldl min timeout)) }) := by
  unfold recalculateTimer at h
  obtain ⟨r, hloop, h⟩ := Option.bind_eq_some_iff.mp h
  obtain ⟨rfl, -⟩ := recalculateLoop_spec hloop
  dsimp only at h
  rw [Nat.zero_add] at h
  by_cases hnone : inactive impl goalHandles = []
  · left
    rw [if_pos (.inr (by rw [hnone]; rfl))] at h
    exact ⟨hnone, (congrArg Prod.snd (Option.some.inj h)).symm⟩
  · right
    have hsome : ¬ (goalHandles.length = 0 ∨ (inactive impl goalHandles).length = 0) := by
      intro hzero
      rcases hzero with hzero | hzero
      · rw [List.length_eq_zero_iff.mp hzero] at hnone
        exact hnone rfl
      · exact hnone (List.length_eq_zero_iff.mp hzero)
    rw [if_neg hsome] at h
    obtain ⟨r, hreset, h⟩ := Option.bind_eq_some_iff.mp h
    obtain ⟨-, hreset⟩ := int64_bind_eq_some.mp hreset
    obtain rfl := Option.some.inj hreset
    have hmax : ∀ m : Int, (if m < 0 then 0 else m) = max 0 m := fun m => by
      split
      · exact (max_eq_left (by omega)).symm
      · exact (max_eq_right (by omega)).symm
    have ht := congrArg Prod.snd (Option.some.inj h)
    dsimp only at ht
    rw [hmax] at ht
    exact ⟨hnone, ht.symm⟩

theorem toInt_untilExpiry {timeout now : Int64} {h : ι}
    (hage : Fits (now.toInt - (goalInfoStampToNanosec (impl h).info).toInt))
    (hdelta : Fits (untilExpiry impl timeout.toInt now.toInt h)) :
    (timeout - (now - goalInfoStampToNanosec (impl h).info)).toInt =
      untilExpiry impl timeout.toInt now.toInt h := by
  have hage' := toInt_sub_of_fits hage
  rw [toInt_sub_of_fits]
  · rw [hage']
    rfl
  · rw [hage']
    exact hdelta

theorem toInt_minimum {timeout now : Int64} {goals : List ι} (m : Int64)
    (hfits : ∀ g ∈ goals, Fits (now.toInt - (goalInfoStampToNanosec (impl g).info).toInt) ∧
      Fits (untilExpiry impl timeout.toInt now.toInt g)) :
    (goals.foldl (fun period h =>
      let delta := timeout - (now - goalInfoStampToNanosec (impl h).info)
      if delta < period then delta else period) m).toInt =
    (goals.map (untilExpiry impl timeout.toInt now.toInt)).foldl min m.toInt := by
  induction goals generalizing m with
  | nil => rfl
  | cons g goals ih =>
    have hg := hfits g List.mem_cons_self
    have hdelta := toInt_untilExpiry hg.1 hg.2
    have hstep : (if timeout - (now - goalInfoStampToNanosec (impl g).info) < m then
          timeout - (now - goalInfoStampToNanosec (impl g).info) else m).toInt =
        min m.toInt (untilExpiry impl timeout.toInt now.toInt g) := by
      rw [apply_ite Int64.toInt, min_comm, min_def_lt, ← hdelta]
      simp only [Int64.lt_iff_toInt_lt]
    rw [List.foldl_cons, List.map_cons, List.foldl_cons, ← hstep]
    exact ih _ fun k hk => hfits k (List.mem_cons_of_mem g hk)

/-- **The period** that `recalculateExpireTimer` gives is the one the timer gets. -/
theorem refines_period {t t' : Timer} {timeout now : Int64} {resetNow : Int} {goalHandles : List ι}
    (h : recalculateTimer impl t timeout.toInt goalHandles (.ok now.toInt) (.ok resetNow) =
      some (.ok (), t')) :
    (recalculateExpireTimer impl timeout goalHandles now).map Int64.toInt =
      if t'.canceled then none else some t'.loadPeriod := by
  have hfits : ∀ g ∈ inactive impl goalHandles,
      Fits (now.toInt - (goalInfoStampToNanosec (impl g).info).toInt) ∧
        Fits (untilExpiry impl timeout.toInt now.toInt g) := by
    obtain ⟨r, hloop, -⟩ := Option.bind_eq_some_iff.mp h
    exact (recalculateLoop_spec hloop).2
  unfold recalculateExpireTimer
  rcases recalculateTimer_ok h with ⟨hnone, rfl⟩ | ⟨hsome, rfl⟩
  · unfold inactive at hnone
    rw [hnone]
    rfl
  · have hne : ((goalHandles.filter fun h => !(impl h).state.isActive).isEmpty) = false := by
      rw [Bool.eq_false_iff]
      intro he
      exact hsome (List.isEmpty_iff.mp he)
    have hmin := toInt_minimum timeout hfits
    have hclamp : ∀ x : Int64, (if x < 0 then 0 else x).toInt =
        toSigned (toUnsigned (max 0 x.toInt)) := by
      intro x
      have hrange := fits_toInt x
      have hmax : Fits (max 0 x.toInt) := by
        unfold Fits at *
        omega
      rw [toSigned_toUnsigned hmax]
      split
      · rename_i hneg
        exact (max_eq_left (Int64.lt_iff_toInt_lt.mp hneg).le).symm
      · rename_i hneg
        exact (max_eq_right (Int.not_lt.mp fun hlt => hneg (Int64.lt_iff_toInt_lt.mpr hlt))).symm
    unfold inactive at hmin
    simp only [hne, Bool.false_eq_true, if_false, Option.map_some, Option.some_inj]
    rw [hclamp, hmin]
    rfl

/-- the timer is canceled when no goal is inactive, and else fires when the next goal expires -/
structure FiresAtExpiry (impl : ι → GoalHandleImpl) (timeout now : Int) (goalHandles : List ι)
    (t : Timer) : Prop where
  canceled : (∀ h ∈ goalHandles, (impl h).state.isActive = true) → t.canceled = true
  fires : (∃ h ∈ goalHandles, (impl h).state.isActive = false) →
    t.canceled = false ∧ ∃ m, IsLeast {d | ∃ h ∈ goalHandles, (impl h).state.isActive = false ∧
      d = untilExpiry impl timeout now h} m ∧ t.nextCallTime = now + max 0 m

/-- **The expire timer** fires when the next goal expires exactly when no goal is inactive or the
period that it had is the time until then. -/
theorem firesAtExpiry_iff (impl : ι → GoalHandleImpl) (t t' : Timer) (timeout now : Int)
    (goalHandles : List ι)
    (h : recalculateTimer impl t timeout goalHandles (.ok now) (.ok now) = some (.ok (), t')) :
    FiresAtExpiry impl timeout now goalHandles t' ↔
      (∀ g ∈ goalHandles, (impl g).state.isActive = true) ∨
      ∃ m, IsLeast {d | ∃ g ∈ goalHandles, (impl g).state.isActive = false ∧
        d = untilExpiry impl timeout now g} m ∧ t.loadPeriod = max 0 m := by
  rcases recalculateTimer_ok h with ⟨hnone, rfl⟩ | ⟨hsome, rfl⟩
  · have hactive : ∀ g ∈ goalHandles, (impl g).state.isActive = true := by
      intro g hg
      by_contra hg'
      have hmem := mem_inactive.mpr ⟨hg, Bool.eq_false_of_not_eq_true hg'⟩
      rw [hnone] at hmem
      exact List.not_mem_nil hmem
    refine ⟨fun _ => .inl hactive, fun _ => ⟨fun _ => rfl, fun hsome => ?_⟩⟩
    obtain ⟨g, hg, hg'⟩ := hsome
    rw [hactive g hg] at hg'
    cases hg'
  · obtain ⟨g, hg⟩ := List.exists_mem_of_ne_nil _ hsome
    obtain ⟨hmem, hinactive⟩ := mem_inactive.mp hg
    constructor
    · intro hfires
      obtain ⟨-, m, hleast, hnext⟩ := hfires.fires ⟨g, hmem, hinactive⟩
      have hnext' : now + t.loadPeriod = now + max 0 m := hnext
      exact .inr ⟨m, hleast, by omega⟩
    · intro hperiod
      rcases hperiod with hactive | ⟨m, hleast, hm⟩
      · rw [hactive g hmem] at hinactive
        cases hinactive
      · refine ⟨fun hactive => ?_, fun _ => ⟨rfl, m, hleast, ?_⟩⟩
        · rw [hactive g hmem] at hinactive
          cases hinactive
        · show now + t.loadPeriod = now + max 0 m
          rw [hm]

def endedGoal : Nat → GoalHandleImpl :=
  fun _ => { info := { goalId := 1, stamp := { sec := 100 } }, state := .succeeded }

theorem isLeast_endedGoal : IsLeast {d | ∃ g ∈ [0], (endedGoal g).state.isActive = false ∧
    d = untilExpiry endedGoal 10000000000 104000000000 g} 6000000000 := by
  have hleft : 6000000000 = untilExpiry endedGoal 10000000000 104000000000 0 := by decide
  refine ⟨⟨0, List.mem_singleton_self 0, rfl, hleft⟩, fun d hd => ?_⟩
  obtain ⟨g, hg, -, hd⟩ := hd
  rw [hd, List.mem_singleton.mp hg, ← hleft]

/-- the period is the six seconds that are left -/
theorem firesAtExpiry_iff_same_period :
    FiresAtExpiry endedGoal 10000000000 104000000000 [0]
      { period := 6000000000, lastCallTime := 0, nextCallTime := 110000000000 } := by
  refine (firesAtExpiry_iff endedGoal { period := 6000000000, lastCallTime := 0, nextCallTime := 0 }
    _ 10000000000 104000000000 [0] (by decide)).mpr ?_
  refine .inr ⟨6000000000, isLeast_endedGoal, ?_⟩
  show toSigned 6000000000 = max 0 6000000000
  rw [toSigned_of_lt (by decide)]
  rfl

/-- with a timeout of ten seconds a timer that is fresh from `rcl_action_server_init` fires four
seconds too late -/
theorem first_goal_expires_too_late :
    ∃ t', recalculateTimer endedGoal
        { period := 10000000000, lastCallTime := 90000000000, nextCallTime := 100000000000,
          canceled := true } 10000000000 [0] (.ok 104000000000) (.ok 104000000000) =
          some (.ok (), t') ∧
      ¬ FiresAtExpiry endedGoal 10000000000 104000000000 [0] t' := by
  refine ⟨{ period := 6000000000, lastCallTime := 90000000000, nextCallTime := 114000000000 },
    by decide, fun h => ?_⟩
  obtain ⟨-, m, hleast, hnext⟩ := h.fires ⟨0, List.mem_singleton_self 0, rfl⟩
  obtain rfl := hleast.unique isLeast_endedGoal
  have hnext' : (114000000000 : Int) = 104000000000 + max 0 6000000000 := hnext
  omega

end PMROS2.RclAction
