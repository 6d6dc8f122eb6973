import PMROS2.Lib.Grid
import PMROS2.Lib.Runs
import PMROS2.Rcl.Timer

/-!
# The schedule of a timer

What `rcl_timer_call` does to the next call time, and what the `ActivationJitterTracker` of
`rclcpp` makes of the activation.

* `CallFits`             when the arithmetic of a call does not overflow;
* `timerCall_eq_some`    the timer after a call;
* `timerCall_schedule`   a call moves the next call time by the least number of whole periods, at
                         least one, that does not leave it in the past; no run of calls leaves the
                         grid of the periods.
-/

namespace PMROS2.Rcl
open Checked Runs Grid

/-! ## one call -/

def scheduled (nextCallTime period now : Int) : Int :=
  if nextCallTime + period < now then
    if period = 0 then now else atOrAfter nextCallTime period now
  else nextCallTime + period

/-- the arithmetic on the next call time does not overflow -/
structure NextFits (nextCallTime period now : Int) : Prop where
  next : Fits (nextCallTime + period)
  ahead : nextCallTime + period < now → 0 < period → Fits (now - (nextCallTime + period))
  skipped : nextCallTime + period < now → 0 < period →
    Fits (atOrAfter nextCallTime period now - (nextCallTime + period))
  scheduled : nextCallTime + period < now → 0 < period → Fits (atOrAfter nextCallTime period now)

/-- no overflow in a call -/
structure CallFits (t : Timer) (now : Int) : Prop where
  next : NextFits t.nextCallTime t.period now
  sinceLastCall : t.callback = true → Fits (now - t.lastCallTime)

theorem Timer.loadPeriod_eq {t : Timer} (hp : t.period < 2 ^ 63) : t.loadPeriod = t.period :=
  toSigned_of_lt hp

/-- the steps of the skip ahead -/
theorem skip_eq {nextCallTime period now : Int} (hp : 0 < period)
    (hlate : nextCallTime + period < now) :
    (do
      let nowAhead ← int64 (now - (nextCallTime + period))
      let nowAhead ← int64 (nowAhead - 1)
      let periodsAhead ← int64 (1 + nowAhead.tdiv period)
      let ahead ← int64 (periodsAhead * period)
      int64 (nextCallTime + period + ahead)) =
    (do
      let _ ← int64 (now - (nextCallTime + period))
      let _ ← int64 (atOrAfter nextCallTime period now - (nextCallTime + period))
      int64 (atOrAfter nextCallTime period now)) := by
  have hdiv : (now - (nextCallTime + period) - 1).tdiv period =
      (now - (nextCallTime + period) - 1) / period := Int.tdiv_eq_ediv_of_nonneg (by omega)
  have hq0 : 0 ≤ (now - (nextCallTime + period) - 1) / period :=
    Int.ediv_nonneg (by omega) hp.le
  have hq1 : (now - (nextCallTime + period) - 1) / period ≤ now - (nextCallTime + period) - 1 :=
    Int.ediv_le_self _ (by omega)
  have hstep := step_atOrAfter (x := nextCallTime) (y := now) hp
  have hahead : (1 + (now - (nextCallTime + period) - 1) / period) * period =
      atOrAfter nextCallTime period now - (nextCallTime + period) := by omega
  by_cases hfits : Fits (now - (nextCallTime + period))
  · have h1 : Fits (now - (nextCallTime + period) - 1) := by
      unfold Fits at *
      omega
    have h2 : Fits (1 + (now - (nextCallTime + period) - 1) / period) := by
      unfold Fits at *
      omega
    simp only [int64_of_fits hfits, int64_of_fits h1, Option.bind_eq_bind, Option.bind_some, hdiv,
      int64_of_fits h2, hahead]
    refine Option.bind_congr fun ahead ha => ?_
    obtain ⟨-, rfl⟩ := int64_eq_some.mp ha
    congr 1
    omega
  · simp only [int64, if_neg hfits, Option.bind_eq_bind, Option.bind_none]

theorem nextCall_eq_some {nextCallTime period now next : Int} (hp : 0 ≤ period) :
    nextCall nextCallTime period now = some next ↔
      NextFits nextCallTime period now ∧ scheduled nextCallTime period now = next := by
  unfold nextCall scheduled
  by_cases hlate : nextCallTime + period < now
  · by_cases h0 : period = 0
    · simp only [Option.bind_eq_bind, int64_bind_eq_some, if_pos hlate, if_pos h0, Option.pure_def,
        Option.some_inj]
      refine and_congr_left fun _ => ⟨fun h => ⟨h, ?_, ?_, ?_⟩, fun h => h.next⟩ <;>
        exact fun _ hpos => absurd h0 hpos.ne'
    · have hpos : 0 < period := by omega
      have hskip := skip_eq hpos hlate
      simp only [Option.bind_eq_bind] at hskip
      simp only [Option.bind_eq_bind, int64_bind_eq_some, if_pos hlate, if_neg h0, hskip,
        int64_eq_some]
      constructor
      · rintro ⟨h1, h2, h3, h4, h5⟩
        exact ⟨⟨h1, fun _ _ => h2, fun _ _ => h3, fun _ _ => h4⟩, h5⟩
      · rintro ⟨h, h5⟩
        exact ⟨h.next, h.ahead hlate hpos, h.skipped hlate hpos, h.scheduled hlate hpos, h5⟩
  · simp only [Option.bind_eq_bind, int64_bind_eq_some, if_neg hlate, Option.pure_def,
      Option.some_inj]
    refine and_congr_left fun _ => ⟨fun h => ⟨h, ?_, ?_, ?_⟩, fun h => h.next⟩ <;>
      exact fun hl _ => absurd hl hlate

/-- **A call** of a timer that is not canceled, at a reading that is not negative. -/
theorem timerCall_eq_some {t : Timer} (hp : t.period < 2 ^ 63) (hc : t.canceled = false) {now : Int}
    (hn : 0 ≤ now) {r : Except Failure (Option Activation) × Timer} :
    timerCall t (.ok now) = some r ↔
      CallFits t now ∧
        (.ok (if t.callback then some ⟨now - t.lastCallTime, t.nextCallTime⟩ else none),
          { t with
            lastCallTime := now
            nextCallTime := scheduled t.nextCallTime t.period now }) = r := by
  have hperiod : (0 : Int) ≤ t.period := Int.natCast_nonneg _
  unfold timerCall
  rw [hc, t.loadPeriod_eq hp]
  simp only [Bool.false_eq_true, if_false, if_neg (Int.not_lt.mpr hn), Option.bind_eq_bind,
    Option.bind_eq_some_iff, nextCall_eq_some hperiod, Option.pure_def]
  cases hcb : t.callback with
  | false =>
    simp only [Bool.false_eq_true, if_false, Option.some_inj]
    constructor
    · intro h
      obtain ⟨next, ⟨hfits, rfl⟩, rfl⟩ := h
      exact ⟨⟨hfits, fun h => absurd (hcb.symm.trans h) Bool.false_ne_true⟩, rfl⟩
    · intro h
      exact ⟨_, ⟨h.1.next, rfl⟩, h.2⟩
  | true =>
    simp only [if_true]
    constructor
    · intro h
      obtain ⟨next, ⟨hfits, rfl⟩, h⟩ := h
      obtain ⟨hsince, h⟩ := int64_bind_eq_some.mp h
      exact ⟨⟨hfits, fun _ => hsince⟩, Option.some.inj h⟩
    · intro h
      refine ⟨_, ⟨h.1.next, rfl⟩, int64_bind_eq_some.mpr ⟨h.1.sinceLastCall hcb, ?_⟩⟩
      exact congrArg some h.2

theorem timerCall_refused {t : Timer} {now : Reading}
    (h : t.canceled = true ∨ (∃ e, now = .error e) ∨ ∃ n < 0, now = .ok n) :
    ∃ e, timerCall t now = some (.error e, t) := by
  unfold timerCall
  cases hc : t.canceled with
  | true => exact ⟨.timerCanceled, rfl⟩
  | false =>
    rw [hc] at h
    rcases h with h | ⟨e, rfl⟩ | ⟨n, hn, rfl⟩
    · cases h
    · exact ⟨e, rfl⟩
    · refine ⟨.error, ?_⟩
      simp only [Bool.false_eq_true, if_false, if_pos hn]

theorem scheduled_least (next now : Int) {period : Int} (hp : 0 < period) :
    ∃ k : Nat, IsLeast {k : Nat | 1 ≤ k ∧ now ≤ next + k * period} k ∧
      scheduled next period now = next + k * period := by
  obtain ⟨k, hk, heq⟩ := isLeast_step (x := next) (y := now) hp
  refine ⟨k, hk, ?_⟩
  unfold scheduled
  rw [if_neg hp.ne', heq]

theorem scheduled_zero (next now : Int) : scheduled next 0 now = max next now := by
  unfold scheduled
  rw [Int.add_zero, if_pos rfl]
  split
  · rename_i h
    exact (max_eq_right h.le).symm
  · rename_i h
    exact (max_eq_left (Int.not_lt.mp h)).symm

/-! ## runs of calls -/

def callStep (t : Timer) (now : Reading) : Option Timer := (timerCall t now).map Prod.snd

/-- a call leaves the timer alone or schedules it anew -/
theorem callStep_cases {t t' : Timer} (hp : t.period < 2 ^ 63) {now : Reading}
    (h : callStep t now = some t') :
    t' = t ∨ ∃ n : Int, t' =
      { t with lastCallTime := n, nextCallTime := scheduled t.nextCallTime t.period n } := by
  obtain ⟨⟨r, t₁⟩, hcall, rfl⟩ := Option.map_eq_some_iff.mp h
  by_cases hrefused : t.canceled = true ∨ (∃ e, now = .error e) ∨ ∃ n < 0, now = .ok n
  · obtain ⟨e, he⟩ := timerCall_refused hrefused
    rw [hcall] at he
    left
    exact congrArg Prod.snd (Option.some.inj he)
  · obtain ⟨hc, hok, hneg⟩ : t.canceled = false ∧ (∀ e, now ≠ .error e) ∧ ∀ n < 0, now ≠ .ok n := by
      simpa only [not_or, Bool.not_eq_true, not_exists, not_and] using hrefused
    cases now with
    | error e => exact absurd rfl (hok e)
    | ok n =>
      have hn : 0 ≤ n := Int.not_lt.mp fun hlt => hneg n hlt rfl
      obtain ⟨-, heq⟩ := (timerCall_eq_some hp hc hn).mp hcall
      right
      exact ⟨n, (congrArg Prod.snd heq).symm⟩

/-- **No run of calls leaves the grid.** -/
theorem exec_callStep_grid (readings : List Reading) : ∀ t t' : Timer, t.period < 2 ^ 63 →
    0 < t.period → exec callStep t readings = some t' →
      ∃ n : Nat, t'.nextCallTime = t.nextCallTime + n * t.period := by
  induction readings with
  | nil =>
    intro t t' _ _ h
    obtain rfl : t = t' := Option.some.inj h
    exact ⟨0, by omega⟩
  | cons now readings ih =>
    intro t t' hp hpos h
    rw [exec_cons] at h
    obtain ⟨t₁, hstep, hrest⟩ := Option.bind_eq_some_iff.mp h
    rcases callStep_cases hp hstep with h₁ | ⟨n, h₁⟩
    · rw [h₁] at hrest
      exact ih t t' hp hpos hrest
    · have hp₁ : t₁.period = t.period := by rw [h₁]
      obtain ⟨m, hm⟩ := ih t₁ t' (hp₁ ▸ hp) (hp₁ ▸ hpos) hrest
      obtain ⟨k, -, hk⟩ := scheduled_least t.nextCallTime n
        (Int.natCast_pos.mpr hpos)
      refine ⟨k + m, ?_⟩
      rw [hm, h₁]
      show scheduled t.nextCallTime t.period n + m * t.period = _
      rw [hk]
      push_cast
      rw [Int.add_mul]
      omega

/-! ## the activation -/

/-- `ActivationJitterTracker::track_jitter`: what is recorded at a reading of the clock -/
def trackJitter (now : Int) (activation : Activation) : Option Int :=
  int64 (now - activation.intendedActivation)

theorem due_of_isReady {t : Timer} {now : Int} (h : timerIsReady t (.ok now) = some (.ok true)) :
    t.nextCallTime ≤ now := by
  unfold timerIsReady timerGetTimeUntilNextCall at h
  simp only [Option.bind_eq_bind, Option.pure_def, Option.bind_assoc, int64_bind_eq_some,
    Option.bind_some, Option.some_inj, Except.ok.injEq, Bool.and_eq_true, decide_eq_true_eq] at h
  omega

theorem trackJitter_nonneg {t : Timer} {check now tracked jitter : Int} {activation : Activation}
    (hready : timerIsReady t (.ok check) = some (.ok true)) (hnow : check ≤ now)
    (htracked : now ≤ tracked) (ha : activation.intendedActivation = t.nextCallTime)
    (h : trackJitter tracked activation = some jitter) : 0 ≤ jitter := by
  have hdue := due_of_isReady hready
  obtain ⟨-, rfl⟩ := int64_eq_some.mp h
  rw [ha]
  omega

/-- **The schedule.**  A call sets the last call time to the reading and moves the next call time
by the least number of periods, at least one, that gets to the reading; the callback is told the
time since the last call and the old next call time, so that the jitter of a timer that was ready
is not negative.  No run of calls leaves the grid of the periods, and a call that is refused
changes nothing. -/
theorem timerCall_schedule (t : Timer) (hp : t.period < 2 ^ 63) :
    (∀ now : Int, t.canceled = false → 0 ≤ now → CallFits t now →
      ∃ activation t', timerCall t (.ok now) = some (.ok activation, t') ∧
        t'.lastCallTime = now ∧
        (0 < t.period → ∃ k : Nat, IsLeast {k : Nat | 1 ≤ k ∧ now ≤ t.nextCallTime + k * t.period} k ∧
          t'.nextCallTime = t.nextCallTime + k * t.period) ∧
        (t.period = 0 → t'.nextCallTime = max t.nextCallTime now) ∧
        (activation = if t.callback then some ⟨now - t.lastCallTime, t.nextCallTime⟩ else none) ∧
        ∀ check tracked a jitter, timerIsReady t (.ok check) = some (.ok true) → check ≤ now →
          now ≤ tracked → activation = some a → trackJitter tracked a = some jitter → 0 ≤ jitter) ∧
    (0 < t.period → ∀ readings t', exec callStep t readings = some t' →
      ∃ n : Nat, t'.nextCallTime = t.nextCallTime + n * t.period) ∧
    (∀ now : Reading, t.canceled = true ∨ (∃ e, now = .error e) ∨ (∃ n < 0, now = .ok n) →
      ∃ e, timerCall t now = some (.error e, t)) := by
  refine ⟨fun now hc hn hfits => ?_, fun hpos readings t' h =>
    exec_callStep_grid readings t t' hp hpos h, fun now h => timerCall_refused h⟩
  refine ⟨_, _, (timerCall_eq_some hp hc hn).mpr ⟨hfits, rfl⟩, rfl, fun hpos => ?_, fun h0 => ?_,
    rfl, fun check tracked a jitter hready hcheck htracked ha hj => ?_⟩
  · exact scheduled_least _ _ (Int.natCast_pos.mpr hpos)
  · show scheduled t.nextCallTime t.period now = _
    rw [h0]
    exact scheduled_zero t.nextCallTime now
  · refine trackJitter_nonneg hready hcheck htracked ?_ hj
    cases hcb : t.callback with
    | false =>
      rw [hcb] at ha
      cases ha
    | true =>
      rw [hcb] at ha
      cases ha
      rfl

/-- a timer of the period 10 that is called two periods and a half too late -/
theorem timerCall_schedule_late :
    ∃ t', timerCall { period := 10, lastCallTime := 90, nextCallTime := 100 } (.ok 125) =
        some (.ok (some ⟨35, 100⟩), t') ∧
      ∃ k : Nat, IsLeast {k : Nat | 1 ≤ k ∧ (125 : Int) ≤ 100 + k * 10} k ∧
        t'.nextCallTime = 100 + k * 10 := by
  have hfits : CallFits { period := 10, lastCallTime := 90, nextCallTime := 100 } 125 :=
    ⟨⟨by decide, fun _ _ => by decide, fun _ _ => by decide, fun _ _ => by decide⟩,
      fun _ => by decide⟩
  obtain ⟨activation, t', hcall, -, hleast, -, rfl, -⟩ :=
    (timerCall_schedule { period := 10, lastCallTime := 90, nextCallTime := 100 }
      (by decide)).1 125 rfl (by decide) hfits
  exact ⟨t', hcall, hleast (by decide)⟩

end PMROS2.Rcl
