import PMROS2.Rcl.Timer

/-!
# A timer over time jumps

When the source of ROS time changes, the time that is left until the next call is saved as a
credit before the change and taken from the new reading after it.  The credit is what is left of
the period, but it is used as what has passed of it.

* `clockJump_change`      what a change of the source does to a timer;
* `remainder_iff`         the timer waits the remainder of its period exactly when half of the
                          period is left;
* `timeJump_iff`          the same for the two functions that change the source, and the jumps back
                          that make a timer wait one period.
-/

namespace PMROS2.Rcl
open Checked

/-! ## a change of the source -/

/-- the timer waits in the new epoch as long as it would have waited in the old one -/
def WaitsRemainder (t : Timer) (before after : Int) (t' : Timer) : Prop :=
  t'.nextCallTime - after = t.nextCallTime - before ∧
    t'.lastCallTime = t'.nextCallTime - t.loadPeriod

/-- half of the period is left and the new times can be stored, or nothing is left and the reading
is the same -/
def HalfLeft (t : Timer) (before after : Int) : Prop :=
  (t.nextCallTime ≠ before ∧ 2 * (t.nextCallTime - before) = t.loadPeriod ∧
    Fits (after - (t.nextCallTime - before)) ∧
    Fits (after - (t.nextCallTime - before) + t.loadPeriod)) ∨
  (t.nextCallTime = before ∧ after = before ∧ t.lastCallTime = t.nextCallTime - t.loadPeriod)

theorem Timer.loadPeriod_fits (t : Timer) : Fits t.loadPeriod := by
  unfold Timer.loadPeriod toSigned Fits
  dsimp only [Int.bmod]
  split
  · omega
  · omega

variable {clock clock' : RosClock} {jump : TimeJump} {before after : Reading} {b a : Int}

theorem clockJump_change (hjump : jump.isClockChange = true)
    (hb : clock.getRosTime before = .ok b) (ha : clock'.getRosTime after = .ok a) (hb0 : b ≠ 0)
    (ha0 : a ≠ 0) (t : Timer) :
    clockJump clock clock' jump before after t =
      (int64 (t.nextCallTime - b)).bind fun credit =>
        if credit ≠ 0 then
          (int64 (a - credit)).bind fun last => (int64 (last + t.loadPeriod)).bind fun next =>
            some ({ t with timeCredit := 0, nextCallTime := next, lastCallTime := last }, false)
        else some ({ t with timeCredit := 0 }, false) := by
  unfold clockJump clockCallCallbacks timerTimeJump
  simp only [hjump, Bool.true_or, if_true, hb, ha, if_neg hb0, if_neg ha0, Bool.false_eq_true,
    if_false, Option.bind_eq_bind, Option.pure_def, Option.bind_assoc, Option.bind_some]
  rfl

/-- **The remainder** is kept exactly when half of the period is left. -/
theorem remainder_iff (hjump : jump.isClockChange = true)
    (hb : clock.getRosTime before = .ok b) (ha : clock'.getRosTime after = .ok a) (hb0 : b ≠ 0)
    (ha0 : a ≠ 0) (t : Timer) :
    (∃ r, clockJump clock clock' jump before after t = some r ∧ WaitsRemainder t b a r.1) ↔
      HalfLeft t b a := by
  rw [clockJump_change hjump hb ha hb0 ha0]
  have hperiod := t.loadPeriod_fits
  unfold WaitsRemainder HalfLeft
  by_cases hzero : t.nextCallTime = b
  · have hfits : Fits (t.nextCallTime - b) := by
      unfold Fits
      omega
    rw [int64_of_fits hfits, Option.bind_some, if_neg (by omega)]
    constructor
    · intro h
      obtain ⟨r, hr, hnext, hlast⟩ := h
      obtain rfl := Option.some.inj hr
      have hnext' : t.nextCallTime - a = t.nextCallTime - b := hnext
      exact .inr ⟨hzero, by omega, hlast⟩
    · intro h
      rcases h with ⟨hne, -⟩ | ⟨-, hab, hlast⟩
      · exact absurd hzero hne
      · refine ⟨_, rfl, ?_, hlast⟩
        show t.nextCallTime - a = t.nextCallTime - b
        omega
  · constructor
    · intro h
      obtain ⟨r, hr, hnext, -⟩ := h
      obtain ⟨-, hr⟩ := int64_bind_eq_some.mp hr
      rw [if_pos (by omega)] at hr
      obtain ⟨hlast, hr⟩ := int64_bind_eq_some.mp hr
      obtain ⟨hfits, hr⟩ := int64_bind_eq_some.mp hr
      obtain rfl := Option.some.inj hr
      have hnext' : a - (t.nextCallTime - b) + t.loadPeriod - a = t.nextCallTime - b := hnext
      exact .inl ⟨hzero, by omega, hlast, hfits⟩
    · intro h
      rcases h with ⟨-, hhalf, hlast, hfits⟩ | ⟨hz, -⟩
      · have hcredit : Fits (t.nextCallTime - b) := by
          unfold Fits at *
          omega
        rw [int64_of_fits hcredit, Option.bind_some, if_pos (by omega), int64_of_fits hlast,
          Option.bind_some, int64_of_fits hfits, Option.bind_some]
        refine ⟨_, rfl, ?_, ?_⟩
        · show a - (t.nextCallTime - b) + t.loadPeriod - a = t.nextCallTime - b
          omega
        · show a - (t.nextCallTime - b) = a - (t.nextCallTime - b) + t.loadPeriod - t.loadPeriod
          omega
      · exact absurd hz hzero

/-! ## a jump without a change -/

/-- the next call is one period after the reading -/
def WaitsPeriod (t : Timer) (now : Int) (t' : Timer) : Prop := t'.nextCallTime - now = t.loadPeriod

/-- the timer is not due at the new reading and the new time can be stored, or it is due there
by exactly its period -/
def NotDue (t : Timer) (now : Int) : Prop :=
  (now < t.nextCallTime ∧ Fits (now + t.loadPeriod)) ∨
    (t.nextCallTime ≤ now ∧ t.nextCallTime - now = t.loadPeriod)

theorem timerTimeJump_back (hjump : jump.isClockChange = false) {t : Timer} {now : Int}
    (hlast : now < t.lastCallTime) :
    (∃ r, timerTimeJump jump false (.ok now) t = some r ∧ WaitsPeriod t now r.1) ↔
      NotDue t now := by
  unfold timerTimeJump WaitsPeriod NotDue
  simp only [Bool.false_eq_true, if_false, hjump]
  by_cases hdue : t.nextCallTime ≤ now
  · rw [if_pos hdue]
    constructor
    · intro h
      obtain ⟨r, hr, hnext⟩ := h
      obtain rfl := Option.some.inj hr
      exact .inr ⟨hdue, hnext⟩
    · intro h
      rcases h with ⟨hlt, -⟩ | ⟨-, hnext⟩
      · omega
      · exact ⟨_, rfl, hnext⟩
  · rw [if_neg hdue, if_pos hlast]
    constructor
    · intro h
      obtain ⟨r, hr, -⟩ := h
      obtain ⟨hfits, -⟩ := int64_bind_eq_some.mp hr
      exact .inl ⟨by omega, hfits⟩
    · intro h
      rcases h with ⟨-, hfits⟩ | ⟨hle, -⟩
      · refine ⟨_, int64_bind_eq_some.mpr ⟨hfits, rfl⟩, ?_⟩
        show now + t.loadPeriod - now = t.loadPeriod
        omega
      · exact absurd hle hdue

/-! ## the functions of the clock -/

theorem exists_jumped {x : Option (Timer × Bool)} {P : Timer → Prop} :
    (∃ c t', (x.bind fun r => some (clock', r.1)) = some (c, t') ∧ P t') ↔
      ∃ r, x = some r ∧ P r.1 := by
  constructor
  · intro h
    obtain ⟨c, t', hbind, hP⟩ := h
    obtain ⟨r, hr, heq⟩ := Option.bind_eq_some_iff.mp hbind
    obtain ⟨-, rfl⟩ := Prod.mk.inj (Option.some.inj heq)
    exact ⟨r, hr, hP⟩
  · intro h
    obtain ⟨r, rfl, hP⟩ := h
    exact ⟨clock', r.1, rfl, hP⟩

theorem enableRosTimeOverride_eq (h : clock.active = false) (t : Timer) :
    enableRosTimeOverride clock before after t =
      (clockJump clock { clock with active := true } ⟨.rosTimeActivated, 0⟩ before after t).bind
        fun r => some ({ clock with active := true }, r.1) := by
  unfold enableRosTimeOverride
  rw [h]
  rfl

theorem disableRosTimeOverride_eq (h : clock.active = true) (t : Timer) :
    disableRosTimeOverride clock before after t =
      (clockJump clock { clock with active := false } ⟨.rosTimeDeactivated, 0⟩ before after t).bind
        fun r => some ({ clock with active := false }, r.1) := by
  unfold disableRosTimeOverride
  rw [h]
  rfl

/-- a jump back of an active clock runs the callback after the jump at the new reading -/
theorem setRosTimeOverride_back (h : clock.active = true) {now : Int}
    (hback : now < clock.currentTime) (t : Timer) :
    setRosTimeOverride clock now t =
      (int64 (now - clock.currentTime)).bind fun delta =>
        (timerTimeJump ⟨.rosTimeNoChange, delta⟩ false (.ok now) t).bind
          fun r => some ({ clock with currentTime := now }, r.1) := by
  unfold setRosTimeOverride
  simp only [h, if_true, Option.bind_eq_bind, Option.pure_def]
  refine Option.bind_congr fun delta hdelta => ?_
  obtain ⟨-, rfl⟩ := int64_eq_some.mp hdelta
  have hneg : now - clock.currentTime < 0 ∧ now - clock.currentTime ≤ -1 := by omega
  unfold clockJump clockCallCallbacks RosClock.getRosTime
  simp only [h, if_true, decide_eq_true hneg, Bool.or_true, Bool.true_or]
  rfl

/-- **Time jumps.**  Over a change of the source, at readings that are not zero, a timer waits the
remainder of its period exactly when half of it is left; over a jump back before its last call it
waits one period exactly when it is not due at the new reading. -/
theorem timeJump_iff (clock : RosClock) (t : Timer) :
    (∀ b after, clock.active = false → b ≠ 0 → clock.currentTime ≠ 0 →
      ((∃ c t', enableRosTimeOverride clock (.ok b) after t = some (c, t') ∧
          WaitsRemainder t b clock.currentTime t') ↔ HalfLeft t b clock.currentTime)) ∧
    (∀ before a, clock.active = true → clock.currentTime ≠ 0 → a ≠ 0 →
      ((∃ c t', disableRosTimeOverride clock before (.ok a) t = some (c, t') ∧
          WaitsRemainder t clock.currentTime a t') ↔ HalfLeft t clock.currentTime a)) ∧
    (∀ now, clock.active = true → now < clock.currentTime → now < t.lastCallTime →
      ((∃ c t', setRosTimeOverride clock now t = some (c, t') ∧ WaitsPeriod t now t') ↔
        Fits (now - clock.currentTime) ∧ NotDue t now)) := by
  refine ⟨fun b after h hb ha => ?_, fun before a h hb ha => ?_, fun now h hback hlast => ?_⟩
  · have hbefore : clock.getRosTime (.ok b) = .ok b := by
      unfold RosClock.getRosTime
      rw [h]
      rfl
    rw [enableRosTimeOverride_eq h, exists_jumped]
    exact remainder_iff rfl hbefore rfl hb ha t
  · have hbefore : clock.getRosTime before = .ok clock.currentTime := by
      unfold RosClock.getRosTime
      rw [h]
      rfl
    rw [disableRosTimeOverride_eq h, exists_jumped]
    exact remainder_iff rfl hbefore rfl hb ha t
  · rw [setRosTimeOverride_back h hback]
    by_cases hfits : Fits (now - clock.currentTime)
    · rw [int64_of_fits hfits, Option.bind_some, exists_jumped, timerTimeJump_back rfl hlast]
      exact (and_iff_right hfits).symm
    · refine ⟨fun hjump => ?_, fun hjump => absurd hjump.1 hfits⟩
      obtain ⟨c, t', hset, -⟩ := hjump
      obtain ⟨hfits', -⟩ := int64_bind_eq_some.mp hset
      exact absurd hfits' hfits

/-- a timer of ten seconds with five of them left waits the five in the new epoch -/
theorem timeJump_iff_half :
    ∃ c t', enableRosTimeOverride ⟨false, 1000000000000⟩ (.ok 505000000000) (.ok 505000000001)
        { period := 10000000000, lastCallTime := 500000000000, nextCallTime := 510000000000 } =
          some (c, t') ∧
      WaitsRemainder
        { period := 10000000000, lastCallTime := 500000000000, nextCallTime := 510000000000 }
        505000000000 1000000000000 t' := by
  refine ((timeJump_iff ⟨false, 1000000000000⟩
    { period := 10000000000, lastCallTime := 500000000000, nextCallTime := 510000000000 }).1
    505000000000 (.ok 505000000001) rfl (by decide) (by decide)).mpr ?_
  exact .inl ⟨by decide, by decide, by decide, by decide⟩

/-- a timer of ten seconds that has three of them behind it waits only three more after the
override is enabled -/
theorem three_seconds_are_taken_for_the_rest :
    ¬ ∃ c t', enableRosTimeOverride ⟨false, 1000000000000⟩ (.ok 503000000000) (.ok 503000000001)
        { period := 10000000000, lastCallTime := 500000000000, nextCallTime := 510000000000 } =
          some (c, t') ∧
      WaitsRemainder
        { period := 10000000000, lastCallTime := 500000000000, nextCallTime := 510000000000 }
        503000000000 1000000000000 t' := by
  intro h
  obtain ⟨c, t', henable, hnext, -⟩ := h
  have hcode : enableRosTimeOverride ⟨false, 1000000000000⟩ (.ok 503000000000) (.ok 503000000001)
      { period := 10000000000, lastCallTime := 500000000000, nextCallTime := 510000000000 } =
      some (⟨true, 1000000000000⟩,
        { period := 10000000000, lastCallTime := 993000000000, nextCallTime := 1003000000000 }) := by
    decide
  rw [hcode] at henable
  obtain ⟨-, rfl⟩ := Prod.mk.inj (Option.some.inj henable)
  exact absurd hnext (by decide)

end PMROS2.Rcl
