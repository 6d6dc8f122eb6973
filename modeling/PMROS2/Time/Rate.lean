import Mathlib.Algebra.Order.Ring.Int
import PMROS2.Lib.Runs

/-!
# The rate of a loop

`GenericRate` (`rate.hpp`).  Times are unbounded integers, in nanoseconds: a sum that does not fit
the `int64` of `std::chrono::nanoseconds` is undefined, and left out.  `Loop` is a rate with what
happened to it: the clock, which does not run backwards, the target of the last call of `sleep`,
the last `reset` (the construction counts as one), and whether the last call overran, which means
that it came more than a period behind its target.

An overrun leaves `last_interval_` a period ahead of the clock, and the next call takes it for a
time in the past.

* `OnSchedule`     a call does not see time go backwards, and aims at most a period further;
* `CaughtUp`       behind an overrun, `sleep` is called again two periods later or after a `reset`;
* `on_schedule_iff`   these are the same along every run.
-/

namespace PMROS2.Time
open Runs

/-! ## the rate -/

structure GenericRate where
  period : Int
  lastInterval : Int

namespace GenericRate
variable (r : GenericRate) (now : Int)

/-- the time `sleep` aims at -/
def nextInterval : Int :=
  -- "Detect backwards time flow"
  if now < r.lastInterval then now + r.period else r.lastInterval + r.period

def missedCycle : Bool := r.nextInterval now + r.period < now

/-- `sleep`: the time to sleep, where it does, and the rate behind it -/
def sleep : Option Int × GenericRate :=
  let timeToSleep := r.nextInterval now - now
  let advanced := { r with lastInterval := r.lastInterval + r.period }
  if timeToSleep ≤ 0 then
    (none, if r.missedCycle now then { r with lastInterval := now + r.period } else advanced)
  else (some timeToSleep, advanced)

def reset : GenericRate := { r with lastInterval := now }

end GenericRate

/-! ## a loop -/

structure Loop where
  rate : GenericRate
  /-- what the clock shows, at least -/
  clock : Int
  target : Int
  lastReset : Int
  /-- the time of the last call, if it overran and there was no reset since -/
  overran : Option Int := none

/-- `GenericRate(period)`, constructed at a time -/
def Loop.construct (period start : Int) : Loop :=
  { rate := ⟨period, start⟩, clock := start, target := start, lastReset := start }

inductive LoopAction where
  /-- a call at `now`, which returns at `woken` if it sleeps -/
  | sleep (now woken : Int)
  | reset (now : Int)

namespace Loop
variable (s : Loop)

/-- the later of the last target and the last reset -/
def latest : Int := max s.target s.lastReset

/-- the clock behind a call; `sleep_for` sleeps for the time that is asked for, at least -/
def clockAfter (now woken : Int) : Option Int :=
  match (s.rate.sleep now).1 with
  | none => some now
  | some t => if now + t ≤ woken then some woken else none

def step : LoopAction → Option Loop
  | .sleep now woken =>
    if s.clock ≤ now then
      (s.clockAfter now woken).map fun clock =>
        { rate := (s.rate.sleep now).2
          clock := clock
          target := s.rate.nextInterval now
          lastReset := s.lastReset
          overran := if s.rate.missedCycle now then some now else none }
    else none
  | .reset now =>
    if s.clock ≤ now then
      some { s with rate := s.rate.reset now, clock := now, lastReset := now, overran := none }
    else none

/-- **A call on schedule**: time does not seem to go backwards, and a call that sleeps aims at most
a period behind the later of the last target and the last reset. -/
def OnSchedule : LoopAction → Prop
  | .sleep now _ => s.rate.lastInterval ≤ now ∧
      ∀ t, (s.rate.sleep now).1 = some t → now + t ≤ s.latest + s.rate.period
  | .reset _ => True

/-- a call behind an overrun comes two periods after it -/
def CaughtUp : LoopAction → Prop
  | .sleep now _ => ∀ n, s.overran = some n → n + 2 * s.rate.period ≤ now
  | .reset _ => True

instance CaughtUp.decidable : ∀ a, Decidable (s.CaughtUp a)
  | .reset _ => .isTrue trivial
  | .sleep now woken =>
    match h : s.overran with
    | none => .isTrue fun n hn => (by rw [h] at hn; cases hn)
    | some m =>
      decidable_of_iff (m + 2 * s.rate.period ≤ now)
        ⟨fun hm n hn => Option.some.inj (h.symm.trans hn) ▸ hm, fun hc => hc m h⟩

end Loop

/-! ## one call -/

section
variable {r : GenericRate} {now : Int}

theorem nextInterval_of_le (h : r.lastInterval ≤ now) :
    r.nextInterval now = r.lastInterval + r.period := by
  unfold GenericRate.nextInterval
  rw [if_neg (by omega)]

theorem sleep_of_lt (h : r.lastInterval ≤ now) (hlt : now < r.lastInterval + r.period) :
    r.sleep now = (some (r.lastInterval + r.period - now),
      { r with lastInterval := r.lastInterval + r.period }) := by
  unfold GenericRate.sleep
  rw [nextInterval_of_le h, if_neg (by omega)]

theorem sleep_of_late (h : r.lastInterval + r.period ≤ now) (hp : 0 ≤ r.period)
    (hle : now ≤ r.lastInterval + 2 * r.period) :
    r.missedCycle now = false ∧
      r.sleep now = (none, { r with lastInterval := r.lastInterval + r.period }) := by
  have hnext : r.nextInterval now = r.lastInterval + r.period := nextInterval_of_le (by omega)
  have hmissed : r.missedCycle now = false := by
    unfold GenericRate.missedCycle
    rw [hnext]
    exact decide_eq_false (by omega)
  refine ⟨hmissed, ?_⟩
  unfold GenericRate.sleep
  rw [hnext, hmissed, if_pos (by omega)]
  rfl

theorem sleep_of_overrun (hp : 0 ≤ r.period) (h : r.lastInterval + 2 * r.period < now) :
    r.missedCycle now = true ∧
      r.sleep now = (none, { r with lastInterval := now + r.period }) := by
  have hnext : r.nextInterval now = r.lastInterval + r.period := nextInterval_of_le (by omega)
  have hmissed : r.missedCycle now = true := by
    unfold GenericRate.missedCycle
    rw [hnext]
    exact decide_eq_true (by omega)
  refine ⟨hmissed, ?_⟩
  unfold GenericRate.sleep
  rw [hnext, hmissed, if_pos (by omega)]
  rfl

end

/-! ## the invariant -/

namespace Loop

/-- `last_interval_` is the later of the last target and the last reset and not ahead of the clock;
behind an overrun it is a period ahead of it -/
structure Inv (s : Loop) : Prop where
  positive : 0 < s.rate.period
  behind : s.overran = none → s.rate.lastInterval = s.latest ∧ s.latest ≤ s.clock
  ahead : ∀ n, s.overran = some n →
    s.rate.lastInterval = n + s.rate.period ∧ n ≤ s.clock ∧ s.latest + s.rate.period < n

theorem inv_construct {period : Int} (hp : 0 < period) (start : Int) :
    (construct period start).Inv where
  positive := hp
  behind := fun _ => ⟨(max_self start).symm, (max_self start).le⟩
  ahead := fun _ h => (by cases h)

section
variable {s s' : Loop} {now woken : Int}

theorem Inv.lastInterval_le (hs : s.Inv) (hclock : s.clock ≤ now)
    (hc : ∀ n, s.overran = some n → n + 2 * s.rate.period ≤ now) :
    s.rate.lastInterval ≤ now ∧ s.latest ≤ s.rate.lastInterval := by
  have hp := hs.positive
  cases ho : s.overran with
  | none =>
    obtain ⟨heq, hle⟩ := hs.behind ho
    omega
  | some n =>
    obtain ⟨heq, hle, hlt⟩ := hs.ahead n ho
    have hn := hc n ho
    omega

theorem Inv.sleeps (hs : s.Inv) (hc : ∀ n, s.overran = some n → n + 2 * s.rate.period ≤ now)
    (hlt : now < s.rate.lastInterval + s.rate.period) : s.rate.lastInterval = s.latest := by
  cases ho : s.overran with
  | none => exact (hs.behind ho).1
  | some n =>
    obtain ⟨heq, -, -⟩ := hs.ahead n ho
    have hn := hc n ho
    omega

theorem Inv.sleep (hs : s.Inv) (hc : s.CaughtUp (.sleep now woken))
    (h : s.step (.sleep now woken) = some s') : s'.Inv := by
  have hp := hs.positive
  obtain ⟨hclock, h⟩ := Option.ite_none_right_eq_some.mp h
  obtain ⟨clock, hafter, rfl⟩ := Option.map_eq_some_iff.mp h
  obtain ⟨hle, hlatest⟩ := hs.lastInterval_le hclock hc
  have hreset : s.lastReset ≤ s.rate.lastInterval := le_trans (le_max_right ..) hlatest
  have hnext := nextInterval_of_le hle
  unfold clockAfter at hafter
  rcases lt_or_ge now (s.rate.lastInterval + s.rate.period) with hlt | hge
  · have hsleep := sleep_of_lt hle hlt
    have hmissed : s.rate.missedCycle now = false := by
      unfold GenericRate.missedCycle
      rw [hnext]
      exact decide_eq_false (by omega)
    rw [hsleep] at hafter
    obtain ⟨hwoken, rfl⟩ := guarded_eq_some.mp hafter
    rw [hsleep, hmissed, hnext]
    refine ⟨hp, fun _ => ?_, fun n hn => (by cases hn)⟩
    show s.rate.lastInterval + s.rate.period =
        max (s.rate.lastInterval + s.rate.period) s.lastReset ∧
      max (s.rate.lastInterval + s.rate.period) s.lastReset ≤ woken
    omega
  · rcases le_or_gt now (s.rate.lastInterval + 2 * s.rate.period) with hlate | hover
    · obtain ⟨hmissed, hsleep⟩ := sleep_of_late hge hp.le hlate
      rw [hsleep] at hafter
      obtain rfl := Option.some.inj hafter
      rw [hsleep, hmissed, hnext]
      refine ⟨hp, fun _ => ?_, fun n hn => (by cases hn)⟩
      show s.rate.lastInterval + s.rate.period =
          max (s.rate.lastInterval + s.rate.period) s.lastReset ∧
        max (s.rate.lastInterval + s.rate.period) s.lastReset ≤ now
      omega
    · obtain ⟨hmissed, hsleep⟩ := sleep_of_overrun hp.le hover
      rw [hsleep] at hafter
      obtain rfl := Option.some.inj hafter
      rw [hsleep, hmissed, hnext]
      refine ⟨hp, fun hn => (by cases hn), fun n hn => ?_⟩
      obtain rfl := Option.some.inj hn
      show now + s.rate.period = now + s.rate.period ∧ now ≤ now ∧
        max (s.rate.lastInterval + s.rate.period) s.lastReset + s.rate.period < now
      omega

theorem Inv.step (hs : s.Inv) (a : LoopAction) (hc : s.CaughtUp a) (h : s.step a = some s') :
    s'.Inv := by
  cases a with
  | sleep now woken => exact hs.sleep hc h
  | reset now =>
    obtain ⟨hclock, h⟩ := Option.ite_none_right_eq_some.mp h
    obtain rfl := Option.some.inj h
    refine ⟨hs.positive, fun _ => ?_, fun n hn => (by cases hn)⟩
    have htarget : s.target ≤ s.clock := by
      have hp := hs.positive
      have hmax : s.target ≤ s.latest := le_max_left ..
      cases ho : s.overran with
      | none =>
        have hbehind := hs.behind ho
        omega
      | some n =>
        have hahead := hs.ahead n ho
        omega
    show now = max s.target now ∧ max s.target now ≤ now
    omega

theorem Inv.onSchedule_iff (hs : s.Inv) (a : LoopAction) (h : s.step a = some s') :
    s.OnSchedule a ↔ s.CaughtUp a := by
  cases a with
  | reset now => exact Iff.rfl
  | sleep now woken =>
    have hp := hs.positive
    obtain ⟨hclock, -⟩ := Option.ite_none_right_eq_some.mp h
    constructor
    · rintro ⟨hle, haim⟩ n hn
      obtain ⟨heq, hnle, hlt⟩ := hs.ahead n hn
      by_contra hlate
      -- the call would sleep until two periods behind the overrun
      have hsleep := sleep_of_lt hle (by omega)
      have ht := haim _ (congrArg Prod.fst hsleep)
      omega
    · intro hc
      obtain ⟨hle, -⟩ := hs.lastInterval_le hclock hc
      refine ⟨hle, fun t ht => ?_⟩
      rcases lt_or_ge now (s.rate.lastInterval + s.rate.period) with hlt | hge
      · rw [sleep_of_lt hle hlt] at ht
        obtain rfl := Option.some.inj ht
        have heq := hs.sleeps hc hlt
        omega
      · -- a call that is late does not sleep
        rcases le_or_gt now (s.rate.lastInterval + 2 * s.rate.period) with hlate | hover
        · rw [(sleep_of_late hge hp.le hlate).2] at ht
          cases ht
        · rw [(sleep_of_overrun hp.le hover).2] at ht
          cases ht

end

/-- **The rate of a loop.**  For every period and every run over a clock that does not run
backwards: no call sees time go backwards, and every call that sleeps aims at most a period behind
the later of the last target and the last reset, just when every call that directly follows an
overrun comes two periods after it. -/
theorem on_schedule_iff {period : Int} (hp : 0 < period) (start : Int) (as : List LoopAction) :
    Along step (fun s a _ => s.OnSchedule a) (construct period start) as ↔
      Along step (fun s a _ => s.CaughtUp a) (construct period start) as :=
  along_iff_of_inv (I := Inv) (fun _ a _ hs h hc => hs.step a hc h)
    (fun _ a _ hs h => hs.onSchedule_iff a h) as _ (inv_construct hp start)

/-- a call in time, an overrun, and a call two periods later -/
theorem on_schedule_iff_late :
    (0 : Int) < 10 ∧ Along step (fun s a _ => s.OnSchedule a) (construct 10 0)
      [.sleep 3 10, .sleep 41 0, .sleep 61 0, .sleep 65 71] := by
  exact ⟨by decide, (on_schedule_iff (by decide) 0 _).mpr (by decide)⟩

/-- period 10: a call at 25, behind its target of 10, then one at 26 -/
theorem overrun_looks_like_backwards_time :
    ¬ Along step (fun s a _ => s.OnSchedule a) (construct 10 0) [.sleep 25 0, .sleep 26 36] := by
  intro h
  have hback := ((h _ rfl).2 _ rfl).1.1
  revert hback
  decide

end Loop

end PMROS2.Time
