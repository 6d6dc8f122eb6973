import PMROS2.Rcl.Schedule

/-!
# When the arithmetic of a timer overflows

Runs of the operations on one timer: calls, resets, exchanges of the period, checks for readiness
and time jumps, at readings of the clock and with periods that are not negative.  Nothing in
`timer.c` bounds the sums.

* `Clear`                 the sums of one operation fit;
* `isSome_timerStep`      an operation does not overflow exactly when they do;
* `no_overflow_iff`       a run from `rcl_timer_init` on does not overflow exactly when the sums of
                          all its operations fit, and then the timer is never ready early.
-/

namespace PMROS2.Rcl
open Checked Runs Grid

inductive TimerAction where
  | call (now : Reading)
  | reset (now : Reading)
  | exchangePeriod (newPeriod : Int)
  | isReady (now : Reading)
  | cancel
  | timeJump (jump : TimeJump) (before after : Reading)

/-- a run; the results of the operations do not matter -/
def timerStep (t : Timer) : TimerAction → Option Timer
  | .call now => callStep t now
  | .reset now => (timerReset t now).map Prod.snd
  | .exchangePeriod newPeriod => some (timerExchangePeriod t newPeriod).2
  | .isReady now => (timerIsReady t now).map fun _ => t
  | .cancel => some (timerCancel t)
  | .timeJump jump before after =>
    (timerTimeJump jump true before t).bind fun r =>
      (timerTimeJump jump false after r.1).map Prod.fst

/-- the periods and the readings are not negative -/
def TimerAction.Valid : TimerAction → Prop
  | .call now | .reset now | .isReady now => ∀ n ∈ now.toOption, 0 ≤ n
  | .exchangePeriod newPeriod => 0 ≤ newPeriod ∧ Fits newPeriod
  | .cancel => True
  | .timeJump _ before after => (∀ n ∈ before.toOption, 0 ≤ n) ∧ ∀ n ∈ after.toOption, 0 ≤ n

/-! ## the condition -/

/-- the credit when the callback after a change of the source runs -/
def creditAt (t : Timer) : Reading → Int
  | .error _ => t.timeCredit
  | .ok b => if b = 0 then t.timeCredit else t.nextCallTime - b

def JumpFits (t : Timer) (jump : TimeJump) (before after : Reading) : Prop :=
  if jump.isClockChange then
    (∀ b ∈ before.toOption, b ≠ 0 → Fits (t.nextCallTime - b)) ∧
    ∀ a ∈ after.toOption, a ≠ 0 → creditAt t before ≠ 0 →
      Fits (a - creditAt t before) ∧ Fits (a - creditAt t before + t.period)
  else ∀ n ∈ after.toOption, n < t.nextCallTime → n < t.lastCallTime → Fits (n + t.period)

/-- the sums of an operation fit -/
def Clear (t : Timer) : TimerAction → Prop
  | .call now => ∀ n ∈ now.toOption, t.canceled = false → CallFits t n
  | .reset now => ∀ n ∈ now.toOption, Fits (n + t.period)
  | .isReady now => ∀ n ∈ now.toOption, Fits (t.nextCallTime - n)
  | .exchangePeriod _ | .cancel => True
  | .timeJump jump before after => JumpFits t jump before after

/-! ## one operation -/

variable {t t' : Timer}

theorem isSome_callStep (hp : t.period < 2 ^ 63) {now : Reading} (hn : ∀ n ∈ now.toOption, 0 ≤ n) :
    (callStep t now).isSome = true ↔ ∀ n ∈ now.toOption, t.canceled = false → CallFits t n := by
  unfold callStep
  rw [Option.isSome_map]
  by_cases hrefused : t.canceled = true ∨ ∃ e, now = .error e
  · have hr : t.canceled = true ∨ (∃ e, now = .error e) ∨ ∃ n < 0, now = .ok n :=
      hrefused.imp_right .inl
    obtain ⟨e, he⟩ := timerCall_refused hr
    rw [he]
    refine ⟨fun _ n hn hc => ?_, fun _ => rfl⟩
    rcases hrefused with hcan | ⟨e, rfl⟩
    · rw [hc] at hcan
      cases hcan
    · cases hn
  · obtain ⟨hc, hok⟩ : t.canceled = false ∧ ∀ e, now ≠ .error e := by
      simpa only [not_or, Bool.not_eq_true, not_exists] using hrefused
    cases now with
    | error e => exact absurd rfl (hok e)
    | ok n =>
      have h0 : 0 ≤ n := hn n rfl
      rw [Option.isSome_iff_exists]
      constructor
      · intro h m hm _
        obtain rfl := Option.some.inj hm
        obtain ⟨r, hr⟩ := h
        exact ((timerCall_eq_some hp hc h0).mp hr).1
      · intro h
        exact ⟨_, (timerCall_eq_some hp hc h0).mpr ⟨h n rfl hc, rfl⟩⟩

theorem isSome_timerReset (hp : t.period < 2 ^ 63) (now : Reading) :
    ((timerReset t now).map Prod.snd).isSome = true ↔
      ∀ n ∈ now.toOption, Fits (n + t.period) := by
  rw [Option.isSome_map]
  cases now with
  | error e => exact ⟨fun _ n hn => (by cases hn), fun _ => rfl⟩
  | ok n =>
    unfold timerReset
    rw [t.loadPeriod_eq hp]
    refine isSome_int64_bind.trans ⟨fun h m hm => ?_, fun h => ⟨h n rfl, rfl⟩⟩
    obtain rfl := Option.some.inj hm
    exact h.1

theorem isSome_timerIsReady (now : Reading) :
    ((timerIsReady t now).map fun _ => t).isSome = true ↔
      ∀ n ∈ now.toOption, Fits (t.nextCallTime - n) := by
  rw [Option.isSome_map]
  cases now with
  | error e => exact ⟨fun _ n hn => (by cases hn), fun _ => rfl⟩
  | ok n =>
    unfold timerIsReady timerGetTimeUntilNextCall
    simp only [Option.bind_eq_bind, Option.pure_def, Option.bind_assoc, Option.bind_some]
    refine isSome_int64_bind.trans ⟨fun h m hm => ?_, fun h => ⟨h n rfl, rfl⟩⟩
    obtain rfl := Option.some.inj hm
    exact h.1

/-- the callback before a jump saves the credit -/
theorem timerTimeJump_before {jump : TimeJump} (hjump : jump.isClockChange = true)
    {before : Reading} {r : Timer × Bool} :
    timerTimeJump jump true before t = some r ↔
      (∀ b ∈ before.toOption, b ≠ 0 → Fits (t.nextCallTime - b)) ∧
        ({ t with timeCredit := creditAt t before }, false) = r := by
  unfold timerTimeJump creditAt
  cases before with
  | error e =>
    simp only [Option.some_inj]
    exact ⟨fun h => ⟨fun b hb => (by cases hb), h⟩, fun h => h.2⟩
  | ok b =>
    have hmem : (∀ c ∈ (Except.ok b : Reading).toOption, c ≠ 0 → Fits (t.nextCallTime - c)) ↔
        (b ≠ 0 → Fits (t.nextCallTime - b)) := by
      refine ⟨fun h => h b rfl, fun h c hc => ?_⟩
      obtain rfl := Option.some.inj hc
      exact h
    rw [hmem]
    simp only [if_true, hjump]
    by_cases hb : b = 0
    · rw [if_pos hb, if_pos hb, Option.some_inj]
      exact ⟨fun h => ⟨fun hne => absurd hb hne, h⟩, fun h => h.2⟩
    · rw [if_neg hb, if_neg hb]
      refine int64_bind_eq_some.trans ?_
      rw [Option.pure_def, Option.some_inj]
      exact and_congr_left fun _ => ⟨fun h _ => h, fun h => h hb⟩

/-- the callback after a change of the source uses it -/
theorem isSome_timerTimeJump_changed {jump : TimeJump} (hjump : jump.isClockChange = true)
    (hp : t.period < 2 ^ 63) (after : Reading) :
    (timerTimeJump jump false after t).isSome = true ↔
      ∀ a ∈ after.toOption, a ≠ 0 → t.timeCredit ≠ 0 →
        Fits (a - t.timeCredit) ∧ Fits (a - t.timeCredit + t.period) := by
  unfold timerTimeJump
  cases after with
  | error e => exact ⟨fun _ a ha => (by cases ha), fun _ => rfl⟩
  | ok a =>
    simp only [Bool.false_eq_true, if_false, hjump, if_true, t.loadPeriod_eq hp]
    by_cases ha : a = 0
    · rw [if_pos ha]
      refine ⟨fun _ b hb hb0 => ?_, fun _ => rfl⟩
      obtain rfl := Option.some.inj hb
      exact absurd ha hb0
    · rw [if_neg ha]
      by_cases hc : t.timeCredit = 0
      · rw [if_neg (not_not.mpr hc)]
        exact ⟨fun _ b _ _ hc0 => absurd hc hc0, fun _ => rfl⟩
      · rw [if_pos hc]
        refine (isSome_int64_bind.trans (and_congr_right fun _ => isSome_int64_bind)).trans ?_
        constructor
        · intro h b hb _ _
          obtain rfl := Option.some.inj hb
          exact ⟨h.1, h.2.1⟩
        · intro h
          obtain ⟨h₁, h₂⟩ := h a rfl ha hc
          exact ⟨h₁, h₂, rfl⟩

theorem isSome_timerTimeJump_unchanged {jump : TimeJump} (hjump : jump.isClockChange = false)
    (hp : t.period < 2 ^ 63) (after : Reading) :
    (timerTimeJump jump false after t).isSome = true ↔
      ∀ n ∈ after.toOption, n < t.nextCallTime → n < t.lastCallTime → Fits (n + t.period) := by
  unfold timerTimeJump
  cases after with
  | error e => exact ⟨fun _ n hn => (by cases hn), fun _ => rfl⟩
  | ok n =>
    have hmem : (∀ m ∈ (Except.ok n : Reading).toOption, m < t.nextCallTime →
          m < t.lastCallTime → Fits (m + t.period)) ↔
        (n < t.nextCallTime → n < t.lastCallTime → Fits (n + t.period)) := by
      refine ⟨fun h => h n rfl, fun h m hm => ?_⟩
      obtain rfl := Option.some.inj hm
      exact h
    rw [hmem]
    simp only [Bool.false_eq_true, if_false, hjump, t.loadPeriod_eq hp]
    by_cases hdue : t.nextCallTime ≤ n
    · rw [if_pos hdue]
      exact ⟨fun _ hlt => absurd hdue (Int.not_le.mpr hlt), fun _ => rfl⟩
    · rw [if_neg hdue]
      by_cases hlast : n < t.lastCallTime
      · rw [if_pos hlast]
        refine isSome_int64_bind.trans ⟨fun h _ _ => h.1, fun h => ⟨?_, rfl⟩⟩
        exact h (Int.not_le.mp hdue) hlast
      · rw [if_neg hlast]
        exact ⟨fun _ _ hlt => absurd hlt hlast, fun _ => rfl⟩

theorem isSome_timeJump (hp : t.period < 2 ^ 63) (jump : TimeJump) (before after : Reading) :
    (timerStep t (.timeJump jump before after)).isSome = true ↔ JumpFits t jump before after := by
  show ((timerTimeJump jump true before t).bind fun r =>
    (timerTimeJump jump false after r.1).map Prod.fst).isSome = true ↔ _
  unfold JumpFits
  cases hjump : jump.isClockChange with
  | true =>
    rw [if_pos rfl]
    constructor
    · intro h
      obtain ⟨t', ht'⟩ := Option.isSome_iff_exists.mp h
      obtain ⟨r, hr, hmap⟩ := Option.bind_eq_some_iff.mp ht'
      obtain ⟨hbefore, rfl⟩ := (timerTimeJump_before hjump).mp hr
      have hsome := (Option.isSome_map ..).symm.trans (Option.isSome_iff_exists.mpr ⟨t', hmap⟩)
      exact ⟨hbefore, (isSome_timerTimeJump_changed hjump (by exact hp) after).mp hsome⟩
    · intro h
      rw [(timerTimeJump_before hjump).mpr ⟨h.1, rfl⟩, Option.bind_some, Option.isSome_map]
      exact (isSome_timerTimeJump_changed hjump (by exact hp) after).mpr h.2
  | false =>
    have hnone : timerTimeJump jump true before t = some (t, false) := by
      unfold timerTimeJump
      cases before with
      | error e => rfl
      | ok b => simp only [if_true, hjump, Bool.false_eq_true, if_false]
    rw [hnone, Option.bind_some, Option.isSome_map, if_neg Bool.false_ne_true]
    exact isSome_timerTimeJump_unchanged hjump hp after

/-- **An operation does not overflow exactly when its sums fit.** -/
theorem isSome_timerStep (hp : t.period < 2 ^ 63) {a : TimerAction} (ha : a.Valid) :
    (timerStep t a).isSome = true ↔ Clear t a := by
  cases a with
  | call now => exact isSome_callStep hp ha
  | reset now => exact isSome_timerReset hp now
  | exchangePeriod newPeriod => exact ⟨fun _ => trivial, fun _ => rfl⟩
  | isReady now => exact isSome_timerIsReady now
  | cancel => exact ⟨fun _ => trivial, fun _ => rfl⟩
  | timeJump jump before after => exact isSome_timeJump hp jump before after

/-! ## runs -/

theorem timerTimeJump_period {jump : TimeJump} {beforeJump : Bool} {now : Reading}
    {r : Timer × Bool} (h : timerTimeJump jump beforeJump now t = some r) :
    r.1.period = t.period := by
  unfold timerTimeJump at h
  cases now with
  | error e =>
    cases h
    rfl
  | ok now =>
    cases beforeJump with
    | true =>
      simp only [if_true] at h
      split at h
      · split at h
        · cases h
          rfl
        · obtain ⟨-, h⟩ := int64_bind_eq_some.mp h
          cases h
          rfl
      · cases h
        rfl
    | false =>
      simp only [Bool.false_eq_true, if_false] at h
      split at h
      · split at h
        · cases h
          rfl
        · split at h
          · obtain ⟨-, h⟩ := int64_bind_eq_some.mp h
            obtain ⟨-, h⟩ := int64_bind_eq_some.mp h
            cases h
            rfl
          · cases h
            rfl
      · split at h
        · cases h
          rfl
        · split at h
          · obtain ⟨-, h⟩ := int64_bind_eq_some.mp h
            cases h
            rfl
          · cases h
            rfl

/-- only an exchange changes the period -/
theorem timerStep_period (hp : t.period < 2 ^ 63) {a : TimerAction} (ha : a.Valid)
    (h : timerStep t a = some t') : t'.period < 2 ^ 63 := by
  cases a with
  | call now =>
    rcases callStep_cases hp h with rfl | ⟨n, rfl⟩
    · exact hp
    · exact hp
  | reset now =>
    obtain ⟨r, hr, rfl⟩ := Option.map_eq_some_iff.mp h
    cases now with
    | error e =>
      cases hr
      exact hp
    | ok n =>
      obtain ⟨-, hr⟩ := int64_bind_eq_some.mp hr
      cases hr
      exact hp
  | exchangePeriod newPeriod =>
    cases h
    exact toUnsigned_lt ha.2 ha.1
  | isReady now =>
    obtain ⟨r, -, rfl⟩ := Option.map_eq_some_iff.mp h
    exact hp
  | cancel =>
    cases h
    exact hp
  | timeJump jump before after =>
    obtain ⟨r, hr, hmap⟩ := Option.bind_eq_some_iff.mp h
    obtain ⟨r', hr', rfl⟩ := Option.map_eq_some_iff.mp hmap
    rw [timerTimeJump_period hr', timerTimeJump_period hr]
    exact hp

/-- a timer that an operation has scheduled is not ready before it is due again -/
def NotEarly (t : Timer) (a : TimerAction) (t' : Timer) : Prop :=
  ∀ r : Int, timerIsReady t' (.ok r) = some (.ok true) →
    match a with
    | .call (.ok now) => t.nextCallTime + t.period ≤ r ∧ now ≤ r
    | .reset (.ok now) => now + t.period ≤ r
    | _ => t'.nextCallTime ≤ r

theorem scheduled_ge (next now : Int) {period : Int} (hp : 0 ≤ period) :
    next + period ≤ scheduled next period now ∧ now ≤ scheduled next period now := by
  unfold scheduled
  split
  · rename_i hlate
    split
    · exact ⟨hlate.le, le_rfl⟩
    · rename_i h0
      have hle := le_atOrAfter (x := next) (y := now) (p := period) (by omega)
      omega
  · rename_i hlate
    exact ⟨le_rfl, Int.not_lt.mp hlate⟩

theorem not_canceled_of_isReady {now : Reading} (h : timerIsReady t now = some (.ok true)) :
    t.canceled = false := by
  unfold timerIsReady at h
  obtain ⟨u, -, h⟩ := Option.bind_eq_some_iff.mp h
  cases u with
  | error e => cases h
  | ok u =>
    have hb := Except.ok.inj (Option.some.inj h)
    rw [Bool.and_eq_true, Bool.not_eq_true'] at hb
    exact hb.2

theorem notEarly_of_step (hp : t.period < 2 ^ 63) {a : TimerAction} (ha : a.Valid)
    (h : timerStep t a = some t') : NotEarly t a t' := by
  intro r hready
  have hdue := due_of_isReady hready
  have hperiod : (0 : Int) ≤ t.period := Int.natCast_nonneg _
  cases a with
  | call now =>
    cases now with
    | error e => exact hdue
    | ok n =>
      have hn : 0 ≤ n := ha n rfl
      have hc' := not_canceled_of_isReady hready
      obtain ⟨res, hcall, rfl⟩ := Option.map_eq_some_iff.mp h
      cases hc : t.canceled with
      | true =>
        -- a canceled timer stays canceled
        obtain ⟨e, he⟩ : ∃ e, timerCall t (.ok n) = some (.error e, t) := timerCall_refused (.inl hc)
        rw [hcall] at he
        have hsame := congrArg Prod.snd (Option.some.inj he)
        rw [hsame, hc] at hc'
        cases hc'
      | false =>
        obtain ⟨-, rfl⟩ := (timerCall_eq_some hp hc hn).mp hcall
        have hge := scheduled_ge t.nextCallTime n hperiod
        have hdue' : scheduled t.nextCallTime t.period n ≤ r := hdue
        show t.nextCallTime + t.period ≤ r ∧ n ≤ r
        omega
  | reset now =>
    cases now with
    | error e => exact hdue
    | ok n =>
      obtain ⟨res, hr, rfl⟩ := Option.map_eq_some_iff.mp h
      unfold timerReset at hr
      rw [t.loadPeriod_eq hp] at hr
      obtain ⟨-, hr⟩ := int64_bind_eq_some.mp hr
      cases hr
      exact hdue
  | exchangePeriod newPeriod => exact hdue
  | isReady now => exact hdue
  | cancel => exact hdue
  | timeJump jump before after => exact hdue

theorem notEarly_along (as : List TimerAction) : ∀ t : Timer, t.period < 2 ^ 63 →
    (∀ a ∈ as, a.Valid) → Along timerStep NotEarly t as := by
  induction as with
  | nil => exact fun _ _ _ => trivial
  | cons a as ih =>
    intro t hp hvalid t' ht'
    have ha := hvalid a List.mem_cons_self
    exact ⟨notEarly_of_step hp ha ht', ih t' (timerStep_period hp ha ht')
      fun b hb => hvalid b (List.mem_cons_of_mem a hb)⟩

theorem timerInit_eq_some {period now : Int} {c : Bool} (hperiod : 0 ≤ period) {t : Timer} :
    timerInit period c (.ok now) = some (.ok t) ↔
      Fits (now + period) ∧
        { period := toUnsigned period, lastCallTime := now, nextCallTime := now + period,
          callback := c } = t := by
  unfold timerInit
  rw [if_neg (Int.not_lt.mpr hperiod)]
  refine int64_bind_eq_some.trans (and_congr_right fun _ => ?_)
  rw [Option.pure_def, Option.some_inj]
  exact ⟨fun h => Except.ok.inj h, fun h => congrArg _ h⟩

/-- **No overflow.**  A timer is made and operated on without an overflow exactly when the sum of
the first reading and the period fits and the sums of every operation of the run do; then it is
ready no earlier than one period after it was made, and no earlier than it is due after any
operation. -/
theorem no_overflow_iff (period now : Int) (callback : Bool) (as : List TimerAction)
    (hperiod : 0 ≤ period ∧ Fits period) (hvalid : ∀ a ∈ as, a.Valid) :
    ((∃ t, timerInit period callback (.ok now) = some (.ok t) ∧
        (exec timerStep t as).isSome = true) ↔
      Fits (now + period) ∧ ∀ t, timerInit period callback (.ok now) = some (.ok t) →
        Meets timerStep Clear t as) ∧
    ∀ t, timerInit period callback (.ok now) = some (.ok t) →
      (∀ r : Int, timerIsReady t (.ok r) = some (.ok true) → now + period ≤ r) ∧
        Along timerStep NotEarly t as := by
  have hlt : toUnsigned period < 2 ^ 63 := toUnsigned_lt hperiod.2 hperiod.1
  have hrun : ∀ t, timerInit period callback (.ok now) = some (.ok t) →
      ((exec timerStep t as).isSome = true ↔ Meets timerStep Clear t as) := by
    intro t ht
    obtain ⟨-, rfl⟩ := (timerInit_eq_some hperiod.1).mp ht
    exact isSome_exec_iff (I := fun t : Timer => t.period < 2 ^ 63) (A := TimerAction.Valid)
      (fun s a s' hs ha h => timerStep_period hs ha h)
      (fun s a hs ha => isSome_timerStep hs ha) as _ hlt hvalid
  refine ⟨⟨fun h => ?_, fun h => ?_⟩, fun t ht => ⟨fun r hready => ?_, ?_⟩⟩
  · obtain ⟨t, ht, hsome⟩ := h
    refine ⟨((timerInit_eq_some hperiod.1).mp ht).1, fun t₁ ht₁ => ?_⟩
    obtain rfl := Except.ok.inj (Option.some.inj (ht.symm.trans ht₁))
    exact (hrun t ht).mp hsome
  · have ht := (timerInit_eq_some (c := callback) hperiod.1).mpr ⟨h.1, rfl⟩
    exact ⟨_, ht, (hrun _ ht).mpr (h.2 _ ht)⟩
  · obtain ⟨-, rfl⟩ := (timerInit_eq_some hperiod.1).mp ht
    exact due_of_isReady hready
  · obtain ⟨-, rfl⟩ := (timerInit_eq_some hperiod.1).mp ht
    exact notEarly_along as _ hlt hvalid

/-- a timer of one second that is checked, called late and reset -/
theorem no_overflow_iff_second :
    Fits (5 + 1000000000) ∧ ∀ t, timerInit 1000000000 true (.ok 5) = some (.ok t) →
      Meets timerStep Clear t
        [.isReady (.ok 7), .call (.ok 3500000000), .reset (.ok 4000000000)] := by
  refine (no_overflow_iff 1000000000 5 true
    [.isReady (.ok 7), .call (.ok 3500000000), .reset (.ok 4000000000)] (by decide) ?_).1.mp
    ⟨_, rfl, by decide⟩
  intro a ha
  simp only [List.mem_cons, List.not_mem_nil, or_false] at ha
  rcases ha with rfl | rfl | rfl
  · exact fun n hn => Option.some.inj hn ▸ by decide
  · exact fun n hn => Option.some.inj hn ▸ by decide
  · exact fun n hn => Option.some.inj hn ▸ by decide

/-- a period of `INT64_MAX` overflows at once -/
theorem longest_period_overflows :
    timerInit int64Max true (.ok 1600000000000000000) = none := by
  decide

end PMROS2.Rcl
