import PMROS2.Lib.Checked

/-!
# The timers of `rcl`

`timer.c`, and the part of `time.c` that tells the timers of a ROS clock about time jumps.

Times are `int64_t` nanoseconds.  The arithmetic on them is signed and not checked: a function
that overflows has no result (`none`).  The period is kept in an unsigned atomic and read as a
signed value.  A reading of the clock is an argument; it may fail, and the failure is returned.
-/

namespace PMROS2.Rcl
open Checked

/-- the values of `rcl_ret_t` other than `RCL_RET_OK` -/
inductive Failure where
  | error
  | badAlloc
  | invalidArgument
  | timerCanceled
  | waitSetInvalid
  | waitSetEmpty
  | waitSetFull
  | timeout
  deriving DecidableEq

/-- `rcl_clock_get_now` -/
abbrev Reading := Except Failure Int

structure Timer where
  /-- `atomic_uint_least64_t` -/
  period : Nat
  lastCallTime : Int
  nextCallTime : Int
  timeCredit : Int := 0
  canceled : Bool := false
  /-- the callback is not `NULL` -/
  callback : Bool := true
  deriving DecidableEq

/-- `int64_t period = rcutils_atomic_load_uint64_t(&timer->impl->period)` -/
def Timer.loadPeriod (t : Timer) : Int := toSigned t.period

/-- the arguments of the callback -/
structure Activation where
  sinceLastCall : Int
  intendedActivation : Int
  deriving DecidableEq

/-! ## the timer -/

/-- `rcl_timer_init`, with the memory and the guard condition it asks for -/
def timerInit (period : Int) (callback : Bool) (now : Reading) : Option (Except Failure Timer) :=
  if period < 0 then some (.error .invalidArgument)
  else
    match now with
    | .error e => some (.error e)
    | .ok now => do
      let nextCallTime ← int64 (now + period)
      return .ok
        { period := toUnsigned period
          lastCallTime := now
          nextCallTime := nextCallTime
          callback := callback }

/-- the next call time of `rcl_timer_call` -/
def nextCall (nextCallTime period now : Int) : Option Int := do
  let nextCallTime ← int64 (nextCallTime + period)
  -- in case the timer has missed at least one cycle
  if nextCallTime < now then
    if period = 0 then return now
    else
      let nowAhead ← int64 (now - nextCallTime)
      let nowAhead ← int64 (nowAhead - 1)
      let periodsAhead ← int64 (1 + nowAhead.tdiv period)
      let ahead ← int64 (periodsAhead * period)
      int64 (nextCallTime + ahead)
  else return nextCallTime

/-- `rcl_timer_call`: the result, with the arguments of the callback, and the timer after it -/
def timerCall (t : Timer) (now : Reading) :
    Option (Except Failure (Option Activation) × Timer) :=
  if t.canceled then some (.error .timerCanceled, t)
  else
    match now with
    | .error e => some (.error e, t)
    | .ok now =>
      if now < 0 then some (.error .error, t)
      else do
        let nextCallTime ← nextCall t.nextCallTime t.loadPeriod now
        let t' := { t with lastCallTime := now, nextCallTime := nextCallTime }
        if t.callback then
          let sinceLastCall ← int64 (now - t.lastCallTime)
          return (.ok (some ⟨sinceLastCall, t.nextCallTime⟩), t')
        else return (.ok none, t')

/-- `rcl_timer_get_time_until_next_call` -/
def timerGetTimeUntilNextCall (t : Timer) (now : Reading) : Option (Except Failure Int) :=
  match now with
  | .error e => some (.error e)
  | .ok now => do
    let timeUntilNextCall ← int64 (t.nextCallTime - now)
    return .ok timeUntilNextCall

/-- `rcl_timer_is_ready` -/
def timerIsReady (t : Timer) (now : Reading) : Option (Except Failure Bool) := do
  match ← timerGetTimeUntilNextCall t now with
  | .error e => return .error e
  | .ok timeUntilNextCall => return .ok (decide (timeUntilNextCall ≤ 0) && !t.canceled)

/-- `rcl_timer_exchange_period`: the old period and the timer -/
def timerExchangePeriod (t : Timer) (newPeriod : Int) : Int × Timer :=
  (t.loadPeriod, { t with period := toUnsigned newPeriod })

/-- `rcl_timer_cancel` -/
def timerCancel (t : Timer) : Timer := { t with canceled := true }

/-- `rcl_timer_reset` -/
def timerReset (t : Timer) (now : Reading) : Option (Except Failure Unit × Timer) :=
  match now with
  | .error e => some (.error e, t)
  | .ok now => do
    let nextCallTime ← int64 (now + t.loadPeriod)
    return (.ok (), { t with nextCallTime := nextCallTime, canceled := false })

/-! ## time jumps -/

inductive ClockChange where
  | rosTimeNoChange
  | rosTimeActivated
  | rosTimeDeactivated
  | systemTimeNoChange
  deriving DecidableEq

structure TimeJump where
  clockChange : ClockChange
  /-- nanoseconds -/
  delta : Int

def TimeJump.isClockChange (jump : TimeJump) : Bool :=
  jump.clockChange = .rosTimeActivated || jump.clockChange = .rosTimeDeactivated

/-- `_rcl_timer_time_jump`: the timer after it, and whether its guard condition was triggered -/
def timerTimeJump (jump : TimeJump) (beforeJump : Bool) (now : Reading) (t : Timer) :
    Option (Timer × Bool) :=
  match now with
  -- an error is logged; a callback before a jump without a change reads no clock
  | .error _ => some (t, false)
  | .ok now =>
    if beforeJump then
      if jump.isClockChange then
        if now = 0 then some (t, false)
        else do
          let timeCredit ← int64 (t.nextCallTime - now)
          return ({ t with timeCredit := timeCredit }, false)
      else some (t, false)
    else if jump.isClockChange then
      if now = 0 then some (t, false)
      else if t.timeCredit ≠ 0 then do
        let lastCallTime ← int64 (now - t.timeCredit)
        let nextCallTime ← int64 (lastCallTime + t.loadPeriod)
        return ({ t with
          timeCredit := 0, nextCallTime := nextCallTime, lastCallTime := lastCallTime }, false)
      else some ({ t with timeCredit := 0 }, false)
    else if t.nextCallTime ≤ now then some (t, true)
    else if now < t.lastCallTime then do
      let nextCallTime ← int64 (now + t.loadPeriod)
      return ({ t with nextCallTime := nextCallTime, lastCallTime := now }, false)
    else some (t, false)

/-- the storage of a clock of type `RCL_ROS_TIME` -/
structure RosClock where
  active : Bool
  currentTime : Int
  deriving DecidableEq

/-- `rcl_get_ros_time`, with the reading of the system clock -/
def RosClock.getRosTime (clock : RosClock) (system : Reading) : Reading :=
  if clock.active then .ok clock.currentTime else system

/-- `_rcl_clock_call_callbacks` as far as it concerns one timer; the threshold is the one that
`rcl_timer_init` registers -/
def clockCallCallbacks (clock : RosClock) (jump : TimeJump) (beforeJump : Bool) (system : Reading)
    (t : Timer) : Option (Timer × Bool) :=
  if jump.isClockChange || decide (jump.delta < 0 ∧ jump.delta ≤ -1) ||
      decide (jump.delta > 0 ∧ jump.delta ≥ 1) then
    timerTimeJump jump beforeJump (clock.getRosTime system) t
  else some (t, false)

/-- the two rounds of callbacks around a change of the clock: the timer after it, and whether its
guard condition was triggered -/
def clockJump (clock clock' : RosClock) (jump : TimeJump) (before after : Reading) (t : Timer) :
    Option (Timer × Bool) := do
  let (t, _) ← clockCallCallbacks clock jump true before t
  clockCallCallbacks clock' jump false after t

/-- `rcl_enable_ros_time_override`; `before` and `after` are the readings of the system clock in
the two rounds of callbacks -/
def enableRosTimeOverride (clock : RosClock) (before after : Reading) (t : Timer) :
    Option (RosClock × Timer) := do
  if clock.active then return (clock, t)
  else
    let clock' := { clock with active := true }
    let (t, _) ← clockJump clock clock' ⟨.rosTimeActivated, 0⟩ before after t
    return (clock', t)

/-- `rcl_disable_ros_time_override` -/
def disableRosTimeOverride (clock : RosClock) (before after : Reading) (t : Timer) :
    Option (RosClock × Timer) := do
  if clock.active then
    let clock' := { clock with active := false }
    let (t, _) ← clockJump clock clock' ⟨.rosTimeDeactivated, 0⟩ before after t
    return (clock', t)
  else return (clock, t)

/-- `rcl_set_ros_time_override` -/
def setRosTimeOverride (clock : RosClock) (timeValue : Int) (t : Timer) :
    Option (RosClock × Timer) := do
  let clock' := { clock with currentTime := timeValue }
  if clock.active then
    let delta ← int64 (timeValue - clock.currentTime)
    let (t, _) ← clockJump clock clock' ⟨.rosTimeNoChange, delta⟩ (.ok 0) (.ok 0) t
    return (clock', t)
  else return (clock', t)

end PMROS2.Rcl
