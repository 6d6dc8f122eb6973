import PMROS2.Lib.Checked

/-!
# The arithmetic of times and durations

`Duration` (`duration.cpp`), `Time` (`time.cpp`) and the checks of `utilities.hpp`.  Every signed
operation of the source has a value only where its exact result fits, so an operation of the model
has no result where the source overflows.

The two classes check differently: `Duration` adds absolute values as unsigned numbers, `Time`
compares with the distance to the limit.

* `Exact x r`                the outcome `r` is the one that the exact result `x` asks for;
* `time_arithmetic_exact_iff`   when the operations are exact.
-/

namespace PMROS2.Time
open Checked

/-- `INT64_MIN` -/
def int64Min : Int := -9223372036854775808

/-- the exceptions, with their texts -/
inductive Thrown where
  | overflowError (what : String)
  | underflowError (what : String)
  | runtimeError (what : String)

/-- what an operation returns or throws; there is nothing where a signed operation overflows -/
abbrev Outcome (α : Type) := Option (Except Thrown α)

/-! ## the values -/

/-- `rclcpp::Duration` -/
structure Duration where
  nanoseconds : Int
  fits : Fits nanoseconds

def Duration.ofResult (x : Int) : Option Duration := if h : Fits x then some ⟨x, h⟩ else none

inductive ClockType where
  | uninitialized
  | rosTime
  | systemTime
  | steadyTime
  deriving DecidableEq

/-- `rclcpp::Time` -/
structure TimePoint where
  nanoseconds : Int
  clockType : ClockType
  fits : Fits nanoseconds

def TimePoint.ofResult (x : Int) (clockType : ClockType) : Option TimePoint :=
  if h : Fits x then some ⟨x, clockType, h⟩ else none

/-! ## the checks -/

/-- `std::abs` -/
def stdAbs (x : Int) : Option Int := if x < 0 then int64 (-x) else some x

/-- the sum of two values that are not negative, as unsigned numbers of 64 bits -/
def unsignedSum (x y : Int) : Nat := (toUnsigned x + toUnsigned y) % 2 ^ 64

/-- `bounds_check_duration_sum` -/
def boundsCheckDurationSum (lhsns rhsns : Int) (max : Nat) : Outcome Unit :=
  (stdAbs lhsns).bind fun absLhs => (stdAbs rhsns).bind fun absRhs =>
    if lhsns > 0 ∧ rhsns > 0 then
      if unsignedSum absLhs absRhs > max then
        some (.error (.overflowError "addition leads to int64_t overflow"))
      else some (.ok ())
    else if lhsns < 0 ∧ rhsns < 0 then
      if unsignedSum absLhs absRhs > max then
        some (.error (.underflowError "addition leads to int64_t underflow"))
      else some (.ok ())
    else some (.ok ())

/-- `bounds_check_duration_difference` -/
def boundsCheckDurationDifference (lhsns rhsns : Int) (max : Nat) : Outcome Unit :=
  (stdAbs lhsns).bind fun absLhs => (stdAbs rhsns).bind fun absRhs =>
    if lhsns > 0 ∧ rhsns < 0 then
      if unsignedSum absLhs absRhs > max then
        some (.error (.overflowError "duration subtraction leads to int64_t overflow"))
      else some (.ok ())
    else if lhsns < 0 ∧ rhsns > 0 then
      if unsignedSum absLhs absRhs > max then
        some (.error (.underflowError "duration subtraction leads to int64_t underflow"))
      else some (.ok ())
    else some (.ok ())

/-- `add_will_overflow` -/
def addWillOverflow (x y : Int) : Option Bool :=
  if y > 0 then (int64 (int64Max - y)).map fun m => decide (x > m) else some false

/-- `add_will_underflow` -/
def addWillUnderflow (x y : Int) : Option Bool :=
  if y < 0 then (int64 (int64Min - y)).map fun m => decide (x < m) else some false

/-- `sub_will_overflow` -/
def subWillOverflow (x y : Int) : Option Bool :=
  if y < 0 then (int64 (int64Max + y)).map fun m => decide (x > m) else some false

/-- `sub_will_underflow` -/
def subWillUnderflow (x y : Int) : Option Bool :=
  if y > 0 then (int64 (int64Min + y)).map fun m => decide (x < m) else some false

/-! ## the operations -/

/-- a check that may throw, and the result behind it -/
def afterCheck {α : Type} (check : Outcome Unit) (result : Option α) : Outcome α :=
  check.bind fun
    | .error e => some (.error e)
    | .ok () => result.map .ok

/-- the check of an operation of `Time` -/
def willThrow (overflow underflow : Option Bool) (operation : String) : Outcome Unit :=
  overflow.bind fun
    | true => some (.error (.overflowError (operation ++ " leads to int64_t overflow")))
    | false => underflow.bind fun
      | true => some (.error (.underflowError (operation ++ " leads to int64_t underflow")))
      | false => some (.ok ())

/-- `Duration::operator+` -/
def Duration.add (d e : Duration) : Outcome Duration :=
  afterCheck (boundsCheckDurationSum d.nanoseconds e.nanoseconds (toUnsigned int64Max))
    (Duration.ofResult (d.nanoseconds + e.nanoseconds))

/-- `Duration::operator-` -/
def Duration.sub (d e : Duration) : Outcome Duration :=
  afterCheck (boundsCheckDurationDifference d.nanoseconds e.nanoseconds (toUnsigned int64Max))
    (Duration.ofResult (d.nanoseconds - e.nanoseconds))

/-- `Time::operator+` -/
def TimePoint.addDuration (t : TimePoint) (d : Duration) : Outcome TimePoint :=
  afterCheck (willThrow (addWillOverflow d.nanoseconds t.nanoseconds)
      (addWillUnderflow d.nanoseconds t.nanoseconds) "addition")
    (TimePoint.ofResult (t.nanoseconds + d.nanoseconds) t.clockType)

/-- `operator+` of a duration and a time -/
def Duration.addTime (d : Duration) (t : TimePoint) : Outcome TimePoint :=
  afterCheck (willThrow (addWillOverflow t.nanoseconds d.nanoseconds)
      (addWillUnderflow t.nanoseconds d.nanoseconds) "addition")
    (TimePoint.ofResult (d.nanoseconds + t.nanoseconds) t.clockType)

/-- `Time::operator-` of a duration -/
def TimePoint.subDuration (t : TimePoint) (d : Duration) : Outcome TimePoint :=
  afterCheck (willThrow (subWillOverflow t.nanoseconds d.nanoseconds)
      (subWillUnderflow t.nanoseconds d.nanoseconds) "time subtraction")
    (TimePoint.ofResult (t.nanoseconds - d.nanoseconds) t.clockType)

/-- `Time::operator-` of a time -/
def TimePoint.sub (t u : TimePoint) : Outcome Duration :=
  if t.clockType ≠ u.clockType then
    some (.error (.runtimeError "can't subtract times with different time sources"))
  else
    afterCheck (willThrow (subWillOverflow t.nanoseconds u.nanoseconds)
        (subWillUnderflow t.nanoseconds u.nanoseconds) "time subtraction")
      (Duration.ofResult (t.nanoseconds - u.nanoseconds))

/-! ## what is asked for -/

/-- **The outcome for an exact result**: an overflow, an underflow, or the result itself. -/
def Exact {α : Type} (value : α → Int) (x : Int) (r : Outcome α) : Prop :=
  if int64Max < x then ∃ what, r = some (.error (.overflowError what))
  else if x < int64Min then ∃ what, r = some (.error (.underflowError what))
  else ∃ a, r = some (.ok a) ∧ value a = x

/-- the check of an exact result -/
def Decides (x : Int) (check : Outcome Unit) : Prop :=
  if int64Max < x then ∃ what, check = some (.error (.overflowError what))
  else if x < int64Min then ∃ what, check = some (.error (.underflowError what))
  else check = some (.ok ())

section
variable {α : Type} {value : α → Int} {x y : Int}

theorem fits_iff : Fits x ↔ ¬ int64Max < x ∧ ¬ x < int64Min := by
  unfold Fits int64Max int64Min
  omega

theorem exact_afterCheck {check : Outcome Unit} {result : Option α} (hcheck : Decides x check)
    (hresult : Fits x → ∃ a, result = some a ∧ value a = x) :
    Exact value x (afterCheck check result) := by
  unfold Decides at hcheck
  unfold Exact
  by_cases hmax : int64Max < x
  · rw [if_pos hmax] at hcheck ⊢
    obtain ⟨what, rfl⟩ := hcheck
    exact ⟨what, rfl⟩
  rw [if_neg hmax] at hcheck ⊢
  by_cases hmin : x < int64Min
  · rw [if_pos hmin] at hcheck ⊢
    obtain ⟨what, rfl⟩ := hcheck
    exact ⟨what, rfl⟩
  rw [if_neg hmin] at hcheck ⊢
  obtain ⟨a, rfl, ha⟩ := hresult (fits_iff.mpr ⟨hmax, hmin⟩)
  rw [hcheck]
  exact ⟨a, rfl, ha⟩

theorem duration_ofResult (h : Fits x) :
    ∃ d, Duration.ofResult x = some d ∧ d.nanoseconds = x :=
  ⟨⟨x, h⟩, dif_pos h, rfl⟩

theorem timePoint_ofResult (clockType : ClockType) (h : Fits x) :
    ∃ t, TimePoint.ofResult x clockType = some t ∧ t.nanoseconds = x :=
  ⟨⟨x, clockType, h⟩, dif_pos h, rfl⟩

/-! ## the checks of `Time` -/

/-- a comparison with the distance to a limit, where that is on the way -/
theorem check_eq {p q : Prop} [Decidable p] [Decidable q] {m : Int} {c : Int → Bool}
    (hfits : p → Fits m) (hpos : p → (c m = true ↔ q)) (hneg : ¬ p → ¬ q) :
    (if p then (int64 m).map c else some false) = some (decide q) := by
  by_cases hp : p
  · rw [if_pos hp, int64_of_fits (hfits hp), Option.map_some]
    refine congrArg some ?_
    rw [Bool.eq_iff_iff, hpos hp, decide_eq_true_iff]
  · rw [if_neg hp, decide_eq_false (hneg hp)]

theorem addWillOverflow_eq (hx : Fits x) (hy : Fits y) :
    addWillOverflow x y = some (decide (int64Max < x + y)) := by
  unfold Fits at hx hy
  refine check_eq (fun _ => ?_) (fun _ => decide_eq_true_iff.trans ?_) fun _ => ?_
  all_goals
    unfold int64Max at *
    first | omega | (unfold Fits; omega)

theorem addWillUnderflow_eq (hx : Fits x) (hy : Fits y) :
    addWillUnderflow x y = some (decide (x + y < int64Min)) := by
  unfold Fits at hx hy
  refine check_eq (fun _ => ?_) (fun _ => decide_eq_true_iff.trans ?_) fun _ => ?_
  all_goals
    unfold int64Min at *
    first | omega | (unfold Fits; omega)

theorem subWillOverflow_eq (hx : Fits x) (hy : Fits y) :
    subWillOverflow x y = some (decide (int64Max < x - y)) := by
  unfold Fits at hx hy
  refine check_eq (fun _ => ?_) (fun _ => decide_eq_true_iff.trans ?_) fun _ => ?_
  all_goals
    unfold int64Max at *
    first | omega | (unfold Fits; omega)

theorem subWillUnderflow_eq (hx : Fits x) (hy : Fits y) :
    subWillUnderflow x y = some (decide (x - y < int64Min)) := by
  unfold Fits at hx hy
  refine check_eq (fun _ => ?_) (fun _ => decide_eq_true_iff.trans ?_) fun _ => ?_
  all_goals
    unfold int64Min at *
    first | omega | (unfold Fits; omega)

theorem decides_willThrow (operation : String) :
    Decides x (willThrow (some (decide (int64Max < x))) (some (decide (x < int64Min)))
      operation) := by
  unfold Decides
  by_cases hmax : int64Max < x
  · rw [if_pos hmax, decide_eq_true hmax]
    exact ⟨_, rfl⟩
  · rw [if_neg hmax, decide_eq_false hmax]
    by_cases hmin : x < int64Min
    · rw [if_pos hmin, decide_eq_true hmin]
      exact ⟨_, rfl⟩
    · rw [if_neg hmin, decide_eq_false hmin]
      rfl

/-! ## the checks of `Duration` -/

theorem stdAbs_eq (hx : Fits x) (hne : x ≠ int64Min) : stdAbs x = some (x.natAbs : Int) := by
  unfold stdAbs
  unfold Fits int64Min at *
  split
  · rw [int64_of_fits (by unfold Fits; omega)]
    refine congrArg some ?_
    omega
  · refine congrArg some ?_
    omega

theorem stdAbs_int64Min : stdAbs int64Min = none := by
  decide

theorem unsignedSum_eq (hx : 0 ≤ x) (hx' : x ≤ int64Max) (hy : 0 ≤ y) (hy' : y ≤ int64Max) :
    (unsignedSum x y : Int) = x + y := by
  unfold unsignedSum toUnsigned
  unfold int64Max at *
  omega

end

section
variable {α : Type} {value : α → Int} {x l r : Int}

/-- the unsigned sum of the absolute values, compared with the limit -/
theorem unsignedSum_gt (hl : Fits l) (hl' : l ≠ int64Min) (hr : Fits r) (hr' : r ≠ int64Min) :
    unsignedSum l.natAbs r.natAbs > toUnsigned int64Max ↔
      int64Max < (l.natAbs : Int) + r.natAbs := by
  unfold Fits at hl hr
  unfold int64Min at *
  have hsum : (unsignedSum l.natAbs r.natAbs : Int) = (l.natAbs : Int) + r.natAbs :=
    unsignedSum_eq (by omega) (by unfold int64Max; omega) (by omega) (by unfold int64Max; omega)
  have hmax : (toUnsigned int64Max : Int) = int64Max := by decide
  rw [← hsum, ← hmax]
  exact Int.ofNat_lt.symm

/-- **A check of `Duration`**: where the signs say that the absolute values add up, `p` to a positive
and `q` to a negative result, it is exact, but for the least number. -/
theorem decides_bounds {p q : Prop} [Decidable p] [Decidable q] (hl : Fits l) (hl' : l ≠ int64Min)
    (hr : Fits r) (hr' : r ≠ int64Min) (hp : p → x = (l.natAbs : Int) + r.natAbs)
    (hq : q → x = -((l.natAbs : Int) + r.natAbs)) (hneither : ¬ p → ¬ q → Fits x)
    (hx : x ≠ int64Min) (w w' : String) :
    Decides x ((stdAbs l).bind fun absLhs => (stdAbs r).bind fun absRhs =>
      if p then
        if unsignedSum absLhs absRhs > toUnsigned int64Max then some (.error (.overflowError w))
        else some (.ok ())
      else if q then
        if unsignedSum absLhs absRhs > toUnsigned int64Max then some (.error (.underflowError w'))
        else some (.ok ())
      else some (.ok ())) := by
  have hgt := unsignedSum_gt hl hl' hr hr'
  have hmin : int64Min = -int64Max - 1 := rfl
  rw [stdAbs_eq hl hl', stdAbs_eq hr hr', Option.bind_some, Option.bind_some]
  unfold Decides
  by_cases hp' : p
  · have hxp := hp hp'
    rw [if_pos hp']
    by_cases hover : int64Max < x
    · rw [if_pos hover, if_pos (hgt.mpr (hxp ▸ hover))]
      exact ⟨w, rfl⟩
    · rw [if_neg hover, if_neg (fun h => hover (hxp ▸ hgt.mp h)), if_neg]
      unfold int64Min
      omega
  rw [if_neg hp']
  by_cases hq' : q
  · have hxq := hq hq'
    have hle : ¬ int64Max < x := by
      unfold int64Max
      omega
    rw [if_pos hq', if_neg hle]
    by_cases hunder : x < int64Min
    · rw [if_pos hunder, if_pos (hgt.mpr (by omega))]
      exact ⟨w', rfl⟩
    · rw [if_neg hunder, if_neg (fun h => hunder (by have := hgt.mp h; omega))]
  · obtain ⟨hle, hge⟩ := fits_iff.mp (hneither hp' hq')
    rw [if_neg hq', if_neg hle, if_neg hge]

theorem decides_sum (hl : Fits l) (hl' : l ≠ int64Min) (hr : Fits r) (hr' : r ≠ int64Min)
    (hx : l + r ≠ int64Min) :
    Decides (l + r) (boundsCheckDurationSum l r (toUnsigned int64Max)) := by
  refine decides_bounds hl hl' hr hr' (fun h => ?_) (fun h => ?_) (fun h h' => ?_) hx _ _
  · omega
  · omega
  · unfold Fits at *
    omega

theorem decides_difference (hl : Fits l) (hl' : l ≠ int64Min) (hr : Fits r) (hr' : r ≠ int64Min)
    (hx : l - r ≠ int64Min) :
    Decides (l - r) (boundsCheckDurationDifference l r (toUnsigned int64Max)) := by
  refine decides_bounds hl hl' hr hr' (fun h => ?_) (fun h => ?_) (fun h h' => ?_) hx _ _
  · omega
  · omega
  · unfold Fits int64Min at *
    omega

theorem not_exact_none : ¬ Exact value x none := by
  unfold Exact
  split
  · exact fun ⟨_, h⟩ => (by cases h)
  · split
    · exact fun ⟨_, h⟩ => (by cases h)
    · exact fun ⟨_, h, _⟩ => (by cases h)

theorem not_exact_underflow {what : String} :
    ¬ Exact value int64Min (some (.error (.underflowError what))) := by
  unfold Exact
  rw [if_neg (by decide), if_neg (by decide)]
  exact fun ⟨_, h, _⟩ => (by cases h)

/-- the checks of `Duration` have no outcome where an operand is the least number -/
theorem bind_stdAbs_none {f : Int → Int → Outcome Unit} (h : l = int64Min ∨ r = int64Min) :
    ((stdAbs l).bind fun a => (stdAbs r).bind fun b => f a b) = none := by
  rcases h with rfl | rfl
  · rw [stdAbs_int64Min]
    rfl
  · rw [stdAbs_int64Min]
    cases stdAbs l with
    | none => rfl
    | some a => rfl

theorem bounds_int64Min {p q : Prop} [Decidable p] [Decidable q] (hl : Fits l) (hl' : l ≠ int64Min)
    (hr : Fits r) (hr' : r ≠ int64Min) (hp : ¬ p) (hq : q)
    (hsum : int64Max < (l.natAbs : Int) + r.natAbs) (w w' : String) :
    ((stdAbs l).bind fun absLhs => (stdAbs r).bind fun absRhs =>
      if p then
        if unsignedSum absLhs absRhs > toUnsigned int64Max then
          some (Except.error (Thrown.overflowError w))
        else some (.ok ())
      else if q then
        if unsignedSum absLhs absRhs > toUnsigned int64Max then some (.error (.underflowError w'))
        else some (.ok ())
      else some (.ok ())) = some (.error (.underflowError w')) := by
  rw [stdAbs_eq hl hl', stdAbs_eq hr hr', Option.bind_some, Option.bind_some, if_neg hp, if_pos hq,
    if_pos ((unsignedSum_gt hl hl' hr hr').mpr hsum)]

/-- an operation on durations is exact where its check decides, which it does but for the least
number -/
theorem exact_afterCheck_iff {check : Outcome Unit}
    (hnone : l = int64Min ∨ r = int64Min → check = none)
    (hleast : l ≠ int64Min → r ≠ int64Min → x = int64Min →
      ∃ what, check = some (.error (.underflowError what)))
    (hdecides : l ≠ int64Min → r ≠ int64Min → x ≠ int64Min → Decides x check) :
    Exact Duration.nanoseconds x (afterCheck check (Duration.ofResult x)) ↔
      l ≠ int64Min ∧ r ≠ int64Min ∧ x ≠ int64Min := by
  constructor
  · intro h
    have hne : ¬ (l = int64Min ∨ r = int64Min) := by
      intro hmin
      rw [hnone hmin] at h
      exact not_exact_none h
    obtain ⟨hl, hr⟩ := not_or.mp hne
    refine ⟨hl, hr, fun hx => ?_⟩
    obtain ⟨what, hcheck⟩ := hleast hl hr hx
    rw [hcheck, hx] at h
    exact not_exact_underflow h
  · intro ⟨hl, hr, hx⟩
    exact exact_afterCheck (hdecides hl hr hx) duration_ofResult

end

/-! ## the operations are exact -/

theorem Duration.add_exact_iff (d e : Duration) :
    Exact Duration.nanoseconds (d.nanoseconds + e.nanoseconds) (d.add e) ↔
      d.nanoseconds ≠ int64Min ∧ e.nanoseconds ≠ int64Min ∧
        d.nanoseconds + e.nanoseconds ≠ int64Min := by
  have hdfits := d.fits
  have hefits := e.fits
  apply exact_afterCheck_iff bind_stdAbs_none
  · intro hd he hsum
    unfold Fits int64Min at *
    refine ⟨_, bounds_int64Min d.fits hd e.fits he ?_ ?_ ?_ _ _⟩
    · omega
    · omega
    · unfold int64Max
      omega
  · exact fun hd he hsum => decides_sum d.fits hd e.fits he hsum

theorem Duration.sub_exact_iff (d e : Duration) :
    Exact Duration.nanoseconds (d.nanoseconds - e.nanoseconds) (d.sub e) ↔
      d.nanoseconds ≠ int64Min ∧ e.nanoseconds ≠ int64Min ∧
        d.nanoseconds - e.nanoseconds ≠ int64Min := by
  have hdfits := d.fits
  have hefits := e.fits
  apply exact_afterCheck_iff bind_stdAbs_none
  · intro hd he hdiff
    unfold Fits int64Min at *
    refine ⟨_, bounds_int64Min d.fits hd e.fits he ?_ ?_ ?_ _ _⟩
    · omega
    · omega
    · unfold int64Max
      omega
  · exact fun hd he hdiff => decides_difference d.fits hd e.fits he hdiff

theorem TimePoint.addDuration_exact (t : TimePoint) (d : Duration) :
    Exact TimePoint.nanoseconds (t.nanoseconds + d.nanoseconds) (t.addDuration d) := by
  unfold TimePoint.addDuration
  rw [addWillOverflow_eq d.fits t.fits, addWillUnderflow_eq d.fits t.fits,
    Int.add_comm d.nanoseconds]
  exact exact_afterCheck (decides_willThrow _) (timePoint_ofResult _)

theorem Duration.addTime_exact (d : Duration) (t : TimePoint) :
    Exact TimePoint.nanoseconds (d.nanoseconds + t.nanoseconds) (d.addTime t) := by
  unfold Duration.addTime
  rw [addWillOverflow_eq t.fits d.fits, addWillUnderflow_eq t.fits d.fits,
    Int.add_comm t.nanoseconds]
  exact exact_afterCheck (decides_willThrow _) (timePoint_ofResult _)

theorem TimePoint.subDuration_exact (t : TimePoint) (d : Duration) :
    Exact TimePoint.nanoseconds (t.nanoseconds - d.nanoseconds) (t.subDuration d) := by
  unfold TimePoint.subDuration
  rw [subWillOverflow_eq t.fits d.fits, subWillUnderflow_eq t.fits d.fits]
  exact exact_afterCheck (decides_willThrow _) (timePoint_ofResult _)

theorem TimePoint.sub_exact {t u : TimePoint} (h : t.clockType = u.clockType) :
    Exact Duration.nanoseconds (t.nanoseconds - u.nanoseconds) (t.sub u) := by
  unfold TimePoint.sub
  rw [if_neg (not_not.mpr h), subWillOverflow_eq t.fits u.fits, subWillUnderflow_eq t.fits u.fits]
  exact exact_afterCheck (decides_willThrow _) duration_ofResult

/-- **The arithmetic of times and durations.**  For all operands: the operations that involve a time
(of the same clock) are exact, overflow and underflow where the exact result does and overflow
nowhere else; the sum and the difference of two durations are exact just when neither an operand nor
the result is the least number. -/
theorem time_arithmetic_exact_iff (d e : Duration) (t u : TimePoint) :
    (Exact Duration.nanoseconds (d.nanoseconds + e.nanoseconds) (d.add e) ↔
      d.nanoseconds ≠ int64Min ∧ e.nanoseconds ≠ int64Min ∧
        d.nanoseconds + e.nanoseconds ≠ int64Min) ∧
    (Exact Duration.nanoseconds (d.nanoseconds - e.nanoseconds) (d.sub e) ↔
      d.nanoseconds ≠ int64Min ∧ e.nanoseconds ≠ int64Min ∧
        d.nanoseconds - e.nanoseconds ≠ int64Min) ∧
    Exact TimePoint.nanoseconds (t.nanoseconds + d.nanoseconds) (t.addDuration d) ∧
    Exact TimePoint.nanoseconds (d.nanoseconds + t.nanoseconds) (d.addTime t) ∧
    Exact TimePoint.nanoseconds (t.nanoseconds - d.nanoseconds) (t.subDuration d) ∧
    (t.clockType = u.clockType →
      Exact Duration.nanoseconds (t.nanoseconds - u.nanoseconds) (t.sub u)) :=
  ⟨d.add_exact_iff e, d.sub_exact_iff e, t.addDuration_exact d, d.addTime_exact t,
    t.subDuration_exact d, fun h => TimePoint.sub_exact h⟩

/-- two times of one clock, and two durations whose sum does not fit -/
theorem time_arithmetic_exact_limits :
    Exact Duration.nanoseconds (int64Max + 1)
      (Duration.add ⟨int64Max, by decide⟩ ⟨1, by decide⟩) ∧
    Exact Duration.nanoseconds (int64Min - 1)
      (TimePoint.sub ⟨int64Min, .rosTime, by decide⟩ ⟨1, .rosTime, by decide⟩) :=
  ⟨(time_arithmetic_exact_iff ⟨int64Max, by decide⟩ ⟨1, by decide⟩
      ⟨int64Min, .rosTime, by decide⟩ ⟨1, .rosTime, by decide⟩).1.mpr (by decide),
    (time_arithmetic_exact_iff ⟨int64Max, by decide⟩ ⟨1, by decide⟩
      ⟨int64Min, .rosTime, by decide⟩ ⟨1, .rosTime, by decide⟩).2.2.2.2.2 rfl⟩

/-- -2^63 + 1 and -1: the sum is the least number, which fits, and is thrown away -/
theorem least_sum_is_thrown :
    ¬ Exact Duration.nanoseconds (-9223372036854775807 + -1)
      (Duration.add ⟨-9223372036854775807, by decide⟩ ⟨-1, by decide⟩) := by
  intro h
  have hne := ((Duration.add_exact_iff ⟨-9223372036854775807, by decide⟩ ⟨-1, by decide⟩).mp h).2.2
  exact hne (by decide)

end PMROS2.Time
