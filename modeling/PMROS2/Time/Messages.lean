import PMROS2.Time.Arithmetic

/-!
# Times and durations as messages

`builtin_interfaces::msg::Duration` and `builtin_interfaces::msg::Time` hold seconds in 32 bits and
nanoseconds; `rmw_time_t` has 64 bits for each.  `Duration` (`duration.cpp`) and `Time` (`time.cpp`)
convert to them and back, `to_rmw_time` by way of the message.

* `splitNanoseconds`           the conversion to a message, the same in both classes;
* `Reported`                   a conversion is undone, or throws where the target is too small;
* `conversions_reported_iff`   when the three conversions are.
-/

namespace PMROS2.Time
open Checked

/-! ## the conversions -/

/-- `builtin_interfaces::msg::Duration`, `builtin_interfaces::msg::Time` -/
structure StampMsg where
  sec : Int32
  nanosec : UInt32

/-- `RCL_S_TO_NS(1)` -/
def kDivisor : Int := 1000000000

/-- `std::div` truncates, and the seconds are cast to 32 bits -/
def splitNanoseconds (nanoseconds : Int) : StampMsg :=
  let quot := nanoseconds.tdiv kDivisor
  let rem := nanoseconds.tmod kDivisor
  if rem ≥ 0 then ⟨Int32.ofInt quot, UInt32.ofNat rem.toNat⟩
  else ⟨Int32.ofInt (quot - 1), UInt32.ofNat (kDivisor + rem).toNat⟩

/-- `Duration::operator builtin_interfaces::msg::Duration` -/
def Duration.toMsg (d : Duration) : Except Thrown StampMsg := .ok (splitNanoseconds d.nanoseconds)

/-- `Time::operator builtin_interfaces::msg::Time` -/
def TimePoint.toMsg (t : TimePoint) : Except Thrown StampMsg := .ok (splitNanoseconds t.nanoseconds)

/-- `Duration(duration_msg)` -/
def Duration.ofMsg (msg : StampMsg) : Option Duration :=
  (int64 (msg.sec.toInt * kDivisor)).bind fun ns => Duration.ofResult (ns + msg.nanosec.toNat)

/-- `Time(time_msg, clock_type)` -/
def TimePoint.ofMsg (msg : StampMsg) (clockType : ClockType) : Outcome TimePoint :=
  if msg.sec < 0 then
    some (.error (.runtimeError "cannot store a negative time point in rclcpp::Time"))
  else
    (int64 (msg.sec.toInt * kDivisor)).bind fun ns =>
      (TimePoint.ofResult (ns + msg.nanosec.toNat) clockType).map .ok

/-- `rmw_time_t` -/
structure RmwTime where
  sec : UInt64
  nsec : UInt64

/-- `Duration::to_rmw_time` -/
def Duration.toRmwTime (d : Duration) : Except Thrown RmwTime :=
  if d.nanoseconds < 0 then .error (.runtimeError "rmw_time_t cannot be negative")
  else d.toMsg.map fun msg => ⟨msg.sec.toInt64.toUInt64, msg.nanosec.toUInt64⟩

/-! ## what is asked for -/

/-- the result is undone by `back`; there is an exception only for a value that the target cannot
hold -/
def Reported {M : Type} (holds : Prop) (back : M → Prop) : Except Thrown M → Prop
  | .ok m => back m
  | .error _ => ¬ holds

def SecondsFit (nanoseconds : Int) : Prop :=
  -2147483648 ≤ nanoseconds / kDivisor ∧ nanoseconds / kDivisor ≤ 2147483647

instance SecondsFit.decidable (nanoseconds : Int) : Decidable (SecondsFit nanoseconds) :=
  inferInstanceAs (Decidable (_ ∧ _))

/-- `Duration(msg(d)) = d`, with less than a second of nanoseconds -/
def Duration.RoundTrips (d : Duration) (msg : StampMsg) : Prop :=
  Duration.ofMsg msg = some d ∧ msg.nanosec.toNat < 1000000000

/-- `Time(msg(t)) = t`, with less than a second of nanoseconds -/
def TimePoint.RoundTrips (t : TimePoint) (msg : StampMsg) : Prop :=
  TimePoint.ofMsg msg t.clockType = some (.ok t) ∧ msg.nanosec.toNat < 1000000000

def Duration.AddsUp (d : Duration) (r : RmwTime) : Prop :=
  (r.sec.toNat : Int) * 1000000000 + r.nsec.toNat = d.nanoseconds

/-! ## the message -/

theorem toInt_ofInt_eq_iff (q : Int) :
    (Int32.ofInt q).toInt = q ↔ -2147483648 ≤ q ∧ q ≤ 2147483647 := by
  constructor
  · intro h
    have hlo := (Int32.ofInt q).le_toInt
    have hhi := (Int32.ofInt q).toInt_lt
    omega
  · intro h
    exact Int32.toInt_ofInt_of_le (by omega) (by omega)

theorem toNat_ofNat_toNat {r : Int} (h0 : 0 ≤ r) (h1 : r < kDivisor) :
    ((UInt32.ofNat r.toNat).toNat : Int) = r := by
  unfold kDivisor at h1
  rw [UInt32.toNat_ofNat']
  omega

/-- the seconds round down, and wrap; the nanoseconds are the rest -/
theorem splitNanoseconds_eq (ns : Int) :
    (splitNanoseconds ns).sec = Int32.ofInt (ns / kDivisor) ∧
      ((splitNanoseconds ns).nanosec.toNat : Int) = ns % kDivisor := by
  have hmod : 0 ≤ ns % kDivisor ∧ ns % kDivisor < kDivisor := by
    unfold kDivisor
    omega
  unfold splitNanoseconds
  simp only
  by_cases hns : 0 ≤ ns
  · rw [Int.tdiv_eq_ediv_of_nonneg hns, Int.tmod_eq_emod_of_nonneg hns, if_pos hmod.1]
    exact ⟨rfl, toNat_ofNat_toNat hmod.1 hmod.2⟩
  · -- the truncated quotient and remainder are those of `-ns`, negated
    have hquot : ns.tdiv kDivisor = -(-ns / kDivisor) := by
      rw [← Int.tdiv_eq_ediv_of_nonneg (by omega), Int.neg_tdiv, Int.neg_neg]
    have hrem : ns.tmod kDivisor = -(-ns % kDivisor) := by
      rw [← Int.tmod_eq_emod_of_nonneg (by omega), Int.neg_tmod, Int.neg_neg]
    rw [hquot, hrem]
    by_cases hzero : -ns % kDivisor = 0
    · rw [hzero, if_pos (by decide)]
      refine ⟨congrArg Int32.ofInt ?_, ?_⟩
      · unfold kDivisor at *
        omega
      · show (0 : Int) = _
        unfold kDivisor at *
        omega
    · have hsum : kDivisor + -(-ns % kDivisor) = ns % kDivisor := by
        unfold kDivisor at *
        omega
      rw [if_neg (by unfold kDivisor at *; omega), hsum]
      refine ⟨congrArg Int32.ofInt ?_, toNat_ofNat_toNat hmod.1 hmod.2⟩
      unfold kDivisor at *
      omega

theorem sec_splitNanoseconds (ns : Int) :
    (splitNanoseconds ns).sec.toInt = ns / kDivisor ↔ SecondsFit ns := by
  rw [(splitNanoseconds_eq ns).1]
  exact toInt_ofInt_eq_iff _

theorem nanosec_splitNanoseconds (ns : Int) :
    (splitNanoseconds ns).nanosec.toNat < 1000000000 := by
  have h := (splitNanoseconds_eq ns).2
  unfold kDivisor at h
  omega

theorem fits_msg (msg : StampMsg) :
    Fits (msg.sec.toInt * kDivisor) ∧ Fits (msg.sec.toInt * kDivisor + msg.nanosec.toNat) := by
  have hlo := msg.sec.le_toInt
  have hhi := msg.sec.toInt_lt
  have hns := msg.nanosec.toNat_lt
  unfold Fits kDivisor
  omega

theorem sum_splitNanoseconds (ns : Int) :
    (splitNanoseconds ns).sec.toInt * kDivisor + (splitNanoseconds ns).nanosec.toNat = ns ↔
      SecondsFit ns := by
  rw [← sec_splitNanoseconds, (splitNanoseconds_eq ns).2]
  unfold kDivisor
  omega

/-! ## the conversions are undone -/

theorem Duration.ofMsg_eq (msg : StampMsg) : ∃ h,
    Duration.ofMsg msg = some ⟨msg.sec.toInt * kDivisor + msg.nanosec.toNat, h⟩ := by
  obtain ⟨hsec, hsum⟩ := fits_msg msg
  refine ⟨hsum, ?_⟩
  unfold Duration.ofMsg
  rw [int64_of_fits hsec, Option.bind_some]
  exact dif_pos hsum

theorem Duration.roundTrips_iff (d : Duration) :
    d.RoundTrips (splitNanoseconds d.nanoseconds) ↔ SecondsFit d.nanoseconds := by
  unfold Duration.RoundTrips
  rw [and_iff_left (nanosec_splitNanoseconds _), ← sum_splitNanoseconds]
  obtain ⟨h, hmsg⟩ := Duration.ofMsg_eq (splitNanoseconds d.nanoseconds)
  rw [hmsg, Option.some_inj]
  obtain ⟨ns, hns⟩ := d
  rw [Duration.mk.injEq]

theorem TimePoint.roundTrips_iff {t : TimePoint} (ht : 0 ≤ t.nanoseconds) :
    t.RoundTrips (splitNanoseconds t.nanoseconds) ↔ SecondsFit t.nanoseconds := by
  have hsplit := splitNanoseconds_eq t.nanoseconds
  obtain ⟨hsec, hsum⟩ := fits_msg (splitNanoseconds t.nanoseconds)
  unfold TimePoint.RoundTrips TimePoint.ofMsg
  rw [and_iff_left (nanosec_splitNanoseconds _)]
  constructor
  · intro h
    rw [← sum_splitNanoseconds]
    split at h
    · cases h
    · rw [int64_of_fits hsec, Option.bind_some, TimePoint.ofResult, dif_pos hsum] at h
      exact congrArg TimePoint.nanoseconds (Except.ok.inj (Option.some.inj h))
  · intro h
    have hvalue := (sum_splitNanoseconds _).mpr h
    have hnonneg : ¬ (splitNanoseconds t.nanoseconds).sec < 0 := by
      rw [Int32.lt_iff_toInt_lt, (sec_splitNanoseconds _).mpr h]
      show ¬ t.nanoseconds / kDivisor < 0
      unfold kDivisor
      omega
    rw [if_neg hnonneg, int64_of_fits hsec, Option.bind_some, TimePoint.ofResult, dif_pos hsum]
    refine congrArg (fun u : TimePoint => some (Except.ok u)) ?_
    obtain ⟨ns, clockType, hns⟩ := t
    rw [TimePoint.mk.injEq]
    exact ⟨hvalue, rfl⟩

theorem sec_toUInt64 (sec : Int32) :
    (sec.toInt64.toUInt64.toNat : Int) = sec.toInt % 18446744073709551616 := by
  rw [toNat_toUInt64, Int32.toInt_toInt64]
  rfl

theorem Duration.addsUp_iff {d : Duration} (hd : 0 ≤ d.nanoseconds) :
    d.AddsUp ⟨(splitNanoseconds d.nanoseconds).sec.toInt64.toUInt64,
      (splitNanoseconds d.nanoseconds).nanosec.toUInt64⟩ ↔ SecondsFit d.nanoseconds := by
  have hfits := d.fits
  have hlo := (splitNanoseconds d.nanoseconds).sec.le_toInt
  have hhi := (splitNanoseconds d.nanoseconds).sec.toInt_lt
  have hns := (splitNanoseconds_eq d.nanoseconds).2
  unfold Duration.AddsUp
  rw [sec_toUInt64, UInt32.toNat_toUInt64, ← sec_splitNanoseconds, hns]
  generalize (splitNanoseconds d.nanoseconds).sec.toInt = sec at *
  unfold Fits at hfits
  unfold kDivisor
  omega

/-- **The conversions.**  A duration converts to a message and back, a time that is not negative
does, and a duration that is not negative is the sum of the seconds and nanoseconds of its
`rmw_time_t`, just when the seconds fit in 32 bits.  No conversion throws where they do not. -/
theorem conversions_reported_iff (d : Duration) (t : TimePoint) :
    (Reported (SecondsFit d.nanoseconds) d.RoundTrips d.toMsg ↔ SecondsFit d.nanoseconds) ∧
    (0 ≤ t.nanoseconds →
      (Reported (SecondsFit t.nanoseconds) t.RoundTrips t.toMsg ↔ SecondsFit t.nanoseconds)) ∧
    (0 ≤ d.nanoseconds →
      (Reported True d.AddsUp d.toRmwTime ↔ SecondsFit d.nanoseconds)) := by
  refine ⟨d.roundTrips_iff, fun ht => TimePoint.roundTrips_iff ht, fun hd => ?_⟩
  unfold Duration.toRmwTime
  rw [if_neg (by omega)]
  exact Duration.addsUp_iff hd

/-- one nanosecond before 0, and the last time of a message -/
theorem conversions_reported_limits :
    Reported True (Duration.RoundTrips ⟨-1, by decide⟩) (Duration.toMsg ⟨-1, by decide⟩) ∧
    Reported True (TimePoint.RoundTrips ⟨2147483647999999999, .rosTime, by decide⟩)
      (TimePoint.toMsg ⟨2147483647999999999, .rosTime, by decide⟩) ∧
    Reported True (Duration.AddsUp ⟨2147483647999999999, by decide⟩)
      (Duration.toRmwTime ⟨2147483647999999999, by decide⟩) :=
  ⟨(conversions_reported_iff ⟨-1, by decide⟩ ⟨0, .rosTime, by decide⟩).1.mpr (by decide),
    ((conversions_reported_iff ⟨0, by decide⟩
      ⟨2147483647999999999, .rosTime, by decide⟩).2.1 (by decide)).mpr (by decide),
    ((conversions_reported_iff ⟨2147483647999999999, by decide⟩
      ⟨0, .rosTime, by decide⟩).2.2 (by decide)).mpr (by decide)⟩

/-- 2^31 seconds become -2^31 seconds, and for `rmw` 2^64 - 2^31 -/
theorem seconds_wrap :
    ¬ Reported (SecondsFit 2147483648000000000)
        (Duration.RoundTrips ⟨2147483648000000000, by decide⟩)
        (Duration.toMsg ⟨2147483648000000000, by decide⟩) ∧
    ¬ Reported True (Duration.AddsUp ⟨2147483648000000000, by decide⟩)
        (Duration.toRmwTime ⟨2147483648000000000, by decide⟩) := by
  have hsec : ¬ SecondsFit 2147483648000000000 := by decide
  constructor
  · intro h
    apply hsec
    exact (Duration.roundTrips_iff ⟨2147483648000000000, by decide⟩).mp h
  · intro h
    apply hsec
    exact (Duration.addsUp_iff (d := ⟨2147483648000000000, by decide⟩) (by decide)).mp h

end PMROS2.Time
