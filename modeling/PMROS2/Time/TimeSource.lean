import PMROS2.Lib.Runs
import PMROS2.Params.Store

/-!
# The time source of a node

`TimeSource` (`time_source.cpp`): it follows the parameter `use_sim_time` of the attached node
and the messages of `/clock`, and sets the ROS time override of the clocks attached to it (the
override itself is in rcl, `time.c`).

One step of the model is one call: the public operations, `clock_cb` for a message of `/clock`,
and `on_parameter_event` for an event of any node.
-/

namespace PMROS2.Time
open PMROS2.Params PMROS2.Runs

/-- `builtin_interfaces::msg::Time`, as far as `rclcpp::Time` accepts it -/
structure TimeMsg where
  sec : Int32 := 0
  nanosec : UInt32 := 0
  nonneg : 0 ≤ sec := by decide

/-- the default-constructed message -/
def TimeMsg.zero : TimeMsg := {}

/-- `rclcpp::Time(msg).nanoseconds()` -/
def TimeMsg.nanoseconds (msg : TimeMsg) : Int64 :=
  msg.sec.toInt64 * 1000000000 + msg.nanosec.toUInt64.toInt64

/-- a clock, with the storage of its ROS time override -/
structure Clock where
  /-- the type of the clock is `RCL_ROS_TIME` -/
  rosTime : Bool
  active : Bool
  currentTime : Int64

/-- clocks are shared: what is associated is a pointer -/
abbrev ClockPtr := Nat

inductive UseSimTimeParameterState where
  | unset
  | setTrue
  | setFalse
  deriving DecidableEq

/-- the time source, and the clocks its pointers refer to -/
structure TimeSource where
  /-- the fully qualified name of `node_base_` -/
  nodeBase : Option String := none
  /-- the constructors leave it as it is -/
  parameterState : UseSimTimeParameterState
  rosTimeActive : Bool := false
  lastMsgSet : Option TimeMsg := none
  clockSubscription : Bool := false
  parameterSubscription : Bool := false
  associatedClocks : List ClockPtr := []
  clocks : ClockPtr → Clock

/-- a node that is handed to `attachNode` -/
structure Node where
  fullyQualifiedName : String
  parameters : NodeParameters

/-! ## the clocks -/

/-- `TimeSource::set_clock`; the time is stored whether or not the override is active -/
def setClock (msg : TimeMsg) (setRosTimeEnabled : Bool) (clock : Clock) : Clock :=
  let clock :=
    if !setRosTimeEnabled && clock.active then { clock with active := false }
    else if setRosTimeEnabled && !clock.active then { clock with active := true }
    else clock
  { clock with currentTime := msg.nanoseconds }

/-- the loop over `associated_clocks_` -/
def setClocks (msg : TimeMsg) (setRosTimeEnabled : Bool) (cs : List ClockPtr)
    (clocks : ClockPtr → Clock) : ClockPtr → Clock :=
  cs.foldl (fun clocks c => Function.update clocks c (setClock msg setRosTimeEnabled (clocks c)))
    clocks

namespace TimeSource
variable (s : TimeSource)

/-- the last message of `/clock`, or time zero -/
def lastTime : TimeMsg := s.lastMsgSet.getD .zero

/-- `enable_ros_time()` -/
def enableRosTime : TimeSource :=
  if s.rosTimeActive then s
  else
    { s with
      rosTimeActive := true
      clocks := setClocks s.lastTime true s.associatedClocks s.clocks }

/-- `disable_ros_time()` -/
def disableRosTime : TimeSource :=
  if !s.rosTimeActive then s
  else
    { s with
      rosTimeActive := false
      clocks := setClocks .zero false s.associatedClocks s.clocks }

/-- what `attachNode` and `on_parameter_event` do when `use_sim_time` is true -/
def useSimTime : TimeSource :=
  { enableRosTime { s with parameterState := .setTrue } with clockSubscription := true }

/-- what `on_parameter_event` does when `use_sim_time` is false -/
def useSystemTime : TimeSource :=
  { disableRosTime { s with parameterState := .setFalse } with clockSubscription := false }

/-! ## the operations -/

/-- the value of `use_sim_time` that `attachNode` gets: the stored one, or the one it declares -/
def useSimTimeParam (p : NodeParameters) : Except Exception ParameterValue :=
  if locklessHasParameter p.parameters "use_sim_time" then
    (p.getParameter "use_sim_time").map Parameter.value
  else (p.declareParameter "use_sim_time" { type := .bool, boolValue := false } {}).result

/-- the value says that simulated time is to be used -/
def isTrue (v : ParameterValue) : Bool := v.type = .bool ∧ v.boolValue = true

/-- `attachNode`; an exception of the parameter interface leaves the node attached -/
def attachNode (node : Node) : TimeSource :=
  let s := { s with nodeBase := some node.fullyQualifiedName }
  match useSimTimeParam node.parameters with
  | .error _ => s
  | .ok v => { if isTrue v then s.useSimTime else s with parameterSubscription := true }

/-- `detachNode` -/
def detachNode : TimeSource :=
  disableRosTime { s with
    rosTimeActive := false
    clockSubscription := false
    parameterSubscription := false
    nodeBase := none }

/-- `attachClock`; it throws for a clock that is not a ROS clock -/
def attachClock (c : ClockPtr) : TimeSource :=
  if (s.clocks c).rosTime then
    { s with
      associatedClocks := s.associatedClocks ++ [c]
      clocks := setClocks s.lastTime s.rosTimeActive [c] s.clocks }
  else s

/-- `detachClock`: the first occurrence of the clock is removed -/
def detachClock (c : ClockPtr) : TimeSource :=
  { s with associatedClocks := s.associatedClocks.erase c }

/-- `clock_cb` -/
def clockCb (msg : TimeMsg) : TimeSource :=
  let s := if !s.rosTimeActive && s.parameterState = .setTrue then s.enableRosTime else s
  let s := { s with lastMsgSet := some msg }
  if s.parameterState = .setTrue then
    { s with clocks := setClocks msg true s.associatedClocks s.clocks }
  else s

/-- the entries of the event for `use_sim_time` that are new or changed, in this order -/
def setEntries (e : ParameterEvent) : List Parameter :=
  (e.newParameters ++ e.changedParameters).filter fun p => p.name = "use_sim_time"

def deletedEntries (e : ParameterEvent) : List Parameter :=
  e.deletedParameters.filter fun p => p.name = "use_sim_time"

/-- one round of the first loop of `on_parameter_event` -/
def onSetEntry (s : TimeSource) (p : Parameter) : TimeSource :=
  if p.value.type ≠ .bool then s
  else if p.value.boolValue then s.useSimTime
  else s.useSystemTime

/-- `on_parameter_event`; without a node `node_base_` is null, and the call has no outcome -/
def onParameterEvent (e : ParameterEvent) : Option TimeSource :=
  match s.nodeBase with
  | none => none
  | some name =>
    if e.node ≠ name then some s
    else
      some ((deletedEntries e).foldl (fun s _ => { s with parameterState := .unset })
        ((setEntries e).foldl onSetEntry s))

end TimeSource

inductive Action where
  | attachNode (node : Node)
  | detachNode
  | attachClock (c : ClockPtr)
  | detachClock (c : ClockPtr)
  | clockCb (msg : TimeMsg)
  | onParameterEvent (e : ParameterEvent)

def step (s : TimeSource) : Action → Option TimeSource
  | .attachNode node => some (s.attachNode node)
  | .detachNode => some s.detachNode
  | .attachClock c => some (s.attachClock c)
  | .detachClock c => some (s.detachClock c)
  | .clockCb msg => some (s.clockCb msg)
  | .onParameterEvent e => s.onParameterEvent e

/-- `TimeSource()`; clocks may have been used elsewhere before -/
def construct (parameterState : UseSimTimeParameterState) (clocks : ClockPtr → Clock) :
    TimeSource :=
  { parameterState := parameterState, clocks := clocks }

end PMROS2.Time
