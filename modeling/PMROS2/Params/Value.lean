import Mathlib

/-!
# Parameter values, descriptors and the range check

`rclcpp::ParameterValue` wraps the message `rcl_interfaces::msg::ParameterValue`: a type tag and
one field for each type.  `==` is the equality of the message (`double` fields compare as IEEE
doubles), `=` is identity.

`checkParameterValueInRange` is `__check_parameter_value_in_range`: integers in `int64_t` with
the wrap of `v - from_value` and the unsigned remainder, doubles up to 100 ulp.
-/

namespace PMROS2.Params

inductive ParameterType where
  | notSet
  | bool
  | integer
  | double
  | string
  | byteArray
  | boolArray
  | integerArray
  | doubleArray
  | stringArray
  deriving DecidableEq, Repr, Inhabited

/-- `rcl_interfaces::msg::ParameterValue`; the default is `ParameterValue()` -/
structure ParameterValue where
  type : ParameterType := .notSet
  boolValue : Bool := false
  integerValue : Int64 := 0
  doubleValue : Float := 0
  stringValue : String := ""
  byteArrayValue : List UInt8 := []
  boolArrayValue : List Bool := []
  integerArrayValue : List Int64 := []
  doubleArrayValue : List Float := []
  stringArrayValue : List String := []
  deriving BEq, DecidableEq

instance : Inhabited ParameterValue := ⟨{}⟩

/-- `ParameterValue(const int64_t)` -/
def ParameterValue.ofInt (v : Int64) : ParameterValue := { type := .integer, integerValue := v }

/-- `rclcpp::Parameter` -/
structure Parameter where
  name : String
  value : ParameterValue
  deriving DecidableEq

def Parameter.getType (p : Parameter) : ParameterType := p.value.type

structure IntegerRange where
  fromValue : Int64
  toValue : Int64
  step : UInt64
  deriving DecidableEq

structure FloatingPointRange where
  fromValue : Float
  toValue : Float
  step : Float
  deriving DecidableEq

/-- `rcl_interfaces::msg::ParameterDescriptor`; the default is the default-constructed message -/
structure ParameterDescriptor where
  name : String := ""
  type : ParameterType := .notSet
  description : String := ""
  additionalConstraints : String := ""
  readOnly : Bool := false
  floatingPointRange : List FloatingPointRange := []
  integerRange : List IntegerRange := []
  deriving DecidableEq

/-- `ParameterInfo`: the value and the descriptor the node stores for a name -/
structure ParameterInfo where
  value : ParameterValue := {}
  descriptor : ParameterDescriptor := {}
  deriving DecidableEq

instance : Inhabited ParameterInfo := ⟨{}⟩

structure SetParametersResult where
  successful : Bool
  reason : String := ""
  deriving DecidableEq

/-! ## the range check -/

/-- `__are_doubles_equal` with its default of 100 ulp -/
def areDoublesEqual (x y : Float) : Bool :=
  Float.abs (x - y) ≤ 2.220446049250313e-16 * Float.abs (x + y) * 100.0

/-- `format_reason` -/
def formatReason (name rangeType : String) : String :=
  "Parameter \x7b" ++ name ++ "\x7d doesn't comply with " ++ rangeType ++ " range."

def integerInRange (r : IntegerRange) (v : Int64) : Bool :=
  if v = r.fromValue ∨ v = r.toValue then true
  else if v < r.fromValue ∨ v > r.toValue then false
  else if r.step = 0 then true
  else (v - r.fromValue).toUInt64 % r.step = 0

def doubleInRange (r : FloatingPointRange) (v : Float) : Bool :=
  if areDoublesEqual v r.fromValue || areDoublesEqual v r.toValue then true
  else if v < r.fromValue ∨ v > r.toValue then false
  else if r.step == 0.0 then true
  else areDoublesEqual v (r.fromValue + Float.round ((v - r.fromValue) / r.step) * r.step)

/-- `__check_parameter_value_in_range`; only the first range of a descriptor counts -/
def checkParameterValueInRange (d : ParameterDescriptor) (v : ParameterValue) :
    SetParametersResult :=
  match d.integerRange, v.type with
  | r :: _, .integer =>
    if integerInRange r v.integerValue then { successful := true }
    else { successful := false, reason := formatReason d.name "integer" }
  | _, _ =>
    match d.floatingPointRange, v.type with
    | r :: _, .double =>
      if doubleInRange r v.doubleValue then { successful := true }
      else { successful := false, reason := formatReason d.name "floating point" }
    | _, _ => { successful := true }

theorem checkParameterValueInRange_default (v : ParameterValue) :
    checkParameterValueInRange {} v = { successful := true } := rfl

end PMROS2.Params
