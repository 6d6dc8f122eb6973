import PMROS2.Lib.Slots
import PMROS2.Lib.Strings
import PMROS2.Remap.Parser

/-!
# Command line arguments

`rcl_parse_arguments` and `rcl_remove_ros_arguments` (`arguments.c`).  Every argument is tried
against seven parsers in turn.  Parameter files, remap rules and the indices of the arguments that
are left go to arrays of `argc` slots, of which the used ones are counted; a parser may have
written to the next slot when it fails.

Allocations succeed, and no argument is NULL.  A write or read outside of an array has no result
(`none`).  The severity levels and the bounded copy are those of `rcutils`, a parameter.
-/

namespace PMROS2.Arguments
open PMROS2.Strings PMROS2.Remap PMROS2.Slots

/-- the functions of `rcutils` -/
structure Rcutils where
  /-- `rcutils_logging_severity_level_from_string`, if it returns `RCUTILS_RET_OK` -/
  severityLevelFromString : Text → Option Int
  /-- `rcutils_format_string_limit(allocator, limit, "%s", text)` -/
  formatStringLimit : Nat → Text → Text

/-! ## the parsers -/

def logLevelArgRule : Text := "__log_level:=".toList
def externalLogConfigArgRule : Text := "__log_config_file:=".toList
def logDisableStdoutArgRule : Text := "__log_disable_stdout:=".toList
def logDisableRosoutArgRule : Text := "__log_disable_rosout:=".toList
def logDisableExtLibArgRule : Text := "__log_disable_external_lib:=".toList
def paramFileArgRule : Text := "__params:=".toList

def afterRule (rule arg : Text) : Option Text :=
  if strncmpEq rule arg rule.length then some (arg.drop rule.length) else none

/-- `_rcl_parse_param_file_rule` -/
def parseParamFileRule (arg : Text) : Option Text := afterRule paramFileArgRule arg

/-- `_rcl_parse_log_level_rule` -/
def parseLogLevelRule (lib : Rcutils) (arg : Text) : Option Int :=
  (afterRule logLevelArgRule arg).bind lib.severityLevelFromString

/-- `_rcl_parse_external_log_config_file` -/
def parseExternalLogConfigFile (lib : Rcutils) (arg : Text) : Option Text :=
  (afterRule externalLogConfigArgRule arg).map fun file => lib.formatStringLimit file.length file

def trueValues : List Text :=
  ["y".toList, "Y".toList, "yes".toList, "Yes".toList, "t".toList, "T".toList, "true".toList,
   "True".toList, "1".toList]

def falseValues : List Text :=
  ["n".toList, "N".toList, "no".toList, "No".toList, "f".toList, "F".toList, "false".toList,
   "False".toList, "0".toList]

/-- `_atob`: a text that begins with one of the values will do -/
def atob (str : Text) : Option Bool :=
  if trueValues.any fun v => strncmpEq v str v.length then some true
  else if falseValues.any fun v => strncmpEq v str v.length then some false
  else none

/-- `_rcl_parse_bool_arg` -/
def parseBoolArg (arg key : Text) : Option Bool := (afterRule key arg).bind atob

/-! ## the loop -/

/-- `rcl_arguments_impl_t` -/
structure ArgumentsImpl where
  unparsedArgs : List (Option Nat)
  numUnparsedArgs : Nat
  parameterFiles : List (Option Text)
  numParamFilesArgs : Nat
  remapRules : List (Option RemapImpl)
  numRemapRules : Nat
  logLevel : Int
  externalLogConfigFile : Option Text
  logStdoutDisabled : Bool
  logRosoutDisabled : Bool
  logExtLibDisabled : Bool
  deriving DecidableEq, Repr

section
variable (lib : Rcutils)

/-- the parsers that come after those for parameter files and remap rules -/
def parseLoggingArgument (impl : ArgumentsImpl) (i : Nat) (arg : Text) : Option ArgumentsImpl :=
  match parseLogLevelRule lib arg with
  | some level => some { impl with logLevel := level }
  | none =>
  match parseExternalLogConfigFile lib arg with
  | some file => some { impl with externalLogConfigFile := some file }
  | none =>
  match parseBoolArg arg logDisableStdoutArgRule with
  | some value => some { impl with logStdoutDisabled := value }
  | none =>
  match parseBoolArg arg logDisableRosoutArgRule with
  | some value => some { impl with logRosoutDisabled := value }
  | none =>
  match parseBoolArg arg logDisableExtLibArgRule with
  | some value => some { impl with logExtLibDisabled := value }
  | none => do
    let unparsedArgs ← write impl.unparsedArgs impl.numUnparsedArgs (some i)
    return { impl with unparsedArgs, numUnparsedArgs := impl.numUnparsedArgs + 1 }

/-- the body of the loop over the arguments -/
def parseArgument (impl : ArgumentsImpl) (i : Nat) (arg : Text) : Option ArgumentsImpl := do
  -- the slot is cleared, whatever the parser does
  let parameterFiles ← write impl.parameterFiles impl.numParamFilesArgs none
  match parseParamFileRule arg with
  | some file =>
    let parameterFiles ← write parameterFiles impl.numParamFilesArgs (some file)
    return { impl with parameterFiles, numParamFilesArgs := impl.numParamFilesArgs + 1 }
  | none =>
    let remapRules ← write impl.remapRules impl.numRemapRules none
    match parseRemapRule arg with
    | .ok rule =>
      let remapRules ← write remapRules impl.numRemapRules (some rule)
      return { impl with parameterFiles, remapRules, numRemapRules := impl.numRemapRules + 1 }
    | .error _ => parseLoggingArgument lib { impl with parameterFiles, remapRules } i arg

def parseLoop : Nat → List Text → ArgumentsImpl → Option ArgumentsImpl
  | _, [], impl => some impl
  | i, arg :: args, impl => do
    let impl ← parseArgument lib impl i arg
    parseLoop (i + 1) args impl

/-- the arrays before the loop, over-allocated -/
def ArgumentsImpl.init (argc : Nat) : ArgumentsImpl :=
  ⟨List.replicate argc none, 0, List.replicate argc none, 0, List.replicate argc none, 0, -1, none,
    false, false, false⟩

/-- an array cut to the slots that are used -/
def shrink {α : Type} (argc n : Nat) (slots : List (Option α)) : List (Option α) :=
  if n = 0 then [] else if n < argc then slots.take n else slots

/-- `rcl_parse_arguments` -/
def parseArguments (argv : List Text) : Option ArgumentsImpl :=
  if argv.length = 0 then some (.init 0)
  else do
    let impl ← parseLoop lib 0 argv (.init argv.length)
    return { impl with
      remapRules := if impl.numRemapRules > 0 then impl.remapRules.take impl.numRemapRules else []
      parameterFiles := shrink argv.length impl.numParamFilesArgs impl.parameterFiles
      unparsedArgs := shrink argv.length impl.numUnparsedArgs impl.unparsedArgs }

end

/-! ## the arguments that are left -/

inductive RemoveRet
  | ok
  | invalidArgument
  deriving DecidableEq, Repr

/-- what `rcl_remove_ros_arguments` returns and stores -/
structure NonrosArguments where
  ret : RemoveRet
  nonrosArgc : Int
  nonrosArgv : Option (List Text)
  deriving DecidableEq, Repr

/-- `rcl_arguments_get_count_unparsed`; the arguments may not have been parsed -/
def getCountUnparsed (args : Option ArgumentsImpl) : Int :=
  match args with
  | none => -1
  | some impl => impl.numUnparsedArgs

/-- `rcl_arguments_get_unparsed` -/
def getUnparsed (impl : ArgumentsImpl) : Option (List Nat) :=
  (List.range impl.numUnparsedArgs).mapM fun i => impl.unparsedArgs[i]?.join

/-- `rcl_remove_ros_arguments` -/
def removeRosArguments (argv : List Text) (args : Option ArgumentsImpl) : Option NonrosArguments :=
  let nonrosArgc := getCountUnparsed args
  if nonrosArgc ≤ 0 then some ⟨.invalidArgument, nonrosArgc, none⟩
  else do
    let impl ← args
    let unparsedIndices ← getUnparsed impl
    let nonrosArgv ← unparsedIndices.mapM fun i => argv[i]?
    return ⟨.ok, nonrosArgc, some nonrosArgv⟩

end PMROS2.Arguments
