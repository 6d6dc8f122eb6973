import PMROS2.Arguments.Parse

/-!
# Every argument goes to one place

* `recognise`                what an argument is taken for, by the first parser that accepts it;
* `totals`                   the fields of the result, each from the arguments of its own kind;
* `parseArgument_kept`       one argument adds to one of them;
* `parseLoop_kept`           all arguments;
* `parsed_partition`         the result of the parser, and the arguments that are left.
-/

namespace PMROS2.Arguments
open PMROS2.Strings PMROS2.Remap PMROS2.Slots

/-! ## what an argument is -/

inductive Recognised
  | parameterFile (file : Text)
  | remapRule (rule : RemapImpl)
  | logLevel (level : Int)
  | logConfigFile (file : Text)
  | stdoutDisabled (value : Bool)
  | rosoutDisabled (value : Bool)
  | extLibDisabled (value : Bool)
  deriving DecidableEq, Repr

section
variable (lib : Rcutils)

def recogniseLogging (arg : Text) : Option Recognised :=
  (parseLogLevelRule lib arg).map .logLevel <|>
  (parseExternalLogConfigFile lib arg).map .logConfigFile <|>
  (parseBoolArg arg logDisableStdoutArgRule).map .stdoutDisabled <|>
  (parseBoolArg arg logDisableRosoutArgRule).map .rosoutDisabled <|>
  (parseBoolArg arg logDisableExtLibArgRule).map .extLibDisabled

/-- the first parser that accepts -/
def recognise (arg : Text) : Option Recognised :=
  (parseParamFileRule arg).map .parameterFile <|>
  (parseRemapRule arg).toOption.map .remapRule <|>
  recogniseLogging lib arg

/-- no parser accepts -/
structure Unrecognised (arg : Text) : Prop where
  parameterFile : parseParamFileRule arg = none
  remapRule : ∀ rule, parseRemapRule arg ≠ .ok rule
  logLevel : parseLogLevelRule lib arg = none
  logConfigFile : parseExternalLogConfigFile lib arg = none
  stdoutDisabled : parseBoolArg arg logDisableStdoutArgRule = none
  rosoutDisabled : parseBoolArg arg logDisableRosoutArgRule = none
  extLibDisabled : parseBoolArg arg logDisableExtLibArgRule = none

theorem recognise_eq_none_iff (arg : Text) : recognise lib arg = none ↔ Unrecognised lib arg := by
  have hremap : (parseRemapRule arg).toOption = none ↔ ∀ rule, parseRemapRule arg ≠ .ok rule := by
    cases parseRemapRule arg <;> simp [Except.toOption]
  simp only [recognise, recogniseLogging, Option.orElse_eq_none, Option.map_eq_none_iff, hremap]
  constructor
  · rintro ⟨h₁, h₂, h₃, h₄, h₅, h₆, h₇⟩
    exact ⟨h₁, h₂, h₃, h₄, h₅, h₆, h₇⟩
  · rintro ⟨h₁, h₂, h₃, h₄, h₅, h₆, h₇⟩
    exact ⟨h₁, h₂, h₃, h₄, h₅, h₆, h₇⟩

def unparsedIndices (args : List Text) : List Nat :=
  args.zipIdx.filterMap fun a => if (recognise lib a.1).isNone then some a.2 else none

/-- what the arguments are taken for, in order -/
def recognised (args : List Text) : List Recognised := args.filterMap (recognise lib)

def Recognised.file? : Recognised → Option Text
  | .parameterFile file => some file
  | _ => none

def Recognised.rule? : Recognised → Option RemapImpl
  | .remapRule rule => some rule
  | _ => none

def Recognised.level? : Recognised → Option Int
  | .logLevel level => some level
  | _ => none

def Recognised.configFile? : Recognised → Option Text
  | .logConfigFile file => some file
  | _ => none

def Recognised.stdout? : Recognised → Option Bool
  | .stdoutDisabled value => some value
  | _ => none

def Recognised.rosout? : Recognised → Option Bool
  | .rosoutDisabled value => some value
  | _ => none

def Recognised.extLib? : Recognised → Option Bool
  | .extLibDisabled value => some value
  | _ => none

/-- the fields of the result, without the arrays -/
structure Totals where
  unparsed : List Nat
  files : List Text
  rules : List RemapImpl
  logLevel : Int
  configFile : Option Text
  stdoutDisabled : Bool
  rosoutDisabled : Bool
  extLibDisabled : Bool

/-- each field from the arguments of its own kind: all of them for files and rules, the last one
for the others -/
def totals (args : List Text) : Totals where
  unparsed := unparsedIndices lib args
  files := (recognised lib args).filterMap Recognised.file?
  rules := (recognised lib args).filterMap Recognised.rule?
  logLevel := ((recognised lib args).filterMap Recognised.level?).getLastD (-1)
  configFile := ((recognised lib args).filterMap Recognised.configFile?).getLast?
  stdoutDisabled := ((recognised lib args).filterMap Recognised.stdout?).getLastD false
  rosoutDisabled := ((recognised lib args).filterMap Recognised.rosout?).getLastD false
  extLibDisabled := ((recognised lib args).filterMap Recognised.extLib?).getLastD false

/-! ## one argument more -/

def Totals.add (t : Totals) (i : Nat) : Option Recognised → Totals
  | none => { t with unparsed := t.unparsed ++ [i] }
  | some (.parameterFile file) => { t with files := t.files ++ [file] }
  | some (.remapRule rule) => { t with rules := t.rules ++ [rule] }
  | some (.logLevel level) => { t with logLevel := level }
  | some (.logConfigFile file) => { t with configFile := some file }
  | some (.stdoutDisabled value) => { t with stdoutDisabled := value }
  | some (.rosoutDisabled value) => { t with rosoutDisabled := value }
  | some (.extLibDisabled value) => { t with extLibDisabled := value }

theorem recognised_concat (args : List Text) (arg : Text) :
    recognised lib (args ++ [arg]) = recognised lib args ++ (recognise lib arg).toList := by
  rw [recognised, List.filterMap_append, ← recognised]
  cases h : recognise lib arg <;> simp [h]

theorem unparsedIndices_concat (args : List Text) (arg : Text) :
    unparsedIndices lib (args ++ [arg]) =
      unparsedIndices lib args ++ if (recognise lib arg).isNone then [args.length] else [] := by
  rw [unparsedIndices, List.zipIdx_append, List.filterMap_append, ← unparsedIndices]
  cases h : recognise lib arg <;> simp [h]

theorem totals_concat (args : List Text) (arg : Text) :
    totals lib (args ++ [arg]) = (totals lib args).add args.length (recognise lib arg) := by
  rw [totals, recognised_concat, unparsedIndices_concat]
  cases recognise lib arg with
  | none => simp [totals, Totals.add]
  | some r =>
    cases r <;> simp [totals, Totals.add, Recognised.file?, Recognised.rule?, Recognised.level?,
      Recognised.configFile?, Recognised.stdout?, Recognised.rosout?, Recognised.extLib?]

end

/-! ## the loop keeps the totals -/

/-- the arrays and fields hold the totals -/
structure Kept (argc : Nat) (t : Totals) (impl : ArgumentsImpl) : Prop where
  unparsed : Holds argc impl.unparsedArgs impl.numUnparsedArgs t.unparsed
  files : Holds argc impl.parameterFiles impl.numParamFilesArgs t.files
  rules : Holds argc impl.remapRules impl.numRemapRules t.rules
  logLevel : impl.logLevel = t.logLevel
  configFile : impl.externalLogConfigFile = t.configFile
  stdoutDisabled : impl.logStdoutDisabled = t.stdoutDisabled
  rosoutDisabled : impl.logRosoutDisabled = t.rosoutDisabled
  extLibDisabled : impl.logExtLibDisabled = t.extLibDisabled

section
variable {lib : Rcutils} {argc i : Nat} {t : Totals} {impl : ArgumentsImpl} {arg : Text}

/-- the parsers for logging, and an argument that no parser accepts -/
theorem parseLoggingArgument_kept (h : Kept argc t impl) (hfree : impl.numUnparsedArgs < argc) :
    ∃ impl', parseLoggingArgument lib impl i arg = some impl' ∧
      Kept argc (t.add i (recogniseLogging lib arg)) impl' := by
  unfold parseLoggingArgument recogniseLogging
  cases parseLogLevelRule lib arg with
  | some level => exact ⟨_, rfl, { h with logLevel := rfl }⟩
  | none =>
  cases parseExternalLogConfigFile lib arg with
  | some file => exact ⟨_, rfl, { h with configFile := rfl }⟩
  | none =>
  cases parseBoolArg arg logDisableStdoutArgRule with
  | some value => exact ⟨_, rfl, { h with stdoutDisabled := rfl }⟩
  | none =>
  cases parseBoolArg arg logDisableRosoutArgRule with
  | some value => exact ⟨_, rfl, { h with rosoutDisabled := rfl }⟩
  | none =>
  cases parseBoolArg arg logDisableExtLibArgRule with
  | some value => exact ⟨_, rfl, { h with extLibDisabled := rfl }⟩
  | none =>
    obtain ⟨slots, hwrite, hholds⟩ := h.unparsed.push hfree i
    simp only [hwrite, Option.bind_eq_bind, Option.bind_some, Option.pure_def]
    exact ⟨_, rfl, { h with unparsed := hholds }⟩

/-- **One argument** goes to one place; the slots that a parser has given up are free again. -/
theorem parseArgument_kept (lib i arg) (h : Kept argc t impl)
    (hunparsed : impl.numUnparsedArgs < argc) (hfiles : impl.numParamFilesArgs < argc)
    (hrules : impl.numRemapRules < argc) :
    ∃ impl', parseArgument lib impl i arg = some impl' ∧
      Kept argc (t.add i (recognise lib arg)) impl' := by
  unfold parseArgument recognise
  obtain ⟨files, hwrite, hholds⟩ := h.files.clear hfiles
  simp only [hwrite, Option.bind_eq_bind, Option.bind_some]
  cases parseParamFileRule arg with
  | some file =>
    obtain ⟨files', hwrite', hholds'⟩ := hholds.push hfiles file
    simp only [hwrite', Option.bind_some, Option.pure_def]
    exact ⟨_, rfl, { h with files := hholds' }⟩
  | none =>
    obtain ⟨rules, hrwrite, hrholds⟩ := h.rules.clear hrules
    simp only [hrwrite, Option.bind_some]
    cases parseRemapRule arg with
    | ok rule =>
      obtain ⟨rules', hrwrite', hrholds'⟩ := hrholds.push hrules rule
      simp only [hrwrite', Option.bind_some, Option.pure_def]
      exact ⟨_, rfl, { h with files := hholds, rules := hrholds' }⟩
    | error e =>
      exact parseLoggingArgument_kept { h with files := hholds, rules := hrholds } hunparsed

end

theorem unparsedIndices_length_le (lib : Rcutils) (args : List Text) :
    (unparsedIndices lib args).length ≤ args.length := by
  have h := List.length_filterMap_le
    (fun a : Text × Nat => if (recognise lib a.1).isNone then some a.2 else none) args.zipIdx
  rw [List.length_zipIdx] at h
  exact h

theorem recognised_filterMap_length_le {β : Type} (lib : Rcutils) (f : Recognised → Option β)
    (args : List Text) : ((recognised lib args).filterMap f).length ≤ args.length :=
  (List.length_filterMap_le f _).trans (List.length_filterMap_le _ args)

/-- **All arguments**, those before having been kept. -/
theorem parseLoop_kept {lib : Rcutils} {argc : Nat} (rest : List Text) :
    ∀ (before : List Text) (impl : ArgumentsImpl), (before ++ rest).length ≤ argc →
      Kept argc (totals lib before) impl →
      ∃ impl', parseLoop lib before.length rest impl = some impl' ∧
        Kept argc (totals lib (before ++ rest)) impl' := by
  induction rest with
  | nil =>
    intro before impl _ h
    rw [List.append_nil]
    exact ⟨impl, rfl, h⟩
  | cons arg rest ih =>
    intro before impl hlen h
    have hlt : before.length < argc := by
      rw [List.length_append, List.length_cons] at hlen
      omega
    have hunparsed : impl.numUnparsedArgs < argc := by
      rw [h.unparsed.count]
      exact (unparsedIndices_length_le lib before).trans_lt hlt
    have hfiles : impl.numParamFilesArgs < argc := by
      rw [h.files.count]
      exact (recognised_filterMap_length_le lib _ before).trans_lt hlt
    have hrules : impl.numRemapRules < argc := by
      rw [h.rules.count]
      exact (recognised_filterMap_length_le lib _ before).trans_lt hlt
    obtain ⟨impl₁, hstep, hkept⟩ :=
      parseArgument_kept lib before.length arg h hunparsed hfiles hrules
    rw [← totals_concat] at hkept
    obtain ⟨impl', hloop, hkept'⟩ := ih (before ++ [arg]) impl₁ (by simpa using hlen) hkept
    rw [List.length_append, List.length_singleton] at hloop
    rw [List.append_assoc, List.singleton_append] at hkept'
    refine ⟨impl', ?_, hkept'⟩
    rw [parseLoop, hstep]
    exact hloop

theorem init_kept (lib : Rcutils) (argc : Nat) : Kept argc (totals lib []) (.init argc) where
  unparsed := holds_replicate argc
  files := holds_replicate argc
  rules := holds_replicate argc
  logLevel := rfl
  configFile := rfl
  stdoutDisabled := rfl
  rosoutDisabled := rfl
  extLibDisabled := rfl

/-! ## the result -/

/-- the result of the parser, after the arrays have been cut -/
structure Parsed (lib : Rcutils) (argv : List Text) (impl : ArgumentsImpl) : Prop where
  unparsed : impl.unparsedArgs = (unparsedIndices lib argv).map some
  numUnparsed : impl.numUnparsedArgs = (unparsedIndices lib argv).length
  files : impl.parameterFiles = ((recognised lib argv).filterMap Recognised.file?).map some
  numFiles : impl.numParamFilesArgs = ((recognised lib argv).filterMap Recognised.file?).length
  rules : impl.remapRules = ((recognised lib argv).filterMap Recognised.rule?).map some
  numRules : impl.numRemapRules = ((recognised lib argv).filterMap Recognised.rule?).length
  logLevel : impl.logLevel = ((recognised lib argv).filterMap Recognised.level?).getLastD (-1)
  configFile : impl.externalLogConfigFile =
    ((recognised lib argv).filterMap Recognised.configFile?).getLast?
  stdoutDisabled : impl.logStdoutDisabled =
    ((recognised lib argv).filterMap Recognised.stdout?).getLastD false
  rosoutDisabled : impl.logRosoutDisabled =
    ((recognised lib argv).filterMap Recognised.rosout?).getLastD false
  extLibDisabled : impl.logExtLibDisabled =
    ((recognised lib argv).filterMap Recognised.extLib?).getLastD false

theorem shrink_holds {α : Type} {argc n : Nat} {slots : List (Option α)} {xs : List α}
    (h : Holds argc slots n xs) : shrink argc n slots = xs.map some := by
  unfold shrink
  split
  · rename_i hn
    rw [h.count] at hn
    rw [List.eq_nil_of_length_eq_zero hn]
    rfl
  · split
    · exact h.values
    · rename_i hge
      rw [← h.values, List.take_of_length_le]
      rw [h.length]
      omega

/-- **The parser** has a result, and each field is that of its own arguments. -/
theorem parseArguments_parsed (lib : Rcutils) (argv : List Text) :
    ∃ impl, parseArguments lib argv = some impl ∧ Parsed lib argv impl := by
  unfold parseArguments
  by_cases hargc : argv.length = 0
  · rw [if_pos hargc]
    obtain rfl := List.eq_nil_of_length_eq_zero hargc
    exact ⟨_, rfl, ⟨rfl, rfl, rfl, rfl, rfl, rfl, rfl, rfl, rfl, rfl, rfl⟩⟩
  rw [if_neg hargc]
  obtain ⟨impl, hloop, hkept⟩ :=
    parseLoop_kept argv [] (.init argv.length) (Nat.le_refl _) (init_kept lib argv.length)
  rw [List.length_nil] at hloop
  rw [List.nil_append] at hkept
  simp only [hloop, Option.bind_eq_bind, Option.bind_some, Option.pure_def]
  refine ⟨_, rfl, ?_⟩
  exact {
    unparsed := shrink_holds hkept.unparsed
    numUnparsed := hkept.unparsed.count
    files := shrink_holds hkept.files
    numFiles := hkept.files.count
    rules := by
      show (if impl.numRemapRules > 0 then impl.remapRules.take impl.numRemapRules else []) =
        (totals lib argv).rules.map some
      rw [hkept.rules.values]
      split
      · rfl
      · rename_i hzero
        have hcount := hkept.rules.count
        rw [Nat.eq_zero_of_not_pos hzero] at hcount
        rw [List.eq_nil_of_length_eq_zero hcount.symm]
        rfl
    numRules := hkept.rules.count
    logLevel := hkept.logLevel
    configFile := hkept.configFile
    stdoutDisabled := hkept.stdoutDisabled
    rosoutDisabled := hkept.rosoutDisabled
    extLibDisabled := hkept.extLibDisabled }

/-! ## the indices -/

theorem mem_unparsedIndices {lib : Rcutils} {args : List Text} {i : Nat} :
    i ∈ unparsedIndices lib args ↔ ∃ arg, args[i]? = some arg ∧ Unrecognised lib arg := by
  rw [unparsedIndices, List.mem_filterMap]
  constructor
  · rintro ⟨⟨arg, j⟩, hmem, hsome⟩
    rw [List.mem_zipIdx_iff_getElem?] at hmem
    split at hsome
    · rename_i hnone
      obtain rfl := Option.some.inj hsome
      exact ⟨arg, hmem, (recognise_eq_none_iff lib arg).mp (Option.isNone_iff_eq_none.mp hnone)⟩
    · cases hsome
  · rintro ⟨arg, hget, hun⟩
    refine ⟨(arg, i), List.mem_zipIdx_iff_getElem?.mpr hget, ?_⟩
    exact if_pos (Option.isNone_iff_eq_none.mpr ((recognise_eq_none_iff lib arg).mpr hun))

theorem unparsedIndices_increasing (lib : Rcutils) (args : List Text) :
    (unparsedIndices lib args).Pairwise (· < ·) := by
  induction args using List.reverseRecOn with
  | nil => exact List.Pairwise.nil
  | append_singleton args arg ih =>
    rw [unparsedIndices_concat]
    refine List.pairwise_append.mpr ⟨ih, ?_, ?_⟩
    · split
      · exact List.pairwise_singleton _ _
      · exact List.Pairwise.nil
    · intro i hi j hj
      obtain ⟨a, hget, -⟩ := mem_unparsedIndices.mp hi
      have hlt : i < args.length := (List.getElem?_eq_some_iff.mp hget).1
      split at hj
      · rw [List.mem_singleton.mp hj]
        exact hlt
      · cases hj

theorem mapM_unparsedIndices (lib : Rcutils) (args rest : List Text) :
    (unparsedIndices lib args).mapM (fun i => (args ++ rest)[i]?) =
      some (args.filter fun arg => (recognise lib arg).isNone) := by
  induction args using List.reverseRecOn generalizing rest with
  | nil => rfl
  | append_singleton args arg ih =>
    have hargs := ih ([arg] ++ rest)
    rw [← List.append_assoc] at hargs
    rw [unparsedIndices_concat, List.mapM_append, hargs, List.filter_append]
    cases h : recognise lib arg with
    | some r => simp [h]
    | none => simp [h]

theorem unparsedIndices_length (lib : Rcutils) (args : List Text) :
    (unparsedIndices lib args).length =
      (args.filter fun arg => (recognise lib arg).isNone).length := by
  induction args using List.reverseRecOn with
  | nil => rfl
  | append_singleton args arg ih =>
    rw [unparsedIndices_concat, List.length_append, List.filter_append, List.length_append, ih]
    cases h : recognise lib arg <;> simp [h]

/-! ## the arguments that are left -/

theorem getUnparsed_parsed {lib : Rcutils} {argv : List Text} {impl : ArgumentsImpl}
    (h : Parsed lib argv impl) : getUnparsed impl = some (unparsedIndices lib argv) := by
  have hslots : ∀ xs : List Nat, ∀ ys : List (Option Nat),
      (List.range xs.length).mapM (fun i => (xs.map some ++ ys)[i]?.join) = some xs := by
    intro xs
    induction xs using List.reverseRecOn with
    | nil =>
      intro ys
      rfl
    | append_singleton xs x ih =>
      intro ys
      have hxs := ih ([some x] ++ ys)
      rw [List.length_append, List.length_singleton, List.range_succ, List.mapM_append,
        List.map_append, List.map_singleton, List.append_assoc, hxs]
      simp
  have hall := hslots (unparsedIndices lib argv) []
  rw [List.append_nil] at hall
  rw [getUnparsed, h.numUnparsed, h.unparsed]
  exact hall

/-- **The arguments that are left**, if there are any; without one the call is refused. -/
theorem removeRosArguments_parsed {lib : Rcutils} {argv : List Text} {impl : ArgumentsImpl}
    (h : Parsed lib argv impl) :
    removeRosArguments argv (some impl) =
      some (if unparsedIndices lib argv = [] then ⟨.invalidArgument, 0, none⟩
        else ⟨.ok, (unparsedIndices lib argv).length,
          some (argv.filter fun arg => (recognise lib arg).isNone)⟩) := by
  unfold removeRosArguments
  simp only [getCountUnparsed, h.numUnparsed]
  by_cases hnil : unparsedIndices lib argv = []
  · rw [if_pos hnil, hnil]
    rfl
  · have hpos := List.length_pos_of_ne_nil hnil
    have hargs := mapM_unparsedIndices lib argv []
    rw [List.append_nil] at hargs
    rw [if_neg hnil, if_neg (by omega)]
    simp only [Option.bind_eq_bind, Option.bind_some, getUnparsed_parsed h, hargs, Option.pure_def]

/-- **The partition of the arguments**: the indices that are left are strictly increasing and are
those of the arguments that no parser accepts; every other argument went to the field of its own
kind; and the arguments at these indices are those that are left, if there are any. -/
theorem parsed_partition (lib : Rcutils) (argv : List Text) :
    ∃ impl, parseArguments lib argv = some impl ∧
      Parsed lib argv impl ∧
      (unparsedIndices lib argv).Pairwise (· < ·) ∧
      (∀ i, i ∈ unparsedIndices lib argv ↔ ∃ arg, argv[i]? = some arg ∧ Unrecognised lib arg) ∧
      (unparsedIndices lib argv ≠ [] → ∃ left,
        (unparsedIndices lib argv).mapM (fun i => argv[i]?) = some left ∧
        left = argv.filter (fun arg => (recognise lib arg).isNone) ∧
        removeRosArguments argv (some impl) = some ⟨.ok, left.length, some left⟩) ∧
      (unparsedIndices lib argv = [] →
        removeRosArguments argv (some impl) = some ⟨.invalidArgument, 0, none⟩) := by
  obtain ⟨impl, hparse, hparsed⟩ := parseArguments_parsed lib argv
  refine ⟨impl, hparse, hparsed, unparsedIndices_increasing lib argv,
    fun i => mem_unparsedIndices, fun hne => ?_, fun hnil => ?_⟩
  · have hargs := mapM_unparsedIndices lib argv []
    rw [List.append_nil] at hargs
    refine ⟨_, hargs, rfl, ?_⟩
    rw [removeRosArguments_parsed hparsed, if_neg hne, unparsedIndices_length]
  · rw [removeRosArguments_parsed hparsed, if_pos hnil]

/-- the severities in lower case, and a copy of at most so many characters -/
def plainRcutils : Rcutils where
  severityLevelFromString s :=
    ([("debug".toList, 10), ("info".toList, 20), ("warn".toList, 30), ("error".toList, 40),
      ("fatal".toList, 50)] : List (Text × Int)).lookup s
  formatStringLimit limit s := s.take limit

/-- when the only argument is a remap rule, nothing is left, and that is refused -/
theorem only_rule_refused :
    (parseArguments plainRcutils ["chatter:=talk".toList]).map ArgumentsImpl.numUnparsedArgs =
        some 0 ∧
      ((parseArguments plainRcutils ["chatter:=talk".toList]).bind fun impl =>
        removeRosArguments ["chatter:=talk".toList] (some impl)) =
        some ⟨.invalidArgument, 0, none⟩ := by
  decide +kernel

end PMROS2.Arguments
