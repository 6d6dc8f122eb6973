import PMROS2.Arguments.Partition
import PMROS2.Lib.Allocation

/-!
# Copies of arguments

`rcl_arguments_copy` (`arguments.c`) with `rcl_remap_copy` (`remap.c`), and `rcl_arguments_fini`
for what has been copied when an allocation fails.  New memory holds anything: the logging fields
of the copy are never written, and the arrays of rules and of files are finalized in their full
length after a failure in the middle of them.

* `Memory`                  what the allocator answers, and what is in the memory it returns;
* `argumentsCopy`           no result means that a pointer out of such memory is followed;
* `requests`, `blockAt`     the allocations of a copy, and the block when one of them fails;
* `copyBlock_serves`        the copy makes these requests;
* `argumentsCopy_iff`       when the copy is as it should be.

The allocator is that of the original throughout.  `rcutils_strdup` is one allocation, and gives
`NULL` for `NULL`.
-/

namespace PMROS2.Arguments
open PMROS2.Strings PMROS2.Remap PMROS2.Allocation

/-! ## memory -/

/-- a pointer in an array -/
inductive Pointer (α : Type) where
  /-- never written; it may happen to be `NULL` -/
  | garbage (isNull : Bool)
  | to (value : Option α)
  deriving DecidableEq

/-- `rcl_arguments_impl_t` of a copy; an array may be `NULL`.  In a logging field `none` stands for
bits that are no value of its type. -/
structure ArgumentsBlock where
  unparsedArgs : Option (List (Option Nat)) := none
  numUnparsedArgs : Nat := 0
  parameterFiles : Option (List (Pointer Text)) := none
  numParamFilesArgs : Nat := 0
  remapRules : Option (List (Pointer RemapImpl)) := none
  numRemapRules : Nat := 0
  logLevel : Option Int
  externalLogConfigFile : Option (Option Text)
  logStdoutDisabled : Option Bool
  logRosoutDisabled : Option Bool
  logExtLibDisabled : Option Bool
  deriving DecidableEq

structure Memory where
  /-- whether a call of `allocate` returns memory, by the number of the call -/
  allocates : Nat → Bool
  /-- the logging fields in the memory for the block -/
  logLevel : Option Int
  externalLogConfigFile : Option (Option Text)
  logStdoutDisabled : Option Bool
  logRosoutDisabled : Option Bool
  logExtLibDisabled : Option Bool
  /-- whether the memory for an array has `NULL` at a place -/
  ruleIsNull : Nat → Bool
  fileIsNull : Nat → Bool

/-- what stops a copy -/
inductive Fault where
  /-- an allocation, with the block as it is then -/
  | failed (block : ArgumentsBlock)
  /-- a `NULL` pointer is followed -/
  | undefined

abbrev CopyM := StateT Nat (Except Fault)

/-- a new array of pointers, from a place on -/
def garbage {α : Type} (isNull : Nat → Bool) (i n : Nat) : List (Pointer α) :=
  (List.range' i n).map fun j => .garbage (isNull j)

/-! ## the functions -/

section
variable (mem : Memory)

/-- `rcutils_strdup` of a field that may be `NULL` -/
def copyText (fault : Fault) : Option Text → CopyM (Option Text)
  | none => pure none
  | some text => do
    allocate mem.allocates fault
    return some text

/-- `rcl_remap_copy`; what it has copied is finalized when an allocation fails, and its output is
`NULL` then -/
def remapCopy (fault : Fault) (rule : RemapImpl) : CopyM RemapImpl := do
  allocate mem.allocates fault
  let nodeName ← copyText mem fault rule.nodeName
  let matchText ← copyText mem fault rule.matchText
  let replacement ← copyText mem fault rule.replacement
  return { type := rule.type, nodeName, matchText, replacement }

/-- the loop over the rules, from the `i`-th one on -/
def copyRules (block : ArgumentsBlock) :
    Nat → List (Option RemapImpl) → List (Pointer RemapImpl) → CopyM (List (Pointer RemapImpl))
  | _, [], out => pure out
  | _, none :: _, _ => throw .undefined
  | i, some rule :: rules, out => do
    let out := out.set i (.to none)
    let copy ← remapCopy mem (.failed { block with remapRules := some out }) rule
    copyRules block (i + 1) rules (out.set i (.to (some copy)))

/-- the loop over the parameter files -/
def copyFiles (block : ArgumentsBlock) :
    Nat → List (Option Text) → List (Pointer Text) → CopyM (List (Pointer Text))
  | _, [], out => pure out
  | i, none :: _, out =>
    throw (.failed { block with parameterFiles := some (out.set i (.to none)) })
  | i, some file :: files, out => do
    allocate mem.allocates (.failed { block with parameterFiles := some (out.set i (.to none)) })
    copyFiles block (i + 1) files (out.set i (.to (some file)))

def newBlock : ArgumentsBlock where
  logLevel := mem.logLevel
  externalLogConfigFile := mem.externalLogConfigFile
  logStdoutDisabled := mem.logStdoutDisabled
  logRosoutDisabled := mem.logRosoutDisabled
  logExtLibDisabled := mem.logExtLibDisabled

variable (impl : ArgumentsImpl)

def copyUnparsed (block : ArgumentsBlock) : CopyM ArgumentsBlock :=
  if impl.numUnparsedArgs ≠ 0 then do
    allocate mem.allocates (.failed block)
    return { block with
      unparsedArgs := some (impl.unparsedArgs.take impl.numUnparsedArgs)
      numUnparsedArgs := impl.numUnparsedArgs }
  else return block

def copyRemapRules (block : ArgumentsBlock) : CopyM ArgumentsBlock :=
  if impl.numRemapRules ≠ 0 then do
    allocate mem.allocates (.failed block)
    -- the number is there before the rules are
    let block := { block with numRemapRules := impl.numRemapRules }
    let rules ← copyRules mem block 0 (impl.remapRules.take impl.numRemapRules)
      (garbage mem.ruleIsNull 0 impl.numRemapRules)
    return { block with remapRules := some rules }
  else return block

def copyParameterFiles (block : ArgumentsBlock) : CopyM ArgumentsBlock :=
  if impl.numParamFilesArgs ≠ 0 then do
    allocate mem.allocates (.failed block)
    let block := { block with numParamFilesArgs := impl.numParamFilesArgs }
    let files ← copyFiles mem block 0 (impl.parameterFiles.take impl.numParamFilesArgs)
      (garbage mem.fileIsNull 0 impl.numParamFilesArgs)
    return { block with parameterFiles := some files }
  else return block

def copyBlock : CopyM ArgumentsBlock := do
  let block ← copyUnparsed mem impl (newBlock mem)
  let block ← copyRemapRules mem impl block
  copyParameterFiles mem impl block

end

/-- `rcl_remap_fini` and `deallocate` take `NULL` -/
def Pointer.Freeable {α : Type} : Pointer α → Prop
  | .garbage isNull => isNull = true
  | .to _ => True

instance Pointer.decidableFreeable {α : Type} (p : Pointer α) : Decidable p.Freeable :=
  match p with
  | .garbage isNull => inferInstanceAs (Decidable (isNull = true))
  | .to _ => .isTrue trivial

/-- all of an array, which may be `NULL` -/
def AllFreeable {α : Type} (array : Option (List (Pointer α))) (num : Nat) : Prop :=
  ∀ p ∈ (array.getD []).take num, p.Freeable

instance decidableAllFreeable {α : Type} (array : Option (List (Pointer α))) (num : Nat) :
    Decidable (AllFreeable array num) :=
  inferInstanceAs (Decidable (∀ p ∈ (array.getD []).take num, p.Freeable))

/-- `rcl_arguments_fini`: the new value of `args->impl` -/
def argumentsFini (block : ArgumentsBlock) : Option (Option ArgumentsBlock) :=
  if AllFreeable block.remapRules block.numRemapRules ∧
      AllFreeable block.parameterFiles block.numParamFilesArgs then some none
  else none

inductive CopyRet where
  | ok
  | badAlloc
  | invalidArgument
  deriving DecidableEq

/-- `rcl_arguments_copy`: what is returned, and `args_out->impl` -/
def argumentsCopy (mem : Memory) (args : Option ArgumentsImpl) (argsOut : Option ArgumentsBlock) :
    Option (CopyRet × Option ArgumentsBlock) :=
  match args, argsOut with
  | none, _ => some (.invalidArgument, argsOut)
  | some _, some _ => some (.invalidArgument, argsOut)
  | some impl, none =>
    if !mem.allocates 0 then some (.badAlloc, none)
    else match (copyBlock mem impl).run 1 with
      | .ok (block, _) => some (.ok, some block)
      | .error (.failed block) => (argumentsFini block).map fun out => (.badAlloc, out)
      | .error .undefined => none

/-! ## the allocations -/

inductive Request where
  | block
  | unparsedArgs
  | remapRules
  | rule (i : Nat)
  | parameterFiles
  | file (i : Nat)
  deriving DecidableEq

def textRequests (i : Nat) : Option Text → List Request
  | none => []
  | some _ => [.rule i]

def ruleRequests (i : Nat) (rule : RemapImpl) : List Request :=
  .rule i :: (textRequests i rule.nodeName ++
    (textRequests i rule.matchText ++ textRequests i rule.replacement))

def rulesRequests : Nat → List RemapImpl → List Request
  | _, [] => []
  | i, rule :: rules => ruleRequests i rule ++ rulesRequests (i + 1) rules

def filesRequests : Nat → List Text → List Request
  | _, [] => []
  | i, _ :: files => .file i :: filesRequests (i + 1) files

def arrayRequests {α : Type} (array : Request) (values : List α) (elements : List Request) :
    List Request :=
  if values.length ≠ 0 then array :: elements else []

def requests (impl : ArgumentsImpl) : List Request :=
  .block :: (arrayRequests .unparsedArgs impl.unparsedArgs [] ++
    (arrayRequests .remapRules impl.remapRules (rulesRequests 0 (impl.remapRules.filterMap id)) ++
      arrayRequests .parameterFiles impl.parameterFiles
        (filesRequests 0 (impl.parameterFiles.filterMap id))))

/-- an array of pointers to values, `NULL` if there are none -/
def arrayOf {α : Type} (values : List (Option α)) : Option (List (Pointer α)) :=
  if values.length ≠ 0 then some (values.map .to) else none

/-- the original in the same form -/
def stored (impl : ArgumentsImpl) : ArgumentsBlock where
  unparsedArgs := if impl.unparsedArgs.length ≠ 0 then some impl.unparsedArgs else none
  numUnparsedArgs := impl.numUnparsedArgs
  parameterFiles := arrayOf impl.parameterFiles
  numParamFilesArgs := impl.numParamFilesArgs
  remapRules := arrayOf impl.remapRules
  numRemapRules := impl.numRemapRules
  logLevel := some impl.logLevel
  externalLogConfigFile := some impl.externalLogConfigFile
  logStdoutDisabled := some impl.logStdoutDisabled
  logRosoutDisabled := some impl.logRosoutDisabled
  logExtLibDisabled := some impl.logExtLibDisabled

/-- what a copy should be: equal to the original if there is memory, else zero -/
structure Copies (mem : Memory) (impl : ArgumentsImpl) : Prop where
  equal : (∀ k < (requests impl).length, mem.allocates k = true) →
    argumentsCopy mem (some impl) none = some (.ok, some (stored impl))
  zero : (∃ k < (requests impl).length, mem.allocates k = false) →
    ∃ ret, ret ≠ .ok ∧ argumentsCopy mem (some impl) none = some (ret, none)

/-! ## a copy makes its requests -/

section
variable {mem : Memory} {e : Request → Fault} {fault : Fault} {i : Nat}

theorem copyText_serves (he : e (.rule i) = fault) (text : Option Text) :
    Serves mem.allocates e (copyText mem fault text) (textRequests i text) text := by
  cases text with
  | none => exact serves_pure none
  | some text => exact (serves_allocate (Request.rule i) he).map fun _ => some text

theorem remapCopy_serves (he : e (.rule i) = fault) (rule : RemapImpl) :
    Serves mem.allocates e (remapCopy mem fault rule) (ruleRequests i rule) rule := by
  unfold remapCopy
  show Serves _ _ _ ([Request.rule i] ++ _) _
  refine (serves_allocate (Request.rule i) he).bind ?_
  refine (copyText_serves he rule.nodeName).bind ?_
  refine (copyText_serves he rule.matchText).bind ?_
  exact (copyText_serves he rule.replacement).map fun replacement =>
    ({ rule with replacement } : RemapImpl)

end

/-- an array in which the values up to `i` have been written, and `NULL` there -/
def partialArray {α : Type} (isNull : Nat → Bool) (values : List (Option α)) (i : Nat) :
    List (Pointer α) :=
  (values.take i).map .to ++ .to none :: garbage isNull (i + 1) (values.length - (i + 1))

/-- an array in which some values have been written -/
def written {α : Type} (isNull : Nat → Bool) (done rest : List (Option α)) : List (Pointer α) :=
  done.map .to ++ garbage isNull done.length rest.length

section
variable {α : Type} {isNull : Nat → Bool} {done rest : List (Option α)} {v : Option α}

theorem garbage_succ (i n : Nat) :
    (garbage isNull i (n + 1) : List (Pointer α)) = .garbage (isNull i) :: garbage isNull (i + 1) n := by
  rw [garbage, List.range'_succ, List.map_cons]
  rfl

theorem set_written (p : Pointer α) : (written isNull done (v :: rest)).set done.length p =
    done.map .to ++ p :: garbage isNull (done.length + 1) rest.length := by
  rw [written, List.length_cons, garbage_succ,
    List.set_append_right _ _ (by rw [List.length_map]), List.length_map, Nat.sub_self]
  rfl

theorem set_none : (written isNull done (v :: rest)).set done.length (.to none) =
    partialArray isNull (done ++ v :: rest) done.length := by
  rw [set_written, partialArray, List.take_left, List.length_append, List.length_cons,
    show done.length + (rest.length + 1) - (done.length + 1) = rest.length by omega]

theorem set_value : ((written isNull done (v :: rest)).set done.length (.to none)).set done.length
    (.to v) = written isNull (done ++ [v]) rest := by
  rw [List.set_set, set_written, written, List.map_append, List.length_append,
    List.length_singleton, List.append_assoc]
  rfl

theorem written_all : written isNull done [] = done.map .to := List.append_nil _

end

section
variable {mem : Memory} {e : Request → Fault} {block : ArgumentsBlock}

/-- the loop over the rules -/
theorem copyRules_serves (rest : List RemapImpl) : ∀ done : List (Option RemapImpl),
    (∀ i, e (.rule i) = .failed { block with
      remapRules := some (partialArray mem.ruleIsNull (done ++ rest.map some) i) }) →
    Serves mem.allocates e
      (copyRules mem block done.length (rest.map some) (written mem.ruleIsNull done (rest.map some)))
      (rulesRequests done.length rest) ((done ++ rest.map some).map .to) := by
  induction rest with
  | nil =>
    intro done he
    rw [List.map_nil, written_all, List.append_nil]
    exact serves_pure _
  | cons rule rest ih =>
    intro done he
    have hnext := ih (done ++ [some rule])
    rw [List.length_append, List.length_singleton, List.append_assoc] at hnext
    show Serves mem.allocates e (remapCopy mem _ rule >>= fun copy =>
      copyRules mem block (done.length + 1) (rest.map some) (List.set _ done.length (.to (some copy))))
      _ _
    refine (remapCopy_serves (i := done.length) ?_ rule).bind ?_
    · rw [he, List.map_cons, set_none]
    · rw [List.map_cons, set_value]
      exact hnext he

/-- the loop over the files -/
theorem copyFiles_serves (rest : List Text) : ∀ done : List (Option Text),
    (∀ i, e (.file i) = .failed { block with
      parameterFiles := some (partialArray mem.fileIsNull (done ++ rest.map some) i) }) →
    Serves mem.allocates e
      (copyFiles mem block done.length (rest.map some) (written mem.fileIsNull done (rest.map some)))
      (filesRequests done.length rest) ((done ++ rest.map some).map .to) := by
  induction rest with
  | nil =>
    intro done he
    rw [List.map_nil, written_all, List.append_nil]
    exact serves_pure _
  | cons file rest ih =>
    intro done he
    have hnext := ih (done ++ [some file])
    rw [List.length_append, List.length_singleton, List.append_assoc] at hnext
    show Serves mem.allocates e (allocate mem.allocates _ >>= fun _ =>
      copyFiles mem block (done.length + 1) (rest.map some)
        (List.set _ done.length (.to (some file)))) ([.file done.length] ++ _) _
    refine (serves_allocate (Request.file done.length) ?_).bind ?_
    · rw [he, List.map_cons, set_none]
    · rw [List.map_cons, ← List.set_set (.to none), set_value]
      exact hnext he

end

/-! ## the stages -/

/-- every slot of the arrays of the original has its value, as after `rcl_parse_arguments` -/
structure Filled (impl : ArgumentsImpl) (files : List Text) (rules : List RemapImpl) : Prop where
  numUnparsed : impl.numUnparsedArgs = impl.unparsedArgs.length
  files : impl.parameterFiles = files.map some
  numFiles : impl.numParamFilesArgs = impl.parameterFiles.length
  rules : impl.remapRules = rules.map some
  numRules : impl.numRemapRules = impl.remapRules.length

theorem Parsed.filled {lib : Rcutils} {argv : List Text} {impl : ArgumentsImpl}
    (h : Parsed lib argv impl) : Filled impl ((recognised lib argv).filterMap Recognised.file?)
      ((recognised lib argv).filterMap Recognised.rule?) where
  numUnparsed := by rw [h.numUnparsed, h.unparsed, List.length_map]
  files := h.files
  numFiles := by rw [h.numFiles, h.files, List.length_map]
  rules := h.rules
  numRules := by rw [h.numRules, h.rules, List.length_map]

section
variable (mem : Memory) (impl : ArgumentsImpl)

def afterUnparsed : ArgumentsBlock :=
  { newBlock mem with
    unparsedArgs := if impl.unparsedArgs.length ≠ 0 then some impl.unparsedArgs else none
    numUnparsedArgs := impl.numUnparsedArgs }

def afterRules : ArgumentsBlock :=
  { afterUnparsed mem impl with
    remapRules := arrayOf impl.remapRules, numRemapRules := impl.numRemapRules }

def afterFiles : ArgumentsBlock :=
  { afterRules mem impl with
    parameterFiles := arrayOf impl.parameterFiles, numParamFilesArgs := impl.numParamFilesArgs }

/-- the block when a request is not served -/
def blockAt : Request → ArgumentsBlock
  | .block => newBlock mem
  | .unparsedArgs => newBlock mem
  | .remapRules => afterUnparsed mem impl
  | .rule i => { afterUnparsed mem impl with
      remapRules := some (partialArray mem.ruleIsNull impl.remapRules i)
      numRemapRules := impl.numRemapRules }
  | .parameterFiles => afterRules mem impl
  | .file i => { afterRules mem impl with
      parameterFiles := some (partialArray mem.fileIsNull impl.parameterFiles i)
      numParamFilesArgs := impl.numParamFilesArgs }

variable {mem impl} {files : List Text} {rules : List RemapImpl}

theorem filterMap_map_some {α : Type} (l : List α) : (l.map some).filterMap id = l := by
  rw [List.filterMap_map]
  exact List.filterMap_some

theorem copyUnparsed_serves (h : Filled impl files rules) :
    Serves mem.allocates (fun r => .failed (blockAt mem impl r))
      (copyUnparsed mem impl (newBlock mem)) (arrayRequests .unparsedArgs impl.unparsedArgs [])
      (afterUnparsed mem impl) := by
  unfold copyUnparsed arrayRequests afterUnparsed
  rw [h.numUnparsed]
  split
  · rw [List.take_length]
    exact (serves_allocate Request.unparsedArgs rfl).map fun _ => _
  · rename_i hzero
    rw [not_not.mp hzero]
    exact serves_pure _

theorem copyRemapRules_serves (h : Filled impl files rules) :
    Serves mem.allocates (fun r => .failed (blockAt mem impl r))
      (copyRemapRules mem impl (afterUnparsed mem impl))
      (arrayRequests .remapRules impl.remapRules (rulesRequests 0 (impl.remapRules.filterMap id)))
      (afterRules mem impl) := by
  unfold copyRemapRules arrayRequests afterRules arrayOf
  rw [h.numRules]
  split
  · rw [List.take_length]
    show Serves _ _ _ ([Request.remapRules] ++ _) _
    refine (serves_allocate Request.remapRules rfl).bind ?_
    have hloop : Serves mem.allocates (fun r => .failed (blockAt mem impl r))
        (copyRules mem { afterUnparsed mem impl with numRemapRules := impl.remapRules.length } 0
          impl.remapRules (garbage mem.ruleIsNull 0 impl.remapRules.length))
        (rulesRequests 0 (impl.remapRules.filterMap id)) (impl.remapRules.map .to) := by
      rw [h.rules, filterMap_map_some]
      refine copyRules_serves rules [] fun i => ?_
      rw [blockAt, h.numRules, h.rules]
      rfl
    exact hloop.map fun copies => { afterUnparsed mem impl with
      remapRules := some copies, numRemapRules := impl.remapRules.length }
  · rename_i hzero
    rw [not_not.mp hzero]
    exact serves_pure _

theorem copyParameterFiles_serves (h : Filled impl files rules) :
    Serves mem.allocates (fun r => .failed (blockAt mem impl r))
      (copyParameterFiles mem impl (afterRules mem impl))
      (arrayRequests .parameterFiles impl.parameterFiles
        (filesRequests 0 (impl.parameterFiles.filterMap id)))
      (afterFiles mem impl) := by
  unfold copyParameterFiles arrayRequests afterFiles arrayOf
  rw [h.numFiles]
  split
  · rw [List.take_length]
    show Serves _ _ _ ([Request.parameterFiles] ++ _) _
    refine (serves_allocate Request.parameterFiles rfl).bind ?_
    have hloop : Serves mem.allocates (fun r => .failed (blockAt mem impl r))
        (copyFiles mem { afterRules mem impl with numParamFilesArgs := impl.parameterFiles.length } 0
          impl.parameterFiles (garbage mem.fileIsNull 0 impl.parameterFiles.length))
        (filesRequests 0 (impl.parameterFiles.filterMap id)) (impl.parameterFiles.map .to) := by
      rw [h.files, filterMap_map_some]
      refine copyFiles_serves files [] fun i => ?_
      rw [blockAt, h.numFiles, h.files]
      rfl
    exact hloop.map fun copies => { afterRules mem impl with
      parameterFiles := some copies, numParamFilesArgs := impl.parameterFiles.length }
  · rename_i hzero
    rw [not_not.mp hzero]
    exact serves_pure _

/-- **The copy makes its requests**, and all the blocks it can leave are known. -/
theorem copyBlock_serves (h : Filled impl files rules) :
    Serves mem.allocates (fun r => .failed (blockAt mem impl r)) (copyBlock mem impl)
      (requests impl).tail (afterFiles mem impl) :=
  (copyUnparsed_serves h).bind ((copyRemapRules_serves h).bind (copyParameterFiles_serves h))

end

/-! ## the result -/

section
variable {α : Type} {isNull : Nat → Bool}

theorem mem_garbage {i n : Nat} {p : Pointer α} :
    p ∈ garbage isNull i n ↔ ∃ j, (i ≤ j ∧ j < i + n) ∧ .garbage (isNull j) = p := by
  simp only [garbage, List.mem_map, List.mem_range'_1]

/-- what is behind the place of a failure has to be `NULL` -/
theorem allFreeable_partialArray (values : List (Option α)) (i : Nat) :
    AllFreeable (some (partialArray isNull values i)) values.length ↔
      ∀ j, i < j → j < values.length → isNull j = true := by
  constructor
  · intro h j hij hj
    have hlen : (partialArray isNull values i).length = values.length := by
      rw [partialArray, garbage, List.length_append, List.length_map, List.length_take,
        List.length_cons, List.length_map, List.length_range']
      omega
    apply h (.garbage (isNull j))
    rw [Option.getD_some, List.take_of_length_le (Nat.le_of_eq hlen), partialArray]
    refine List.mem_append_right _ (List.mem_cons_of_mem _ (mem_garbage.mpr ⟨j, ?_, rfl⟩))
    omega
  · intro h p hp
    rw [Option.getD_some] at hp
    rcases List.mem_append.mp (List.mem_of_mem_take hp) with hp | hp
    · obtain ⟨v, -, rfl⟩ := List.mem_map.mp hp
      trivial
    rcases List.mem_cons.mp hp with rfl | hp
    · trivial
    · obtain ⟨j, hj, rfl⟩ := mem_garbage.mp hp
      exact h j (by omega) (by omega)

theorem allFreeable_none (n : Nat) : AllFreeable (none : Option (List (Pointer α))) n := by
  intro p hp
  rw [Option.getD_none, List.take_nil] at hp
  cases hp

theorem allFreeable_arrayOf (values : List (Option α)) (n : Nat) :
    AllFreeable (arrayOf values) n := by
  unfold arrayOf
  split
  · intro p hp
    obtain ⟨v, -, rfl⟩ := List.mem_map.mp (List.mem_of_mem_take hp)
    trivial
  · exact allFreeable_none n

end

section
variable (mem : Memory) (impl : ArgumentsImpl)

/-- the memory for the block has the values of the original already -/
def HoldsLogging : Prop :=
  mem.logLevel = some impl.logLevel ∧
    mem.externalLogConfigFile = some impl.externalLogConfigFile ∧
    mem.logStdoutDisabled = some impl.logStdoutDisabled ∧
    mem.logRosoutDisabled = some impl.logRosoutDisabled ∧
    mem.logExtLibDisabled = some impl.logExtLibDisabled

/-- behind the rule, or the file, that a request is for, the memory of the array is `NULL` -/
def NullBehind : Request → Prop
  | .rule i => ∀ j, i < j → j < impl.remapRules.length → mem.ruleIsNull j = true
  | .file i => ∀ j, i < j → j < impl.parameterFiles.length → mem.fileIsNull j = true
  | _ => True

variable {mem impl} {files : List Text} {rules : List RemapImpl}

theorem afterFiles_eq_stored_iff : afterFiles mem impl = stored impl ↔ HoldsLogging mem impl := by
  unfold afterFiles afterRules afterUnparsed newBlock stored HoldsLogging
  simp only [ArgumentsBlock.mk.injEq, true_and]

theorem argumentsFini_blockAt (h : Filled impl files rules) (r : Request) :
    argumentsFini (blockAt mem impl r) = some none ∧ NullBehind mem impl r ∨
      argumentsFini (blockAt mem impl r) = none ∧ ¬ NullBehind mem impl r := by
  have hfini : ∀ {b : ArgumentsBlock} {p : Prop},
      (AllFreeable b.remapRules b.numRemapRules ∧ AllFreeable b.parameterFiles b.numParamFilesArgs ↔
        p) → argumentsFini b = some none ∧ p ∨ argumentsFini b = none ∧ ¬ p := by
    intro b p hp
    by_cases hfree : AllFreeable b.remapRules b.numRemapRules ∧
        AllFreeable b.parameterFiles b.numParamFilesArgs
    · exact .inl ⟨if_pos hfree, hp.mp hfree⟩
    · exact .inr ⟨if_neg hfree, fun h => hfree (hp.mpr h)⟩
  apply hfini
  cases r with
  | block => exact iff_of_true ⟨allFreeable_none _, allFreeable_none _⟩ trivial
  | unparsedArgs => exact iff_of_true ⟨allFreeable_none _, allFreeable_none _⟩ trivial
  | remapRules => exact iff_of_true ⟨allFreeable_none _, allFreeable_none _⟩ trivial
  | rule i =>
    show AllFreeable (some _) impl.numRemapRules ∧ AllFreeable none _ ↔ _
    rw [h.numRules, allFreeable_partialArray]
    exact and_iff_left (allFreeable_none _)
  | parameterFiles => exact iff_of_true ⟨allFreeable_arrayOf _ _, allFreeable_none _⟩ trivial
  | file i =>
    show AllFreeable (arrayOf _) _ ∧ AllFreeable (some _) impl.numParamFilesArgs ↔ _
    rw [h.numFiles, allFreeable_partialArray]
    exact and_iff_right (allFreeable_arrayOf _ _)

/-- the result by the first request that is not served -/
theorem argumentsCopy_eq (h : Filled impl files rules) : argumentsCopy mem (some impl) none =
    match firstFailure mem.allocates 0 (requests impl) with
    | none => some (.ok, some (afterFiles mem impl))
    | some r => (argumentsFini (blockAt mem impl r)).map fun out => (.badAlloc, out) := by
  have htail : requests impl = .block :: (requests impl).tail := rfl
  rw [htail, firstFailure, argumentsCopy]
  by_cases h0 : mem.allocates 0 = true
  · rw [if_pos h0, h0]
    show (match copyBlock mem impl 1 with
      | .ok (block, _) => some (CopyRet.ok, some block)
      | .error (.failed block) => (argumentsFini block).map fun out => (CopyRet.badAlloc, out)
      | .error .undefined => none) = _
    rw [copyBlock_serves h 1]
    cases firstFailure mem.allocates (0 + 1) (requests impl).tail <;> rfl
  · rw [if_neg h0, Bool.eq_false_iff.mpr h0]
    rfl

def CopyCondition (mem : Memory) (impl : ArgumentsImpl) : Prop :=
  match firstFailure mem.allocates 0 (requests impl) with
  | none => HoldsLogging mem impl
  | some r => NullBehind mem impl r

theorem copies_iff (h : Filled impl files rules) : Copies mem impl ↔ CopyCondition mem impl := by
  have hnone := @firstFailure_eq_none_iff _ mem.allocates (requests impl) 0
  have hsome := @firstFailure_ne_none_iff _ mem.allocates (requests impl) 0
  simp only [Nat.zero_add] at hnone hsome
  have heq : argumentsCopy mem (some impl) none = _ := argumentsCopy_eq h
  unfold CopyCondition
  cases hfail : firstFailure mem.allocates 0 (requests impl) with
  | none =>
    rw [hfail] at heq
    dsimp only at heq
    have hall := hnone.mp hfail
    rw [← afterFiles_eq_stored_iff]
    constructor
    · intro hc
      have hboth := heq.symm.trans (hc.equal hall)
      exact Option.some.inj (congrArg Prod.snd (Option.some.inj hboth))
    · intro hstored
      refine ⟨fun _ => hstored ▸ heq, fun hbad => absurd hfail (hsome.mpr hbad)⟩
  | some r =>
    rw [hfail] at heq
    dsimp only at heq
    have hbad := hsome.mp (by rw [hfail]; exact Option.some_ne_none r)
    have hequal : ¬ ∀ k < (requests impl).length, mem.allocates k = true := by
      intro hall
      rw [hnone.mpr hall] at hfail
      cases hfail
    rcases @argumentsFini_blockAt mem _ _ _ h r with ⟨hfini, hnull⟩ | ⟨hfini, hnull⟩
    · refine iff_of_true ⟨fun hall => absurd hall hequal, fun _ => ⟨.badAlloc, by decide, ?_⟩⟩ hnull
      rw [heq, hfini]
      rfl
    · refine iff_of_false (fun hc => ?_) hnull
      obtain ⟨ret, -, hret⟩ := hc.zero hbad
      rw [heq, hfini] at hret
      cases hret

end

/-- **Copies of parsed arguments** are what they should be exactly under this condition: the new
block happens to have the logging fields, if there is memory; if there is not, the rest of the array
in which the copy stops happens to be `NULL`. -/
theorem argumentsCopy_iff (lib : Rcutils) (argv : List Text) :
    ∃ impl, parseArguments lib argv = some impl ∧
      ∀ mem, Copies mem impl ↔ CopyCondition mem impl := by
  obtain ⟨impl, hparse, hparsed⟩ := parseArguments_parsed lib argv
  exact ⟨impl, hparse, fun mem => copies_iff hparsed.filled⟩

def zeroMemory : Memory where
  allocates _ := true
  logLevel := some 0
  externalLogConfigFile := some none
  logStdoutDisabled := some false
  logRosoutDisabled := some false
  logExtLibDisabled := some false
  ruleIsNull _ := true
  fileIsNull _ := true

/-- without arguments the log level is -1, in the copy it is 0 -/
theorem not_copies : ¬ ∀ (lib : Rcutils) (argv : List Text) (mem : Memory) (impl : ArgumentsImpl),
    parseArguments lib argv = some impl → Copies mem impl := by
  intro h
  have hcopy := (h plainRcutils [] zeroMemory (.init 0) rfl).equal fun _ _ => rfl
  have hlevel : some (some (0 : Int)) = some (some (-1)) :=
    congrArg (Option.map fun r : CopyRet × Option ArgumentsBlock =>
      r.2.bind ArgumentsBlock.logLevel) hcopy
  cases hlevel

end PMROS2.Arguments
