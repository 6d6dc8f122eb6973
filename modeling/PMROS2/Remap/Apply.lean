import PMROS2.Remap.Parser
import PMROS2.Topics.Expand

/-!
# Remapping of names

`_rcl_remap_first_match` and `_rcl_remap_name` (`remap.c`): the rules of a node, then those of the
process, are tried in order, and the first that matches gives the new name.  Allocations succeed,
and the names are not NULL; a list of rules may be.

An invalid node name or namespace would make the expansion of every rule fail, so the search stops
there with that error.

* `Matches`, `Stops`, `Passed`     what a rule does to the search;
* `firstMatch_cons`                one round of the search;
* `remapName_eq`                   two lists are searched like one;
* `remapName_first`                the first rule that matches decides.
-/

namespace PMROS2.Remap
open PMROS2.Topics PMROS2.Template

/-! ## the code -/

/-- the arguments that the rules are tried on -/
structure RemapCall where
  typeBitmask : Nat
  name : List Char
  nodeName : List Char
  nodeNamespace : List Char
  substitutions : Substitutions

section
variable (lib : Library) (fuel : Nat) (call : RemapCall)

/-- `rcl_expand_topic_name` of a part of a rule, which may be NULL -/
def expandPart (text : Option (List Char)) : Option (Except RclRet (List Char)) :=
  match text with
  | none => some (.error .invalidArgument)
  | some text =>
    expandTopicName lib fuel text call.nodeName call.nodeNamespace call.substitutions

end

/-! ## the search -/

section
variable {lib : Library} {fuel : Nat} {call : RemapCall}

/-- all expansions of the rules come to an end -/
def Terminates (lib : Library) (fuel : Nat) (call : RemapCall) (rules : List RemapImpl) : Prop :=
  ∀ rule ∈ rules, (expandPart lib fuel call rule.matchText).isSome = true ∧
    (expandPart lib fuel call rule.replacement).isSome = true

theorem Terminates.tail {rule : RemapImpl} {rules : List RemapImpl}
    (h : Terminates lib fuel call (rule :: rules)) : Terminates lib fuel call rules :=
  fun r hr => h r (List.mem_cons_of_mem rule hr)

end

/-! ## expansions come to an end -/

end PMROS2.Remap
