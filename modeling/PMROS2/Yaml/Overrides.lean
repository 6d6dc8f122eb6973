import PMROS2.Lib.Writes
import PMROS2.Yaml.ParameterMap

/-!
# The parameter overrides of a node

The constructor of `NodeParameters` (`node_parameters.cpp`) goes over the parameter files of a
node.  `rclcpp::ParameterMap` is a `std::unordered_map`, so a file is read in an order that is not
determined: `Orders maps orders` says that `orders` are iteration orders of `maps`.  Two sections
of a file can match a node, the wildcard `/**` and the one of its fully qualified name.

* `parameterOverrides`         the map the constructor builds, over given orders;
* `precedence`                 what it is meant to be: the constructor's own overrides first, then
                               the later files, in each the node's own section before the wildcard;
* `Conflict`                   both sections of a file give a parameter, with different values;
* `overrides_precedence_iff`   when the map is that one, in every order.
-/

namespace PMROS2.Yaml
open Std Params Writes

/-! ## the constructor -/

/-- `iter->first == "/**" || iter->first == combined_name_` -/
def sectionMatches (combinedName key : String) : Bool := key = "/**" || key = combinedName

/-- `parameter_overrides_[param.get_name()] = ..` -/
def override (m : ExtTreeMap String ParameterValue) (p : Parameter) :
    ExtTreeMap String ParameterValue :=
  m.insert p.name p.value

def fileOverrides (combinedName : String) (m : ExtTreeMap String ParameterValue)
    (order : ParameterMap) : ExtTreeMap String ParameterValue :=
  order.foldl (fun m s => if sectionMatches combinedName s.1 then s.2.foldl override m else m) m

/-- `parameter_overrides_`: the files in their order, then the argument of the constructor -/
def parameterOverrides (combinedName : String) (orders : List ParameterMap)
    (overrides : List Parameter) : ExtTreeMap String ParameterValue :=
  overrides.foldl override (orders.foldl (fileOverrides combinedName) ∅)

def Orders (maps orders : List ParameterMap) : Prop := List.Forall₂ List.Perm orders maps

/-! ## what is meant -/

def lastValue (name : String) (ps : List Parameter) : Option ParameterValue :=
  (lastBy Parameter.name name ps).map Parameter.value

def sectionOf (m : ParameterMap) (key : String) : List Parameter :=
  ((m.find? fun s => s.1 = key).map Prod.snd).getD []

/-- the value of a file: the node's own section before the wildcard -/
def fileValue (combinedName : String) (m : ParameterMap) (name : String) :
    Option ParameterValue :=
  (lastValue name (sectionOf m combinedName)).or (lastValue name (sectionOf m "/**"))

def filesValue (combinedName : String) (name : String) : List ParameterMap → Option ParameterValue
  | [] => none
  | m :: ms => (filesValue combinedName name ms).or (fileValue combinedName m name)

/-- **The precedence of the overrides.** -/
def precedence (combinedName : String) (maps : List ParameterMap) (overrides : List Parameter)
    (name : String) : Option ParameterValue :=
  (lastValue name overrides).or (filesValue combinedName name maps)

/-- both sections of a file give a value, and not the same -/
def Conflict (combinedName : String) (m : ParameterMap) (name : String) : Prop :=
  ∃ v w, lastValue name (sectionOf m combinedName) = some v ∧
    lastValue name (sectionOf m "/**") = some w ∧ v ≠ w

/-! ## the keys of a file are distinct -/

def Keyed (m : ParameterMap) : Prop := (m.map Prod.fst).Nodup

theorem map_fst_addParameters (name : String) (ps : List Parameter) (m : ParameterMap) :
    (addParameters name ps m).map Prod.fst =
      if name ∈ m.map Prod.fst then m.map Prod.fst else m.map Prod.fst ++ [name] := by
  induction m with
  | nil => rfl
  | cons s m ih =>
    obtain ⟨n, qs⟩ := s
    unfold addParameters
    by_cases hn : n = name
    · rw [if_pos hn, hn]
      simp
    · rw [if_neg hn, List.map_cons, ih, List.map_cons]
      have hne : name ≠ n := fun h => hn h.symm
      by_cases hmem : name ∈ m.map Prod.fst
      · rw [if_pos hmem, if_pos (List.mem_cons_of_mem _ hmem)]
      · rw [if_neg hmem, if_neg (by rw [List.mem_cons]; exact fun h => h.elim hne hmem)]
        rfl

theorem Keyed.addParameters {m : ParameterMap} (h : Keyed m) (name : String)
    (ps : List Parameter) : Keyed (addParameters name ps m) := by
  unfold Keyed
  rw [map_fst_addParameters]
  split
  · exact h
  · rename_i hmem
    exact List.nodup_append.mpr ⟨h, List.nodup_singleton name, fun a ha b hb hab =>
      hmem (List.mem_singleton.mp hb ▸ hab ▸ ha)⟩

theorem keyed_parameterMapFrom {st : List (List Char × List Param)} {m : ParameterMap}
    (h : parameterMapFrom st = .ok m) : Keyed m := by
  refine Simulation.foldlM_inv (P := Keyed) (fun m₀ n m₁ h₀ h₁ => ?_) st [] m List.nodup_nil h
  obtain ⟨ps, -, h₁⟩ := Simulation.bind_eq_ok.mp h₁
  obtain rfl := Except.ok.inj h₁
  exact h₀.addParameters _ ps

theorem Keyed.perm {m order : ParameterMap} (h : Keyed m) (hp : order.Perm m) : Keyed order :=
  (hp.map Prod.fst).nodup_iff.mpr h

/-! ## what is written, in an order -/

/-- the parameters of the sections that match, in the order they are visited -/
def fileWrites (combinedName : String) (order : ParameterMap) : List Parameter :=
  (order.filter fun s => sectionMatches combinedName s.1).flatMap Prod.snd

theorem fileWrites_cons (combinedName : String) (s : String × List Parameter) (order : ParameterMap) :
    fileWrites combinedName (s :: order) =
      if sectionMatches combinedName s.1 then s.2 ++ fileWrites combinedName order
      else fileWrites combinedName order := by
  unfold fileWrites
  by_cases hs : sectionMatches combinedName s.1 = true
  · rw [if_pos hs, List.filter_cons_of_pos (by exact hs), List.flatMap_cons]
  · rw [if_neg hs, List.filter_cons_of_neg (by exact hs)]

theorem fileOverrides_eq (combinedName : String) (order : ParameterMap) :
    ∀ m, fileOverrides combinedName m order = (fileWrites combinedName order).foldl override m := by
  induction order with
  | nil => intro m; rfl
  | cons s order ih =>
    intro m
    show fileOverrides combinedName
      (if sectionMatches combinedName s.1 then s.2.foldl override m else m) order = _
    rw [ih, fileWrites_cons]
    by_cases hs : sectionMatches combinedName s.1 = true
    · rw [if_pos hs, if_pos hs, List.foldl_append]
    · rw [if_neg hs, if_neg hs]

theorem getElem?_foldl_override (ps : List Parameter) (m : ExtTreeMap String ParameterValue)
    (name : String) : (ps.foldl override m)[name]? = (lastValue name ps).or m[name]? :=
  getElem?_foldl_insert Parameter.name Parameter.value ps m name

/-- everything that is written, the last write counts -/
theorem parameterOverrides_getElem? (combinedName : String) (orders : List ParameterMap)
    (overrides : List Parameter) (name : String) :
    (parameterOverrides combinedName orders overrides)[name]? =
      (lastValue name overrides).or
        (lastValue name (orders.flatMap (fileWrites combinedName))) := by
  have hfiles : ∀ m : ExtTreeMap String ParameterValue,
      orders.foldl (fileOverrides combinedName) m =
        (orders.flatMap (fileWrites combinedName)).foldl override m := by
    induction orders with
    | nil => intro m; rfl
    | cons order orders ih =>
      intro m
      rw [List.foldl_cons, ih, fileOverrides_eq, List.flatMap_cons, List.foldl_append]
  unfold parameterOverrides
  rw [hfiles, getElem?_foldl_override, getElem?_foldl_override, ExtTreeMap.getElem?_empty,
    Option.or_none]

section
variable {combinedName name : String}

theorem lastValue_append (ps qs : List Parameter) :
    lastValue name (ps ++ qs) = (lastValue name qs).or (lastValue name ps) := by
  unfold lastValue
  rw [lastBy_append, Option.map_or]

theorem sectionOf_cons (s : String × List Parameter) (order : ParameterMap) (key : String) :
    sectionOf (s :: order) key = if s.1 = key then s.2 else sectionOf order key := by
  unfold sectionOf
  rw [List.find?_cons]
  by_cases h : s.1 = key
  · rw [if_pos h]
    simp [h]
  · rw [if_neg h]
    simp [h]

theorem sectionOf_of_notMem {order : ParameterMap} {key : String}
    (h : key ∉ order.map Prod.fst) : sectionOf order key = [] := by
  unfold sectionOf
  rw [List.find?_eq_none.mpr fun s hs hk => h (List.mem_map.mpr ⟨s, hs, by simpa using hk⟩)]
  rfl

theorem sectionOf_perm {m order : ParameterMap} (h : Keyed m) (hp : order.Perm m) (key : String) :
    sectionOf order key = sectionOf m key := by
  unfold sectionOf
  have hfind : (order.find? fun s => s.1 = key).map Prod.snd =
      (m.find? fun s => s.1 = key).map Prod.snd := by
    apply Option.ext
    intro ps
    rw [find?_key_eq_some (h.perm hp), find?_key_eq_some h, hp.mem_iff]
  rw [hfind]

/-- **One file, in an order**: one of the two sections is visited last. -/
theorem lastValue_fileWrites (combinedName name : String) {order : ParameterMap}
    (h : Keyed order) :
    lastValue name (fileWrites combinedName order) =
        (lastValue name (sectionOf order combinedName)).or
          (lastValue name (sectionOf order "/**")) ∨
      lastValue name (fileWrites combinedName order) =
        (lastValue name (sectionOf order "/**")).or
          (lastValue name (sectionOf order combinedName)) := by
  induction order with
  | nil => exact .inl rfl
  | cons s order ih =>
    obtain ⟨hfirst, hrest⟩ := List.nodup_cons.mp h
    have ih := ih hrest
    rw [fileWrites_cons, sectionOf_cons, sectionOf_cons]
    by_cases hown : s.1 = combinedName
    · -- the node's own section first: what follows is the wildcard's
      have hnone : sectionOf order combinedName = [] := sectionOf_of_notMem (hown ▸ hfirst)
      have hlast : lastValue name (fileWrites combinedName order) =
          lastValue name (sectionOf order "/**") := by
        rw [hnone] at ih
        rcases ih with ih | ih
        · exact ih
        · rw [ih]
          exact Option.or_none
      rw [if_pos hown, if_pos (by simp [sectionMatches, hown]), lastValue_append, hlast]
      right
      by_cases hwild : s.1 = "/**"
      · rw [if_pos hwild, sectionOf_of_notMem (hwild ▸ hfirst), Option.or_self]
        rfl
      · rw [if_neg hwild]
    rw [if_neg hown]
    by_cases hwild : s.1 = "/**"
    · have hnone : sectionOf order "/**" = [] := sectionOf_of_notMem (hwild ▸ hfirst)
      have hlast : lastValue name (fileWrites combinedName order) =
          lastValue name (sectionOf order combinedName) := by
        rw [hnone] at ih
        rcases ih with ih | ih
        · rw [ih]
          exact Option.or_none
        · exact ih
      rw [if_pos hwild, if_pos (by simp [sectionMatches, hwild]), lastValue_append, hlast]
      exact .inl rfl
    · rw [if_neg hwild, if_neg (by simp [sectionMatches, hwild, hown])]
      exact ih

theorem or_comm_of_not_conflict {m : ParameterMap} (h : ¬ Conflict combinedName m name) :
    (lastValue name (sectionOf m "/**")).or (lastValue name (sectionOf m combinedName)) =
      fileValue combinedName m name := by
  unfold fileValue
  cases hown : lastValue name (sectionOf m combinedName) with
  | none => rw [Option.none_or, Option.or_none]
  | some v =>
    cases hwild : lastValue name (sectionOf m "/**") with
    | none => rw [Option.none_or, Option.or_none]
    | some w =>
      have hvw : v = w := by
        by_contra hne
        exact h ⟨v, w, hown, hwild, hne⟩
      rw [hvw]

theorem lastValue_of_not_conflict {m order : ParameterMap} (hm : Keyed m) (hp : order.Perm m)
    (h : ¬ Conflict combinedName m name) :
    lastValue name (fileWrites combinedName order) = fileValue combinedName m name := by
  rcases lastValue_fileWrites combinedName name (hm.perm hp) with hlast | hlast
  · rw [hlast, sectionOf_perm hm hp, sectionOf_perm hm hp]
    rfl
  · rw [hlast, sectionOf_perm hm hp, sectionOf_perm hm hp]
    exact or_comm_of_not_conflict h

end

/-! ## all files -/

/-- in the last file that gives the parameter a value, the two sections agree on it -/
def Settled (combinedName : String) (maps : List ParameterMap) (name : String) : Prop :=
  ∀ earlier m later, maps = earlier ++ m :: later →
    (∀ m' ∈ later, fileValue combinedName m' name = none) → ¬ Conflict combinedName m name

section
variable {combinedName name : String}

theorem filesValue_append (ms ms' : List ParameterMap) :
    filesValue combinedName name (ms ++ ms') =
      (filesValue combinedName name ms').or (filesValue combinedName name ms) := by
  induction ms with
  | nil =>
    rw [List.nil_append]
    exact Option.or_none.symm
  | cons m ms ih =>
    rw [List.cons_append, filesValue, ih, filesValue, Option.or_assoc]

theorem filesValue_eq_none {ms : List ParameterMap} :
    filesValue combinedName name ms = none ↔ ∀ m ∈ ms, fileValue combinedName m name = none := by
  induction ms with
  | nil => exact ⟨fun _ m hm => (by cases hm), fun _ => rfl⟩
  | cons m ms ih => rw [filesValue, Option.or_eq_none_iff, ih, List.forall_mem_cons, and_comm]

theorem Settled.tail {m : ParameterMap} {ms : List ParameterMap}
    (h : Settled combinedName (m :: ms) name) : Settled combinedName ms name :=
  fun earlier m' later heq => h (m :: earlier) m' later (congrArg (m :: ·) heq)

/-- **All files, in any order**: where no conflict counts, the writes are those that are meant. -/
theorem lastValue_of_settled {orders maps : List ParameterMap} (ho : Orders maps orders)
    (hm : ∀ m ∈ maps, Keyed m) (h : Settled combinedName maps name) :
    lastValue name (orders.flatMap (fileWrites combinedName)) =
      filesValue combinedName name maps := by
  induction ho with
  | nil => rfl
  | @cons order m orders maps hp ho ih =>
    obtain ⟨hm, hms⟩ := List.forall_mem_cons.mp hm
    rw [List.flatMap_cons, lastValue_append, ih hms h.tail, filesValue]
    cases hlater : filesValue combinedName name maps with
    | some v => rfl
    | none =>
      rw [lastValue_of_not_conflict hm hp (h [] m maps rfl (filesValue_eq_none.mp hlater))]

theorem orders_refl (maps : List ParameterMap) : Orders maps maps :=
  List.forall₂_same.mpr fun m _ => List.Perm.refl m

def wildcardLast (m : ParameterMap) : ParameterMap :=
  (m.filter fun s => s.1 ≠ "/**") ++ m.filter fun s => s.1 = "/**"

theorem wildcardLast_perm (m : ParameterMap) : (wildcardLast m).Perm m := by
  have hp := List.filter_append_perm (fun s : String × List Parameter => decide (s.1 = "/**")) m
  refine List.Perm.trans ?_ hp
  unfold wildcardLast
  refine List.perm_append_comm.trans (List.Perm.of_eq ?_)
  simp

theorem fileWrites_append (order order' : ParameterMap) :
    fileWrites combinedName (order ++ order') =
      fileWrites combinedName order ++ fileWrites combinedName order' := by
  unfold fileWrites
  rw [List.filter_append, List.flatMap_append]

theorem fileWrites_wildcard {m : ParameterMap} (h : Keyed m) :
    fileWrites combinedName (m.filter fun s => s.1 = "/**") = sectionOf m "/**" := by
  induction m with
  | nil => rfl
  | cons s m ih =>
    obtain ⟨hfirst, hrest⟩ := List.nodup_cons.mp h
    rw [sectionOf_cons]
    by_cases hs : s.1 = "/**"
    · have hnone : (m.filter fun s => decide (s.1 = "/**")) = [] := by
        rw [List.filter_eq_nil_iff]
        intro s' hs' hwild
        refine hfirst (List.mem_map.mpr ⟨s', hs', ?_⟩)
        rw [hs]
        simpa using hwild
      rw [List.filter_cons_of_pos (by simpa using hs), if_pos hs, hnone, fileWrites_cons,
        if_pos (by simp [sectionMatches, hs])]
      exact List.append_nil _
    · rw [List.filter_cons_of_neg (by simpa using hs), if_neg hs, ih hrest]

/-- a conflict that counts shows in the order in which the wildcard comes last -/
theorem lastValue_of_conflict {earlier later : List ParameterMap} {m : ParameterMap}
    {w : ParameterValue} (hm : ∀ m' ∈ earlier ++ m :: later, Keyed m')
    (hlater : ∀ m' ∈ later, fileValue combinedName m' name = none)
    (hw : lastValue name (sectionOf m "/**") = some w) :
    lastValue name ((earlier ++ wildcardLast m :: later).flatMap (fileWrites combinedName)) =
      some w := by
  have hkeyed : ∀ m' ∈ later, Keyed m' := fun m' h =>
    hm m' (List.mem_append_right _ (List.mem_cons_of_mem m h))
  have hsettled : Settled combinedName later name := by
    intro earlier' m' later' heq _ hc
    obtain ⟨v, _, hv, _⟩ := hc
    have hnone := hlater m' (heq ▸ List.mem_append_right _ List.mem_cons_self)
    unfold fileValue at hnone
    rw [hv, Option.some_or] at hnone
    cases hnone
  rw [List.flatMap_append, List.flatMap_cons, lastValue_append, lastValue_append,
    lastValue_of_settled (orders_refl later) hkeyed hsettled, filesValue_eq_none.mpr hlater]
  unfold wildcardLast
  rw [fileWrites_append, lastValue_append,
    fileWrites_wildcard (hm m (List.mem_append_right _ List.mem_cons_self)), hw]
  rfl

end

/-- **The precedence of the overrides.**  For files that are parsed, the override map of a node is
the same in every iteration order, and is the one that the precedence says, just when every
parameter that the constructor's argument does not give is settled by the last file that has it. -/
theorem overrides_precedence_iff {files : List (List (List Char × List Param))}
    {maps : List ParameterMap} (hmaps : files.mapM parameterMapFrom = .ok maps)
    (combinedName : String) (overrides : List Parameter) :
    ((∀ orders orders', Orders maps orders → Orders maps orders' →
        parameterOverrides combinedName orders overrides =
          parameterOverrides combinedName orders' overrides) ∧
      ∀ orders, Orders maps orders → ∀ name,
        (parameterOverrides combinedName orders overrides)[name]? =
          precedence combinedName maps overrides name) ↔
    ∀ name, lastValue name overrides = none → Settled combinedName maps name := by
  have hkeyed : ∀ m ∈ maps, Keyed m := by
    intro m hm
    obtain ⟨st, -, hst⟩ := Simulation.mem_of_mapM_eq_ok hmaps hm
    exact keyed_parameterMapFrom hst
  constructor
  · rintro ⟨-, h⟩ name hname earlier m later rfl hlater ⟨v, w, hv, hw, hne⟩
    have horders : Orders (earlier ++ m :: later) (earlier ++ wildcardLast m :: later) :=
      List.rel_append (orders_refl earlier) (.cons (wildcardLast_perm m) (orders_refl later))
    have hvalue := h _ horders name
    rw [parameterOverrides_getElem?, lastValue_of_conflict hkeyed hlater hw] at hvalue
    unfold precedence at hvalue
    rw [hname, Option.none_or, Option.none_or, filesValue_append, filesValue,
      filesValue_eq_none.mpr hlater] at hvalue
    unfold fileValue at hvalue
    rw [hv] at hvalue
    exact hne (Option.some.inj hvalue).symm
  · intro h
    have hvalue : ∀ orders, Orders maps orders → ∀ name,
        (parameterOverrides combinedName orders overrides)[name]? =
          precedence combinedName maps overrides name := by
      intro orders horders name
      rw [parameterOverrides_getElem?]
      unfold precedence
      cases hname : lastValue name overrides with
      | some v => rfl
      | none => rw [lastValue_of_settled horders hkeyed (h name hname)]
    refine ⟨fun orders orders' ho ho' => ?_, hvalue⟩
    apply ExtTreeMap.ext_getElem?
    intro name
    rw [hvalue orders ho name, hvalue orders' ho' name]

/-- `/**: {ros__parameters: {b: 1}}` and `/n: {ros__parameters: {a: 2}}` -/
def apartFile : List (List Char × List Param) :=
  [("/**".toList, [⟨"b".toList, { integerValue := some 1 }⟩]),
    ("/n".toList, [⟨"a".toList, { integerValue := some 2 }⟩])]

def apartMap : ParameterMap := [("/**", [⟨"b", .ofInt 1⟩]), ("/n", [⟨"a", .ofInt 2⟩])]

/-- sections that give different parameters -/
theorem overrides_precedence_apart :
    (∀ orders orders', Orders [apartMap] orders → Orders [apartMap] orders' →
        parameterOverrides "/n" orders [⟨"c", .ofInt 3⟩] =
          parameterOverrides "/n" orders' [⟨"c", .ofInt 3⟩]) ∧
      ∀ orders, Orders [apartMap] orders → ∀ name,
        (parameterOverrides "/n" orders [⟨"c", .ofInt 3⟩])[name]? =
          precedence "/n" [apartMap] [⟨"c", .ofInt 3⟩] name := by
  have hmaps : [apartFile].mapM parameterMapFrom = .ok [apartMap] := rfl
  refine (overrides_precedence_iff hmaps "/n" _).mpr fun name _ earlier m later heq _ hc => ?_
  obtain ⟨v, w, hv, hw, -⟩ := hc
  obtain rfl : apartMap = m := by
    cases earlier with
    | nil => exact (List.cons.inj heq).1
    | cons m' earlier =>
      have hlen := congrArg List.length heq
      simp at hlen
  obtain ⟨p, hp, -⟩ := Option.map_eq_some_iff.mp hv
  obtain ⟨q, hq, -⟩ := Option.map_eq_some_iff.mp hw
  obtain ⟨hpm, hpn⟩ := lastBy_some hp
  obtain ⟨hqm, hqn⟩ := lastBy_some hq
  have hpa : p = ⟨"a", .ofInt 2⟩ := List.mem_singleton.mp hpm
  have hqb : q = ⟨"b", .ofInt 1⟩ := List.mem_singleton.mp hqm
  rw [hpa] at hpn
  rw [hqb, ← hpn] at hqn
  revert hqn
  decide

/-- `/**: {ros__parameters: {a: 1}}` and `/n: {ros__parameters: {a: 2}}` in one file: visited last,
the wildcard wins over the section of the node, and another order gives another value -/
theorem wildcard_may_win :
    parameterMapFrom [("/**".toList, [⟨"a".toList, { integerValue := some 1 }⟩]),
      ("/n".toList, [⟨"a".toList, { integerValue := some 2 }⟩])] =
        .ok [("/**", [⟨"a", .ofInt 1⟩]), ("/n", [⟨"a", .ofInt 2⟩])] ∧
    ∃ orders orders',
      Orders [[("/**", [⟨"a", .ofInt 1⟩]), ("/n", [⟨"a", .ofInt 2⟩])]] orders ∧
      Orders [[("/**", [⟨"a", .ofInt 1⟩]), ("/n", [⟨"a", .ofInt 2⟩])]] orders' ∧
      (parameterOverrides "/n" orders [])["a"]? = some (.ofInt 1) ∧
      (parameterOverrides "/n" orders' [])["a"]? = some (.ofInt 2) ∧
      precedence "/n" [[("/**", [⟨"a", .ofInt 1⟩]), ("/n", [⟨"a", .ofInt 2⟩])]] [] "a" =
        some (.ofInt 2) := by
  refine ⟨rfl, [[("/n", [⟨"a", .ofInt 2⟩]), ("/**", [⟨"a", .ofInt 1⟩])]], _,
    .cons (List.Perm.swap _ _ _) .nil, orders_refl _, ?_, ?_, ?_⟩
  · rw [parameterOverrides_getElem?]
    rfl
  · rw [parameterOverrides_getElem?]
    rfl
  · rfl

end PMROS2.Yaml
