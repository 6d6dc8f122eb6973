import PMROS2.Params.Store
import PMROS2.Lib.Writes

/-!
# What each loop of `set_parameters_atomically` does

One specification for each loop of the call, in terms of the map before the call and of the list
the caller gave:

* `scanParameters_ok_iff`   the scan lets a list through when every name is admitted;
* `stageDeclarations_eq`    the staging map holds the last value of every undeclared name;
* `parametersToBeSet_eq`    the list that is set is `handedOver m ps`;
* `checkParameters_fst`, `checkParameters_snd_eq_iff`   the range check, and when it leaves the
                            live map as it was;
* `setAll_getElem?`         the last value of a name is the one that is stored;
* `undeclareAll_fst`, `mem_undeclareAll_snd`   the loop that erases.
-/

namespace PMROS2.Params
open Std PMROS2.Writes

abbrev lastOf (a : String) (ps : List Parameter) : Option Parameter := lastBy Parameter.name a ps

theorem lastOf_cons (a : String) (p : Parameter) (ps : List Parameter) :
    lastOf a (p :: ps) = (lastOf a ps).or (if p.name = a then some p else none) := rfl

/-! ## the scan -/

/-- the scan lets the parameter through -/
def Admitted (allowUndeclared : Bool) (m : ParameterMap) (p : Parameter) : Prop :=
  p.name ≠ "" ∧
    match m[p.name]? with
    | none => allowUndeclared = true
    | some info => info.descriptor.readOnly = false

instance (allowUndeclared : Bool) (m : ParameterMap) (p : Parameter) :
    Decidable (Admitted allowUndeclared m p) := by
  unfold Admitted
  cases m[p.name]? <;> exact inferInstance

def undeclared (m : ParameterMap) (p : Parameter) : Bool := m[p.name]?.isNone

theorem undeclared_eq_true (m : ParameterMap) (p : Parameter) :
    undeclared m p = true ↔ m[p.name]? = none := Option.isNone_iff_eq_none

theorem undeclared_eq_false (m : ParameterMap) (p : Parameter) :
    undeclared m p = false ↔ m[p.name]? ≠ none := by
  rw [← Bool.not_eq_true, undeclared_eq_true]

/-- leaving the scan early is never a success -/
theorem scanParameters_error (allow : Bool) (m : ParameterMap) (ps : List Parameter)
    (out : Except Exception SetParametersResult) (h : scanParameters allow m ps = .error out) :
    ∀ r, out = .ok r → r.successful = false := by
  induction ps with
  | nil => cases h
  | cons p ps ih =>
    unfold scanParameters at h
    split at h
    · cases h; intro r hr; cases hr
    · split at h
      · split at h
        · cases hs : scanParameters allow m ps with
          | ok d => rw [hs] at h; cases h
          | error out' => rw [hs] at h; cases h; exact ih hs
        · cases h; intro r hr; cases hr
      · split at h
        · cases h; intro r hr; cases hr; rfl
        · exact ih h

theorem scanParameters_of_admitted (allow : Bool) (m : ParameterMap) (ps : List Parameter)
    (h : ∀ p ∈ ps, Admitted allow m p) :
    scanParameters allow m ps = .ok (ps.filter (undeclared m)) := by
  induction ps with
  | nil => rfl
  | cons p ps ih =>
    obtain ⟨⟨hname, hp⟩, hps⟩ := List.forall_mem_cons.mp h
    unfold scanParameters
    rw [if_neg hname]
    cases hm : m[p.name]? with
    | none =>
      rw [hm] at hp
      simp only at hp ⊢
      rw [if_pos hp, ih hps, List.filter_cons_of_pos ((undeclared_eq_true m p).mpr hm)]
      rfl
    | some info =>
      rw [hm] at hp
      simp only at hp ⊢
      rw [if_neg (by simp [hp]), ih hps, List.filter_cons_of_neg (by simp [undeclared, hm])]

theorem admitted_of_scanParameters (allow : Bool) (m : ParameterMap) (ps d : List Parameter)
    (h : scanParameters allow m ps = .ok d) : ∀ p ∈ ps, Admitted allow m p := by
  induction ps generalizing d with
  | nil => intro p hp; cases hp
  | cons p ps ih =>
    unfold scanParameters at h
    split at h
    · cases h
    · rename_i hname
      rw [List.forall_mem_cons]
      cases hm : m[p.name]? with
      | none =>
        rw [hm] at h
        cases hs : scanParameters allow m ps with
        | error out => rw [hs] at h; cases allow <;> cases h
        | ok d' =>
          refine ⟨⟨hname, ?_⟩, ih d' hs⟩
          rw [hm]
          cases allow with
          | true => rfl
          | false => cases h
      | some info =>
        rw [hm] at h
        cases hr : info.descriptor.readOnly with
        | true => simp only [hr, if_true] at h; cases h
        | false =>
          refine ⟨⟨hname, by rw [hm]; exact hr⟩, ih d ?_⟩
          simpa only [hr, Bool.false_eq_true, if_false] using h

theorem scanParameters_ok_iff (allow : Bool) (m : ParameterMap) (ps d : List Parameter) :
    scanParameters allow m ps = .ok d ↔
      (∀ p ∈ ps, Admitted allow m p) ∧ d = ps.filter (undeclared m) := by
  constructor
  · intro h
    have hadm := admitted_of_scanParameters allow m ps d h
    rw [scanParameters_of_admitted allow m ps hadm] at h
    exact ⟨hadm, (Except.ok.inj h).symm⟩
  · rintro ⟨hadm, rfl⟩
    exact scanParameters_of_admitted allow m ps hadm

/-! ## the staging map -/

/-- the entry a name has after its value was set: the old descriptor with the new name and type -/
def newInfo (m : ParameterMap) (p : Parameter) : ParameterInfo :=
  { value := p.value
    descriptor := { (entry m p.name).descriptor with name := p.name, type := p.getType } }

def implicitInfo (p : Parameter) : ParameterInfo :=
  { value := p.value, descriptor := { name := p.name, type := p.getType } }

theorem entry_eq (m : ParameterMap) (a : String) : entry m a = (m[a]?).getD {} :=
  ExtTreeMap.getD_eq_getD_getElem? ..

theorem newInfo_of_undeclared (m : ParameterMap) (p : Parameter) (h : m[p.name]? = none) :
    newInfo m p = implicitInfo p := by
  unfold newInfo implicitInfo
  rw [entry_eq, h]
  rfl

/-- an implicit declaration has no override, no callback and no range, so it succeeds -/
theorem declareParameterCommon_implicit (p : Parameter) (staged : ParameterMap)
    (overrides : ExtTreeMap String ParameterValue) (event : ParameterEvent) :
    declareParameterCommon p.name p.value {} staged overrides none event false =
      .ok ({ successful := true }, staged.insert p.name (implicitInfo p),
        { event with newParameters := event.newParameters ++ [p] }) := by
  have hentry : entry ((∅ : ParameterMap).insert p.name {}) p.name = {} := by
    rw [entry_eq, getElem?_insert_if, if_pos rfl]
    rfl
  have hsub : subscript ((∅ : ParameterMap).insert p.name {}) p.name
      = (∅ : ParameterMap).insert p.name {} := by
    unfold subscript
    rw [if_pos (by simp)]
  have hset : entry (setAll ((∅ : ParameterMap).insert p.name {}) [p]) p.name = implicitInfo p := by
    rw [entry_eq]
    unfold setAll setOne
    rw [List.foldl_cons, List.foldl_nil, getElem?_insert_if, if_pos rfl, hentry]
    rfl
  unfold declareParameterCommon
  cases overrides[p.name]? <;>
    simp [setParametersAtomicallyCommon, callOnSet, checkParameters, hentry, hsub, hset,
      checkParameterValueInRange_default]

theorem stageDeclarations_eq (overrides : ExtTreeMap String ParameterValue) (ps : List Parameter)
    (staged : ParameterMap) (event : ParameterEvent) :
    stageDeclarations overrides ps staged event =
      .ok (ps.foldl (fun m p => m.insert p.name (implicitInfo p)) staged,
        { event with newParameters := event.newParameters ++ ps }) := by
  induction ps generalizing staged event with
  | nil => unfold stageDeclarations; rw [List.append_nil]; rfl
  | cons p ps ih =>
    unfold stageDeclarations
    rw [declareParameterCommon_implicit]
    simp only [if_true]
    rw [ih, List.append_assoc]
    rfl

/-- the staging map after the second loop -/
def stagedFor (m : ParameterMap) (ps : List Parameter) : ParameterMap :=
  (ps.filter (undeclared m)).foldl (fun s p => s.insert p.name (implicitInfo p)) ∅

theorem stagedFor_getElem? (m : ParameterMap) (ps : List Parameter) (a : String) :
    (stagedFor m ps)[a]? = if m[a]? = none then (lastOf a ps).map implicitInfo else none := by
  unfold stagedFor
  rw [getElem?_foldl_insert Parameter.name, ExtTreeMap.getElem?_empty, Option.or_none]
  by_cases hm : m[a]? = none
  · rw [if_pos hm, lastBy_filter]
    rintro p _ rfl
    exact (undeclared_eq_true m p).mpr hm
  · rw [if_neg hm, lastBy_filter_none, Option.map_none]
    rintro p _ rfl
    exact (undeclared_eq_false m p).mpr hm

/-! ## the list that is set -/

/-- for each name that `f` knows, its first parameter gets the value `f` gives -/
def assignFirsts (f : String → Option ParameterValue) : List Parameter → List Parameter
  | [] => []
  | p :: ps =>
    (match f p.name with
      | some v => ⟨p.name, v⟩
      | none => p) :: assignFirsts (Function.update f p.name none) ps

/-- the last value of a name that is not declared -/
def lastUndeclared (m : ParameterMap) (ps : List Parameter) (a : String) : Option ParameterValue :=
  if m[a]? = none then (lastOf a ps).map Parameter.value else none

/-- the list handed to the callback: the given one, unless the first and the last value of some
undeclared name differ (as messages); then its copy in which the first parameter of every
undeclared name has the last value -/
def handedOver (m : ParameterMap) (ps : List Parameter) : List Parameter :=
  if ∃ p ∈ ps, ∃ v, lastUndeclared m ps p.name = some v ∧
      ∃ q, findParameterByName ps p.name = some q ∧ (q.value != v) = true
  then assignFirsts (lastUndeclared m ps) ps else ps

theorem assignFirsts_none (ps : List Parameter) : assignFirsts (fun _ => none) ps = ps := by
  induction ps with
  | nil => rfl
  | cons p ps ih =>
    unfold assignFirsts
    rw [Function.update_eq_self_iff.mpr rfl, ih]

/-- assigning to one more name -/
theorem assignFirst_assignFirsts (k : String) (v : ParameterValue) (ps : List Parameter)
    (f : String → Option ParameterValue) (hf : f k = none) :
    assignFirst k v (assignFirsts f ps) = assignFirsts (Function.update f k (some v)) ps := by
  induction ps generalizing f with
  | nil => rfl
  | cons p ps ih =>
    unfold assignFirsts assignFirst
    by_cases hp : p.name = k
    · subst hp
      rw [hf, if_pos rfl, Function.update_self, Function.update_idem]
    · have hname : (match f p.name with
          | some v => (⟨p.name, v⟩ : Parameter)
          | none => p).name = p.name := by cases f p.name <;> rfl
      rw [if_neg (by rw [hname]; exact hp), Function.update_of_ne hp,
        Function.update_comm (Ne.symm hp),
        ih (Function.update f p.name none) (by rw [Function.update_of_ne (Ne.symm hp), hf])]

theorem foldl_assignFirst (ws : List (String × ParameterInfo)) (ps : List Parameter)
    (f : String → Option ParameterValue) (hf : ∀ w ∈ ws, f w.1 = none)
    (hws : ws.Pairwise fun a b => a.1 ≠ b.1) :
    ws.foldl (fun ps kv => assignFirst kv.1 kv.2.value ps) (assignFirsts f ps) =
      assignFirsts (ws.foldl (fun f kv => Function.update f kv.1 (some kv.2.value)) f) ps := by
  induction ws generalizing f with
  | nil => rfl
  | cons w ws ih =>
    obtain ⟨hw, hws'⟩ := List.pairwise_cons.mp hws
    rw [List.foldl_cons, List.foldl_cons,
      assignFirst_assignFirsts _ _ _ _ (hf w (List.mem_cons_self ..))]
    refine ih _ (fun u hu => ?_) hws'
    rw [Function.update_of_ne (Ne.symm (hw u hu))]
    exact hf u (List.mem_cons_of_mem _ hu)

theorem foldl_update (ws : List (String × ParameterInfo)) (f : String → Option ParameterValue)
    (a : String) :
    (ws.foldl (fun (f : String → Option ParameterValue) kv =>
      Function.update f kv.1 (some kv.2.value)) f) a =
      ((lastBy Prod.fst a ws).map fun kv => kv.2.value).or (f a) := by
  induction ws generalizing f with
  | nil => rfl
  | cons w ws ih =>
    rw [List.foldl_cons, ih, lastBy_cons]
    by_cases hw : w.1 = a
    · subst hw
      rw [if_pos rfl, Function.update_self]
      cases lastBy Prod.fst w.1 ws <;> rfl
    · rw [if_neg hw, Function.update_of_ne (Ne.symm hw), Option.or_none]

theorem stagedFor_value (m : ParameterMap) (ps : List Parameter) (a : String) :
    (stagedFor m ps)[a]?.map ParameterInfo.value = lastUndeclared m ps a := by
  rw [stagedFor_getElem?]
  unfold lastUndeclared
  split
  · rw [Option.map_map]; rfl
  · rfl

theorem copyStagedValues_eq (m : ParameterMap) (ps : List Parameter) :
    copyStagedValues (stagedFor m ps) ps = assignFirsts (lastUndeclared m ps) ps := by
  have hkeys : (stagedFor m ps).toList.Pairwise fun a b => a.1 ≠ b.1 :=
    ExtTreeMap.distinct_keys_toList.imp fun h e => h (Std.compare_eq_iff_eq.mpr e)
  have h := foldl_assignFirst (stagedFor m ps).toList ps (fun _ => none) (fun _ _ => rfl) hkeys
  rw [assignFirsts_none] at h
  unfold copyStagedValues
  rw [h]
  congr 1
  funext a
  rw [foldl_update, lastBy_toList, Option.or_none, ← stagedFor_value]
  cases (stagedFor m ps)[a]? <;> rfl

theorem anyInitialValuesUsed_iff (m : ParameterMap) (ps : List Parameter) :
    anyInitialValuesUsed ps (stagedFor m ps) = true ↔
      ∃ p ∈ ps, ∃ v, lastUndeclared m ps p.name = some v ∧
        ∃ q, findParameterByName ps p.name = some q ∧ (q.value != v) = true := by
  unfold anyInitialValuesUsed
  rw [List.any_eq_true]
  constructor
  · rintro ⟨⟨a, info⟩, hmem, h⟩
    rw [ExtTreeMap.mem_toList_iff_getElem?_eq_some] at hmem
    cases hq : findParameterByName ps a with
    | none => simp only [hq] at h; cases h
    | some q =>
      simp only [hq] at h
      have hqa : q.name = a := by simpa using List.find?_some hq
      refine ⟨q, List.mem_of_find?_eq_some hq, info.value, ?_, q, ?_, h⟩
      · rw [← stagedFor_value, hqa, hmem]; rfl
      · rw [hqa]; exact hq
  · rintro ⟨p, hp, v, hv, q, hq, h⟩
    rw [← stagedFor_value, Option.map_eq_some_iff] at hv
    obtain ⟨info, hinfo, rfl⟩ := hv
    refine ⟨(p.name, info), ExtTreeMap.mem_toList_iff_getElem?_eq_some.mpr hinfo, ?_⟩
    simp only [hq]
    exact h

theorem parametersToBeSet_eq (m : ParameterMap) (ps : List Parameter) :
    parametersToBeSet (stagedFor m ps) ps = handedOver m ps := by
  unfold parametersToBeSet handedOver
  simp only [anyInitialValuesUsed_iff]
  rw [copyStagedValues_eq]

/-! the copy agrees with the given list in its last values and its declared part -/

section
variable {f : String → Option ParameterValue}

theorem lastOf_assignFirsts (ps : List Parameter)
    (hf : ∀ a v, f a = some v → (lastOf a ps).map Parameter.value = some v) (a : String) :
    lastOf a (assignFirsts f ps) = lastOf a ps := by
  induction ps generalizing f with
  | nil => rfl
  | cons p ps ih =>
    have ih' := ih (f := Function.update f p.name none) fun b v hb => by
      by_cases hbp : b = p.name
      · rw [hbp, Function.update_self] at hb; cases hb
      · rw [Function.update_of_ne hbp] at hb
        have h := hf b v hb
        rwa [lastOf_cons, if_neg (Ne.symm hbp), Option.or_none] at h
    unfold assignFirsts
    rw [lastOf_cons, lastOf_cons, ih']
    cases hp : f p.name with
    | none => rfl
    | some v =>
      by_cases hpa : p.name = a
      · subst hpa
        -- the head is the last one, and then `f` gives its own value; or a later one counts
        cases hl : lastOf p.name ps with
        | some q => rfl
        | none =>
          have h := hf p.name v hp
          rw [lastOf_cons, hl] at h
          have hv : p.value = v := by simpa using h
          subst hv
          rfl
      · rw [if_neg hpa, if_neg hpa]

theorem ne_none_of_update (f : String → Option ParameterValue) (a b : String)
    (h : Function.update f a none b ≠ none) : f b ≠ none := by
  intro hb
  refine h ?_
  by_cases hba : b = a
  · rw [hba, Function.update_self]
  · rw [Function.update_of_ne hba, hb]

theorem filter_assignFirsts (c : Parameter → Bool) (ps : List Parameter)
    (hc : ∀ p, f p.name ≠ none → c p = false) :
    (assignFirsts f ps).filter c = ps.filter c := by
  induction ps generalizing f with
  | nil => rfl
  | cons p ps ih =>
    have ih' := ih fun q hq => hc q (ne_none_of_update f p.name q.name hq)
    unfold assignFirsts
    rw [List.filter_cons, List.filter_cons, ih']
    cases hp : f p.name with
    | none => rfl
    | some v =>
      have hne : f p.name ≠ none := by rw [hp]; exact Option.some_ne_none v
      have h1 : c p = false := hc p hne
      have h2 : c ⟨p.name, v⟩ = false := hc ⟨p.name, v⟩ hne
      simp only [h1, h2, Bool.false_eq_true, if_false]

/-- a test that all parameters of the assigned names pass stops both lists at the same place -/
theorem takeWhile_assignFirsts (c : Parameter → Bool) (ps : List Parameter)
    (hc : ∀ p, f p.name ≠ none → c p = true) :
    ((assignFirsts f ps).takeWhile c).map Parameter.name = (ps.takeWhile c).map Parameter.name := by
  induction ps generalizing f with
  | nil => rfl
  | cons p ps ih =>
    have ih' := ih fun q hq => hc q (ne_none_of_update f p.name q.name hq)
    unfold assignFirsts
    rw [List.takeWhile_cons, List.takeWhile_cons]
    cases hp : f p.name with
    | none =>
      cases c p with
      | true => exact congrArg (p.name :: ·) ih'
      | false => rfl
    | some v =>
      have hne : f p.name ≠ none := by rw [hp]; exact Option.some_ne_none v
      have h1 : c p = true := hc p hne
      have h2 : c ⟨p.name, v⟩ = true := hc ⟨p.name, v⟩ hne
      simp only [h1, h2, if_true]
      exact congrArg (p.name :: ·) ih'

end

theorem lastUndeclared_some (m : ParameterMap) (ps : List Parameter) (a : String)
    (v : ParameterValue) (h : lastUndeclared m ps a = some v) :
    m[a]? = none ∧ (lastOf a ps).map Parameter.value = some v := by
  unfold lastUndeclared at h
  split at h
  · exact ⟨‹_›, h⟩
  · cases h

theorem undeclared_of_lastUndeclared (m : ParameterMap) (ps : List Parameter) (p : Parameter)
    (h : lastUndeclared m ps p.name ≠ none) : undeclared m p = true := by
  obtain ⟨v, hv⟩ := Option.ne_none_iff_exists'.mp h
  exact (undeclared_eq_true m p).mpr (lastUndeclared_some m ps p.name v hv).1

theorem lastOf_handedOver (m : ParameterMap) (ps : List Parameter) (a : String) :
    lastOf a (handedOver m ps) = lastOf a ps := by
  unfold handedOver
  split
  · exact lastOf_assignFirsts ps (fun b v hb => (lastUndeclared_some m ps b v hb).2) a
  · rfl

theorem filter_handedOver (m : ParameterMap) (ps : List Parameter) (c : Parameter → Bool)
    (hc : ∀ p, undeclared m p = true → c p = false) : (handedOver m ps).filter c = ps.filter c := by
  unfold handedOver
  split
  · exact filter_assignFirsts c ps fun p hp => hc p (undeclared_of_lastUndeclared m ps p hp)
  · rfl

theorem takeWhile_handedOver (m : ParameterMap) (ps : List Parameter) (c : Parameter → Bool)
    (hc : ∀ p, undeclared m p = true → c p = true) :
    ((handedOver m ps).takeWhile c).map Parameter.name = (ps.takeWhile c).map Parameter.name := by
  unfold handedOver
  split
  · exact takeWhile_assignFirsts c ps fun p hp => hc p (undeclared_of_lastUndeclared m ps p hp)
  · rfl

/-! ## the range check -/

/-- the value passes the range check of the descriptor stored for the name -/
def inRange (m : ParameterMap) (p : Parameter) : Bool :=
  (checkParameterValueInRange (entry m p.name).descriptor p.value).successful

theorem inRange_of_undeclared (m : ParameterMap) (p : Parameter) (h : undeclared m p = true) :
    inRange m p = true := by
  unfold inRange
  rw [entry_eq, (undeclared_eq_true m p).mp h]
  rfl

theorem subscript_getElem? (m : ParameterMap) (n a : String) :
    (subscript m n)[a]? = if n = a then some (entry m a) else m[a]? := by
  unfold subscript
  rw [entry_eq]
  by_cases hn : m.contains n
  · rw [if_pos hn]
    split
    · rename_i hna
      subst hna
      obtain ⟨info, hinfo⟩ := Option.isSome_iff_exists.mp
        (ExtTreeMap.isSome_getElem?_eq_contains.trans hn)
      rw [hinfo]
      rfl
    · rfl
  · rw [if_neg hn, getElem?_insert_if]
    split
    · rename_i hna
      subst hna
      rw [ExtTreeMap.getElem?_eq_none_of_contains_eq_false (Bool.eq_false_iff.mpr hn)]
      rfl
    · rfl

theorem entry_subscript (m : ParameterMap) (n a : String) :
    entry (subscript m n) a = entry m a := by
  rw [entry_eq, subscript_getElem?]
  split
  · rfl
  · exact (entry_eq m a).symm

theorem inRange_subscript (m : ParameterMap) (n : String) : inRange (subscript m n) = inRange m := by
  funext p
  unfold inRange
  rw [entry_subscript]

theorem checkParameters_cons (m : ParameterMap) (p : Parameter) (ps : List Parameter) :
    checkParameters m (p :: ps) =
      if inRange m p = true then checkParameters (subscript m p.name) ps
      else (checkParameterValueInRange (entry m p.name).descriptor p.value, subscript m p.name) :=
  rfl

theorem checkParameters_fst (m : ParameterMap) (ps : List Parameter) :
    (checkParameters m ps).1.successful = ps.all (inRange m) := by
  induction ps generalizing m with
  | nil => rfl
  | cons p ps ih =>
    rw [checkParameters_cons, List.all_cons]
    cases hp : inRange m p with
    | true => rw [if_pos rfl, ih, inRange_subscript, Bool.true_and]
    | false =>
      rw [if_neg Bool.false_ne_true, Bool.false_and]
      exact hp

/-- the check default-constructs an entry for every undeclared name it gets to; it stops at a
name that is declared, since only those have a range -/
theorem checkParameters_snd_getElem? (m : ParameterMap) (ps : List Parameter) (a : String) :
    (checkParameters m ps).2[a]? =
      if a ∈ (ps.takeWhile (inRange m)).map Parameter.name then some (entry m a) else m[a]? := by
  induction ps generalizing m with
  | nil => rfl
  | cons p ps ih =>
    rw [checkParameters_cons, List.takeWhile_cons]
    cases hp : inRange m p with
    | true =>
      rw [if_pos rfl, ih, inRange_subscript, entry_subscript, subscript_getElem?]
      by_cases hpa : p.name = a
      · simp [hpa]
      · simp [hpa, Ne.symm hpa]
    | false =>
      rw [if_neg Bool.false_ne_true, subscript_getElem?]
      simp only [Bool.false_eq_true, if_false, List.map_nil, List.not_mem_nil]
      split
      · rename_i hpa
        subst hpa
        cases hm : m[p.name]? with
        | none =>
          rw [inRange_of_undeclared m p ((undeclared_eq_true m p).mpr hm)] at hp
          cases hp
        | some info => rw [entry_eq, hm]; rfl
      · rfl

theorem entry_checkParameters_snd (m : ParameterMap) (ps : List Parameter) (a : String) :
    entry (checkParameters m ps).2 a = entry m a := by
  rw [entry_eq, checkParameters_snd_getElem?]
  split
  · rfl
  · exact (entry_eq m a).symm

theorem checkParameters_snd_eq_iff (m : ParameterMap) (ps : List Parameter) :
    (checkParameters m ps).2 = m ↔
      ∀ a ∈ (ps.takeWhile (inRange m)).map Parameter.name, m[a]? ≠ none := by
  constructor
  · intro h a ha hm
    have hl := checkParameters_snd_getElem? m ps a
    rw [h, if_pos ha, hm] at hl
    cases hl
  · intro h
    refine ExtTreeMap.ext_getElem? fun a => ?_
    rw [checkParameters_snd_getElem?]
    split
    · rename_i ha
      obtain ⟨info, hinfo⟩ := Option.ne_none_iff_exists'.mp (h a ha)
      rw [entry_eq, hinfo]
      rfl
    · rfl

/-! ## setting the values -/

theorem setAll_getElem? (m : ParameterMap) (ps : List Parameter) (a : String) :
    (setAll m ps)[a]? = ((lastOf a ps).map (newInfo m)).or m[a]? := by
  induction ps generalizing m with
  | nil => rfl
  | cons p ps ih =>
    have hset : (setOne m p)[a]? = if p.name = a then some (newInfo m p) else m[a]? :=
      getElem?_insert_if ..
    -- a second write to a name replaces the name and the type it wrote before
    have hnew : ∀ q, newInfo (setOne m p) q = newInfo m q := fun q => by
      have hq : (setOne m p)[q.name]? = if p.name = q.name then some (newInfo m p) else m[q.name]? :=
        getElem?_insert_if ..
      unfold newInfo
      rw [entry_eq, hq, entry_eq]
      split
      · rename_i hpq
        simp only [newInfo, Option.getD_some, entry_eq, hpq]
      · rfl
    rw [show setAll m (p :: ps) = setAll (setOne m p) ps from rfl, ih, hset, lastOf_cons,
      show newInfo (setOne m p) = newInfo m from funext hnew]
    split
    · cases lastOf a ps <;> rfl
    · rw [Option.or_none]

/-- after a check that passed, setting gives the last value of every name of the list -/
theorem setAll_checkParameters_getElem? (m : ParameterMap) (ps : List Parameter) (a : String)
    (h : ps.all (inRange m) = true) :
    (setAll (checkParameters m ps).2 ps)[a]? = ((lastOf a ps).map (newInfo m)).or m[a]? := by
  have hnew : newInfo (checkParameters m ps).2 = newInfo m := by
    funext q
    unfold newInfo
    rw [entry_checkParameters_snd]
  have htake : ps.takeWhile (inRange m) = ps :=
    List.takeWhile_eq_self_iff.mpr (List.all_eq_true.mp h)
  rw [setAll_getElem?, hnew, checkParameters_snd_getElem?, htake]
  cases hl : lastOf a ps with
  | some p => rfl
  | none =>
    have ha : a ∉ ps.map Parameter.name := by
      rw [List.mem_map]
      rintro ⟨p, hp, hpa⟩
      exact lastBy_eq_none.mp hl p hp hpa
    rw [if_neg ha]

/-! ## undeclaring -/

theorem undeclareAll_fst (ps : List Parameter) (m : ParameterMap) (d : List Parameter) :
    (undeclareAll ps m d).1 = ps.foldl (fun m p => m.erase p.name) m := by
  induction ps generalizing m d with
  | nil => rfl
  | cons p ps ih =>
    unfold undeclareAll
    rw [List.foldl_cons]
    cases hm : m[p.name]? with
    | some info => exact ih ..
    | none =>
      have herase : m.erase p.name = m := ExtTreeMap.ext_getElem? fun a => by
        rw [getElem?_erase_if]
        split
        · rename_i hpa; rw [← hpa, hm]
        · rfl
      rw [herase]
      exact ih ..

theorem mem_undeclareAll_snd (ps : List Parameter) (m : ParameterMap) (d : List Parameter)
    (a : String) :
    a ∈ (undeclareAll ps m d).2.map Parameter.name ↔
      a ∈ d.map Parameter.name ∨ a ∈ ps.map Parameter.name ∧ m[a]? ≠ none := by
  induction ps generalizing m d with
  | nil => simp [undeclareAll]
  | cons p ps ih =>
    unfold undeclareAll
    cases hm : m[p.name]? with
    | some info =>
      simp only [ih, getElem?_erase_if, List.map_append, List.map_cons, List.map_nil,
        List.mem_append, List.mem_cons, List.not_mem_nil, or_false]
      by_cases hpa : p.name = a
      · subst hpa; simp [hm]
      · simp [hpa, Ne.symm hpa]
    | none =>
      simp only [ih, List.map_cons, List.mem_cons]
      by_cases hpa : p.name = a
      · subst hpa; simp [hm]
      · simp [Ne.symm hpa]

end PMROS2.Params
