import PMROS2.Params.Invariant

/-!
# Declarations that fail

`__declare_parameter_common` puts the entry into the map it is given, whatever the check of the
initial value said.  `declare_parameter` gives it the map of the node itself, and throws behind
it.

* `TurnedDown`                     the declarations that leave an entry and throw;
* `failed_declare_unchanged_iff`   every other one that throws leaves the map as it was.
-/

namespace PMROS2.Params
open Std PMROS2.Writes

section
variable (node : NodeParameters) (name : String) (defaultValue : ParameterValue)
  (descriptor : ParameterDescriptor)

/-- the override of that name, or the default -/
def NodeParameters.initialValue : ParameterValue :=
  (node.parameterOverrides[name]?).getD defaultValue

/-- the name is new, and its initial value is turned down by the callback, which returns, or by
the range of the descriptor -/
structure TurnedDown : Prop where
  nonempty : name ≠ ""
  isNew : node.parameters.contains name = false
  refused : ∃ r, callOnSet node.onParametersSetCallback
      [⟨name, node.initialValue name defaultValue⟩] = .ok r ∧
    (r.successful = true →
      (checkParameterValueInRange descriptor (node.initialValue name defaultValue)).successful =
        false)

/-! ## the common part -/

theorem declareParameterCommon_eq (m : ParameterMap) (cb : Option OnParametersSetCallback)
    (event : ParameterEvent) :
    declareParameterCommon name defaultValue descriptor m node.parameterOverrides cb event true =
      match setParametersAtomicallyCommon [⟨name, node.initialValue name defaultValue⟩]
          ((∅ : ParameterMap).insert name { descriptor := descriptor }) cb with
      | (.error e, _) => .error e
      | (.ok result, infos) =>
        .ok (result, m.insert name (entry infos name),
          { event with newParameters :=
              event.newParameters ++ [⟨name, node.initialValue name defaultValue⟩] }) := by
  unfold declareParameterCommon NodeParameters.initialValue
  cases node.parameterOverrides[name]? with
  | none => rfl
  | some v => rfl

/-- the range that is checked is the one of the descriptor that is given -/
theorem inRange_declared (v : ParameterValue) :
    [(⟨name, v⟩ : Parameter)].all
        (inRange ((∅ : ParameterMap).insert name { descriptor := descriptor })) =
      (checkParameterValueInRange descriptor v).successful := by
  rw [List.all_cons, List.all_nil, Bool.and_true]
  unfold inRange
  rw [entry_eq, getElem?_insert_if, if_pos rfl]
  rfl

theorem declareParameterCommon_throws {m : ParameterMap} {cb : Option OnParametersSetCallback}
    (event : ParameterEvent) {e : Exception}
    (h : callOnSet cb [⟨name, node.initialValue name defaultValue⟩] = .error e) :
    declareParameterCommon name defaultValue descriptor m node.parameterOverrides cb event true =
      .error e := by
  rw [declareParameterCommon_eq]
  unfold setParametersAtomicallyCommon
  rw [h]

/-- a callback that returns: the entry is stored, and the result says whether it was to be -/
theorem declareParameterCommon_stores {m : ParameterMap} {cb : Option OnParametersSetCallback}
    (event : ParameterEvent) {r : SetParametersResult}
    (h : callOnSet cb [⟨name, node.initialValue name defaultValue⟩] = .ok r) :
    ∃ r' info event',
      declareParameterCommon name defaultValue descriptor m node.parameterOverrides cb event true =
        .ok (r', m.insert name info, event') ∧
      (r'.successful = true ↔ r.successful = true ∧
        (checkParameterValueInRange descriptor (node.initialValue name defaultValue)).successful =
          true) := by
  rw [declareParameterCommon_eq]
  cases hr : r.successful with
  | false =>
    have hcb : callbackAccepts cb [⟨name, node.initialValue name defaultValue⟩] = false := by
      unfold callbackAccepts
      rw [h]
      exact hr
    obtain ⟨out, hout, hfalse⟩ := common_of_rejected
      ((∅ : ParameterMap).insert name { descriptor := descriptor }) cb _ hcb
    rw [hout]
    cases out with
    | error e =>
      -- the callback has not thrown
      unfold setParametersAtomicallyCommon at hout
      rw [h] at hout
      simp [hr] at hout
    | ok r' =>
      refine ⟨r', _, _, rfl, ?_⟩
      rw [hfalse r' rfl]
      simp
  | true =>
    have hcb : callbackAccepts cb [⟨name, node.initialValue name defaultValue⟩] = true := by
      unfold callbackAccepts
      rw [h]
      exact hr
    rw [common_of_accepted _ _ _ hcb]
    refine ⟨_, _, _, rfl, ?_⟩
    rw [checkParameters_fst, inRange_declared]
    simp

/-! ## the call -/

theorem declareParameter_of_turnedDown (h : TurnedDown node name defaultValue descriptor) :
    (∃ e, (node.declareParameter name defaultValue descriptor).result = .error e) ∧
      (node.declareParameter name defaultValue descriptor).parameters.contains name = true := by
  obtain ⟨r, hcb, hr⟩ := h.refused
  obtain ⟨r', info, event', hcommon, hsuccess⟩ := declareParameterCommon_stores node name
    defaultValue descriptor (m := node.parameters) {} hcb
  have hfalse : ¬ r'.successful = true := by
    intro ht
    obtain ⟨hrt, hc⟩ := hsuccess.mp ht
    rw [hr hrt] at hc
    cases hc
  unfold NodeParameters.declareParameter locklessHasParameter
  rw [if_neg h.nonempty, h.isNew, if_neg Bool.false_ne_true, hcommon]
  simp only
  rw [if_neg hfalse]
  exact ⟨⟨_, rfl⟩, by simp⟩

theorem declareParameter_of_not_turnedDown (h : ¬ TurnedDown node name defaultValue descriptor)
    {e : Exception} (he : (node.declareParameter name defaultValue descriptor).result = .error e) :
    (node.declareParameter name defaultValue descriptor).parameters = node.parameters := by
  unfold NodeParameters.declareParameter locklessHasParameter at *
  by_cases hname : name = ""
  · rw [if_pos hname]
  rw [if_neg hname] at he ⊢
  cases hnew : node.parameters.contains name with
  | true => rw [if_pos rfl]
  | false =>
    rw [hnew, if_neg Bool.false_ne_true] at he
    rw [if_neg Bool.false_ne_true]
    cases hcb : callOnSet node.onParametersSetCallback
        [⟨name, node.initialValue name defaultValue⟩] with
    | error e' => rw [declareParameterCommon_throws node name defaultValue descriptor {} hcb]
    | ok r =>
      -- it does not throw: the callback accepts and the value is in the range
      obtain ⟨r', info, event', hcommon, hsuccess⟩ := declareParameterCommon_stores node name
        defaultValue descriptor (m := node.parameters) {} hcb
      have ht : r'.successful = true := by
        rw [hsuccess]
        by_contra hn
        refine h ⟨hname, hnew, r, hcb, fun hr => ?_⟩
        rw [Bool.eq_false_iff]
        exact fun hc => hn ⟨hr, hc⟩
      rw [hcommon] at he
      simp only [ht, if_true, Except.map, publishEvent_ok] at he
      cases he

/-- **A declaration that throws** leaves the map of the node as it was, unless it is one whose
initial value is turned down: for every store, name, default, descriptor, overrides and
callback. -/
theorem failed_declare_unchanged_iff :
    (∀ e, (node.declareParameter name defaultValue descriptor).result = .error e →
      (node.declareParameter name defaultValue descriptor).parameters = node.parameters) ↔
    ¬ TurnedDown node name defaultValue descriptor := by
  refine ⟨fun h hdown => ?_, fun h e he => ?_⟩
  · obtain ⟨⟨e, he⟩, hcontains⟩ := declareParameter_of_turnedDown _ _ _ _ hdown
    rw [h e he, hdown.isNew] at hcontains
    cases hcontains
  · exact declareParameter_of_not_turnedDown _ _ _ _ h he

end

/-- 11 is above the range from 0 to 10: the call throws, and the name is declared -/
theorem out_of_range_stays_declared :
    ∃ e, (NodeParameters.declareParameter {} "a" (.ofInt 11)
        { integerRange := [⟨0, 10, 1⟩] }).result = .error e ∧
      (NodeParameters.declareParameter {} "a" (.ofInt 11)
        { integerRange := [⟨0, 10, 1⟩] }).parameters ≠ ({} : NodeParameters).parameters := by
  refine ⟨.invalidParameterValue
    "parameter 'a' could not be set: Parameter \x7b\x7d doesn't comply with integer range.",
    by decide, fun h => ?_⟩
  have hget := congrArg (fun m : ParameterMap => m.contains "a") h
  revert hget
  decide

end PMROS2.Params
