import PMROS2.Lib.Checked
import PMROS2.Params.Atomic

/-!
# What every run of the store keeps

The operations that write `parameters_` are `declare_parameter`, `undeclare_parameter`,
`set_parameters`, `set_parameters_atomically`; between them the user callback may be exchanged.

`Evolves` says once what any of them can do to the entry of a name, failed calls included: leave
it alone, or, when it is not read-only, drop it or replace it by an entry that complies with its
own range.  It is transitive, so it holds of whole runs, and both invariants follow from it.
-/

namespace PMROS2.Params
open Std PMROS2.Writes

/-! ## the integer range in mathematical integers -/

def IntegerRange.Complies (r : IntegerRange) (v : Int64) : Prop :=
  v.toInt = r.fromValue.toInt ∨ v.toInt = r.toValue.toInt ∨
    (r.fromValue.toInt ≤ v.toInt ∧ v.toInt ≤ r.toValue.toInt ∧
      (r.step.toNat = 0 ∨ (r.step.toNat : Int) ∣ v.toInt - r.fromValue.toInt))

/-- the difference wraps in `int64_t`, and the conversion to `uint64_t` undoes the wrap -/
theorem toNat_toUInt64_sub (v w : Int64) (h : w.toInt ≤ v.toInt) :
    ((v - w).toUInt64.toNat : Int) = v.toInt - w.toInt := by
  have hnat := Checked.toNat_toUInt64 (v - w)
  have hv := v.toInt_lt
  have hw := w.le_toInt
  have hsub : (v - w).toInt = (v.toInt - w.toInt).bmod (2 ^ 64 : Nat) := Int64.toInt_sub v w
  rw [hnat, hsub, Int.bmod_emod]
  omega

theorem integerInRange_iff (r : IntegerRange) (v : Int64) :
    integerInRange r v = true ↔ r.Complies v := by
  unfold integerInRange IntegerRange.Complies
  simp only [← Int64.toInt_inj, Int64.lt_iff_toInt_lt, gt_iff_lt]
  by_cases hends : v.toInt = r.fromValue.toInt ∨ v.toInt = r.toValue.toInt
  · rw [if_pos hends]
    exact ⟨fun _ => hends.elim .inl fun h => .inr (.inl h), fun _ => rfl⟩
  rw [if_neg hends]
  by_cases hout : v.toInt < r.fromValue.toInt ∨ r.toValue.toInt < v.toInt
  · rw [if_pos hout]
    refine ⟨fun h => ?_, fun h => ?_⟩
    · cases h
    · omega
  rw [if_neg hout]
  have hfrom : r.fromValue.toInt ≤ v.toInt := by omega
  have hto : v.toInt ≤ r.toValue.toInt := by omega
  have hzero : r.step = 0 ↔ r.step.toNat = 0 := by
    rw [← UInt64.toNat_inj]
    rfl
  have hmod : (v - r.fromValue).toUInt64 % r.step = 0 ↔
      (r.step.toNat : Int) ∣ v.toInt - r.fromValue.toInt := by
    rw [← UInt64.toNat_inj, UInt64.toNat_mod, ← toNat_toUInt64_sub v r.fromValue hfrom,
      Int.natCast_dvd_natCast, Nat.dvd_iff_mod_eq_zero]
    rfl
  by_cases hstep : r.step = 0
  · rw [if_pos hstep]
    exact ⟨fun _ => .inr (.inr ⟨hfrom, hto, .inl (hzero.mp hstep)⟩), fun _ => rfl⟩
  · rw [if_neg hstep, decide_eq_true_iff, hmod]
    constructor
    · intro h
      exact .inr (.inr ⟨hfrom, hto, .inr h⟩)
    · rintro (h | h | ⟨_, _, h | h⟩)
      · exact absurd (.inl h) hends
      · exact absurd (.inr h) hends
      · exact absurd (hzero.mpr h) hstep
      · exact h

/-- the value of the entry complies with the integer range of its own descriptor -/
def ParameterInfo.Complies (info : ParameterInfo) : Prop :=
  ∀ r rs, info.descriptor.integerRange = r :: rs → info.value.type = .integer →
    r.Complies info.value.integerValue

theorem ParameterInfo.complies_of_check (info : ParameterInfo)
    (h : (checkParameterValueInRange info.descriptor info.value).successful = true) :
    info.Complies := by
  intro r rs hr ht
  unfold checkParameterValueInRange at h
  rw [hr, ht] at h
  simp only at h
  rw [← integerInRange_iff]
  cases hin : integerInRange r info.value.integerValue with
  | true => rfl
  | false =>
    rw [hin] at h
    cases h

theorem complies_newInfo (m : ParameterMap) (p : Parameter) (h : inRange m p = true) :
    (newInfo m p).Complies := by
  intro r rs hr ht
  exact ParameterInfo.complies_of_check ⟨p.value, (entry m p.name).descriptor⟩ h r rs hr ht

theorem complies_of_notSet (info : ParameterInfo) (h : info.value.type = .notSet) :
    info.Complies := by
  intro r rs _ ht
  rw [h] at ht
  cases ht

/-! ## what a call can do to an entry -/

/-- an entry stays, or it is not read-only and is dropped or replaced by one that complies -/
def Evolves (m m' : ParameterMap) : Prop :=
  ∀ a : String, m'[a]? = m[a]? ∨
    ((∀ info : ParameterInfo, m[a]? = some info → info.descriptor.readOnly = false) ∧
      ∀ info : ParameterInfo, m'[a]? = some info → info.Complies)

theorem Evolves.refl (m : ParameterMap) : Evolves m m := fun _ => .inl rfl

theorem Evolves.trans {m m' m'' : ParameterMap} (h : Evolves m m') (h' : Evolves m' m'') :
    Evolves m m'' := by
  intro a
  rcases h a with heq | ⟨hro, hc⟩
  · rw [← heq]
    exact h' a
  · refine .inr ⟨hro, ?_⟩
    rcases h' a with heq' | ⟨_, hc'⟩
    · rw [heq']
      exact hc
    · exact hc'

/-- the default-constructed entries of the check are for undeclared names and have no range -/
theorem evolves_checkParameters (m : ParameterMap) (ps : List Parameter) :
    Evolves m (checkParameters m ps).2 := by
  intro a
  rw [checkParameters_snd_getElem?]
  split
  · cases hm : m[a]? with
    | none =>
      refine .inr ⟨fun info hinfo => (by cases hinfo), fun info hinfo => ?_⟩
      rw [entry_eq, hm] at hinfo
      obtain rfl := Option.some.inj hinfo
      exact complies_of_notSet _ rfl
    | some info =>
      rw [entry_eq, hm]
      exact .inl rfl
  · exact .inl rfl

section
variable (node : NodeParameters)

theorem evolves_setParametersAtomically (ps : List Parameter) (publishing : Publishing) :
    Evolves node.parameters (node.setParametersAtomically ps publishing).parameters := by
  by_cases hadm : AllAdmitted node ps
  case neg =>
    rw [(setParametersAtomically_of_not_admitted node ps publishing hadm).2]
    exact .refl _
  cases hcb : callbackAccepts node.onParametersSetCallback (handedOver node.parameters ps) with
  | false =>
    rw [(setParametersAtomically_of_rejected node ps publishing hadm hcb).2]
    exact .refl _
  | true =>
    cases hr : ps.all (inRange node.parameters) with
    | false =>
      rw [(setParametersAtomically_of_outOfRange node ps publishing hadm hcb hr).2]
      exact evolves_checkParameters _ _
    | true =>
      -- the names of the list are admitted, so none of them is read-only
      have hro : ∀ p ∈ ps, ∀ info, node.parameters[p.name]? = some info →
          info.descriptor.readOnly = false := by
        intro p hp info hinfo
        have h := (hadm p hp).2
        rw [hinfo] at h
        exact h
      intro a
      obtain ⟨hgone, hkept⟩ := setParametersAtomically_getElem? node ps publishing ⟨hadm, hcb, hr⟩ a
      by_cases hu : Unsets ps node.parameters a
      · obtain ⟨p, hp, rfl, _⟩ := hu.2
        refine .inr ⟨hro p hp, fun info hinfo => ?_⟩
        rw [hgone hu] at hinfo
        cases hinfo
      · rw [hkept hu]
        cases hl : lastOf a ps with
        | none => exact .inl rfl
        | some p =>
          obtain ⟨hp, rfl⟩ := lastBy_some hl
          refine .inr ⟨hro p hp, fun info hinfo => ?_⟩
          obtain rfl := Option.some.inj hinfo
          exact complies_newInfo _ p (List.all_eq_true.mp hr p hp)

/-- every round may start from what the rounds before it left, a throw ends the loop -/
theorem evolves_setParameters (ps : List (Parameter × Publishing)) :
    Evolves node.parameters (node.setParameters ps).parameters := by
  induction ps generalizing node with
  | nil => exact .refl _
  | cons p ps ih =>
    obtain ⟨p, publishing⟩ := p
    have hone := evolves_setParametersAtomically node [p] publishing
    unfold NodeParameters.setParameters
    simp only
    cases (node.setParametersAtomically [p] publishing).result with
    | error e => exact hone
    | ok r => exact hone.trans (ih { node with parameters := _ })

/-- the entry of a declaration, also of one that is turned down: then it has no value -/
theorem complies_setCommon_declared (name : String) (v : ParameterValue)
    (d : ParameterDescriptor) (cb : Option OnParametersSetCallback) :
    (entry (setParametersAtomicallyCommon [⟨name, v⟩]
      ((∅ : ParameterMap).insert name { descriptor := d }) cb).2 name).Complies := by
  have hentry : entry ((∅ : ParameterMap).insert name { descriptor := d }) name
      = { descriptor := d } := by
    rw [entry_eq, getElem?_insert_if, if_pos rfl]
    rfl
  cases hcb : callbackAccepts cb [⟨name, v⟩] with
  | false =>
    obtain ⟨out, hout, _⟩ := common_of_rejected ((∅ : ParameterMap).insert name { descriptor := d })
      _ _ hcb
    rw [hout, hentry]
    exact complies_of_notSet _ rfl
  | true =>
    rw [common_of_accepted _ _ _ hcb]
    simp only
    split
    · rename_i hr
      rw [entry_eq, setAll_checkParameters_getElem? _ _ _ hr]
      rw [show lastOf name [⟨name, v⟩] = some ⟨name, v⟩ by simp [lastBy]]
      exact complies_newInfo _ _ (List.all_eq_true.mp hr _ List.mem_cons_self)
    · rw [entry_checkParameters_snd, hentry]
      exact complies_of_notSet _ rfl

theorem declareParameterCommon_ok (name : String) (v : ParameterValue) (d : ParameterDescriptor)
    (m : ParameterMap) (overrides : ExtTreeMap String ParameterValue)
    (cb : Option OnParametersSetCallback) (event : ParameterEvent) (useOverrides : Bool)
    (out : SetParametersResult × ParameterMap × ParameterEvent)
    (h : declareParameterCommon name v d m overrides cb event useOverrides = .ok out) :
    ∃ info : ParameterInfo, info.Complies ∧ m.insert name info = out.2.1 := by
  unfold declareParameterCommon at h
  simp only at h
  split at h
  · cases h
  rename_i result infos hset
  obtain rfl := Except.ok.inj h
  have hinfos : _ = infos := congrArg Prod.snd hset
  refine ⟨entry infos name, ?_, rfl⟩
  rw [← hinfos]
  exact complies_setCommon_declared name _ d cb

theorem evolves_declareParameter (name : String) (v : ParameterValue) (d : ParameterDescriptor)
    (publish : Except Exception Unit) :
    Evolves node.parameters (node.declareParameter name v d publish).parameters := by
  unfold NodeParameters.declareParameter
  split
  · exact .refl _
  split
  · exact .refl _
  rename_i hnew
  have hnone : node.parameters[name]? = none :=
    ExtTreeMap.getElem?_eq_none_of_contains_eq_false (Bool.eq_false_iff.mpr hnew)
  split
  · exact .refl _
  rename_i result parameters event hcommon
  obtain ⟨info, hc, rfl⟩ := declareParameterCommon_ok _ _ _ _ _ _ _ _ _ hcommon
  have hevolves : Evolves node.parameters (node.parameters.insert name info) := by
    intro a
    rw [getElem?_insert_if]
    split
    · rename_i ha
      subst ha
      refine .inr ⟨fun info' hinfo => ?_, fun info' hinfo => ?_⟩
      · rw [hnone] at hinfo
        cases hinfo
      · obtain rfl := Option.some.inj hinfo
        exact hc
    · exact .inl rfl
  split
  · rw [publishEvent_parameters]
    exact hevolves
  · exact hevolves

theorem evolves_undeclareParameter (name : String) :
    Evolves node.parameters (node.undeclareParameter name).parameters := by
  unfold NodeParameters.undeclareParameter
  cases hm : node.parameters[name]? with
  | none => exact .refl _
  | some info =>
    simp only
    split
    · exact .refl _
    rename_i hro
    intro a
    simp only [getElem?_erase_if]
    split
    · rename_i ha
      subst ha
      refine .inr ⟨fun info' hinfo => ?_, fun info' hinfo => by cases hinfo⟩
      obtain rfl := Option.some.inj (hm.symm.trans hinfo)
      exact Bool.eq_false_iff.mpr hro
    · exact .inl rfl

end

/-! ## runs -/

/-- the calls on a node; `setOnParametersSetCallback` is `set_on_parameters_set_callback` -/
inductive Op where
  | declare (name : String) (defaultValue : ParameterValue) (descriptor : ParameterDescriptor)
    (publish : Except Exception Unit := .ok ())
  | undeclare (name : String)
  | set (ps : List (Parameter × Publishing))
  | setAtomically (ps : List Parameter) (publishing : Publishing)
  | setOnParametersSetCallback (cb : Option OnParametersSetCallback)

def NodeParameters.after (node : NodeParameters) : Op → NodeParameters
  | .declare name v d publish =>
    { node with parameters := (node.declareParameter name v d publish).parameters }
  | .undeclare name => { node with parameters := (node.undeclareParameter name).parameters }
  | .set ps => { node with parameters := (node.setParameters ps).parameters }
  | .setAtomically ps publishing =>
    { node with parameters := (node.setParametersAtomically ps publishing).parameters }
  | .setOnParametersSetCallback cb => { node with onParametersSetCallback := cb }

/-- a node that has declared nothing yet, with the options and overrides of `node` -/
def NodeParameters.fresh (node : NodeParameters) : NodeParameters :=
  { node with parameters := ∅ }

def NodeParameters.run (node : NodeParameters) (ops : List Op) : NodeParameters :=
  ops.foldl NodeParameters.after node

theorem evolves_after (node : NodeParameters) (op : Op) :
    Evolves node.parameters (node.after op).parameters := by
  cases op with
  | declare name v d publish => exact evolves_declareParameter node name v d publish
  | undeclare name => exact evolves_undeclareParameter node name
  | set ps => exact evolves_setParameters node ps
  | setAtomically ps publishing => exact evolves_setParametersAtomically node ps publishing
  | setOnParametersSetCallback cb => exact .refl _

theorem evolves_run (node : NodeParameters) (ops : List Op) :
    Evolves node.parameters (node.run ops).parameters := by
  induction ops generalizing node with
  | nil => exact .refl _
  | cons op ops ih => exact (evolves_after node op).trans (ih (node.after op))

/-- **The store invariant.**  From an empty map, with any overrides and any callbacks: an entry
that is read-only stays as it is for ever, and an integer complies with the range it is stored
with. -/
theorem store_invariant (node : NodeParameters) (ops : List Op) :
    (∀ (a : String) (info : ParameterInfo),
      (node.fresh.run ops).parameters[a]? = some info → info.descriptor.readOnly = true →
      ∀ ops', (node.fresh.run (ops ++ ops')).parameters[a]? = some info) ∧
    (∀ (a : String) (info : ParameterInfo),
      (node.fresh.run ops).parameters[a]? = some info →
      ∀ r rs, info.descriptor.integerRange = r :: rs → info.value.type = .integer →
        r.Complies info.value.integerValue) := by
  constructor
  · intro a info h hro ops'
    have happ : node.fresh.run (ops ++ ops') = (node.fresh.run ops).run ops' :=
      List.foldl_append
    rw [happ]
    rcases evolves_run (node.fresh.run ops) ops' a with heq | ⟨hfalse, _⟩
    · rw [heq, h]
    · rw [hfalse info h] at hro
      cases hro
  · intro a info h
    rcases evolves_run node.fresh ops a with heq | ⟨_, hc⟩
    · rw [h, show node.fresh.parameters = ∅ from rfl, ExtTreeMap.getElem?_empty] at heq
      cases heq
    · exact hc info h

/-- a range whose ends are the wrong way round still admits its `from_value`: 10 is stored under
the range from 10 to 0 -/
theorem from_value_of_reversed_range :
    ∃ (info : ParameterInfo) (r : IntegerRange),
      (NodeParameters.run {} [.declare "a" (.ofInt 10)
        { integerRange := [⟨10, 0, 0⟩] }]).parameters["a"]? = some info ∧
      info.descriptor.integerRange = [r] ∧ info.value.type = .integer ∧
      ¬ (info.value.integerValue.toInt = r.toValue.toInt ∨
        (r.fromValue.toInt ≤ info.value.integerValue.toInt ∧
          info.value.integerValue.toInt ≤ r.toValue.toInt ∧
          (r.step.toNat = 0 ∨ (r.step.toNat : Int) ∣
            info.value.integerValue.toInt - r.fromValue.toInt))) := by
  refine ⟨{ value := .ofInt 10
            descriptor := { name := "a", type := .integer, integerRange := [⟨10, 0, 0⟩] } },
    ⟨10, 0, 0⟩, ?_, rfl, rfl, ?_⟩
  · decide
  · decide

end PMROS2.Params
