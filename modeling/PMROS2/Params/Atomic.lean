import PMROS2.Params.Loops

/-!
# `set_parameters_atomically` as a whole

The outcomes of the call, by conditions on the node, on the list (`Passes` collects the ones of a
success) and on what the clock and the publisher do:

* a name is not admitted by the scan, or the callback turns the list down: nothing changes;
* a value is out of range: the map keeps the entries that the check default-constructed;
* otherwise `setParametersAtomically_getElem?` gives the new map, and the call succeeds, unless the
  clock or the publisher throws behind it.

From these: when a failed call leaves the map as it was, when the last occurrence of a name is
the one that counts, and that the published event describes the change.
-/

namespace PMROS2.Params
open Std PMROS2.Writes

/-- the call returned `successful = true` -/
def Call.succeeded (c : Call SetParametersResult) : Bool :=
  match c.result with
  | .ok r => r.successful
  | .error _ => false

/-- the callback returns `successful = true` for the list -/
def callbackAccepts (cb : Option OnParametersSetCallback) (ps : List Parameter) : Bool :=
  match callOnSet cb ps with
  | .ok r => r.successful
  | .error _ => false

def Publishing.Succeeds (publishing : Publishing) (eventsPublisher : Bool) : Prop :=
  eventsPublisher = true → (∃ stamp, publishing.now = .ok stamp) ∧ publishing.publish = .ok ()

theorem publishEvent_parameters {α : Type} (eventsPublisher : Bool)
    (published : Except Exception ParameterEvent) (result : α) (parameters : ParameterMap) :
    (publishEvent eventsPublisher published result parameters).parameters = parameters := by
  unfold publishEvent
  split
  · split <;> rfl
  · rfl

theorem publishEvent_ok {α : Type} (eventsPublisher : Bool) (event : ParameterEvent) (result : α)
    (parameters : ParameterMap) :
    publishEvent eventsPublisher (.ok event) result parameters =
      { result := .ok result, parameters := parameters
        published := if eventsPublisher then some event else none } := by
  cases eventsPublisher <;> rfl

/-- the end of a call: it returns, with the event where there is a publisher, or it throws and no
event is out; the map is the same -/
theorem publishEvent_cases {α : Type} (publishing : Publishing) (eventsPublisher : Bool) :
    (publishing.Succeeds eventsPublisher ∧ ∃ stamp, ∀ event (result : α) parameters,
      publishEvent eventsPublisher (publishing.stamped event) result parameters =
        { result := .ok result, parameters := parameters
          published := if eventsPublisher then some { event with stamp := stamp } else none }) ∨
    (¬ publishing.Succeeds eventsPublisher ∧ ∃ e, ∀ event (result : α) parameters,
      publishEvent eventsPublisher (publishing.stamped event) result parameters =
        { result := .error e, parameters := parameters }) := by
  obtain ⟨now, publish⟩ := publishing
  cases eventsPublisher with
  | false => exact .inl ⟨fun h => (by cases h), 0, fun _ _ _ => rfl⟩
  | true =>
    cases now with
    | error e =>
      refine .inr ⟨fun h => ?_, e, fun _ _ _ => rfl⟩
      obtain ⟨⟨stamp, hstamp⟩, _⟩ := h rfl
      cases hstamp
    | ok stamp =>
      cases publish with
      | error e =>
        refine .inr ⟨fun h => ?_, e, fun _ _ _ => rfl⟩
        cases (h rfl).2
      | ok u => exact .inl ⟨fun _ => ⟨⟨stamp, rfl⟩, rfl⟩, stamp, fun _ _ _ => rfl⟩

/-! ## the common part -/

section
variable (m : ParameterMap) (cb : Option OnParametersSetCallback) (ps : List Parameter)

theorem common_of_rejected (h : callbackAccepts cb ps = false) :
    ∃ out, setParametersAtomicallyCommon ps m cb = (out, m) ∧
      ∀ r, out = .ok r → r.successful = false := by
  unfold callbackAccepts at h
  unfold setParametersAtomicallyCommon
  cases hcb : callOnSet cb ps with
  | error e => exact ⟨_, rfl, fun r hr => by cases hr⟩
  | ok r =>
    rw [hcb] at h
    simp only at h ⊢
    rw [if_neg (by simp [h])]
    exact ⟨_, rfl, fun r' hr => by cases hr; exact h⟩

theorem common_of_accepted (h : callbackAccepts cb ps = true) :
    setParametersAtomicallyCommon ps m cb =
      (.ok (checkParameters m ps).1,
        if ps.all (inRange m) = true then setAll (checkParameters m ps).2 ps
        else (checkParameters m ps).2) := by
  unfold callbackAccepts at h
  unfold setParametersAtomicallyCommon
  cases hcb : callOnSet cb ps with
  | error e => rw [hcb] at h; cases h
  | ok r =>
    rw [hcb] at h
    simp only at h ⊢
    rw [if_pos h, ← checkParameters_fst]
    split <;> rfl

end

/-! ## the outcomes of the call -/

section
variable (node : NodeParameters) (ps : List Parameter) (publishing : Publishing)

/-- no name is empty, undeclared against the rules of the node, or read-only -/
def AllAdmitted : Prop := ∀ p ∈ ps, Admitted node.allowUndeclared node.parameters p

/-- the list gets past all the checks -/
structure Passes : Prop where
  admitted : AllAdmitted node ps
  accepted : callbackAccepts node.onParametersSetCallback (handedOver node.parameters ps) = true
  inRange : ps.all (inRange node.parameters) = true

theorem all_inRange_handedOver (m : ParameterMap) :
    (handedOver m ps).all (Params.inRange m) = ps.all (Params.inRange m) := by
  have h := filter_handedOver m ps (fun p => !Params.inRange m p) fun p hp => by
    rw [inRange_of_undeclared m p hp]; rfl
  have hall : ∀ l : List Parameter,
      l.all (Params.inRange m) = true ↔ l.filter (fun p => !Params.inRange m p) = [] := by
    intro l
    simp [List.filter_eq_nil_iff]
  rw [Bool.eq_iff_iff, hall, hall, h]

theorem collectUndeclared_handedOver (m : ParameterMap) :
    collectUndeclared m (handedOver m ps) = collectUndeclared m ps := by
  refine filter_handedOver m ps _ fun p hp => ?_
  rw [(undeclared_eq_true m p).mp hp]
  exact Bool.and_false _

theorem setParametersAtomically_of_not_admitted (h : ¬ AllAdmitted node ps) :
    (node.setParametersAtomically ps publishing).succeeded = false ∧
      (node.setParametersAtomically ps publishing).parameters = node.parameters := by
  unfold NodeParameters.setParametersAtomically
  cases hs : scanParameters node.allowUndeclared node.parameters ps with
  | ok d => exact absurd ((scanParameters_ok_iff ..).mp hs).1 h
  | error out =>
    refine ⟨?_, rfl⟩
    unfold Call.succeeded
    cases out with
    | error e => rfl
    | ok r => exact scanParameters_error _ _ _ _ hs r rfl

/-- the map and the deleted parameters behind the last loop, for a list that passes -/
def settled : ParameterMap × List Parameter :=
  undeclareAll (collectUndeclared node.parameters ps) (mergeStaged
    (setAll (checkParameters node.parameters (handedOver node.parameters ps)).2
      (handedOver node.parameters ps)) (stagedFor node.parameters ps)) []

def settledEvent (stamp : Int64) : ParameterEvent where
  stamp := stamp
  node := node.combinedName
  newParameters := ps.filter (undeclared node.parameters)
  changedParameters := changedParameters (stagedFor node.parameters ps)
    (collectUndeclared node.parameters ps) (handedOver node.parameters ps)
  deletedParameters := (settled node ps).2

/-- the call after the two loops that stage the implicit declarations -/
theorem setParametersAtomically_of_admitted (h : AllAdmitted node ps) :
    node.setParametersAtomically ps publishing =
      match setParametersAtomicallyCommon (handedOver node.parameters ps) node.parameters
        node.onParametersSetCallback with
      | (.error e, parameters) => { result := .error e, parameters := parameters }
      | (.ok result, parameters) =>
        if result.successful then
          let out := undeclareAll (collectUndeclared node.parameters ps)
            (mergeStaged parameters (stagedFor node.parameters ps)) []
          publishEvent node.eventsPublisher (publishing.stamped
            { settledEvent node ps 0 with deletedParameters := out.2 }) result out.1
        else { result := .ok result, parameters := parameters } := by
  unfold NodeParameters.setParametersAtomically
  rw [scanParameters_of_admitted _ _ _ h]
  simp only
  rw [stageDeclarations_eq]
  simp only
  rw [show (ps.filter (undeclared node.parameters)).foldl
    (fun m p => m.insert p.name (implicitInfo p)) ∅ = stagedFor node.parameters ps from rfl,
    parametersToBeSet_eq, collectUndeclared_handedOver]
  rfl

theorem setParametersAtomically_of_rejected (h : AllAdmitted node ps)
    (hcb : callbackAccepts node.onParametersSetCallback (handedOver node.parameters ps) = false) :
    (node.setParametersAtomically ps publishing).succeeded = false ∧
      (node.setParametersAtomically ps publishing).parameters = node.parameters := by
  obtain ⟨out, hout, hfail⟩ := common_of_rejected node.parameters _ _ hcb
  rw [setParametersAtomically_of_admitted node ps publishing h, hout]
  cases out with
  | error e => exact ⟨rfl, rfl⟩
  | ok r =>
    have hr := hfail r rfl
    simp only [hr, Bool.false_eq_true, if_false]
    exact ⟨hr, trivial⟩

theorem setParametersAtomically_of_outOfRange (h : AllAdmitted node ps)
    (hcb : callbackAccepts node.onParametersSetCallback (handedOver node.parameters ps) = true)
    (hr : ps.all (inRange node.parameters) = false) :
    (node.setParametersAtomically ps publishing).succeeded = false ∧
      (node.setParametersAtomically ps publishing).parameters =
        (checkParameters node.parameters (handedOver node.parameters ps)).2 := by
  have hr' := (all_inRange_handedOver ps node.parameters).trans hr
  have hfst := (checkParameters_fst node.parameters (handedOver node.parameters ps)).trans hr'
  rw [setParametersAtomically_of_admitted node ps publishing h, common_of_accepted _ _ _ hcb]
  simp only [hr', hfst, Bool.false_eq_true, if_false]
  exact ⟨hfst, trivial⟩

theorem setParametersAtomically_of_passes (h : Passes node ps) :
    ∃ result : SetParametersResult, result.successful = true ∧
      node.setParametersAtomically ps publishing = publishEvent node.eventsPublisher
        (publishing.stamped (settledEvent node ps 0)) result (settled node ps).1 := by
  have hr := (all_inRange_handedOver ps node.parameters).trans h.inRange
  have hfst := (checkParameters_fst node.parameters (handedOver node.parameters ps)).trans hr
  refine ⟨(checkParameters node.parameters (handedOver node.parameters ps)).1, hfst, ?_⟩
  rw [setParametersAtomically_of_admitted node ps publishing h.admitted,
    common_of_accepted _ _ _ h.accepted]
  simp only [hr, hfst, if_true]
  rfl

theorem passes_parameters (h : Passes node ps) :
    (node.setParametersAtomically ps publishing).parameters = (settled node ps).1 := by
  obtain ⟨result, _, hcall⟩ := setParametersAtomically_of_passes node ps publishing h
  rw [hcall, publishEvent_parameters]

theorem passes_of_succeeds (h : Passes node ps) (hs : publishing.Succeeds node.eventsPublisher) :
    (node.setParametersAtomically ps publishing).succeeded = true ∧
      ∃ stamp, (node.setParametersAtomically ps publishing).published =
        if node.eventsPublisher then some (settledEvent node ps stamp) else none := by
  obtain ⟨result, hresult, hcall⟩ := setParametersAtomically_of_passes node ps publishing h
  rcases publishEvent_cases publishing node.eventsPublisher with ⟨_, stamp, he⟩ | ⟨hbad, _⟩
  · rw [hcall, he]
    exact ⟨hresult, stamp, rfl⟩
  · exact absurd hs hbad

theorem passes_of_not_succeeds (h : Passes node ps)
    (hs : ¬ publishing.Succeeds node.eventsPublisher) :
    (∃ e, (node.setParametersAtomically ps publishing).result = .error e) ∧
      (node.setParametersAtomically ps publishing).published = none := by
  obtain ⟨result, _, hcall⟩ := setParametersAtomically_of_passes node ps publishing h
  rcases publishEvent_cases publishing node.eventsPublisher with ⟨hok, _⟩ | ⟨_, e, he⟩
  · exact absurd hok hs
  · rw [hcall, he]
    exact ⟨⟨e, rfl⟩, rfl⟩

theorem Call.succeeded_of_error {c : Call SetParametersResult} {e : Exception}
    (h : c.result = .error e) : c.succeeded = false := by
  unfold Call.succeeded
  rw [h]

theorem succeeded_iff_passes :
    (node.setParametersAtomically ps publishing).succeeded = true ↔
      Passes node ps ∧ publishing.Succeeds node.eventsPublisher := by
  constructor
  · intro h
    by_cases hadm : AllAdmitted node ps
    · cases hcb : callbackAccepts node.onParametersSetCallback (handedOver node.parameters ps) with
      | false =>
        rw [(setParametersAtomically_of_rejected node ps publishing hadm hcb).1] at h
        cases h
      | true =>
        cases hr : ps.all (inRange node.parameters) with
        | false =>
          rw [(setParametersAtomically_of_outOfRange node ps publishing hadm hcb hr).1] at h
          cases h
        | true =>
          refine ⟨⟨hadm, hcb, hr⟩, ?_⟩
          by_contra hs
          obtain ⟨⟨e, he⟩, _⟩ := passes_of_not_succeeds node ps publishing ⟨hadm, hcb, hr⟩ hs
          rw [Call.succeeded_of_error he] at h
          cases h
    · rw [(setParametersAtomically_of_not_admitted node ps publishing hadm).1] at h
      cases h
  · rintro ⟨h, hs⟩
    exact (passes_of_succeeds node ps publishing h hs).1

/-! ## the new map -/

/-- the name is declared with a value -/
def wasSet (m : ParameterMap) (a : String) : Prop :=
  ∃ info, m[a]? = some info ∧ info.value.type ≠ .notSet

/-- the list unsets a name that is declared with a value -/
def Unsets (m : ParameterMap) (a : String) : Prop :=
  wasSet m a ∧ ∃ p ∈ ps, p.name = a ∧ p.getType = .notSet

theorem mem_collectUndeclared (m : ParameterMap) (a : String) :
    a ∈ (collectUndeclared m ps).map Parameter.name ↔ Unsets ps m a := by
  unfold collectUndeclared Unsets wasSet
  rw [List.mem_map]
  constructor
  · rintro ⟨p, hp, rfl⟩
    obtain ⟨hmem, hc⟩ := List.mem_filter.mp hp
    rw [Bool.and_eq_true, decide_eq_true_iff] at hc
    obtain ⟨ht, hc⟩ := hc
    cases hm : m[p.name]? with
    | none => rw [hm] at hc; cases hc
    | some info =>
      rw [hm] at hc
      exact ⟨⟨info, rfl, by simpa using hc⟩, p, hmem, rfl, ht⟩
  · rintro ⟨⟨info, hm, hset⟩, p, hp, rfl, ht⟩
    refine ⟨p, List.mem_filter.mpr ⟨hp, ?_⟩, rfl⟩
    rw [hm]
    simp [ht, hset]

theorem Unsets.declared {m : ParameterMap} {a : String} (h : Unsets ps m a) : m[a]? ≠ none := by
  obtain ⟨⟨info, hm, _⟩, _⟩ := h
  rw [hm]
  exact Option.some_ne_none info

/-- setting and taking over the staged entries: the last value of every name of the list -/
theorem mergeStaged_getElem? (m : ParameterMap) (a : String)
    (hr : ps.all (Params.inRange m) = true) :
    (mergeStaged (setAll (checkParameters m (handedOver m ps)).2 (handedOver m ps))
      (stagedFor m ps))[a]? = ((lastOf a ps).map (newInfo m)).or m[a]? := by
  unfold mergeStaged
  rw [getElem?_foldl_toList, stagedFor_getElem?, setAll_checkParameters_getElem? _ _ _
    ((all_inRange_handedOver ps m).trans hr), lastOf_handedOver]
  by_cases hm : m[a]? = none
  · rw [if_pos hm]
    cases hl : lastOf a ps with
    | none => rfl
    | some p =>
      have hp : m[p.name]? = none := by rw [(lastBy_some hl).2, hm]
      rw [Option.map_some, Option.map_some, newInfo_of_undeclared m p hp]
      rfl
  · rw [if_neg hm]
    rfl

/-- **The map after a list that passes.**  A name that the list unsets is gone; every other name
of the list has the value of its last occurrence; the rest is as before. -/
theorem setParametersAtomically_getElem? (h : Passes node ps) (a : String) :
    (Unsets ps node.parameters a → (node.setParametersAtomically ps publishing).parameters[a]? = none) ∧
    (¬ Unsets ps node.parameters a → (node.setParametersAtomically ps publishing).parameters[a]? =
      ((lastOf a ps).map (newInfo node.parameters)).or node.parameters[a]?) := by
  rw [passes_parameters node ps publishing h, settled, undeclareAll_fst, getElem?_foldl_erase,
    mergeStaged_getElem? ps node.parameters a h.inRange, ← mem_collectUndeclared]
  exact ⟨fun hu => if_pos hu, fun hu => if_neg hu⟩

theorem mem_deletedParameters (h : Passes node ps) (stamp : Int64) (a : String) :
    a ∈ (settledEvent node ps stamp).deletedParameters.map Parameter.name ↔
      Unsets ps node.parameters a := by
  rw [settledEvent, settled, mem_undeclareAll_snd, mem_collectUndeclared,
    mergeStaged_getElem? ps node.parameters a h.inRange]
  simp only [List.map_nil, List.not_mem_nil, false_or, and_iff_left_iff_imp]
  intro hu hnone
  exact Unsets.declared ps hu (Option.or_eq_none_iff.mp hnone).2

/-- the list leaves another map: it unsets a name, or its last parameter of a name is not what is
stored already -/
def Changes (m : ParameterMap) : Prop :=
  ∃ a, Unsets ps m a ∨ ∃ p, lastOf a ps = some p ∧ m[a]? ≠ some (newInfo m p)

theorem parameters_eq_iff (h : Passes node ps) :
    (node.setParametersAtomically ps publishing).parameters = node.parameters ↔
      ¬ Changes ps node.parameters := by
  have hget := setParametersAtomically_getElem? node ps publishing h
  constructor
  · rintro heq ⟨a, hu | ⟨p, hlast, hne⟩⟩
    · refine Unsets.declared ps hu ?_
      rw [← heq]
      exact (hget a).1 hu
    · by_cases hu : Unsets ps node.parameters a
      · refine Unsets.declared ps hu ?_
        rw [← heq]
        exact (hget a).1 hu
      · have ha := (hget a).2 hu
        rw [heq, hlast] at ha
        exact hne ha
  · intro hc
    refine ExtTreeMap.ext_getElem? fun a => ?_
    have hu : ¬ Unsets ps node.parameters a := fun hu => hc ⟨a, .inl hu⟩
    rw [(hget a).2 hu]
    cases hlast : lastOf a ps with
    | none => rfl
    | some p =>
      by_contra hne
      exact hc ⟨a, .inr ⟨p, hlast, fun heq => hne heq.symm⟩⟩

/-! ## all or nothing -/

/-- the range check fails after it has gone past an undeclared name: the list gets as far as the
check (it is admitted, and the callback accepts what it is handed), some value is out of range,
and a parameter before the first such value is undeclared -/
structure FailsPastUndeclared : Prop where
  admitted : AllAdmitted node ps
  accepted : callbackAccepts node.onParametersSetCallback (handedOver node.parameters ps) = true
  outOfRange : ∃ p ∈ ps, Params.inRange node.parameters p = false
  past : ∃ q ∈ ps.takeWhile (Params.inRange node.parameters), undeclared node.parameters q = true

/-- the list gets past all the checks and changes the map, and then the clock or the publisher
throws -/
structure FailsToPublish : Prop where
  passes : Passes node ps
  throws : ¬ publishing.Succeeds node.eventsPublisher
  changes : Changes ps node.parameters

/-- a list with a value that is out of range -/
theorem outOfRange_unchanged_iff (hadm : AllAdmitted node ps)
    (hcb : callbackAccepts node.onParametersSetCallback (handedOver node.parameters ps) = true)
    (hr : ps.all (Params.inRange node.parameters) = false) :
    (node.setParametersAtomically ps publishing).parameters = node.parameters ↔
      ¬ FailsPastUndeclared node ps := by
  have hmap := (setParametersAtomically_of_outOfRange node ps publishing hadm hcb hr).2
  have hnames := takeWhile_handedOver node.parameters ps (Params.inRange node.parameters)
    (inRange_of_undeclared node.parameters)
  rw [hmap, checkParameters_snd_eq_iff, hnames]
  constructor
  · intro h hf
    obtain ⟨q, hq, hund⟩ := hf.past
    exact h q.name (List.mem_map_of_mem hq) ((undeclared_eq_true _ q).mp hund)
  · intro h a ha hnone
    obtain ⟨q, hq, rfl⟩ := List.mem_map.mp ha
    refine h ⟨hadm, hcb, ?_, q, hq, (undeclared_eq_true _ q).mpr hnone⟩
    simpa using hr

/-- **A failed call leaves the map as it was, unless its range check fails past an undeclared
name, or it throws behind the change.**  In the one case `parameters_[name]` has declared the name,
in the other the clock or the publisher is asked last. -/
theorem failed_unchanged_iff :
    ((node.setParametersAtomically ps publishing).succeeded = false →
      (node.setParametersAtomically ps publishing).parameters = node.parameters) ↔
    ¬ FailsPastUndeclared node ps ∧ ¬ FailsToPublish node ps publishing := by
  by_cases hpasses : Passes node ps
  · have hrange : ¬ FailsPastUndeclared node ps := by
      rintro ⟨_, _, ⟨p, hp, hout⟩, _⟩
      rw [List.all_eq_true.mp hpasses.inRange p hp] at hout
      cases hout
    rw [parameters_eq_iff node ps publishing hpasses, ← Bool.not_eq_true,
      succeeded_iff_passes]
    constructor
    · intro h
      exact ⟨hrange, fun hf => h (fun hs => hf.throws hs.2) hf.changes⟩
    · rintro ⟨_, h⟩ hfail hc
      exact h ⟨hpasses, fun hs => hfail ⟨hpasses, hs⟩, hc⟩
  · -- the call fails before the publishing
    have hfail : (node.setParametersAtomically ps publishing).succeeded = false :=
      Bool.eq_false_iff.mpr fun h => hpasses ((succeeded_iff_passes node ps publishing).mp h).1
    have hpublish : ¬ FailsToPublish node ps publishing := fun hf => hpasses hf.passes
    rw [forall_prop_of_true hfail, and_iff_left hpublish]
    by_cases hadm : AllAdmitted node ps
    · cases hcb : callbackAccepts node.onParametersSetCallback (handedOver node.parameters ps) with
      | false =>
        refine iff_of_true (setParametersAtomically_of_rejected node ps publishing hadm hcb).2 ?_
        intro hf
        rw [hf.accepted] at hcb
        cases hcb
      | true =>
        apply outOfRange_unchanged_iff node ps publishing hadm hcb
        exact Bool.eq_false_iff.mpr fun hr => hpasses ⟨hadm, hcb, hr⟩
    · exact iff_of_true (setParametersAtomically_of_not_admitted node ps publishing hadm).2
        fun hf => hadm hf.admitted

/-- a node with the integer `b`, declared with the range `0..10` -/
def rangedNode : NodeParameters :=
  { parameters := (∅ : ParameterMap).insert "b"
      { value := .ofInt 3
        descriptor := { name := "b", type := .integer, integerRange := [⟨0, 10, 0⟩] } }
    allowUndeclared := true }

/-- setting `a` and, out of range, `b` fails and declares `a` -/
theorem failed_call_declares :
    (rangedNode.setParametersAtomically [⟨"a", .ofInt 1⟩, ⟨"b", .ofInt 99⟩] {}).succeeded = false ∧
    (rangedNode.setParametersAtomically [⟨"a", .ofInt 1⟩, ⟨"b", .ofInt 99⟩] {}).parameters
      ≠ rangedNode.parameters := by
  decide

/-! ## the last occurrence counts -/

/-- the new map `m'` agrees with `m` outside the list, and for the names of the list it has what
the last occurrence says -/
structure LastCounts (m m' : ParameterMap) : Prop where
  others : ∀ a, a ∉ ps.map Parameter.name → m'[a]? = m[a]?
  set : ∀ p, lastOf p.name ps = some p → p.getType ≠ .notSet →
    ∃ info, m'[p.name]? = some info ∧ info.value = p.value
  unset : ∀ p, lastOf p.name ps = some p → p.getType = .notSet → wasSet m p.name →
    m'[p.name]? = none

/-- **The last occurrence of a name counts exactly when no name that was declared with a value
is first unset and then set again by the list.** -/
theorem lastCounts_iff (h : (node.setParametersAtomically ps publishing).succeeded = true) :
    LastCounts ps node.parameters (node.setParametersAtomically ps publishing).parameters ↔
    ∀ p, lastOf p.name ps = some p → p.getType ≠ .notSet → wasSet node.parameters p.name →
      ∀ q ∈ ps, q.name = p.name → q.getType ≠ .notSet := by
  have hp := ((succeeded_iff_passes node ps publishing).mp h).1
  have hget := setParametersAtomically_getElem? node ps publishing hp
  constructor
  · intro hc p hlast ht hset q hq hqp hqt
    obtain ⟨info, hinfo, _⟩ := hc.set p hlast ht
    rw [(hget p.name).1 ⟨hset, q, hq, hqp, hqt⟩] at hinfo
    cases hinfo
  · intro hc
    refine ⟨fun a ha => ?_, fun p hlast ht => ?_, fun p hlast ht hset => ?_⟩
    · have hnone : lastOf a ps = none := lastBy_eq_none.mpr fun p hp hpa =>
        ha (List.mem_map.mpr ⟨p, hp, hpa⟩)
      have hu : ¬ Unsets ps node.parameters a := fun ⟨_, p, hp, hpa, _⟩ =>
        ha (List.mem_map.mpr ⟨p, hp, hpa⟩)
      rw [(hget a).2 hu, hnone]
      rfl
    · have hu : ¬ Unsets ps node.parameters p.name := fun ⟨hset, q, hq, hqp, hqt⟩ =>
        hc p hlast ht hset q hq hqp hqt
      rw [(hget p.name).2 hu, hlast]
      exact ⟨_, rfl, rfl⟩
    · exact (hget p.name).1 ⟨hset, p, (lastBy_some hlast).1, rfl, ht⟩

/-- a list without `NOT_SET` meets the condition -/
theorem lastCounts_two_values :
    (rangedNode.setParametersAtomically [⟨"b", .ofInt 5⟩, ⟨"b", .ofInt 9⟩] {}).succeeded = true ∧
    LastCounts [⟨"b", .ofInt 5⟩, ⟨"b", .ofInt 9⟩] rangedNode.parameters
      (rangedNode.setParametersAtomically [⟨"b", .ofInt 5⟩, ⟨"b", .ofInt 9⟩] {}).parameters := by
  have h : (rangedNode.setParametersAtomically
      [⟨"b", .ofInt 5⟩, ⟨"b", .ofInt 9⟩] {}).succeeded = true := by decide
  refine ⟨h, (lastCounts_iff _ _ _ h).mpr fun p _ _ _ q hq _ => ?_⟩
  rcases List.mem_pair.mp hq with rfl | rfl <;> decide

/-- `b` is unset and then set again, and ends up undeclared -/
theorem unset_then_set_undeclares :
    (rangedNode.setParametersAtomically [⟨"b", {}⟩, ⟨"b", .ofInt 9⟩] {}).succeeded = true ∧
    ¬ LastCounts [⟨"b", {}⟩, ⟨"b", .ofInt 9⟩] rangedNode.parameters
      (rangedNode.setParametersAtomically [⟨"b", {}⟩, ⟨"b", .ofInt 9⟩] {}).parameters := by
  refine ⟨by decide, fun hc => ?_⟩
  obtain ⟨info, hinfo, _⟩ := hc.set ⟨"b", .ofInt 9⟩ (by decide) (by decide)
  have hnone : (rangedNode.setParametersAtomically
      [⟨"b", {}⟩, ⟨"b", .ofInt 9⟩] {}).parameters["b"]? = none := by decide
  rw [hnone] at hinfo
  cases hinfo

/-! ## the event -/

/-- the name-to-value map of a store -/
def values (m : ParameterMap) : ExtTreeMap String ParameterValue := m.map fun _ info => info.value

/-- what an observer does with an event: overwrite with the new and the changed parameters in
order, then remove the deleted ones -/
def replay (e : ParameterEvent) (s : ExtTreeMap String ParameterValue) :
    ExtTreeMap String ParameterValue :=
  e.deletedParameters.foldl (fun s p => s.erase p.name)
    ((e.newParameters ++ e.changedParameters).foldl (fun s p => s.insert p.name p.value) s)

def NamesDisjoint (l l' : List Parameter) : Prop := ∀ p ∈ l, ∀ q ∈ l', p.name ≠ q.name

/-- the event describes the change from `m` to `m'` -/
structure Describes (e : ParameterEvent) (m m' : ParameterMap) : Prop where
  replays : replay e (values m) = values m'
  new : ∀ p ∈ e.newParameters, m[p.name]? = none
  changed : ∀ p ∈ e.changedParameters, m[p.name]? ≠ none
  deleted : ∀ p ∈ e.deletedParameters, m[p.name]? ≠ none
  new_changed : NamesDisjoint e.newParameters e.changedParameters
  new_deleted : NamesDisjoint e.newParameters e.deletedParameters
  changed_deleted : NamesDisjoint e.changedParameters e.deletedParameters

theorem values_getElem? (m : ParameterMap) (a : String) :
    (values m)[a]? = m[a]?.map ParameterInfo.value := ExtTreeMap.getElem?_map ..

theorem mem_changedParameters (m : ParameterMap) (p : Parameter) :
    p ∈ changedParameters (stagedFor m ps) (collectUndeclared m ps) (handedOver m ps) ↔
      p ∈ handedOver m ps ∧ m[p.name]? ≠ none ∧ ¬ Unsets ps m p.name := by
  unfold changedParameters
  rw [List.mem_filter, Bool.and_eq_true, Bool.not_eq_true', Bool.not_eq_true',
    ← mem_collectUndeclared, ← ExtTreeMap.isSome_getElem?_eq_contains, stagedFor_getElem?]
  refine and_congr_right fun hp => and_congr ?_ ?_
  · -- a parameter of the list that is set is staged exactly when its name is undeclared
    obtain ⟨q, hq⟩ := exists_lastBy Parameter.name hp rfl
    have hq' : lastOf p.name ps = some q := (lastOf_handedOver m ps p.name).symm.trans hq
    by_cases hm : m[p.name]? = none
    · rw [if_pos hm, hq']
      simp [hm]
    · rw [if_neg hm]
      simp [hm]
  · rw [List.any_eq_false, List.mem_map]
    simp

theorem lastOf_event (m : ParameterMap) (a : String) (hu : ¬ Unsets ps m a) :
    lastOf a (ps.filter (undeclared m) ++
      changedParameters (stagedFor m ps) (collectUndeclared m ps) (handedOver m ps)) =
    lastOf a ps := by
  rw [lastOf, lastBy_append]
  by_cases hm : m[a]? = none
  · have hnew : lastBy Parameter.name a (ps.filter (undeclared m)) = lastOf a ps :=
      lastBy_filter fun p _ hp => (undeclared_eq_true m p).mpr (by rw [hp, hm])
    have hchanged : lastBy Parameter.name a
        (changedParameters (stagedFor m ps) (collectUndeclared m ps) (handedOver m ps)) = none :=
      lastBy_eq_none.mpr fun p hp hpa =>
        ((mem_changedParameters ps m p).mp hp).2.1 (by rw [hpa, hm])
    rw [hnew, hchanged]
    rfl
  · have hnew : lastBy Parameter.name a (ps.filter (undeclared m)) = none :=
      lastBy_filter_none fun p _ hp => (undeclared_eq_false m p).mpr (by rw [hp]; exact hm)
    have hchanged : lastBy Parameter.name a
        (changedParameters (stagedFor m ps) (collectUndeclared m ps) (handedOver m ps)) =
          lastOf a (handedOver m ps) :=
      lastBy_filter fun p hp hpa => (List.mem_filter.mp ((mem_changedParameters ps m p).mpr
        ⟨hp, by rw [hpa]; exact hm, by rw [hpa]; exact hu⟩)).2
    rw [hnew, hchanged, Option.or_none, lastOf_handedOver]

theorem lastOf_settledEvent (stamp : Int64) (a : String) (hu : ¬ Unsets ps node.parameters a) :
    lastOf a ((settledEvent node ps stamp).newParameters ++
      (settledEvent node ps stamp).changedParameters) = lastOf a ps :=
  lastOf_event ps node.parameters a hu

/-- **The event of a successful call describes the change.** -/
theorem published_describes (h : (node.setParametersAtomically ps publishing).succeeded = true)
    (hpub : node.eventsPublisher = true) :
    ∃ e, (node.setParametersAtomically ps publishing).published = some e ∧
      Describes e node.parameters (node.setParametersAtomically ps publishing).parameters := by
  obtain ⟨hp, hs⟩ := (succeeded_iff_passes node ps publishing).mp h
  have hget := setParametersAtomically_getElem? node ps publishing hp
  obtain ⟨stamp, he⟩ := (passes_of_succeeds node ps publishing hp hs).2
  rw [hpub, if_pos rfl] at he
  refine ⟨_, he, ?_⟩
  have hdel := mem_deletedParameters node ps hp stamp
  have hdel' := fun q hq => (hdel q.name).mp (List.mem_map_of_mem (f := Parameter.name) (a := q) hq)
  have hnew : ∀ p ∈ ps.filter (undeclared node.parameters), node.parameters[p.name]? = none :=
    fun p hp => (undeclared_eq_true _ p).mp (List.mem_filter.mp hp).2
  have hchg := fun p hp => (mem_changedParameters ps node.parameters p).mp hp
  refine ⟨?_, hnew, fun p hp => (hchg p hp).2.1, fun p hp => Unsets.declared ps (hdel' p hp),
    fun p hp q hq e => (hchg q hq).2.1 (by rw [← e]; exact hnew p hp),
    fun p hp q hq e => Unsets.declared ps (hdel' q hq) (by rw [← e]; exact hnew p hp),
    fun p hp q hq e => (hchg p hp).2.2 (by rw [e]; exact hdel' q hq)⟩
  refine ExtTreeMap.ext_getElem? fun a => ?_
  unfold replay
  rw [getElem?_foldl_erase, values_getElem?, getElem?_foldl_insert Parameter.name, values_getElem?]
  by_cases hu : Unsets ps node.parameters a
  · rw [if_pos ((hdel a).mpr hu), (hget a).1 hu]
    rfl
  · rw [if_neg fun hmem => hu ((hdel a).mp hmem), (hget a).2 hu]
    rw [show lastBy Parameter.name a _ = _ from lastOf_settledEvent node ps stamp a hu]
    cases lastOf a ps <;> rfl

end

/-- one new and one changed parameter -/
theorem published_describes_two :
    (rangedNode.setParametersAtomically [⟨"a", .ofInt 1⟩, ⟨"b", .ofInt 4⟩] {}).succeeded = true ∧
    ∃ e, (rangedNode.setParametersAtomically [⟨"a", .ofInt 1⟩, ⟨"b", .ofInt 4⟩] {}).published
        = some e ∧
      Describes e rangedNode.parameters
        (rangedNode.setParametersAtomically [⟨"a", .ofInt 1⟩, ⟨"b", .ofInt 4⟩] {}).parameters :=
  ⟨by decide, published_describes rangedNode _ {} (by decide) rfl⟩

end PMROS2.Params
