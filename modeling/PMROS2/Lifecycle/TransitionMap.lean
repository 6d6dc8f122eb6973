import PMROS2.Lib.Runs
import Mathlib.Data.List.Nodup

/-!
# The transition map in memory

`rcl_lifecycle_register_state` and `rcl_lifecycle_register_transition` (`transition_map.c`).
Both arrays are grown by reallocation, and so is the array of each state.  Transitions have
pointers into the array of states, which stay as they are when that array moves; the sizes are
counted up before the memory is there.

* `StatePtr`, `Live`        pointers, and those into the array of states as it is now;
* `Sound`                   what is to hold of the map;
* `Proper`, `Kept`          what one call promises, and that it has a result and keeps it;
* `Careful`                 calls that the functions are made for;
* `transitionMap_proper_iff`   along a run all calls keep their promises just when all are careful.

An array is known by its address.  The address that `reallocate` returns, if any, is part of the
call.  A read behind an array, or through a pointer to nothing, has no result, and a call that
needs one keeps no promise.
-/

namespace PMROS2.TransitionMaps
open Runs

/-! ## the functions -/

/-- `rcl_lifecycle_state_t *` -/
inductive StatePtr where
  | null
  /-- into an array of states -/
  | element (array index : Nat)
  /-- to a state with this id that is in no array -/
  | other (id : Nat)
  deriving DecidableEq

structure Transition where
  label : List Char
  id : Nat
  start : StatePtr
  goal : StatePtr
  deriving DecidableEq

/-- the cells of an array that have not been written are `none` -/
structure State where
  label : List Char
  id : Nat
  validTransitions : List (Option Transition) := []
  validTransitionSize : Nat := 0
  deriving DecidableEq

structure TransitionMap where
  /-- the address of `states` -/
  array : Nat := 0
  states : List State := []
  statesSize : Nat := 0
  transitions : List (Option Transition) := []
  transitionsSize : Nat := 0
  deriving DecidableEq

/-- the loop of `rcl_lifecycle_get_state`, over so many states -/
def getStateLoop (id : Nat) : Nat → Nat → List State → Option (Option Nat)
  | 0, _, _ => some none
  | _ + 1, _, [] => none
  | n + 1, i, s :: states => if s.id = id then some (some i) else getStateLoop id n (i + 1) states

/-- `rcl_lifecycle_get_state`: the index of the state -/
def getState (map : TransitionMap) (id : Nat) : Option (Option Nat) :=
  getStateLoop id map.statesSize 0 map.states

/-- `ptr->id` -/
def idOf (map : TransitionMap) : StatePtr → Option Nat
  | .null => none
  | .element array index => if array = map.array then map.states[index]?.map State.id else none
  | .other id => some id

/-- an array of `size` cells, made of a smaller one, with a value in the last cell -/
def grow {α : Type} (cells : List (Option α)) (size : Nat) (v : α) : List (Option α) :=
  cells ++ List.replicate (size - 1 - cells.length) none ++ [some v]

inductive Ret where
  | ok
  | error
  | badAlloc
  | invalidArgument
  deriving DecidableEq

/-- `rcl_lifecycle_register_state`; `result` is what `reallocate` returns -/
def registerState (map : TransitionMap) (state : State) (allocatorIsValid : Bool)
    (result : Option Nat) : Option (Ret × TransitionMap) :=
  (getState map state.id).map fun found =>
    match found with
    | some _ => (.error, map)
    | none =>
      if !allocatorIsValid then (.invalidArgument, map)
      else
        let map := { map with statesSize := map.statesSize + 1 }
        match result with
        | none => (.error, map)
        | some array => (.ok, { map with array, states := map.states ++ [state] })

def State.addTransition (s : State) (t : Transition) (allocated : Bool) : State :=
  let s := { s with validTransitionSize := s.validTransitionSize + 1 }
  if allocated then { s with validTransitions := grow s.validTransitions s.validTransitionSize t }
  else s

/-- `rcl_lifecycle_register_transition`; `allocated` and `allocatedInState` are for the two calls of
`reallocate` -/
def registerTransition (map : TransitionMap) (t : Transition)
    (allocatorIsValid allocated allocatedInState : Bool) : Option (Ret × TransitionMap) :=
  if !allocatorIsValid then some (.error, map)
  else (idOf map t.start).bind fun id => (getState map id).map fun found =>
    match found with
    | none => (.error, map)
    | some i =>
      let map := { map with transitionsSize := map.transitionsSize + 1 }
      if !allocated then (.badAlloc, map)
      else
        let map := { map with
          transitions := grow map.transitions map.transitionsSize t
          states := map.states.modify i fun s => s.addTransition t allocatedInState }
        if !allocatedInState then (.error, map) else (.ok, map)

/-! ## runs -/

inductive Call where
  | registerState (state : State) (allocatorIsValid : Bool) (result : Option Nat)
  | registerTransition (t : Transition) (allocatorIsValid allocated allocatedInState : Bool)

def TransitionMap.call (map : TransitionMap) : Call → Option (Ret × TransitionMap)
  | .registerState state valid result => TransitionMaps.registerState map state valid result
  | .registerTransition t valid allocated allocatedInState =>
    TransitionMaps.registerTransition map t valid allocated allocatedInState

def Call.registered : Call → Ret → List Transition
  | .registerTransition t _ _ _, .ok => [t]
  | _, _ => []

/-- a map, with the transitions that have been registered so far -/
structure Registry where
  map : TransitionMap := {}
  registered : List Transition := []

def Registry.step (s : Registry) (c : Call) : Option Registry :=
  (s.map.call c).map fun r => ⟨r.2, s.registered ++ c.registered r.1⟩

/-- a pointer to an element of the array of states as it is now -/
def Live (map : TransitionMap) (p : StatePtr) : Prop :=
  ∃ i < map.states.length, p = .element map.array i

/-- the transitions of the state at an index, in order -/
def startingIn (s : Registry) (i : Nat) : List Transition :=
  s.registered.filter fun t => t.start = .element s.map.array i

structure Sound (s : Registry) : Prop where
  ids : (s.map.states.map State.id).Nodup
  exact : ∀ i state, s.map.states[i]? = some state →
    state.validTransitions = (startingIn s i).map some ∧
      state.validTransitionSize = state.validTransitions.length
  live : ∀ t ∈ s.registered, Live s.map t.start ∧ Live s.map t.goal

/-- what a call promises -/
structure Proper (s : Registry) (c : Call) (s' : Registry) : Prop where
  sound : Sound s'
  unchanged : ∀ ret map, s.map.call c = some (ret, map) → ret ≠ .ok → s'.map = s.map

/-- a call that does not follow a pointer to nothing, and keeps what it promises -/
def Kept (s : Registry) (c : Call) : Prop :=
  ∃ s', s.step c = some s' ∧ Proper s c s'

/-- A new state comes without transitions and gets its memory; the array moves only as long as
there are no pointers into it.  A transition has pointers into the array as it is now and gets its
memory, twice, or it starts in a state elsewhere whose id is not registered. -/
def Careful (s : Registry) : Call → Prop
  | .registerState state valid result =>
    state.id ∉ s.map.states.map State.id → valid = true →
      (∃ array, result = some array ∧ (array = s.map.array ∨ s.registered = [])) ∧
        state.validTransitions = [] ∧ state.validTransitionSize = 0
  | .registerTransition t valid allocated allocatedInState =>
    valid = true →
      (allocated = true ∧ allocatedInState = true ∧ Live s.map t.start ∧ Live s.map t.goal) ∨
        ∃ id, t.start = .other id ∧ id ∉ s.map.states.map State.id

/-! ## the functions on a sound map -/

/-- what holds in between: the sizes are those of the arrays -/
structure Inv (s : Registry) : Prop where
  sound : Sound s
  statesSize : s.map.statesSize = s.map.states.length
  transitions : s.map.transitions = s.registered.map some
  transitionsSize : s.map.transitionsSize = s.map.transitions.length

theorem getStateLoop_eq (id : Nat) (states : List State) : ∀ i,
    getStateLoop id states.length i states =
      some ((states.findIdx? fun s => s.id = id).map (i + ·)) := by
  induction states with
  | nil => exact fun i => rfl
  | cons s states ih =>
    intro i
    rw [List.length_cons, getStateLoop, List.findIdx?_cons]
    by_cases hs : s.id = id
    · rw [if_pos hs, if_pos (decide_eq_true hs)]
      rfl
    · rw [if_neg hs, if_neg (by simpa using hs), ih (i + 1), Option.map_map]
      congr 2
      funext j
      show i + 1 + j = i + (j + 1)
      omega

theorem Inv.getState {s : Registry} (h : Inv s) (id : Nat) :
    getState s.map id = some (s.map.states.findIdx? fun state => state.id = id) := by
  rw [TransitionMaps.getState, h.statesSize, getStateLoop_eq]
  simp

theorem getState_none_iff {states : List State} {id : Nat} :
    (states.findIdx? fun state => state.id = id) = none ↔ id ∉ states.map State.id := by
  rw [List.findIdx?_eq_none_iff, List.mem_map]
  simp only [decide_eq_false_iff_not, not_exists, not_and]

theorem grow_full {α : Type} (cells : List (Option α)) (v : α) :
    grow cells (cells.length + 1) v = cells ++ [some v] := by
  rw [grow, Nat.add_sub_cancel, Nat.sub_self, List.replicate_zero, List.append_nil]

theorem findIdx?_own {states : List State} (hnodup : (states.map State.id).Nodup) {i : Nat}
    (hi : i < states.length) :
    (states.findIdx? fun state => state.id = states[i].id) = some i := by
  rw [List.findIdx?_eq_some_iff_getElem]
  refine ⟨hi, decide_eq_true rfl, ?_⟩
  intro j hj heq
  have hlen : (states.map State.id).length = states.length := List.length_map _
  have hj' : j < (states.map State.id).length := by omega
  have hi' : i < (states.map State.id).length := by omega
  have hids : (states.map State.id)[j] = (states.map State.id)[i] := by
    rw [List.getElem_map, List.getElem_map]
    exact of_decide_eq_true heq
  have hij := (List.Nodup.getElem_inj_iff hnodup).mp hids
  omega

/-! ## states -/

section
variable {s : Registry} {state : State} {valid : Bool} {result : Option Nat}

theorem call_registered (h : Inv s) (hid : state.id ∈ s.map.states.map State.id) :
    s.map.call (.registerState state valid result) = some (.error, s.map) := by
  show registerState s.map state valid result = _
  rw [registerState, h.getState]
  cases hfound : s.map.states.findIdx? fun st => st.id = state.id with
  | none => exact absurd hid (getState_none_iff.mp hfound)
  | some i => rfl

theorem call_new (h : Inv s) (hid : state.id ∉ s.map.states.map State.id) :
    s.map.call (.registerState state valid result) = some (
      if !valid then (.invalidArgument, s.map)
      else match result with
        | none => (.error, { s.map with statesSize := s.map.statesSize + 1 })
        | some array => (.ok, { s.map with
            statesSize := s.map.statesSize + 1, array, states := s.map.states ++ [state] })) := by
  show registerState s.map state valid result = _
  rw [registerState, h.getState, getState_none_iff.mpr hid]
  rfl

end

theorem Inv.of_unchanged {s : Registry} (h : Inv s) {c : Call} {ret : Ret}
    (hc : s.map.call c = some (ret, s.map)) (hret : c.registered ret = []) :
    s.step c = some s ∧ Proper s c s := by
  constructor
  · show (s.map.call c).map _ = _
    rw [hc, Option.map_some, hret, List.append_nil]
  · refine ⟨h.sound, ?_⟩
    intro ret' map hc' _
    rfl

theorem not_proper_of_changed {s s' : Registry} {c : Call} {ret : Ret} {map : TransitionMap}
    (hc : s.map.call c = some (ret, map)) (hret : ret ≠ .ok) (hs : s.step c = some s')
    (hne : map ≠ s.map) : ¬ Proper s c s' := by
  intro h
  have hmap : s'.map = map := by
    rw [Registry.step, hc] at hs
    rw [← Option.some.inj hs]
  exact hne (hmap ▸ h.unchanged ret map hc hret)

theorem Live.states {map map' : TransitionMap} {p : StatePtr} (h : Live map p)
    (harray : map'.array = map.array) (hlen : map.states.length ≤ map'.states.length) :
    Live map' p := by
  obtain ⟨i, hi, rfl⟩ := h
  exact ⟨i, Nat.lt_of_lt_of_le hi hlen, by rw [harray]⟩

theorem Inv.newState {s : Registry} (h : Inv s) {state : State}
    (hid : state.id ∉ s.map.states.map State.id) (array : Nat) :
    (Sound ⟨{ s.map with
        statesSize := s.map.statesSize + 1, array, states := s.map.states ++ [state] },
        s.registered⟩ ↔
      (array = s.map.array ∨ s.registered = []) ∧ state.validTransitions = [] ∧
        state.validTransitionSize = 0) := by
  constructor
  · intro hs
    have harray : array = s.map.array ∨ s.registered = [] := by
      cases hreg : s.registered with
      | nil => exact .inr rfl
      | cons t ts =>
        have ht : t ∈ s.registered := hreg ▸ List.mem_cons_self
        obtain ⟨i, -, hi⟩ := (h.sound.live t ht).1
        obtain ⟨j, -, hj⟩ := (hs.live t ht).1
        exact .inl (StatePtr.element.inj (hj.symm.trans hi)).1
    obtain ⟨hlist, hsize⟩ := hs.exact s.map.states.length state (by simp)
    -- no transition starts behind the states that were there
    have hnone : state.validTransitions = [] := by
      rw [hlist, List.map_eq_nil_iff, startingIn, List.filter_eq_nil_iff]
      intro t ht hstart
      obtain ⟨i, hi, hi'⟩ := (h.sound.live t ht).1
      have hindex := (StatePtr.element.inj (hi'.symm.trans (of_decide_eq_true hstart))).2
      omega
    exact ⟨harray, hnone, by rw [hsize, hnone]; rfl⟩
  · rintro ⟨harray, hnone, hsize⟩
    have hptr : ∀ t ∈ s.registered, array = s.map.array := by
      intro t ht
      rcases harray with harray | hreg
      · exact harray
      · rw [hreg] at ht
        cases ht
    refine ⟨?_, ?_, ?_⟩
    · show ((s.map.states ++ [state]).map State.id).Nodup
      rw [List.map_append]
      refine List.nodup_append.mpr ⟨h.sound.ids, List.pairwise_singleton _ _, ?_⟩
      intro a ha b hb hab
      rw [List.mem_singleton.mp hb] at hab
      exact hid (hab ▸ ha)
    · intro i st hi
      have hstart : ∀ i, startingIn ⟨{ s.map with
          statesSize := s.map.statesSize + 1, array, states := s.map.states ++ [state] },
          s.registered⟩ i = startingIn s i := by
        intro i
        apply List.filter_congr
        intro t ht
        rw [hptr t ht]
      rw [hstart]
      replace hi : (s.map.states ++ [state])[i]? = some st := hi
      by_cases hlt : i < s.map.states.length
      · rw [List.getElem?_append_left hlt] at hi
        exact h.sound.exact i st hi
      · rw [List.getElem?_append_right (by omega)] at hi
        have hmem := List.mem_of_getElem? hi
        rw [List.mem_singleton.mp hmem, hnone, hsize]
        refine ⟨?_, rfl⟩
        symm
        rw [List.map_eq_nil_iff, startingIn, List.filter_eq_nil_iff]
        intro t ht hbad
        obtain ⟨j, hj, hj'⟩ := (h.sound.live t ht).1
        have hindex := (StatePtr.element.inj (hj'.symm.trans (of_decide_eq_true hbad))).2
        omega
    · intro t ht
      obtain ⟨hstart, hgoal⟩ := h.sound.live t ht
      have hlen : s.map.states.length ≤ (s.map.states ++ [state]).length := by
        rw [List.length_append]
        omega
      exact ⟨hstart.states (hptr t ht) hlen, hgoal.states (hptr t ht) hlen⟩

/-! ## transitions -/

section
variable {s : Registry} {t : Transition} {valid allocated allocatedInState : Bool} {id : Nat}

theorem call_invalid :
    s.map.call (.registerTransition t false allocated allocatedInState) =
      some (.error, s.map) := rfl

theorem call_unregistered (h : Inv s) (hptr : idOf s.map t.start = some id)
    (hid : id ∉ s.map.states.map State.id) :
    s.map.call (.registerTransition t true allocated allocatedInState) = some (.error, s.map) := by
  show registerTransition s.map t true allocated allocatedInState = _
  rw [registerTransition, hptr, Option.bind_some, h.getState, getState_none_iff.mpr hid]
  rfl

/-- the map that both allocations leave -/
def added (s : Registry) (t : Transition) (i : Nat) : TransitionMap :=
  { s.map with
    transitionsSize := s.map.transitionsSize + 1
    transitions := s.map.transitions ++ [some t]
    states := s.map.states.modify i fun state => state.addTransition t true }

theorem call_transition (h : Inv s) (hptr : idOf s.map t.start = some id)
    (hid : id ∈ s.map.states.map State.id) : ∃ i,
    (s.map.states.findIdx? fun state => state.id = id) = some i ∧
    ((allocated = false ∨ allocatedInState = false) ∧
      (∃ ret map, ret ≠ .ok ∧ map ≠ s.map ∧
        s.map.call (.registerTransition t true allocated allocatedInState) = some (ret, map)) ∨
    (allocated = true ∧ allocatedInState = true) ∧
      s.map.call (.registerTransition t true allocated allocatedInState) =
        some (.ok, added s t i)) := by
  cases hfound : s.map.states.findIdx? fun state => state.id = id with
  | none => exact absurd hid (getState_none_iff.mp hfound)
  | some i =>
    refine ⟨i, rfl, ?_⟩
    have hcall : ∀ a b, s.map.call (.registerTransition t true a b) = some (
        let map := { s.map with transitionsSize := s.map.transitionsSize + 1 }
        if !a then (.badAlloc, map)
        else
          let map := { map with
            transitions := grow map.transitions map.transitionsSize t
            states := map.states.modify i fun s => s.addTransition t b }
          if !b then (.error, map) else (.ok, map)) := by
      intro a b
      show registerTransition s.map t true a b = _
      rw [registerTransition, hptr, Option.bind_some, h.getState, hfound]
      rfl
    -- the number of transitions tells the maps apart
    have hne : ∀ map : TransitionMap, map.transitionsSize = s.map.transitionsSize + 1 →
        map ≠ s.map := by
      rintro map hsize rfl
      omega
    cases allocated with
    | false => exact .inl ⟨.inl rfl, .badAlloc, _, by decide, hne _ rfl, hcall false _⟩
    | true =>
      cases allocatedInState with
      | false => exact .inl ⟨.inr rfl, .error, _, by decide, hne _ rfl, hcall true false⟩
      | true =>
        refine .inr ⟨⟨rfl, rfl⟩, ?_⟩
        rw [hcall true true, added, ← grow_full, ← h.transitionsSize]
        rfl

theorem live_added {i : Nat} {p : StatePtr} : Live (added s t i) p ↔ Live s.map p := by
  unfold Live added
  rw [List.length_modify]

theorem added_ids (i : Nat) :
    (added s t i).states.map State.id = s.map.states.map State.id := by
  apply List.ext_getElem?
  intro j
  rw [added, List.getElem?_map, List.getElem?_modify, List.getElem?_map]
  cases s.map.states[j]? with
  | none => rfl
  | some state => by_cases hij : i = j <;> simp [hij, State.addTransition]

theorem index_of_live (h : Inv s) {i : Nat} (hptr : idOf s.map t.start = some id)
    (hfound : (s.map.states.findIdx? fun state => state.id = id) = some i)
    (hlive : Live s.map t.start) : i < s.map.states.length ∧ t.start = .element s.map.array i := by
  obtain ⟨j, hj, hstart⟩ := hlive
  rw [hstart, idOf, if_pos rfl, List.getElem?_eq_getElem hj] at hptr
  rw [← Option.some.inj hptr, findIdx?_own h.sound.ids hj] at hfound
  obtain rfl := Option.some.inj hfound
  exact ⟨hj, hstart⟩

theorem startingIn_added (i j : Nat) : startingIn ⟨added s t i, s.registered ++ [t]⟩ j =
    startingIn s j ++ if t.start = .element s.map.array j then [t] else [] := by
  show (s.registered ++ [t]).filter _ = _
  rw [List.filter_append]
  congr 1
  by_cases hj : t.start = .element s.map.array j
  · rw [if_pos hj]
    exact List.filter_cons_of_pos (decide_eq_true hj)
  · rw [if_neg hj]
    exact List.filter_cons_of_neg fun hbad => hj (of_decide_eq_true hbad)

theorem Inv.newTransition (h : Inv s) {i : Nat} (hptr : idOf s.map t.start = some id)
    (hfound : (s.map.states.findIdx? fun state => state.id = id) = some i) :
    Sound ⟨added s t i, s.registered ++ [t]⟩ ↔ Live s.map t.start ∧ Live s.map t.goal := by
  constructor
  · intro hs
    obtain ⟨hstart, hgoal⟩ := hs.live t (List.mem_append_right _ List.mem_cons_self)
    exact ⟨live_added.mp hstart, live_added.mp hgoal⟩
  · rintro ⟨hstart, hgoal⟩
    obtain ⟨hi, hpos⟩ := index_of_live h hptr hfound hstart
    refine ⟨?_, ?_, ?_⟩
    · show ((added s t i).states.map State.id).Nodup
      rw [added_ids]
      exact h.sound.ids
    · intro j state hj
      replace hj : (s.map.states.modify i fun state => state.addTransition t true)[j]? =
          some state := hj
      rw [List.getElem?_modify] at hj
      obtain ⟨old, hold, rfl⟩ := Option.map_eq_some_iff.mp hj
      obtain ⟨hlist, hsize⟩ := h.sound.exact j old hold
      rw [startingIn_added, hpos]
      by_cases hij : i = j
      · subst hij
        rw [if_pos rfl, if_pos rfl, List.map_append, ← hlist]
        show grow _ (_ + 1) _ = _ ∧ _ + 1 = List.length (grow _ (_ + 1) _)
        rw [hsize, grow_full, List.length_append]
        exact ⟨rfl, rfl⟩
      · rw [if_neg hij, if_neg fun hbad => hij (StatePtr.element.inj hbad).2, List.append_nil]
        exact ⟨hlist, hsize⟩
    · intro u hu
      rw [live_added, live_added]
      rcases List.mem_append.mp hu with hu | hu
      · exact h.sound.live u hu
      · rw [List.mem_singleton.mp hu]
        exact ⟨hstart, hgoal⟩

end

/-! ## every call -/

section
variable {s s' : Registry} {c : Call}

theorem Inv.kept_of_unchanged (h : Inv s) {ret : Ret} (hc : s.map.call c = some (ret, s.map))
    (hret : c.registered ret = []) : ∃ s', s.step c = some s' ∧ Inv s' ∧ Proper s c s' :=
  have hsame := h.of_unchanged hc hret
  ⟨s, hsame.1, h, hsame.2⟩

/-- a call that succeeds keeps its promises when the map is sound afterwards -/
theorem step_ok {map : TransitionMap} (hc : s.map.call c = some (.ok, map)) :
    s.step c = some ⟨map, s.registered ++ c.registered .ok⟩ ∧
      (Sound ⟨map, s.registered ++ c.registered .ok⟩ →
        Proper s c ⟨map, s.registered ++ c.registered .ok⟩) := by
  constructor
  · rw [Registry.step, hc]
    rfl
  · refine fun hsound => ⟨hsound, ?_⟩
    intro ret map' hc' hret
    exact absurd (congrArg Prod.fst (Option.some.inj (hc'.symm.trans hc))) hret

/-- the result of a call is determined: one that is not proper is enough -/
theorem not_kept (hs : s.step c = some s') (hp : ¬ Proper s c s') : ¬ Kept s c := by
  rintro ⟨s₁, hs₁, hp₁⟩
  obtain rfl := Option.some.inj (hs₁.symm.trans hs)
  exact hp hp₁

theorem not_kept_of_changed {ret : Ret} {map : TransitionMap}
    (hc : s.map.call c = some (ret, map)) (hret : ret ≠ .ok) (hne : map ≠ s.map) :
    ¬ Kept s c := by
  rintro ⟨s', hs, hp⟩
  exact not_proper_of_changed hc hret hs hne hp

/-- a careful registration of a state keeps its promises, another one does not -/
theorem registerState_cases (h : Inv s) (state : State) (valid : Bool) (result : Option Nat) :
    let c := Call.registerState state valid result
    Careful s c ∧ (∃ s', s.step c = some s' ∧ Inv s' ∧ Proper s c s') ∨
      ¬ Careful s c ∧ ¬ Kept s c := by
  intro c
  by_cases hid : state.id ∈ s.map.states.map State.id
  · exact .inl ⟨fun hnew => absurd hid hnew, h.kept_of_unchanged (call_registered h hid) rfl⟩
  have hcall : s.map.call c = _ := call_new h hid
  cases valid with
  | false => exact .inl ⟨fun _ hv => (by cases hv), h.kept_of_unchanged hcall rfl⟩
  | true =>
    cases result with
    | none =>
      refine .inr ⟨?_, not_kept_of_changed hcall (by decide) ?_⟩
      · intro hc
        obtain ⟨⟨array, hbad, -⟩, -⟩ := hc hid rfl
        cases hbad
      · intro hbad
        have hsize : s.map.statesSize + 1 = s.map.statesSize :=
          congrArg TransitionMap.statesSize hbad
        omega
    | some array =>
      obtain ⟨hstep, hproper⟩ := step_ok hcall
      have hsound := h.newState hid array
      rw [show s.registered ++ c.registered .ok = s.registered from
        List.append_nil _] at hproper hstep
      by_cases hc : (array = s.map.array ∨ s.registered = []) ∧ state.validTransitions = [] ∧
          state.validTransitionSize = 0
      · refine .inl ⟨fun _ _ => ⟨⟨array, rfl, hc.1⟩, hc.2⟩, _, hstep, ?_, hproper (hsound.mpr hc)⟩
        refine ⟨hsound.mpr hc, ?_, h.transitions, h.transitionsSize⟩
        show s.map.statesSize + 1 = (s.map.states ++ [state]).length
        rw [List.length_append, h.statesSize]
        rfl
      · refine .inr ⟨fun hcareful => hc ?_, not_kept hstep fun hp => hc (hsound.mp hp.sound)⟩
        obtain ⟨⟨array', harray, hmoves⟩, hrest⟩ := hcareful hid rfl
        obtain rfl := Option.some.inj harray
        exact ⟨hmoves, hrest⟩

theorem Live.idOf {map : TransitionMap} {p : StatePtr} (h : Live map p) :
    ∃ id ∈ map.states.map State.id, idOf map p = some id := by
  obtain ⟨i, hi, rfl⟩ := h
  refine ⟨map.states[i].id, List.mem_map_of_mem (List.getElem_mem hi), ?_⟩
  rw [TransitionMaps.idOf, if_pos rfl, List.getElem?_eq_getElem hi]
  rfl

/-- an id that is read and not registered belongs to a state elsewhere -/
theorem other_of_idOf {map : TransitionMap} {p : StatePtr} {id : Nat} (h : idOf map p = some id)
    (hid : id ∉ map.states.map State.id) : p = .other id := by
  cases p with
  | null => cases h
  | other id' => rw [Option.some.inj h]
  | element array index =>
    rw [idOf] at h
    split at h
    · obtain ⟨state, hstate, rfl⟩ := Option.map_eq_some_iff.mp h
      exact absurd (List.mem_map_of_mem (List.mem_of_getElem? hstate)) hid
    · cases h

theorem registerTransition_cases (h : Inv s) (t : Transition)
    (valid allocated allocatedInState : Bool) :
    let c := Call.registerTransition t valid allocated allocatedInState
    Careful s c ∧ (∃ s', s.step c = some s' ∧ Inv s' ∧ Proper s c s') ∨
      ¬ Careful s c ∧ ¬ Kept s c := by
  intro c
  cases valid with
  | false => exact .inl ⟨fun hv => (by cases hv), h.kept_of_unchanged call_invalid rfl⟩
  | true =>
    cases hptr : idOf s.map t.start with
    | none =>
      -- the pointer cannot be followed
      refine .inr ⟨fun hc => ?_, ?_⟩
      · rcases hc rfl with ⟨-, -, hlive, -⟩ | ⟨id, hother, -⟩
        · obtain ⟨id, -, hid⟩ := hlive.idOf
          rw [hptr] at hid
          cases hid
        · rw [hother] at hptr
          cases hptr
      · rintro ⟨s', hs, -⟩
        rw [Registry.step, TransitionMap.call, TransitionMaps.registerTransition, hptr] at hs
        cases hs
    | some id =>
      by_cases hid : id ∈ s.map.states.map State.id
      · -- what is left of `Careful` when the id is registered
        have hregistered : Careful s c → allocated = true ∧ allocatedInState = true ∧
            Live s.map t.start ∧ Live s.map t.goal := by
          intro hc
          rcases hc rfl with hc | ⟨id', hother, hid'⟩
          · exact hc
          · rw [hother] at hptr
            obtain rfl := Option.some.inj hptr
            exact absurd hid hid'
        obtain ⟨i, hfound, ⟨hfail, ret, map, hret, hne, hcall⟩ | ⟨hboth, hcall⟩⟩ :=
          @call_transition s t allocated allocatedInState id h hptr hid
        · refine .inr ⟨fun hc => ?_, not_kept_of_changed hcall hret hne⟩
          obtain ⟨ha, hb, -⟩ := hregistered hc
          rcases hfail with hfail | hfail
          · rw [ha] at hfail
            cases hfail
          · rw [hb] at hfail
            cases hfail
        · obtain ⟨hstep, hproper⟩ := step_ok hcall
          have hsound := h.newTransition hptr hfound
          by_cases hlive : Live s.map t.start ∧ Live s.map t.goal
          · refine .inl ⟨fun _ => .inl ⟨hboth.1, hboth.2, hlive⟩, _, hstep, ?_,
              hproper (hsound.mpr hlive)⟩
            refine ⟨hsound.mpr hlive, ?_, ?_, ?_⟩
            · show s.map.statesSize = (s.map.states.modify i _).length
              rw [List.length_modify, h.statesSize]
            · show s.map.transitions ++ [some t] = (s.registered ++ [t]).map some
              rw [List.map_append, h.transitions]
              rfl
            · show s.map.transitionsSize + 1 = (s.map.transitions ++ [some t]).length
              rw [List.length_append, h.transitionsSize]
              rfl
          · refine .inr ⟨fun hc => hlive (hregistered hc).2.2, not_kept hstep fun hp => ?_⟩
            exact hlive (hsound.mp hp.sound)
      · refine .inl ⟨fun _ => .inr ⟨id, other_of_idOf hptr hid, hid⟩, ?_⟩
        exact h.kept_of_unchanged (call_unregistered h hptr hid) rfl

theorem step_cases (h : Inv s) (c : Call) :
    Careful s c ∧ (∃ s', s.step c = some s' ∧ Inv s' ∧ Proper s c s') ∨
      ¬ Careful s c ∧ ¬ Kept s c := by
  cases c with
  | registerState state valid result => exact registerState_cases h state valid result
  | registerTransition t valid allocated allocatedInState =>
    exact registerTransition_cases h t valid allocated allocatedInState

end

theorem inv_empty : Inv {} := by
  refine ⟨⟨List.nodup_nil, ?_, ?_⟩, rfl, rfl, rfl⟩
  · intro i state hi
    cases hi
  · intro t ht
    cases ht

/-- **Along every run** all calls keep their promises just when all of them are careful. -/
theorem transitionMap_proper_iff (cs : List Call) :
    Meets Registry.step Kept {} cs ↔ Meets Registry.step Careful {} cs := by
  refine meets_iff_of_inv (I := Inv) ?_ ?_ cs {} inv_empty
  · intro s c s' h hs hc
    rcases step_cases h c with ⟨-, s₁, hs₁, hinv, -⟩ | ⟨hbad, -⟩
    · obtain rfl := Option.some.inj (hs₁.symm.trans hs)
      exact hinv
    · exact absurd hc hbad
  · intro s c h
    rcases step_cases h c with ⟨hc, s', hs, -, hp⟩ | ⟨hc, hp⟩
    · exact iff_of_true ⟨s', hs, hp⟩ hc
    · exact iff_of_false hp hc

/-- two states and a transition between them, and a third state for which the array moves -/
theorem not_transitionMap_proper : ¬ ∀ cs, Meets Registry.step Kept {} cs := by
  intro h
  have hrun := h [.registerState ⟨[], 1, [], 0⟩ true (some 7),
    .registerState ⟨[], 2, [], 0⟩ true (some 7),
    .registerTransition ⟨[], 1, .element 7 0, .element 7 1⟩ true true true,
    .registerState ⟨[], 3, [], 0⟩ true (some 8)]
  obtain ⟨s', hs, hproper⟩ := (((hrun.2 _ rfl).2 _ rfl).2 _ rfl).1
  obtain rfl := Option.some.inj hs
  obtain ⟨i, -, hi⟩ := (hproper.sound.live _ List.mem_cons_self).1
  cases hi

end PMROS2.TransitionMaps
