import PMROS2.IntraProcess.RingBuffer
import PMROS2.Lib.Runs
import PMROS2.Lib.Writes

/-!
# The ring buffer as a bounded keyed store

What `MappedRingBuffer` is for, in its own terms: of the values that were pushed, the last `size`
that were not popped since can be found by their key.  `History` is what was pushed and popped,
`History.live` says what can be found.

The calls of the buffer have an output argument, which may hold a value before the call.  `get`
and the `pop` of a `unique_ptr` reset it first; the `pop` of a `shared_ptr` does not.

* `RingBuffer.answers`        what a buffer answers to a list of calls;
* `History.answers`           what the keyed store answers;
* `refines_keyed_store_iff`   when these are the same.
-/

namespace PMROS2.IntraProcess
open Runs Writes

/-! ## the calls -/

inductive Call (M : Type) where
  | pushAndReplace (key : Nat) (own : Ownership) (value : M)
  /-- with what the output argument holds -/
  | get (own : Ownership) (key : Nat) (value : Option M)
  | pop (own : Ownership) (key : Nat) (value : Option M)
  | hasKey (key : Nat)

inductive Answer (M : Type) where
  | replaced (didReplace : Bool)
  /-- what the output argument holds behind the call -/
  | value (value : Option M)
  | found (found : Bool)

variable {M : Type}

def Call.pushed : Call M → Option Nat
  | .pushAndReplace key _ _ => some key
  | _ => none

namespace RingBuffer
variable (b : RingBuffer M)

/-- `has_key` -/
def hasKey (key : Nat) : Bool := (b.indexOfKey key).isSome

/-- `did_replace` of `push_and_replace` -/
def didReplace : Bool := (b.elements[b.head]?).any Element.inUse

/-- `get`, which resets its output argument first -/
def getInto (own : Ownership) (key : Nat) (_value : Option M) :
    Except String (Option M) × RingBuffer M :=
  b.get own key

/-- `pop`: where the key is not found, only the overload for a `unique_ptr` has reset its output
argument -/
def popInto (own : Ownership) (key : Nat) (value : Option M) :
    Except String (Option M) × RingBuffer M :=
  match b.indexOfKey key with
  | none => (.ok (if own = .unique then none else value), b)
  | some _ => b.pop own key

def call : Call M → Except String (Answer M) × RingBuffer M
  | .pushAndReplace key own value =>
    (.ok (.replaced b.didReplace), b.pushAndReplace key own value)
  | .get own key value => ((b.getInto own key value).1.map .value, (b.getInto own key value).2)
  | .pop own key value => ((b.popInto own key value).1.map .value, (b.popInto own key value).2)
  | .hasKey key => (.ok (.found (b.hasKey key)), b)

end RingBuffer

def RingBuffer.answers (b : RingBuffer M) : List (Call M) → List (Except String (Answer M))
  | [] => []
  | c :: cs => (b.call c).1 :: (b.call c).2.answers cs

/-! ## the keyed store -/

/-- what was pushed, in order, and the keys that were popped after they were pushed -/
structure History (M : Type) where
  log : List (Nat × M) := []
  popped : List Nat := []

namespace History
variable (size : Nat) (h : History M)

/-- the last `size` pushes -/
def recent : List (Nat × M) := h.log.drop (h.log.length - size)

/-- the value of a key that is among the last `size` pushes and was not popped since -/
def live (key : Nat) : Option M :=
  if key ∈ h.popped then none else (h.recent size |>.find? fun e => e.1 = key).map Prod.snd

/-- the next push displaces an element that is live -/
def displaces : Bool :=
  if size ≤ h.log.length then
    match h.log[h.log.length - size]? with
    | some (key, _) => key ∉ h.popped
    | none => false
  else false

def call : Call M → Answer M × History M
  | .pushAndReplace key _ value =>
    (.replaced (h.displaces size), { h with log := h.log ++ [(key, value)] })
  | .get _ key _ => (.value (h.live size key), h)
  | .pop _ key _ =>
    (.value (h.live size key),
      { h with popped := if key ∈ h.log.map Prod.fst then key :: h.popped else h.popped })
  | .hasKey key => (.found (h.live size key).isSome, h)

end History

def History.answers (size : Nat) (h : History M) : List (Call M) → List (Answer M)
  | [] => []
  | c :: cs => (h.call size c).1 :: (h.call size c).2.answers size cs

def History.step (size : Nat) (h : History M) (c : Call M) : Option (History M) :=
  some (h.call size c).2

/-- the `pop` of a `shared_ptr` finds its key, or its output argument is null -/
def History.Discards (size : Nat) (h : History M) : Call M → Prop
  | .pop .shared key (some _) => (h.live size key).isSome = true
  | _ => True

instance History.Discards.decidable (size : Nat) (h : History M) :
    ∀ c, Decidable (h.Discards size c)
  | .pop .shared key (some _) => inferInstanceAs (Decidable ((h.live size key).isSome = true))
  | .pop .shared _ none | .pop .unique _ _ => .isTrue trivial
  | .pushAndReplace _ _ _ | .get _ _ _ | .hasKey _ => .isTrue trivial

/-! ## the refinement -/

/-- a buffer and the history of its calls -/
structure Refines (size : Nat) (b : RingBuffer M) (h : History M) : Prop where
  size_eq : b.size = size
  tracks : b.Tracks h.log (· ∈ h.popped)
  unpopped : ∀ e ∈ b.elements, e.inUse = true → e.key ∉ h.popped
  distinct : (h.log.map Prod.fst).Nodup
  pushed : ∀ k ∈ h.popped, k ∈ h.log.map Prod.fst

theorem refines_construct {size : Nat} (hsize : 0 < size) :
    Refines size (RingBuffer.construct M size) {} where
  size_eq := List.length_replicate
  tracks := RingBuffer.tracks_construct size hsize _
  unpopped := fun _ _ _ hk => (by cases hk)
  distinct := List.nodup_nil
  pushed := fun _ hk => (by cases hk)

section
variable {size : Nat} {b : RingBuffer M} {h : History M}

theorem History.mem_recent {e : Nat × M} :
    e ∈ h.recent size ↔ ∃ j, h.log[j]? = some e ∧ h.log.length ≤ j + size := by
  unfold History.recent
  rw [List.mem_iff_getElem?]
  constructor
  · rintro ⟨i, hi⟩
    rw [List.getElem?_drop] at hi
    exact ⟨_, hi, by omega⟩
  · rintro ⟨j, hj, hlen⟩
    refine ⟨j - (h.log.length - size), ?_⟩
    rw [List.getElem?_drop, ← hj]
    congr 1
    omega

theorem History.live_eq_some (hnd : (h.log.map Prod.fst).Nodup) {k : Nat} {v : M} :
    h.live size k = some v ↔
      (∃ j, h.log[j]? = some (k, v) ∧ h.log.length ≤ j + size) ∧ k ∉ h.popped := by
  unfold History.live
  by_cases hk : k ∈ h.popped
  · rw [if_pos hk]
    exact ⟨fun hn => (by cases hn), fun hn => absurd hk hn.2⟩
  · rw [if_neg hk, find?_key_eq_some, mem_recent]
    · exact (and_iff_left hk).symm
    · rw [History.recent, List.map_drop]
      exact hnd.sublist (List.drop_sublist _ _)

theorem Refines.found (hr : Refines size b h) {k i : Nat} (hi : b.indexOfKey k = some i) :
    ∃ e v, b.elements[i]? = some e ∧ e.key = k ∧ e.Holds v ∧ h.live size k = some v := by
  obtain ⟨e, he, hk, hin⟩ := RingBuffer.indexOfKey_some hi
  obtain ⟨j, v, hj, -, hlen, hholds⟩ := hr.tracks.slot i e he hin
  refine ⟨e, v, he, hk, hholds, (History.live_eq_some hr.distinct).mpr ⟨⟨j, ?_, ?_⟩, ?_⟩⟩
  · rw [← hk]
    exact hj
  · rw [← hr.size_eq]
    exact hlen
  · rw [← hk]
    exact hr.unpopped e (List.mem_of_getElem? he) hin

theorem Refines.absent (hr : Refines size b h) {k : Nat} (hi : b.indexOfKey k = none) :
    h.live size k = none := by
  rw [Option.eq_none_iff_forall_ne_some]
  intro v hv
  obtain ⟨⟨j, hj, hlen⟩, hpop⟩ := (History.live_eq_some hr.distinct).mp hv
  obtain ⟨e, he, hin, hk, -⟩ := hr.tracks.keep j k v hj (hr.size_eq ▸ hlen) hpop
  exact RingBuffer.indexOfKey_none hi e (List.mem_of_getElem? he) hin hk

theorem Refines.hasKey (hr : Refines size b h) (k : Nat) :
    b.hasKey k = (h.live size k).isSome := by
  unfold RingBuffer.hasKey
  cases hi : b.indexOfKey k with
  | none =>
    rw [hr.absent hi]
    rfl
  | some i =>
    obtain ⟨e, v, -, -, -, hv⟩ := hr.found hi
    rw [hv]
    rfl

theorem Refines.atKey_fst (hr : Refines size b h) {act : Element M → Except String M × Element M}
    (hact : Yields act) (k : Nat) : (b.atKey act k).1 = .ok (h.live size k) := by
  unfold RingBuffer.atKey
  cases hi : b.indexOfKey k with
  | none => rw [hr.absent hi]
  | some i =>
    obtain ⟨e, v, he, -, hholds, hv⟩ := hr.found hi
    simp only [he, hact.value e v hholds, hv]
    rfl

/-- the element at the head was pushed `size` pushes ago -/
theorem Refines.didReplace (hr : Refines size b h) : b.didReplace = h.displaces size := by
  have hpos : 0 < size := hr.size_eq ▸ hr.tracks.pos
  have hhead : b.head = h.log.length % size := hr.size_eq ▸ hr.tracks.head
  have hlt : b.head < b.elements.length := by
    rw [hhead, show b.elements.length = size from hr.size_eq]
    exact Nat.mod_lt _ hpos
  rw [Bool.eq_iff_iff]
  unfold RingBuffer.didReplace History.displaces
  rw [List.getElem?_eq_getElem hlt, Option.any_some]
  constructor
  · intro hin
    obtain ⟨j, v, hj, hmod, hlen, -⟩ := hr.tracks.slot b.head _ (List.getElem?_eq_getElem hlt) hin
    rw [hr.size_eq] at hmod hlen
    have hjlt := (List.getElem?_eq_some_iff.mp hj).1
    -- of the last `size` places only the first is in the slot of the head
    have hjeq : j + size = h.log.length := by
      by_contra hne
      exact RingBuffer.mod_ne_of_lt (n := size) hjlt (by omega) (hmod.trans hhead)
    rw [if_pos (by omega), show h.log.length - size = j by omega, hj]
    exact decide_eq_true (hr.unpopped _ (List.getElem_mem hlt) hin)
  · intro hd
    by_cases hle : size ≤ h.log.length
    · rw [if_pos hle] at hd
      cases hj : h.log[h.log.length - size]? with
      | none =>
        rw [hj] at hd
        cases hd
      | some e =>
        obtain ⟨k, v⟩ := e
        rw [hj] at hd
        obtain ⟨e, he, hin, -⟩ := hr.tracks.keep _ k v hj (by rw [hr.size_eq]; omega)
          (of_decide_eq_true hd)
        have hslot : (h.log.length - size) % b.size = b.head := by
          rw [hr.size_eq, hhead, ← Nat.add_mod_right (h.log.length - size) size,
            Nat.sub_add_cancel hle]
        rw [hslot, List.getElem?_eq_getElem hlt] at he
        obtain rfl := Option.some.inj he
        exact hin
    · rw [if_neg hle] at hd
      cases hd

end

/-! ## one call -/

section
variable {size : Nat} {b : RingBuffer M} {h : History M}

/-- an element in use behind `get` or `pop` was in use before, under the same key -/
theorem RingBuffer.atKey_elements {act : Element M → Except String M × Element M}
    (hact : Yields act) {k i : Nat} {e : Element M} (he : (b.atKey act k).2.elements[i]? = some e)
    (hin : e.inUse = true) : ∃ e₀, b.elements[i]? = some e₀ ∧ e₀.inUse = true ∧ e₀.key = e.key := by
  unfold RingBuffer.atKey at he
  cases hk : b.indexOfKey k with
  | none =>
    rw [hk] at he
    exact ⟨e, he, hin, rfl⟩
  | some i₁ =>
    obtain ⟨e₁, he₁, -, hin₁⟩ := RingBuffer.indexOfKey_some hk
    rw [hk] at he
    simp only [he₁] at he
    by_cases hi : i₁ = i
    · subst hi
      have hlt := (List.getElem?_eq_some_iff.mp he₁).1
      rw [List.getElem?_set_self hlt] at he
      obtain rfl := Option.some.inj he
      exact ⟨e₁, he₁, hin₁, (hact.key e₁).symm⟩
    · rw [List.getElem?_set_ne hi] at he
      exact ⟨e, he, hin, rfl⟩

theorem Refines.push (hr : Refines size b h) {k : Nat} (own : Ownership) (v : M)
    (hk : k ∉ h.log.map Prod.fst) :
    Refines size (b.pushAndReplace k own v) { h with log := h.log ++ [(k, v)] } where
  size_eq := (RingBuffer.size_pushAndReplace b k own v).trans hr.size_eq
  tracks := hr.tracks.pushAndReplace k own v
  unpopped := by
    intro e he hin
    rcases List.mem_or_eq_of_mem_set he with he | rfl
    · exact hr.unpopped e he hin
    · exact fun hpop => hk (hr.pushed k hpop)
  distinct := by
    rw [List.map_append, List.nodup_append]
    refine ⟨hr.distinct, List.nodup_singleton _, fun k₁ h₁ k₂ h₂ heq => hk ?_⟩
    have hk₂ : k₂ = k := List.mem_singleton.mp h₂
    rw [← hk₂, ← heq]
    exact h₁
  pushed := by
    intro k' hk'
    rw [List.map_append]
    exact List.mem_append_left _ (hr.pushed k' hk')

theorem Refines.get (hr : Refines size b h) (own : Ownership) (k : Nat) :
    Refines size (b.get own k).2 h where
  size_eq := (RingBuffer.size_atKey b _ k).trans hr.size_eq
  tracks := hr.tracks.atKey_snd (yields_getElement own) k (fun _ hk => hk)
    (.inr (getElement_inUse own))
  unpopped := by
    intro e he hin
    obtain ⟨i, hi⟩ := List.mem_iff_getElem?.mp he
    obtain ⟨e₀, he₀, hin₀, hkey⟩ := RingBuffer.atKey_elements (yields_getElement own) hi hin
    rw [← hkey]
    exact hr.unpopped e₀ (List.mem_of_getElem? he₀) hin₀
  distinct := hr.distinct
  pushed := hr.pushed

theorem Refines.place_unique (hr : Refines size b h) {i i' : Nat} {e e' : Element M}
    (he : b.elements[i]? = some e) (hin : e.inUse = true) (he' : b.elements[i']? = some e')
    (hin' : e'.inUse = true) (hkey : e.key = e'.key) : i = i' := by
  obtain ⟨j, v, hj, hmod, -⟩ := hr.tracks.slot i e he hin
  obtain ⟨j', v', hj', hmod', -⟩ := hr.tracks.slot i' e' he' hin'
  have hkeys : (h.log.map Prod.fst)[j]? = (h.log.map Prod.fst)[j']? := by
    rw [List.getElem?_map, List.getElem?_map, hj, hj']
    exact congrArg some hkey
  have hlt : j < (h.log.map Prod.fst).length := by
    rw [List.length_map]
    exact (List.getElem?_eq_some_iff.mp hj).1
  rw [← hmod, ← hmod', (List.getElem?_inj hlt hr.distinct).mp hkeys]

theorem Refines.pop_key (hr : Refines size b h) (own : Ownership) {k : Nat} {e : Element M}
    (he : e ∈ (b.pop own k).2.elements) (hin : e.inUse = true) : e.key ≠ k := by
  intro hkey
  obtain ⟨i, hi⟩ := List.mem_iff_getElem?.mp he
  obtain ⟨e₀, he₀, hin₀, hkey₀⟩ := RingBuffer.atKey_elements (yields_popElement own) hi hin
  rw [hkey] at hkey₀
  cases hk : b.indexOfKey k with
  | none => exact RingBuffer.indexOfKey_none hk e₀ (List.mem_of_getElem? he₀) hin₀ hkey₀
  | some i₁ =>
    -- the element with the key is the one that was found, which is not in use any more
    obtain ⟨e₁, v, he₁, hkey₁, hholds, -⟩ := hr.found hk
    obtain ⟨e₂, he₂, -, hin₁⟩ := RingBuffer.indexOfKey_some hk
    obtain rfl := Option.some.inj (he₁.symm.trans he₂)
    obtain rfl := hr.place_unique he₀ hin₀ he₁ hin₁ (hkey₀.trans hkey₁.symm)
    unfold RingBuffer.pop RingBuffer.atKey at hi
    rw [hk] at hi
    simp only [he₁] at hi
    rw [List.getElem?_set_self (List.getElem?_eq_some_iff.mp he₁).1] at hi
    obtain rfl := Option.some.inj hi
    rw [popElement_inUse own e₁ v hholds] at hin
    cases hin

theorem Refines.pop (hr : Refines size b h) (own : Ownership) (k : Nat) :
    Refines size (b.pop own k).2
      { h with popped := if k ∈ h.log.map Prod.fst then k :: h.popped else h.popped } where
  size_eq := (RingBuffer.size_atKey b _ k).trans hr.size_eq
  tracks := by
    by_cases hk : k ∈ h.log.map Prod.fst
    · simp only [if_pos hk]
      exact hr.tracks.atKey_snd (yields_popElement own) k (fun _ h => List.mem_cons_of_mem k h)
        (.inl List.mem_cons_self)
    · -- a key that was never pushed is not found
      have hnone : b.indexOfKey k = none := by
        rw [Option.eq_none_iff_forall_ne_some]
        intro i hi
        obtain ⟨e, v, he, hkey, -, hlive⟩ := hr.found hi
        obtain ⟨⟨j, hj, -⟩, -⟩ := (History.live_eq_some hr.distinct).mp hlive
        exact hk (List.mem_map.mpr ⟨(k, v), List.mem_of_getElem? hj, rfl⟩)
      simp only [if_neg hk]
      unfold RingBuffer.pop RingBuffer.atKey
      rw [hnone]
      exact hr.tracks
  unpopped := by
    intro e he hin
    have hne := hr.pop_key own he hin
    obtain ⟨i, hi⟩ := List.mem_iff_getElem?.mp he
    obtain ⟨e₀, he₀, hin₀, hkey⟩ := RingBuffer.atKey_elements (yields_popElement own) hi hin
    have hold := hr.unpopped e₀ (List.mem_of_getElem? he₀) hin₀
    rw [hkey] at hold
    show e.key ∉ if k ∈ h.log.map Prod.fst then k :: h.popped else h.popped
    split
    · rw [List.mem_cons]
      exact fun h => h.elim hne hold
    · exact hold
  distinct := hr.distinct
  pushed := by
    intro k' hk'
    by_cases hk : k ∈ h.log.map Prod.fst
    · simp only [if_pos hk, List.mem_cons] at hk'
      rcases hk' with rfl | hk'
      · exact hk
      · exact hr.pushed k' hk'
    · simp only [if_neg hk] at hk'
      exact hr.pushed k' hk'

theorem RingBuffer.popInto_snd (b : RingBuffer M) (own : Ownership) (k : Nat)
    (value : Option M) : (b.popInto own k value).2 = (b.pop own k).2 := by
  unfold RingBuffer.popInto RingBuffer.pop RingBuffer.atKey
  cases b.indexOfKey k with
  | none => rfl
  | some i => rfl

/-- **One call** keeps the refinement. -/
theorem Refines.call (hr : Refines size b h) (c : Call M)
    (hnew : ∀ k, c.pushed = some k → k ∉ h.log.map Prod.fst) :
    Refines size (b.call c).2 (h.call size c).2 := by
  cases c with
  | pushAndReplace k own v => exact hr.push own v (hnew k rfl)
  | get own k value => exact hr.get own k
  | pop own k value =>
    show Refines size (b.popInto own k value).2 _
    rw [RingBuffer.popInto_snd]
    exact hr.pop own k
  | hasKey k => exact hr

/-- **What `pop` returns**: the value that is live, but for a `shared_ptr` that is not null and a
key that is absent. -/
theorem Refines.popInto_fst (hr : Refines size b h) (own : Ownership) (k : Nat)
    (value : Option M) :
    (b.popInto own k value).1 =
      .ok (if own = .shared ∧ h.live size k = none then value else h.live size k) := by
  unfold RingBuffer.popInto
  cases hi : b.indexOfKey k with
  | none =>
    rw [hr.absent hi]
    cases own with
    | unique => rfl
    | shared => rfl
  | some i =>
    obtain ⟨-, v, -, -, -, hv⟩ := hr.found hi
    show (b.atKey (RingBuffer.popElement own) k).1 = _
    rw [hr.atKey_fst (yields_popElement own), hv]
    simp

/-- **One call** answers as the keyed store does, just when it discards what its output argument
held. -/
theorem Refines.answer_iff (hr : Refines size b h) (c : Call M) :
    (b.call c).1 = .ok (h.call size c).1 ↔ h.Discards size c := by
  cases c with
  | pushAndReplace k own v =>
    refine iff_of_true ?_ trivial
    show Except.ok (Answer.replaced b.didReplace) = _
    rw [hr.didReplace]
    rfl
  | get own k value =>
    refine iff_of_true ?_ trivial
    show (b.atKey (RingBuffer.getElement own) k).1.map Answer.value = _
    rw [hr.atKey_fst (yields_getElement own)]
    rfl
  | hasKey k =>
    refine iff_of_true ?_ trivial
    show Except.ok (Answer.found (b.hasKey k)) = _
    rw [hr.hasKey]
    rfl
  | pop own k value =>
    show (b.popInto own k value).1.map Answer.value = .ok (Answer.value (h.live size k)) ↔ _
    rw [hr.popInto_fst]
    cases own with
    | unique => exact iff_of_true rfl trivial
    | shared =>
      cases hv : h.live size k with
      | some v =>
        refine iff_of_true rfl ?_
        cases value with
        | none => trivial
        | some w =>
          show (h.live size k).isSome = true
          rw [hv]
          rfl
      | none =>
        cases value with
        | none => exact iff_of_true rfl trivial
        | some w =>
          refine iff_of_false (fun heq => ?_) fun hd => ?_
          · cases heq
          · have hd : (h.live size k).isSome = true := hd
            rw [hv] at hd
            cases hd

theorem Refines.answer_ok (hr : Refines size b h) (c : Call M) : ∃ a, (b.call c).1 = .ok a := by
  cases c with
  | pushAndReplace k own v => exact ⟨_, rfl⟩
  | hasKey k => exact ⟨_, rfl⟩
  | get own k value =>
    show ∃ a, (b.atKey (RingBuffer.getElement own) k).1.map Answer.value = .ok a
    rw [hr.atKey_fst (yields_getElement own)]
    exact ⟨_, rfl⟩
  | pop own k value =>
    show ∃ a, (b.popInto own k value).1.map Answer.value = .ok a
    rw [hr.popInto_fst]
    exact ⟨_, rfl⟩

end

/-! ## every list of calls -/

section
variable {size : Nat}

/-- the keys that are still to be pushed are new -/
theorem answers_iff (cs : List (Call M)) :
    ∀ {b : RingBuffer M} {h : History M}, Refines size b h → (cs.filterMap Call.pushed).Nodup →
      (∀ k ∈ cs.filterMap Call.pushed, k ∉ h.log.map Prod.fst) →
      (b.answers cs = (h.answers size cs).map .ok ↔
        Along (History.step size) (fun h c _ => h.Discards size c) h cs) ∧
      ∀ a ∈ b.answers cs, ∃ r, a = .ok r := by
  induction cs with
  | nil => exact fun _ _ _ => ⟨iff_of_true rfl trivial, fun a ha => (by cases ha)⟩
  | cons c cs ih =>
    intro b h hr hnd hnew
    have hnew₁ : ∀ k, c.pushed = some k → k ∉ h.log.map Prod.fst := fun k hk =>
      hnew k (List.mem_filterMap.mpr ⟨c, List.mem_cons_self, hk⟩)
    have hstep := hr.call c hnew₁
    have hnd' : (cs.filterMap Call.pushed).Nodup :=
      hnd.sublist ((List.sublist_cons_self c cs).filterMap _)
    have hnew' : ∀ k ∈ cs.filterMap Call.pushed, k ∉ (h.call size c).2.log.map Prod.fst := by
      intro k hk
      have hold : k ∉ h.log.map Prod.fst := by
        obtain ⟨c', hc', hk'⟩ := List.mem_filterMap.mp hk
        exact hnew k (List.mem_filterMap.mpr ⟨c', List.mem_cons_of_mem c hc', hk'⟩)
      cases c with
      | pushAndReplace k₁ own v =>
        have hne : k ≠ k₁ := by
          rintro rfl
          exact (List.nodup_cons.mp hnd).1 hk
        show k ∉ (h.log ++ [(k₁, v)]).map Prod.fst
        rw [List.map_append, List.mem_append]
        exact fun h => h.elim hold fun h => hne (List.mem_singleton.mp h)
      | get own k₁ value => exact hold
      | pop own k₁ value => exact hold
      | hasKey k₁ => exact hold
    obtain ⟨hrest, hok⟩ := ih hstep hnd' hnew'
    constructor
    · show (b.call c).1 :: (b.call c).2.answers cs =
        .ok (h.call size c).1 :: ((h.call size c).2.answers size cs).map .ok ↔ _
      have hs : h.step size c = some (h.call size c).2 := rfl
      rw [List.cons.injEq, hr.answer_iff, hrest, along_cons_some cs hs]
    · intro a ha
      rcases List.mem_cons.mp ha with rfl | ha
      · exact hr.answer_ok c
      · exact hok a ha

/-- **The ring buffer refines a bounded keyed store.**  For every size and every list of calls that
push distinct keys: no call meets an element in use without a value, and all answers are those of
the keyed store just when no `pop` of a `shared_ptr` that is not null asks for an absent key. -/
theorem refines_keyed_store_iff (hsize : 0 < size) {cs : List (Call M)}
    (hkeys : (cs.filterMap Call.pushed).Nodup) :
    ((RingBuffer.construct M size).answers cs = (History.answers size {} cs).map .ok ↔
      Along (History.step size) (fun h c _ => h.Discards size c) ({} : History M) cs) ∧
    ∀ a ∈ (RingBuffer.construct M size).answers cs, a ≠ .error unexpectedEmpty := by
  obtain ⟨hiff, hok⟩ := answers_iff cs (refines_construct hsize) hkeys fun k _ hk => (by cases hk)
  refine ⟨hiff, fun a ha herr => ?_⟩
  obtain ⟨r, hr⟩ := hok a ha
  rw [hr] at herr
  cases herr

end

/-- a push, an upgrade to a `shared_ptr`, a copy, a pop and a push that displaces nothing -/
theorem refines_keyed_store_one :
    (0 < 1 ∧ ([.pushAndReplace 3 .unique 'a', .get .shared 3 none, .get .unique 3 none,
        .pop .shared 3 none, .pushAndReplace 4 .shared 'b', .hasKey 3, .hasKey 4] :
          List (Call Char)).filterMap Call.pushed = [3, 4]) ∧
      (RingBuffer.construct Char 1).answers [.pushAndReplace 3 .unique 'a', .get .shared 3 none,
        .get .unique 3 none, .pop .shared 3 none, .pushAndReplace 4 .shared 'b', .hasKey 3,
        .hasKey 4] =
        [.ok (.replaced false), .ok (.value (some 'a')), .ok (.value (some 'a')),
          .ok (.value (some 'a')), .ok (.replaced false), .ok (.found false), .ok (.found true)] :=
  ⟨by decide, (refines_keyed_store_iff (by decide) (by decide)).1.mpr (by decide)⟩

/-- the `pop` of a `shared_ptr` that holds `'z'` for a key that was never pushed -/
theorem pop_keeps_output_argument :
    (RingBuffer.construct Char 1).answers [.pop .shared 3 (some 'z')] ≠
      (History.answers 1 {} [.pop .shared 3 (some 'z')]).map .ok := by
  intro h
  have hvalue : (Except.ok (Answer.value (some 'z')) : Except String (Answer Char)) =
      .ok (.value none) := (List.cons.inj h).1
  cases hvalue

end PMROS2.IntraProcess
