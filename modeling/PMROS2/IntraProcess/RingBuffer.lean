import Mathlib

/-!
# The mapped ring buffer

`MappedRingBuffer` (`mapped_ring_buffer.hpp`): a fixed vector of elements with a key, a value
held by a `unique_ptr` or by a `shared_ptr`, and a flag.  `push_and_replace` writes at the head;
`get` copies or shares the value of a key, `pop` gives it away.

`Tracks b log popped` relates a buffer to what was pushed into it, in order: the element of an
entry of `log` is at the position of the entry modulo the size, the last `size` entries that were
not popped are in use, and what is in use has the value that was pushed.
-/

namespace PMROS2.IntraProcess

/-- which pointer type a message is held by, or asked for -/
inductive Ownership where
  | unique
  | shared
  deriving DecidableEq

structure Element (M : Type) where
  key : Nat
  uniqueValue : Option M
  sharedValue : Option M
  inUse : Bool

def Element.fresh {M : Type} : Element M := ⟨0, none, none, false⟩

structure RingBuffer (M : Type) where
  elements : List (Element M)
  head : Nat

/-- the exception for an element in use without a value -/
abbrev unexpectedEmpty : String := "Unexpected empty MappedRingBuffer element."

namespace RingBuffer
variable {M : Type} (b : RingBuffer M)

/-- `MappedRingBuffer(size)` for a positive size -/
def construct (M : Type) (size : Nat) : RingBuffer M := ⟨List.replicate size .fresh, 0⟩

def size : Nat := b.elements.length

/-- `get_iterator_of_key` -/
def indexOfKey (key : Nat) : Option Nat :=
  b.elements.findIdx? fun e => e.key = key && e.inUse

/-- `push_and_replace`, for both pointer types -/
def pushAndReplace (key : Nat) (own : Ownership) (value : M) : RingBuffer M :=
  { elements := b.elements.set b.head
      { key := key
        uniqueValue := if own = .unique then some value else none
        sharedValue := if own = .shared then some value else none
        inUse := true }
    head := (b.head + 1) % b.size }

/-- what `get` does with the element it finds: its value or the exception, and the element it
leaves.  Sharing a value that is held uniquely moves it to the `shared_ptr`. -/
def getElement (own : Ownership) (e : Element M) : Except String M × Element M :=
  match own with
  | .unique =>
    match e.uniqueValue, e.sharedValue with
    | some v, _ => (.ok v, e)
    | none, some v => (.ok v, e)
    | none, none => (.error unexpectedEmpty, e)
  | .shared =>
    match e.sharedValue, e.uniqueValue with
    | some v, _ => (.ok v, e)
    | none, some v => (.ok v, { e with sharedValue := some v, uniqueValue := none })
    | none, none => (.error unexpectedEmpty, e)

/-- what `pop` does with the element it finds -/
def popElement (own : Ownership) (e : Element M) : Except String M × Element M :=
  match own with
  | .unique =>
    match e.uniqueValue, e.sharedValue with
    | some v, _ => (.ok v, { e with uniqueValue := none, inUse := false })
    | none, some v => (.ok v, { e with sharedValue := none, inUse := false })
    | none, none => (.error unexpectedEmpty, e)
  | .shared =>
    match e.sharedValue, e.uniqueValue with
    | some v, _ => (.ok v, { e with sharedValue := none, inUse := false })
    | none, some v => (.ok v, { e with uniqueValue := none, inUse := false })
    | none, none => (.error unexpectedEmpty, e)

/-- find the key, act on its element; a key that is not found gives a null pointer -/
def atKey (act : Element M → Except String M × Element M) (key : Nat) :
    Except String (Option M) × RingBuffer M :=
  match b.indexOfKey key with
  | none => (.ok none, b)
  | some i =>
    match b.elements[i]? with
    | none => (.ok none, b)
    | some e =>
      let (value, e) := act e
      (value.map some, { b with elements := b.elements.set i e })

/-- `get` -/
def get (own : Ownership) (key : Nat) : Except String (Option M) × RingBuffer M :=
  b.atKey (getElement own) key

/-- `pop` -/
def pop (own : Ownership) (key : Nat) : Except String (Option M) × RingBuffer M :=
  b.atKey (popElement own) key

end RingBuffer

/-! ## the elements -/

section
variable {M : Type}

def Element.Holds (e : Element M) (v : M) : Prop :=
  (e.uniqueValue = some v ∧ e.sharedValue = none) ∨
    (e.uniqueValue = none ∧ e.sharedValue = some v)

/-- acting on an element in use returns the value it holds, and leaves an element of the same
key that, if it is still in use, holds the value -/
structure Yields (act : Element M → Except String M × Element M) : Prop where
  value : ∀ e v, e.Holds v → (act e).1 = .ok v
  key : ∀ e, (act e).2.key = e.key
  holds : ∀ e v, e.Holds v → (act e).2.inUse = true → (act e).2.Holds v

theorem yields_getElement (own : Ownership) : Yields (RingBuffer.getElement (M := M) own) := by
  refine ⟨fun e v h => ?_, fun e => ?_, fun e v h _ => ?_⟩
  · obtain ⟨k, u, s, i⟩ := e
    rcases h with ⟨rfl, rfl⟩ | ⟨rfl, rfl⟩ <;> cases own <;> rfl
  · obtain ⟨k, u, s, i⟩ := e
    cases own <;> cases u <;> cases s <;> rfl
  · obtain ⟨k, u, s, i⟩ := e
    rcases h with ⟨rfl, rfl⟩ | ⟨rfl, rfl⟩ <;> cases own
    · exact .inl ⟨rfl, rfl⟩
    · exact .inr ⟨rfl, rfl⟩
    · exact .inr ⟨rfl, rfl⟩
    · exact .inr ⟨rfl, rfl⟩

theorem getElement_inUse (own : Ownership) (e : Element M) :
    (RingBuffer.getElement own e).2.inUse = e.inUse := by
  obtain ⟨k, u, s, i⟩ := e
  cases own <;> cases u <;> cases s <;> rfl

theorem popElement_inUse (own : Ownership) (e : Element M) (v : M) (h : e.Holds v) :
    (RingBuffer.popElement own e).2.inUse = false := by
  obtain ⟨k, u, s, i⟩ := e
  rcases h with ⟨rfl, rfl⟩ | ⟨rfl, rfl⟩ <;> cases own <;> rfl

theorem yields_popElement (own : Ownership) : Yields (RingBuffer.popElement (M := M) own) := by
  refine ⟨fun e v h => ?_, fun e => ?_, fun e v h hin => ?_⟩
  · obtain ⟨k, u, s, i⟩ := e
    rcases h with ⟨rfl, rfl⟩ | ⟨rfl, rfl⟩ <;> cases own <;> rfl
  · obtain ⟨k, u, s, i⟩ := e
    cases own <;> cases u <;> cases s <;> rfl
  · rw [popElement_inUse own e v h] at hin
    cases hin

end

/-! ## the buffer and what was pushed -/

namespace RingBuffer
variable {M : Type}

structure Tracks (b : RingBuffer M) (log : List (Nat × M)) (popped : Nat → Prop) : Prop where
  pos : 0 < b.size
  head : b.head = log.length % b.size
  slot : ∀ (i : Nat) (e : Element M), b.elements[i]? = some e → e.inUse = true →
    ∃ j v, log[j]? = some (e.key, v) ∧ j % b.size = i ∧ log.length ≤ j + b.size ∧ e.Holds v
  keep : ∀ (j k : Nat) (v : M), log[j]? = some (k, v) → log.length ≤ j + b.size → ¬ popped k →
    ∃ e, b.elements[j % b.size]? = some e ∧ e.inUse = true ∧ e.key = k ∧ e.Holds v

theorem tracks_construct (size : Nat) (h : 0 < size) (popped : Nat → Prop) :
    (construct M size).Tracks [] popped := by
  have hsize : (construct M size).size = size := List.length_replicate
  refine ⟨by rw [hsize]; exact h, (Nat.zero_mod _).symm, fun i e he hin => ?_, fun j k v hj => ?_⟩
  · obtain ⟨_, rfl⟩ := List.mem_replicate.mp (List.mem_of_getElem? he)
    cases hin
  · cases hj

theorem Tracks.mono {b : RingBuffer M} {log : List (Nat × M)} {popped popped' : Nat → Prop}
    (h : b.Tracks log popped) (hpop : ∀ k, popped k → popped' k) : b.Tracks log popped' :=
  ⟨h.pos, h.head, h.slot, fun j k v hj hlen hp => h.keep j k v hj hlen fun hp' => hp (hpop k hp')⟩

theorem size_pushAndReplace (b : RingBuffer M) (k : Nat) (own : Ownership) (v : M) :
    (b.pushAndReplace k own v).size = b.size := List.length_set

theorem mod_ne_of_lt {i j n : Nat} (hij : i < j) (hjn : j < i + n) : i % n ≠ j % n := by
  intro h
  have hdvd : n ∣ j - i := (Nat.modEq_iff_dvd' hij.le).mp h
  have hle := Nat.le_of_dvd (by omega) hdvd
  omega

/-- pushing appends to the log, and displaces what was pushed `size` entries before -/
theorem Tracks.pushAndReplace {b : RingBuffer M} {log : List (Nat × M)} {popped : Nat → Prop}
    (h : b.Tracks log popped) (k : Nat) (own : Ownership) (v : M) :
    (b.pushAndReplace k own v).Tracks (log ++ [(k, v)]) popped := by
  have hsize := size_pushAndReplace b k own v
  have hheadlt : b.head < b.elements.length := by
    rw [h.head]
    exact Nat.mod_lt _ h.pos
  -- the element that is written
  have hnew : ∀ e : Element M, (b.pushAndReplace k own v).elements[b.head]? = some e →
      e.inUse = true ∧ e.key = k ∧ e.Holds v := by
    intro e he
    have he' : some _ = some e := (List.getElem?_set_self hheadlt).symm.trans he
    obtain rfl := Option.some.inj he'
    refine ⟨rfl, rfl, ?_⟩
    cases own
    · exact .inl ⟨rfl, rfl⟩
    · exact .inr ⟨rfl, rfl⟩
  have hold : ∀ i : Nat, i ≠ b.head →
      (b.pushAndReplace k own v).elements[i]? = b.elements[i]? := by
    intro i hi
    exact List.getElem?_set_ne (Ne.symm hi)
  refine ⟨hsize ▸ h.pos, ?_, fun i e he hin => ?_, fun j k' v' hj hlen hpop => ?_⟩
  · rw [hsize, List.length_append, List.length_singleton]
    show (b.head + 1) % b.size = _
    rw [h.head, Nat.mod_add_mod]
  · rw [hsize, List.length_append, List.length_singleton]
    by_cases hi : i = b.head
    · subst hi
      obtain ⟨_, hkey, hholds⟩ := hnew e he
      refine ⟨log.length, v, ?_, h.head.symm, by have := h.pos; omega, hholds⟩
      rw [hkey, List.getElem?_append_right (le_refl _), Nat.sub_self]
      rfl
    · rw [hold i hi] at he
      obtain ⟨j, v', hj, hmod, hlen, hholds⟩ := h.slot i e he hin
      have hjlt : j < log.length := (List.getElem?_eq_some_iff.mp hj).1
      refine ⟨j, v', by rw [List.getElem?_append_left hjlt]; exact hj, hmod, ?_, hholds⟩
      -- an entry `size` back would be in the slot of the head
      by_contra hcon
      have heq : log.length = j + b.size := by omega
      apply hi
      rw [h.head, heq, Nat.add_mod_right, hmod]
  · rw [hsize] at hlen ⊢
    rw [List.length_append, List.length_singleton] at hlen
    by_cases hjlt : j < log.length
    · rw [List.getElem?_append_left hjlt] at hj
      obtain ⟨e, he, hrest⟩ := h.keep j k' v' hj (by omega) hpop
      refine ⟨e, ?_, hrest⟩
      rw [hold _ (by rw [h.head]; exact mod_ne_of_lt hjlt (by omega))]
      exact he
    · have hjeq : j = log.length := by
        have := (List.getElem?_eq_some_iff.mp hj).1
        rw [List.length_append, List.length_singleton] at this
        omega
      subst hjeq
      rw [List.getElem?_append_right (le_refl _), Nat.sub_self] at hj
      obtain ⟨rfl, rfl⟩ : k = k' ∧ v = v' := by simpa using hj
      rw [← h.head]
      have hlt : b.head < (b.pushAndReplace k own v).elements.length := by
        rw [show (b.pushAndReplace k own v).elements.length = b.elements.length from hsize]
        exact hheadlt
      have he := List.getElem?_eq_getElem hlt
      exact ⟨_, he, hnew _ he⟩

/-! ## finding a key -/

theorem indexOfKey_some {b : RingBuffer M} {k i : Nat} (h : b.indexOfKey k = some i) :
    ∃ e, b.elements[i]? = some e ∧ e.key = k ∧ e.inUse = true := by
  obtain ⟨hlt, hp, _⟩ := List.findIdx?_eq_some_iff_getElem.mp h
  rw [Bool.and_eq_true, decide_eq_true_iff] at hp
  exact ⟨_, List.getElem?_eq_getElem hlt, hp⟩

theorem indexOfKey_none {b : RingBuffer M} {k : Nat} (h : b.indexOfKey k = none) :
    ∀ e ∈ b.elements, e.inUse = true → e.key ≠ k := by
  intro e he hin hk
  have hp := List.findIdx?_eq_none_iff.mp h e he
  simp [hk, hin] at hp

/-- **What `get` and `pop` return.**  With distinct keys: a value that is returned is the one
pushed under the key, and a value that was neither displaced nor popped is returned. -/
theorem Tracks.atKey_fst {b : RingBuffer M} {log : List (Nat × M)} {popped : Nat → Prop}
    (h : b.Tracks log popped) (hnd : (log.map Prod.fst).Nodup)
    {act : Element M → Except String M × Element M} (hact : Yields act) (k : Nat) :
    ∃ r, (b.atKey act k).1 = .ok r ∧ (∀ v, r = some v → (k, v) ∈ log) ∧
      ∀ (j : Nat) (v : M), log[j]? = some (k, v) → log.length ≤ j + b.size → ¬ popped k →
        r = some v := by
  unfold atKey
  cases hi : b.indexOfKey k with
  | none =>
    refine ⟨none, rfl, fun v hv => (by cases hv), fun j v hj hlen hpop => ?_⟩
    obtain ⟨e, he, hin, hk, _⟩ := h.keep j k v hj hlen hpop
    exact absurd hk (indexOfKey_none hi e (List.mem_of_getElem? he) hin)
  | some i =>
    obtain ⟨e, he, hk, hin⟩ := indexOfKey_some hi
    obtain ⟨j, v, hj, _, _, hholds⟩ := h.slot i e he hin
    rw [hk] at hj
    simp only [he, hact.value e v hholds]
    refine ⟨some v, rfl, fun v' hv => ?_, fun j' v' hj' _ _ => ?_⟩
    · obtain rfl := Option.some.inj hv
      exact List.mem_of_getElem? hj
    · -- the key was pushed once
      have hjlt := (List.getElem?_eq_some_iff.mp hj).1
      have hkeys : (log.map Prod.fst)[j]? = (log.map Prod.fst)[j']? := by
        rw [List.getElem?_map, List.getElem?_map, hj, hj']
        rfl
      have hjj : j = j' := (List.getElem?_inj (by rw [List.length_map]; exact hjlt) hnd).mp hkeys
      subst hjj
      rw [hj] at hj'
      obtain rfl : v = v' := by simpa using hj'
      rfl

/-- **What `get` and `pop` leave.**  An action that may take its element out of use counts as a
pop of the key. -/
theorem Tracks.atKey_snd {b : RingBuffer M} {log : List (Nat × M)} {popped popped' : Nat → Prop}
    (h : b.Tracks log popped) {act : Element M → Except String M × Element M} (hact : Yields act)
    (k : Nat) (hpop : ∀ k', popped k' → popped' k')
    (huse : popped' k ∨ ∀ e, (act e).2.inUse = e.inUse) :
    (b.atKey act k).2.Tracks log popped' := by
  have hweak := h.mono hpop
  unfold atKey
  cases hi : b.indexOfKey k with
  | none => exact hweak
  | some i =>
    obtain ⟨e, he, hk, hin⟩ := indexOfKey_some hi
    obtain ⟨j, v, hj, hmod, hlen, hholds⟩ := h.slot i e he hin
    have hilt : i < b.elements.length := (List.getElem?_eq_some_iff.mp he).1
    have hsize : ({ b with elements := b.elements.set i (act e).2 } : RingBuffer M).size = b.size :=
      List.length_set
    simp only [he]
    refine ⟨hsize ▸ h.pos, hsize ▸ h.head, fun i' e' he' hin' => ?_, fun j' k' v' hj' hlen' hp => ?_⟩
    · rw [hsize]
      by_cases hii : i' = i
      · subst hii
        have heq : some (act e).2 = some e' := (List.getElem?_set_self hilt).symm.trans he'
        obtain rfl := Option.some.inj heq
        rw [hact.key e]
        exact ⟨j, v, hj, hmod, hlen, hact.holds e v hholds hin'⟩
      · exact h.slot i' e' ((List.getElem?_set_ne (Ne.symm hii)).symm.trans he') hin'
    · rw [hsize] at hlen' ⊢
      obtain ⟨e', he', hin', hk', hholds'⟩ := hweak.keep j' k' v' hj' hlen' hp
      by_cases hii : j' % b.size = i
      · -- the element acted on is not popped, so it stays in use
        rw [hii] at he' ⊢
        obtain rfl := Option.some.inj (he.symm.trans he')
        have huse' : (act e).2.inUse = e.inUse := by
          rcases huse with hpk | huse
          · rw [← hk, hk'] at hpk
            exact absurd hpk hp
          · exact huse e
        refine ⟨(act e).2, List.getElem?_set_self hilt, huse'.trans hin', (hact.key e).trans hk', ?_⟩
        exact hact.holds e v' hholds' (huse'.trans hin')
      · exact ⟨e', (List.getElem?_set_ne (Ne.symm hii)).trans he', hin', hk', hholds'⟩

theorem size_atKey (b : RingBuffer M) (act : Element M → Except String M × Element M) (k : Nat) :
    (b.atKey act k).2.size = b.size := by
  unfold atKey
  cases b.indexOfKey k with
  | none => rfl
  | some i =>
    simp only
    cases b.elements[i]? with
    | none => rfl
    | some e => exact List.length_set

end RingBuffer

end PMROS2.IntraProcess
