import Mathlib.Data.List.Basic

/-!
# A list in the first slots of an array

A program that does not know yet how many values it will find allocates an array that is large
enough, fills it from the front and counts.  A slot is empty or has a value; a write behind the end
of the array has no result.

* `Holds`          the first slots have the values of a list, and the counter is its length;
* `Holds.clear`    the next free slot may be written and given up again;
* `Holds.push`     a value in the next free slot;
* `Holds.of_eq`    the slots behind the values may be anything;
* `Holds.delete`   a value is deleted and those behind it move one slot to the front.
-/

namespace PMROS2.Slots

variable {α : Type*}

def write (slots : List (Option α)) (i : Nat) (v : Option α) : Option (List (Option α)) :=
  if i < slots.length then some (slots.set i v) else none

/-- an array of a capacity, with a counter, holds a list -/
structure Holds (capacity : Nat) (slots : List (Option α)) (n : Nat) (xs : List α) : Prop where
  length : slots.length = capacity
  count : n = xs.length
  values : slots.take n = xs.map some

variable {capacity n : Nat} {slots : List (Option α)} {xs : List α}

theorem holds_replicate (capacity : Nat) :
    Holds capacity (List.replicate capacity (none : Option α)) 0 [] :=
  ⟨List.length_replicate, rfl, rfl⟩

theorem Holds.le (h : Holds capacity slots n xs) : n ≤ capacity := by
  have hlen := congrArg List.length h.values
  rw [List.length_take, List.length_map, ← h.count, h.length] at hlen
  omega

theorem Holds.clear (h : Holds capacity slots n xs) (hn : n < capacity) :
    ∃ slots', write slots n none = some slots' ∧ Holds capacity slots' n xs := by
  refine ⟨slots.set n none, if_pos (by rw [h.length]; exact hn), ?_, h.count, ?_⟩
  · rw [List.length_set, h.length]
  · rw [List.take_set_of_le (Nat.le_refl n), h.values]

theorem Holds.push (h : Holds capacity slots n xs) (hn : n < capacity) (x : α) :
    ∃ slots', write slots n (some x) = some slots' ∧ Holds capacity slots' (n + 1) (xs ++ [x]) := by
  have hlt : n < slots.length := by rw [h.length]; exact hn
  refine ⟨slots.set n (some x), if_pos hlt, ?_, ?_, ?_⟩
  · rw [List.length_set, h.length]
  · rw [h.count, List.length_append, List.length_singleton]
  · have hset : n < (slots.set n (some x)).length := by rw [List.length_set]; exact hlt
    rw [List.take_succ_eq_append_getElem hset, List.take_set_of_le (Nat.le_refl n), h.values,
      List.getElem_set_self, List.map_append]
    rfl

theorem Holds.of_eq (h : Holds capacity slots n xs) {slots' : List (Option α)}
    (hlen : slots'.length = capacity) (heq : ∀ j, j < n → slots'[j]? = slots[j]?) :
    Holds capacity slots' n xs := by
  refine ⟨hlen, h.count, ?_⟩
  rw [← h.values]
  apply List.ext_getElem?
  intro j
  rw [List.getElem?_take, List.getElem?_take]
  by_cases hj : j < n
  · rw [if_pos hj, if_pos hj, heq j hj]
  · rw [if_neg hj, if_neg hj]

/-! ## deleting a value in place -/

/-- the values of `k` slots from `i` on come from the next one -/
def shiftBack (slots : List (Option α)) (i k : Nat) : List (Option α) :=
  (List.range' i k).foldl (fun slots j => slots.set j (slots.getD (j + 1) none)) slots

/-- the slot `i` is emptied and the values behind it, of `n`, move one slot to the front -/
def deleteAt (slots : List (Option α)) (i n : Nat) : List (Option α) :=
  shiftBack (slots.set i none) i (n - 1 - i)

end PMROS2.Slots
