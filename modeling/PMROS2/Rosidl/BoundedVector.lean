import Mathlib.Algebra.Group.Nat.Defs
import PMROS2.Lib.Runs
import PMROS2.Lib.Throwing

/-!
# Bounded vectors

`BoundedVector` (`bounded_vector.hpp`) is a `std::vector` that compares the size of each result with
a bound.  For a range of iterators this takes a pass of its own, by `std::distance`, before the pass
that copies the elements; single-pass iterators have nothing left for the second one.

* `StdVector`, `BoundedVector`   the operations of both classes;
* `Range`                        iterators, with what a second pass gives;
* `Meets`                        what the bounded operation should do, given the other one;
* `Method.meets_iff`             it does, but for ranges that a second pass does not give again;
* `boundedVector_proper_iff`     the same along every run, over any number of vectors.

Allocations succeed up to `max_size()`, elements are copied without exceptions.  `BoundedVector`
has no `emplace_back`, and its `swap` does not compile (the base class is protected); two vectors
are swapped by `std::swap`.
-/

set_option linter.unusedSectionVars false

namespace PMROS2.BoundedVectors

open Runs Throwing

/-! ## the operations -/

inductive Exception where
  | lengthError
  deriving DecidableEq

/-- `max_size()` of `std::vector` is a `ptrdiff_t` -/
structure Platform where
  maxSize : Nat
  maxSize_lt : maxSize < 2 ^ 63

/-- iterators from `first` to `last`: the elements, and what a second pass from `first` on gives
(the same for forward iterators) -/
structure Range (α : Type) where
  elements : List α
  again : List α
  /-- `std::distance` has a value -/
  distance_lt : elements.length < 2 ^ 63

abbrev VectorM (α β : Type) := EStateM Exception (List α) β

variable {α : Type} [Inhabited α] (p : Platform) (bound : Nat)

namespace StdVector

/-- the elements, if a vector can have so many -/
def assign (v : List α) : VectorM α Unit :=
  if p.maxSize < v.length then throw .lengthError else set v

def resize (n : Nat) (x : α) : VectorM α Unit := do
  let v ← get
  assign p (v.take n ++ List.replicate (n - v.length) x)

def pushBack (x : α) : VectorM α Unit := do
  let v ← get
  assign p (v ++ [x])

/-- all of `insert` and `emplace`; the iterator is a position -/
def insert (pos : Nat) (xs : List α) : VectorM α Nat := do
  let v ← get
  assign p (v.take pos ++ xs ++ v.drop pos)
  return pos

def erase (first last : Nat) : VectorM α Nat := do
  modify fun v => v.take first ++ v.drop last
  return first

def popBack : VectorM α Unit := modify List.dropLast

def clear : VectorM α Unit := set ([] : List α)

end StdVector

/-- `size_t` -/
def sizeSum (m n : Nat) : Nat := (m + n) % 2 ^ 64

namespace BoundedVector

def ofSize (n : Nat) : VectorM α Unit := do
  StdVector.assign p (List.replicate n default)
  throwIf (bound < n) .lengthError

def ofValue (n : Nat) (x : α) : VectorM α Unit := do
  StdVector.assign p (List.replicate n x)
  throwIf (bound < n) .lengthError

def ofList (l : List α) : VectorM α Unit := do
  StdVector.assign p l
  throwIf (bound < l.length) .lengthError

def ofRange (r : Range α) : VectorM α Unit := do
  StdVector.assign p r.elements
  let v ← get
  throwIf (bound < v.length) .lengthError

def assignValue (n : Nat) (x : α) : VectorM α Unit := do
  throwIf (bound < n) .lengthError
  StdVector.assign p (List.replicate n x)

/-- the base class makes the second pass -/
def assignRange (r : Range α) : VectorM α Unit := do
  throwIf (bound < r.elements.length) .lengthError
  StdVector.assign p r.again

/-- also `operator=` -/
def assignList (l : List α) : VectorM α Unit := do
  throwIf (bound < l.length) .lengthError
  StdVector.assign p l

def resize (n : Nat) (x : α) : VectorM α Unit := do
  throwIf (bound < n) .lengthError
  StdVector.resize p n x

def pushBack (x : α) : VectorM α Unit := do
  let v ← get
  throwIf (bound ≤ v.length) .lengthError
  StdVector.pushBack p x

def emplace (pos : Nat) (x : α) : VectorM α Nat := do
  let v ← get
  throwIf (bound ≤ v.length) .lengthError
  StdVector.insert p pos [x]

def insert (pos : Nat) (x : α) : VectorM α Nat := do
  let v ← get
  throwIf (bound ≤ v.length) .lengthError
  StdVector.insert p pos [x]

def insertList (pos : Nat) (l : List α) : VectorM α Nat := do
  let v ← get
  throwIf (bound < sizeSum v.length l.length) .lengthError
  StdVector.insert p pos l

def insertValue (pos n : Nat) (x : α) : VectorM α Nat := do
  let v ← get
  throwIf (bound < sizeSum v.length n) .lengthError
  StdVector.insert p pos (List.replicate n x)

def insertRange (pos : Nat) (r : Range α) : VectorM α Nat := do
  let v ← get
  throwIf (bound < sizeSum v.length r.elements.length) .lengthError
  StdVector.insert p pos r.again

end BoundedVector

/-! ## calls -/

inductive Constructor (α : Type) where
  | empty
  | size (n : Nat)
  | value (n : Nat) (x : α)
  | list (l : List α)
  | range (r : Range α)

namespace Constructor

def std : Constructor α → VectorM α Unit
  | .empty => pure ()
  | .size n => StdVector.assign p (List.replicate n default)
  | .value n x => StdVector.assign p (List.replicate n x)
  | .list l => StdVector.assign p l
  | .range r => StdVector.assign p r.elements

def bounded : Constructor α → VectorM α Unit
  | .empty => pure ()
  | .size n => BoundedVector.ofSize p bound n
  | .value n x => BoundedVector.ofValue p bound n x
  | .list l => BoundedVector.ofList p bound l
  | .range r => BoundedVector.ofRange p bound r

def resultSize : Constructor α → Nat
  | .empty => 0
  | .size n => n
  | .value n _ => n
  | .list l => l.length
  | .range r => r.elements.length

end Constructor

inductive Method (α : Type) where
  | assignValue (n : Nat) (x : α)
  | assignRange (r : Range α)
  | assignList (l : List α)
  /-- `none`: new elements are default constructed -/
  | resize (n : Nat) (x : Option α)
  | pushBack (x : α)
  | emplace (pos : Nat) (x : α)
  | insert (pos : Nat) (x : α)
  | insertList (pos : Nat) (l : List α)
  | insertValue (pos n : Nat) (x : α)
  | insertRange (pos : Nat) (r : Range α)
  | erase (first last : Nat)
  | popBack
  | clear

namespace Method

def std : Method α → VectorM α (Option Nat)
  | .assignValue n x => do StdVector.assign p (List.replicate n x); return none
  | .assignRange r => do StdVector.assign p r.elements; return none
  | .assignList l => do StdVector.assign p l; return none
  | .resize n x => do StdVector.resize p n (x.getD default); return none
  | .pushBack x => do StdVector.pushBack p x; return none
  | .emplace pos x => do return some (← StdVector.insert p pos [x])
  | .insert pos x => do return some (← StdVector.insert p pos [x])
  | .insertList pos l => do return some (← StdVector.insert p pos l)
  | .insertValue pos n x => do return some (← StdVector.insert p pos (List.replicate n x))
  | .insertRange pos r => do return some (← StdVector.insert p pos r.elements)
  | .erase first last => do return some (← StdVector.erase first last)
  | .popBack => do StdVector.popBack; return none
  | .clear => do StdVector.clear; return none

def bounded : Method α → VectorM α (Option Nat)
  | .assignValue n x => do BoundedVector.assignValue p bound n x; return none
  | .assignRange r => do BoundedVector.assignRange p bound r; return none
  | .assignList l => do BoundedVector.assignList p bound l; return none
  | .resize n x => do BoundedVector.resize p bound n (x.getD default); return none
  | .pushBack x => do BoundedVector.pushBack p bound x; return none
  | .emplace pos x => do return some (← BoundedVector.emplace p bound pos x)
  | .insert pos x => do return some (← BoundedVector.insert p bound pos x)
  | .insertList pos l => do return some (← BoundedVector.insertList p bound pos l)
  | .insertValue pos n x => do return some (← BoundedVector.insertValue p bound pos n x)
  | .insertRange pos r => do return some (← BoundedVector.insertRange p bound pos r)
  | .erase first last => do return some (← StdVector.erase first last)
  | .popBack => do StdVector.popBack; return none
  | .clear => do StdVector.clear; return none

def resultSize (v : List α) : Method α → Nat
  | .assignValue n _ => n
  | .assignRange r => r.elements.length
  | .assignList l => l.length
  | .resize n _ => n
  | .pushBack _ => v.length + 1
  | .emplace _ _ => v.length + 1
  | .insert _ _ => v.length + 1
  | .insertList _ l => v.length + l.length
  | .insertValue _ n _ => v.length + n
  | .insertRange _ r => v.length + r.elements.length
  | .erase first last => v.length - (last - first)
  | .popBack => v.length - 1
  | .clear => 0

/-- positions are positions in the vector -/
def Defined (v : List α) : Method α → Prop
  | .emplace pos _ => pos ≤ v.length
  | .insert pos _ => pos ≤ v.length
  | .insertList pos _ => pos ≤ v.length
  | .insertValue pos _ _ => pos ≤ v.length
  | .insertRange pos _ => pos ≤ v.length
  | .erase first last => first ≤ last ∧ last ≤ v.length
  | .popBack => 0 < v.length
  | _ => True

instance decidableDefined (v : List α) (m : Method α) : Decidable (m.Defined v) :=
  match m with
  | .emplace .. | .insert .. | .insertList .. | .insertValue .. | .insertRange .. => Nat.decLe _ _
  | .erase .. => instDecidableAnd
  | .popBack => Nat.decLt _ _
  | .assignValue .. | .assignRange _ | .assignList _ | .resize .. | .pushBack _ | .clear =>
    instDecidableTrue

/-- the pass that copies gives the elements again, or no vector can hold what either gives -/
def Rereads (v : List α) : Method α → Prop
  | .assignRange r => r.elements.length ≤ bound →
    r.again = r.elements ∨ p.maxSize < r.again.length ∧ p.maxSize < r.elements.length
  | .insertRange _ r => v.length + r.elements.length ≤ bound →
    r.again = r.elements ∨
      p.maxSize < v.length + r.again.length ∧ p.maxSize < v.length + r.elements.length
  | _ => True

end Method

section
variable {ι : Type} [DecidableEq ι]

abbrev Vectors (ι α : Type) := ι → List α

/-- the iterator or the exception, and the vectors then -/
abbrev Outcome (ι α : Type) := EStateM.Result Exception (Vectors ι α) (Option Nat)

/-- a new vector; there is none if the constructor throws -/
def constructAt (s : Vectors ι α) (i : ι) (x : VectorM α Unit) : Outcome ι α :=
  match x.run [] with
  | .ok _ v => .ok none (Function.update s i v)
  | .error e _ => .error e s

def methodAt (s : Vectors ι α) (i : ι) (x : VectorM α (Option Nat)) : Outcome ι α :=
  match x.run (s i) with
  | .ok r v => .ok r (Function.update s i v)
  | .error e v => .error e (Function.update s i v)

def StdVector.swap (s : Vectors ι α) (i j : ι) : Vectors ι α :=
  Function.update (Function.update s i (s j)) j (s i)

/-- `std::swap`: a move construction and two copy assignments -/
def BoundedVector.swap (s : Vectors ι α) (i j : ι) : Vectors ι α :=
  let tmp := s i
  let s := Function.update s i []
  let s := Function.update s i (s j)
  Function.update s j tmp

inductive Call (ι α : Type) where
  | construct (i : ι) (c : Constructor α)
  | copyConstruct (i j : ι)
  | moveConstruct (i j : ι)
  | copyAssign (i j : ι)
  | method (i : ι) (m : Method α)
  | swap (i j : ι)

namespace Call

def std (s : Vectors ι α) : Call ι α → Outcome ι α
  | .construct i c => constructAt s i (c.std p)
  | .copyConstruct i j => .ok none (Function.update s i (s j))
  | .moveConstruct i j => .ok none (Function.update (Function.update s j []) i (s j))
  | .copyAssign i j => .ok none (Function.update s i (s j))
  | .method i m => methodAt s i (m.std p)
  | .swap i j => .ok none (StdVector.swap s i j)

/-- the copy and move constructors and `operator=` are those of the base class -/
def bounded (s : Vectors ι α) : Call ι α → Outcome ι α
  | .construct i c => constructAt s i (c.bounded p bound)
  | .copyConstruct i j => .ok none (Function.update s i (s j))
  | .moveConstruct i j => .ok none (Function.update (Function.update s j []) i (s j))
  | .copyAssign i j => .ok none (Function.update s i (s j))
  | .method i m => methodAt s i (m.bounded p bound)
  | .swap i j => .ok none (BoundedVector.swap s i j)

def resultSize (s : Vectors ι α) : Call ι α → Nat
  | .construct _ c => c.resultSize
  | .copyConstruct _ j | .moveConstruct _ j | .copyAssign _ j => (s j).length
  | .method i m => m.resultSize (s i)
  | .swap i j => max (s i).length (s j).length

def Defined (s : Vectors ι α) : Call ι α → Prop
  | .method i m => m.Defined (s i)
  | _ => True

instance decidableDefined (s : Vectors ι α) (c : Call ι α) : Decidable (c.Defined s) :=
  match c with
  | .method i m => Method.decidableDefined (s i) m
  | .construct .. | .copyConstruct .. | .moveConstruct .. | .copyAssign .. | .swap .. =>
    instDecidableTrue

def Rereads (s : Vectors ι α) : Call ι α → Prop
  | .method i m => m.Rereads p bound (s i)
  | _ => True

end Call

def Outcome.vectors : Outcome ι α → Vectors ι α
  | .ok _ s => s
  | .error _ s => s

def step (s : Vectors ι α) (c : Call ι α) : Option (Vectors ι α) :=
  if c.Defined s then some (c.bounded p bound s).vectors else none

/-- what a call promises -/
structure Proper (s : Vectors ι α) (c : Call ι α) (s' : Vectors ι α) : Prop where
  sizes : ∀ i, (s' i).length ≤ bound
  throws : bound < c.resultSize s → c.bounded p bound s = .error .lengthError s
  same : c.resultSize s ≤ bound → c.bounded p bound s = c.std p s

end

/-! ## one operation -/

section
variable {β γ : Type}

/-- what an operation on bounded vectors should give, by the size of the result -/
structure Meets (size : Nat) (v : List α) (r std : EStateM.Result Exception (List α) β) : Prop where
  throws : bound < size → r = .error .lengthError v
  same : size ≤ bound → r = std

/-- the result is a vector of this size, if there can be one -/
def Fits (size : Nat) (v : List α) (r : EStateM.Result Exception (List α) β) : Prop :=
  size ≤ p.maxSize ∧ (∃ a v', r = .ok a v' ∧ v'.length = size) ∨
    p.maxSize < size ∧ r = .error .lengthError v

variable {p bound}

theorem assign_run (xs v : List α) : (StdVector.assign p xs).run v =
    if p.maxSize < xs.length then .error .lengthError v else .ok () xs := by
  unfold StdVector.assign
  split <;> rfl

theorem assign_fits (xs v : List α) : Fits p xs.length v ((StdVector.assign p xs).run v) := by
  rw [assign_run]
  by_cases h : p.maxSize < xs.length
  · rw [if_pos h]
    exact .inr ⟨h, rfl⟩
  · rw [if_neg h]
    exact .inl ⟨Nat.le_of_not_lt h, (), xs, rfl, rfl⟩

theorem Fits.bind {size : Nat} {v : List α} {x : VectorM α β} (h : Fits p size v (x.run v))
    (g : β → γ) : Fits p size v ((x >>= fun a => pure (g a)).run v) := by
  rcases h with ⟨hle, a, v', hx, hlen⟩ | ⟨hlt, hx⟩
  · exact .inl ⟨hle, g a, v', bind_ok hx, hlen⟩
  · exact .inr ⟨hlt, bind_error hx⟩

theorem insert_run (pos : Nat) (xs v : List α) : (StdVector.insert p pos xs).run v =
    (StdVector.assign p (v.take pos ++ xs ++ v.drop pos) >>= fun _ => pure pos).run v := rfl

theorem length_insert {pos : Nat} {v : List α} (xs : List α) (h : pos ≤ v.length) :
    (v.take pos ++ xs ++ v.drop pos).length = v.length + xs.length := by
  rw [List.length_append, List.length_append, List.length_take_of_le h, List.length_drop]
  omega

theorem insert_fits {pos : Nat} {v : List α} (xs : List α) (h : pos ≤ v.length) :
    Fits p (v.length + xs.length) v ((StdVector.insert p pos xs).run v) := by
  rw [insert_run, ← length_insert xs h]
  exact (assign_fits _ v).bind fun _ => pos

theorem resize_fits (n : Nat) (x : α) (v : List α) :
    Fits p n v ((StdVector.resize p n x).run v) := by
  have hlen : (v.take n ++ List.replicate (n - v.length) x).length = n := by
    rw [List.length_append, List.length_take, List.length_replicate]
    omega
  have h := assign_fits (p := p) (v.take n ++ List.replicate (n - v.length) x) v
  rw [hlen] at h
  exact h

theorem pushBack_fits (x : α) (v : List α) :
    Fits p (v.length + 1) v ((StdVector.pushBack p x).run v) := by
  have h := assign_fits (p := p) (v ++ [x]) v
  rw [List.length_append] at h
  exact h

/-- the sizes of the results are those of `std::vector` -/
theorem Method.std_fits {m : Method α} {v : List α} (hdef : m.Defined v)
    (hv : v.length ≤ p.maxSize) : Fits p (m.resultSize v) v ((m.std p).run v) := by
  have hreplicate : ∀ (n : Nat) (x : α), (List.replicate n x).length = n := fun _ _ =>
    List.length_replicate
  cases m with
  | assignValue n x =>
    have h := (assign_fits (p := p) (List.replicate n x) v).bind fun _ => (none : Option Nat)
    rw [hreplicate] at h
    exact h
  | assignRange r => exact (assign_fits r.elements v).bind fun _ => none
  | assignList l => exact (assign_fits l v).bind fun _ => none
  | resize n x => exact (resize_fits n (x.getD default) v).bind fun _ => none
  | pushBack x => exact (pushBack_fits x v).bind fun _ => none
  | emplace pos x => exact (insert_fits [x] hdef).bind some
  | insert pos x => exact (insert_fits [x] hdef).bind some
  | insertList pos l => exact (insert_fits l hdef).bind some
  | insertValue pos n x =>
    have h := (insert_fits (p := p) (List.replicate n x) hdef).bind some
    rw [hreplicate] at h
    exact h
  | insertRange pos r => exact (insert_fits r.elements hdef).bind some
  | erase first last =>
    have hlen : (v.take first ++ v.drop last).length = v.length - (last - first) := by
      obtain ⟨hle, hlast⟩ := hdef
      rw [List.length_append, List.length_take, List.length_drop]
      omega
    exact .inl ⟨Nat.le_trans (Nat.sub_le ..) hv, some first, _, rfl, hlen⟩
  | popBack =>
    exact .inl ⟨Nat.le_trans (Nat.sub_le ..) hv, none, v.dropLast, rfl, List.length_dropLast⟩
  | clear => exact .inl ⟨Nat.zero_le _, none, [], rfl, rfl⟩

theorem checked_run (c : Bool) (x : VectorM α β) (k : β → VectorM α γ) (v : List α) :
    ((throwIf c .lengthError >>= fun _ => x) >>= k).run v =
      if c then .error .lengthError v else (x >>= k).run v := by
  cases c <;> rfl

/-- the check may let a size pass that no vector can have -/
theorem Fits.meets_checked {size : Nat} {v : List α} {r : EStateM.Result Exception (List α) β}
    {c : Bool} (h : Fits p size v r) (hpass : size ≤ bound → c = false)
    (hstop : bound < size → size ≤ p.maxSize → c = true) :
    Meets bound size v (if c then .error .lengthError v else r) r := by
  constructor
  · intro hlt
    cases c with
    | true => rfl
    | false =>
      rcases h with ⟨hle, -⟩ | ⟨-, hr⟩
      · cases hstop hlt hle
      · exact hr
  · intro hle
    rw [hpass hle]
    rfl

theorem sizeSum_of_le (m n : Nat) (h : m + n ≤ p.maxSize) : sizeSum m n = m + n := by
  have := p.maxSize_lt
  unfold sizeSum
  omega

theorem sizeSum_le (m n : Nat) : sizeSum m n ≤ m + n := Nat.mod_le _ _

theorem Fits.meets_sum {m n : Nat} {v : List α} {r : EStateM.Result Exception (List α) β}
    (h : Fits p (m + n) v r) :
    Meets bound (m + n) v
      (if decide (bound < sizeSum m n) then .error .lengthError v else r) r := by
  apply h.meets_checked
  · intro hle
    exact decide_eq_false (Nat.not_lt.mpr (Nat.le_trans (sizeSum_le m n) hle))
  · intro hlt hfits
    rw [sizeSum_of_le m n hfits]
    exact decide_eq_true hlt

theorem Fits.meets_size {size : Nat} {v : List α} {r : EStateM.Result Exception (List α) β}
    (h : Fits p size v r) :
    Meets bound size v (if decide (bound < size) then .error .lengthError v else r) r :=
  h.meets_checked (fun hle => decide_eq_false (Nat.not_lt.mpr hle)) fun hlt _ => decide_eq_true hlt

/-- two ways to fill a vector -/
theorem assign_run_eq_iff (xs ys v : List α) (k : Unit → VectorM α γ)
    (hk : ∀ {s t : List α}, (k ()).run s = (k ()).run t → s = t)
    (hok : ∀ s t, (k ()).run s ≠ .error .lengthError t) :
    (StdVector.assign p xs >>= k).run v = (StdVector.assign p ys >>= k).run v ↔
      xs = ys ∨ p.maxSize < xs.length ∧ p.maxSize < ys.length := by
  have hrun : ∀ zs : List α, (StdVector.assign p zs >>= k).run v =
      if p.maxSize < zs.length then .error .lengthError v else (k ()).run zs := by
    intro zs
    have hz := assign_run (p := p) zs v
    split at hz
    · rename_i h
      rw [if_pos h, bind_error hz]
    · rename_i h
      rw [if_neg h, bind_ok hz]
  rw [hrun, hrun]
  by_cases hxs : p.maxSize < xs.length <;> by_cases hys : p.maxSize < ys.length
  · rw [if_pos hxs, if_pos hys]
    exact iff_of_true rfl (.inr ⟨hxs, hys⟩)
  · rw [if_pos hxs, if_neg hys]
    refine iff_of_false (fun h => hok _ _ h.symm) ?_
    rintro (rfl | ⟨-, h⟩)
    · exact hys hxs
    · exact hys h
  · rw [if_neg hxs, if_pos hys]
    refine iff_of_false (hok _ _) ?_
    rintro (rfl | ⟨h, -⟩)
    · exact hxs hys
    · exact hxs h
  · rw [if_neg hxs, if_neg hys]
    constructor
    · exact fun h => .inl (hk h)
    · rintro (rfl | ⟨h, -⟩)
      · rfl
      · exact absurd h hxs

theorem insert_bind_run (pos : Nat) (xs v : List α) (k : Nat → VectorM α γ) :
    (StdVector.insert p pos xs >>= k).run v =
      (StdVector.assign p (v.take pos ++ xs ++ v.drop pos) >>= fun _ => k pos).run v := by
  unfold StdVector.insert
  rw [bind_assoc, get_bind, bind_assoc]
  simp only [pure_bind]

theorem meets_exact_iff {size : Nat} {v : List α}
    {r std : EStateM.Result Exception (List α) β} :
    Meets bound size v (if decide (bound < size) then .error .lengthError v else r) std ↔
      (size ≤ bound → r = std) := by
  constructor
  · intro h hle
    have hsame := h.same hle
    rw [decide_eq_false (Nat.not_lt.mpr hle)] at hsame
    exact hsame
  · intro h
    constructor
    · intro hlt
      rw [decide_eq_true hlt]
      rfl
    · intro hle
      rw [decide_eq_false (Nat.not_lt.mpr hle)]
      exact h hle

/-- **One operation** does what it should unless a second pass gives something else. -/
theorem Method.meets_iff {m : Method α} {v : List α} (hdef : m.Defined v)
    (hmax : v.length ≤ p.maxSize) (hbound : v.length ≤ bound) :
    Meets bound (m.resultSize v) v ((m.bounded p bound).run v) ((m.std p).run v) ↔
      m.Rereads p bound v := by
  have hfits := m.std_fits hdef hmax
  -- one more element
  have hone : ∀ r : EStateM.Result Exception (List α) (Option Nat), Fits p (v.length + 1) v r →
      Meets bound (v.length + 1) v
        (if decide (bound ≤ v.length) then .error .lengthError v else r) r := by
    intro r h
    apply h.meets_checked
    · exact fun hle => decide_eq_false (Nat.not_le.mpr hle)
    · exact fun hlt _ => decide_eq_true (Nat.le_of_lt_succ hlt)
  -- no more elements than before
  have hless : ∀ {size : Nat} (r : EStateM.Result Exception (List α) (Option Nat)),
      size ≤ v.length → Meets bound size v r r := fun r hle =>
    ⟨fun hlt => absurd (Nat.le_trans hle hbound) (Nat.not_le.mpr hlt), fun _ => rfl⟩
  cases m with
  | assignValue n x =>
    refine iff_of_true ?_ trivial
    show Meets bound n v ((_ >>= fun _ => _ : VectorM α (Option Nat)).run v) _
    rw [BoundedVector.assignValue, checked_run]
    exact hfits.meets_size
  | assignList l =>
    refine iff_of_true ?_ trivial
    show Meets bound l.length v ((_ >>= fun _ => _ : VectorM α (Option Nat)).run v) _
    rw [BoundedVector.assignList, checked_run]
    exact hfits.meets_size
  | resize n x =>
    refine iff_of_true ?_ trivial
    show Meets bound n v ((_ >>= fun _ => _ : VectorM α (Option Nat)).run v) _
    rw [BoundedVector.resize, checked_run]
    exact hfits.meets_size
  | pushBack x =>
    refine iff_of_true ?_ trivial
    have hrun := checked_run (bound ≤ v.length) (StdVector.pushBack p x)
      (fun _ => pure (none : Option Nat)) v
    rw [show (Method.bounded p bound (.pushBack x)).run v = _ from hrun]
    exact hone _ hfits
  | emplace pos x =>
    refine iff_of_true ?_ trivial
    have hrun := checked_run (bound ≤ v.length) (StdVector.insert p pos [x])
      (fun i => pure (some i)) v
    rw [show (Method.bounded p bound (.emplace pos x)).run v = _ from hrun]
    exact hone _ hfits
  | insert pos x =>
    refine iff_of_true ?_ trivial
    have hrun := checked_run (bound ≤ v.length) (StdVector.insert p pos [x])
      (fun i => pure (some i)) v
    rw [show (Method.bounded p bound (.insert pos x)).run v = _ from hrun]
    exact hone _ hfits
  | insertList pos l =>
    refine iff_of_true ?_ trivial
    have hrun := checked_run (bound < sizeSum v.length l.length) (StdVector.insert p pos l)
      (fun i => pure (some i)) v
    rw [show (Method.bounded p bound (.insertList pos l)).run v = _ from hrun]
    exact hfits.meets_sum
  | insertValue pos n x =>
    refine iff_of_true ?_ trivial
    have hrun := checked_run (bound < sizeSum v.length n)
      (StdVector.insert p pos (List.replicate n x)) (fun i => pure (some i)) v
    rw [show (Method.bounded p bound (.insertValue pos n x)).run v = _ from hrun]
    exact hfits.meets_sum
  | erase first last => exact iff_of_true (hless _ (Nat.sub_le ..)) trivial
  | popBack => exact iff_of_true (hless _ (Nat.sub_le ..)) trivial
  | clear => exact iff_of_true (hless _ (Nat.zero_le _)) trivial
  | assignRange r =>
    have hrun := checked_run (bound < r.elements.length) (StdVector.assign p r.again)
      (fun _ => pure (none : Option Nat)) v
    rw [show (Method.bounded p bound (.assignRange r)).run v = _ from hrun]
    refine meets_exact_iff.trans (forall_congr' fun _ => ?_)
    exact assign_run_eq_iff _ _ v _ (fun h => (EStateM.Result.ok.inj h).2) fun _ _ h => nomatch h
  | insertRange pos r =>
    have hrun := checked_run (bound < sizeSum v.length r.elements.length)
      (StdVector.insert p pos r.again) (fun i => pure (some i)) v
    -- neither summand is large enough for the sum to wrap around
    have hsum : sizeSum v.length r.elements.length = v.length + r.elements.length := by
      have := p.maxSize_lt
      have := r.distance_lt
      unfold sizeSum
      omega
    rw [show (Method.bounded p bound (.insertRange pos r)).run v = _ from hrun, hsum]
    refine meets_exact_iff.trans (forall_congr' fun _ => ?_)
    show (StdVector.insert p pos r.again >>= fun i => pure (some i)).run v =
      (StdVector.insert p pos r.elements >>= fun i => pure (some i)).run v ↔ _
    rw [insert_bind_run, insert_bind_run, assign_run_eq_iff _ _ v (fun _ => pure (some pos))
      (fun h => (EStateM.Result.ok.inj h).2) fun _ _ h => (nomatch h),
      length_insert _ hdef, length_insert _ hdef, List.append_left_inj, List.append_right_inj]

end

/-! ## calls, one by one -/

section
variable {ι : Type} [DecidableEq ι] {p bound} {s : Vectors ι α}

/-- a constructor lets the base class build the vector, and checks it then -/
theorem constructAt_checked (i : ι) (xs : List α) {k : Unit → VectorM α Unit}
    (hk : (k ()).run xs = (throwIf (bound < xs.length) .lengthError : VectorM α Unit).run xs) :
    constructAt s i (StdVector.assign p xs >>= k) =
      if bound < xs.length then .error .lengthError s
      else constructAt s i (StdVector.assign p xs) := by
  unfold constructAt
  have hrun := assign_run (p := p) xs []
  by_cases hmax : p.maxSize < xs.length
  · rw [if_pos hmax] at hrun
    rw [bind_error hrun, hrun]
    exact (ite_self _).symm
  · rw [if_neg hmax] at hrun
    rw [bind_ok hrun, hk, hrun]
    by_cases hlt : bound < xs.length
    · rw [if_pos hlt, decide_eq_true hlt]
      rfl
    · rw [if_neg hlt, decide_eq_false hlt]
      rfl

theorem Constructor.bounded_eq (c : Constructor α) (i : ι) :
    constructAt s i (c.bounded p bound) =
      if bound < c.resultSize then .error .lengthError s else constructAt s i (c.std p) := by
  have hvalue : ∀ (n : Nat) (x : α), constructAt s i (StdVector.assign p (List.replicate n x) >>=
      fun _ => throwIf (bound < n) .lengthError) =
        if bound < n then .error .lengthError s
        else constructAt s i (StdVector.assign p (List.replicate n x)) := by
    intro n x
    have hlen : (List.replicate n x).length = n := List.length_replicate
    have h := constructAt_checked (p := p) (s := s) i (List.replicate n x)
      (k := fun _ => throwIf (bound < n) .lengthError) (by rw [hlen])
    rw [hlen] at h
    exact h
  cases c with
  | empty => rfl
  | size n => exact hvalue n default
  | value n x => exact hvalue n x
  | list l => exact constructAt_checked i l rfl
  | range r => exact constructAt_checked i r.elements rfl

theorem swap_eq (s : Vectors ι α) (i j : ι) : BoundedVector.swap s i j = StdVector.swap s i j := by
  unfold BoundedVector.swap StdVector.swap
  dsimp only
  rw [Function.update_idem]
  by_cases h : j = i
  · subst h
    rw [Function.update_idem, Function.update_idem]
  · rw [Function.update_of_ne h]

/-- all vectors are within the bound, and are vectors -/
structure Inv (p : Platform) (bound : Nat) (s : Vectors ι α) : Prop where
  bound : ∀ i, (s i).length ≤ bound
  max : ∀ i, (s i).length ≤ p.maxSize

theorem Inv.update (h : Inv p bound s) (i : ι) {v : List α} (hbound : v.length ≤ bound)
    (hmax : v.length ≤ p.maxSize) : Inv p bound (Function.update s i v) := by
  constructor
  · intro k
    by_cases hk : k = i
    · rw [hk, Function.update_self]
      exact hbound
    · rw [Function.update_of_ne hk]
      exact h.bound k
  · intro k
    by_cases hk : k = i
    · rw [hk, Function.update_self]
      exact hmax
    · rw [Function.update_of_ne hk]
      exact h.max k

theorem Inv.copy (h : Inv p bound s) (i j : ι) : Inv p bound (Function.update s i (s j)) :=
  h.update i (h.bound j) (h.max j)

theorem Inv.methodAt (h : Inv p bound s) (i : ι) {size : Nat} {x : VectorM α (Option Nat)}
    (hfits : Fits p size (s i) (x.run (s i))) (hsize : size ≤ bound) :
    Inv p bound (methodAt s i x).vectors := by
  unfold BoundedVectors.methodAt
  rcases hfits with ⟨hle, a, v, hx, rfl⟩ | ⟨-, hx⟩
  · rw [hx]
    exact h.update i hsize hle
  · rw [hx]
    exact h.copy i i

theorem Inv.constructAt (h : Inv p bound s) (i : ι) (c : Constructor α)
    (hsize : c.resultSize ≤ bound) : Inv p bound (constructAt s i (c.std p)).vectors := by
  have hassign : ∀ xs : List α, xs.length ≤ bound →
      Inv p bound (BoundedVectors.constructAt s i (StdVector.assign p xs)).vectors := by
    intro xs hxs
    unfold BoundedVectors.constructAt
    rcases assign_fits (p := p) xs [] with ⟨hle, a, v, hx, hlen⟩ | ⟨-, hx⟩
    · rw [hx]
      exact h.update i (hlen.symm ▸ hxs) (hlen.symm ▸ hle)
    · rw [hx]
      exact h
  cases c with
  | empty => exact h.update i (Nat.zero_le _) (Nat.zero_le _)
  | size n =>
    apply hassign
    rw [List.length_replicate]
    exact hsize
  | value n x =>
    apply hassign
    rw [List.length_replicate]
    exact hsize
  | list l => exact hassign l hsize
  | range r => exact hassign r.elements hsize

theorem Inv.std (h : Inv p bound s) {c : Call ι α} (hdef : c.Defined s)
    (hsize : c.resultSize s ≤ bound) : Inv p bound (c.std p s).vectors := by
  cases c with
  | construct i c => exact h.constructAt i c hsize
  | copyConstruct i j => exact h.copy i j
  | moveConstruct i j =>
    exact (h.update j (Nat.zero_le _) (Nat.zero_le _)).update i (h.bound j) (h.max j)
  | copyAssign i j => exact h.copy i j
  | method i m => exact h.methodAt i (m.std_fits hdef (h.max i)) hsize
  | swap i j => exact (h.copy i j).update j (h.bound i) (h.max i)

/-- the promises but for the sizes, which follow -/
def Refines (p : Platform) (bound : Nat) (s : Vectors ι α) (c : Call ι α) : Prop :=
  (bound < c.resultSize s → c.bounded p bound s = .error .lengthError s) ∧
    (c.resultSize s ≤ bound → c.bounded p bound s = c.std p s)

theorem Inv.next (h : Inv p bound s) {c : Call ι α} (hdef : c.Defined s)
    (hc : Refines p bound s c) : Inv p bound (c.bounded p bound s).vectors := by
  rcases Nat.lt_or_ge bound (c.resultSize s) with hlt | hle
  · rw [hc.1 hlt]
    exact h
  · rw [hc.2 hle]
    exact h.std hdef hle

theorem Inv.refines_base (h : Inv p bound s) {c : Call ι α} (i : ι)
    (hsize : c.resultSize s ≤ (s i).length) (heq : c.bounded p bound s = c.std p s) :
    Refines p bound s c :=
  ⟨fun hlt => absurd (Nat.le_trans hsize (h.bound i)) (Nat.not_le.mpr hlt), fun _ => heq⟩

theorem methodAt_eq_iff {i : ι} {x y : VectorM α (Option Nat)} :
    methodAt s i x = methodAt s i y ↔ x.run (s i) = y.run (s i) := by
  unfold methodAt
  constructor
  · intro h
    cases hx : x.run (s i) <;> cases hy : y.run (s i) <;> rw [hx, hy] at h
    · obtain ⟨rfl, hv⟩ := EStateM.Result.ok.inj h
      rw [Function.update_injective s i hv]
    · cases h
    · cases h
    · obtain ⟨rfl, hv⟩ := EStateM.Result.error.inj h
      rw [Function.update_injective s i hv]
  · intro h
    rw [h]

theorem methodAt_eq_error_iff {i : ι} {x : VectorM α (Option Nat)} {e : Exception} :
    methodAt s i x = .error e s ↔ x.run (s i) = .error e (s i) := by
  have hthrow : methodAt s i (throw e) = .error e s := by
    show EStateM.Result.error e (Function.update s i (s i)) = _
    rw [Function.update_eq_self]
  rw [← hthrow, methodAt_eq_iff]
  rfl

/-- **One call.** -/
theorem Inv.refines_iff (h : Inv p bound s) {c : Call ι α} (hdef : c.Defined s) :
    Refines p bound s c ↔ c.Rereads p bound s := by
  cases c with
  | construct i c =>
    refine iff_of_true ⟨fun hlt => ?_, fun hle => ?_⟩ trivial
    · exact (c.bounded_eq i).trans (if_pos hlt)
    · exact (c.bounded_eq i).trans (if_neg (Nat.not_lt.mpr hle))
  | copyConstruct i j => exact iff_of_true (h.refines_base j (Nat.le_refl _) rfl) trivial
  | moveConstruct i j => exact iff_of_true (h.refines_base j (Nat.le_refl _) rfl) trivial
  | copyAssign i j => exact iff_of_true (h.refines_base j (Nat.le_refl _) rfl) trivial
  | method i m =>
    have hmeets := Method.meets_iff hdef (h.max i) (h.bound i)
    constructor
    · intro hc
      exact hmeets.mp ⟨fun hlt => methodAt_eq_error_iff.mp (hc.1 hlt),
        fun hle => methodAt_eq_iff.mp (hc.2 hle)⟩
    · intro hc
      have hm := hmeets.mpr hc
      exact ⟨fun hlt => methodAt_eq_error_iff.mpr (hm.throws hlt),
        fun hle => methodAt_eq_iff.mpr (hm.same hle)⟩
  | swap i j =>
    have heq : (Call.swap i j).bounded p bound s = (Call.swap i j).std p s :=
      congrArg (EStateM.Result.ok none) (swap_eq s i j)
    rcases Nat.le_total (s i).length (s j).length with hle | hle
    · exact iff_of_true (h.refines_base j (Nat.le_of_eq (Nat.max_eq_right hle)) heq) trivial
    · exact iff_of_true (h.refines_base i (Nat.le_of_eq (Nat.max_eq_left hle)) heq) trivial

theorem Inv.proper_iff (h : Inv p bound s) {c : Call ι α} {s' : Vectors ι α}
    (hs : step p bound s c = some s') :
    Inv p bound s' ∧ c.Rereads p bound s ∧ Proper p bound s c s' ∨
      ¬ c.Rereads p bound s ∧ ¬ Proper p bound s c s' := by
  obtain ⟨hdef, rfl⟩ := guarded_eq_some.mp hs
  by_cases hc : c.Rereads p bound s
  · have hrefines := (h.refines_iff hdef).mpr hc
    have hinv := h.next hdef hrefines
    exact .inl ⟨hinv, hc, hinv.bound, hrefines.1, hrefines.2⟩
  · exact .inr ⟨hc, fun hp => hc ((h.refines_iff hdef).mp ⟨hp.throws, hp.same⟩)⟩

end

/-- **Along every run** of any number of vectors, all calls keep their promises just when the ranges
that are assigned or inserted within the bound can be read again. -/
theorem boundedVector_proper_iff {ι : Type} [DecidableEq ι] (cs : List (Call ι α)) :
    Along (step p bound) (Proper p bound) (fun _ => []) cs ↔
      Along (step p bound) (fun s c _ => c.Rereads p bound s) (fun _ => []) cs := by
  refine along_iff_of_inv (I := Inv p bound) ?_ ?_ cs (fun _ => [])
    ⟨fun _ => Nat.zero_le _, fun _ => Nat.zero_le _⟩
  · intro s c s' h hs hc
    rcases h.proper_iff hs with ⟨hinv, -⟩ | ⟨hbad, -⟩
    · exact hinv
    · exact absurd hc hbad
  · intro s c s' h hs
    rcases h.proper_iff hs with ⟨-, hc, hp⟩ | ⟨hc, hp⟩
    · exact iff_of_true hp hc
    · exact iff_of_false hp hc

/-- the characters of a stream are assigned, and the vector is empty -/
theorem not_boundedVector_proper : ¬ ∀ (p : Platform) (bound : Nat) (cs : List (Call Unit Char)),
    Along (step p bound) (Proper p bound) (fun _ => []) cs := by
  intro h
  have hrun := h ⟨2 ^ 63 - 1, by decide⟩ 3
    [.method () (.assignRange ⟨['a', 'b'], [], by decide⟩)]
  have hsame := (hrun _ rfl).1.same (by decide)
  have hvector : ([] : List Char) = ['a', 'b'] :=
    congrArg (fun out : Outcome Unit Char => out.vectors ()) hsame
  cases hvector

end PMROS2.BoundedVectors
