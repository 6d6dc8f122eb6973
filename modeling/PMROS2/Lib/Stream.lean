import Mathlib.Data.List.Basic

/-!
# Output streams over a buffer

A stream is a buffer and the position the next element is written to; a write replaces what
stands there and grows the buffer when it passes its end.

* `put`, `seekp`, `tellp`, `str`   the operations;
* `ofList xs`                      the stream that holds `xs` and writes at its end;
* `ofList_put`                     there a write is an append;
* `joined`                         lines with separators between them, and how a line is added
                                   and all of them are read back.
-/

namespace PMROS2

structure Stream (α : Type*) where
  buffer : List α
  position : Nat
  deriving DecidableEq, Repr

namespace Stream
variable {α : Type*}

def put (s : Stream α) (xs : List α) : Stream α where
  buffer := s.buffer.take s.position ++ xs ++ s.buffer.drop (s.position + xs.length)
  position := s.position + xs.length

def tellp (s : Stream α) : Nat := s.position

def seekp (s : Stream α) (n : Nat) : Stream α := { s with position := n }

/-- all that is in the buffer -/
def str (s : Stream α) : List α := s.buffer

/-- the stream that holds `xs` and writes at its end -/
def ofList (xs : List α) : Stream α := ⟨xs, xs.length⟩

@[simp] theorem ofList_tellp (xs : List α) : (ofList xs).tellp = xs.length := rfl

@[simp] theorem ofList_str (xs : List α) : (ofList xs).str = xs := rfl

@[simp] theorem ofList_seekp (xs : List α) (n : Nat) :
    ((ofList xs).seekp n).seekp xs.length = ofList xs := rfl

@[simp] theorem ofList_put (xs ys : List α) : (ofList xs).put ys = ofList (xs ++ ys) := by
  have hbuf : xs.take xs.length ++ ys ++ xs.drop (xs.length + ys.length) = xs ++ ys := by
    rw [List.take_length, List.drop_eq_nil_of_le (Nat.le_add_right _ _), List.append_nil]
  have hpos : xs.length + ys.length = (xs ++ ys).length := List.length_append.symm
  show Stream.mk _ _ = Stream.mk _ _
  rw [← hpos]
  exact congrArg (Stream.mk · _) hbuf

/-! ## lines -/

section
variable (sep : α)

def joined (ls : List (List α)) : List α := [sep].intercalate ls

variable {sep}

theorem joined_cons (l : List α) (ls : List (List α)) :
    joined sep (l :: ls) = l ++ ls.flatMap (sep :: ·) := by
  induction ls generalizing l with
  | nil => simp [joined]
  | cons k ks ih =>
    rw [joined, List.intercalate_cons_cons, List.append_assoc, List.flatMap_cons]
    exact congrArg (l ++ sep :: ·) (ih k)

theorem joined_concat {ls : List (List α)} (h : ls ≠ []) (l : List α) :
    joined sep (ls ++ [l]) = joined sep ls ++ sep :: l := by
  induction ls with
  | nil => exact absurd rfl h
  | cons k ks ih =>
    cases ks with
    | nil => simp [joined]
    | cons k' ks =>
      have hk := ih (List.cons_ne_nil k' ks)
      simp only [joined, List.cons_append, List.intercalate_cons_cons] at hk ⊢
      rw [hk]
      simp only [List.append_assoc, List.cons_append]

theorem joined_eq_nil {ls : List (List α)} (h : ∀ l ∈ ls, l ≠ []) :
    joined sep ls = [] ↔ ls = [] := by
  constructor
  · intro hj
    cases ls with
    | nil => rfl
    | cons k ks =>
      have hk : k ≠ [] := h k List.mem_cons_self
      cases ks with
      | nil =>
        rw [joined, List.intercalate_singleton] at hj
        exact absurd hj hk
      | cons k' ks =>
        rw [joined, List.intercalate_cons_cons, List.append_assoc] at hj
        exact absurd (List.append_eq_nil_iff.mp hj).1 hk
  · rintro rfl
    rfl

theorem splitOn_joined [BEq α] [LawfulBEq α] {ls : List (List α)} (hne : ls ≠ [])
    (h : ∀ l ∈ ls, sep ∉ l) : (joined sep ls).splitOn sep = ls :=
  List.splitOn_intercalate sep h hne

/-- lines that each end with the separator are read back -/
theorem splitOn_flatMap [BEq α] [LawfulBEq α] {ls : List (List α)} (h : ∀ l ∈ ls, sep ∉ l) :
    (ls.flatMap (· ++ [sep])).splitOn sep = ls ++ [[]] := by
  have hjoined : ls.flatMap (· ++ [sep]) = joined sep (ls ++ [[]]) := by
    clear h
    induction ls with
    | nil => rfl
    | cons l ls ih =>
      rw [List.flatMap_cons, ih]
      cases ls with
      | nil => simp [joined]
      | cons l' ls => simp [joined]
  rw [hjoined, splitOn_joined (by simp)]
  intro l hl
  rcases List.mem_append.mp hl with hl | hl
  · exact h l hl
  · rw [List.mem_singleton.mp hl]
    exact List.not_mem_nil

end

end Stream

end PMROS2
