import Mathlib.Data.List.Basic

/-!
# Requests to an allocator

A program asks an allocator for memory again and again and stops at the first request that is not
served.  Its requests are known in advance, one name each; what it leaves behind when it stops
depends on the request only.

* `allocate`            one request;
* `firstFailure`        the first request of a list that is not served;
* `Serves m rs x`       the program `m` makes the requests `rs` and results in `x`;
* `Serves.bind`         one program after another;
* `firstFailure_eq_none_iff`, `firstFailure_ne_none_iff`   every request is served, or one is not.
-/

namespace PMROS2.Allocation

variable {ρ ε : Type*} {α β : Type}

/-- a request; the state counts them -/
def allocate (answers : Nat → Bool) (e : ε) : StateT Nat (Except ε) Unit :=
  fun n => if answers n then .ok ((), n + 1) else .error e

/-- the first of some requests that is not served, when the first of them has the number `n` -/
def firstFailure (answers : Nat → Bool) : Nat → List ρ → Option ρ
  | _, [] => none
  | n, r :: rs => if answers n then firstFailure answers (n + 1) rs else some r

variable {answers : Nat → Bool}

theorem firstFailure_append (rs rs' : List ρ) : ∀ n, firstFailure answers n (rs ++ rs') =
    (firstFailure answers n rs).or (firstFailure answers (n + rs.length) rs') := by
  induction rs with
  | nil => exact fun n => rfl
  | cons r rs ih =>
    intro n
    rw [List.cons_append, firstFailure, firstFailure]
    split
    · rw [ih (n + 1), List.length_cons, show n + (rs.length + 1) = n + 1 + rs.length by omega]
    · rfl

theorem firstFailure_eq_none_iff (rs : List ρ) : ∀ n, firstFailure answers n rs = none ↔
    ∀ k < rs.length, answers (n + k) = true := by
  induction rs with
  | nil => exact fun n => ⟨fun _ k hk => absurd hk (Nat.not_lt_zero k), fun _ => rfl⟩
  | cons r rs ih =>
    intro n
    rw [firstFailure]
    by_cases hn : answers n = true
    · rw [if_pos hn, ih (n + 1)]
      constructor
      · intro h k hk
        cases k with
        | zero => exact hn
        | succ k =>
          rw [show n + (k + 1) = n + 1 + k by omega]
          exact h k (Nat.lt_of_succ_lt_succ hk)
      · intro h k hk
        rw [show n + 1 + k = n + (k + 1) by omega]
        exact h (k + 1) (Nat.succ_lt_succ hk)
    · rw [if_neg hn]
      exact ⟨fun h => (by cases h), fun h => absurd (h 0 (Nat.succ_pos _)) hn⟩

theorem firstFailure_ne_none_iff (rs : List ρ) (n : Nat) : firstFailure answers n rs ≠ none ↔
    ∃ k < rs.length, answers (n + k) = false := by
  rw [ne_eq, firstFailure_eq_none_iff]
  simp only [not_forall, Bool.not_eq_true, exists_prop]

/-! ## programs and their requests -/

/-- `m` makes the requests `rs` in turn; `e r` is what a failure of `r` leaves -/
def Serves (answers : Nat → Bool) (e : ρ → ε) (m : StateT Nat (Except ε) α) (rs : List ρ) (x : α) :
    Prop :=
  ∀ n, m n = match firstFailure answers n rs with
    | none => .ok (x, n + rs.length)
    | some r => .error (e r)

variable {e : ρ → ε}

theorem serves_pure (x : α) : Serves answers e (pure x : StateT Nat (Except ε) α) [] x :=
  fun _ => rfl

theorem serves_allocate (r : ρ) {fault : ε} (h : e r = fault) :
    Serves answers e (allocate answers fault) [r] () := by
  intro n
  unfold allocate firstFailure
  split
  · rfl
  · rw [← h]

/-- **One program after another.** -/
theorem Serves.bind {m : StateT Nat (Except ε) α} {f : α → StateT Nat (Except ε) β} {rs rs' : List ρ}
    {x : α} {y : β} (hm : Serves answers e m rs x) (hf : Serves answers e (f x) rs' y) :
    Serves answers e (m >>= f) (rs ++ rs') y := by
  intro n
  show (m n >>= fun p => f p.1 p.2) = _
  rw [hm n, firstFailure_append]
  cases firstFailure answers n rs with
  | none =>
    show f x (n + rs.length) = _
    rw [hf, List.length_append, Nat.add_assoc]
    rfl
  | some r => rfl

theorem Serves.map {m : StateT Nat (Except ε) α} {rs : List ρ} {x : α}
    (hm : Serves answers e m rs x) (g : α → β) :
    Serves answers e (m >>= fun a => pure (g a)) rs (g x) := by
  have h := hm.bind (f := fun a => pure (g a)) (serves_pure (g x))
  rwa [List.append_nil] at h

end PMROS2.Allocation
