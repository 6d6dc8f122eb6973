import Mathlib.Logic.Basic

/-!
# Loops that end

A loop is a function that gives the next state or a result.  A definition by recursion over a
number of turns is the result of the loop if there are enough of them.

* `Ends step s r`     the loop ends with `r`, from the state `s`;
* `Ends.unique`       with one result only;
* `ends_of_fuel`      the result of a recursion over the turns, if a measure of the state decreases.
-/

namespace PMROS2.Loops

variable {σ ρ : Type*} {step : σ → σ ⊕ ρ}

inductive Ends (step : σ → σ ⊕ ρ) : σ → ρ → Prop
  | done {s : σ} {r : ρ} (h : step s = .inr r) : Ends step s r
  | next {s s' : σ} {r : ρ} (h : step s = .inl s') (hr : Ends step s' r) : Ends step s r

theorem Ends.unique {s : σ} {r r' : ρ} (h : Ends step s r) (h' : Ends step s r') : r = r' := by
  induction h with
  | done hs =>
    cases h' with
    | done hs' => exact Sum.inr.inj (hs.symm.trans hs')
    | next hs' _ => cases hs.symm.trans hs'
  | next hs _ ih =>
    cases h' with
    | done hs' => cases hs.symm.trans hs'
    | next hs' hr' =>
      obtain rfl := Sum.inl.inj (hs.symm.trans hs')
      exact ih hr'

theorem Ends.iff_eq {s : σ} {r r' : ρ} (h : Ends step s r) : Ends step s r' ↔ r' = r := by
  constructor
  · exact fun h' => h'.unique h
  · rintro rfl
    exact h

theorem ends_of_fuel {f : Nat → σ → ρ} (hf : ∀ n s, f (n + 1) s = (step s).elim (f n) id)
    {μ : σ → Nat} (hμ : ∀ {s s'}, step s = .inl s' → μ s' < μ s) (n : Nat) :
    ∀ s, μ s < n → Ends step s (f n s) := by
  induction n with
  | zero => intro s h; exact absurd h (Nat.not_lt_zero _)
  | succ n ih =>
    intro s h
    rw [hf]
    cases hs : step s with
    | inr r => exact .done hs
    | inl s' => exact .next hs (ih s' (Nat.lt_of_lt_of_le (hμ hs) (Nat.le_of_lt_succ h)))

end PMROS2.Loops
