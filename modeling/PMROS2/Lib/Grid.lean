import Mathlib.Data.Int.ModEq
import Mathlib.Order.Bounds.Basic

/-!
# The points `x + k * p`

* `atOrAfter x p y`   the first point of the grid of `x` with the width `p` that is not before `y`;
* `roundUp_mul`       the division that rounds up, as it is written without an overflow;
* `isLeast_step`      the first step of at least one width that gets to `y`.
-/

namespace PMROS2.Grid

/-- the first point at or after `y` -/
def atOrAfter (x p y : Int) : Int := y + (x - y) % p

variable {x p y : Int}

theorem le_atOrAfter (hp : 0 < p) : y ≤ atOrAfter x p y := by
  have := Int.emod_nonneg (x - y) hp.ne'
  unfold atOrAfter
  omega

theorem atOrAfter_lt (hp : 0 < p) : atOrAfter x p y < y + p := by
  have := Int.emod_lt_of_pos (x - y) hp
  unfold atOrAfter
  omega

theorem roundUp_mul {d : Int} (hp : 0 < p) : (1 + (d - 1) / p) * p = d + (-d) % p := by
  have h1 := Int.mul_ediv_add_emod (d - 1) p
  have h2 := Int.emod_nonneg (d - 1) hp.ne'
  have h3 := Int.emod_lt_of_pos (d - 1) hp
  -- the remainders of `d - 1` and of `-d` add up to `p - 1`
  have h4 : (-d) % p = p - 1 - (d - 1) % p := by
    have hr : (p - 1 - (d - 1) % p) % p = p - 1 - (d - 1) % p :=
      Int.emod_eq_of_lt (by omega) (by omega)
    have he : -d = (p - 1 - (d - 1) % p) + p * (-(1 + (d - 1) / p)) := by
      rw [Int.mul_neg, Int.mul_add, Int.mul_one]
      omega
    rw [he, Int.add_mul_emod_self_left, hr]
  rw [Int.add_mul, Int.one_mul, Int.mul_comm, h4]
  omega

theorem step_atOrAfter (hp : 0 < p) :
    x + p + (1 + (y - (x + p) - 1) / p) * p = atOrAfter x p y := by
  have h : (-(y - (x + p))) % p = (x - y) % p := by
    have he : -(y - (x + p)) = x - y + p := by omega
    rw [he, Int.add_emod_right]
  rw [roundUp_mul hp, h]
  unfold atOrAfter
  omega

/-- **The least number of steps**, at least one, that gets to `y`. -/
theorem isLeast_step (hp : 0 < p) :
    ∃ k : Nat, IsLeast {k : Nat | 1 ≤ k ∧ y ≤ x + k * p} k ∧
      (if x + p < y then atOrAfter x p y else x + p) = x + k * p := by
  by_cases hlate : x + p < y
  · have hq : 0 ≤ (y - (x + p) - 1) / p := Int.ediv_nonneg (by omega) hp.le
    obtain ⟨q, hq⟩ := Int.eq_ofNat_of_zero_le hq
    have hstep := step_atOrAfter (x := x) (y := y) hp
    have hpoint : atOrAfter x p y = x + ((q + 2 : Nat) : Int) * p := by
      rw [← hstep, hq]
      push_cast
      rw [Int.add_mul, Int.add_mul, Int.one_mul]
      omega
    refine ⟨q + 2, ⟨⟨by omega, ?_⟩, ?_⟩, ?_⟩
    · rw [← hpoint]
      exact le_atOrAfter hp
    · rintro j ⟨hj, hy⟩
      by_contra hlt
      -- one step less would be before `y`
      have hj' : (j : Int) * p ≤ ((q + 1 : Nat) : Int) * p :=
        Int.mul_le_mul_of_nonneg_right (by omega) hp.le
      have hbound := atOrAfter_lt (x := x) (y := y) hp
      rw [hpoint] at hbound
      push_cast at hbound hj'
      rw [Int.add_mul] at hbound hj'
      omega
    · rw [if_pos hlate, hpoint]
  · refine ⟨1, ⟨⟨Nat.le_refl 1, ?_⟩, fun j hj => hj.1⟩, ?_⟩
    · push_cast
      omega
    · rw [if_neg hlate]
      push_cast
      omega

end PMROS2.Grid
