import Mathlib.Data.BitVec

/-!
# Mixing steps that lose nothing

The steps a hash function mixes a machine word with, each as an injective function: a product with
an odd constant, a sum, an exclusive or, a rotation and a shift that is xored back in.
-/

namespace PMROS2.Mixing
open Function

variable {w : Nat}

theorem mul_injective {c d : BitVec w} (h : c * d = 1) : Injective fun x : BitVec w => x * c := by
  intro x y hxy
  have hd : x * c * d = y * c * d := congrArg (· * d) hxy
  rw [BitVec.mul_assoc, BitVec.mul_assoc, h] at hd
  exact (BitVec.mul_one x).symm.trans (hd.trans (BitVec.mul_one y))

theorem add_injective (c : BitVec w) : Injective fun x : BitVec w => x + c := fun _ _ hxy =>
  (BitVec.add_left_inj c).mp hxy

theorem xor_injective (c : BitVec w) : Injective fun x : BitVec w => x ^^^ c := by
  intro x y hxy
  have hc : x ^^^ c ^^^ c = y ^^^ c ^^^ c := congrArg (· ^^^ c) hxy
  rwa [BitVec.xor_assoc, BitVec.xor_assoc, BitVec.xor_self, BitVec.xor_zero, BitVec.xor_zero] at hc

theorem xor_injective_right (c : BitVec w) : Injective fun x : BitVec w => c ^^^ x := by
  intro x y hxy
  exact xor_injective c (by simpa only [BitVec.xor_comm] using hxy)

/-- the two shifts of a rotation -/
def rotl (x : BitVec w) (r : Nat) : BitVec w := x <<< r ||| x >>> (w - r)

theorem rotl_injective {r : Nat} (hr : r ≤ w) : Injective fun x : BitVec w => rotl x r := by
  intro x y hxy
  have hbit : ∀ i, (rotl x r).getLsbD i = (rotl y r).getLsbD i := fun i =>
    congrArg (BitVec.getLsbD · i) hxy
  refine BitVec.eq_of_getLsbD_eq fun i hi => ?_
  -- bit `i` goes to `i + r`, or wraps around to `i + r - w`
  by_cases hlow : i + r < w
  · have h := hbit (i + r)
    unfold rotl at h
    have hx : x.getLsbD (w - r + (i + r)) = false := BitVec.getLsbD_of_ge x _ (by omega)
    have hy : y.getLsbD (w - r + (i + r)) = false := BitVec.getLsbD_of_ge y _ (by omega)
    have hge : ¬ i + r < r := by omega
    rw [BitVec.getLsbD_eq_getElem hi, BitVec.getLsbD_eq_getElem hi]
    simpa [hlow, hx, hy, hge] using h
  · have h := hbit (i + r - w)
    unfold rotl at h
    have hlt : i + r - w < r := by omega
    have hidx : w - r + (i + r - w) = i := by omega
    simpa [hlt, hidx] using h

theorem eq_zero_of_shift {z : BitVec w} {k : Nat} (hk : 0 < k) (h : z = z >>> k) : z = 0 := by
  have hn : z.toNat = z.toNat / 2 ^ k := by
    have := congrArg BitVec.toNat h
    rwa [BitVec.toNat_ushiftRight, Nat.shiftRight_eq_div_pow] at this
  apply BitVec.eq_of_toNat_eq
  rw [BitVec.ofNat_eq_ofNat, BitVec.toNat_ofNat, Nat.zero_mod]
  by_contra hne
  have hlt : z.toNat / 2 ^ k < z.toNat :=
    Nat.div_lt_self (Nat.pos_of_ne_zero hne) (Nat.one_lt_two_pow hk.ne')
  omega

theorem xorShift_injective {k : Nat} (hk : 0 < k) :
    Injective fun x : BitVec w => x ^^^ x >>> k := by
  intro x y hxy
  have hz : x ^^^ y = (x ^^^ y) >>> k := by
    rw [BitVec.ushiftRight_xor_distrib]
    refine BitVec.eq_of_getLsbD_eq fun i _ => ?_
    have hbit : (x ^^^ x >>> k).getLsbD i = (y ^^^ y >>> k).getLsbD i :=
      congrArg (BitVec.getLsbD · i) hxy
    rw [BitVec.getLsbD_xor, BitVec.getLsbD_xor] at hbit ⊢
    revert hbit
    cases x.getLsbD i <;> cases y.getLsbD i <;> cases (x >>> k).getLsbD i <;>
      cases (y >>> k).getLsbD i <;> decide
  have h0 := eq_zero_of_shift hk hz
  calc x = x ^^^ y ^^^ y := by rw [BitVec.xor_assoc, BitVec.xor_self, BitVec.xor_zero]
    _ = y := by rw [h0, BitVec.ofNat_eq_ofNat, BitVec.zero_xor]

theorem append_inj {v : Nat} {x x' : BitVec v} {y y' : BitVec w} (h : x ++ y = x' ++ y') :
    x = x' ∧ y = y' := by
  constructor
  · have hx := congrArg (BitVec.extractLsb' w v) h
    rwa [BitVec.extractLsb'_append_eq_left, BitVec.extractLsb'_append_eq_left] at hx
  · have hy := congrArg (BitVec.extractLsb' 0 w) h
    rwa [BitVec.extractLsb'_append_eq_right, BitVec.extractLsb'_append_eq_right] at hy

end PMROS2.Mixing
