import Mathlib.Algebra.Group.Nat.Defs
import Mathlib.Algebra.Ring.Int.Defs
import Mathlib.Data.Option.Basic

/-!
# Signed arithmetic of 64 bits

Values are integers; every operation of the program passes its exact result through `int64`.  A
result that does not fit is an overflow, which is undefined: the computation has no value.

* `int64_bind_eq_some`   a computation that goes on has not overflowed;
* `isSome_int64_bind`    when it goes on.
-/

namespace PMROS2.Checked

/-- the values of `int64_t` -/
def Fits (x : Int) : Prop := -9223372036854775808 ≤ x ∧ x ≤ 9223372036854775807

instance : DecidablePred Fits := fun _ => inferInstanceAs (Decidable (_ ∧ _))

/-- `INT64_MAX` -/
def int64Max : Int := 9223372036854775807

/-- the result of a signed operation -/
def int64 (x : Int) : Option Int := if Fits x then some x else none

/-- the conversion of an unsigned value of 64 bits -/
def toSigned (n : Nat) : Int := (n : Int).bmod (2 ^ 64)

def toUnsigned (x : Int) : Nat := (x % 2 ^ 64).toNat

variable {α : Type*} {x y : Int} {f : Int → Option α} {b : α}

theorem int64_eq_some : int64 x = some y ↔ Fits x ∧ x = y := by
  unfold int64
  rw [Option.ite_none_right_eq_some, Option.some_inj]

theorem int64_of_fits (h : Fits x) : int64 x = some x := if_pos h

theorem int64_bind_eq_some : (int64 x).bind f = some b ↔ Fits x ∧ f x = some b := by
  unfold int64
  by_cases h : Fits x
  · rw [if_pos h, Option.bind_some]
    exact (and_iff_right h).symm
  · rw [if_neg h, Option.bind_none]
    exact ⟨fun hn => (by cases hn), fun hf => absurd hf.1 h⟩

theorem isSome_int64_bind :
    ((int64 x).bind f).isSome = true ↔ Fits x ∧ (f x).isSome = true := by
  unfold int64
  by_cases h : Fits x
  · rw [if_pos h, Option.bind_some]
    exact (and_iff_right h).symm
  · rw [if_neg h, Option.bind_none]
    exact ⟨fun hn => (by cases hn), fun hf => absurd hf.1 h⟩

theorem toSigned_of_lt {n : Nat} (h : n < 2 ^ 63) : toSigned n = n := by
  unfold toSigned
  rw [Int.bmod_eq_of_le_mul_two (by omega) (by omega)]

theorem toSigned_toUnsigned (h : Fits x) : toSigned (toUnsigned x) = x := by
  unfold toSigned toUnsigned Fits at *
  rw [Int.toNat_of_nonneg (by omega)]
  dsimp only [Int.bmod]
  split
  · omega
  · omega

theorem toUnsigned_lt (h : Fits x) (h0 : 0 ≤ x) : toUnsigned x < 2 ^ 63 := by
  unfold toUnsigned Fits at *
  omega

/-! ## the type of the values -/

theorem fits_toInt (x : Int64) : Fits x.toInt := by
  have hlo := x.le_toInt
  have hhi := x.toInt_lt
  unfold Fits
  omega

theorem toNat_toUInt64 (x : Int64) : (x.toUInt64.toNat : Int) = x.toInt % (2 ^ 64 : Nat) := by
  have hlt := x.toBitVec.isLt
  rw [← Int64.toNat_toBitVec, ← Int64.toInt_toBitVec, BitVec.toInt_eq_toNat_bmod, Int.bmod_emod]
  omega

theorem toInt_sub_of_fits {x y : Int64} (h : Fits (x.toInt - y.toInt)) :
    (x - y).toInt = x.toInt - y.toInt := by
  unfold Fits at h
  rw [Int64.toInt_sub]
  exact Int.bmod_eq_of_le_mul_two (by omega) (by omega)

end PMROS2.Checked
