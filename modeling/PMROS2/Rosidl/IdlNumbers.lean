import PMROS2.Rosidl.IdlReading
import PMROS2.Rosidl.IdlTree
import PMROS2.Rosidl.IdlPrinter

/-!
# Numbers written to an IDL file and read back

A number of a `.msg` file is printed by Python and read by the rules for literals.  Integers and
floats in the fixed form are read as one literal.  In the form with an exponent the sign of the
exponent is an operator: `1e-05` is `1e` less an octal number.

* `Decimal`             the digits of an integer, without a zero in front;
* `reads_operand`       what the beginning of an expression reads where a digit stands;
* `ReadBack`            the text is read as one literal with the value;
* `readBack_decimal`    integers;
* `FiniteFloat.readBack`, `FiniteFloat.not_readBack`   floats without and with an exponent;
* `survives_iff`        exactly these numbers come back.
-/

namespace PMROS2.Rosidl
open PMROS2.Strings PMROS2.Grammars PMROS2.Simulation

/-! ## digits -/

def digitChars : List Char := ['0', '1', '2', '3', '4', '5', '6', '7', '8', '9']

theorem mem_digitChars {c : Char} (hc : isDigit c = true) : c ∈ digitChars := by
  have hle : ∀ {a b : Char}, decide (a ≤ b) = true → a.toNat ≤ b.toNat := fun h =>
    of_decide_eq_true h
  rw [isDigit, Bool.and_eq_true] at hc
  have hlo : 48 ≤ c.toNat := hle hc.1
  have hhi : c.toNat ≤ 57 := hle hc.2
  rw [← Char.ofNat_toNat c]
  interval_cases c.toNat <;> decide

theorem isDigit_of_isDigit {c : Char} (h : c.isDigit = true) : isDigit c = true := by
  rw [Char.isDigit, Bool.and_eq_true, decide_eq_true_eq, decide_eq_true_eq] at h
  rw [isDigit, Bool.and_eq_true, decide_eq_true_eq, decide_eq_true_eq]
  exact h

/-- digits of an integer: a zero stands alone or not in front -/
structure Decimal (D : Text) : Prop where
  nonempty : D ≠ []
  digits : ∀ c ∈ D, isDigit c = true
  zero : D = ['0'] ∨ D.head? ≠ some '0'

theorem isDigit_of_mem_toDigits {n : Nat} {c : Char} (hc : c ∈ Nat.toDigits 10 n) :
    isDigit c = true :=
  isDigit_of_isDigit (Nat.isDigit_of_mem_toDigits (by decide) (by decide) hc)

theorem head_toDigits (n : Nat) : Nat.toDigits 10 n = ['0'] ∨
    (Nat.toDigits 10 n).head? ≠ some '0' := by
  induction n using Nat.strong_induction_on with
  | _ n ih =>
    rcases Nat.lt_or_ge n 10 with hn | hn
    · rw [Nat.toDigits_of_lt_base hn]
      interval_cases n <;> decide
    · right
      rw [Nat.toDigits_of_base_le (by decide) hn,
        List.head?_append_of_ne_nil _ Nat.toDigits_ne_nil]
      rcases ih (n / 10) (Nat.div_lt_self (by omega) (by decide)) with hzero | hne
      · -- the quotient would be zero
        have hval := Nat.ofDigitChars_ten_toDigits (n := n / 10)
        rw [hzero] at hval
        have hpos := Nat.div_pos hn (by decide)
        rw [← hval] at hpos
        exact absurd hpos (by decide)
      · exact hne

theorem decimal_toDigits (n : Nat) : Decimal (Nat.toDigits 10 n) where
  nonempty := Nat.toDigits_ne_nil
  digits _ hc := isDigit_of_mem_toDigits hc
  zero := head_toDigits n

theorem decimal_eq (i : Int) :
    decimal i = if i < 0 then '-' :: Nat.toDigits 10 i.natAbs else Nat.toDigits 10 i.natAbs := by
  have hnat : ∀ n : Nat, (toString n).toList = Nat.toDigits 10 n := fun n => Nat.toList_repr
  cases i with
  | ofNat n =>
    rw [if_neg (show ¬ Int.ofNat n < 0 from Int.not_lt.mpr (Int.natCast_nonneg n))]
    exact hnat n
  | negSucc n =>
    rw [if_pos (Int.negSucc_lt_zero n), Int.natAbs_negSucc, ← hnat]
    show ("-" ++ toString (n + 1)).toList = _
    rw [String.toList_append]
    rfl

theorem intOfDigits_toDigits (n : Nat) : intOfDigits (Nat.toDigits 10 n) = .ok n := by
  have hall : (Nat.toDigits 10 n).all isDigit = true :=
    List.all_eq_true.mpr fun c hc => isDigit_of_mem_toDigits hc
  rw [intOfDigits, if_pos ⟨Nat.toDigits_ne_nil, hall⟩, Nat.ofDigitChars_ten_toDigits]

/-! ## operands -/

section
variable {s r : Text} {ts : List Node} {p : Nat}

def notAtDigit : List Rule :=
  [.scopedName, .scopedNameSeparator, .booleanLiteral, .booleanLiteralTrue, .booleanLiteralFalse,
   .stringLiterals, .stringLiteral, .wideStringLiterals, .wideStringLiteral, .unaryOperator,
   .unaryOperatorMinus, .unaryOperatorPlus, .unaryOperatorTilde, .floatingPtLiteralDot]

def notAtMinus : List Rule :=
  [.scopedName, .scopedNameSeparator, .booleanLiteral, .booleanLiteralTrue, .booleanLiteralFalse,
   .stringLiterals, .stringLiteral, .wideStringLiterals, .wideStringLiteral, .floatingPtLiteralDot,
   .floatingPtLiteral, .fixedPtLiteral, .decimalLiteral, .octalLiteral, .hexadecimalLiteral,
   .integerLiteral, .literal, .primaryExpr, .unaryOperatorPlus, .unaryOperatorTilde]

theorem confines_digit : Confines idl StartsWithDigit (fun _ => false) (· ∈ notAtDigit)
    (fun _ => false) noDigitFirst :=
  digit_confines notAtDigit (by decide)

theorem confines_minus (v : Text) : Confines idl (Part [] '-' v) (· ∈ ([] : List Rule))
    (· ∈ notAtMinus) (safeAt '-') (deadAt [] '-') :=
  part_confines (by decide) [] notAtMinus (by decide) (by decide)

theorem reads_primary (hs : StartsWithDigit s) (h : Reads idl (.rule .primaryExpr) s ts p r) :
    ∃ y us k, y ∈ [Rule.integerLiteral, .floatingPtLiteral, .fixedPtLiteral] ∧
      ts = [.node .primaryExpr [.node .literal [.node y us]]] ∧
      Reads idl (.rule y) s [.node y us] k r := by
  obtain ⟨us, k, rfl, -, hbody⟩ := reads_rule.mp h
  rw [show idl.body .primaryExpr = .alts _ from rfl, reads_alts (List.cons_ne_nil _ _)] at hbody
  obtain ⟨l, hl, hread⟩ := hbody
  simp only [List.mem_cons, List.not_mem_nil, or_false] at hl
  obtain rfl | rfl | rfl := hl
  · exact absurd hread (confines_digit.stuck hs (by decide))
  · obtain ⟨vs, m, rfl, -, hlit⟩ := reads_rule.mp hread
    rw [show idl.body .literal = .alts _ from rfl, reads_alts (List.cons_ne_nil _ _)] at hlit
    obtain ⟨l, hl, hread⟩ := hlit
    simp only [List.mem_cons, List.not_mem_nil, or_false] at hl
    have hkept : ∀ y, Reads idl (.rule y) s vs m r → ∃ us, vs = [.node y us] := by
      intro y hy
      obtain ⟨us, -, rfl, -, -⟩ := reads_rule.mp hy
      exact ⟨us, rfl⟩
    obtain rfl | rfl | rfl | rfl | rfl | rfl := hl
    · obtain ⟨us, rfl⟩ := hkept _ hread
      exact ⟨.integerLiteral, us, m, by decide, rfl, hread⟩
    · obtain ⟨us, rfl⟩ := hkept _ hread
      exact ⟨.floatingPtLiteral, us, m, by decide, rfl, hread⟩
    · obtain ⟨us, rfl⟩ := hkept _ hread
      exact ⟨.fixedPtLiteral, us, m, by decide, rfl, hread⟩
    · exact absurd hread (confines_digit.stuck hs (by decide))
    · exact absurd hread (confines_digit.stuck hs (by decide))
    · exact absurd hread (confines_digit.stuck hs (by decide))
  · exact absurd hread (confines_digit.stuck hs (by decide))

def signText (negative : Bool) : Text := if negative then ['-'] else []

def signTrees (negative : Bool) : List Node :=
  if negative then [.node .unaryOperator [.node .unaryOperatorMinus []]] else []

/-- the tree of a literal behind its sign -/
def operandTree (negative : Bool) (t : Node) : Node :=
  .node .unaryExpr (signTrees negative ++ [.node .primaryExpr [.node .literal [t]]])

/-- **The beginning of an expression** where a digit stands, behind a sign or not. -/
theorem reads_operand {negative : Bool} (hs : StartsWithDigit s)
    (h : Reads idl (.rule .unaryExpr) (signText negative ++ s) ts p r) :
    ∃ y us k, y ∈ [Rule.integerLiteral, .floatingPtLiteral, .fixedPtLiteral] ∧
      ts = [operandTree negative (.node y us)] ∧ Reads idl (.rule y) s [.node y us] k r := by
  obtain ⟨us, k, rfl, -, hbody⟩ := reads_rule.mp h
  rw [show idl.body .unaryExpr = .alts _ from rfl, reads_alts (List.cons_ne_nil _ _)] at hbody
  obtain ⟨l, hl, hread⟩ := hbody
  simp only [List.mem_cons, List.not_mem_nil, or_false] at hl
  cases negative with
  | false =>
    obtain rfl | rfl := hl
    · exact absurd hread (confines_digit.stuck hs (by decide))
    · obtain ⟨y, vs, m, hy, rfl, hlit⟩ := reads_primary hs hread
      exact ⟨y, vs, m, hy, rfl, hlit⟩
  | true =>
    have hminus : Part [] '-' s (signText true ++ s) := ⟨[], by simp, rfl⟩
    obtain rfl | rfl := hl
    · obtain ⟨s₁, us', m, vs, n, rfl, -, hop, hread⟩ := reads_seq.mp hread
      obtain ⟨ws, l, rfl, -, hop⟩ := reads_rule.mp hop
      rw [show idl.body .unaryOperator = .alts _ from rfl, reads_alts (List.cons_ne_nil _ _)] at hop
      obtain ⟨o, ho, hop⟩ := hop
      simp only [List.mem_cons, List.not_mem_nil, or_false] at ho
      obtain rfl | rfl | rfl := ho
      · obtain ⟨rfl, -, he⟩ := reads_str_rule "-" rfl (hminus.settled (by decide)) hop
        obtain rfl : s = s₁ := (List.cons.inj he).2
        obtain ⟨y, vs, m, hy, rfl, hlit⟩ := reads_primary hs hread
        exact ⟨y, vs, m, hy, rfl, hlit⟩
      · exact absurd hop ((confines_minus s).stuck hminus (by decide))
      · exact absurd hop ((confines_minus s).stuck hminus (by decide))
    · exact absurd hread ((confines_minus s).stuck hminus (by decide))

theorem reads_operand_of {negative : Bool} {y : Rule} {t : Node}
    (hy : y ∈ [Rule.integerLiteral, .floatingPtLiteral, .fixedPtLiteral])
    (h : Reads idl (.rule y) s [t] p r) :
    ∃ k, Reads idl (.rule .unaryExpr) (signText negative ++ s) [operandTree negative t] k r := by
  have hliteral : Reads idl (.rule .literal) s [.node .literal [t]] (2 + p) r := by
    refine reads_rule.mpr ⟨[t], p, rfl, rfl, ?_⟩
    rw [show idl.body .literal = .alts _ from rfl, reads_alts (List.cons_ne_nil _ _)]
    refine ⟨[.rule y], ?_, h⟩
    simp only [List.mem_cons, List.not_mem_nil, or_false] at hy
    obtain rfl | rfl | rfl := hy
    · exact List.mem_cons_self
    · exact List.mem_cons_of_mem _ List.mem_cons_self
    · exact List.mem_cons_of_mem _ (List.mem_cons_of_mem _ List.mem_cons_self)
  have hprimary : Reads idl (.rule .primaryExpr) s [.node .primaryExpr [.node .literal [t]]]
      (0 + (2 + p)) r := .rule (.right (.left hliteral))
  cases negative with
  | false => exact ⟨_, .rule (.right hprimary)⟩
  | true =>
    have hminus : Reads idl (.rule .unaryOperator) (signText true ++ s)
        (signTrees true) (0 + (0 + 0)) s :=
      .rule (.left (.rule (reads_str_self "-" s)))
    exact ⟨_, .rule (.left (.seq hminus hprimary))⟩

end

/-! ## integers -/

/-- what comes behind a constant, and behind the parameter of an annotation -/
def ends : List Char := [';', ')']

theorem ends_cases {σ : Char} (hσ : σ ∈ ends) : σ = ';' ∨ σ = ')' := by
  rcases List.mem_cons.mp hσ with h | h
  · exact .inl h
  · exact .inr (List.mem_singleton.mp h)

/-- the tokens of the digits: the first is of another terminal, if there are more -/
def decimalTokens : Text → List Node
  | [] => []
  | [c] => [digitToken c]
  | c :: d :: D => .token .nonzero [c] :: (d :: D).map digitToken

def integerTree (D : Text) : Node := .node .integerLiteral [.node .decimalLiteral (decimalTokens D)]

section
variable {σ : Char} {v r D : Text} {us : List Node} {k : Nat}

theorem endsDigits_cons (hσ : (isBlank σ || σ = '/' || isDigit σ) = false) :
    EndsDigits (σ :: v) := by
  rw [Bool.or_eq_false_iff, Bool.or_eq_false_iff, decide_eq_false_iff_not] at hσ
  refine ⟨settled_cons hσ.1.1 hσ.1.2 v, fun c hc => ?_⟩
  obtain rfl := Option.some.inj hc
  exact hσ.2

theorem endsDigits_ends (hσ : σ ∈ ends) : EndsDigits (σ :: v) := by
  obtain rfl | rfl := ends_cases hσ <;> exact endsDigits_cons (by decide)

def insideInteger : List Rule := [.integerLiteral, .decimalLiteral, .octalLiteral]

theorem confines_integer (hσ : σ ∈ '.' :: ends) :
    Confines idl (Part digitChars σ v) (· ∈ insideInteger) (· ∈ [.hexadecimalLiteral])
      (safeAt σ) (deadAt digitChars σ) := by
  rcases List.mem_cons.mp hσ with rfl | hσ
  · exact part_confines (by decide) insideInteger _ (by decide) (by decide)
  · obtain rfl | rfl := ends_cases hσ <;>
      exact part_confines (by decide) insideInteger _ (by decide) (by decide)

theorem confines_digits (hσ : σ ∈ ends) :
    Confines idl (Part digitChars σ v) (· ∈ ([] : List Rule))
      (· ∈ [.floatingPtLiteral, .floatingPtLiteralDot, .floatingPtLiteralE, .fixedPtLiteral])
      (safeAt σ) (deadAt digitChars σ) := by
  obtain rfl | rfl := ends_cases hσ <;> exact part_confines (by decide) [] _ (by decide) (by decide)

theorem part_digits (hD : ∀ c ∈ D, isDigit c = true) : Part digitChars σ v (D ++ σ :: v) :=
  ⟨D, fun c hc => mem_digitChars (hD c hc), rfl⟩

theorem Decimal.starts (hD : Decimal D) (s : Text) : StartsWithDigit (D ++ s) := by
  obtain ⟨c, D', rfl⟩ := List.exists_cons_of_ne_nil hD.nonempty
  exact ⟨c, D' ++ s, rfl, hD.digits c List.mem_cons_self⟩

theorem reads_decimalLiteral (hD : Decimal D) (hrest : EndsDigits (σ :: v))
    (h : Reads idl (.rule .decimalLiteral) (D ++ σ :: v) us k (σ :: v)) :
    us = [.node .decimalLiteral (decimalTokens D)] := by
  obtain ⟨vs, m, rfl, -, hbody⟩ := reads_rule.mp h
  rcases reads_alt.mp hbody with h | h
  · obtain ⟨c, D', rfl, rfl, -, he⟩ := reads_digit_of hrest hD.digits h
    obtain rfl : D' = [] := List.append_left_eq_self.mp he.symm
    rfl
  · obtain ⟨s', ws, l, xs, n, rfl, -, hfirst, hmore⟩ := reads_seq.mp h
    obtain ⟨c, hc, hs, rfl, -⟩ := reads_nonzero.mp hfirst
    rw [skip_of_settled (hD.starts _).settled] at hs
    obtain ⟨d, D', rfl⟩ := List.exists_cons_of_ne_nil hD.nonempty
    obtain ⟨rfl, rfl⟩ := List.cons.inj hs
    obtain ⟨A, B, hA, rfl, rfl, -, he⟩ :=
      reads_plus_digits hrest (fun e he => hD.digits e (List.mem_cons_of_mem _ he)) hmore
    obtain rfl : B = [] := List.append_left_eq_self.mp he.symm
    obtain ⟨a, A, rfl⟩ := List.exists_cons_of_ne_nil hA
    rw [List.append_nil, decimalTokens]
    rfl

/-- no octal number: a zero stands alone -/
theorem not_reads_octal (hD : Decimal D) (hσ : σ ∈ ends) :
    ¬ Reads idl (.rule .octalLiteral) (D ++ σ :: v) us k r := by
  intro h
  obtain ⟨vs, m, rfl, -, hbody⟩ := reads_rule.mp h
  obtain ⟨s', ws, l, xs, n, rfl, -, hzero, hmore⟩ := reads_seq.mp hbody
  obtain ⟨-, -, he⟩ := reads_str_of (hD.starts _).settled hzero
  obtain ⟨d, D', rfl⟩ := List.exists_cons_of_ne_nil hD.nonempty
  obtain ⟨rfl, rfl⟩ : d = '0' ∧ D' ++ σ :: v = s' := List.cons.inj he
  rcases hD.zero with h | h
  · obtain rfl := (List.cons.inj h).2
    have hpart : Part [] σ v ([] ++ σ :: v) := ⟨[], by simp, rfl⟩
    obtain ⟨s₁, ys, j, zs, i, -, -, hoctal, -⟩ := reads_seq.mp hmore
    obtain rfl | rfl := ends_cases hσ
    · obtain ⟨w, hw, -, -⟩ := scan_of_settled (hpart.settled (by decide)) hoctal
      exact hpart.dead hw (by decide)
    · obtain ⟨w, hw, -, -⟩ := scan_of_settled (hpart.settled (by decide)) hoctal
      exact hpart.dead hw (by decide)
  · exact h rfl

/-- **The literal of an integer** -/
theorem reads_integer (hD : Decimal D) (hσ : σ ∈ ends)
    (h : Reads idl (.rule .integerLiteral) (D ++ σ :: v) us k (σ :: v)) : us = [integerTree D] := by
  have hrest : EndsDigits (σ :: v) := endsDigits_ends hσ
  obtain ⟨vs, m, rfl, -, hbody⟩ := reads_rule.mp h
  rw [show idl.body .integerLiteral = .alts _ from rfl, reads_alts (List.cons_ne_nil _ _)] at hbody
  obtain ⟨l, hl, hread⟩ := hbody
  simp only [List.mem_cons, List.not_mem_nil, or_false] at hl
  obtain rfl | rfl | rfl := hl
  · rw [reads_decimalLiteral hD hrest hread]
    rfl
  · exact absurd hread (not_reads_octal hD hσ)
  · exact absurd hread
      ((confines_integer (List.mem_cons_of_mem _ hσ)).stuck (part_digits hD.digits) rfl)

theorem reads_integer_of (hD : Decimal D) :
    Reads idl (.rule .integerLiteral) (D ++ v) [integerTree D] 0 v := by
  have hdecimal : Reads idl (Rule.body .decimalLiteral) (D ++ v) (decimalTokens D) 0 v := by
    obtain ⟨d, D', rfl⟩ := List.exists_cons_of_ne_nil hD.nonempty
    have hd := hD.digits d List.mem_cons_self
    cases D' with
    | nil => exact .left (reads_digit.mpr ⟨d, hd, skip_of_settled (settled_digit hd _), rfl, rfl⟩)
    | cons e D' =>
      have hzero : d ≠ '0' := by
        rintro rfl
        rcases hD.zero with h | h
        · cases h
        · exact h rfl
      have hnonzero : (isDigit d && d ≠ '0') = true := by
        rw [hd, Bool.true_and, decide_eq_true_eq]
        exact hzero
      exact .right (.seq
        (reads_nonzero.mpr ⟨d, hnonzero, skip_of_settled (settled_digit hd _), rfl, rfl⟩)
        (reads_plus_digits_all (List.cons_ne_nil _ _)
          fun c hc => hD.digits c (List.mem_cons_of_mem _ hc)))
  have hnode := reads_node (x := .decimalLiteral) rfl hdecimal
  exact reads_node rfl (.left hnode)

/-- **An integer is read in one way**, behind a minus or not. -/
theorem integer_only {negative : Bool} (hD : Decimal D) (hσ : σ ∈ ends) :
    ReadsOnly digitChars σ v .unaryExpr (signText negative ++ (D ++ σ :: v))
      (operandTree negative (integerTree D)) := by
  intro ts p r h
  obtain ⟨y, us, k, hy, rfl, hread⟩ := reads_operand (hD.starts _) h
  have hpart : Part digitChars σ v (D ++ σ :: v) := part_digits hD.digits
  simp only [List.mem_cons, List.not_mem_nil, or_false] at hy
  obtain rfl | rfl | rfl := hy
  · refine ⟨(confines_integer (List.mem_cons_of_mem _ hσ)).stays hpart rfl hread, ?_⟩
    rintro rfl
    rw [(List.cons.inj (reads_integer hD hσ hread)).1]
  · exact absurd hread ((confines_digits hσ).stuck hpart rfl)
  · exact absurd hread ((confines_digits hσ).stuck hpart rfl)

end

/-! ## floats without an exponent -/

/-- what such a float is made of -/
def fixedChars : List Char := '.' :: digitChars

def fixedTree (W F : Text) : Node :=
  .node .floatingPtLiteral
    (W.map digitToken ++ (.node .floatingPtLiteralDot [] :: F.map digitToken))

section
variable {σ : Char} {v r W F : Text} {us : List Node} {k : Nat}

/-- digits around a point -/
structure FixedText (W F : Text) : Prop where
  whole_nonempty : W ≠ []
  whole : ∀ c ∈ W, isDigit c = true
  fraction_nonempty : F ≠ []
  fraction : ∀ c ∈ F, isDigit c = true

theorem FixedText.starts (h : FixedText W F) (s : Text) : StartsWithDigit (W ++ s) := by
  obtain ⟨c, W', rfl⟩ := List.exists_cons_of_ne_nil h.whole_nonempty
  exact ⟨c, W' ++ s, rfl, h.whole c List.mem_cons_self⟩

theorem FixedText.part (h : FixedText W F) :
    Part fixedChars σ v (W ++ '.' :: (F ++ σ :: v)) := by
  refine ⟨W ++ '.' :: F, fun c hc => ?_, by rw [List.append_assoc, List.cons_append]⟩
  rcases List.mem_append.mp hc with hc | hc
  · exact List.mem_cons_of_mem _ (mem_digitChars (h.whole c hc))
  · rcases List.mem_cons.mp hc with rfl | hc
    · exact List.mem_cons_self
    · exact List.mem_cons_of_mem _ (mem_digitChars (h.fraction c hc))

theorem confines_fixed (hσ : σ ∈ ends) :
    Confines idl (Part fixedChars σ v) (· ∈ [.floatingPtLiteral, .floatingPtLiteralDot])
      (· ∈ [.floatingPtLiteralE, .fixedPtLiteral]) (safeAt σ) (deadAt fixedChars σ) := by
  obtain rfl | rfl := ends_cases hσ <;> exact part_confines (by decide) _ _ (by decide) (by decide)

theorem reads_floatingPt (h : FixedText W F) (hσ : σ ∈ ends)
    (hread : Reads idl (.rule .floatingPtLiteral) (W ++ '.' :: (F ++ σ :: v)) us k (σ :: v)) :
    us = [fixedTree W F] := by
  have hdot : EndsDigits ('.' :: (F ++ σ :: v)) := endsDigits_cons (by decide)
  have hrest : EndsDigits (σ :: v) := endsDigits_ends hσ
  have hpart : Part fixedChars σ v (W ++ '.' :: (F ++ σ :: v)) := h.part
  obtain ⟨vs, m, rfl, -, hbody⟩ := reads_rule.mp hread
  rw [show idl.body .floatingPtLiteral = .alts _ from rfl,
    reads_alts (List.cons_ne_nil _ _)] at hbody
  obtain ⟨l, hl, hread⟩ := hbody
  simp only [List.mem_cons, List.not_mem_nil, or_false] at hl
  obtain rfl | rfl | rfl | rfl := hl
  · refine absurd hread ((confines_fixed hσ).stuck hpart ?_)
    obtain rfl | rfl := ends_cases hσ <;> decide
  · exact absurd hread (confines_digit.stuck (h.starts _) (by decide))
  · obtain ⟨s₁, ws, l, xs, n, rfl, -, hwhole, hread⟩ := reads_seq.mp hread
    obtain ⟨A, B, hA, rfl, rfl, -, rfl⟩ := reads_plus_digits hdot h.whole hwhole
    obtain ⟨s₂, ws, l, xs, n, rfl, -, hpoint, hread⟩ := reads_seq.mp hread
    have hB : ∀ c ∈ B, isDigit c = true := fun c hc => h.whole c (List.mem_append_right _ hc)
    obtain ⟨rfl, -, he⟩ :=
      reads_str_rule "." rfl (hdot.append_settled hB) hpoint
    -- the point comes behind all digits
    obtain rfl : B = [] := by
      cases B with
      | nil => rfl
      | cons b B =>
        have hb := hB b List.mem_cons_self
        rw [(List.cons.inj he).1] at hb
        cases hb
    obtain rfl : F ++ σ :: v = s₂ := (List.cons.inj he).2
    obtain ⟨s₃, ws, l, xs, n, rfl, -, hfraction, hread⟩ := reads_seq.mp hread
    obtain ⟨A', B', rfl, rfl, -, rfl⟩ := reads_digits hrest h.fraction hfraction
    rcases reads_alt.mp hread with hread | hread
    · -- no exponent follows
      have hB' : Part fixedChars σ v (B' ++ σ :: v) :=
        ⟨B', fun c hc => List.mem_cons_of_mem _
          (mem_digitChars (h.fraction c (List.mem_append_right _ hc))), rfl⟩
      refine absurd hread ((confines_fixed hσ).stuck hB' ?_)
      obtain rfl | rfl := ends_cases hσ <;> decide
    · obtain ⟨rfl, -, he⟩ := reads_empty.mp hread
      obtain rfl : B' = [] := List.append_left_eq_self.mp he.symm
      rw [List.append_nil, List.append_nil, List.append_nil]
      rfl
  · refine absurd hread ((confines_fixed hσ).stuck hpart ?_)
    obtain rfl | rfl := ends_cases hσ <;> decide

theorem reads_floatingPt_of (h : FixedText W F) :
    Reads idl (.rule .floatingPtLiteral) (W ++ '.' :: (F ++ v)) [fixedTree W F] 0 v := by
  have hwhole : Reads idl (.plus (.terminal .digit)) (W ++ '.' :: (F ++ v)) (W.map digitToken) 0
      ('.' :: (F ++ v)) := reads_plus_digits_all h.whole_nonempty h.whole
  have hpoint : Reads idl (.rule .floatingPtLiteralDot) ('.' :: (F ++ v))
      [.node .floatingPtLiteralDot []] 0 (F ++ v) := reads_node rfl (reads_str_self "." _)
  have hfraction : Reads idl (.star (.terminal .digit)) (F ++ v) (F.map digitToken) 0 v :=
    reads_digits_all h.fraction
  have htail := Reads.seq hfraction (.right (.empty v) :
    Reads idl (Rule.opt [.rule .floatingPtLiteralE, Rule.many [.terminal .digit]]) v [] 0 v)
  rw [List.append_nil] at htail
  exact reads_node rfl (.right (.right (.left (.seq hwhole (.seq hpoint htail)))))

/-- **A float without an exponent is read in one way.** -/
theorem fixed_only {negative : Bool} (h : FixedText W F) (hσ : σ ∈ ends) :
    ReadsOnly fixedChars σ v .unaryExpr (signText negative ++ (W ++ '.' :: (F ++ σ :: v)))
      (operandTree negative (fixedTree W F)) := by
  intro ts p r hoperand
  obtain ⟨y, us, k, hy, rfl, hread⟩ := reads_operand (h.starts _) hoperand
  simp only [List.mem_cons, List.not_mem_nil, or_false] at hy
  obtain rfl | rfl | rfl := hy
  · -- an integer ends before the point
    have hinteger := (confines_integer (σ := '.') (by decide)).stays (part_digits h.whole) rfl hread
    have hmono : ∀ c ∈ digitChars, c ∈ fixedChars := fun c hc => List.mem_cons_of_mem _ hc
    obtain ⟨hpart, hne⟩ := hinteger.extend hmono List.mem_cons_self
      fun c hc => hmono c (mem_digitChars (h.fraction c hc))
    exact ⟨hpart, fun he => absurd he hne⟩
  · refine ⟨(confines_fixed hσ).stays h.part rfl hread, ?_⟩
    rintro rfl
    rw [(List.cons.inj (reads_floatingPt h hσ hread)).1]
  · exact absurd hread ((confines_fixed hσ).stuck h.part rfl)

end

/-! ## values -/

/-- a number that a `.msg` file gives -/
inductive Number where
  | int (i : Int)
  | float (f : FiniteFloat)

namespace Number

def value : Number → Value PyFloat
  | int i => .int i
  | float f => .float (.finite f)

/-- the number in the IDL file -/
def constValue : Number → ConstValue
  | int i => .int i
  | float f => .float f.negative f.magnitude

/-- an integer, or a float without an exponent -/
def Fixed : Number → Prop
  | int _ => True
  | float f => f.Fixed

end Number

section
variable (E : Externals) {W F D : Text}

theorem findAll_digits (x : Rule) (D : Text) : findAll x (D.map digitToken) = [] := by
  refine findAll_eq_nil fun t ht => ?_
  obtain ⟨c, -, rfl⟩ := List.mem_map.mp ht
  exact findData_token _ _ _

theorem findAll_decimalTokens (x : Rule) : ∀ D : Text, findAll x (decimalTokens D) = []
  | [] => rfl
  | [c] => findAll_digits x [c]
  | c :: d :: D => by
    rw [decimalTokens, findAll_cons, findData_token, findAll_digits]
    rfl

theorem findData_integerTree (x : Rule) (hx : x ∉ [Rule.integerLiteral, .decimalLiteral])
    (D : Text) : (integerTree D).findData x = [] := by
  simp only [List.mem_cons, List.not_mem_nil, or_false, not_or] at hx
  rw [integerTree, findData_node, findAll_cons, findData_node, findAll_decimalTokens,
    if_neg (Ne.symm hx.1), if_neg (Ne.symm hx.2)]
  rfl

theorem findData_fixedTree (x : Rule) (hx : x ∉ [Rule.floatingPtLiteral, .floatingPtLiteralDot])
    (W F : Text) : (fixedTree W F).findData x = [] := by
  simp only [List.mem_cons, List.not_mem_nil, or_false, not_or] at hx
  rw [fixedTree, findData_node, findAll_append, findAll_cons, findData_node, findAll_digits,
    findAll_digits, if_neg (Ne.symm hx.1), if_neg (Ne.symm hx.2)]
  rfl

theorem mapM_ok {α β ε : Type} {f : α → Except ε β} {g : α → β} (l : List α)
    (h : ∀ a ∈ l, f a = .ok (g a)) : l.mapM f = .ok (l.map g) := by
  induction l with
  | nil => rfl
  | cons a l ih =>
    rw [List.mapM_cons, h a List.mem_cons_self, ih fun b hb => h b (List.mem_cons_of_mem _ hb)]
    rfl

def pieceText : Node → Text
  | .token _ w => w
  | .node _ _ => ['.']

theorem flatten_digits (D : Text) : ((D.map digitToken).map pieceText).flatten = D := by
  induction D with
  | nil => rfl
  | cons d D ih => rw [List.map_cons, List.map_cons, List.flatten_cons, ih]; rfl

theorem flatten_decimalTokens : ∀ D : Text, ((decimalTokens D).map pieceText).flatten = D
  | [] => rfl
  | [_] => rfl
  | c :: d :: D => by
    rw [decimalTokens, List.map_cons, List.flatten_cons, flatten_digits]
    rfl

theorem getDecimalLiteralValue_tokens (D : Text) :
    getDecimalLiteralValue (.node .decimalLiteral (decimalTokens D)) = intOfDigits D := by
  have htokens : ∀ t ∈ decimalTokens D, tokenValue t = .ok (pieceText t) := by
    intro t ht
    match D with
    | [] => cases ht
    | [c] =>
      rw [List.mem_singleton.mp ht]
      rfl
    | c :: d :: D =>
      rcases List.mem_cons.mp ht with rfl | ht
      · rfl
      · obtain ⟨e, -, rfl⟩ := List.mem_map.mp ht
        rfl
  rw [getDecimalLiteralValue]
  show (decimalTokens D).mapM tokenValue >>= _ = _
  rw [mapM_ok _ htokens]
  show intOfDigits ((decimalTokens D).map pieceText).flatten = _
  rw [flatten_decimalTokens]

theorem getFloatingPtLiteralValue_fixed (h : FixedText W F) :
    getFloatingPtLiteralValue E (fixedTree W F) = .ok (.float false (W ++ '.' :: F)) := by
  have hdigits : ∀ D : Text, ∀ t ∈ D.map digitToken,
      floatPiece E (fixedTree W F) t = .ok (pieceText t) := by
    intro D t ht
    obtain ⟨c, -, rfl⟩ := List.mem_map.mp ht
    rfl
  have hpieces : ∀ t ∈ (fixedTree W F).children,
      floatPiece E (fixedTree W F) t = .ok (pieceText t) := by
    intro t ht
    rcases List.mem_append.mp ht with ht | ht
    · exact hdigits W t ht
    · rcases List.mem_cons.mp ht with rfl | ht
      · rfl
      · exact hdigits F t ht
  have hflat : ((fixedTree W F).children.map pieceText).flatten = W ++ '.' :: F := by
    show ((W.map digitToken ++ (.node .floatingPtLiteralDot [] :: F.map digitToken)).map
      pieceText).flatten = _
    rw [List.map_append, List.flatten_append, List.map_cons, List.flatten_cons, flatten_digits,
      flatten_digits]
    rfl
  have hlast : (W ++ '.' :: F).getLast? ≠ some 'e' := by
    obtain ⟨F', c, rfl⟩ : ∃ F' c, F = F' ++ [c] :=
      ⟨F.dropLast, F.getLast h.fraction_nonempty, (List.dropLast_append_getLast _).symm⟩
    have hc := h.fraction c (List.mem_append_right _ (List.mem_singleton_self c))
    rw [← List.cons_append, ← List.append_assoc, List.getLast?_append_of_ne_nil _ (by simp)]
    intro he
    obtain rfl : c = 'e' := Option.some.inj he
    cases hc
  rw [getFloatingPtLiteralValue, mapM_ok _ hpieces]
  show floatOfText ((fixedTree W F).children.map pieceText).flatten = _
  rw [hflat, floatOfText, if_neg hlast]

/-- no node that a literal is found by, in the tree below it -/
structure Bare (t : Node) : Prop where
  primaryExpr : t.findData .primaryExpr = []
  unaryOperatorMinus : t.findData .unaryOperatorMinus = []
  literal : t.findData .literal = []

theorem bare_integerTree (D : Text) : Bare (integerTree D) :=
  ⟨findData_integerTree _ (by decide) D, findData_integerTree _ (by decide) D,
    findData_integerTree _ (by decide) D⟩

theorem bare_fixedTree (W F : Text) : Bare (fixedTree W F) :=
  ⟨findData_fixedTree _ (by decide) W F, findData_fixedTree _ (by decide) W F,
    findData_fixedTree _ (by decide) W F⟩

theorem findData_exprTree (x : Rule)
    (hx : x ∈ [Rule.primaryExpr, .unaryOperatorMinus, .literal]) (t : Node) :
    (exprTree t).findData x = t.findData x := by
  simp only [List.mem_cons, List.not_mem_nil, or_false] at hx
  have hne : ∀ y ∈ [Rule.constExpr, .orExpr, .xorExpr, .andExpr, .shiftExpr, .addExpr, .multExpr],
      y ≠ x := by
    obtain rfl | rfl | rfl := hx <;> decide
  rw [exprTree, findData_single (hne _ (by decide)), findData_single (hne _ (by decide)),
    findData_single (hne _ (by decide)), findData_single (hne _ (by decide)),
    findData_single (hne _ (by decide)), findData_single (hne _ (by decide)),
    findData_single (hne _ (by decide))]

theorem findData_signTrees (negative : Bool) (x : Rule)
    (hx : x ∈ [Rule.primaryExpr, .literal]) : findAll x (signTrees negative) = [] := by
  simp only [List.mem_cons, List.not_mem_nil, or_false] at hx
  obtain rfl | rfl := hx <;> cases negative <;> rfl

section
variable {t : Node} {negative : Bool}

theorem Bare.primaryExpr_operand (h : Bare t) : (exprTree (operandTree negative t)).findData
    .primaryExpr = [.node .primaryExpr [.node .literal [t]]] := by
  rw [findData_exprTree _ (by decide), operandTree, findData_node, findAll_append,
    findData_signTrees _ _ (by decide), findAll_cons, findData_node, findAll_cons,
    findData_single (by decide), h.primaryExpr]
  rfl

theorem Bare.literal_operand (h : Bare t) : (exprTree (operandTree negative t)).findData
    .literal = [.node .literal [t]] := by
  rw [findData_exprTree _ (by decide), operandTree, findData_node, findAll_append,
    findData_signTrees _ _ (by decide), findAll_cons, findData_single (by decide), findData_node,
    findAll_cons, h.literal]
  rfl

theorem Bare.minus_operand (h : Bare t) : ((exprTree (operandTree negative t)).findData
    .unaryOperatorMinus).length % 2 = 1 ↔ negative = true := by
  rw [findData_exprTree _ (by decide), operandTree, findData_node, findAll_append, findAll_cons,
    findData_single (by decide), findData_single (by decide), h.unaryOperatorMinus,
    if_neg (by decide)]
  cases negative <;> decide

/-- **The value of a literal** behind its sign, in an expression. -/
theorem Bare.getConstExprValue (h : Bare t) :
    getConstExprValue E (exprTree (operandTree negative t)) =
      getLiteralValue E (exprTree (operandTree negative t)) (.node .literal [t]) negative := by
  have hminus : decide (((exprTree (operandTree negative t)).findData
      .unaryOperatorMinus).length % 2 = 1) = negative := by
    rw [Bool.eq_iff_iff, decide_eq_true_eq]
    exact h.minus_operand
  rw [Rosidl.getConstExprValue, h.primaryExpr_operand]
  simp only [onlyChild, Tree.children, bind, Except.bind]
  rw [hminus]

end

theorem getConstExprValue_integer (negative : Bool) {n : Nat} (hD : intOfDigits D = .ok n) :
    getConstExprValue E (exprTree (operandTree negative (integerTree D))) =
      .ok (.int (if negative then -n else n)) := by
  rw [(bare_integerTree D).getConstExprValue]
  simp only [getLiteralValue, onlyChild, Tree.children, integerTree,
    getDecimalLiteralValue_tokens, hD, bind, Except.bind, pure, Except.pure]
  cases negative <;> rfl

theorem getConstExprValue_fixed (negative : Bool) (h : FixedText W F) :
    getConstExprValue E (exprTree (operandTree negative (fixedTree W F))) =
      .ok (.float negative (W ++ '.' :: F)) := by
  have hvalue := getFloatingPtLiteralValue_fixed E h
  rw [fixedTree] at hvalue
  rw [(bare_fixedTree W F).getConstExprValue]
  simp only [getLiteralValue, onlyChild, Tree.children, fixedTree, hvalue, bind, Except.bind,
    pure, Except.pure]
  cases negative <;> rfl

theorem primaryExpr_of_value {t : Node} {v : ConstValue} (h : getConstExprValue E t = .ok v) :
    (t.findData .primaryExpr).length = 1 := by
  rw [getConstExprValue] at h
  split at h
  · rename_i hone
    rw [hone]
    rfl
  · cases h

end

/-! ## reading back -/

/-- the text is read as one literal with the value: there is a reading, and every reading up to the
character behind the text gives it -/
structure ReadBack (E : Externals) (text : Text) (value : ConstValue) : Prop where
  reading : ∀ σ ∈ ends, ∀ v s, skip s = text ++ σ :: v →
    ∃ t k, Reads idl (.rule .constExpr) s [t] k (σ :: v)
  only : ∀ σ ∈ ends, ∀ v s, skip s = text ++ σ :: v → ∀ ts k r,
    Reads idl (.rule .constExpr) s ts k r → (skip r).head? = some σ →
    ∃ t, ts = [t] ∧ (t.findData .literal).length = 1 ∧ getConstExprValue E t = .ok value

section
variable {E : Externals} {negative : Bool}

def WithoutOperators (q : List Char) : Prop :=
  ∀ σ ∈ ends, solidChars q σ = true ∧ noOperators q σ = true ∧ σ ∉ q

theorem withoutOperators_digitChars : WithoutOperators digitChars := by
  intro σ hσ
  obtain rfl | rfl := ends_cases hσ <;> decide

theorem withoutOperators_fixedChars : WithoutOperators fixedChars := by
  intro σ hσ
  obtain rfl | rfl := ends_cases hσ <;> decide

theorem settled_sign {s : Text} (hs : StartsWithDigit s) :
    Settled idl (signText negative ++ s) := by
  cases negative with
  | false => exact hs.settled
  | true => exact settled_cons (by decide) (by decide) s

/-- **From the one reading of an operand** -/
theorem readBack_of {q : List Char} {t : Node} {text : Text} {value : ConstValue}
    (hq : WithoutOperators q) (hset : ∀ s, Settled idl (signText negative ++ (text ++ s)))
    (hreads : ∀ v, ∃ k, Reads idl (.rule .unaryExpr) (signText negative ++ (text ++ v))
      [operandTree negative t] k v)
    (honly : ∀ σ ∈ ends, ∀ v, ReadsOnly q σ v .unaryExpr
      (signText negative ++ (text ++ σ :: v)) (operandTree negative t))
    (ht : Bare t) (hvalue : getConstExprValue E (exprTree (operandTree negative t)) = .ok value) :
    ReadBack E (signText negative ++ text) value where
  reading σ hσ v s hs := by
    rw [List.append_assoc] at hs
    obtain ⟨k, hread⟩ := hreads (σ :: v)
    refine ⟨_, k, reads_constExpr_skip (reads_constExpr hread) ?_⟩
    rw [hs, skip_of_settled (hset _)]
  only σ hσ v s hs ts k r hread hr := by
    rw [List.append_assoc] at hs
    obtain ⟨hsolid, hops, hnot⟩ := hq σ hσ
    have hread' := reads_constExpr_skip hread ((skip_of_settled (hset (σ :: v))).trans hs.symm)
    obtain ⟨hpart, htree⟩ := (honly σ hσ v).constExpr hsolid hops _ _ _ hread'
    refine ⟨_, htree (hpart.eq_of_head hsolid hnot hr), ?_, hvalue⟩
    rw [ht.literal_operand]
    rfl

/-- **Integers come back.** -/
theorem readBack_decimal (i : Int) : ReadBack E (decimal i) (.int i) := by
  have hD := decimal_toDigits i.natAbs
  have htext : decimal i = signText (decide (i < 0)) ++ Nat.toDigits 10 i.natAbs := by
    rw [decimal_eq]
    by_cases hi : i < 0
    · rw [if_pos hi, decide_eq_true hi]
      rfl
    · rw [if_neg hi, decide_eq_false hi]
      rfl
  rw [htext]
  refine readBack_of withoutOperators_digitChars (fun s => settled_sign (hD.starts s))
    (fun v => reads_operand_of (by decide) (reads_integer_of hD))
    (fun σ hσ v => integer_only hD hσ) (bare_integerTree _) ?_
  rw [getConstExprValue_integer E _ (intOfDigits_toDigits i.natAbs)]
  by_cases hi : i < 0
  · rw [decide_eq_true hi, if_pos rfl, Int.ofNat_natAbs_of_nonpos (Int.le_of_lt hi), Int.neg_neg]
  · rw [decide_eq_false hi, if_neg Bool.false_ne_true, Int.natAbs_of_nonneg (Int.not_lt.mp hi)]

theorem readBack_fixedText {W F : Text} (h : FixedText W F) :
    ReadBack E (signText negative ++ (W ++ '.' :: F)) (.float negative (W ++ '.' :: F)) := by
  have hassoc : ∀ s, (W ++ '.' :: F) ++ s = W ++ '.' :: (F ++ s) := fun s => by
    rw [List.append_assoc, List.cons_append]
  refine readBack_of withoutOperators_fixedChars (t := fixedTree W F) ?_ ?_ ?_ (bare_fixedTree W F)
    (getConstExprValue_fixed E negative h)
  · intro s
    rw [hassoc]
    exact settled_sign (h.starts _)
  · intro v
    rw [hassoc]
    exact reads_operand_of (by decide) (reads_floatingPt_of h)
  · intro σ hσ v
    rw [hassoc]
    exact fixed_only h hσ

end

/-! ## floats without an exponent are written as digits around a point -/

namespace FiniteFloat

theorem isDigit_zeros {n : Nat} {c : Char} (h : c ∈ List.replicate n '0') : isDigit c = true := by
  rw [List.eq_of_mem_replicate h]
  decide

theorem fixedText (f : FiniteFloat) : FixedText f.whole f.fraction := by
  have hlen : 0 < f.digits.length := List.length_pos_iff.mpr f.nonempty
  have hzero : ∀ c ∈ ['0'], isDigit c = true := fun c hc => isDigit_zeros (n := 1) hc
  by_cases hpoint : f.point ≤ 0
  · rw [whole, fraction, if_pos hpoint, if_pos hpoint]
    refine ⟨by decide, hzero, List.append_ne_nil_of_right_ne_nil _ f.nonempty, fun c hc => ?_⟩
    rcases List.mem_append.mp hc with hc | hc
    · exact isDigit_zeros hc
    · exact f.allDigits c hc
  · rw [whole, fraction, if_neg hpoint, if_neg hpoint]
    have hpos : 0 < f.point.toNat := by omega
    refine ⟨?_, fun c hc => ?_, ?_, fun c hc => ?_⟩
    · refine List.append_ne_nil_of_left_ne_nil (List.length_pos_iff.mp ?_) _
      rw [List.length_take]
      omega
    · rcases List.mem_append.mp hc with hc | hc
      · exact f.allDigits c (List.mem_of_mem_take hc)
      · exact isDigit_zeros hc
    · split
      · decide
      · refine List.length_pos_iff.mp ?_
        rw [List.length_drop]
        omega
    · split at hc
      · exact hzero c hc
      · exact f.allDigits c (List.mem_of_mem_drop hc)

theorem repr_eq (f : FiniteFloat) : f.repr = signText f.negative ++ f.magnitude := by
  rw [repr]
  cases f.negative <;> rfl

/-- **Floats without an exponent come back.** -/
theorem readBack (E : Externals) {f : FiniteFloat} (hf : f.Fixed) :
    ReadBack E f.repr (.float f.negative f.magnitude) := by
  rw [repr_eq, magnitude, if_pos hf]
  exact readBack_fixedText f.fixedText

end FiniteFloat

/-! ## floats with an exponent -/

def exponentChars : List Char := 'e' :: fixedChars

section
variable {σ : Char} {v s r : Text} {ts : List Node} {p : Nat} {negative : Bool}

theorem confines_exponent (hσ : σ = '+' ∨ σ = '-') : Confines idl (Part exponentChars σ v)
    (· ∈ [.integerLiteral, .decimalLiteral, .octalLiteral, .floatingPtLiteral,
      .floatingPtLiteralDot, .floatingPtLiteralE])
    (· ∈ [.hexadecimalLiteral, .fixedPtLiteral]) (safeAt σ) (deadAt exponentChars σ) := by
  obtain rfl | rfl := hσ <;> exact part_confines (by decide) _ _ (by decide) (by decide)

theorem operand_stays (hσ : σ = '+' ∨ σ = '-') (hs : StartsWithDigit s)
    (hpart : Part exponentChars σ v s)
    (h : Reads idl (.rule .unaryExpr) (signText negative ++ s) ts p r) :
    Part exponentChars σ v r := by
  obtain ⟨y, us, k, hy, -, hread⟩ := reads_operand hs h
  simp only [List.mem_cons, List.not_mem_nil, or_false] at hy
  obtain rfl | rfl | rfl := hy
  · exact (confines_exponent hσ).stays hpart rfl hread
  · exact (confines_exponent hσ).stays hpart rfl hread
  · exact absurd hread ((confines_exponent hσ).stuck hpart rfl)

def operands (ts : List Node) : Nat := (findAll .primaryExpr ts).length

def leadsToOperand : List Rule :=
  [.constExpr, .orExpr, .xorExpr, .andExpr, .shiftExpr, .addExpr, .multExpr, .unaryExpr,
   .primaryExpr]

theorem operands_pos {x : Rule} (hx : x ∈ leadsToOperand) (h : Reads idl (.rule x) s ts p r) :
    0 < operands ts := by
  have hleads : ∀ y ∈ leadsToOperand,
      y = .primaryExpr ∨ y.body.needs (· ∈ leadsToOperand) = true := by decide
  exact List.length_pos_iff.mpr
    (h.findAll_ne_nil (fun y hy => hleads y (of_decide_eq_true hy)) (decide_eq_true hx))

theorem operands_node {x : Rule} (hx : x ≠ .primaryExpr) (us : List Node) :
    operands [.node x us] = operands us := by
  rw [operands, findAll_cons, findData_node, if_neg hx, List.append_nil]
  exact congrArg List.length (List.append_nil _)

/-- **An operator makes two operands**: an expression ends where its first operand ends, or has
more of them. -/
theorem reads_binary_operands {P : Text → Prop} {x y : Rule} {ops : List String}
    (hx : x.body = Rule.binary x y ops) (hlead : x ∈ leadsToOperand ∧ y ∈ leadsToOperand)
    (hne : x ≠ .primaryExpr)
    (hy : ∀ ts p r, Reads idl (.rule y) s ts p r → P r ∨ 2 ≤ operands ts) :
    ∀ ts p r, Reads idl (.rule x) s ts p r → P r ∨ 2 ≤ operands ts := by
  intro ts p r h
  rcases reads_binary hx h with ⟨us, k, rfl, hfirst⟩ |
    ⟨o, ho, s₁, s₂, us, vs, ws, k, m, n, rfl, hleft, hop, hright⟩
  · rw [operands_node hne]
    exact hy us k r hfirst
  · right
    have hl := operands_pos hlead.1 hleft
    have hr := operands_pos hlead.2 hright
    rw [operands_node hne]
    rw [operands] at hl hr ⊢
    rw [findAll_append, findAll_append, List.length_append, List.length_append]
    omega

theorem reads_expr_operands {P : Text → Prop}
    (h : ∀ ts p r, Reads idl (.rule .unaryExpr) s ts p r → P r) :
    ∀ ts p r, Reads idl (.rule .constExpr) s ts p r → P r ∨ 2 ≤ operands ts := by
  have h₁ := reads_binary_operands (x := .multExpr) rfl (by decide) (by decide)
    fun ts p r hread => .inl (h ts p r hread)
  have h₂ := reads_binary_operands (x := .addExpr) rfl (by decide) (by decide) h₁
  have h₃ := reads_binary_operands (x := .shiftExpr) rfl (by decide) (by decide) h₂
  have h₄ := reads_binary_operands (x := .andExpr) rfl (by decide) (by decide) h₃
  have h₅ := reads_binary_operands (x := .xorExpr) rfl (by decide) (by decide) h₄
  have h₆ := reads_binary_operands (x := .orExpr) rfl (by decide) (by decide) h₅
  intro ts p r hread
  obtain ⟨us, k, rfl, -, hbody⟩ := reads_rule.mp hread
  rw [operands_node (by decide)]
  exact h₆ us k r hbody

/-- **A number with an exponent** has no value: an expression that reads all of it has two
operands. -/
theorem not_readBack_of_sign {E : Externals} {M X : Text} {value : ConstValue}
    (hσ : σ = '+' ∨ σ = '-') (hs : ∀ u, StartsWithDigit (M ++ u))
    (hM : ∀ c ∈ M, c ∈ exponentChars) :
    ¬ ReadBack E (signText negative ++ (M ++ σ :: X)) value := by
  intro h
  have htext : (signText negative ++ (M ++ σ :: X)) ++ [';'] =
      signText negative ++ (M ++ σ :: (X ++ [';'])) := by
    rw [List.append_assoc, List.append_assoc, List.cons_append]
  have hskip : skip (signText negative ++ (M ++ σ :: (X ++ [';']))) =
      (signText negative ++ (M ++ σ :: X)) ++ [';'] := by
    rw [htext]
    exact skip_of_settled (settled_sign (hs _))
  obtain ⟨t, k, hread⟩ := h.reading ';' (by decide) [] _ hskip
  have hstays : ∀ ts p r, Reads idl (.rule .unaryExpr)
      (signText negative ++ (M ++ σ :: (X ++ [';']))) ts p r →
      Part exponentChars σ (X ++ [';']) r :=
    fun ts p r => operand_stays hσ (hs _) ⟨M, hM, rfl⟩
  rcases reads_expr_operands hstays _ _ _ hread with hpart | htwo
  · -- the reading goes on behind the sign
    obtain ⟨w, -, he⟩ := hpart
    have hlen := congrArg List.length he
    rw [List.length_singleton, List.length_append, List.length_cons, List.length_append,
      List.length_singleton] at hlen
    omega
  · obtain ⟨u, hu, -, hvalue⟩ := h.only ';' (by decide) [] _ hskip _ _ _ hread rfl
    obtain rfl := (List.cons.inj hu).1
    have hone := primaryExpr_of_value E hvalue
    rw [operands, findAll_cons, show findAll Rule.primaryExpr ([] : List Node) = [] from rfl,
      List.append_nil, hone] at htwo
    exact absurd htwo (by decide)

end

namespace FiniteFloat

theorem mantissa_starts (f : FiniteFloat) (u : Text) : StartsWithDigit (f.mantissa ++ u) := by
  obtain ⟨c, D, hD⟩ := List.exists_cons_of_ne_nil f.nonempty
  have hc := f.allDigits c (by rw [hD]; exact List.mem_cons_self)
  rw [mantissa, hD]
  split
  · exact ⟨c, D ++ u, rfl, hc⟩
  · exact ⟨c, _, rfl, hc⟩

theorem mantissa_chars (f : FiniteFloat) : ∀ c ∈ f.mantissa, c ∈ exponentChars := by
  have hdigit : ∀ c ∈ f.digits, c ∈ exponentChars := fun c hc =>
    List.mem_cons_of_mem _ (List.mem_cons_of_mem _ (mem_digitChars (f.allDigits c hc)))
  intro c hc
  rw [mantissa] at hc
  split at hc
  · exact hdigit c hc
  · rcases List.mem_append.mp hc with hc | hc
    · exact hdigit c (List.mem_of_mem_take hc)
    · rcases List.mem_cons.mp hc with rfl | hc
      · decide
      · exact hdigit c (List.mem_of_mem_drop hc)

/-- **Floats with an exponent do not come back**, as any value. -/
theorem not_readBack (E : Externals) {f : FiniteFloat} (hf : ¬ f.Fixed) (value : ConstValue) :
    ¬ ReadBack E f.repr value := by
  have hsign : f.exponentSign = '+' ∨ f.exponentSign = '-' := by
    rw [exponentSign]
    split
    · exact .inr rfl
    · exact .inl rfl
  have htext : f.mantissa ++ 'e' :: f.exponentSign :: f.exponentDigits =
      (f.mantissa ++ ['e']) ++ f.exponentSign :: f.exponentDigits := by
    rw [List.append_assoc, List.singleton_append]
  rw [repr_eq, magnitude, if_neg hf, htext]
  refine not_readBack_of_sign hsign (fun u => ?_) fun c hc => ?_
  · rw [List.append_assoc]
    exact f.mantissa_starts _
  · rcases List.mem_append.mp hc with hc | hc
    · exact f.mantissa_chars c hc
    · rw [List.mem_singleton.mp hc]
      decide

end FiniteFloat

/-! ## from the `.msg` file to the IDL file -/

def Primitive.isNumber : Primitive → Bool
  | .bool | .string | .wstring | .duration | .time => false
  | _ => true

section
variable {py : Python PyFloat} {p : Primitive} {bound : Option Nat} {valueString : Text}
  {n : Number}

theorem isNumber_of_parse
    (h : parsePrimitiveValueString py (.primitive p bound) valueString = .ok n.value) :
    p.isNumber = true := by
  have hbool : ∀ b, n.value ≠ .bool b := by
    intro b he
    cases n <;> cases he
  have hstr : ∀ s, n.value ≠ .str s := by
    intro s he
    cases n <;> cases he
  have hstring : p = .string ∨ p = .wstring → False := by
    intro hp
    obtain rfl | rfl := hp
    all_goals
      obtain ⟨s, -, hs⟩ := bind_eq_ok.mp h
      cases bound with
      | none => exact hstr s (Except.ok.inj hs).symm
      | some m =>
        dsimp only at hs
        split at hs
        · obtain ⟨base, -, he⟩ := bind_eq_ok.mp hs
          cases he
        · exact hstr s (Except.ok.inj hs).symm
  cases p with
  | bool =>
    simp only [parsePrimitiveValueString] at h
    split at h
    · exact absurd (Except.ok.inj h).symm (hbool _)
    · split at h
      · exact absurd (Except.ok.inj h).symm (hbool _)
      · cases h
  | string => exact (hstring (.inl rfl)).elim
  | wstring => exact (hstring (.inr rfl)).elim
  | duration => cases h
  | time => cases h
  | _ => rfl

theorem writtenLiteral_number (stringLiteral : Text → Option Text) (hp : p.isNumber = true)
    (v : Value PyFloat) :
    writtenLiteral py stringLiteral (.primitive p bound) v = some (v.pyStr py) := by
  cases p <;> first | exact absurd hp (by decide) | (cases bound <;> rfl)

def Survives (E : Externals) (py : Python PyFloat) (stringLiteral : Text → Option Text)
    (type : BaseType) (n : Number) : Prop :=
  ∃ text, writtenLiteral py stringLiteral type n.value = some text ∧ ReadBack E text n.constValue

variable (E : Externals) (stringLiteral : Text → Option Text)

/-- **Exactly the integers and the floats without an exponent** survive. -/
theorem survives_iff (hpy : ∀ f, py.strFloat f = f.repr)
    (h : parsePrimitiveValueString py (.primitive p bound) valueString = .ok n.value) :
    Survives E py stringLiteral (.primitive p bound) n ↔ n.Fixed := by
  have hwritten : writtenLiteral py stringLiteral (.primitive p bound) n.value =
      some (n.value.pyStr py) := writtenLiteral_number stringLiteral (isNumber_of_parse h) n.value
  cases n with
  | int i =>
    have hread : ReadBack E (decimal i) (.int i) := readBack_decimal i
    exact ⟨fun _ => trivial, fun _ => ⟨_, hwritten, hread⟩⟩
  | float f =>
    have htext : (Number.float f).value.pyStr py = f.repr := hpy (.finite f)
    rw [htext] at hwritten
    constructor
    · rintro ⟨text, ht, hread⟩
      obtain rfl : f.repr = text := Option.some.inj (hwritten.symm.trans ht)
      by_contra hfixed
      exact f.not_readBack E hfixed _ hread
    · intro hfixed
      exact ⟨_, hwritten, f.readBack E hfixed⟩

end

/-- `0.5` -/
def half : FiniteFloat where
  negative := false
  digits := ['5']
  point := 0
  nonempty := by decide
  allDigits := List.all_eq_true.mp (by decide)
  shortest := .inr (by decide)

/-- `0.00001` -/
def tiny : FiniteFloat where
  negative := false
  digits := ['1']
  point := -4
  nonempty := by decide
  allDigits := List.all_eq_true.mp (by decide)
  shortest := .inr (by decide)

/-- conversions of these two numbers -/
def halfPython : Python PyFloat where
  int _ := none
  float s := if s = "0.5".toList then some (.finite half)
    else if s = "0.00001".toList then some (.finite tiny) else none
  strFloat := PyFloat.repr
  repr s := singleQuoted s

def plainExternals : Externals where
  str _ := []
  names := noNames

theorem survives_half :
    Survives plainExternals halfPython some (.primitive .float64 none) (.float half) :=
  have hparse : parsePrimitiveValueString halfPython (.primitive .float64 none) "0.5".toList =
      .ok (Number.float half).value := rfl
  (survives_iff plainExternals some (fun _ => rfl) hparse).mpr (show half.Fixed by decide)

/-- `0.00001` is printed as `1e-05`, and this is read as a difference -/
theorem not_survives_tiny :
    parsePrimitiveValueString halfPython (.primitive .float64 none) "0.00001".toList =
      .ok (Number.float tiny).value ∧
    writtenLiteral halfPython some (.primitive .float64 none) (Number.float tiny).value =
      some "1e-05".toList ∧
    ¬ Survives plainExternals halfPython some (.primitive .float64 none) (.float tiny) := by
  have hwritten : writtenLiteral halfPython some (.primitive .float64 none)
      (Number.float tiny).value = some tiny.repr := writtenLiteral_number some rfl _
  refine ⟨rfl, rfl, ?_⟩
  rintro ⟨text, ht, hread⟩
  obtain rfl : tiny.repr = text := Option.some.inj (hwritten.symm.trans ht)
  exact tiny.not_readBack plainExternals (by decide) _ hread

end PMROS2.Rosidl
