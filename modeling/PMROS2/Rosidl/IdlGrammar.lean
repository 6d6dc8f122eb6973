import PMROS2.Lib.Grammar
import PMROS2.Rosidl.MsgTypes

/-!
# The grammar of IDL files

`grammar.lark` of `rosidl_parser`.  A string of the grammar leaves no token in the tree, every
other terminal does.  Braces are written as escapes.  Character literals and switches are left out.

* `Terminal`, `Rule`   the names of the grammar;
* `idl`                its rules and priorities;
* `skip`               white space and comments;
* `reads_str`, `reads_identifier`, `reads_digit`   what the terminals read.
-/

namespace PMROS2.Rosidl
open PMROS2.Strings PMROS2.Grammars

/-! ## terminals -/

inductive Terminal where
  /-- `"text"` -/
  | str (text : String)
  /-- `"text"i`, of small letters -/
  | anyCase (text : String)
  | identifier | digit
  /-- `"1".."9"` -/
  | nonzero
  /-- `"0".."7"` -/
  | octal
  | hexdigit
  /-- `/(\\\"|[^"])+/` -/
  | stringBody
  /-- `/[^>]+/` -/
  | noAngle
  /-- `/[^"]+/` -/
  | noQuote
  | ws | comment
  deriving DecidableEq, Repr

def isLetter (c : Char) : Bool := isLower c || isUpper c

/-- a character of an identifier, after the first -/
def isIdentifierChar (c : Char) : Bool := isLetter c || isDigit c || c = '_'

/-- `/[ \t\f\r\n]/` -/
def isBlank (c : Char) : Bool :=
  c = ' ' || c = '\t' || c = '\x0c' || c = '\r' || c = '\n'

/-- the length of a match of one character or more -/
def lengthWhile (p : Char → Bool) (s : Text) : Option Nat :=
  match s.takeWhile p with
  | [] => none
  | c :: w => some (c :: w).length

def lengthOne (p : Char → Bool) : Text → Option Nat
  | [] => none
  | c :: _ => if p c then some 1 else none

def lengthBody : Text → Nat
  | [] => 0
  | [c] => if c = '"' then 0 else 1
  | c :: d :: s =>
    if c = '\\' ∧ d = '"' then lengthBody s + 2
    else if c = '"' then 0
    else lengthBody (d :: s) + 1

/-- the length up to the end of the first `*/` -/
def lengthClose : Text → Option Nat
  | [] => none
  | c :: s => if c = '*' ∧ s.head? = some '/' then some 2 else (lengthClose s).map (· + 1)

def Terminal.length : Terminal → Text → Option Nat
  | .str text, s => if text.toList.isPrefixOf s then some text.toList.length else none
  | .anyCase text, s =>
    if (s.take text.toList.length).map Char.toLower = text.toList then some text.toList.length
    else none
  | .identifier, s =>
    match s with
    | [] => none
    | c :: s => if isLetter c then some ((s.takeWhile isIdentifierChar).length + 1) else none
  | .digit, s => lengthOne isDigit s
  | .nonzero, s => lengthOne (fun c => isDigit c && c ≠ '0') s
  | .octal, s => lengthOne (fun c => '0' ≤ c && c ≤ '7') s
  | .hexdigit, s => lengthOne
      (fun c => isDigit c || ('a' ≤ c && c ≤ 'f') || ('A' ≤ c && c ≤ 'F')) s
  | .stringBody, s => if lengthBody s = 0 then none else some (lengthBody s)
  | .noAngle, s => lengthWhile (· ≠ '>') s
  | .noQuote, s => lengthWhile (· ≠ '"') s
  | .ws, s => lengthWhile isBlank s
  | .comment, s =>
    match s with
    | '/' :: '/' :: s => some ((s.takeWhile (· ≠ '\n')).length + 2)
    | '/' :: '*' :: _ :: s => (lengthClose s).map (· + 3)
    | _ => none

def Terminal.scan (t : Terminal) (s : Text) : Option (Text × Text) :=
  (t.length s).map fun n => (s.take n, s.drop n)

theorem Terminal.scan_eq (t : Terminal) (s w r : Text) (h : t.scan s = some (w, r)) :
    s = w ++ r := by
  obtain ⟨n, -, he⟩ := Option.map_eq_some_iff.mp h
  rw [Prod.mk.injEq] at he
  rw [← he.1, ← he.2, List.take_append_drop]

/-- the strings of the grammar leave no token -/
def Terminal.keeps : Terminal → Bool
  | .str _ | .anyCase _ => false
  | _ => true

/-! ## rules -/

inductive Rule where
  | integerLiteral | decimalLiteral | octalLiteral | hexadecimalLiteral
  | stringLiterals | wideStringLiterals | stringLiteral | wideStringLiteral
  | floatingPtLiteral | floatingPtLiteralDot | floatingPtLiteralE | fixedPtLiteral
  | includeDirective | hCharSequence | qCharSequence
  | specification | definition | moduleDcl | scopedName | scopedNameSeparator
  | constDcl | constType | constExpr | orExpr | xorExpr | andExpr | shiftExpr | addExpr | multExpr
  | unaryExpr | unaryOperator | unaryOperatorMinus | unaryOperatorPlus | unaryOperatorTilde
  | primaryExpr | literal | booleanLiteral | booleanLiteralTrue | booleanLiteralFalse
  | positiveIntConst | typeDcl | typeSpec | simpleTypeSpec | baseTypeSpec
  | floatingPtType | floatingPtTypeFloat | floatingPtTypeDouble | floatingPtTypeLongDouble
  | integerType | signedInt | signedShortInt | signedLongInt | signedLonglongInt
  | unsignedInt | unsignedShortInt | unsignedLongInt | unsignedLonglongInt
  | charType | wideCharType | booleanType | octetType
  | templateTypeSpec | sequenceType | stringType | wideStringType | fixedPtType | fixedPtConstType
  | constrTypeDcl | structDcl | structDef | member | structForwardDcl | enumDcl | enumerator
  | arrayDeclarator | fixedArraySize | simpleDeclarator | typedefDcl | typeDeclarator
  | anyDeclarators | anyDeclarator | declarators | declarator
  | signedTinyInt | unsignedTinyInt
  | annotationAppl | annotationApplParams | annotationApplParam
  deriving DecidableEq, Repr

namespace Rule

/-- the numbers behind the names -/
def priority : Rule → Nat
  | .scopedName => 1
  | .literal | .baseTypeSpec | .floatingPtType | .integerType | .charType | .wideCharType
  | .booleanType | .octetType | .templateTypeSpec | .stringType | .wideStringType
  | .fixedPtConstType => 2
  | _ => 0

abbrev Body := Expr Rule Terminal

/-- a string, a string in small or large letters, and a rule -/
def s (text : String) : Body := .terminal (.str text)
def i (text : String) : Body := .terminal (.anyCase text)
def r (x : Rule) : Body := .rule x

/-- `( .. )*`, `( .. )+` and `[ .. ]` -/
def many (l : List Body) : Body := .star (.seqs l)
def some (l : List Body) : Body := .plus (.seqs l)
def opt (l : List Body) : Body := .option (.seqs l)

/-- an expression and those with an operator before their last operand -/
def binary (x operand : Rule) (operators : List String) : Body :=
  .alts ([r operand] :: operators.map fun o => [r x, s o, r operand])

/-- the strings one of which is to be read -/
def oneOf (texts : List (List String)) : Body := .alts (texts.map (List.map s))

def body : Rule → Body
  | integerLiteral => .alts [[r decimalLiteral], [r octalLiteral], [r hexadecimalLiteral]]
  | decimalLiteral => .alts [[.terminal .digit], [.terminal .nonzero, some [.terminal .digit]]]
  | octalLiteral => .seqs [s "0", some [.terminal .octal]]
  | hexadecimalLiteral => .seqs [i "0x", some [.terminal .hexdigit]]
  | stringLiterals => some [r stringLiteral]
  | wideStringLiterals => some [r wideStringLiteral]
  | stringLiteral => .alts [[s "\"\""], [s "\"", .terminal .stringBody, s "\""]]
  | wideStringLiteral => .alts [[s "L\"\""], [s "L\"", .terminal .stringBody, s "\""]]
  | floatingPtLiteral => .alts
      [[some [.terminal .digit], r floatingPtLiteralDot, some [.terminal .digit],
        r floatingPtLiteralE, many [.terminal .digit]],
       [r floatingPtLiteralDot, some [.terminal .digit],
        opt [r floatingPtLiteralE, many [.terminal .digit]]],
       [some [.terminal .digit], r floatingPtLiteralDot, many [.terminal .digit],
        opt [r floatingPtLiteralE, many [.terminal .digit]]],
       [some [.terminal .digit], r floatingPtLiteralE, many [.terminal .digit]]]
  | floatingPtLiteralDot => s "."
  | floatingPtLiteralE => i "e"
  | fixedPtLiteral => .alts
      [[some [.terminal .digit], s ".", some [.terminal .digit], i "d"],
       [s ".", some [.terminal .digit], i "d"],
       [some [.terminal .digit], s ".", i "d"],
       [some [.terminal .digit], i "d"]]
  | includeDirective => .seqs [s "#include",
      .alts [[s "<", r hCharSequence, s ">"], [s "\"", r qCharSequence, s "\""]]]
  | hCharSequence => .terminal .noAngle
  | qCharSequence => .terminal .noQuote
  | specification => some [r definition]
  | definition => .alts [[r moduleDcl, s ";"], [r constDcl, s ";"], [r typeDcl, s ";"],
      [r includeDirective]]
  | moduleDcl => .seqs [many [r annotationAppl], s "module", .terminal .identifier, s "\x7b",
      some [r definition], s "\x7d"]
  | scopedName => .alts [[.terminal .identifier],
      [r scopedNameSeparator, .terminal .identifier],
      [r scopedName, r scopedNameSeparator, .terminal .identifier]]
  | scopedNameSeparator => s "::"
  | constDcl => .seqs [s "const", r constType, .terminal .identifier, s "=", r constExpr]
  | constType => .alts [[r integerType], [r floatingPtType], [r fixedPtConstType], [r charType],
      [r wideCharType], [r booleanType], [r octetType], [r stringType], [r wideStringType],
      [r scopedName]]
  | constExpr => r orExpr
  | orExpr => binary orExpr xorExpr ["|"]
  | xorExpr => binary xorExpr andExpr ["^"]
  | andExpr => binary andExpr shiftExpr ["&"]
  | shiftExpr => binary shiftExpr addExpr [">>", "<<"]
  | addExpr => binary addExpr multExpr ["+", "-"]
  | multExpr => binary multExpr unaryExpr ["*", "/", "%"]
  | unaryExpr => .alts [[r unaryOperator, r primaryExpr], [r primaryExpr]]
  | unaryOperator => .alts [[r unaryOperatorMinus], [r unaryOperatorPlus], [r unaryOperatorTilde]]
  | unaryOperatorMinus => s "-"
  | unaryOperatorPlus => s "+"
  | unaryOperatorTilde => s "~"
  | primaryExpr => .alts [[r scopedName], [r literal], [s "(", r constExpr, s ")"]]
  | literal => .alts [[r integerLiteral], [r floatingPtLiteral], [r fixedPtLiteral],
      [r booleanLiteral], [r stringLiterals], [r wideStringLiterals]]
  | booleanLiteral => .alts [[r booleanLiteralTrue], [r booleanLiteralFalse]]
  | booleanLiteralTrue => s "TRUE"
  | booleanLiteralFalse => s "FALSE"
  | positiveIntConst => r constExpr
  | typeDcl => .alts [[r constrTypeDcl], [r typedefDcl]]
  | typeSpec => .alts [[r simpleTypeSpec], [r templateTypeSpec]]
  | simpleTypeSpec => .alts [[r baseTypeSpec], [r scopedName]]
  | baseTypeSpec => .alts [[r integerType], [r floatingPtType], [r charType], [r wideCharType],
      [r booleanType], [r octetType]]
  | floatingPtType => .alts [[r floatingPtTypeFloat], [r floatingPtTypeDouble],
      [r floatingPtTypeLongDouble]]
  | floatingPtTypeFloat => s "float"
  | floatingPtTypeDouble => s "double"
  | floatingPtTypeLongDouble => oneOf [["long", "double"]]
  | integerType => .alts [[r signedInt], [r unsignedInt]]
  | signedInt => .alts [[r signedShortInt], [r signedLongInt], [r signedLonglongInt],
      [r signedTinyInt]]
  | signedShortInt => oneOf [["short"], ["int16"]]
  | signedLongInt => oneOf [["long"], ["int32"]]
  | signedLonglongInt => oneOf [["long", "long"], ["int64"]]
  | unsignedInt => .alts [[r unsignedShortInt], [r unsignedLongInt], [r unsignedLonglongInt],
      [r unsignedTinyInt]]
  | unsignedShortInt => oneOf [["unsigned", "short"], ["uint16"]]
  | unsignedLongInt => oneOf [["unsigned", "long"], ["uint32"]]
  | unsignedLonglongInt => oneOf [["unsigned", "long", "long"], ["uint64"]]
  | charType => s "char"
  | wideCharType => s "wchar"
  | booleanType => s "boolean"
  | octetType => s "octet"
  | templateTypeSpec => .alts [[r sequenceType], [r stringType], [r wideStringType],
      [r fixedPtType]]
  | sequenceType => .alts
      [[s "sequence", s "<", r typeSpec, s ",", r positiveIntConst, s ">"],
       [s "sequence", s "<", r typeSpec, s ">"]]
  | stringType => .alts [[s "string", s "<", r positiveIntConst, s ">"], [s "string"]]
  | wideStringType => .alts [[s "wstring", s "<", r positiveIntConst, s ">"], [s "wstring"]]
  | fixedPtType => .seqs [s "fixed", s "<", r positiveIntConst, s ",", r positiveIntConst, s ">"]
  | fixedPtConstType => s "fixed"
  | constrTypeDcl => .alts [[r structDcl], [r enumDcl]]
  | structDcl => .alts [[r structDef], [r structForwardDcl]]
  | structDef => .seqs [many [r annotationAppl], s "struct", .terminal .identifier, s "\x7b",
      some [r member], s "\x7d"]
  | member => .seqs [many [r annotationAppl], r typeSpec, r declarators, s ";"]
  | structForwardDcl => .seqs [s "struct", .terminal .identifier]
  | enumDcl => .seqs [many [r annotationAppl], s "enum", .terminal .identifier, s "\x7b",
      r enumerator, many [s ",", r enumerator], s "\x7d"]
  | enumerator => .seqs [many [r annotationAppl], .terminal .identifier]
  | arrayDeclarator => .seqs [.terminal .identifier, some [r fixedArraySize]]
  | fixedArraySize => .seqs [s "[", r positiveIntConst, s "]"]
  | simpleDeclarator => .terminal .identifier
  | typedefDcl => .seqs [s "typedef", r typeDeclarator]
  | typeDeclarator => .seqs [.alts [[r simpleTypeSpec], [r templateTypeSpec], [r constrTypeDcl]],
      r anyDeclarators]
  | anyDeclarators => .seqs [r anyDeclarator, many [s ",", r anyDeclarator]]
  | anyDeclarator => .alts [[r simpleDeclarator], [r arrayDeclarator]]
  | declarators => .seqs [r declarator, many [s ",", r declarator]]
  | declarator => .alts [[r simpleDeclarator], [r arrayDeclarator]]
  | signedTinyInt => s "int8"
  | unsignedTinyInt => s "uint8"
  | annotationAppl => .seqs [s "@", r scopedName,
      opt [s "(", r annotationApplParams, s ")"]]
  | annotationApplParams => .alts [[r constExpr],
      [r annotationApplParam, many [s ",", r annotationApplParam]]]
  | annotationApplParam => .seqs [.terminal .identifier, s "=", r constExpr]

end Rule

def idl : Grammar Rule Terminal where
  body := Rule.body
  priority := Rule.priority
  scan := Terminal.scan
  scan_eq := Terminal.scan_eq
  keeps := Terminal.keeps
  ignored := [.ws, .comment]

/-! ## white space and comments -/

def skipLoop : Nat → Text → Text
  | 0, s => s
  | n + 1, s =>
    match Terminal.ws.length s with
    | some k => skipLoop n (s.drop k)
    | none =>
      match Terminal.comment.length s with
      | some k => skipLoop n (s.drop k)
      | none => s

def skip (s : Text) : Text := skipLoop s.length s

theorem lengthWhile_pos {p : Char → Bool} {s : Text} {k : Nat} (h : lengthWhile p s = some k) :
    0 < k := by
  unfold lengthWhile at h
  split at h
  · cases h
  · obtain rfl := Option.some.inj h
    exact Nat.succ_pos _

theorem comment_length_pos {s : Text} {k : Nat} (h : Terminal.comment.length s = some k) :
    0 < k := by
  simp only [Terminal.length] at h
  split at h
  · obtain rfl := Option.some.inj h
    exact Nat.succ_pos _
  · obtain ⟨m, -, rfl⟩ := Option.map_eq_some_iff.mp h
    exact Nat.succ_pos _
  · cases h

/-- what is ignored is white space or a comment, not both -/
theorem comment_of_ws {s : Text} {k : Nat} (h : Terminal.ws.length s = some k) :
    Terminal.comment.length s = none := by
  cases s with
  | nil => rfl
  | cons c s =>
    have hc : c ≠ '/' := by
      rintro rfl
      cases h
    simp only [Terminal.length]
    split
    · rename_i heq
      exact absurd (List.cons.inj heq).1 hc
    · rename_i heq
      exact absurd (List.cons.inj heq).1 hc
    · rfl

theorem scan_eq_none {t : Terminal} {s : Text} : t.scan s = none ↔ t.length s = none :=
  Option.map_eq_none_iff

theorem scan_eq_some {t : Terminal} {s w r : Text} :
    t.scan s = some (w, r) ↔ ∃ n, t.length s = some n ∧ w = s.take n ∧ r = s.drop n := by
  rw [Terminal.scan, Option.map_eq_some_iff]
  constructor
  · rintro ⟨n, hn, he⟩
    rw [Prod.mk.injEq] at he
    exact ⟨n, hn, he.1.symm, he.2.symm⟩
  · rintro ⟨n, hn, rfl, rfl⟩
    exact ⟨n, hn, rfl⟩

def ignoredLength (s : Text) : Option Nat := (Terminal.ws.length s).or (Terminal.comment.length s)

theorem settled_iff {s : Text} : Settled idl s ↔ ignoredLength s = none := by
  rw [ignoredLength, Option.or_eq_none_iff]
  constructor
  · intro h
    exact ⟨scan_eq_none.mp (h .ws List.mem_cons_self),
      scan_eq_none.mp (h .comment (List.mem_cons_of_mem _ List.mem_cons_self))⟩
  · rintro ⟨h, h'⟩ t ht
    rcases List.mem_cons.mp ht with rfl | ht
    · exact scan_eq_none.mpr h
    · rw [List.mem_singleton.mp ht]
      exact scan_eq_none.mpr h'

theorem skipLoop_succ (n : Nat) (s : Text) : skipLoop (n + 1) s =
    match ignoredLength s with
    | some k => skipLoop n (s.drop k)
    | none => s := by
  rw [skipLoop, ignoredLength]
  cases Terminal.ws.length s with
  | some k => rfl
  | none => cases Terminal.comment.length s <;> rfl

theorem ignoredLength_pos {s : Text} {k : Nat} (h : ignoredLength s = some k) : 0 < k := by
  rcases Option.or_eq_some_iff.mp h with h | ⟨-, h⟩
  · exact lengthWhile_pos h
  · exact comment_length_pos h

/-- enough turns give the same -/
theorem skipLoop_eq {n : Nat} : ∀ {m : Nat} {s : Text}, s.length ≤ n → s.length ≤ m →
    skipLoop n s = skipLoop m s := by
  induction n with
  | zero =>
    intro m s hn _
    obtain rfl := List.length_eq_zero_iff.mp (Nat.le_zero.mp hn)
    cases m <;> rfl
  | succ n ih =>
    intro m s hn hm
    cases m with
    | zero =>
      obtain rfl := List.length_eq_zero_iff.mp (Nat.le_zero.mp hm)
      rfl
    | succ m =>
      rw [skipLoop_succ, skipLoop_succ]
      cases hk : ignoredLength s with
      | none => rfl
      | some k =>
        have hpos := ignoredLength_pos hk
        have hlen : (s.drop k).length = s.length - k := List.length_drop
        exact ih (by omega) (by omega)

theorem skip_of_settled {s : Text} (h : Settled idl s) : skip s = s := by
  unfold skip
  cases hs : s.length with
  | zero => rfl
  | succ n => rw [skipLoop_succ, settled_iff.mp h]

theorem skip_drop {s : Text} {k : Nat} (hk : ignoredLength s = some k) :
    skip s = skip (s.drop k) := by
  have hpos := ignoredLength_pos hk
  unfold skip
  cases hs : s.length with
  | zero =>
    obtain rfl := List.length_eq_zero_iff.mp hs
    cases hk
  | succ n =>
    rw [skipLoop_succ, hk]
    exact skipLoop_eq (by rw [List.length_drop]; omega) (Nat.le_refl _)

theorem ignores_skip : Ignores idl skip := by
  have hstep : ∀ {s k}, ignoredLength s = some k → Skips idl (s.drop k) (skip (s.drop k)) →
      Skips idl s (skip s) := by
    intro s k hk hr
    rw [skip_drop hk]
    rcases Option.or_eq_some_iff.mp hk with h | ⟨-, h⟩
    · exact .step List.mem_cons_self (scan_eq_some.mpr ⟨k, h, rfl, rfl⟩) hr
    · exact .step (List.mem_cons_of_mem _ List.mem_cons_self)
        (scan_eq_some.mpr ⟨k, h, rfl, rfl⟩) hr
  have hskips : ∀ s, Skips idl s (skip s) ∧ Settled idl (skip s) := by
    intro s
    induction hn : s.length using Nat.strong_induction_on generalizing s with
    | _ n ih =>
      cases hk : ignoredLength s with
      | none =>
        rw [skip_of_settled (settled_iff.mpr hk)]
        exact ⟨.refl s, settled_iff.mpr hk⟩
      | some k =>
        have hpos := ignoredLength_pos hk
        have hlt : (s.drop k).length < n := by
          rw [← hn, List.length_drop]
          cases s with
          | nil => cases hk
          | cons c s =>
            rw [List.length_cons]
            omega
        obtain ⟨h, h'⟩ := ih _ hlt _ rfl
        refine ⟨hstep hk h, ?_⟩
        rw [skip_drop hk]
        exact h'
  refine ⟨fun s => (hskips s).1, fun s => (hskips s).2, fun s s' h => ?_⟩
  induction h with
  | refl s => rfl
  | @step s w r s' t ht hw _ ih =>
    obtain ⟨k, hk, -, rfl⟩ := scan_eq_some.mp hw
    have hlen : ignoredLength s = some k := by
      rcases List.mem_cons.mp ht with rfl | ht
      · exact Option.or_eq_some_iff.mpr (.inl hk)
      · obtain rfl := List.mem_singleton.mp ht
        refine Option.or_eq_some_iff.mpr (.inr ⟨?_, hk⟩)
        cases hws : Terminal.ws.length s with
        | none => rfl
        | some m =>
          rw [comment_of_ws hws] at hk
          cases hk
    rw [ih, skip_drop hlen]

theorem settled_cons {c : Char} (hc : isBlank c = false) (h : c ≠ '/') (s : Text) :
    Settled idl (c :: s) := by
  rw [settled_iff, ignoredLength, Option.or_eq_none_iff]
  constructor
  · show lengthWhile isBlank (c :: s) = none
    rw [lengthWhile, List.takeWhile_cons_of_neg (by rw [hc]; exact Bool.false_ne_true)]
  · simp only [Terminal.length]
    split
    · rename_i heq
      exact absurd (List.cons.inj heq).1 h
    · rename_i heq
      exact absurd (List.cons.inj heq).1 h
    · rfl

/-! ## what the terminals read -/

/-- the string begins with no blank and no slash -/
def solidText (text : String) : Bool :=
  match text.toList with
  | [] => false
  | c :: _ => !isBlank c && c ≠ '/'

theorem length_str {text : String} {s : Text} {n : Nat} :
    (Terminal.str text).length s = some n ↔ text.toList <+: s ∧ n = text.toList.length := by
  simp only [Terminal.length]
  split
  · rename_i h
    rw [Option.some.injEq]
    exact ⟨fun hn => ⟨List.isPrefixOf_iff_prefix.mp h, hn.symm⟩, fun hn => hn.2.symm⟩
  · rename_i h
    exact ⟨fun hn => (by cases hn), fun hn => absurd (List.isPrefixOf_iff_prefix.mpr hn.1) h⟩

theorem scan_str {text : String} {s w r : Text} :
    (Terminal.str text).scan s = some (w, r) ↔ w = text.toList ∧ s = text.toList ++ r := by
  rw [scan_eq_some]
  constructor
  · rintro ⟨n, hn, rfl, rfl⟩
    obtain ⟨⟨u, rfl⟩, rfl⟩ := length_str.mp hn
    rw [List.take_left, List.drop_left]
    exact ⟨rfl, rfl⟩
  · rintro ⟨rfl, rfl⟩
    refine ⟨_, length_str.mpr ⟨List.prefix_append _ _, rfl⟩, ?_, ?_⟩
    · rw [List.take_left]
    · rw [List.drop_left]

theorem solid_str {text : String} (h : solidText text = true) : Solid idl (.str text) := by
  intro s w r hw
  obtain ⟨-, rfl⟩ := scan_str.mp hw
  unfold solidText at h
  split at h
  · cases h
  · rename_i c k hk
    rw [Bool.and_eq_true, Bool.not_eq_true', decide_eq_true_eq] at h
    rw [hk]
    exact settled_cons h.1 h.2 _

theorem isBlank_of_letter {c : Char} (h : isLetter c = true) : isBlank c = false ∧ c ≠ '/' := by
  refine ⟨?_, by rintro rfl; exact absurd h (by decide)⟩
  rw [Bool.eq_false_iff]
  intro hb
  simp only [isBlank, Bool.or_eq_true, decide_eq_true_eq] at hb
  rcases hb with (((rfl | rfl) | rfl) | rfl) | rfl <;> exact absurd h (by decide)

theorem isBlank_of_digit {c : Char} (h : isDigit c = true) : isBlank c = false ∧ c ≠ '/' := by
  refine ⟨?_, by rintro rfl; exact absurd h (by decide)⟩
  rw [Bool.eq_false_iff]
  intro hb
  simp only [isBlank, Bool.or_eq_true, decide_eq_true_eq] at hb
  rcases hb with (((rfl | rfl) | rfl) | rfl) | rfl <;> exact absurd h (by decide)

/-- the beginning of a text with a property, and the rest -/
theorem takeWhile_length {q : Char → Bool} {s w r : Text} :
    (w = s.take (s.takeWhile q).length ∧ r = s.drop (s.takeWhile q).length) ↔
      s = w ++ r ∧ (∀ c ∈ w, q c = true) ∧ ∀ c ∈ r.head?, q c = false := by
  constructor
  · rintro ⟨rfl, rfl⟩
    refine ⟨(List.take_append_drop _ _).symm, ?_, ?_⟩
    · rw [← List.prefix_iff_eq_take.mp (List.takeWhile_prefix q)]
      exact fun c hc => List.mem_takeWhile_imp hc
    · have hdrop : s.drop (s.takeWhile q).length = s.dropWhile q := by
        refine List.append_cancel_left (?_ : s.takeWhile q ++ _ = s.takeWhile q ++ _)
        rw [List.takeWhile_append_dropWhile]
        conv_rhs => rw [← List.take_append_drop (s.takeWhile q).length s]
        rw [← List.prefix_iff_eq_take.mp (List.takeWhile_prefix q)]
      rw [hdrop]
      intro c hc
      have hnot := List.head?_dropWhile_not q s
      rw [Option.mem_def.mp hc] at hnot
      exact hnot
  · rintro ⟨rfl, hw, hr⟩
    have htake : (w ++ r).takeWhile q = w := by
      rw [List.takeWhile_append_of_pos hw]
      cases r with
      | nil => exact List.append_nil w
      | cons c r =>
        rw [List.takeWhile_cons_of_neg (by rw [hr c rfl]; exact Bool.false_ne_true)]
        exact List.append_nil w
    rw [htake, List.take_left, List.drop_left]
    exact ⟨rfl, rfl⟩

section
variable {s r : Text} {ts : List (Tree Rule Terminal)} {p : Nat}

theorem reads_str {text : String} (h : solidText text = true) :
    Reads idl (Rule.s text) s ts p r ↔ ts = [] ∧ p = 0 ∧ skip s = text.toList ++ r := by
  rw [Rule.s, reads_terminal ignores_skip (solid_str h)]
  constructor
  · rintro ⟨w, hw, rfl, rfl⟩
    exact ⟨rfl, rfl, (scan_str.mp hw).2⟩
  · rintro ⟨rfl, rfl, hs⟩
    exact ⟨_, scan_str.mpr ⟨rfl, hs⟩, rfl, rfl⟩

/-- an identifier is read up to its end -/
structure IsWord (w r : Text) : Prop where
  head : ∃ c v, w = c :: v ∧ isLetter c = true
  chars : ∀ c ∈ w, isIdentifierChar c = true
  ends : ∀ c ∈ r.head?, isIdentifierChar c = false

theorem isIdentifierChar_of_letter {c : Char} (h : isLetter c = true) :
    isIdentifierChar c = true := by
  unfold isIdentifierChar
  rw [h]
  rfl

theorem scan_identifier {w : Text} :
    Terminal.identifier.scan s = some (w, r) ↔ s = w ++ r ∧ IsWord w r := by
  rw [scan_eq_some]
  cases s with
  | nil =>
    constructor
    · rintro ⟨n, hn, -⟩
      cases hn
    · rintro ⟨he, ⟨c, v, rfl, -⟩, -⟩
      cases he
  | cons c s =>
    have hlen : Terminal.identifier.length (c :: s) =
        if isLetter c then some ((s.takeWhile isIdentifierChar).length + 1) else none := rfl
    rw [hlen]
    constructor
    · rintro ⟨n, hn, rfl, rfl⟩
      by_cases hc : isLetter c = true
      · rw [if_pos hc] at hn
        obtain rfl := Option.some.inj hn
        rw [List.take_succ_cons, List.drop_succ_cons]
        obtain ⟨hs, hw, hr⟩ := takeWhile_length.mp
          (⟨rfl, rfl⟩ : _ = s.take (s.takeWhile isIdentifierChar).length ∧ _)
        refine ⟨congrArg (c :: ·) hs, ⟨c, _, rfl, hc⟩, ?_, hr⟩
        intro d hd
        rcases List.mem_cons.mp hd with rfl | hd
        · exact isIdentifierChar_of_letter hc
        · exact hw d hd
      · rw [if_neg hc] at hn
        cases hn
    · rintro ⟨he, ⟨d, v, rfl, hd⟩, hw, hr⟩
      obtain ⟨rfl, rfl⟩ := List.cons.inj he
      rw [if_pos hd]
      obtain ⟨hv, hr'⟩ := takeWhile_length.mpr
        ⟨rfl, fun c hc => hw c (List.mem_cons_of_mem _ hc), hr⟩
      refine ⟨_, rfl, ?_, ?_⟩
      · exact congrArg (c :: ·) hv
      · exact hr'

theorem solid_identifier : Solid idl .identifier := by
  intro s w r hw
  obtain ⟨rfl, ⟨c, v, rfl, hc⟩, -, -⟩ := scan_identifier.mp hw
  exact settled_cons (isBlank_of_letter hc).1 (isBlank_of_letter hc).2 _

theorem reads_identifier : Reads idl (.terminal .identifier) s ts p r ↔
    ∃ w, skip s = w ++ r ∧ IsWord w r ∧ ts = [.token .identifier w] ∧ p = 0 := by
  rw [reads_terminal ignores_skip solid_identifier]
  constructor
  · rintro ⟨w, hw, rfl, rfl⟩
    obtain ⟨hs, hword⟩ := scan_identifier.mp hw
    exact ⟨w, hs, hword, rfl, rfl⟩
  · rintro ⟨w, hs, hword, rfl, rfl⟩
    exact ⟨w, scan_identifier.mpr ⟨hs, hword⟩, rfl, rfl⟩

theorem scan_one {q : Char → Bool} {t : Terminal} (ht : t.length = lengthOne q) {w : Text} :
    t.scan s = some (w, r) ↔ ∃ c, q c = true ∧ s = c :: r ∧ w = [c] := by
  rw [scan_eq_some, ht]
  cases s with
  | nil =>
    constructor
    · rintro ⟨n, hn, -⟩
      cases hn
    · rintro ⟨c, -, he, -⟩
      cases he
  | cons c s =>
    rw [lengthOne]
    constructor
    · rintro ⟨n, hn, rfl, rfl⟩
      by_cases hc : q c = true
      · rw [if_pos hc] at hn
        obtain rfl := Option.some.inj hn
        exact ⟨c, hc, rfl, rfl⟩
      · rw [if_neg hc] at hn
        cases hn
    · rintro ⟨d, hd, he, rfl⟩
      obtain ⟨rfl, rfl⟩ := List.cons.inj he
      exact ⟨1, if_pos hd, rfl, rfl⟩

/-- one character with a property that blanks and slashes do not have -/
theorem reads_one {q : Char → Bool} {t : Terminal} (ht : t.length = lengthOne q)
    (hkeep : t.keeps = true) (hq : ∀ c, q c = true → isBlank c = false ∧ c ≠ '/') :
    Reads idl (.terminal t) s ts p r ↔
      ∃ c, q c = true ∧ skip s = c :: r ∧ ts = [.token t [c]] ∧ p = 0 := by
  have hsolid : Solid idl t := by
    intro s w r hw
    obtain ⟨c, hc, rfl, -⟩ := (scan_one ht).mp hw
    exact settled_cons (hq c hc).1 (hq c hc).2 _
  have hleaf : ∀ w, idl.leaf t w = [.token t w] := fun w => if_pos hkeep
  rw [reads_terminal ignores_skip hsolid]
  constructor
  · rintro ⟨w, hw, rfl, rfl⟩
    obtain ⟨c, hc, hs, rfl⟩ := (scan_one ht).mp hw
    exact ⟨c, hc, hs, hleaf _, rfl⟩
  · rintro ⟨c, hc, hs, rfl, rfl⟩
    exact ⟨[c], (scan_one ht).mpr ⟨c, hc, hs, rfl⟩, (hleaf _).symm, rfl⟩

theorem reads_digit : Reads idl (.terminal .digit) s ts p r ↔
    ∃ c, isDigit c = true ∧ skip s = c :: r ∧ ts = [.token .digit [c]] ∧ p = 0 :=
  reads_one rfl rfl fun _ => isBlank_of_digit

theorem reads_nonzero : Reads idl (.terminal .nonzero) s ts p r ↔
    ∃ c, (isDigit c && c ≠ '0') = true ∧ skip s = c :: r ∧ ts = [.token .nonzero [c]] ∧ p = 0 :=
  reads_one rfl rfl fun _ hc => isBlank_of_digit (Bool.and_eq_true _ _ ▸ hc).1

end

end PMROS2.Rosidl
