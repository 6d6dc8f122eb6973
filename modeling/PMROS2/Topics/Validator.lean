import PMROS2.Lib.Template
import PMROS2.Lib.Simulation
import Mathlib.Data.List.Chain

/-!
# Validation of topic names

`rcl_validate_topic_name` (`validate_topic_name.c`): one pass over the characters with a flag for
being inside of braces, and a second one over pairs of neighbours.  A text is the list of its
characters; what is not valid is reported with the index of the violation.

* `checkCharacters_cons`      what the first pass lets through, one character at a time;
* `Accepted.balanced`, …      what an accepted name looks like;
* `accepted_iff_of_absolute`  absolute names without braces and tildes, exactly.
-/

namespace PMROS2.Topics
open PMROS2.Strings PMROS2.Template PMROS2.Simulation

/-- the codes of `validate_topic_name.h` other than `RCL_TOPIC_NAME_VALID` -/
inductive TopicNameInvalid
  | isEmptyString
  | endsWithForwardSlash
  | containsUnallowedCharacters
  | nameTokenStartsWithNumber
  | unmatchedCurlyBrace
  | misplacedTilde
  | tildeNotFollowedByForwardSlash
  | substitutionContainsUnallowedCharacters
  | substitutionStartsWithNumber
  deriving DecidableEq, Repr

/-! ## functions of other packages -/

/-- `isdigit` -/
def isDigit (c : Char) : Bool := '0' ≤ c && c ≤ '9'

/-- `rcutils_isalnum_no_locale`: documented as `isalnum` without the locale, so a digit or a letter
of ASCII -/
def isAlnum (c : Char) : Bool := isDigit c || ('A' ≤ c && c ≤ 'Z') || ('a' ≤ c && c ≤ 'z')

/-- an `rmw_ret_t` that is not `RMW_RET_OK` -/
inductive RmwRet
  | invalidArgument
  | other
  deriving DecidableEq, Repr

/-- what is called where names are expanded; a name is valid or not, if there is no error -/
structure Library where
  /-- `rmw_validate_node_name` -/
  validateNodeName : Text → Except RmwRet Bool
  /-- `rmw_validate_namespace` -/
  validateNamespace : Text → Except RmwRet Bool
  /-- `rcutils_repl_str(str, from, to)` -/
  replStr : Text → Text → Text → Text

/-! ## the code -/

/-- the loop over the characters: the flag `in_open_curly_brace` and the index of the last opening
brace at its end -/
def checkCharacters : Nat → Bool → Nat → Text → Except (TopicNameInvalid × Nat) (Bool × Nat)
  | _, inBrace, opening, [] => .ok (inBrace, opening)
  | i, inBrace, opening, c :: s =>
    if isAlnum c then
      if isDigit c ∧ inBrace ∧ i > 0 ∧ i - 1 = opening then
        .error (.substitutionStartsWithNumber, i)
      else checkCharacters (i + 1) inBrace opening s
    else if c = '_' then checkCharacters (i + 1) inBrace opening s
    else if c = '/' then
      if inBrace then .error (.substitutionContainsUnallowedCharacters, i)
      else checkCharacters (i + 1) inBrace opening s
    else if c = '~' then
      if i ≠ 0 then .error (.misplacedTilde, i) else checkCharacters (i + 1) inBrace opening s
    else if c = '{' then
      if inBrace then .error (.substitutionContainsUnallowedCharacters, i)
      else checkCharacters (i + 1) true i s
    else if c = '}' then
      if inBrace then checkCharacters (i + 1) false opening s
      else .error (.unmatchedCurlyBrace, i)
    else if inBrace then .error (.substitutionContainsUnallowedCharacters, i)
    else .error (.containsUnallowedCharacters, i)

/-- the loop over pairs of neighbours; the last character has none -/
def checkTokens (first : Char) : Nat → Text → Except (TopicNameInvalid × Nat) Unit
  | i, c :: d :: s =>
    if c = '/' then
      if isDigit d then .error (.nameTokenStartsWithNumber, i + 1)
      else checkTokens first (i + 1) (d :: s)
    else if i = 1 ∧ first = '~' then .error (.tildeNotFollowedByForwardSlash, 1)
    else checkTokens first (i + 1) (d :: s)
  | _, _ => .ok ()

/-- `rcl_validate_topic_name_with_size` -/
def validateTopicName : Text → Except (TopicNameInvalid × Nat) Unit
  | [] => .error (.isEmptyString, 0)
  | first :: rest =>
    if isDigit first then .error (.nameTokenStartsWithNumber, 0)
    else if (first :: rest).getLast? = some '/' then .error (.endsWithForwardSlash, rest.length)
    else do
      let (inBrace, opening) ← checkCharacters 0 false 0 (first :: rest)
      if inBrace then throw (.unmatchedCurlyBrace, opening)
      checkTokens first 0 (first :: rest)

/-- `RCL_TOPIC_NAME_VALID` -/
def Accepted (name : Text) : Prop := validateTopicName name = .ok ()

instance (name : Text) : Decidable (Accepted name) :=
  inferInstanceAs (Decidable (validateTopicName name = .ok ()))

/-! ## the first pass -/

/-- a letter, a digit or an underscore -/
def isWord (c : Char) : Bool := isAlnum c || c = '_'

/-- what a name has besides braces and tildes -/
def isNameChar (c : Char) : Bool := isWord c || c = '/'

/-- one character that the first pass lets through -/
theorem checkCharacters_cons {i opening : Nat} {inBrace : Bool} {c : Char} {s : Text}
    {r : Bool × Nat} (h : checkCharacters i inBrace opening (c :: s) = .ok r) :
    (isWord c = true ∧ checkCharacters (i + 1) inBrace opening s = .ok r) ∨
    (c = '/' ∧ inBrace = false ∧ checkCharacters (i + 1) false opening s = .ok r) ∨
    (c = '~' ∧ i = 0 ∧ checkCharacters (i + 1) inBrace opening s = .ok r) ∨
    (c = '{' ∧ inBrace = false ∧ checkCharacters (i + 1) true i s = .ok r) ∨
    (c = '}' ∧ inBrace = true ∧ checkCharacters (i + 1) false opening s = .ok r) := by
  rw [checkCharacters] at h
  by_cases halnum : isAlnum c = true
  · rw [if_pos halnum] at h
    split at h
    · cases h
    · exact .inl ⟨by rw [isWord, halnum]; rfl, h⟩
  rw [if_neg halnum] at h
  by_cases hunder : c = '_'
  · rw [if_pos hunder] at h
    exact .inl ⟨by rw [hunder]; rfl, h⟩
  rw [if_neg hunder] at h
  by_cases hslash : c = '/'
  · rw [if_pos hslash] at h
    cases inBrace with
    | true => cases h
    | false => exact .inr (.inl ⟨hslash, rfl, h⟩)
  rw [if_neg hslash] at h
  by_cases htilde : c = '~'
  · rw [if_pos htilde] at h
    by_cases hi : i = 0
    · rw [if_neg (not_not.mpr hi)] at h
      exact .inr (.inr (.inl ⟨htilde, hi, h⟩))
    · rw [if_pos hi] at h
      cases h
  rw [if_neg htilde] at h
  by_cases hopen : c = '{'
  · rw [if_pos hopen] at h
    cases inBrace with
    | true => cases h
    | false => exact .inr (.inr (.inr (.inl ⟨hopen, rfl, h⟩)))
  rw [if_neg hopen] at h
  by_cases hclose : c = '}'
  · rw [if_pos hclose] at h
    cases inBrace with
    | true => exact .inr (.inr (.inr (.inr ⟨hclose, rfl, h⟩)))
    | false => cases h
  rw [if_neg hclose] at h
  cases inBrace <;> cases h

theorem not_brace_of_word {c : Char} (h : isWord c = true) : c ≠ '{' ∧ c ≠ '}' := by
  constructor
  · rintro rfl
    cases h
  · rintro rfl
    cases h

/-- braces are matched -/
theorem checkCharacters_balanced {s : Text} : ∀ {i opening last : Nat} {inBrace : Bool},
    checkCharacters i inBrace opening s = .ok (false, last) → balanced inBrace s = true := by
  induction s with
  | nil =>
    intro i opening last inBrace h
    cases inBrace with
    | true => cases h
    | false => rfl
  | cons c s ih =>
    intro i opening last inBrace h
    rw [balanced]
    rcases checkCharacters_cons h with ⟨hw, h⟩ | ⟨rfl, rfl, h⟩ | ⟨rfl, -, h⟩ | ⟨rfl, rfl, h⟩ |
      ⟨rfl, rfl, h⟩
    · obtain ⟨hopen, hclose⟩ := not_brace_of_word hw
      rw [if_neg hopen, if_neg hclose]
      exact ih h
    · exact ih h
    · exact ih h
    · exact ih h
    · exact ih h

/-- every character is one of a name, or a brace, or a tilde at the beginning -/
theorem checkCharacters_chars {s : Text} : ∀ {i opening : Nat} {inBrace : Bool} {r : Bool × Nat},
    checkCharacters i inBrace opening s = .ok r → ∀ c ∈ s,
      isNameChar c = true ∨ c = '{' ∨ c = '}' ∨ (c = '~' ∧ i = 0) := by
  induction s with
  | nil =>
    intro i opening inBrace r h c hc
    cases hc
  | cons d s ih =>
    intro i opening inBrace r h c hc
    -- further on there is no tilde, as the index is not 0
    have hs : ∀ {opening : Nat} {inBrace : Bool}, checkCharacters (i + 1) inBrace opening s = .ok r →
        c ∈ s → isNameChar c = true ∨ c = '{' ∨ c = '}' ∨ (c = '~' ∧ i = 0) := by
      intro opening inBrace h hc
      rcases ih h c hc with hn | ho | hcl | ⟨-, hi⟩
      · exact .inl hn
      · exact .inr (.inl ho)
      · exact .inr (.inr (.inl hcl))
      · omega
    rcases checkCharacters_cons h with ⟨hw, h⟩ | ⟨rfl, -, h⟩ | ⟨rfl, hi, h⟩ | ⟨rfl, -, h⟩ | ⟨rfl, -, h⟩ <;>
      rcases List.mem_cons.mp hc with rfl | hc
    · exact .inl (by rw [isNameChar, hw]; rfl)
    · exact hs h hc
    · exact .inl rfl
    · exact hs h hc
    · exact .inr (.inr (.inr ⟨rfl, hi⟩))
    · exact hs h hc
    · exact .inr (.inl rfl)
    · exact hs h hc
    · exact .inr (.inr (.inl rfl))
    · exact hs h hc

/-- outside of braces all characters of names pass -/
theorem checkCharacters_of_nameChar {s : Text} (hs : ∀ c ∈ s, isNameChar c = true) :
    ∀ i opening, checkCharacters i false opening s = .ok (false, opening) := by
  induction s with
  | nil =>
    intro i opening
    rfl
  | cons c s ih =>
    intro i opening
    have hc := hs c List.mem_cons_self
    have ihs := ih (fun d hd => hs d (List.mem_cons_of_mem c hd)) (i + 1) opening
    rw [checkCharacters]
    by_cases halnum : isAlnum c = true
    · rw [if_pos halnum, if_neg (fun hbad => Bool.false_ne_true hbad.2.1)]
      exact ihs
    rw [if_neg halnum]
    by_cases hunder : c = '_'
    · rw [if_pos hunder]
      exact ihs
    rw [if_neg hunder]
    have hslash : c = '/' := by
      simp only [isNameChar, isWord, Bool.or_eq_true, decide_eq_true_eq] at hc
      rcases hc with (hc | hc) | hc
      · exact absurd hc halnum
      · exact absurd hc hunder
      · exact hc
    rw [if_pos hslash]
    exact ihs

/-! ## the second pass -/

def NoDigitAfterSlash (s : Text) : Prop := s.IsChain fun c d => ¬ (c = '/' ∧ isDigit d = true)

theorem checkTokens_chain {first : Char} {s : Text} : ∀ {i : Nat},
    checkTokens first i s = .ok () → NoDigitAfterSlash s := by
  induction s with
  | nil => exact fun _ => List.isChain_nil
  | cons c s ih =>
    intro i h
    cases s with
    | nil => exact List.isChain_singleton c
    | cons d s =>
      rw [NoDigitAfterSlash, List.isChain_cons_cons]
      rw [checkTokens] at h
      by_cases hslash : c = '/'
      · rw [if_pos hslash] at h
        split at h
        · cases h
        · rename_i hd
          exact ⟨fun hc => hd hc.2, ih h⟩
      · rw [if_neg hslash] at h
        split at h
        · cases h
        · exact ⟨fun hc => hslash hc.1, ih h⟩

theorem checkTokens_of_chain {first : Char} {s : Text} (hs : NoDigitAfterSlash s) :
    ∀ i, (first = '~' → 1 < i) → checkTokens first i s = .ok () := by
  induction s with
  | nil => exact fun _ _ => rfl
  | cons c s ih =>
    intro i hi
    cases s with
    | nil => rfl
    | cons d s =>
      obtain ⟨hcd, hrest⟩ := List.isChain_cons_cons.mp hs
      have hnext : first = '~' → 1 < i + 1 := fun hfirst => Nat.lt_succ_of_lt (hi hfirst)
      rw [checkTokens]
      by_cases hslash : c = '/'
      · rw [if_pos hslash, if_neg fun hd => hcd ⟨hslash, hd⟩]
        exact ih hrest (i + 1) hnext
      · rw [if_neg hslash, if_neg fun hc => absurd (hi hc.2) (by omega)]
        exact ih hrest (i + 1) hnext

/-! ## accepted names -/

/-- the checks in turn -/
theorem accepted_cons {first : Char} {rest : Text} :
    Accepted (first :: rest) ↔ isDigit first = false ∧
      (first :: rest).getLast? ≠ some '/' ∧
      (∃ opening, checkCharacters 0 false 0 (first :: rest) = .ok (false, opening)) ∧
      checkTokens first 0 (first :: rest) = .ok () := by
  rw [Accepted, validateTopicName]
  by_cases hd : isDigit first = true
  · rw [if_pos hd]
    constructor
    · intro h
      cases h
    · intro h
      rw [hd] at h
      cases h.1
  rw [if_neg hd]
  by_cases hl : (first :: rest).getLast? = some '/'
  · rw [if_pos hl]
    constructor
    · intro h
      cases h
    · intro h
      exact absurd hl h.2.1
  rw [if_neg hl, bind_eq_ok]
  constructor
  · rintro ⟨⟨inBrace, opening⟩, hc, ht⟩
    cases inBrace with
    | true => cases ht
    | false => exact ⟨Bool.eq_false_iff.mpr hd, hl, ⟨opening, hc⟩, ht⟩
  · rintro ⟨-, -, ⟨opening, hc⟩, ht⟩
    exact ⟨(false, opening), hc, ht⟩

theorem Accepted.ne_nil {name : Text} (h : Accepted name) : name ≠ [] := by
  rintro rfl
  cases h

theorem Accepted.balanced {name : Text} (h : Accepted name) :
    Template.balanced false name = true := by
  cases name with
  | nil => cases h
  | cons first rest =>
    obtain ⟨-, -, ⟨opening, hc⟩, -⟩ := accepted_cons.mp h
    exact checkCharacters_balanced hc

theorem Accepted.not_digit {name : Text} (h : Accepted name) : ∀ c ∈ name.head?, isDigit c = false := by
  cases name with
  | nil => cases h
  | cons first rest =>
    intro c hc
    obtain rfl := Option.some.inj hc
    exact (accepted_cons.mp h).1

theorem Accepted.getLast {name : Text} (h : Accepted name) : name.getLast? ≠ some '/' := by
  cases name with
  | nil => cases h
  | cons first rest => exact (accepted_cons.mp h).2.1

theorem Accepted.chain {name : Text} (h : Accepted name) : NoDigitAfterSlash name := by
  cases name with
  | nil => cases h
  | cons first rest => exact checkTokens_chain (accepted_cons.mp h).2.2.2

/-- after the first character there is no tilde -/
theorem Accepted.chars {first : Char} {rest : Text} (h : Accepted (first :: rest)) :
    (isNameChar first = true ∨ first = '{' ∨ first = '~') ∧
      ∀ c ∈ rest, isNameChar c = true ∨ c = '{' ∨ c = '}' := by
  obtain ⟨-, -, ⟨opening, hc⟩, -⟩ := accepted_cons.mp h
  have hrest : ∀ {opening : Nat} {inBrace : Bool} {r : Bool × Nat},
      checkCharacters 1 inBrace opening rest = .ok r →
      ∀ c ∈ rest, isNameChar c = true ∨ c = '{' ∨ c = '}' := by
    intro opening inBrace r h c hc
    rcases checkCharacters_chars h c hc with hn | ho | hcl | ⟨-, hi⟩
    · exact .inl hn
    · exact .inr (.inl ho)
    · exact .inr (.inr hcl)
    · cases hi
  rcases checkCharacters_cons hc with ⟨hw, h⟩ | ⟨rfl, -, h⟩ | ⟨rfl, -, h⟩ | ⟨rfl, -, h⟩ | ⟨rfl, hb, h⟩
  · exact ⟨.inl (by rw [isNameChar, hw]; rfl), hrest h⟩
  · exact ⟨.inl rfl, hrest h⟩
  · exact ⟨.inr (.inr rfl), hrest h⟩
  · exact ⟨.inr (.inl rfl), hrest h⟩
  · cases hb

/-- **Absolute names without braces and tildes**, exactly. -/
theorem accepted_iff_of_absolute {name : Text} (habs : name.head? = some '/')
    (hname : ∀ c ∈ name, isNameChar c = true) :
    Accepted name ↔ name.getLast? ≠ some '/' ∧ NoDigitAfterSlash name := by
  constructor
  · intro h
    exact ⟨h.getLast, h.chain⟩
  · rintro ⟨hlast, hchain⟩
    cases name with
    | nil => cases habs
    | cons first rest =>
      obtain rfl := Option.some.inj habs
      refine accepted_cons.mpr ⟨rfl, hlast, ⟨0, checkCharacters_of_nameChar hname 0 0⟩, ?_⟩
      exact checkTokens_of_chain hchain 0 (by decide)

end PMROS2.Topics
