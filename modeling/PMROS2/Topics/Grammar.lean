import PMROS2.Topics.Validator

/-!
# The grammar of topic names

What `validate_topic_name.h` documents, as a grammar, and what `rcl_validate_topic_name` makes of
it.  Two rules are missed: a substitution may be empty, and after a tilde the loop over pairs of
neighbours does not come to a character that is the last one.

* `TopicName`, `Violates`       the grammar, and its rules one by one;
* `Place`                       where the first pass stands in the name;
* `violates_of_error`           a code that is reported names a rule that is violated;
* `not_violates`                an accepted name violates none, but for the tilde;
* `topicName_of_accepted`       and it is in the grammar, but for `{}`;
* `documented_iff`              which names are treated as documented.
-/

namespace PMROS2.Topics
open PMROS2.Strings PMROS2.Template PMROS2.Simulation

/-! ## the grammar -/

/-- `[A-Za-z_][A-Za-z0-9_]*` -/
structure Identifier (k : Text) : Prop where
  ne_nil : k ≠ []
  words : ∀ c ∈ k, isWord c = true
  first : ∀ c ∈ k.head?, isDigit c = false

/-- segments between slashes, made of word characters and substitutions.  `fresh`: a segment is to
begin, and the name does not end here. -/
inductive Segments : Bool → Text → Prop
  | done : Segments false []
  | word {fresh : Bool} {c : Char} {s : Text} : isWord c = true →
      (fresh = true → isDigit c = false) → Segments false s → Segments fresh (c :: s)
  | substitution {fresh : Bool} {k s : Text} : Identifier k → Segments false s →
      Segments fresh (braced k ++ s)
  | slash {fresh : Bool} {s : Text} : Segments true s → Segments fresh ('/' :: s)

inductive TopicName : Text → Prop
  | tilde : TopicName ['~']
  | underTilde {s : Text} : Segments true s → TopicName ('~' :: '/' :: s)
  | segments {s : Text} : Segments true s → TopicName s

/-- the text `{}` -/
def emptyBraces : Text := ['{', '}']

/-- what stands in no name at all -/
def Unallowed (c : Char) : Prop := isNameChar c = false ∧ c ≠ '~' ∧ c ≠ '{' ∧ c ≠ '}'

/-- the rules that have a code -/
def Violates (name : Text) : TopicNameInvalid → Prop
  | .isEmptyString => name = []
  | .endsWithForwardSlash => name.getLast? = some '/'
  | .containsUnallowedCharacters => ∃ c ∈ name, Unallowed c
  | .nameTokenStartsWithNumber => ∃ d, isDigit d = true ∧ ([d] <+: name ∨ ['/', d] <:+: name)
  | .unmatchedCurlyBrace => ∃ a b, name = a ++ b ∧
      (a.count '{' < a.count '}' ∨ b.count '}' < b.count '{')
  | .misplacedTilde => '~' ∈ name.tail
  | .tildeNotFollowedByForwardSlash => ∃ c s, name = '~' :: c :: s ∧ c ≠ '/'
  | .substitutionContainsUnallowedCharacters => ∃ k c, '}' ∉ k ∧ isWord c = false ∧ c ≠ '}' ∧
      '{' :: (k ++ [c]) <:+: name
  | .substitutionStartsWithNumber => ∃ d, isDigit d = true ∧ ['{', d] <:+: name

/-- what the documentation says of one name -/
structure Documented (name : Text) : Prop where
  valid_iff : Accepted name ↔ TopicName name
  reported : ¬ TopicName name → name ≠ [] → ∃ code i,
    validateTopicName name = .error (code, i) ∧ Violates name code ∧ i < name.length
  /-- the assumptions of `rcl_expand_topic_name`; `balanced` excludes nesting -/
  expandable : Accepted name → balanced false name = true ∧ ¬ emptyBraces <:+: name

/-! ## what is reported -/

/-- the first pass after the characters `pre` -/
structure Place (pre : Text) (inBrace : Bool) (opening : Nat) : Prop where
  count : pre.count '{' = pre.count '}' + inBrace.toNat
  inside : inBrace = true → ∃ a k, pre = a ++ '{' :: k ∧ a.length = opening ∧
    ∀ c ∈ k, isWord c = true

theorem Place.nil (opening : Nat) : Place [] false opening := ⟨rfl, fun h => nomatch h⟩

theorem Place.lt {pre : Text} {opening : Nat} (h : Place pre true opening) :
    opening < pre.length := by
  obtain ⟨a, k, rfl, rfl, -⟩ := h.inside rfl
  rw [List.length_append, List.length_cons]
  omega

/-- a character that is no brace, and a word character when in braces -/
theorem Place.keep {pre : Text} {inBrace : Bool} {opening : Nat} (h : Place pre inBrace opening)
    {c : Char} (hopen : c ≠ '{') (hclose : c ≠ '}') (hw : inBrace = true → isWord c = true) :
    Place (pre ++ [c]) inBrace opening := by
  constructor
  · rw [List.count_append, List.count_append, List.count_singleton, List.count_singleton,
      if_neg (by simpa using hopen), if_neg (by simpa using hclose)]
    exact h.count
  · intro hb
    obtain ⟨a, k, rfl, ha, hk⟩ := h.inside hb
    refine ⟨a, k ++ [c], by simp, ha, ?_⟩
    intro d hd
    rcases List.mem_append.mp hd with hd | hd
    · exact hk d hd
    · rw [List.mem_singleton.mp hd]
      exact hw hb

theorem Place.open {pre : Text} {opening : Nat} (h : Place pre false opening) :
    Place (pre ++ ['{']) true pre.length := by
  constructor
  · have hc := h.count
    rw [List.count_append, List.count_append]
    show pre.count '{' + 1 = pre.count '}' + 0 + 1
    rw [hc]
    rfl
  · exact fun _ => ⟨pre, [], rfl, rfl, fun c hc => nomatch hc⟩

theorem Place.close {pre : Text} {opening : Nat} (h : Place pre true opening) :
    Place (pre ++ ['}']) false opening := by
  constructor
  · have hc := h.count
    rw [List.count_append, List.count_append]
    show pre.count '{' + 0 = pre.count '}' + 1 + 0
    rw [hc]
    rfl
  · exact fun hb => nomatch hb

theorem Place.unallowed {pre s : Text} {opening : Nat} (h : Place pre true opening) {c : Char}
    (hw : isWord c = false) (hclose : c ≠ '}') :
    Violates (pre ++ c :: s) .substitutionContainsUnallowedCharacters := by
  obtain ⟨a, k, rfl, -, hk⟩ := h.inside rfl
  refine ⟨k, c, ?_, hw, hclose, a, s, by simp⟩
  intro hbrace
  cases hk _ hbrace

theorem not_word {c : Char} (halnum : ¬ isAlnum c = true) (hunder : c ≠ '_') :
    isWord c = false := by
  rw [isWord, Bool.eq_false_iff.mpr halnum, decide_eq_false hunder]
  rfl

theorem Place.digit {pre s : Text} {opening i : Nat} (h : Place pre true opening) {c : Char}
    (hi : i = pre.length) (hpos : i > 0) (hd : isDigit c = true) (ho : i - 1 = opening) :
    Violates (pre ++ c :: s) .substitutionStartsWithNumber := by
  obtain ⟨a, k, rfl, ha, -⟩ := h.inside rfl
  have hk : k = [] := by
    rw [List.length_append, List.length_cons] at hi
    apply List.eq_nil_of_length_eq_zero
    omega
  subst hk
  exact ⟨c, hd, a, s, by simp⟩

/-- one character that the first pass does not let through, or the next place -/
theorem Place.step {pre s : Text} {inBrace : Bool} {opening : Nat} (h : Place pre inBrace opening)
    (c : Char) :
    (∃ code, checkCharacters pre.length inBrace opening (c :: s) = .error (code, pre.length) ∧
      code ≠ .tildeNotFollowedByForwardSlash ∧ Violates (pre ++ c :: s) code) ∨
    ∃ inBrace' opening', Place (pre ++ [c]) inBrace' opening' ∧
      checkCharacters pre.length inBrace opening (c :: s) =
        checkCharacters (pre ++ [c]).length inBrace' opening' s := by
  rw [checkCharacters, List.length_append, List.length_singleton]
  by_cases halnum : isAlnum c = true
  · have hw : isWord c = true := by rw [isWord, halnum]; rfl
    obtain ⟨hopen, hclose⟩ := not_brace_of_word hw
    rw [if_pos halnum]
    by_cases hdigit : isDigit c ∧ inBrace ∧ pre.length > 0 ∧ pre.length - 1 = opening
    · rw [if_pos hdigit]
      obtain ⟨hd, rfl, hpos, ho⟩ := hdigit
      exact .inl ⟨_, rfl, by decide, h.digit rfl hpos hd ho⟩
    · rw [if_neg hdigit]
      exact .inr ⟨inBrace, opening, h.keep hopen hclose fun _ => hw, rfl⟩
  rw [if_neg halnum]
  by_cases hunder : c = '_'
  · rw [if_pos hunder]
    subst hunder
    exact .inr ⟨inBrace, opening, h.keep (by decide) (by decide) fun _ => rfl, rfl⟩
  rw [if_neg hunder]
  have hw := not_word halnum hunder
  by_cases hslash : c = '/'
  · rw [if_pos hslash]
    subst hslash
    cases inBrace with
    | true => exact .inl ⟨_, rfl, by decide, h.unallowed hw (by decide)⟩
    | false => exact .inr ⟨false, opening, h.keep (by decide) (by decide) (by simp), rfl⟩
  rw [if_neg hslash]
  by_cases htilde : c = '~'
  · rw [if_pos htilde]
    subst htilde
    by_cases hi : pre.length ≠ 0
    · rw [if_pos hi]
      refine .inl ⟨_, rfl, by decide, ?_⟩
      show '~' ∈ (pre ++ '~' :: s).tail
      rw [List.tail_append_of_ne_nil (List.ne_nil_of_length_pos (by omega))]
      exact List.mem_append_right _ List.mem_cons_self
    · rw [if_neg hi]
      have hnil : pre = [] := List.eq_nil_of_length_eq_zero (not_not.mp hi)
      subst hnil
      cases inBrace with
      | true => exact absurd h.lt (Nat.not_lt_zero _)
      | false => exact .inr ⟨false, opening, h.keep (by decide) (by decide) (by simp), rfl⟩
  rw [if_neg htilde]
  by_cases hopen : c = '{'
  · rw [if_pos hopen]
    subst hopen
    cases inBrace with
    | true => exact .inl ⟨_, rfl, by decide, h.unallowed hw (by decide)⟩
    | false => exact .inr ⟨true, pre.length, h.open, rfl⟩
  rw [if_neg hopen]
  by_cases hclose : c = '}'
  · rw [if_pos hclose]
    subst hclose
    cases inBrace with
    | true => exact .inr ⟨false, opening, h.close, rfl⟩
    | false =>
      refine .inl ⟨_, rfl, by decide, pre ++ ['}'], s, by simp, .inl ?_⟩
      have hc := h.count
      rw [List.count_append, List.count_append]
      show pre.count '{' + 0 < pre.count '}' + 1
      rw [hc]
      exact Nat.lt_succ_self _
  rw [if_neg hclose]
  cases inBrace with
  | true => exact .inl ⟨_, rfl, by decide, h.unallowed hw hclose⟩
  | false =>
    refine .inl ⟨_, rfl, by decide, c, List.mem_append_right _ List.mem_cons_self, ?_, htilde,
      hopen, hclose⟩
    rw [isNameChar, hw, decide_eq_false hslash]
    rfl

/-- the whole pass -/
theorem Place.run {s : Text} : ∀ {pre : Text} {inBrace : Bool} {opening : Nat},
    Place pre inBrace opening →
    (∃ code i, checkCharacters pre.length inBrace opening s = .error (code, i) ∧
      code ≠ .tildeNotFollowedByForwardSlash ∧ Violates (pre ++ s) code ∧
      i < (pre ++ s).length) ∨
    ∃ inBrace' opening', Place (pre ++ s) inBrace' opening' ∧
      checkCharacters pre.length inBrace opening s = .ok (inBrace', opening') := by
  induction s with
  | nil =>
    intro pre inBrace opening h
    rw [List.append_nil]
    exact .inr ⟨inBrace, opening, h, rfl⟩
  | cons c s ih =>
    intro pre inBrace opening h
    rcases h.step (s := s) c with ⟨code, he, hne, hv⟩ | ⟨inBrace', opening', h', he⟩
    · refine .inl ⟨code, pre.length, he, hne, hv, ?_⟩
      rw [List.length_append, List.length_cons]
      omega
    · rw [he]
      have hs := ih h'
      rwa [List.append_assoc] at hs

/-- what the second pass reports after the characters `pre` -/
theorem violates_of_checkTokens {first : Char} {s : Text} : ∀ {pre : Text} {code : TopicNameInvalid}
    {i : Nat}, (pre ++ s).head? = some first → checkTokens first pre.length s = .error (code, i) →
    Violates (pre ++ s) code ∧ i < (pre ++ s).length ∧
      (code = .tildeNotFollowedByForwardSlash → 2 < (pre ++ s).length) := by
  induction s with
  | nil =>
    intro pre code i hfirst h
    cases h
  | cons c s ih =>
    intro pre code i hfirst h
    cases s with
    | nil => cases h
    | cons d s =>
      have hrest : checkTokens first (pre.length + 1) (d :: s) = .error (code, i) →
          Violates (pre ++ c :: d :: s) code ∧ i < (pre ++ c :: d :: s).length ∧
            (code = .tildeNotFollowedByForwardSlash → 2 < (pre ++ c :: d :: s).length) := by
        intro h
        have hpre := @ih (pre ++ [c]) code i
        rw [List.append_assoc, List.length_append, List.length_singleton] at hpre
        exact hpre hfirst h
      rw [checkTokens] at h
      by_cases hslash : c = '/'
      · rw [if_pos hslash] at h
        subst hslash
        split at h
        · rename_i hd
          cases h
          refine ⟨⟨d, hd, .inr ⟨pre, s, by simp⟩⟩, ?_, fun hcode => by cases hcode⟩
          rw [List.length_append, List.length_cons, List.length_cons]
          omega
        · exact hrest h
      · rw [if_neg hslash] at h
        split at h
        · rename_i htilde
          cases h
          obtain ⟨hi, rfl⟩ := htilde
          obtain ⟨e, rfl⟩ := List.length_eq_one_iff.mp hi
          obtain rfl := Option.some.inj hfirst
          exact ⟨⟨c, d :: s, rfl, hslash⟩, by simp, by simp⟩
        · exact hrest h

/-- what is reported is violated, at a place in the name -/
theorem violates_of_error {name : Text} {code : TopicNameInvalid} {i : Nat}
    (h : validateTopicName name = .error (code, i)) :
    Violates name code ∧ (name ≠ [] → i < name.length) ∧
      (code = .tildeNotFollowedByForwardSlash → 2 < name.length) := by
  cases name with
  | nil =>
    cases h
    exact ⟨rfl, fun hne => absurd rfl hne, fun hcode => by cases hcode⟩
  | cons first rest =>
    rw [validateTopicName] at h
    by_cases hd : isDigit first = true
    · rw [if_pos hd] at h
      cases h
      exact ⟨⟨first, hd, .inl ⟨rest, rfl⟩⟩, fun _ => Nat.succ_pos _, fun hcode => by cases hcode⟩
    rw [if_neg hd] at h
    by_cases hl : (first :: rest).getLast? = some '/'
    · rw [if_pos hl] at h
      cases h
      exact ⟨hl, fun _ => Nat.lt_succ_self _, fun hcode => by cases hcode⟩
    rw [if_neg hl] at h
    rcases (Place.nil 0).run (s := first :: rest) with
      ⟨code', i', he, hne, hv, hi⟩ | ⟨inBrace, opening, hp, he⟩
    · rw [List.length_nil, List.nil_append] at *
      rw [he] at h
      cases h
      exact ⟨hv, fun _ => hi, fun hcode => absurd hcode hne⟩
    · rw [List.length_nil, List.nil_append] at *
      rw [he] at h
      cases inBrace with
      | true =>
        cases h
        refine ⟨?_, fun _ => hp.lt, fun hcode => by cases hcode⟩
        refine ⟨[], first :: rest, rfl, .inr ?_⟩
        rw [hp.count]
        exact Nat.lt_succ_self _
      | false =>
        obtain ⟨hv, hi, hlen⟩ := @violates_of_checkTokens first (first :: rest) [] code i rfl h
        exact ⟨hv, fun _ => hi, hlen⟩

/-! ## accepted names -/

/-- in braces: word characters up to the closing one, the first of them no digit -/
theorem checkCharacters_inside {s : Text} : ∀ {i opening last : Nat},
    checkCharacters i true opening s = .ok (false, last) → 0 < i →
    ∃ k s', s = k ++ '}' :: s' ∧ (∀ c ∈ k, isWord c = true) ∧
      (i - 1 = opening → ∀ c ∈ k.head?, isDigit c = false) ∧
      checkCharacters (i + k.length + 1) false opening s' = .ok (false, last) := by
  induction s with
  | nil =>
    intro i opening last h hi
    cases h
  | cons c s ih =>
    intro i opening last h hi
    have hdigit : isDigit c = true → i - 1 ≠ opening := by
      intro hd ho
      have halnum : isAlnum c = true := by rw [isAlnum, hd]; rfl
      rw [checkCharacters, if_pos halnum, if_pos ⟨hd, rfl, hi, ho⟩] at h
      cases h
    rcases checkCharacters_cons h with ⟨hw, h⟩ | ⟨-, hb, -⟩ | ⟨-, hzero, -⟩ | ⟨-, hb, -⟩ |
      ⟨rfl, -, h⟩
    · obtain ⟨k, s', rfl, hk, -, hs'⟩ := ih h (Nat.succ_pos i)
      refine ⟨c :: k, s', rfl, List.forall_mem_cons.mpr ⟨hw, hk⟩, ?_, ?_⟩
      · intro ho d hd
        obtain rfl := Option.some.inj hd
        exact Bool.eq_false_iff.mpr fun hdig => hdigit hdig ho
      · rw [List.length_cons]
        rwa [show i + (k.length + 1) + 1 = i + 1 + k.length + 1 by omega]
    · cases hb
    · omega
    · cases hb
    · exact ⟨[], s, rfl, fun d hd => (by cases hd), fun _ d hd => (by cases hd), h⟩

theorem checkCharacters_append {a s : Text} : ∀ {i opening : Nat} {inBrace : Bool} {r : Bool × Nat},
    checkCharacters i inBrace opening (a ++ s) = .ok r → ∃ inBrace' opening',
      checkCharacters (i + a.length) inBrace' opening' s = .ok r := by
  induction a with
  | nil =>
    intro i opening inBrace r h
    exact ⟨inBrace, opening, h⟩
  | cons c a ih =>
    intro i opening inBrace r h
    rw [List.length_cons, show i + (a.length + 1) = i + 1 + a.length by omega]
    rcases checkCharacters_cons h with ⟨-, h⟩ | ⟨-, -, h⟩ | ⟨-, -, h⟩ | ⟨-, -, h⟩ | ⟨-, -, h⟩ <;>
      exact ih h

/-- **A substitution of an accepted name**: word characters, the first of them no digit. -/
theorem Accepted.substitution {a s : Text} (h : Accepted (a ++ '{' :: s)) :
    ∃ k s', s = k ++ '}' :: s' ∧ (∀ c ∈ k, isWord c = true) ∧
      ∀ c ∈ k.head?, isDigit c = false := by
  obtain ⟨first, rest, hname⟩ := List.exists_cons_of_ne_nil h.ne_nil
  rw [hname] at h
  obtain ⟨-, -, ⟨last, hc⟩, -⟩ := accepted_cons.mp h
  rw [← hname] at hc
  obtain ⟨inBrace, opening, hs⟩ := checkCharacters_append hc
  rcases checkCharacters_cons hs with ⟨hw, -⟩ | ⟨hbad, -, -⟩ | ⟨hbad, -, -⟩ | ⟨-, -, hs⟩ |
    ⟨hbad, -, -⟩
  · cases hw
  · cases hbad
  · cases hbad
  · obtain ⟨k, s', hk, hwords, hfirst, -⟩ := checkCharacters_inside hs (Nat.succ_pos _)
    exact ⟨k, s', hk, hwords, hfirst (Nat.add_sub_cancel _ 1)⟩
  · cases hbad

/-- the braces up to a place and in all -/
theorem count_of_balanced {s : Text} : ∀ {inside : Bool}, balanced inside s = true →
    (∀ a b, s = a ++ b → a.count '}' ≤ a.count '{' + inside.toNat) ∧
      s.count '{' + inside.toNat = s.count '}' := by
  induction s with
  | nil =>
    intro inside h
    cases inside with
    | true => cases h
    | false =>
      refine ⟨?_, rfl⟩
      intro a b hab
      obtain ⟨rfl, -⟩ := List.append_eq_nil_iff.mp hab.symm
      exact Nat.le_refl _
  | cons c s ih =>
    intro inside h
    rw [balanced] at h
    -- the counts of the rest, with what the character adds
    have hcons : ∀ inside', balanced inside' s = true →
        ([c].count '}' + inside'.toNat = [c].count '{' + inside.toNat) →
        (∀ a b, c :: s = a ++ b → a.count '}' ≤ a.count '{' + inside.toNat) ∧
          (c :: s).count '{' + inside.toNat = (c :: s).count '}' := by
      intro inside' hb hadd
      obtain ⟨hle, htotal⟩ := ih hb
      have hsplit : ∀ (d : Char) (t : Text), (c :: t).count d = [c].count d + t.count d :=
        fun d t => @List.count_append _ _ d [c] t
      constructor
      · intro a b hab
        cases a with
        | nil => exact Nat.zero_le _
        | cons e a =>
          obtain ⟨rfl, rfl⟩ := List.cons.inj hab
          have ha := hle a b rfl
          rw [hsplit '}' a, hsplit '{' a]
          omega
      · rw [hsplit '{' s, hsplit '}' s]
        omega
    by_cases hopen : c = '{'
    · subst hopen
      cases inside with
      | true => cases h
      | false => exact hcons true h rfl
    · rw [if_neg hopen] at h
      by_cases hclose : c = '}'
      · subst hclose
        cases inside with
        | true => exact hcons false h rfl
        | false => cases h
      · rw [if_neg hclose] at h
        refine hcons inside h ?_
        rw [List.count_singleton, List.count_singleton, if_neg (by simpa using hclose),
          if_neg (by simpa using hopen)]

theorem Accepted.not_unmatched {name : Text} (h : Accepted name) :
    ¬ Violates name .unmatchedCurlyBrace := by
  rintro ⟨a, b, hab, hcount⟩
  obtain ⟨hle, htotal⟩ := count_of_balanced h.balanced
  have ha := hle a b hab
  rw [hab, List.count_append, List.count_append] at htotal
  rw [Bool.toNat_false] at ha htotal
  omega

theorem Accepted.tilde {c d : Char} {s : Text} (h : Accepted ('~' :: c :: d :: s)) : c = '/' := by
  have ht := (accepted_cons.mp h).2.2.2
  by_contra hc
  rw [checkTokens, if_neg (by decide), if_neg (by simp), checkTokens, if_neg hc,
    if_pos ⟨rfl, rfl⟩] at ht
  cases ht

/-- **An accepted name violates no rule with a code**, but for a tilde with one character. -/
theorem Accepted.not_violates {name : Text} (h : Accepted name) {code : TopicNameInvalid}
    (hlen : code = .tildeNotFollowedByForwardSlash → 2 < name.length) : ¬ Violates name code := by
  intro hv
  cases code with
  | isEmptyString => exact h.ne_nil hv
  | endsWithForwardSlash => exact h.getLast hv
  | containsUnallowedCharacters =>
    obtain ⟨c, hc, hname, htilde, hopen, hclose⟩ := hv
    obtain ⟨first, rest, rfl⟩ := List.exists_cons_of_ne_nil h.ne_nil
    obtain ⟨hfirst, hrest⟩ := h.chars
    rcases List.mem_cons.mp hc with rfl | hc
    · rcases hfirst with hn | ho | ht
      · rw [hname] at hn
        cases hn
      · exact hopen ho
      · exact htilde ht
    · rcases hrest c hc with hn | ho | hcl
      · rw [hname] at hn
        cases hn
      · exact hopen ho
      · exact hclose hcl
  | nameTokenStartsWithNumber =>
    obtain ⟨d, hd, ⟨s, rfl⟩ | hinfix⟩ := hv
    · rw [h.not_digit d rfl] at hd
      cases hd
    · have hchain := List.IsChain.infix h.chain hinfix
      exact (List.isChain_cons_cons.mp hchain).1 ⟨rfl, hd⟩
  | unmatchedCurlyBrace => exact h.not_unmatched hv
  | misplacedTilde =>
    obtain ⟨first, rest, rfl⟩ := List.exists_cons_of_ne_nil h.ne_nil
    rcases h.chars.2 '~' hv with hn | ho | hcl
    · cases hn
    · cases ho
    · cases hcl
  | tildeNotFollowedByForwardSlash =>
    obtain ⟨c, s, rfl, hc⟩ := hv
    cases s with
    | nil => exact absurd (hlen rfl) (Nat.lt_irrefl 2)
    | cons d s => exact hc h.tilde
  | substitutionContainsUnallowedCharacters =>
    obtain ⟨k, c, hk, hw, hclose, a, b, rfl⟩ := hv
    rw [List.append_assoc, List.cons_append] at h
    obtain ⟨k', s', hs, hwords, -⟩ := h.substitution
    -- the text up to the first closing brace is `k'`
    have hmem : c ∈ k' := by
      rw [List.append_assoc] at hs
      rcases List.append_eq_append_iff.mp hs with ⟨m, rfl, hm⟩ | ⟨m, rfl, hm⟩
      · cases m with
        | nil => exact absurd (List.cons.inj hm).1 hclose
        | cons e m =>
          obtain ⟨rfl, -⟩ := List.cons.inj hm
          exact List.mem_append_right _ List.mem_cons_self
      · cases m with
        | nil => exact absurd (List.cons.inj hm).1.symm hclose
        | cons e m =>
          obtain ⟨rfl, -⟩ := List.cons.inj hm
          exact absurd (List.mem_append_right _ List.mem_cons_self) hk
    rw [hwords c hmem] at hw
    cases hw
  | substitutionStartsWithNumber =>
    obtain ⟨d, hd, a, b, rfl⟩ := hv
    rw [List.append_assoc, List.cons_append, List.cons_append] at h
    obtain ⟨k, s', hs, -, hfirst⟩ := h.substitution
    cases k with
    | nil =>
      obtain ⟨rfl, -⟩ := List.cons.inj hs
      cases hd
    | cons e k =>
      obtain ⟨rfl, -⟩ := List.cons.inj hs
      rw [hfirst d rfl] at hd
      cases hd

/-! ## the grammar and the validator -/

/-- both passes outside of braces, from a place in the name on, give segments -/
theorem segments_of_checks : ∀ (n : Nat) {s : Text}, s.length ≤ n → ∀ {i opening last : Nat}
    {fresh : Bool}, checkCharacters i false opening s = .ok (false, last) →
    (i = 0 → s.head? ≠ some '~') → NoDigitAfterSlash s → ¬ emptyBraces <:+: s →
    (fresh = true → s ≠ [] ∧ ∀ c ∈ s.head?, isDigit c = false) → s.getLast? ≠ some '/' →
    Segments fresh s := by
  intro n
  induction n with
  | zero =>
    intro s hlen i opening last fresh hc htilde hchain hempty hfresh hlast
    obtain rfl := List.eq_nil_of_length_eq_zero (Nat.le_zero.mp hlen)
    cases fresh with
    | true => exact absurd rfl (hfresh rfl).1
    | false => exact .done
  | succ n ih =>
    intro s hlen i opening last fresh hc htilde hchain hempty hfresh hlast
    cases s with
    | nil =>
      cases fresh with
      | true => exact absurd rfl (hfresh rfl).1
      | false => exact .done
    | cons c s =>
      have hlen' : s.length ≤ n := Nat.le_of_succ_le_succ hlen
      -- what holds of the name holds further on
      have hrest : ∀ a t : Text, c :: s = a ++ t → NoDigitAfterSlash t ∧ ¬ emptyBraces <:+: t ∧
          t.getLast? ≠ some '/' := by
        intro a t hat
        have hsuffix : t <:+ c :: s := ⟨a, hat.symm⟩
        refine ⟨ List.IsChain.infix hchain hsuffix.isInfix,
          fun hbad => hempty (hbad.trans hsuffix.isInfix), ?_⟩
        intro hbad
        apply hlast
        rw [hat, List.getLast?_append, hbad]
        rfl
      obtain ⟨hchain', hempty', hlast'⟩ := hrest [c] s rfl
      rcases checkCharacters_cons hc with ⟨hw, hs⟩ | ⟨rfl, -, hs⟩ | ⟨rfl, hi, -⟩ | ⟨rfl, -, hs⟩ |
        ⟨-, hb, -⟩
      · refine .word hw (fun hf => (hfresh hf).2 c rfl) ?_
        exact ih hlen' hs (fun hi => absurd hi (Nat.succ_ne_zero i)) hchain' hempty' (by simp) hlast'
      · refine .slash (ih hlen' hs (fun hi => absurd hi (Nat.succ_ne_zero i)) hchain' hempty' ?_
          hlast')
        refine fun _ => ⟨?_, ?_⟩
        · rintro rfl
          exact hlast rfl
        · intro d hd
          cases s with
          | nil => cases hd
          | cons e s =>
            obtain rfl := Option.some.inj hd
            have := (List.isChain_cons_cons.mp hchain).1
            exact Bool.eq_false_iff.mpr fun hdig => this ⟨rfl, hdig⟩
      · exact absurd rfl (htilde hi)
      · obtain ⟨k, s', rfl, hk, hfirst, hs'⟩ := checkCharacters_inside hs (Nat.succ_pos i)
        have hne : k ≠ [] := by
          rintro rfl
          exact hempty ⟨[], s', rfl⟩
        obtain ⟨hchain', hempty', hlast'⟩ := hrest (braced k) s' (by simp [braced])
        have hbraced : '{' :: (k ++ '}' :: s') = braced k ++ s' := by simp [braced]
        rw [hbraced]
        refine .substitution ⟨hne, hk, hfirst (Nat.add_sub_cancel i 1)⟩ ?_
        refine ih ?_ hs' (fun hi => absurd hi (Nat.succ_ne_zero _)) hchain' hempty' (by simp) hlast'
        rw [List.length_append, List.length_cons] at hlen'
        omega
      · cases hb

theorem Segments.of_slash {fresh : Bool} {s t : Text} (h : Segments fresh t) (ht : t = '/' :: s) :
    Segments true s := by
  cases h with
  | done => cases ht
  | word hw =>
    obtain ⟨rfl, -⟩ := List.cons.inj ht
    cases hw
  | substitution => cases ht
  | slash h =>
    obtain ⟨-, rfl⟩ := List.cons.inj ht
    exact h

/-- an accepted name is one of the grammar, unless a rule without a check is violated -/
theorem topicName_of_accepted {name : Text} (h : Accepted name) (hempty : ¬ emptyBraces <:+: name)
    (htilde : ¬ ∃ c, c ≠ '/' ∧ name = ['~', c]) : TopicName name := by
  obtain ⟨first, rest, rfl⟩ := List.exists_cons_of_ne_nil h.ne_nil
  obtain ⟨-, -, ⟨last, hc⟩, -⟩ := accepted_cons.mp h
  by_cases hfirst : first = '~'
  · subst hfirst
    cases rest with
    | nil => exact .tilde
    | cons c s =>
      have hslash : c = '/' := by
        cases s with
        | nil =>
          by_contra hne
          exact htilde ⟨c, hne, rfl⟩
        | cons d s => exact h.tilde
      subst hslash
      have hsuffix : '/' :: s <:+ '~' :: '/' :: s := ⟨['~'], rfl⟩
      have hs : checkCharacters 1 false 0 ('/' :: s) = .ok (false, last) := hc
      have hsegments : Segments false ('/' :: s) :=
        segments_of_checks _ (Nat.le_refl _) hs (by simp)
          ( List.IsChain.infix h.chain hsuffix.isInfix)
          (fun hbad => hempty (hbad.trans hsuffix.isInfix)) (by simp) (by simpa using h.getLast)
      exact .underTilde (hsegments.of_slash rfl)
  · refine .segments (segments_of_checks _ (Nat.le_refl _) hc ?_ h.chain hempty ?_ h.getLast)
    · intro _ hbad
      exact hfirst (Option.some.inj hbad)
    · exact fun _ => ⟨List.cons_ne_nil _ _, h.not_digit⟩

theorem alnum_or_underscore {c : Char} (hw : isWord c = true) : isAlnum c = true ∨ c = '_' := by
  rw [isWord, Bool.or_eq_true, decide_eq_true_eq] at hw
  exact hw

/-- word characters pass in braces -/
theorem checkCharacters_identifier {k s : Text} (hk : ∀ c ∈ k, isWord c = true) :
    ∀ {i opening : Nat}, (i - 1 = opening → ∀ c ∈ k.head?, isDigit c = false) → opening < i →
      checkCharacters i true opening (k ++ '}' :: s) =
        checkCharacters (i + k.length + 1) false opening s := by
  induction k with
  | nil =>
    intro i opening hfirst hi
    rfl
  | cons c k ih =>
    intro i opening hfirst hi
    have hnext := @ih (fun d hd => hk d (List.mem_cons_of_mem c hd)) (i + 1) opening
      (fun ho => absurd ho (by omega)) (by omega)
    rw [List.length_cons, show i + (k.length + 1) + 1 = i + 1 + k.length + 1 by omega, ← hnext,
      List.cons_append, checkCharacters]
    rcases alnum_or_underscore (hk c List.mem_cons_self) with halnum | rfl
    · rw [if_pos halnum, if_neg]
      rintro ⟨hd, -, -, ho⟩
      rw [hfirst ho c rfl] at hd
      cases hd
    · rfl

theorem Segments.characters {fresh : Bool} {s : Text} (h : Segments fresh s) :
    ∀ i opening : Nat, ∃ last, checkCharacters i false opening s = .ok (false, last) := by
  induction h with
  | done =>
    intro i opening
    exact ⟨opening, rfl⟩
  | word hw hd h ih =>
    intro i opening
    obtain ⟨last, hlast⟩ := ih (i + 1) opening
    refine ⟨last, ?_⟩
    rw [checkCharacters]
    rcases alnum_or_underscore hw with halnum | rfl
    · rw [if_pos halnum, if_neg fun hbad => Bool.false_ne_true hbad.2.1]
      exact hlast
    · exact hlast
  | @substitution fresh k s hk h ih =>
    intro i opening
    obtain ⟨last, hlast⟩ := ih (i + 1 + k.length + 1) i
    refine ⟨last, ?_⟩
    have hinside := checkCharacters_identifier (s := s) hk.words (i := i + 1)
      (fun _ => hk.first) (Nat.lt_succ_self i)
    rw [braced, List.cons_append, List.append_assoc]
    exact hinside.trans hlast
  | slash h ih =>
    intro i opening
    exact ih (i + 1) opening

theorem Segments.fresh {s : Text} (h : Segments true s) :
    s ≠ [] ∧ ∀ c ∈ s.head?, isDigit c = false := by
  cases h with
  | word hw hd =>
    refine ⟨List.cons_ne_nil _ _, ?_⟩
    intro c hc
    obtain rfl := Option.some.inj hc
    exact hd rfl
  | substitution =>
    refine ⟨List.cons_ne_nil _ _, ?_⟩
    intro c hc
    obtain rfl := Option.some.inj hc
    rfl
  | slash =>
    refine ⟨List.cons_ne_nil _ _, ?_⟩
    intro c hc
    obtain rfl := Option.some.inj hc
    rfl

theorem slash_notMem_braced {k : Text} (hk : ∀ c ∈ k, isWord c = true) : '/' ∉ braced k := by
  intro hc
  rcases List.mem_cons.mp hc with hc | hc
  · cases hc
  rcases List.mem_append.mp hc with hc | hc
  · cases hk _ hc
  · cases List.mem_singleton.mp hc

theorem NoDigitAfterSlash.append {a s : Text} (ha : '/' ∉ a) (hs : NoDigitAfterSlash s) :
    NoDigitAfterSlash (a ++ s) := by
  induction a with
  | nil => exact hs
  | cons c a ih =>
    obtain ⟨hc, ha⟩ := not_or.mp fun hbad => ha (List.mem_cons.mpr hbad)
    refine List.isChain_cons.mpr ⟨?_, ih ha⟩
    intro d _ hbad
    exact hc hbad.1.symm

theorem word_ne_slash {c : Char} (hw : isWord c = true) : '/' ∉ [c] := by
  intro hc
  rw [← List.mem_singleton.mp hc] at hw
  cases hw

theorem Segments.chain {fresh : Bool} {s : Text} (h : Segments fresh s) : NoDigitAfterSlash s := by
  induction h with
  | done => exact List.isChain_nil
  | word hw hd h ih => exact NoDigitAfterSlash.append (word_ne_slash hw) ih
  | substitution hk h ih => exact NoDigitAfterSlash.append (slash_notMem_braced hk.words) ih
  | slash h ih =>
    refine List.isChain_cons.mpr ⟨?_, ih⟩
    intro d hd hbad
    rw [h.fresh.2 d hd] at hbad
    cases hbad.2

theorem getLast_append_ne {a s : Text} (ha : '/' ∉ a) (hs : s.getLast? ≠ some '/') :
    (a ++ s).getLast? ≠ some '/' := by
  rw [List.getLast?_append]
  cases h : s.getLast? with
  | none => exact fun hbad => ha (List.mem_of_getLast? hbad)
  | some c =>
    rw [h] at hs
    exact hs

theorem Segments.getLast {fresh : Bool} {s : Text} (h : Segments fresh s) :
    s.getLast? ≠ some '/' := by
  induction h with
  | done => exact fun hbad => nomatch hbad
  | word hw hd h ih => exact getLast_append_ne (word_ne_slash hw) ih
  | substitution hk h ih => exact getLast_append_ne (slash_notMem_braced hk.words) ih
  | @slash fresh s h ih =>
    cases s with
    | nil => exact absurd rfl h.fresh.1
    | cons c s => exact ih

/-- `{}` does not begin before the last character of a text without opening braces -/
theorem emptyBraces_append {a s : Text} (ha : '{' ∉ a) (h : emptyBraces <:+: a ++ s) :
    emptyBraces <:+: s := by
  induction a with
  | nil => exact h
  | cons c a ih =>
    obtain ⟨hc, ha⟩ := not_or.mp fun hbad => ha (List.mem_cons.mpr hbad)
    rcases List.infix_cons_iff.mp h with ⟨t, ht⟩ | h
    · exact absurd (List.cons.inj ht).1 hc
    · exact ih ha h

theorem brace_notMem_words {k : Text} (hk : ∀ c ∈ k, isWord c = true) : '{' ∉ k := by
  intro hc
  cases hk _ hc

theorem Segments.no_emptyBraces {fresh : Bool} {s : Text} (h : Segments fresh s) :
    ¬ emptyBraces <:+: s := by
  induction h with
  | done => decide
  | @word fresh c s hw hd h ih =>
    intro hbad
    refine ih (emptyBraces_append (a := [c]) ?_ hbad)
    intro hc
    exact (not_brace_of_word hw).1 (List.mem_singleton.mp hc).symm
  | @substitution fresh k s hk h ih =>
    intro hbad
    rcases List.infix_cons_iff.mp hbad with ⟨t, ht⟩ | hbad
    · cases k with
      | nil => exact hk.ne_nil rfl
      | cons c k =>
        have hw := hk.words c List.mem_cons_self
        rw [← (List.cons.inj (List.cons.inj ht).2).1] at hw
        cases hw
    · refine ih (emptyBraces_append ?_ hbad)
      intro hc
      rcases List.mem_append.mp hc with hc | hc
      · exact brace_notMem_words hk.words hc
      · cases List.mem_singleton.mp hc
  | @slash fresh s h ih => exact fun hbad => ih (emptyBraces_append (a := ['/']) (by decide) hbad)

theorem Segments.not_tilde {s : Text} (h : Segments true s) : s.head? ≠ some '~' := by
  intro hbad
  cases h with
  | word hw hd =>
    obtain rfl := Option.some.inj hbad
    cases hw
  | substitution => cases hbad
  | slash => cases hbad

/-- **A name of the grammar is accepted.** -/
theorem accepted_of_topicName {name : Text} (h : TopicName name) : Accepted name := by
  cases h with
  | tilde => rfl
  | @underTilde s h =>
    have hs : Segments false ('/' :: s) := .slash h
    refine accepted_cons.mpr ⟨rfl, getLast_append_ne (a := ['~']) (by decide) hs.getLast, ?_, ?_⟩
    · exact hs.characters 1 0
    · obtain ⟨c, t, rfl⟩ := List.exists_cons_of_ne_nil h.fresh.1
      show (if isDigit c = true then _ else checkTokens '~' 2 (c :: t)) = _
      rw [if_neg (Bool.eq_false_iff.mp (h.fresh.2 c rfl))]
      exact checkTokens_of_chain h.chain 2 fun _ => Nat.lt_succ_self 1
  | segments h =>
    obtain ⟨first, rest, rfl⟩ := List.exists_cons_of_ne_nil h.fresh.1
    refine accepted_cons.mpr ⟨h.fresh.2 first rfl, h.getLast, h.characters 0 0, ?_⟩
    refine checkTokens_of_chain h.chain 0 ?_
    rintro rfl
    exact absurd rfl h.not_tilde

theorem TopicName.unchecked {name : Text} (h : TopicName name) :
    ¬ emptyBraces <:+: name ∧ ¬ ∃ c, c ≠ '/' ∧ name = ['~', c] := by
  cases h with
  | tilde => exact ⟨by decide, fun ⟨c, _, hc⟩ => nomatch hc⟩
  | @underTilde s h =>
    constructor
    · intro hbad
      exact h.no_emptyBraces (emptyBraces_append (a := ['~', '/']) (by decide) hbad)
    · rintro ⟨c, hc, hname⟩
      exact hc (List.cons.inj (List.cons.inj hname).2).1.symm
  | segments h =>
    refine ⟨h.no_emptyBraces, ?_⟩
    rintro ⟨c, -, rfl⟩
    exact h.not_tilde rfl

/-- **The validator follows the documentation exactly for these names**: where a substitution is
empty or a tilde has one character behind it, another rule is violated too. -/
theorem documented_iff (name : Text) :
    Documented name ↔
      (emptyBraces <:+: name ∨ (∃ c, c ≠ '/' ∧ name = ['~', c]) →
        ∃ code, Violates name code ∧
          (code = .tildeNotFollowedByForwardSlash → 2 < name.length)) := by
  constructor
  · intro h hslip
    by_contra hnone
    -- no rule to report: the name is accepted
    have hacc : Accepted name := by
      cases hv : validateTopicName name with
      | ok u => exact hv
      | error e =>
        obtain ⟨hviolates, -, hlen⟩ := violates_of_error hv
        exact absurd ⟨e.1, hviolates, hlen⟩ hnone
    obtain ⟨hempty, htilde⟩ := (h.valid_iff.mp hacc).unchecked
    exact hslip.elim hempty htilde
  · intro h
    have hunchecked : Accepted name →
        ¬ emptyBraces <:+: name ∧ ¬ ∃ c, c ≠ '/' ∧ name = ['~', c] := by
      intro hacc
      rw [← not_or]
      intro hslip
      obtain ⟨code, hv, hlen⟩ := h hslip
      exact hacc.not_violates hlen hv
    have hvalid : Accepted name → TopicName name := fun hacc =>
      topicName_of_accepted hacc (hunchecked hacc).1 (hunchecked hacc).2
    refine ⟨⟨hvalid, accepted_of_topicName⟩, ?_, fun hacc => ⟨hacc.balanced, (hunchecked hacc).1⟩⟩
    intro hname hne
    cases hv : validateTopicName name with
    | ok u => exact absurd (hvalid hv) hname
    | error e =>
      obtain ⟨hviolates, hi, -⟩ := violates_of_error hv
      exact ⟨e.1, e.2, rfl, hviolates, hi hne⟩

/-- `foo/{}` is accepted -/
theorem not_documented : ¬ ∀ name : Text, Documented name := by
  intro h
  have hacc : Accepted "foo/{}".toList := by decide
  exact ((h "foo/{}".toList).expandable hacc).2 ⟨"foo/".toList, [], rfl⟩

example : Accepted "~c".toList ∧ ¬ Accepted "~cd".toList := by decide

end PMROS2.Topics
