import PMROS2.Remap.Automaton

/-!
# The lexemes of a remap rule

`lexemeOf` says which lexeme a text begins with, without the table: the end of the text, the first
keyword of `keywords` that is a prefix of it, the longest prefix that is a token, or nothing.
`analyze_lexeme` compares `rcl_lexer_analyze` with it.

* A text that begins with two underscores is a keyword or nothing, although its first underscore
  alone is a token.
* A text that ends inside one of the keywords that no token begins (`cutShort`) makes the lexer
  count the terminating NUL as well.
-/

namespace PMROS2.Remap

/-! ## the grammar -/

/-- the keywords and separators; one that is a prefix of another comes after it -/
def keywords : List (List Char × Lexeme) := [
  ("~/".toList, .tildeSlash), ("rosservice://".toList, .urlService),
  ("rostopic://".toList, .urlTopic), (":=".toList, .separator), (":".toList, .colon),
  ("__node".toList, .node), ("__ns".toList, .ns), ("\\1".toList, .br1), ("\\2".toList, .br2),
  ("\\3".toList, .br3), ("\\4".toList, .br4), ("\\5".toList, .br5), ("\\6".toList, .br6),
  ("\\7".toList, .br7), ("\\8".toList, .br8), ("\\9".toList, .br9), ("/".toList, .forwardSlash),
  ("**".toList, .wildMulti), ("*".toList, .wildOne)]

def keywordOf (text : List Char) : Option (List Char × Lexeme) :=
  keywords.find? (fun p => p.1.isPrefixOf text)

/-- `[A-Za-z_][A-Za-z0-9_]*` without a double underscore -/
def IsToken (t : List Char) : Prop :=
  t.head?.any (fun c => isLetter c || c == '_') = true ∧
    t.all (fun c => isAlnum c || c == '_') = true ∧ ¬ ['_', '_'] <:+: t

instance (t : List Char) : Decidable (IsToken t) := inferInstanceAs (Decidable (_ ∧ _ ∧ _))

/-- the length of the longest token at the beginning of a text, 0 if there is none -/
def longestToken (text : List Char) : Nat :=
  Nat.findGreatest (fun n => IsToken (text.take n)) text.length

/-- the length of the longest beginning of a keyword at the beginning of a text -/
def longestStart (text : List Char) : Nat :=
  Nat.findGreatest (fun n => ∃ p ∈ keywords, text.take n <+: p.1) text.length

/-- the lexeme a text begins with, and its length; the length of `none` includes the character
that made a keyword impossible -/
def lexemeOf (text : List Char) : Lexeme × Nat :=
  if text = [] then (.eof, 0)
  else match keywordOf text with
    | some p => (p.2, p.1.length)
    | none =>
      if 0 < longestToken text ∧ ¬ ['_', '_'] <+: text then (.token, longestToken text)
      else (.none, min (longestStart text + 1) text.length)

/-- the texts that end inside a keyword which no token begins -/
def cutShort : List (List Char) :=
  ["\\".toList, "~".toList, "__".toList, "__n".toList, "__no".toList, "__nod".toList]

/-! ## tokens -/

theorem scanToken_take (u : Bool) (cs : List Char) (m : Nat) :
    scanToken u (cs.take m) = min m (scanToken u cs) := by
  induction cs generalizing u m with
  | nil => simp [scanToken]
  | cons c cs ih =>
    cases m with
    | zero => simp [scanToken]
    | succ m =>
      rw [List.take_succ_cons]
      unfold scanToken
      split
      · rw [ih false m, Nat.add_min_add_right]
      split
      · rw [ih true m, Nat.add_min_add_right]
      · simp

/-- what the states `S8` and `S9` read to its end is the rest of a token -/
theorem scanToken_eq_length_iff (u : Bool) (t : List Char) :
    scanToken u t = t.length ↔ (∀ c ∈ t, isAlnum c = true ∨ c = '_') ∧
      ¬ ['_', '_'] <:+: (if u then '_' :: t else t) := by
  induction t generalizing u with
  | nil => cases u <;> simp [scanToken, List.infix_cons_iff]
  | cons c cs ih =>
    have hu : (['_', '_'] <:+: (if u then '_' :: c :: cs else c :: cs)) ↔
        (u = true ∧ c = '_') ∨ ['_', '_'] <:+: c :: cs := by
      cases u
      · simp
      · simp [List.infix_cons_iff, eq_comm]
    unfold scanToken
    rw [hu]
    by_cases hc : isAlnum c = true
    · have hne : c ≠ '_' := by
        rintro rfl
        exact absurd hc (by decide)
      have hi : ['_', '_'] <:+: c :: cs ↔ ['_', '_'] <:+: cs := by
        simp [List.infix_cons_iff, hne.symm]
      rw [if_pos hc, List.length_cons, Nat.add_right_cancel_iff, ih false, hi]
      simp [hc, hne]
    rw [if_neg hc]
    by_cases hcu : c = '_' ∧ u = false
    · obtain ⟨rfl, rfl⟩ := hcu
      have := ih true
      rw [if_pos ⟨rfl, rfl⟩, List.length_cons, Nat.add_right_cancel_iff, this]
      simp
    · rw [if_neg hcu]
      refine ⟨fun h => by simp at h, fun h => absurd ?_ hcu⟩
      have hc' := (h.1 c List.mem_cons_self).resolve_left hc
      refine ⟨hc', Bool.eq_false_iff.2 fun hu' => h.2 (.inl ⟨hu', hc'⟩)⟩

/-- a token is a letter or an underscore and what the lexer reads after it -/
theorem isToken_cons_iff (c : Char) (t : List Char) :
    IsToken (c :: t) ↔
      (isLetter c = true ∨ c = '_') ∧ scanToken (c == '_') t = t.length := by
  have hhead : (c :: t).head?.any (fun c => isLetter c || c == '_') = true ↔
      isLetter c = true ∨ c = '_' := by simp
  have hall : (c :: t).all (fun c => isAlnum c || c == '_') = true ↔
      ∀ d ∈ c :: t, isAlnum d = true ∨ d = '_' := by simp
  unfold IsToken
  rw [hhead, hall, scanToken_eq_length_iff]
  refine and_congr_right fun hc => ?_
  have hin : isAlnum c = true ∨ c = '_' := hc.imp_left fun h => by simp [isAlnum, h]
  rw [List.forall_mem_cons]
  by_cases hu : c = '_'
  · subst hu
    simp
  · have hi : ['_', '_'] <:+: c :: t ↔ ['_', '_'] <:+: t := by
      simp [List.infix_cons_iff, Ne.symm hu]
    simp [hi, hu, hin.resolve_right hu]

theorem longestToken_cons {c : Char} (cs : List Char) (hc : isLetter c = true ∨ c = '_') :
    longestToken (c :: cs) = scanToken (c == '_') cs + 1 := by
  have hle := scanToken_le (c == '_') cs
  unfold longestToken
  rw [Nat.findGreatest_eq_iff]
  refine ⟨by simpa using hle, fun _ => ?_, fun n hn hn' => ?_⟩
  · rw [List.take_succ_cons, isToken_cons_iff]
    refine ⟨hc, ?_⟩
    rw [scanToken_take, List.length_take]
    omega
  · obtain ⟨m, rfl⟩ : ∃ m, n = m + 1 := ⟨n - 1, by omega⟩
    rw [List.length_cons] at hn'
    rw [List.take_succ_cons, isToken_cons_iff, scanToken_take, List.length_take]
    rintro ⟨_, h⟩
    omega

theorem longestToken_eq_zero {c : Char} (cs : List Char) (hc : ¬ (isLetter c = true ∨ c = '_')) :
    longestToken (c :: cs) = 0 := by
  unfold longestToken
  rw [Nat.findGreatest_eq_zero_iff]
  intro n hn _ h
  obtain ⟨m, rfl⟩ : ∃ m, n = m + 1 := ⟨n - 1, by omega⟩
  rw [List.take_succ_cons, isToken_cons_iff] at h
  exact hc h.1

/-! ## the lexeme of a text -/

theorem keywords_eq : keywords = [
    (['~', '/'], .tildeSlash),
    (['r', 'o', 's', 's', 'e', 'r', 'v', 'i', 'c', 'e', ':', '/', '/'], .urlService),
    (['r', 'o', 's', 't', 'o', 'p', 'i', 'c', ':', '/', '/'], .urlTopic),
    ([':', '='], .separator), ([':'], .colon),
    (['_', '_', 'n', 'o', 'd', 'e'], .node), (['_', '_', 'n', 's'], .ns),
    (['\\', '1'], .br1), (['\\', '2'], .br2), (['\\', '3'], .br3), (['\\', '4'], .br4),
    (['\\', '5'], .br5), (['\\', '6'], .br6), (['\\', '7'], .br7), (['\\', '8'], .br8),
    (['\\', '9'], .br9), (['/'], .forwardSlash), (['*', '*'], .wildMulti), (['*'], .wildOne)] := by
  decide

section
variable {text : List Char} {c : Char} {cs : List Char}

theorem longestStart_eq {v : Nat} (hv : v ≤ text.length)
    (hp : ∃ p ∈ keywords, text.take v <+: p.1)
    (hnot : v = text.length ∨ ¬ ∃ p ∈ keywords, text.take (v + 1) <+: p.1) :
    longestStart text = v := by
  unfold longestStart
  rw [Nat.findGreatest_eq_iff]
  refine ⟨hv, fun _ => hp, fun n hn hn' => ?_⟩
  have hnot' := hnot.resolve_left (by omega)
  rintro ⟨p, hp, hpre⟩
  exact hnot' ⟨p, hp, (List.take_prefix_take_left hn).trans hpre⟩

theorem lexemeOf_keyword {w : List Char} {x : Lexeme} (h : keywordOf (c :: cs) = some (w, x)) :
    lexemeOf (c :: cs) = (x, w.length) := by
  unfold lexemeOf
  rw [if_neg (List.cons_ne_nil c cs), h]

theorem lexemeOf_token (h : keywordOf (c :: cs) = none) (hc : isLetter c = true ∨ c = '_')
    (hu : ¬ ['_', '_'] <+: c :: cs) :
    lexemeOf (c :: cs) = (.token, scanToken (c == '_') cs + 1) := by
  unfold lexemeOf
  rw [if_neg (List.cons_ne_nil c cs), h, longestToken_cons cs hc]
  exact if_pos ⟨Nat.succ_pos _, hu⟩

theorem lexemeOf_none {v : Nat} (h : keywordOf (c :: cs) = none)
    (ht : ¬ (isLetter c = true ∨ c = '_') ∨ ['_', '_'] <+: c :: cs)
    (hv : v ≤ (c :: cs).length) (hp : ∃ p ∈ keywords, (c :: cs).take v <+: p.1)
    (hnot : v = (c :: cs).length ∨ ¬ ∃ p ∈ keywords, (c :: cs).take (v + 1) <+: p.1) :
    lexemeOf (c :: cs) = (.none, min (v + 1) (c :: cs).length) := by
  have hn : ¬ (0 < longestToken (c :: cs) ∧ ¬ ['_', '_'] <+: c :: cs) := by
    rintro ⟨hpos, hpre⟩
    rw [longestToken_eq_zero cs (ht.resolve_right hpre)] at hpos
    exact Nat.lt_irrefl 0 hpos
  unfold lexemeOf
  rw [if_neg (List.cons_ne_nil c cs), h]
  simp only [if_neg hn]
  rw [longestStart_eq hv hp hnot]

end

/-! ## the lexer finds it -/

/-- the lexeme of the grammar, and the length with the NUL for the texts `cutShort` -/
def lexed (text : List Char) : Lexeme × Nat :=
  if text ∈ cutShort then (.none, text.length + 1) else lexemeOf text

theorem cutShort_eq : cutShort = [['\\'], ['~'], ['_', '_'], ['_', '_', 'n'],
    ['_', '_', 'n', 'o'], ['_', '_', 'n', 'o', 'd']] := by
  decide

section
variable {c : Char} {cs : List Char}

theorem lexed_keyword {w : List Char} {x : Lexeme} (h : keywordOf (c :: cs) = some (w, x))
    (hcut : c :: cs ∉ cutShort) : lexed (c :: cs) = (x, w.length) :=
  (if_neg hcut).trans (lexemeOf_keyword h)

theorem lexed_none {v : Nat} (h : keywordOf (c :: cs) = none)
    (ht : ¬ (isLetter c = true ∨ c = '_') ∨ ['_', '_'] <+: c :: cs)
    (hcut : c :: cs ∉ cutShort) (hv : v < (c :: cs).length)
    (hp : ∃ p ∈ keywords, (c :: cs).take v <+: p.1)
    (hnot : ¬ ∃ p ∈ keywords, (c :: cs).take (v + 1) <+: p.1) :
    lexed (c :: cs) = (.none, v + 1) := by
  unfold lexed
  rw [if_neg hcut, lexemeOf_none h ht hv.le hp (.inr hnot), Nat.min_eq_left hv]

theorem lexed_token (h : keywordOf (c :: cs) = none) (hc : isLetter c = true ∨ c = '_')
    (hu : ¬ ['_', '_'] <+: c :: cs) (hcut : c :: cs ∉ cutShort) :
    lexed (c :: cs) = (.token, scanToken (c == '_') cs + 1) :=
  (if_neg hcut).trans (lexemeOf_token h hc hu)

end

theorem analyze_forwardSlash (cs : List Char) : analyze ('/' :: cs) = .ok (lexed ('/' :: cs)) := by
  have hl : lexed ('/' :: cs) = (.forwardSlash, 1) :=
    lexed_keyword (w := ['/']) (by simp [keywordOf, keywords_eq]) (by simp [cutShort_eq])
  rw [hl, analyze_cons]
  exact reads_terminal (k := tForwardSlash) gStates_s0 rfl (by decide) fun _ => rfl

theorem analyze_tilde (cs : List Char) : analyze ('~' :: cs) = .ok (lexed ('~' :: cs)) := by
  cases cs with
  | nil => rfl
  | cons d cs =>
    rw [analyze_cons, reads_next (k := s2) gStates_s0 rfl (by decide)]
    have hn := nextState_single tNone 0 tTildeSlash '/' d (by decide)
    by_cases hd : d = '/'
    · subst hd
      have hl : lexed ('~' :: '/' :: cs) = (.tildeSlash, 2) :=
        lexed_keyword (w := ['~', '/']) (by simp [keywordOf, keywords_eq]) (by simp [cutShort_eq])
      rw [hl]
      exact reads_terminal rfl hn (by decide) fun _ => rfl
    · have hl : lexed ('~' :: d :: cs) = (.none, 2) :=
        lexed_none (by simp [keywordOf, keywords_eq, Ne.symm hd]) (.inl (by decide))
          (by simp [cutShort_eq]) (v := 1) (by simp) (by simp [keywords_eq])
          (by simp [keywords_eq, hd])
      rw [hl]
      exact reads_none rfl (hn.trans (if_neg hd))

/-- `S29` and `S30`: a keyword of one character that the next one may make longer -/
theorem analyze_longer {c d : Char} {s k j : Nat} {x y : Lexeme} (cs : List Char)
    (h0 : nextState stateS0 c = (s, 0)) (hs : s < firstTerminal)
    (hst : gStates[s]? = some ⟨j, 1, [⟨k, d, d⟩, endTransitions]⟩)
    (hk : firstTerminal ≤ k) (hj : firstTerminal ≤ j) (hx : ∀ n, terminal k n = .ok (x, n))
    (hy : ∀ n, terminal j n = .ok (y, n)) (hd : d ≠ '\x00')
    (hlong : ∀ r, lexed (c :: d :: r) = (x, 2))
    (hshort : ∀ r, (∀ r', r ≠ d :: r') → lexed (c :: r) = (y, 1)) :
    analyze (c :: cs) = .ok (lexed (c :: cs)) := by
  rw [analyze_cons, reads_next gStates_s0 h0 hs]
  have hn := fun e => nextState_single j 1 k d e (by omega : 0 < k).ne'
  obtain ⟨r, rfl⟩ | hne := eq_cons_or d cs
  · rw [hlong]
    exact reads_terminal hst ((hn d).trans (if_pos rfl)) hk hx
  · rw [hshort cs hne]
    exact reads_else_terminal hst ((hn _).trans (if_neg (headD_ne_of_ne hd hne))) hj hy

theorem analyze_star (cs : List Char) : analyze ('*' :: cs) = .ok (lexed ('*' :: cs)) := by
  refine analyze_longer (d := '*') (s := s29) (k := tWildMulti) (x := .wildMulti) (y := .wildOne)
    cs rfl (by decide) rfl (by decide) (by decide) (fun _ => rfl) (fun _ => rfl) (by decide)
    (fun r => ?_) (fun r hr => ?_)
  · exact lexed_keyword (w := ['*', '*']) (by simp [keywordOf, keywords_eq]) (by simp [cutShort_eq])
  · refine lexed_keyword (w := ['*']) ?_ (by simp [cutShort_eq])
    cases r with
    | nil => rfl
    | cons e r =>
      have he : '*' ≠ e := fun he => hr r (by rw [he])
      simp [keywordOf, keywords_eq, he]

theorem analyze_colon (cs : List Char) : analyze (':' :: cs) = .ok (lexed (':' :: cs)) := by
  refine analyze_longer (d := '=') (s := s30) (k := tSeparator) (x := .separator) (y := .colon)
    cs rfl (by decide) rfl (by decide) (by decide) (fun _ => rfl) (fun _ => rfl) (by decide)
    (fun r => ?_) (fun r hr => ?_)
  · exact lexed_keyword (w := [':', '=']) (by simp [keywordOf, keywords_eq]) (by simp [cutShort_eq])
  · refine lexed_keyword (w := [':']) ?_ (by simp [cutShort_eq])
    cases r with
    | nil => rfl
    | cons e r =>
      have he : '=' ≠ e := fun he => hr r (by rw [he])
      simp [keywordOf, keywords_eq, he]

/-- `S1`: the back references -/
def backReferences : List (Char × Nat × Lexeme) := [
  ('1', tBr1, .br1), ('2', tBr2, .br2), ('3', tBr3, .br3), ('4', tBr4, .br4), ('5', tBr5, .br5),
  ('6', tBr6, .br6), ('7', tBr7, .br7), ('8', tBr8, .br8), ('9', tBr9, .br9)]

def stateS1 : LexerState :=
  ⟨tNone, 0, backReferences.map (fun p => ⟨p.2.1, p.1, p.1⟩) ++ [endTransitions]⟩

theorem gStates_s1 : gStates[s1]? = some stateS1 := rfl

theorem nextState_s1_other {d : Char} (h : ∀ p ∈ backReferences, d ≠ p.1) :
    nextState stateS1 d = (tNone, 0) := by
  have hf : ∀ l : List (Char × Nat × Lexeme), (∀ p ∈ l, d ≠ p.1) →
      findTransition (l.map (fun p => ⟨p.2.1, p.1, p.1⟩) ++ [endTransitions]) d = 0 := by
    intro l hl
    induction l with
    | nil => simp [findTransition]
    | cons p l ih =>
      have hp : ¬ (p.1 ≤ d ∧ d ≤ p.1) := by
        rw [range_single]
        exact hl p List.mem_cons_self
      simp only [List.map_cons, List.cons_append, findTransition, if_neg hp]
      rw [ih fun q hq => hl q (List.mem_cons_of_mem p hq), ite_self]
  unfold nextState stateS1
  rw [if_pos (hf backReferences h)]

theorem analyze_backslash (cs : List Char) : analyze ('\\' :: cs) = .ok (lexed ('\\' :: cs)) := by
  cases cs with
  | nil => rfl
  | cons d cs =>
    rw [analyze_cons, reads_next (k := s1) gStates_s0 rfl (by decide)]
    by_cases hd : ∀ p ∈ backReferences, d ≠ p.1
    · have hne := hd
      simp only [backReferences, List.forall_mem_cons] at hne
      obtain ⟨h₁, h₂, h₃, h₄, h₅, h₆, h₇, h₈, h₉, _⟩ := hne
      have hl : lexed ('\\' :: d :: cs) = (.none, 2) :=
        lexed_none (by simp [keywordOf, keywords_eq, h₁.symm, h₂.symm, h₃.symm, h₄.symm, h₅.symm,
          h₆.symm, h₇.symm, h₈.symm, h₉.symm]) (.inl (by decide))
          (by simp [cutShort_eq]) (v := 1) (by simp) (by simp [keywords_eq])
          (by simp [keywords_eq, h₁, h₂, h₃, h₄, h₅, h₆, h₇, h₈, h₉])
      rw [hl]
      exact reads_none gStates_s1 (nextState_s1_other hd)
    · push Not at hd
      obtain ⟨p, hp, rfl⟩ := hd
      have hn : ∀ p ∈ backReferences, nextState stateS1 p.1 = (p.2.1, 0) := by decide
      have hk : ∀ p ∈ backReferences, firstTerminal ≤ p.2.1 := by decide
      have hb : ∀ p ∈ backReferences, p.2.1 - firstTerminal ≤ lastTerminal ∧
          gTerminals.getD (p.2.1 - firstTerminal) .none = p.2.2 := by decide
      have hx : ∀ n, terminal p.2.1 n = .ok (p.2.2, n) := by
        intro n
        unfold terminal
        rw [if_neg (not_or.2 ⟨Nat.not_lt.2 (hk p hp), Nat.not_lt.2 (hb p hp).1⟩), (hb p hp).2]
      have hkw : ∀ p ∈ backReferences,
          keywordOf ('\\' :: p.1 :: cs) = some (['\\', p.1], p.2.2) := by
        simp [backReferences, keywordOf, keywords_eq, List.isPrefixOf]
      have hl : lexed ('\\' :: p.1 :: cs) = (p.2.2, 2) :=
        lexed_keyword (hkw p hp) (by simp [cutShort_eq])
      rw [hl]
      exact reads_terminal gStates_s1 (hn p hp) (hk p hp) hx

/-- `S4` to `S7`: a text that begins with two underscores, at a character that leads on -/
theorem analyze_underscores (cs : List Char) :
    analyze ('_' :: '_' :: cs) = .ok (lexed ('_' :: '_' :: cs)) := by
  have hu : ∀ r, ['_', '_'] <+: '_' :: '_' :: r := fun r => ⟨r, rfl⟩
  rw [analyze_cons, reads_next (k := s3) gStates_s0 rfl (by decide),
    reads_next (k := s4) rfl rfl (by decide)]
  obtain rfl | ⟨c, cs, rfl⟩ : cs = [] ∨ ∃ d r, cs = d :: r := by cases cs <;> simp
  · rfl
  have h₄ := fun e => nextState_single tNone 0 s5 'n' e (by decide)
  by_cases hc : c = 'n'
  swap
  · rw [lexed_none (v := 2) (by simp [keywordOf, keywords_eq, Ne.symm hc]) (.inr (hu _))
      (by simp [cutShort_eq, hc]) (by simp) (by simp [keywords_eq]) (by simp [keywords_eq, hc])]
    exact reads_none rfl ((h₄ c).trans (if_neg hc))
  subst hc
  rw [reads_next (k := s5) rfl (h₄ 'n') (by decide)]
  obtain rfl | ⟨c, cs, rfl⟩ : cs = [] ∨ ∃ d r, cs = d :: r := by cases cs <;> simp
  · rfl
  have h₅ := fun e => nextState_two tNone 0 tNs s6 's' 'o' e (by decide) (by decide)
  by_cases hs : c = 's'
  · subst hs
    rw [lexed_keyword (w := ['_', '_', 'n', 's']) (x := .ns) (by simp [keywordOf, keywords_eq])
      (by simp [cutShort_eq])]
    exact reads_terminal rfl (h₅ 's') (by decide) fun _ => rfl
  by_cases hc : c = 'o'
  swap
  · rw [lexed_none (v := 3) (by simp [keywordOf, keywords_eq, Ne.symm hc, Ne.symm hs])
      (.inr (hu _)) (by simp [cutShort_eq, hc]) (by simp) (by simp [keywords_eq])
      (by simp [keywords_eq, hc, hs])]
    exact reads_none rfl ((h₅ c).trans ((if_neg hs).trans (if_neg hc)))
  subst hc
  rw [reads_next (k := s6) rfl (h₅ 'o') (by decide)]
  obtain rfl | ⟨c, cs, rfl⟩ : cs = [] ∨ ∃ d r, cs = d :: r := by cases cs <;> simp
  · rfl
  have h₆ := fun e => nextState_single tNone 0 s7 'd' e (by decide)
  by_cases hc : c = 'd'
  swap
  · rw [lexed_none (v := 4) (by simp [keywordOf, keywords_eq, Ne.symm hc]) (.inr (hu _))
      (by simp [cutShort_eq, hc]) (by simp) (by simp [keywords_eq]) (by simp [keywords_eq, hc])]
    exact reads_none rfl ((h₆ c).trans (if_neg hc))
  subst hc
  rw [reads_next (k := s7) rfl (h₆ 'd') (by decide)]
  obtain rfl | ⟨c, cs, rfl⟩ : cs = [] ∨ ∃ d r, cs = d :: r := by cases cs <;> simp
  · rfl
  have h₇ := fun e => nextState_single tNone 0 tNode 'e' e (by decide)
  by_cases hc : c = 'e'
  · subst hc
    rw [lexed_keyword (w := ['_', '_', 'n', 'o', 'd', 'e']) (x := .node)
      (by simp [keywordOf, keywords_eq]) (by simp [cutShort_eq])]
    exact reads_terminal rfl (h₇ 'e') (by decide) fun _ => rfl
  · rw [lexed_none (v := 5) (by simp [keywordOf, keywords_eq, Ne.symm hc]) (.inr (hu _))
      (by simp [cutShort_eq]) (by simp) (by simp [keywords_eq]) (by simp [keywords_eq, hc])]
    exact reads_none rfl ((h₇ c).trans (if_neg hc))

theorem analyze_underscore (cs : List Char) :
    analyze ('_' :: cs) = .ok (lexed ('_' :: cs)) := by
  obtain ⟨r, rfl⟩ | hne := eq_cons_or '_' cs
  · exact analyze_underscores r
  have hc := headD_ne_of_ne (by decide) hne
  have hn := (nextState_single s9 1 s4 '_' (cs.headD '\x00') (by decide)).trans (if_neg hc)
  have hkw : keywordOf ('_' :: cs) = none := by
    cases cs with
    | nil => rfl
    | cons d r =>
      have hd : '_' ≠ d := fun hd => hne r (by rw [hd])
      simp [keywordOf, keywords_eq, hd]
  have hu : ¬ ['_', '_'] <+: '_' :: cs := by
    rintro ⟨r, hr⟩
    exact hne r (List.cons.inj hr).2.symm
  have hcut : '_' :: cs ∉ cutShort := by
    intro hcut
    simp only [cutShort_eq, List.mem_cons, List.cons.injEq, List.not_mem_nil] at hcut
    simp at hcut
    obtain h | h | h | h := hcut <;> exact hne _ h
  rw [lexed_token hkw (.inr rfl) hu hcut, analyze_cons,
    reads_next (k := s3) gStates_s0 rfl (by decide), reads_stay rfl hn]
  exact (reads_token true _ _ cs (by omega)).trans (by simp [Nat.add_comm])

theorem analyze_r (cs : List Char) : analyze ('r' :: cs) = .ok (lexed ('r' :: cs)) := by
  have h : reads (cs.length + 4 + 1) s0 [] ('r' :: cs) = _ :=
    readsAs_s10.forward gStates_s0 (by decide) rfl (by simp)
  rw [analyze_cons, h]
  congr 1
  by_cases ht : List.isPrefixOf "ostopic://".toList cs = true
  · obtain ⟨r, rfl⟩ := List.isPrefixOf_iff_prefix.1 ht
    exact (lexed_keyword (w := "rostopic://".toList) rfl (by simp [cutShort_eq])).symm
  by_cases hs : List.isPrefixOf "osservice://".toList cs = true
  · obtain ⟨r, rfl⟩ := List.isPrefixOf_iff_prefix.1 hs
    exact (lexed_keyword (w := "rosservice://".toList) rfl (by simp [cutShort_eq])).symm
  · have ht' : List.isPrefixOf ['o', 's', 't', 'o', 'p', 'i', 'c', ':', '/', '/'] cs = false :=
      Bool.eq_false_iff.2 ht
    have hs' : List.isPrefixOf ['o', 's', 's', 'e', 'r', 'v', 'i', 'c', 'e', ':', '/', '/'] cs =
        false := Bool.eq_false_iff.2 hs
    rw [lexed_token (by simp [keywordOf, keywords_eq, ht', hs']) (.inl (by decide)) (by simp)
      (by simp [cutShort_eq])]
    simp [schemes, ht', hs']

theorem analyze_letter {c : Char} (cs : List Char) (h : isLetter c = true) (hr : c ≠ 'r') :
    analyze (c :: cs) = .ok (lexed (c :: cs)) := by
  have hne : ∀ d, isLetter d = false → d ≠ c := by
    rintro d hd rfl
    exact absurd h (by simp [hd])
  have hkw : keywordOf (c :: cs) = none := by
    simp [keywordOf, keywords_eq, hne '~' (by decide), hne ':' (by decide), hne '_' (by decide),
      hne '\\' (by decide), hne '/' (by decide), hne '*' (by decide), Ne.symm hr]
  have hu : ¬ ['_', '_'] <+: c :: cs := by
    rintro ⟨r, hr⟩
    exact hne '_' (by decide) (List.cons.inj hr).1
  have hcut : c :: cs ∉ cutShort := by
    simp [cutShort_eq, (hne '~' (by decide)).symm, (hne '_' (by decide)).symm,
      (hne '\\' (by decide)).symm]
  have hu' : (c == '_') = false := by simp [(hne '_' (by decide)).symm]
  rw [lexed_token hkw (.inl h) hu hcut, analyze_cons,
    reads_next gStates_s0 (nextState_s0_letter h hr) (by decide), hu']
  exact (reads_token false _ _ cs (by omega)).trans (by simp [Nat.add_comm])

theorem analyze_other {c : Char} (cs : List Char) (h : isLetter c = false)
    (hc : c ∉ ['/', '\\', '~', '_', '*', ':']) : analyze (c :: cs) = .ok (lexed (c :: cs)) := by
  have hn := nextState_s0_other h hc
  have hr : c ≠ 'r' := by
    rintro rfl
    exact absurd h (by decide)
  simp only [List.mem_cons, List.not_mem_nil, or_false, not_or] at hc
  obtain ⟨h₁, h₂, h₃, h₄, h₅, h₆⟩ := hc
  rw [lexed_none (v := 0) (by simp [keywordOf, keywords_eq, Ne.symm h₁, Ne.symm h₂, Ne.symm h₃,
    Ne.symm h₄, Ne.symm h₅, Ne.symm h₆, Ne.symm hr]) (.inl (by simp [h, h₄]))
    (by simp [cutShort_eq, h₂, h₃, h₄]) (by simp) (by simp [keywords_eq])
    (by simp [keywords_eq, h₁, h₂, h₃, h₄, h₅, h₆, hr]), analyze_cons]
  exact reads_none rfl hn

/-- **What the lexer returns, for every text.** -/
theorem analyze_eq (text : List Char) : analyze text = .ok (lexed text) := by
  cases text with
  | nil => rfl
  | cons c cs =>
    by_cases hl : isLetter c = true
    · by_cases hr : c = 'r'
      · rw [hr]
        exact analyze_r cs
      · exact analyze_letter cs hl hr
    by_cases hc : c ∈ ['/', '\\', '~', '_', '*', ':']
    · simp only [List.mem_cons, List.not_mem_nil, or_false] at hc
      obtain rfl | rfl | rfl | rfl | rfl | rfl := hc
      · exact analyze_forwardSlash cs
      · exact analyze_backslash cs
      · exact analyze_tilde cs
      · exact analyze_underscore cs
      · exact analyze_star cs
      · exact analyze_colon cs
    · exact analyze_other cs (Bool.eq_false_iff.2 hl) hc

/-! ## the grammar is right about the lexer -/

theorem keywordOf_mem {text : List Char} {p : List Char × Lexeme} (h : keywordOf text = some p) :
    p ∈ keywords ∧ p.1 <+: text := by
  have hp := List.find?_some (p := fun p : List Char × Lexeme => p.1.isPrefixOf text) h
  exact ⟨List.mem_of_find?_eq_some h, List.isPrefixOf_iff_prefix.1 hp⟩

theorem lexemeOf_length_le (text : List Char) : (lexemeOf text).2 ≤ text.length := by
  unfold lexemeOf
  split
  · exact Nat.zero_le _
  split
  next p hp => exact (keywordOf_mem hp).2.length_le
  next =>
    split
    · exact Nat.findGreatest_le _
    · exact Nat.min_le_right _ _

theorem lexemeOf_eof_iff (text : List Char) : (lexemeOf text).1 = .eof ↔ text = [] := by
  have hkw : ∀ p ∈ keywords, p.2 ≠ .eof := by decide
  refine ⟨fun h => ?_, fun h => by rw [h]; rfl⟩
  by_contra hne
  unfold lexemeOf at h
  rw [if_neg hne] at h
  split at h
  next p hp => exact hkw p (keywordOf_mem hp).1 h
  next =>
    split at h
    · cases h
    · cases h

theorem lexemeOf_cutShort : ∀ text ∈ cutShort, (lexemeOf text).1 = .none := by
  decide

/-- **The lexer finds the lexeme of the grammar and ends inside the text**, with the exception of
the length for a text that ends inside a keyword. -/
theorem analyze_lexeme (text : List Char) :
    ∃ length, analyze text = .ok ((lexemeOf text).1, length) ∧
      ((lexemeOf text).1 = .eof ↔ text = []) ∧
      (text ∈ cutShort ∨ length = (lexemeOf text).2 ∧ length ≤ text.length) := by
  rw [analyze_eq]
  unfold lexed
  by_cases hcut : text ∈ cutShort
  · refine ⟨text.length + 1, ?_, lexemeOf_eof_iff text, .inl hcut⟩
    rw [if_pos hcut, lexemeOf_cutShort text hcut]
  · refine ⟨(lexemeOf text).2, ?_, lexemeOf_eof_iff text, .inr ⟨rfl, lexemeOf_length_le text⟩⟩
    rw [if_neg hcut]

/-- the longest token of a text without a keyword may be missed: the first of two underscores -/
theorem first_of_two_underscores : keywordOf "__a".toList = none ∧
    longestToken "__a".toList = 1 ∧ analyze "__a".toList = .ok (.none, 3) := by
  decide

end PMROS2.Remap
