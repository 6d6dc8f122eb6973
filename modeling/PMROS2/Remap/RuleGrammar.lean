import PMROS2.Remap.Refinement

/-!
# The grammar of remap rules

The texts that are remap rules, the rule of a text (`RemapImpl.assemble`), and how the lexer splits
the texts of the grammar.  The text of a token ends where a character follows that is not of a
token (`Ends`); `rostopic` and `rosservice` must not be followed by `://` either.
-/

namespace PMROS2.Remap

/-! ## the grammar -/

/-- `token '/'`, repeated -/
def slashed (tokens : List (List Char)) : List Char := tokens.flatMap (fun t => t ++ ['/'])

/-- the beginning of a name before one of its tokens: `[ '~/' | '/' ] ( token '/' )*` -/
def NamePart (t : List Char) : Prop :=
  ∃ start ∈ ["".toList, "/".toList, "~/".toList], ∃ tokens : List (List Char),
    (∀ x ∈ tokens, IsToken x) ∧ t = start ++ slashed tokens

/-- `[ '~/' | '/' ] token ( '/' token )*` -/
def IsName (t : List Char) : Prop :=
  ∃ part token, NamePart part ∧ IsToken token ∧ t = part ++ token

/-- `'/' ( token '/' )* [ token ]` -/
def IsNamespace (t : List Char) : Prop :=
  ∃ tokens token, (∀ x ∈ tokens, IsToken x) ∧ (token = [] ∨ IsToken token) ∧
    t = '/' :: (slashed tokens ++ token)

/-- `[ 'rostopic://' | 'rosservice://' ]` and the type of the rule -/
def urlSchemes : List (List Char × Nat) :=
  [("".toList, topicRemap ||| serviceRemap), ("rostopic://".toList, topicRemap),
    ("rosservice://".toList, serviceRemap)]

/-- a rule without the name of a node -/
inductive RuleBody : List Char → Prop
  | node {t : List Char} (ht : IsToken t) : RuleBody ("__node:=".toList ++ t)
  | ns {t : List Char} (ht : IsNamespace t) : RuleBody ("__ns:=".toList ++ t)
  | name {url : List Char × Nat} {t u : List Char} (hurl : url ∈ urlSchemes) (ht : IsName t)
      (hu : IsName u) : RuleBody (url.1 ++ (t ++ (":=".toList ++ u)))

/-- `[ node_name ':' ]` -/
def nodePrefix : Option (List Char) → List Char
  | none => []
  | some t => t ++ [':']

def NodeOk (nodeName : Option (List Char)) : Prop := ∀ t ∈ nodeName, IsToken t

/-- **The texts that are remap rules.** -/
def IsRemapRule (arg : List Char) : Prop :=
  ∃ nodeName body, NodeOk nodeName ∧ RuleBody body ∧ arg = nodePrefix nodeName ++ body

/-- a wildcard in place of a token of the match, or a back reference in place of a token of the
replacement -/
inductive UnimplementedBody : List Char → Prop
  | wildcard {url : List Char × Nat} {part rest : List Char} (hurl : url ∈ urlSchemes)
      (hp : NamePart part) : UnimplementedBody (url.1 ++ (part ++ '*' :: rest))
  | backReference {url : List Char × Nat} {t part rest : List Char} {d : Char}
      (hurl : url ∈ urlSchemes) (ht : IsName t) (hp : NamePart part) (hd : '1' ≤ d ∧ d ≤ '9') :
      UnimplementedBody (url.1 ++ (t ++ (":=".toList ++ (part ++ '\\' :: d :: rest))))

def IsUnimplemented (arg : List Char) : Prop :=
  ∃ nodeName body, NodeOk nodeName ∧ UnimplementedBody body ∧ arg = nodePrefix nodeName ++ body

def BeginsNamespace (arg : List Char) : Prop :=
  ∃ nodeName rest, NodeOk nodeName ∧ arg = nodePrefix nodeName ++ ("__ns:=/".toList ++ rest)

/-- the argument of a rule -/
def RemapImpl.assemble (rule : RemapImpl) : List Char :=
  nodePrefix rule.nodeName ++
    if rule.type = nodenameRemap then "__node:=".toList ++ rule.replacement.getD []
    else if rule.type = namespaceRemap then "__ns:=".toList ++ rule.replacement.getD []
    else
      (if rule.type = topicRemap then "rostopic://".toList
        else if rule.type = serviceRemap then "rosservice://".toList else []) ++
        (rule.matchText.getD [] ++ (":=".toList ++ rule.replacement.getD []))

/-! ## how the lexer splits the texts -/

/-- no token goes on -/
def Ends (r : List Char) : Prop := ∀ c ∈ r.head?, isAlnum c = false ∧ c ≠ '_'

theorem ends_nil : Ends [] := fun c hc => by cases hc

theorem ends_cons {c : Char} (r : List Char) (h : isAlnum c = false) (hc : c ≠ '_') :
    Ends (c :: r) := by
  rintro d ⟨⟩
  exact ⟨h, hc⟩

theorem scanToken_append {u : Bool} {t r : List Char} (h : scanToken u t = t.length)
    (hr : Ends r) : scanToken u (t ++ r) = t.length := by
  induction t generalizing u with
  | nil =>
    cases r with
    | nil => rfl
    | cons c r =>
      obtain ⟨hc, hc'⟩ := hr c rfl
      simp [scanToken, hc, hc']
  | cons c t ih =>
    rw [List.cons_append]
    unfold scanToken at h ⊢
    split
    next hc =>
      rw [if_pos hc, List.length_cons, Nat.add_right_cancel_iff] at h
      rw [ih h, List.length_cons]
    next hc =>
      rw [if_neg hc] at h
      split
      next hu =>
        rw [if_pos hu, List.length_cons, Nat.add_right_cancel_iff] at h
        rw [ih h, List.length_cons]
      next hu =>
        rw [if_neg hu] at h
        exact absurd h (by simp)

theorem takeWhile_ends {p : Char → Bool} {r : List Char} (h : ∀ c ∈ r.head?, p c = false) :
    r.takeWhile p = [] := by
  cases r with
  | nil => rfl
  | cons c r => rw [List.takeWhile_cons, h c rfl]; rfl

/-- a token that is followed by something else cannot be the beginning of a url scheme -/
theorem url_not_prefix {w t r : List Char} (hw : w.all (fun c => isAlnum c || c == '_') = true)
    (ht : IsToken t) (hr : Ends r) (hurl : ¬ "://".toList <+: r) :
    ¬ w ++ "://".toList <+: t ++ r := by
  rintro ⟨z, hz⟩
  have hp : ∀ c ∈ r.head?, (isAlnum c || c == '_') = false := by
    intro c hc
    simp [hr c hc]
  have hl : (t ++ r).takeWhile (fun c => isAlnum c || c == '_') = t := by
    rw [List.takeWhile_append_of_pos (List.all_eq_true.1 ht.2.1), takeWhile_ends hp,
      List.append_nil]
  have hl' : (w ++ "://".toList ++ z).takeWhile (fun c => isAlnum c || c == '_') = w := by
    rw [List.append_assoc, List.takeWhile_append_of_pos (List.all_eq_true.1 hw),
      takeWhile_ends (by rintro c ⟨⟩; rfl), List.append_nil]
  have hwt : w = t := by rw [← hl', hz, hl]
  subst hwt
  rw [List.append_assoc] at hz
  exact hurl ⟨z, List.append_cancel_left hz⟩

theorem IsToken.eq_cons {t : List Char} (h : IsToken t) :
    ∃ c cs, t = c :: cs ∧ (isLetter c = true ∨ c = '_') ∧
      scanToken (c == '_') cs = cs.length := by
  cases t with
  | nil => exact absurd h.1 (by simp)
  | cons c cs =>
    obtain ⟨hc, hs⟩ := (isToken_cons_iff c cs).1 h
    exact ⟨c, cs, rfl, hc, hs⟩

theorem IsToken.not_underscores {t r : List Char} (h : IsToken t) (hr : Ends r) :
    ¬ ['_', '_'] <+: t ++ r := by
  obtain ⟨c, cs, rfl, hc, hs⟩ := h.eq_cons
  rintro ⟨z, hz⟩
  obtain ⟨rfl, hz'⟩ := List.cons.inj hz
  cases cs with
  | nil => exact (hr '_' (by rw [← show _ = r from hz']; rfl)).2 rfl
  | cons d cs =>
    obtain ⟨rfl, -⟩ := List.cons.inj hz'
    exact absurd hs (by simp [scanToken, show isAlnum '_' = false by decide])

/-- a text that does not begin with the first character of a token -/
def beginsOther (t : List Char) : Bool := t.head?.any (fun d => !isLetter d && d != '_')

theorem beginsOther_not_prefix {w cs : List Char} {c : Char} (hw : beginsOther w = true)
    (hc : isLetter c = true ∨ c = '_') : ¬ w <+: c :: cs := by
  rintro ⟨z, hz⟩
  cases w with
  | nil => cases hw
  | cons d w =>
    obtain ⟨rfl, -⟩ := List.cons.inj hz
    have hw' : isLetter d = false ∧ d ≠ '_' := by simpa [beginsOther] using hw
    exact hc.elim (by simp [hw'.1]) hw'.2

theorem keywords_kinds : ∀ p ∈ keywords, beginsOther p.1 = true ∨ ['_', '_'] <+: p.1 ∨
    p.1 = "rosservice".toList ++ "://".toList ∨ p.1 = "rostopic".toList ++ "://".toList := by
  decide

theorem cutShort_kinds : ∀ t ∈ cutShort, beginsOther t = true ∨ ['_', '_'] <+: t := by decide

/-- **A token and something else is a token.** -/
theorem lexed_token_append {t r : List Char} (ht : IsToken t) (hr : Ends r)
    (hurl : ¬ "://".toList <+: r) : lexed (t ++ r) = (.token, t.length) := by
  have hu := ht.not_underscores hr
  have hservice := url_not_prefix (w := "rosservice".toList) (by decide) ht hr hurl
  have htopic := url_not_prefix (w := "rostopic".toList) (by decide) ht hr hurl
  obtain ⟨c, cs, rfl, hc, hs⟩ := ht.eq_cons
  rw [List.cons_append] at hu hservice htopic ⊢
  have hkw : keywordOf (c :: (cs ++ r)) = none := by
    unfold keywordOf
    rw [List.find?_eq_none]
    intro p hp hpre
    rw [List.isPrefixOf_iff_prefix] at hpre
    obtain hk | hk | hk | hk := keywords_kinds p hp
    · exact beginsOther_not_prefix hk hc hpre
    · exact hu (hk.trans hpre)
    · exact hservice (hk ▸ hpre)
    · exact htopic (hk ▸ hpre)
  have hcut : c :: (cs ++ r) ∉ cutShort := by
    intro hmem
    obtain hk | hk := cutShort_kinds _ hmem
    · exact beginsOther_not_prefix hk hc (List.prefix_refl _)
    · exact hu hk
  rw [lexed_token hkw hc hu hcut, scanToken_append hs hr]
  rfl

theorem lexed_cases (r : List Char) : (r = [] ∧ lexed r = (.eof, 0)) ∨
    (∃ p ∈ keywords, p.1 <+: r ∧ lexed r = (p.2, p.1.length)) ∨
    (IsToken (r.take (lexed r).2) ∧ (lexed r).1 = .token) ∨ (lexed r).1 = .none := by
  unfold lexed
  split
  · exact .inr (.inr (.inr rfl))
  unfold lexemeOf
  split
  next hnil => exact .inl ⟨hnil, rfl⟩
  split
  next p hp => exact .inr (.inl ⟨p, (keywordOf_mem hp).1, (keywordOf_mem hp).2, rfl⟩)
  split
  next ht =>
    refine .inr (.inr (.inl ⟨?_, rfl⟩))
    exact Nat.findGreatest_of_ne_zero (P := fun n => IsToken (r.take n)) rfl ht.1.ne'
  · exact .inr (.inr (.inr rfl))

theorem lexed_token_inv {r : List Char} (h : (lexed r).1 = .token) :
    IsToken (r.take (lexed r).2) := by
  have hkw : ∀ p ∈ keywords, p.2 ≠ .token := by decide
  obtain ⟨-, hl⟩ | ⟨p, hp, -, hl⟩ | ⟨ht, -⟩ | hl := lexed_cases r
  · rw [hl] at h
    cases h
  · rw [hl] at h
    exact absurd h (hkw p hp)
  · exact ht
  · rw [hl] at h
    cases h

theorem lexed_keyword_inv {r : List Char} (h : (lexed r).1 ∉ [.none, .eof, .token]) :
    ∃ p ∈ keywords, p.1 <+: r ∧ lexed r = (p.2, p.1.length) := by
  obtain ⟨-, hl⟩ | hp | ⟨-, hl⟩ | hl := lexed_cases r
  · exact absurd (by simp [hl]) h
  · exact hp
  · exact absurd (by simp [hl]) h
  · exact absurd (by simp [hl]) h

theorem lexed_eq_of_type {r w : List Char} {x : Lexeme} (h : (lexed r).1 = x)
    (hx : x ∉ [Lexeme.none, .eof, .token]) (hw : ∀ p ∈ keywords, p.2 = x → p.1 = w) :
    ∃ r', r = w ++ r' ∧ lexed r = (x, w.length) := by
  obtain ⟨p, hp, ⟨r', rfl⟩, hl⟩ := lexed_keyword_inv (h ▸ hx)
  have hpx : p.2 = x := by rw [← h, hl]
  obtain rfl := hw p hp hpx
  exact ⟨r', rfl, by rw [hl, hpx]⟩

/-! ## keywords at the beginning of a text -/

theorem lexed_slash (r : List Char) : lexed ('/' :: r) = (.forwardSlash, 1) :=
  lexed_keyword (w := ['/']) (by simp [keywordOf, keywords_eq]) (by simp [cutShort_eq])

theorem lexed_tildeSlash (r : List Char) : lexed ('~' :: '/' :: r) = (.tildeSlash, 2) :=
  lexed_keyword (w := ['~', '/']) (by simp [keywordOf, keywords_eq]) (by simp [cutShort_eq])

theorem lexed_separator (r : List Char) : lexed (':' :: '=' :: r) = (.separator, 2) :=
  lexed_keyword (w := [':', '=']) (by simp [keywordOf, keywords_eq]) (by simp [cutShort_eq])

theorem lexed_colon {r : List Char} (h : r.head? ≠ some '=') : lexed (':' :: r) = (.colon, 1) := by
  refine lexed_keyword (w := [':']) ?_ (by simp [cutShort_eq])
  cases r with
  | nil => rfl
  | cons c r =>
    have hc : '=' ≠ c := fun hc => h (by rw [hc]; rfl)
    simp [keywordOf, keywords_eq, hc]

theorem lexed_node (r : List Char) : lexed ("__node".toList ++ r) = (.node, 6) := by
  show lexed ('_' :: '_' :: 'n' :: 'o' :: 'd' :: 'e' :: r) = _
  exact lexed_keyword (w := ['_', '_', 'n', 'o', 'd', 'e']) rfl (by simp [cutShort_eq])

theorem lexed_ns (r : List Char) : lexed ("__ns".toList ++ r) = (.ns, 4) := by
  show lexed ('_' :: '_' :: 'n' :: 's' :: r) = _
  exact lexed_keyword (w := ['_', '_', 'n', 's']) rfl (by simp [cutShort_eq])

theorem lexed_urlTopic (r : List Char) : lexed ("rostopic://".toList ++ r) = (.urlTopic, 11) := by
  show lexed ('r' :: _) = _
  exact lexed_keyword (w := "rostopic://".toList) rfl (by simp [cutShort_eq])

theorem lexed_urlService (r : List Char) :
    lexed ("rosservice://".toList ++ r) = (.urlService, 13) := by
  show lexed ('r' :: _) = _
  exact lexed_keyword (w := "rosservice://".toList) rfl (by simp [cutShort_eq])

/-- the lexemes that are not implemented in a match -/
abbrev wildcards : List Lexeme := [.wildOne, .wildMulti]

/-- the lexemes that are not implemented in a replacement -/
abbrev backRefs : List Lexeme := [.br1, .br2, .br3, .br4, .br5, .br6, .br7, .br8, .br9]

theorem lexed_star (r : List Char) : (lexed ('*' :: r)).1 ∈ wildcards := by
  obtain ⟨r, rfl⟩ | hne := eq_cons_or '*' r
  · rw [lexed_keyword (w := ['*', '*']) (x := .wildMulti) (by simp [keywordOf, keywords_eq])
      (by simp [cutShort_eq])]
    decide
  · rw [lexed_keyword (w := ['*']) (x := .wildOne) _ (by simp [cutShort_eq])]
    · decide
    cases r with
    | nil => rfl
    | cons c r =>
      have hc : '*' ≠ c := fun hc => hne r (by rw [hc])
      simp [keywordOf, keywords_eq, hc]

theorem star_of_wildcard {r : List Char} (h : (lexed r).1 ∈ wildcards) : ∃ r', r = '*' :: r' := by
  have hkw : ∀ p ∈ keywords, p.2 ∈ wildcards → p.1.head? = some '*' := by decide
  have hne : ∀ x ∈ wildcards, x ∉ [Lexeme.none, .eof, .token] := by decide
  obtain ⟨⟨w, x⟩, hp, ⟨z, rfl⟩, hl⟩ := lexed_keyword_inv (hne _ h)
  rw [hl] at h
  cases w with
  | nil => cases hkw _ hp h
  | cons c w =>
    obtain rfl := Option.some.inj (hkw _ hp h)
    exact ⟨w ++ z, rfl⟩

theorem digit_cases {d : Char} (hd : '1' ≤ d ∧ d ≤ '9') :
    d ∈ ['1', '2', '3', '4', '5', '6', '7', '8', '9'] := by
  have h₁ : 49 ≤ d.toNat := hd.1
  have h₂ : d.toNat ≤ 57 := hd.2
  rw [← Char.ofNat_toNat d]
  generalize d.toNat = n at h₁ h₂
  interval_cases n <;> decide

theorem lexed_backReference {d : Char} (hd : '1' ≤ d ∧ d ≤ '9') (r : List Char) :
    (lexed ('\\' :: d :: r)).1 ∈ backRefs := by
  have hall : ∀ d ∈ ['1', '2', '3', '4', '5', '6', '7', '8', '9'],
      ∃ x ∈ backRefs, keywordOf ('\\' :: d :: r) = some (['\\', d], x) := by
    simp [keywordOf, keywords_eq, List.isPrefixOf]
  obtain ⟨x, hx, hkw⟩ := hall d (digit_cases hd)
  rw [lexed_keyword hkw (by simp [cutShort_eq])]
  exact hx

theorem backslash_of_backReference {r : List Char} (h : (lexed r).1 ∈ backRefs) :
    ∃ d r', r = '\\' :: d :: r' ∧ '1' ≤ d ∧ d ≤ '9' := by
  have hkw : ∀ p ∈ keywords, p.2 ∈ backRefs →
      p.1 ∈ ['1', '2', '3', '4', '5', '6', '7', '8', '9'].map (fun d => ['\\', d]) := by decide
  have hdigit : ['1', '2', '3', '4', '5', '6', '7', '8', '9'].all
      (fun d => '1' ≤ d ∧ d ≤ '9') = true := by decide
  have hne : ∀ x ∈ backRefs, x ∉ [Lexeme.none, .eof, .token] := by decide
  obtain ⟨⟨w, x⟩, hp, ⟨z, rfl⟩, hl⟩ := lexed_keyword_inv (hne _ h)
  rw [hl] at h
  obtain ⟨d, hd, hw⟩ := List.mem_map.1 (hkw _ hp h)
  obtain rfl : ['\\', d] = w := hw
  exact ⟨d, z, rfl, by simpa using List.all_eq_true.1 hdigit d hd⟩

end PMROS2.Remap
