import PMROS2.Remap.Names

/-!
# The parser accepts the grammar

`parseRemapRule_spec`: for every argument but the six texts that end inside a keyword
(`cutShort`), where the parser looks behind the terminating NUL, a rule is returned exactly for the
texts of the grammar, and the argument can be assembled from it again.  Wildcards and back
references are an error of their own.
-/

namespace PMROS2.Remap

open Simulation

/-! ## name rules -/

theorem url_eq (r : List Char) :
    parseRemapUrl.run r =
      if (lexed r).1 = .urlService then .ok (serviceRemap, r.drop (lexed r).2)
      else if (lexed r).1 = .urlTopic then .ok (topicRemap, r.drop (lexed r).2)
      else .ok (topicRemap ||| serviceRemap, r) := by
  rw [parseRemapUrl, run_bind_ok (peek_text r)]
  split
  · rfl
  split
  · rfl
  · rfl

theorem url_cases (r : List Char) :
    ∃ url ∈ urlSchemes, ∃ r', r = url.1 ++ r' ∧ parseRemapUrl.run r = .ok (url.2, r') := by
  rw [url_eq]
  by_cases hs : (lexed r).1 = .urlService
  · obtain ⟨r', rfl, hl⟩ := lexed_eq_of_type (w := "rosservice://".toList) hs (by decide)
      (by decide)
    refine ⟨("rosservice://".toList, serviceRemap), by decide, r', rfl, ?_⟩
    rw [if_pos hs, hl, List.drop_left]
  rw [if_neg hs]
  by_cases ht : (lexed r).1 = .urlTopic
  · obtain ⟨r', rfl, hl⟩ := lexed_eq_of_type (w := "rostopic://".toList) ht (by decide) (by decide)
    refine ⟨("rostopic://".toList, topicRemap), by decide, r', rfl, ?_⟩
    rw [if_pos ht, hl, List.drop_left]
  · refine ⟨("".toList, topicRemap ||| serviceRemap), by decide, r, rfl, ?_⟩
    rw [if_neg ht]

theorem url_run {url : List Char × Nat} (hurl : url ∈ urlSchemes) {r : List Char}
    (hr : (lexed r).1 ≠ .urlTopic ∧ (lexed r).1 ≠ .urlService) :
    parseRemapUrl.run (url.1 ++ r) = .ok (url.2, r) := by
  simp only [urlSchemes, List.mem_cons, List.not_mem_nil, or_false] at hurl
  obtain rfl | rfl | rfl := hurl
  · show parseRemapUrl.run r = _
    rw [url_eq, if_neg hr.2, if_neg hr.1]
  · show parseRemapUrl.run ("rostopic://".toList ++ r) = _
    rw [url_eq, lexed_urlTopic]
    rfl
  · show parseRemapUrl.run ("rosservice://".toList ++ r) = _
    rw [url_eq, lexed_urlService]
    rfl

/-- the first lexeme of a name or of a part of it -/
theorem lexed_part {part : List Char} (hp : NamePart part) (r : List Char) :
    part = [] ∨ (lexed (part ++ r)).1 ∈ [.token, .forwardSlash, .tildeSlash] := by
  obtain ⟨start, hstart, ts, hts, rfl⟩ := hp
  simp only [List.mem_cons, List.not_mem_nil, or_false] at hstart
  obtain rfl | rfl | rfl := hstart
  · cases ts with
    | nil => exact .inl rfl
    | cons t ts =>
      right
      have heq : "".toList ++ slashed (t :: ts) ++ r = t ++ '/' :: (slashed ts ++ r) := by
        show slashed (t :: ts) ++ r = _
        simp [slashed]
      rw [heq, lexed_token_append (hts t List.mem_cons_self) (ends_slash _) (by simp)]
      simp
  · right
    show (lexed ('/' :: _)).1 ∈ _
    rw [lexed_slash]
    decide
  · right
    show (lexed ('~' :: '/' :: _)).1 ∈ _
    rw [lexed_tildeSlash]
    decide

theorem lexed_isName {t r : List Char} (ht : IsName t) (hr : Ends r)
    (hurl : ¬ "://".toList <+: r) :
    (lexed (t ++ r)).1 ∈ [.token, .forwardSlash, .tildeSlash] := by
  obtain ⟨part, t, hp, ht, rfl⟩ := ht
  rw [List.append_assoc]
  obtain rfl | hl := lexed_part hp (t ++ r)
  · show (lexed (t ++ r)).1 ∈ _
    rw [lexed_token_append ht hr hurl]
    simp
  · exact hl

theorem ends_separator (r : List Char) : Ends (":=".toList ++ r) :=
  ends_cons _ (by decide) (by decide)

theorem separator_not_url (r : List Char) : ¬ "://".toList <+: ":=".toList ++ r := by
  rintro ⟨z, hz⟩
  have := (List.cons.inj (List.cons.inj hz).2).1
  exact absurd this (by decide)

/-- **A name rule on any text.** -/
theorem nameRemap_cases (nodeName : Option (List Char)) (r : List Char) :
    (∃ url t u, url ∈ urlSchemes ∧ IsName t ∧ IsName u ∧
      r = url.1 ++ (t ++ (":=".toList ++ u)) ∧ (parseRemapNameRemap nodeName).run r =
        .ok (⟨url.2, nodeName, some t, some u⟩, [])) ∨
    (UnimplementedBody r ∧ (parseRemapNameRemap nodeName).run r = .error .error) ∨
    (parseRemapNameRemap nodeName).run r = .error .invalidRemapRule := by
  obtain ⟨url, hurl, r₁, rfl, hrun₁⟩ := url_cases r
  have hmatch : ∀ x, (parseRemapName .separator parseRemapMatchToken).run r₁ = .ok x →
      parseRemapMatchName.run (url.1 ++ r₁) = .ok ((url.2, x.1), x.2) := by
    intro x hx
    rw [parseRemapMatchName, run_bind_ok hrun₁, run_bind_ok hx]
    rfl
  have hmatch' : ∀ e, (parseRemapName .separator parseRemapMatchToken).run r₁ = .error e →
      (parseRemapNameRemap nodeName).run (url.1 ++ r₁) = .error e := by
    intro e he
    refine run_bind_error ?_
    rw [parseRemapMatchName, run_bind_ok hrun₁, run_bind_error he]
  obtain ⟨t, r₂, ht, rfl, hl, hrun⟩ | ⟨part, r₂, hp, rfl, hl, hrun⟩ | hrun :=
    name_cases .separator wildcards r₁
  · obtain ⟨r₃, rfl, hl'⟩ := lexed_eq_of_type (w := ":=".toList) hl (by decide) (by decide)
    have hsep : (expectInRule .separator).run (":=".toList ++ r₃) = .ok (some ":=".toList, r₃) := by
      rw [expectInRule_run, hl', if_neg (not_not.2 rfl)]
      rfl
    rw [parseRemapNameRemap, run_bind_ok (hmatch _ hrun), run_bind_ok hsep]
    obtain ⟨u, r₄, hu, rfl, hl₄, hrun₄⟩ | ⟨part, r₄, hp, rfl, hl₄, hrun₄⟩ | hrun₄ :=
      name_cases .eof backRefs r₃
    · obtain rfl : r₄ = [] := (lexed_eof_iff r₄).1 hl₄
      refine .inl ⟨url, t, u, hurl, ht, hu, by rw [List.append_nil], ?_⟩
      exact run_bind_ok hrun₄
    · obtain ⟨d, r₅, rfl, hd⟩ := backslash_of_backReference hl₄
      exact .inr (.inl ⟨.backReference hurl ht hp hd, run_bind_error hrun₄⟩)
    · exact .inr (.inr (run_bind_error hrun₄))
  · obtain ⟨r₃, rfl⟩ := star_of_wildcard hl
    exact .inr (.inl ⟨.wildcard hurl hp, hmatch' _ hrun⟩)
  · exact .inr (.inr (hmatch' _ hrun))

section
variable {url : List Char × Nat} {t u part : List Char}

theorem matchName_run (hurl : url ∈ urlSchemes) (ht : IsName t) (r : List Char) :
    parseRemapMatchName.run (url.1 ++ (t ++ (":=".toList ++ r))) =
      .ok ((url.2, t), ":=".toList ++ r) := by
  have hl := lexed_isName ht (ends_separator r) (separator_not_url r)
  have hne : ∀ x ∈ [Lexeme.token, .forwardSlash, .tildeSlash], x ≠ .urlTopic ∧ x ≠ .urlService := by
    decide
  have hname : (parseRemapName .separator parseRemapMatchToken).run (t ++ (":=".toList ++ r)) =
      .ok (t, ":=".toList ++ r) :=
    name_run_of_isName (by decide) ht (ends_separator r) (separator_not_url r)
      (by rw [show lexed (":=".toList ++ r) = _ from lexed_separator r])
  rw [parseRemapMatchName, run_bind_ok (url_run hurl (hne _ hl)), run_bind_ok hname]
  rfl

theorem separator_run (r : List Char) :
    (expectInRule .separator).run (":=".toList ++ r) = .ok (some ":=".toList, r) := by
  rw [expectInRule_run, show lexed (":=".toList ++ r) = _ from lexed_separator r]
  rfl

theorem nameRemap_run (nodeName : Option (List Char)) (hurl : url ∈ urlSchemes) (ht : IsName t)
    (hu : IsName u) :
    (parseRemapNameRemap nodeName).run (url.1 ++ (t ++ (":=".toList ++ u))) =
      .ok (⟨url.2, nodeName, some t, some u⟩, []) := by
  have hname : parseRemapReplacementName.run (u ++ []) = .ok (u, []) :=
    name_run_of_isName (by decide) hu ends_nil (by decide) rfl
  rw [List.append_nil] at hname
  rw [parseRemapNameRemap, run_bind_ok (matchName_run hurl ht u), run_bind_ok (separator_run u),
    run_bind_ok hname]
  rfl

theorem nameRemap_unimplemented (nodeName : Option (List Char)) {r : List Char}
    (h : UnimplementedBody r) : (parseRemapNameRemap nodeName).run r = .error .error := by
  cases h with
  | @wildcard url part rest hurl hp =>
    have hu : ∀ x ∈ wildcards, x ≠ .tildeSlash ∧ x ≠ .forwardSlash ∧ x ≠ .token := by decide
    have hname : (parseRemapName .separator parseRemapMatchToken).run (part ++ '*' :: rest) =
        .error .error := name_run_of_unimplemented (by decide) hp hu (lexed_star rest)
    have hl : (lexed (part ++ '*' :: rest)).1 ≠ .urlTopic ∧
        (lexed (part ++ '*' :: rest)).1 ≠ .urlService := by
      have hne : ∀ x ∈ [Lexeme.token, .forwardSlash, .tildeSlash] ++ wildcards,
          x ≠ .urlTopic ∧ x ≠ .urlService := by decide
      obtain rfl | hl := lexed_part hp ('*' :: rest)
      · exact hne _ (List.mem_append_right _ (lexed_star rest))
      · exact hne _ (List.mem_append_left _ hl)
    refine run_bind_error ?_
    rw [parseRemapMatchName, run_bind_ok (url_run hurl hl), run_bind_error hname]
  | @backReference url t part rest d hurl ht hp hd =>
    have hu : ∀ x ∈ backRefs, x ≠ .tildeSlash ∧ x ≠ .forwardSlash ∧ x ≠ .token := by decide
    have hname : parseRemapReplacementName.run (part ++ '\\' :: d :: rest) = .error .error :=
      name_run_of_unimplemented (by decide) hp hu (lexed_backReference hd rest)
    rw [parseRemapNameRemap, run_bind_ok (matchName_run hurl ht _), run_bind_ok (separator_run _),
      run_bind_error hname]

end

/-! ## namespace rules -/

theorem namespaceTokens_run (fuel : Nat) (r : List Char) :
    (parseRemapNamespaceTokens (fuel + 1)).run r =
      if Lexeme.token ≠ (lexed r).1 then .ok ((), r)
      else if Lexeme.forwardSlash ≠ (lexed (r.drop (lexed r).2)).1 then
        .ok ((), r.drop (lexed r).2)
      else (parseRemapNamespaceTokens fuel).run
        ((r.drop (lexed r).2).drop (lexed (r.drop (lexed r).2)).2) := by
  have h₁ := expect_text .token r
  by_cases ht : Lexeme.token = (lexed r).1
  · rw [if_neg (not_not.2 ht)] at h₁
    rw [parseRemapNamespaceTokens, run_bind_ok h₁, if_neg (not_not.2 ht)]
    have h₂ := expect_text .forwardSlash (r.drop (lexed r).2)
    by_cases hs : Lexeme.forwardSlash = (lexed (r.drop (lexed r).2)).1
    · rw [if_neg (not_not.2 hs)] at h₂
      rw [if_neg (not_not.2 hs)]
      exact run_bind_ok h₂
    · rw [if_pos hs] at h₂
      rw [if_pos hs]
      exact run_bind_ok h₂
  · rw [if_pos ht] at h₁
    rw [parseRemapNamespaceTokens, run_bind_ok h₁, if_pos ht]
    rfl

theorem namespaceTokens_cases {fuel : Nat} {r : List Char} (hf : r.length < fuel) :
    ∃ ts t r', (∀ x ∈ ts, IsToken x) ∧ (t = [] ∨ IsToken t) ∧ r = slashed ts ++ (t ++ r') ∧
      (parseRemapNamespaceTokens fuel).run r = .ok ((), r') := by
  induction fuel generalizing r with
  | zero => exact absurd hf (Nat.not_lt_zero _)
  | succ fuel ih =>
    rw [namespaceTokens_run]
    by_cases ht : Lexeme.token = (lexed r).1
    swap
    · exact ⟨[], [], r, by simp, .inl rfl, rfl, if_pos ht⟩
    rw [if_neg (not_not.2 ht)]
    have htoken := lexed_token_inv ht.symm
    obtain ⟨t, r₁, hr, hdrop, htake⟩ : ∃ t r₁, r = t ++ r₁ ∧ r.drop (lexed r).2 = r₁ ∧
        r.take (lexed r).2 = t := ⟨_, _, (List.take_append_drop _ r).symm, rfl, rfl⟩
    rw [htake] at htoken
    rw [hdrop]
    by_cases hs : Lexeme.forwardSlash = (lexed r₁).1
    swap
    · exact ⟨[], t, r₁, by simp, .inr htoken, hr, if_pos hs⟩
    rw [if_neg (not_not.2 hs)]
    obtain ⟨r₂, rfl, hl⟩ := lexed_eq_of_type (w := ['/']) hs.symm (by decide) (by decide)
    have hr₂ : List.drop (lexed (['/'] ++ r₂)).2 (['/'] ++ r₂) = r₂ := by rw [hl]; rfl
    have hlen : r₂.length < fuel := by
      rw [hr] at hf
      simp at hf
      omega
    obtain ⟨ts, t', r', hts, ht', heq, hrun⟩ := ih hlen
    refine ⟨t :: ts, t', r', List.forall_mem_cons.2 ⟨htoken, hts⟩, ht', ?_, ?_⟩
    · rw [hr, heq]
      simp [slashed]
    · rw [hr₂, hrun]

theorem namespaceTokens_of_isToken {fuel : Nat} {ts : List (List Char)} {t : List Char}
    (hts : ∀ x ∈ ts, IsToken x) (ht : t = [] ∨ IsToken t)
    (hf : (slashed ts ++ t).length < fuel) :
    (parseRemapNamespaceTokens fuel).run (slashed ts ++ t) = .ok ((), []) := by
  induction ts generalizing fuel with
  | nil =>
    obtain ⟨f, rfl⟩ : ∃ f, fuel = f + 1 := ⟨fuel - 1, by omega⟩
    show (parseRemapNamespaceTokens (f + 1)).run t = _
    rw [namespaceTokens_run]
    obtain rfl | ht := ht
    · rfl
    · have hl : lexed t = (.token, t.length) := by
        have := lexed_token_append ht ends_nil (by decide)
        rwa [List.append_nil] at this
      rw [hl, if_neg (not_not.2 rfl), List.drop_length]
      rfl
  | cons x ts ih =>
    have heq : slashed (x :: ts) ++ t = x ++ '/' :: (slashed ts ++ t) := by simp [slashed]
    rw [heq] at hf ⊢
    rw [List.length_append, List.length_cons] at hf
    obtain ⟨f, rfl⟩ : ∃ f, fuel = f + 1 := ⟨fuel - 1, by omega⟩
    have hl := lexed_token_append (hts x List.mem_cons_self) (ends_slash (slashed ts ++ t))
      (by simp)
    rw [namespaceTokens_run, hl, if_neg (not_not.2 rfl)]
    simp only [List.drop_left]
    rw [lexed_slash, if_neg (not_not.2 rfl)]
    exact ih (fun y hy => hts y (List.mem_cons_of_mem x hy)) (by omega)

theorem expectInRule_keyword {x : Lexeme} {w r : List Char} (h : lexed (w ++ r) = (x, w.length)) :
    (expectInRule x).run (w ++ r) = .ok (some w, r) := by
  rw [expectInRule_run, h, if_neg (not_not.2 rfl)]
  simp

theorem expectInRule_cases {x : Lexeme} {w : List Char} (r : List Char)
    (hx : x ∉ [Lexeme.none, .eof, .token]) (hw : ∀ p ∈ keywords, p.2 = x → p.1 = w) :
    (∃ r', r = w ++ r' ∧ (expectInRule x).run r = .ok (some w, r')) ∨
      (expectInRule x).run r = .error .invalidRemapRule := by
  by_cases hl : (lexed r).1 = x
  · obtain ⟨r', rfl, hl'⟩ := lexed_eq_of_type hl hx hw
    exact .inl ⟨r', rfl, expectInRule_keyword hl'⟩
  · rw [expectInRule_run]
    exact .inr (if_pos (Ne.symm hl))

theorem namespaceReplacement_run (nodeName : Option (List Char)) {t : List Char}
    (ht : IsNamespace t) :
    (parseRemapNamespaceReplacement nodeName).run ("__ns:=".toList ++ t) =
      .ok (⟨namespaceRemap, nodeName, none, some t⟩, []) := by
  obtain ⟨ts, t', hts, ht', rfl⟩ := ht
  have htokens : parseRemapFullyQualifiedNamespace.run ('/' :: (slashed ts ++ t')) =
      .ok ((), []) := by
    have hslash : (expectInRule .forwardSlash).run ('/' :: (slashed ts ++ t')) =
        .ok (some ['/'], slashed ts ++ t') := expectInRule_keyword (w := ['/']) (lexed_slash _)
    rw [parseRemapFullyQualifiedNamespace, run_bind_ok hslash, run_bind_ok (getText_text _)]
    exact namespaceTokens_of_isToken hts ht' (Nat.lt_succ_self _)
  have hns := expectInRule_keyword (lexed_ns (":=".toList ++ '/' :: (slashed ts ++ t')))
  have heof : (expect .eof).run ([] : List Char) = .ok (.ok [], []) := rfl
  show (parseRemapNamespaceReplacement nodeName).run ("__ns".toList ++ (":=".toList ++ _)) = _
  rw [parseRemapNamespaceReplacement, run_bind_ok hns, run_bind_ok (separator_run _),
    run_bind_ok (getText_text _), run_bind_ok htokens, run_bind_ok heof]
  show Except.ok (RemapImpl.mk _ _ _ (some (textBetween _ [])), []) = _
  simp [textBetween]

/-- **A namespace rule on any text.** -/
theorem namespaceReplacement_cases (nodeName : Option (List Char)) (r : List Char) :
    (∃ t, IsNamespace t ∧ r = "__ns:=".toList ++ t ∧
      (parseRemapNamespaceReplacement nodeName).run r =
        .ok (⟨namespaceRemap, nodeName, none, some t⟩, [])) ∨
    (∃ r', r = "__ns:=/".toList ++ r' ∧
      (parseRemapNamespaceReplacement nodeName).run r = .error .wrongLexeme) ∨
    (parseRemapNamespaceReplacement nodeName).run r = .error .invalidRemapRule := by
  obtain ⟨r₁, rfl, h₁⟩ | h₁ := expectInRule_cases (x := .ns) (w := "__ns".toList) r (by decide)
    (by decide)
  swap
  · exact .inr (.inr (run_bind_error h₁))
  obtain ⟨r₂, rfl, h₂⟩ | h₂ := expectInRule_cases (x := .separator) (w := ":=".toList) r₁
    (by decide) (by decide)
  swap
  · rw [parseRemapNamespaceReplacement, run_bind_ok h₁, run_bind_error h₂]
    exact .inr (.inr rfl)
  obtain ⟨r₃, rfl, h₃⟩ | h₃ := expectInRule_cases (x := .forwardSlash) (w := ['/']) r₂
    (by decide) (by decide)
  swap
  · have hq : parseRemapFullyQualifiedNamespace.run r₂ = .error .invalidRemapRule := by
      rw [parseRemapFullyQualifiedNamespace, run_bind_error h₃]
    rw [parseRemapNamespaceReplacement, run_bind_ok h₁, run_bind_ok h₂,
      run_bind_ok (getText_text _), run_bind_error hq]
    exact .inr (.inr rfl)
  obtain ⟨ts, t, r₄, hts, ht, heq, hrun⟩ := namespaceTokens_cases (Nat.lt_succ_self r₃.length)
  have hq : parseRemapFullyQualifiedNamespace.run (['/'] ++ r₃) = .ok ((), r₄) := by
    rw [parseRemapFullyQualifiedNamespace, run_bind_ok h₃, run_bind_ok (getText_text _)]
    exact hrun
  by_cases hl : (lexed r₄).1 = .eof
  · obtain rfl : r₄ = [] := (lexed_eof_iff r₄).1 hl
    have hns : IsNamespace (['/'] ++ r₃) := ⟨ts, t, hts, ht, by rw [heq, List.append_nil]; rfl⟩
    exact .inl ⟨_, hns, rfl, namespaceReplacement_run nodeName hns⟩
  · have he := expect_text .eof r₄
    rw [if_pos (Ne.symm hl)] at he
    refine .inr (.inl ⟨r₃, rfl, ?_⟩)
    rw [parseRemapNamespaceReplacement, run_bind_ok h₁, run_bind_ok h₂,
      run_bind_ok (getText_text _), run_bind_ok hq, run_bind_ok he]
    rfl

/-! ## node name rules -/

theorem nodenameReplacement_run (nodeName : Option (List Char)) {t r : List Char}
    (h : lexed (t ++ r) = (.token, t.length)) :
    (parseRemapNodenameReplacement nodeName).run ("__node:=".toList ++ (t ++ r)) =
      .ok (⟨nodenameRemap, nodeName, none, some t⟩, r) := by
  have he := expect_text .token (t ++ r)
  rw [h, if_neg (not_not.2 rfl)] at he
  simp only [List.take_left, List.drop_left] at he
  show (parseRemapNodenameReplacement nodeName).run ("__node".toList ++ (":=".toList ++ _)) = _
  rw [parseRemapNodenameReplacement, run_bind_ok (expectInRule_keyword (lexed_node _)),
    run_bind_ok (separator_run _), run_bind_ok he]
  rfl

theorem nodenameReplacement_cases (nodeName : Option (List Char)) (r : List Char) :
    (∃ t r', IsToken t ∧ r = "__node:=".toList ++ (t ++ r') ∧
      (parseRemapNodenameReplacement nodeName).run r =
        .ok (⟨nodenameRemap, nodeName, none, some t⟩, r')) ∨
    (parseRemapNodenameReplacement nodeName).run r = .error .invalidRemapRule := by
  obtain ⟨r₁, rfl, h₁⟩ | h₁ := expectInRule_cases (x := .node) (w := "__node".toList) r (by decide)
    (by decide)
  swap
  · exact .inr (run_bind_error h₁)
  obtain ⟨r₂, rfl, h₂⟩ | h₂ := expectInRule_cases (x := .separator) (w := ":=".toList) r₁
    (by decide) (by decide)
  swap
  · rw [parseRemapNodenameReplacement, run_bind_ok h₁, run_bind_error h₂]
    exact .inr rfl
  have he := expect_text .token r₂
  by_cases hl : Lexeme.token = (lexed r₂).1
  · rw [if_neg (not_not.2 hl)] at he
    have htoken := lexed_token_inv hl.symm
    refine .inl ⟨r₂.take (lexed r₂).2, r₂.drop (lexed r₂).2, htoken, ?_, ?_⟩
    · rw [List.take_append_drop]
      rfl
    · rw [parseRemapNodenameReplacement, run_bind_ok h₁, run_bind_ok h₂, run_bind_ok he]
      rfl
  · rw [if_pos hl] at he
    rw [parseRemapNodenameReplacement, run_bind_ok h₁, run_bind_ok h₂, run_bind_ok he]
    exact .inr rfl

/-! ## rules -/

/-- the rule behind the prefix, up to the end of the text -/
def parseRemapRest (nodeName : Option (List Char)) : StateT (List Char) (Except Ret) RemapImpl := do
  let rule ← parseRemapBody nodeName
  match ← expect .eof with
  | .error .wrongLexeme => throw .invalidRemapRule
  | .error r => throw r
  | .ok _ => return rule

theorem rest_of_body_error {nodeName : Option (List Char)} {r : List Char} {e : Ret}
    (h : (parseRemapBody nodeName).run r = .error e) :
    (parseRemapRest nodeName).run r = .error e := run_bind_error h

theorem rest_of_body_ok {nodeName : Option (List Char)} {r r' : List Char} {rule : RemapImpl}
    (h : (parseRemapBody nodeName).run r = .ok (rule, r')) :
    (parseRemapRest nodeName).run r = if r' = [] then .ok (rule, []) else
      .error .invalidRemapRule := by
  rw [parseRemapRest, run_bind_ok h]
  have he := expect_text .eof r'
  by_cases hr : r' = []
  · subst hr
    rfl
  · have hl : (lexed r').1 ≠ .eof := fun h => hr ((lexed_eof_iff r').1 h)
    rw [if_pos hl.symm] at he
    rw [if_neg hr, run_bind_ok he]
    rfl

theorem body_run (nodeName : Option (List Char)) (r : List Char) :
    (parseRemapBody nodeName).run r =
      if (lexed r).1 = .node then (parseRemapNodenameReplacement nodeName).run r
      else if (lexed r).1 = .ns then (parseRemapNamespaceReplacement nodeName).run r
      else (parseRemapNameRemap nodeName).run r := by
  rw [parseRemapBody, run_bind_ok (peek_text r)]
  split
  · rfl
  split
  · rfl
  · rfl

theorem assemble_name (nodeName : Option (List Char)) {url : List Char × Nat}
    (hurl : url ∈ urlSchemes) (t u : List Char) :
    RemapImpl.assemble ⟨url.2, nodeName, some t, some u⟩ =
      nodePrefix nodeName ++ (url.1 ++ (t ++ (":=".toList ++ u))) := by
  simp only [urlSchemes, List.mem_cons, List.not_mem_nil, or_false] at hurl
  obtain rfl | rfl | rfl := hurl
  · rfl
  · rfl
  · rfl

/-- **The rest of a rule on any text.** -/
theorem rest_cases (nodeName : Option (List Char)) (r : List Char) :
    (∃ rule, RuleBody r ∧ rule.assemble = nodePrefix nodeName ++ r ∧
      (parseRemapRest nodeName).run r = .ok (rule, [])) ∨
    (UnimplementedBody r ∧ (parseRemapRest nodeName).run r = .error .error) ∨
    (∃ r', r = "__ns:=/".toList ++ r' ∧
      (parseRemapRest nodeName).run r = .error .wrongLexeme) ∨
    (parseRemapRest nodeName).run r = .error .invalidRemapRule := by
  have hbody := body_run nodeName r
  by_cases hnode : (lexed r).1 = .node
  · rw [if_pos hnode] at hbody
    obtain ⟨t, r', ht, rfl, hrun⟩ | hrun := nodenameReplacement_cases nodeName r
    · rw [rest_of_body_ok (hbody.trans hrun)]
      by_cases hr : r' = []
      · subst hr
        rw [if_pos rfl, List.append_nil]
        exact .inl ⟨_, .node ht, rfl, rfl⟩
      · rw [if_neg hr]
        exact .inr (.inr (.inr rfl))
    · exact .inr (.inr (.inr (rest_of_body_error (hbody.trans hrun))))
  rw [if_neg hnode] at hbody
  by_cases hns : (lexed r).1 = .ns
  · rw [if_pos hns] at hbody
    obtain ⟨t, ht, rfl, hrun⟩ | ⟨r', rfl, hrun⟩ | hrun := namespaceReplacement_cases nodeName r
    · refine .inl ⟨⟨namespaceRemap, nodeName, none, some t⟩, .ns ht, rfl, ?_⟩
      rw [rest_of_body_ok (hbody.trans hrun), if_pos rfl]
    · exact .inr (.inr (.inl ⟨r', rfl, rest_of_body_error (hbody.trans hrun)⟩))
    · exact .inr (.inr (.inr (rest_of_body_error (hbody.trans hrun))))
  rw [if_neg hns] at hbody
  obtain ⟨url, t, u, hurl, ht, hu, rfl, hrun⟩ | ⟨hun, hrun⟩ | hrun := nameRemap_cases nodeName r
  · refine .inl ⟨_, .name hurl ht hu, assemble_name nodeName hurl t u, ?_⟩
    rw [rest_of_body_ok (hbody.trans hrun), if_pos rfl]
  · exact .inr (.inl ⟨hun, rest_of_body_error (hbody.trans hrun)⟩)
  · exact .inr (.inr (.inr (rest_of_body_error (hbody.trans hrun))))

/-! ## the prefix -/

/-- the text of a rule without a prefix: it does not look like a prefix, and does not make the
prefix before it another lexeme -/
structure Unprefixed (r : List Char) : Prop where
  notPrefix : ¬ ((lexed r).1 = .token ∧ (lexed (r.drop (lexed r).2)).1 = .colon)
  notSlashes : ¬ "//".toList <+: r
  notEquals : r.head? ≠ some '='

theorem Unprefixed.of_lexed {r : List Char} (h : (lexed r).1 ≠ .token)
    (hs : ¬ "//".toList <+: r) (he : r.head? ≠ some '=') : Unprefixed r :=
  ⟨fun ht => h ht.1, hs, he⟩

theorem length_le_of_not_cutShort {r : List Char} (h : r ∉ cutShort) :
    (lexed r).2 ≤ r.length := by
  unfold lexed
  rw [if_neg h]
  exact lexemeOf_length_le r

/-- what `parseRemapOptionalPrefix` does with a text that does not begin with a prefix -/
theorem prefix_run_none {arg : List Char} (hcut : arg ∉ cutShort)
    (h : ¬ ((lexed arg).1 = .token ∧ (lexed (arg.drop (lexed arg).2)).1 = .colon)) :
    parseRemapOptionalPrefix.run arg = .ok (none, arg) := by
  have hp := peek2_text arg
  rw [if_pos (length_le_of_not_cutShort hcut)] at hp
  rw [parseRemapOptionalPrefix, run_bind_ok hp]
  simp only [if_neg h]
  rfl

/-- what it does with one that does -/
theorem prefix_run_some {arg r : List Char} (hcut : arg ∉ cutShort)
    (ht : (lexed arg).1 = .token) (hdrop : arg.drop (lexed arg).2 = ':' :: r)
    (hc : lexed (':' :: r) = (.colon, 1)) :
    parseRemapOptionalPrefix.run arg = .ok (some (arg.take (lexed arg).2), r) := by
  have hp := peek2_text arg
  rw [if_pos (length_le_of_not_cutShort hcut)] at hp
  have htoken : (expectInRule .token).run arg =
      .ok (some (arg.take (lexed arg).2), ':' :: r) := by
    rw [expectInRule_run, if_neg (not_not.2 ht.symm), hdrop]
  have hcolon : (expectInRule .colon).run (':' :: r) = .ok (some [':'], r) :=
    expectInRule_keyword (w := [':']) hc
  have hprefix : parseRemapNodenamePrefix.run arg = .ok (arg.take (lexed arg).2, r) := by
    rw [parseRemapNodenamePrefix, run_bind_ok htoken, run_bind_ok hcolon]
    rfl
  rw [parseRemapOptionalPrefix, run_bind_ok hp]
  simp only [ht, hdrop, hc, and_self, if_true]
  rw [run_bind_ok hprefix]
  rfl

/-- **The prefix on any text.** -/
theorem prefix_cases {arg : List Char} (hcut : arg ∉ cutShort) :
    ∃ nodeName r, NodeOk nodeName ∧ arg = nodePrefix nodeName ++ r ∧
      parseRemapOptionalPrefix.run arg = .ok (nodeName, r) := by
  by_cases h : (lexed arg).1 = .token ∧ (lexed (arg.drop (lexed arg).2)).1 = .colon
  swap
  · exact ⟨none, arg, fun t ht => (by cases ht), rfl, prefix_run_none hcut h⟩
  obtain ⟨r, hr, hl⟩ := lexed_eq_of_type (w := [':']) h.2 (by decide) (by decide)
  have hl' : lexed (':' :: r) = (.colon, 1) := by
    rw [← show _ = ':' :: r from hr]
    exact hl
  refine ⟨some (arg.take (lexed arg).2), r, ?_, ?_, prefix_run_some hcut h.1 hr hl'⟩
  · rintro t ⟨⟩
    exact lexed_token_inv h.1
  · conv_lhs => rw [← List.take_append_drop (lexed arg).2 arg, hr]
    simp [nodePrefix]

/-- the prefix of a text of the grammar -/
theorem prefix_run {nodeName : Option (List Char)} {r : List Char} (hn : NodeOk nodeName)
    (hr : Unprefixed r) (hcut : nodePrefix nodeName ++ r ∉ cutShort) :
    parseRemapOptionalPrefix.run (nodePrefix nodeName ++ r) = .ok (nodeName, r) := by
  cases nodeName with
  | none => exact prefix_run_none hcut hr.notPrefix
  | some t =>
    have heq : nodePrefix (some t) ++ r = t ++ ':' :: r := by simp [nodePrefix]
    rw [heq] at hcut ⊢
    have hurl : ¬ "://".toList <+: ':' :: r := by
      rintro ⟨z, hz⟩
      exact hr.notSlashes ⟨z, (List.cons.inj hz).2⟩
    have hl := lexed_token_append (hn t rfl) (ends_cons r (by decide) (by decide)) hurl
    have h := prefix_run_some hcut (by rw [hl]) (by rw [hl, List.drop_left])
      (lexed_colon hr.notEquals)
    rw [h, hl, List.take_left]

/-! ## the texts of the grammar -/

theorem IsToken.head_ne {t r : List Char} (h : IsToken t) {c : Char} (hc : isLetter c = false)
    (hc' : c ≠ '_') : (t ++ r).head? ≠ some c := by
  obtain ⟨d, cs, rfl, hd, -⟩ := h.eq_cons
  intro hdc
  obtain rfl := Option.some.inj hdc
  exact hd.elim (by simp [hc]) hc'

theorem not_slashes_of_head {r : List Char} (h : r.head? ≠ some '/') : ¬ "//".toList <+: r := by
  rintro ⟨z, rfl⟩
  exact h rfl

theorem unprefixed_token {t r : List Char} (ht : IsToken t) (hr : Ends r)
    (hurl : ¬ "://".toList <+: r) (hl : (lexed r).1 ≠ .colon) : Unprefixed (t ++ r) := by
  refine ⟨fun h => hl ?_, not_slashes_of_head (ht.head_ne (by decide) (by decide)),
    ht.head_ne (by decide) (by decide)⟩
  have h₂ := h.2
  rw [lexed_token_append ht hr hurl] at h₂
  simpa using h₂

theorem unprefixed_part {part r : List Char} (hp : NamePart part) (hr : Unprefixed r)
    (hslash : r.head? ≠ some '/') : Unprefixed (part ++ r) := by
  obtain ⟨start, hstart, ts, hts, rfl⟩ := hp
  have hhead : (slashed ts ++ r).head? ≠ some '/' := by
    cases ts with
    | nil => exact hslash
    | cons t ts =>
      have heq : slashed (t :: ts) ++ r = t ++ '/' :: (slashed ts ++ r) := by simp [slashed]
      rw [heq]
      exact (hts t List.mem_cons_self).head_ne (by decide) (by decide)
  simp only [List.mem_cons, List.not_mem_nil, or_false] at hstart
  obtain rfl | rfl | rfl := hstart
  · show Unprefixed (slashed ts ++ r)
    cases ts with
    | nil => exact hr
    | cons t ts =>
      have heq : slashed (t :: ts) ++ r = t ++ '/' :: (slashed ts ++ r) := by simp [slashed]
      rw [heq]
      exact unprefixed_token (hts t List.mem_cons_self) (ends_slash _) (by simp)
        (by simp [lexed_slash])
  · refine .of_lexed ?_ ?_ ?_
    · show (lexed ('/' :: _)).1 ≠ _
      simp [lexed_slash]
    · rintro ⟨z, hz⟩
      refine hhead ?_
      rw [← show _ = slashed ts ++ r from (List.cons.inj hz).2]
      rfl
    · intro h
      cases h
  · refine .of_lexed ?_ (not_slashes_of_head fun h => (by cases h)) fun h => (by cases h)
    show (lexed ('~' :: '/' :: _)).1 ≠ _
    simp [lexed_tildeSlash]

theorem unprefixed_url {url : List Char × Nat} (hurl : url ∈ urlSchemes) {r : List Char}
    (hr : Unprefixed r) : Unprefixed (url.1 ++ r) := by
  simp only [urlSchemes, List.mem_cons, List.not_mem_nil, or_false] at hurl
  obtain rfl | rfl | rfl := hurl
  · exact hr
  · refine .of_lexed ?_ (not_slashes_of_head fun h => (by cases h)) fun h => (by cases h)
    rw [lexed_urlTopic]
    decide
  · refine .of_lexed ?_ (not_slashes_of_head fun h => (by cases h)) fun h => (by cases h)
    rw [lexed_urlService]
    decide

theorem unprefixed_isName {t r : List Char} (ht : IsName t) : Unprefixed (t ++ (":=".toList ++ r)) := by
  obtain ⟨part, t, hp, ht, rfl⟩ := ht
  rw [List.append_assoc]
  refine unprefixed_part hp ?_ (ht.head_ne (by decide) (by decide))
  refine unprefixed_token ht (ends_separator r) (separator_not_url r) ?_
  rw [show lexed (":=".toList ++ r) = _ from lexed_separator r]
  decide

theorem unprefixed_unimplemented {r : List Char} (h : UnimplementedBody r) : Unprefixed r := by
  cases h with
  | @wildcard url part rest hurl hp =>
    have hne : ∀ x ∈ wildcards, x ≠ .token := by decide
    refine unprefixed_url hurl (unprefixed_part hp ?_ fun h => (by cases h))
    exact .of_lexed (hne _ (lexed_star rest)) (not_slashes_of_head fun h => (by cases h))
      fun h => (by cases h)
  | backReference hurl ht hp hd => exact unprefixed_url hurl (unprefixed_isName ht)

theorem unprefixed_body {r : List Char} (h : RuleBody r) : Unprefixed r := by
  cases h with
  | @node t ht =>
    refine .of_lexed ?_ (not_slashes_of_head fun h => (by cases h)) fun h => (by cases h)
    rw [show lexed ("__node:=".toList ++ t) = _ from lexed_node (":=".toList ++ t)]
    decide
  | @ns t ht =>
    refine .of_lexed ?_ (not_slashes_of_head fun h => (by cases h)) fun h => (by cases h)
    rw [show lexed ("__ns:=".toList ++ t) = _ from lexed_ns (":=".toList ++ t)]
    decide
  | name hurl ht hu => exact unprefixed_url hurl (unprefixed_isName ht)

theorem body_run_name (nodeName : Option (List Char)) {url : List Char × Nat}
    (hurl : url ∈ urlSchemes) {r : List Char} (hr : (lexed r).1 ≠ .node ∧ (lexed r).1 ≠ .ns) :
    (parseRemapBody nodeName).run (url.1 ++ r) =
      (parseRemapNameRemap nodeName).run (url.1 ++ r) := by
  have hl : (lexed (url.1 ++ r)).1 ≠ .node ∧ (lexed (url.1 ++ r)).1 ≠ .ns := by
    simp only [urlSchemes, List.mem_cons, List.not_mem_nil, or_false] at hurl
    obtain rfl | rfl | rfl := hurl
    · exact hr
    · rw [lexed_urlTopic]
      decide
    · rw [lexed_urlService]
      decide
  rw [body_run, if_neg hl.1, if_neg hl.2]

theorem rest_of_ruleBody (nodeName : Option (List Char)) {r : List Char} (h : RuleBody r) :
    ∃ rule, (parseRemapRest nodeName).run r = .ok (rule, []) := by
  cases h with
  | @node t ht =>
    have hl : lexed (t ++ []) = (.token, t.length) := lexed_token_append ht ends_nil (by decide)
    have hrun := nodenameReplacement_run nodeName hl
    rw [List.append_nil] at hrun
    have hbody := body_run nodeName ("__node:=".toList ++ t)
    rw [show lexed ("__node:=".toList ++ t) = _ from lexed_node (":=".toList ++ t), if_pos rfl]
      at hbody
    exact ⟨_, (rest_of_body_ok (hbody.trans hrun)).trans (if_pos rfl)⟩
  | @ns t ht =>
    have hbody := body_run nodeName ("__ns:=".toList ++ t)
    rw [show lexed ("__ns:=".toList ++ t) = _ from lexed_ns (":=".toList ++ t),
      if_neg (by decide), if_pos rfl] at hbody
    have hrun := namespaceReplacement_run nodeName ht
    exact ⟨_, (rest_of_body_ok (hbody.trans hrun)).trans (if_pos rfl)⟩
  | @name url t u hurl ht hu =>
    have hne : ∀ x ∈ [Lexeme.token, .forwardSlash, .tildeSlash], x ≠ .node ∧ x ≠ .ns := by decide
    have hl := hne _ (lexed_isName ht (ends_separator u) (separator_not_url u))
    have hrun := (body_run_name nodeName hurl hl).trans (nameRemap_run nodeName hurl ht hu)
    exact ⟨_, (rest_of_body_ok hrun).trans (if_pos rfl)⟩

theorem rest_of_unimplemented (nodeName : Option (List Char)) {r : List Char}
    (h : UnimplementedBody r) : (parseRemapRest nodeName).run r = .error .error := by
  have hrun := nameRemap_unimplemented nodeName h
  cases h with
  | @wildcard url part rest hurl hp =>
    have hne : ∀ x ∈ [Lexeme.token, .forwardSlash, .tildeSlash] ++ wildcards,
        x ≠ .node ∧ x ≠ .ns := by decide
    have hl : (lexed (part ++ '*' :: rest)).1 ≠ .node ∧ (lexed (part ++ '*' :: rest)).1 ≠ .ns := by
      obtain rfl | hl := lexed_part hp ('*' :: rest)
      · exact hne _ (List.mem_append_right _ (lexed_star rest))
      · exact hne _ (List.mem_append_left _ hl)
    exact rest_of_body_error ((body_run_name nodeName hurl hl).trans hrun)
  | @backReference url t part rest d hurl ht hp hd =>
    have hne : ∀ x ∈ [Lexeme.token, .forwardSlash, .tildeSlash], x ≠ .node ∧ x ≠ .ns := by decide
    have hl := hne _ (lexed_isName ht (ends_separator (part ++ '\\' :: d :: rest))
      (separator_not_url _))
    exact rest_of_body_error ((body_run_name nodeName hurl hl).trans hrun)

/-! ## the whole rule -/

theorem parseRemapRule_of_prefixed {arg r : List Char} {nodeName : Option (List Char)}
    (h : parseRemapOptionalPrefix.run arg = .ok (nodeName, r)) :
    parseRemapRule arg = (·.1) <$> (parseRemapRest nodeName).run r := by
  rw [parseRemapRule_eq]
  congr 1
  exact run_bind_ok h

theorem parseRemapRule_of_isRemapRule {arg : List Char} (hcut : arg ∉ cutShort)
    (h : IsRemapRule arg) : ∃ rule, parseRemapRule arg = .ok rule := by
  obtain ⟨nodeName, body, hn, hb, rfl⟩ := h
  obtain ⟨rule, hrun⟩ := rest_of_ruleBody nodeName hb
  refine ⟨rule, ?_⟩
  rw [parseRemapRule_of_prefixed (prefix_run hn (unprefixed_body hb) hcut), hrun]
  rfl

theorem parseRemapRule_of_isUnimplemented {arg : List Char} (hcut : arg ∉ cutShort)
    (h : IsUnimplemented arg) : parseRemapRule arg = .error .error := by
  obtain ⟨nodeName, body, hn, hb, rfl⟩ := h
  rw [parseRemapRule_of_prefixed (prefix_run hn (unprefixed_unimplemented hb) hcut),
    rest_of_unimplemented nodeName hb]
  rfl

theorem parseRemapRule_cases {arg : List Char} (hcut : arg ∉ cutShort) :
    (∃ rule, IsRemapRule arg ∧ rule.assemble = arg ∧ parseRemapRule arg = .ok rule) ∨
    (IsUnimplemented arg ∧ parseRemapRule arg = .error .error) ∨
    (BeginsNamespace arg ∧ parseRemapRule arg = .error .wrongLexeme) ∨
    parseRemapRule arg = .error .invalidRemapRule := by
  obtain ⟨nodeName, r, hn, rfl, hp⟩ := prefix_cases hcut
  rw [parseRemapRule_of_prefixed hp]
  obtain ⟨rule, hb, ha, hrun⟩ | ⟨hb, hrun⟩ | ⟨r', rfl, hrun⟩ | hrun := rest_cases nodeName r
  · exact .inl ⟨rule, ⟨nodeName, r, hn, hb, rfl⟩, ha, by rw [hrun]; rfl⟩
  · exact .inr (.inl ⟨⟨nodeName, r, hn, hb, rfl⟩, by rw [hrun]; rfl⟩)
  · exact .inr (.inr (.inl ⟨⟨nodeName, r', hn, rfl⟩, by rw [hrun]; rfl⟩))
  · exact .inr (.inr (.inr (by rw [hrun]; rfl)))

/-- **The parser accepts exactly the grammar, and the rule keeps the whole argument.**  Wildcards
and back references are not implemented; a namespace rule with something behind its namespace and
the texts `cutShort` are left open. -/
theorem parseRemapRule_spec (arg : List Char) : arg ∈ cutShort ∨
    ((∃ rule, parseRemapRule arg = .ok rule) ↔ IsRemapRule arg) ∧
    (∀ rule, parseRemapRule arg = .ok rule → rule.assemble = arg) ∧
    (parseRemapRule arg = .error .error ↔ IsUnimplemented arg) ∧
    (IsRemapRule arg ∨ IsUnimplemented arg ∨ BeginsNamespace arg ∨
      parseRemapRule arg = .error .invalidRemapRule) := by
  by_cases hcut : arg ∈ cutShort
  · exact .inl hcut
  refine .inr ⟨⟨?_, parseRemapRule_of_isRemapRule hcut⟩, ?_,
    ⟨?_, parseRemapRule_of_isUnimplemented hcut⟩, ?_⟩
  · rintro ⟨rule, hrule⟩
    obtain ⟨_, h, -⟩ | ⟨-, h⟩ | ⟨-, h⟩ | h := parseRemapRule_cases hcut
    · exact h
    all_goals exact absurd (h.symm.trans hrule) (by simp)
  · intro rule hrule
    obtain ⟨rule', -, ha, h⟩ | ⟨-, h⟩ | ⟨-, h⟩ | h := parseRemapRule_cases hcut
    · obtain rfl := Except.ok.inj (h.symm.trans hrule)
      exact ha
    all_goals exact absurd (h.symm.trans hrule) (by simp)
  · intro herror
    obtain ⟨_, -, -, h⟩ | ⟨h, -⟩ | ⟨-, h⟩ | h := parseRemapRule_cases hcut
    · exact absurd (h.symm.trans herror) (by simp)
    · exact h
    all_goals exact absurd (h.symm.trans herror) (by simp)
  · obtain ⟨_, h, -⟩ | ⟨h, -⟩ | ⟨h, -⟩ | h := parseRemapRule_cases hcut
    · exact .inl h
    · exact .inr (.inl h)
    · exact .inr (.inr (.inl h))
    · exact .inr (.inr (.inr h))

/-- a wildcard gives neither a rule nor `RCL_RET_INVALID_REMAP_RULE` -/
theorem wildcard_is_not_invalid : parseRemapRule "*:=foo".toList = .error .error ∧
    parseRemapRule "*:=foo".toList ≠ .error .invalidRemapRule := by
  decide

end PMROS2.Remap
