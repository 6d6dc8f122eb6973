import PMROS2.Remap.RuleGrammar

/-!
# Parsing names on the text

What the productions for names do with a text, in both directions: `name_cases` for any text,
`name_run_of_isName` and `name_run_of_unimplemented` for the texts of the grammar.
-/

namespace PMROS2.Remap

open Simulation

/-! ## one step -/

theorem token_run (u : List Lexeme) (r : List Char) :
    (parseRemapToken u).run r =
      if (lexed r).1 = .token then .ok ((), r.drop (lexed r).2)
      else if (lexed r).1 ∈ u then .error .error else .error .invalidRemapRule := by
  rw [parseRemapToken, StateT.run_bind, peek_text]
  show StateT.run (ite _ _ _) r = _
  split
  · rfl
  split
  · rfl
  · rfl

theorem expectInRule_run (type : Lexeme) (r : List Char) :
    (expectInRule type).run r =
      if type ≠ (lexed r).1 then .error .invalidRemapRule
      else .ok (some (r.take (lexed r).2), r.drop (lexed r).2) := by
  rw [expectInRule, StateT.run_bind, expect_text]
  split
  · rfl
  · rfl

def tokenTokens (stop : Lexeme) (u : List Lexeme) (fuel : Nat) :
    StateT (List Char) (Except Ret) Unit := do
  parseRemapToken u
  parseRemapTokens stop (parseRemapToken u) fuel

theorem tokenTokens_run (stop : Lexeme) (u : List Lexeme) (fuel : Nat) (r : List Char) :
    (tokenTokens stop u fuel).run r =
      if (lexed r).1 = .token then
        (parseRemapTokens stop (parseRemapToken u) fuel).run (r.drop (lexed r).2)
      else if (lexed r).1 ∈ u then .error .error else .error .invalidRemapRule := by
  rw [tokenTokens, StateT.run_bind, token_run]
  split
  · rfl
  split
  · rfl
  · rfl

theorem tokens_run (stop : Lexeme) (u : List Lexeme) (fuel : Nat) (r : List Char) :
    (parseRemapTokens stop (parseRemapToken u) (fuel + 1)).run r =
      if (lexed r).1 = stop then .ok ((), r)
      else if Lexeme.forwardSlash ≠ (lexed r).1 then .error .invalidRemapRule
      else (tokenTokens stop u fuel).run (r.drop (lexed r).2) := by
  rw [parseRemapTokens, StateT.run_bind, peek_text]
  show StateT.run (ite _ _ _) r = _
  split
  · rfl
  rw [StateT.run_bind, expectInRule_run]
  split
  · rfl
  · rfl

/-! ## the loop -/

/-- the loop behind the next token has enough fuel -/
def Fuelled (fuel : Nat) (r : List Char) : Prop := (r.drop (lexed r).2).length < fuel

theorem fuelled_of_length_lt {fuel : Nat} {r : List Char} (h : r.length < fuel) :
    Fuelled fuel r := by
  unfold Fuelled
  rw [List.length_drop]
  omega

section
variable {stop : Lexeme} {u : List Lexeme} {fuel : Nat} {t r : List Char}

theorem ends_slash (r : List Char) : Ends ('/' :: r) := ends_cons r (by decide) (by decide)

theorem tokenTokens_slash (hstop : stop ≠ .forwardSlash) (ht : IsToken t)
    (hf : Fuelled fuel (t ++ '/' :: r)) :
    ∃ fuel', r.length < fuel' ∧
      (tokenTokens stop u fuel).run (t ++ '/' :: r) = (tokenTokens stop u fuel').run r := by
  have hl := lexed_token_append ht (ends_slash r) (by simp)
  rw [Fuelled, hl] at hf
  simp only [List.drop_left, List.length_cons] at hf
  obtain ⟨f, rfl⟩ : ∃ f, fuel = f + 1 := ⟨fuel - 1, by omega⟩
  refine ⟨f, by omega, ?_⟩
  rw [tokenTokens_run, hl, if_pos rfl]
  simp only [List.drop_left]
  rw [tokens_run, lexed_slash, if_neg hstop.symm, if_neg (not_not.2 rfl)]
  rfl

theorem tokenTokens_slashed (hstop : stop ≠ .forwardSlash) {ts : List (List Char)}
    (hts : ∀ x ∈ ts, IsToken x) (hf : Fuelled fuel (slashed ts ++ r)) :
    ∃ fuel', Fuelled fuel' r ∧
      (tokenTokens stop u fuel).run (slashed ts ++ r) = (tokenTokens stop u fuel').run r := by
  induction ts generalizing fuel with
  | nil => exact ⟨fuel, hf, rfl⟩
  | cons t ts ih =>
    have heq : slashed (t :: ts) ++ r = t ++ '/' :: (slashed ts ++ r) := by simp [slashed]
    rw [heq] at hf ⊢
    obtain ⟨f, hlt, hrun⟩ := tokenTokens_slash (u := u) hstop (hts t List.mem_cons_self) hf
    obtain ⟨f', hf', hrun'⟩ := ih (fun x hx => hts x (List.mem_cons_of_mem t hx))
      (fuelled_of_length_lt hlt)
    exact ⟨f', hf', hrun.trans hrun'⟩

theorem tokenTokens_last (ht : IsToken t) (hr : Ends r) (hurl : ¬ "://".toList <+: r)
    (hl : (lexed r).1 = stop) (hf : Fuelled fuel (t ++ r)) :
    (tokenTokens stop u fuel).run (t ++ r) = .ok ((), r) := by
  have hlt := lexed_token_append ht hr hurl
  rw [Fuelled, hlt] at hf
  simp only [List.drop_left] at hf
  obtain ⟨f, rfl⟩ : ∃ f, fuel = f + 1 := ⟨fuel - 1, by omega⟩
  rw [tokenTokens_run, hlt, if_pos rfl]
  simp only [List.drop_left]
  rw [tokens_run, if_pos hl]

/-- **A name on any text**: its tokens up to `stop`, a lexeme that is not implemented, or
something else. -/
theorem tokenTokens_cases (stop : Lexeme) (u : List Lexeme) (hf : Fuelled fuel r) :
    (∃ ts t r', (∀ x ∈ ts, IsToken x) ∧ IsToken t ∧ r = slashed ts ++ (t ++ r') ∧
      (lexed r').1 = stop ∧ (tokenTokens stop u fuel).run r = .ok ((), r')) ∨
    (∃ ts r', (∀ x ∈ ts, IsToken x) ∧ r = slashed ts ++ r' ∧ (lexed r').1 ∈ u ∧
      (tokenTokens stop u fuel).run r = .error .error) ∨
    (tokenTokens stop u fuel).run r = .error .invalidRemapRule := by
  induction fuel generalizing r with
  | zero => exact absurd hf (Nat.not_lt_zero _)
  | succ fuel ih =>
    rw [tokenTokens_run]
    by_cases ht : (lexed r).1 = .token
    swap
    · rw [if_neg ht]
      by_cases hu : (lexed r).1 ∈ u
      · exact .inr (.inl ⟨[], r, by simp, rfl, hu, if_pos hu⟩)
      · exact .inr (.inr (if_neg hu))
    rw [if_pos ht, tokens_run]
    have htoken := lexed_token_inv ht
    obtain ⟨t, r₁, hr, hdrop, htake⟩ : ∃ t r₁, r = t ++ r₁ ∧ r.drop (lexed r).2 = r₁ ∧
        r.take (lexed r).2 = t := ⟨_, _, (List.take_append_drop _ r).symm, rfl, rfl⟩
    rw [htake] at htoken
    rw [Fuelled, hdrop] at hf
    rw [hdrop]
    by_cases hs : (lexed r₁).1 = stop
    · refine .inl ⟨[], t, r₁, by simp, htoken, hr, hs, ?_⟩
      rw [if_pos hs]
    rw [if_neg hs]
    by_cases hslash : Lexeme.forwardSlash = (lexed r₁).1
    swap
    · rw [if_pos hslash]
      exact .inr (.inr rfl)
    rw [if_neg (not_not.2 hslash)]
    obtain ⟨r₂, rfl, hl⟩ := lexed_eq_of_type (w := ['/']) hslash.symm (by decide) (by decide)
    have hr₂ : List.drop (lexed (['/'] ++ r₂)).2 (['/'] ++ r₂) = r₂ := by rw [hl]; rfl
    have hcons : ∀ ts x, r₂ = slashed ts ++ x → r = slashed (t :: ts) ++ x := by
      rintro ts x rfl
      rw [hr]
      simp [slashed]
    rw [hr₂]
    have hf₂ : r₂.length < fuel := by simpa using hf
    obtain ⟨ts, t', r', hts, ht', heq, hl', hrun⟩ | ⟨ts, r', hts, heq, hu, hrun⟩ | hrun :=
      ih (fuelled_of_length_lt hf₂)
    · exact .inl ⟨t :: ts, t', r', List.forall_mem_cons.2 ⟨htoken, hts⟩, ht', hcons _ _ heq, hl',
        hrun⟩
    · exact .inr (.inl ⟨t :: ts, r', List.forall_mem_cons.2 ⟨htoken, hts⟩, hcons _ _ heq, hu, hrun⟩)
    · exact .inr (.inr hrun)

end

/-! ## names -/

/-- the text behind the start of a name -/
def afterStart (r : List Char) : List Char :=
  if (lexed r).1 = .tildeSlash ∨ (lexed r).1 = .forwardSlash then r.drop (lexed r).2 else r

theorem nameStart_run (r : List Char) :
    parseRemapNameStart.run r = .ok ((), afterStart r) := by
  rw [parseRemapNameStart, StateT.run_bind, peek_text]
  show StateT.run (ite _ _ _) r = _
  unfold afterStart
  split
  · rfl
  · rfl

/-- the fuel that `parseRemapName` gives to the loop -/
def nameFuel (r : List Char) : Nat := (r.drop (lexed r).2).length + 1

theorem fuelled_nameFuel (r : List Char) : Fuelled (nameFuel r) r := Nat.lt_succ_self _

theorem name_run (stop : Lexeme) (u : List Lexeme) (r : List Char) :
    (parseRemapName stop (parseRemapToken u)).run r =
      match (tokenTokens stop u (nameFuel (afterStart r))).run (afterStart r) with
      | .ok (_, r') => .ok (textBetween r r', r')
      | .error e => .error e := by
  rw [parseRemapName, run_bind_ok (getText_text r), run_bind_ok (nameStart_run r),
    tokenTokens_run]
  have htoken := token_run u (afterStart r)
  by_cases ht : (lexed (afterStart r)).1 = .token
  · rw [if_pos ht] at htoken
    rw [if_pos ht, run_bind_ok htoken, run_bind_ok (getText_text _), StateT.run_bind,
      show (List.drop (lexed (afterStart r)).2 (afterStart r)).length + 1 =
        nameFuel (afterStart r) from rfl]
    cases StateT.run (parseRemapTokens stop (parseRemapToken u) (nameFuel (afterStart r)))
      (List.drop (lexed (afterStart r)).2 (afterStart r)) <;> rfl
  · rw [if_neg ht] at htoken
    rw [if_neg ht]
    by_cases hu : (lexed (afterStart r)).1 ∈ u
    · rw [if_pos hu] at htoken
      rw [if_pos hu, run_bind_error htoken]
    · rw [if_neg hu] at htoken
      rw [if_neg hu, run_bind_error htoken]

theorem textBetween_append (m r : List Char) : textBetween (m ++ r) r = m := by
  simp [textBetween]

theorem afterStart_cases (r : List Char) :
    ∃ start ∈ ["".toList, "/".toList, "~/".toList], r = start ++ afterStart r := by
  unfold afterStart
  split
  next h =>
    obtain h | h := h
    · obtain ⟨r', rfl, hl⟩ := lexed_eq_of_type (w := "~/".toList) h (by decide) (by decide)
      refine ⟨"~/".toList, by decide, ?_⟩
      rw [hl, List.drop_left]
    · obtain ⟨r', rfl, hl⟩ := lexed_eq_of_type (w := "/".toList) h (by decide) (by decide)
      refine ⟨"/".toList, by decide, ?_⟩
      rw [hl, List.drop_left]
  next => exact ⟨"".toList, by decide, rfl⟩

/-- what begins with a lexeme that does not start a name is the text behind the start -/
theorem afterStart_append {start r : List Char}
    (hstart : start ∈ ["".toList, "/".toList, "~/".toList])
    (hr : (lexed r).1 ≠ .tildeSlash ∧ (lexed r).1 ≠ .forwardSlash) :
    afterStart (start ++ r) = r := by
  unfold afterStart
  simp only [List.mem_cons, List.not_mem_nil, or_false] at hstart
  obtain rfl | rfl | rfl := hstart
  · exact if_neg (not_or.2 hr)
  · show ite ((lexed ('/' :: r)).1 = _ ∨ (lexed ('/' :: r)).1 = _) _ _ = r
    rw [lexed_slash, if_pos (.inr rfl)]
    rfl
  · show ite ((lexed ('~' :: '/' :: r)).1 = _ ∨ (lexed ('~' :: '/' :: r)).1 = _) _ _ = r
    rw [lexed_tildeSlash, if_pos (.inl rfl)]
    rfl

theorem lexed_slashed {ts : List (List Char)} (hts : ∀ x ∈ ts, IsToken x) {r : List Char}
    (hr : (lexed r).1 ≠ .tildeSlash ∧ (lexed r).1 ≠ .forwardSlash) :
    (lexed (slashed ts ++ r)).1 ≠ .tildeSlash ∧ (lexed (slashed ts ++ r)).1 ≠ .forwardSlash := by
  cases ts with
  | nil => exact hr
  | cons t ts =>
    have heq : slashed (t :: ts) ++ r = t ++ '/' :: (slashed ts ++ r) := by simp [slashed]
    rw [heq, lexed_token_append (hts t List.mem_cons_self) (ends_slash _) (by simp)]
    simp

section
variable {stop : Lexeme} {u : List Lexeme}

/-- **A name on any text.** -/
theorem name_cases (stop : Lexeme) (u : List Lexeme) (r : List Char) :
    (∃ m r', IsName m ∧ r = m ++ r' ∧ (lexed r').1 = stop ∧
      (parseRemapName stop (parseRemapToken u)).run r = .ok (m, r')) ∨
    (∃ part r', NamePart part ∧ r = part ++ r' ∧ (lexed r').1 ∈ u ∧
      (parseRemapName stop (parseRemapToken u)).run r = .error .error) ∨
    (parseRemapName stop (parseRemapToken u)).run r = .error .invalidRemapRule := by
  rw [name_run]
  obtain ⟨start, hstart, heq⟩ := afterStart_cases r
  obtain ⟨ts, t, r', hts, ht, heq', hl, hrun⟩ | ⟨ts, r', hts, heq', hl, hrun⟩ | hrun :=
    tokenTokens_cases stop u (fuelled_nameFuel (afterStart r))
  · have hr : r = start ++ slashed ts ++ t ++ r' := by
      rw [heq, heq']
      simp
    refine .inl ⟨start ++ slashed ts ++ t, r', ⟨_, t, ⟨start, hstart, ts, hts, rfl⟩, ht, rfl⟩, hr,
      hl, ?_⟩
    rw [hrun, hr]
    simp only [textBetween_append]
  · refine .inr (.inl ⟨start ++ slashed ts, r', ⟨start, hstart, ts, hts, rfl⟩, ?_, hl, ?_⟩)
    · rw [heq, heq', List.append_assoc]
    · rw [hrun]
  · refine .inr (.inr ?_)
    rw [hrun]

theorem name_run_part {part r : List Char} (hstop : stop ≠ .forwardSlash) (hp : NamePart part)
    (hr : (lexed r).1 ≠ .tildeSlash ∧ (lexed r).1 ≠ .forwardSlash) :
    ∃ fuel, Fuelled fuel r ∧ (parseRemapName stop (parseRemapToken u)).run (part ++ r) =
      match (tokenTokens stop u fuel).run r with
      | .ok (_, r') => .ok (textBetween (part ++ r) r', r')
      | .error e => .error e := by
  obtain ⟨start, hstart, ts, hts, rfl⟩ := hp
  have ha : afterStart (start ++ slashed ts ++ r) = slashed ts ++ r := by
    rw [List.append_assoc]
    exact afterStart_append hstart (lexed_slashed hts hr)
  obtain ⟨fuel, hf, hrun⟩ := tokenTokens_slashed (u := u) hstop hts
    (fuelled_nameFuel (slashed ts ++ r))
  refine ⟨fuel, hf, ?_⟩
  rw [name_run, ha, hrun]

theorem name_run_of_isName {m r : List Char} (hstop : stop ≠ .forwardSlash) (hm : IsName m)
    (hr : Ends r) (hurl : ¬ "://".toList <+: r) (hl : (lexed r).1 = stop) :
    (parseRemapName stop (parseRemapToken u)).run (m ++ r) = .ok (m, r) := by
  obtain ⟨part, t, hp, ht, rfl⟩ := hm
  have hlt := lexed_token_append ht hr hurl
  obtain ⟨fuel, hf, hrun⟩ := name_run_part (u := u) (r := t ++ r) hstop hp (by simp [hlt])
  rw [List.append_assoc, hrun, tokenTokens_last ht hr hurl hl hf]
  simp only [← List.append_assoc, textBetween_append]

theorem name_run_of_unimplemented {part r : List Char} (hstop : stop ≠ .forwardSlash)
    (hp : NamePart part) (hu : ∀ x ∈ u, x ≠ .tildeSlash ∧ x ≠ .forwardSlash ∧ x ≠ .token)
    (hl : (lexed r).1 ∈ u) :
    (parseRemapName stop (parseRemapToken u)).run (part ++ r) = .error .error := by
  obtain ⟨h₁, h₂, h₃⟩ := hu _ hl
  obtain ⟨fuel, -, hrun⟩ := name_run_part (u := u) hstop hp ⟨h₁, h₂⟩
  rw [hrun, tokenTokens_run, if_neg h₃, if_pos hl]

end

end PMROS2.Remap
