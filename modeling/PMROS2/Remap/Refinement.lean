import PMROS2.Lib.Simulation
import PMROS2.Remap.Parser

/-!
# The parser on the buffer and on the text

The productions can be run on the bare text that is left: peeking is `lexed`, accepting drops the
lexeme.  The lookahead buffer refines this (`Stands`), and so does every production, so that a rule
is parsed as on the text (`parseRemapRule_eq`).
-/

namespace PMROS2.Remap

open Simulation

instance textLookahead : LexerLookahead (List Char) where
  getText r := r
  peek r := (.ok (lexed r).1, r)
  peek2 r :=
    if (lexed r).2 ≤ r.length then
      (.ok ((lexed r).1, (lexed (r.drop (lexed r).2)).1), r)
    else (.error .undefined, r)
  accept r := (.ok (r.take (lexed r).2), r.drop (lexed r).2)
  expect r type :=
    if type ≠ (lexed r).1 then (.error .wrongLexeme, r)
    else (.ok (r.take (lexed r).2), r.drop (lexed r).2)

/-! ## the calls on the text -/

theorem getText_text (r : List Char) : (getText (σ := List Char)).run r = .ok (r, r) := rfl

theorem peek_text (r : List Char) : (peek (σ := List Char)).run r = .ok ((lexed r).1, r) := rfl

theorem peek2_text (r : List Char) : (peek2 (σ := List Char)).run r =
    if (lexed r).2 ≤ r.length then .ok (((lexed r).1, (lexed (r.drop (lexed r).2)).1), r)
    else .error .undefined := by
  show checked (LexerLookahead.peek2 (σ := List Char)) r = _
  unfold checked
  by_cases hle : (lexed r).2 ≤ r.length
  · rw [if_pos hle, show LexerLookahead.peek2 r = (Except.ok _, r) from if_pos hle]
  · rw [if_neg hle, show LexerLookahead.peek2 r = (Except.error _, r) from if_neg hle]

theorem expect_text (type : Lexeme) (r : List Char) : (expect (σ := List Char) type).run r =
    if type ≠ (lexed r).1 then .ok (.error .wrongLexeme, r)
    else .ok (.ok (r.take (lexed r).2), r.drop (lexed r).2) := by
  show expect type r = _
  unfold expect
  by_cases ht : type = (lexed r).1
  · rw [if_neg (not_not.2 ht), show LexerLookahead.expect r type = (Except.ok _, _) from
      if_neg (not_not.2 ht)]
  · rw [if_pos ht, show LexerLookahead.expect r type = (Except.error _, _) from if_pos ht]

/-! ## the buffer and the text -/

/-- the buffer stands before the rest `r` of the text -/
def Stands (text : List Char) (b : Lookahead2) (r : List Char) : Prop :=
  ∃ c, Session.Inv text ⟨b, c⟩ ∧ position text c.accepted ≤ text.length ∧
    text.drop (position text c.accepted) = r

/-- the buffer stands before `r`, and the next lexeme has been peeked -/
def StandsPeeked (text : List Char) (x : Lexeme) (b : Lookahead2) (r : List Char) : Prop :=
  ∃ c, Session.Inv text ⟨b, c⟩ ∧ position text c.accepted ≤ text.length ∧
    text.drop (position text c.accepted) = r ∧ 0 < c.peeked ∧ (lexed r).1 = x

theorem lexed_length_le {r : List Char} (h : (lexed r).1 ≠ .none) : (lexed r).2 ≤ r.length := by
  unfold lexed at h ⊢
  split at h
  · exact absurd rfl h
  next hcut =>
    rw [if_neg hcut]
    exact lexemeOf_length_le r

section
variable {text : List Char} {b : Lookahead2} {r : List Char} {x : Lexeme}

theorem StandsPeeked.stands (h : StandsPeeked text x b r) : Stands text b r := by
  obtain ⟨c, hI, hle, hr, -⟩ := h
  exact ⟨c, hI, hle, hr⟩

theorem Stands.getText (h : Stands text b r) : LexerLookahead.getText b = r := by
  obtain ⟨c, hI, -, rfl⟩ := h
  show b.text.drop b.textIdx = _
  rw [show b.text = text from hI.text_eq, show b.textIdx = _ from hI.textIdx]

theorem Stands.peek (h : Stands text b r) :
    ∃ b', b.peek = (.ok (lexed r).1, b') ∧ StandsPeeked text (lexed r).1 b' r := by
  obtain ⟨c, hI, hle, rfl⟩ := h
  obtain ⟨first, hp, -, hI'⟩ := peek_spec hI hle
  exact ⟨_, hp, _, hI', hle, rfl, lt_max_of_lt_right Nat.one_pos, rfl⟩

theorem StandsPeeked.accept (h : StandsPeeked text x b r) (hx : x ≠ .none) :
    ∃ b', b.lexemeText b.accept.1 = .ok (r.take (lexed r).2) ∧ b.accept.2 = b' ∧
      Stands text b' (r.drop (lexed r).2) := by
  obtain ⟨c, hI, hle, rfl, hpos, rfl⟩ := h
  obtain ⟨b', hp, hI'⟩ := accept_spec hI hpos
  have hlen := lexed_length_le hx
  rw [List.length_drop] at hlen
  refine ⟨b', ?_, by rw [hp], _, hI', ?_, ?_⟩
  · rw [hp]
    show Except.ok ((b.text.drop _).take _) = _
    rw [show b.text = text from hI.text_eq]
  · show position text (c.accepted + 1) ≤ text.length
    rw [position_succ hle]
    omega
  · show text.drop (position text (c.accepted + 1)) = _
    rw [position_succ hle, List.drop_drop]

theorem Stands.expect (h : Stands text b r) {type : Lexeme} (htype : type ≠ .none) :
    ∃ b', LexerLookahead.expect b type = ((LexerLookahead.expect r type).1, b') ∧
      Stands text b' (LexerLookahead.expect r type).2 := by
  obtain ⟨b₁, hp, hs⟩ := h.peek
  show ∃ b', (b.lexemeText (b.expect type).1, (b.expect type).2) =
    ((if type ≠ (lexed r).1 then (.error .wrongLexeme, r) else _ : Except Ret (List Char) × _).1,
      b') ∧ Stands text b' (if type ≠ (lexed r).1 then _ else _ : Except Ret (List Char) × _).2
  unfold Lookahead2.expect
  rw [hp]
  by_cases ht : type = (lexed r).1
  · subst ht
    obtain ⟨b', ha, hb, hs'⟩ := hs.accept htype
    simp only [ne_eq, not_true_eq_false, if_false]
    refine ⟨b', ?_, hs'⟩
    have htext : b.text = b₁.text := by
      obtain ⟨c, hI, -⟩ := h
      obtain ⟨c', hI', -⟩ := hs
      exact (show b.text = text from hI.text_eq).trans (show b₁.text = text from hI'.text_eq).symm
    rw [hb, ← ha]
    unfold Lookahead2.lexemeText
    rw [htext]
  · simp only [ne_eq, ht, not_false_eq_true, if_true]
    exact ⟨b₁, rfl, hs.stands⟩

end

/-! ## the calls of the buffer -/

section
variable {text : List Char}

theorem refines_getText :
    Refines (Stands text) (fun _ => Stands text) (getText (σ := Lookahead2)) getText :=
  Refines.gets fun _ _ h => ⟨h.getText, h⟩

theorem refines_peek :
    Refines (Stands text) (fun x => StandsPeeked text x) (peek (σ := Lookahead2)) peek := by
  intro b r h
  obtain ⟨b', hp, hs⟩ := h.peek
  refine ⟨b', ?_, hs⟩
  show checked Lookahead2.peek b = _
  unfold checked
  rw [hp]

theorem refines_accept {x : Lexeme} (hx : x ≠ .none) :
    Refines (StandsPeeked text x) (fun _ => Stands text) (accept (σ := Lookahead2)) accept := by
  intro b r h
  obtain ⟨b', ha, hb, hs⟩ := h.accept hx
  refine ⟨b', ?_, hs⟩
  show checked (fun b => (b.lexemeText b.accept.1, b.accept.2)) b = _
  unfold checked
  simp only [ha, hb]

theorem refines_expect {type : Lexeme} (htype : type ≠ .none) :
    Refines (Stands text) (fun _ => Stands text) (expect (σ := Lookahead2) type)
      (expect type) := by
  intro b r h
  obtain ⟨b', he, hs⟩ := h.expect htype
  rw [expect_text]
  by_cases ht : type = (lexed r).1
  · have hr : LexerLookahead.expect r type = (.ok _, _) := if_neg (not_not.2 ht)
    rw [hr] at he hs
    rw [if_neg (not_not.2 ht)]
    refine ⟨b', ?_, hs⟩
    show expect type b = _
    unfold expect
    rw [he]
  · have hr : LexerLookahead.expect r type = (.error _, _) := if_pos ht
    rw [hr] at he hs
    rw [if_pos ht]
    refine ⟨b', ?_, hs⟩
    show expect type b = _
    unfold expect
    rw [he]

theorem refines_expectInRule {type : Lexeme} (htype : type ≠ .none) :
    Refines (Stands text) (fun _ => Stands text) (expectInRule (σ := Lookahead2) type)
      (expectInRule type) := by
  refine (refines_expect htype).bind fun a => ?_
  split
  · exact Refines.throw _
  · exact Refines.pure fun _ _ h => h
  · exact Refines.pure fun _ _ h => h

/-! ## the productions -/

theorem refines_token (unimplemented : List Lexeme) :
    Refines (Stands text) (fun _ => Stands text)
      (parseRemapToken (σ := Lookahead2) unimplemented) (parseRemapToken unimplemented) := by
  refine refines_peek.bind fun lexeme => Refines.ite (fun hl => ?_) fun _ =>
    Refines.ite (fun _ => Refines.throw _) fun _ => Refines.throw _
  exact (refines_accept (by simp [hl])).bind fun _ => Refines.pure fun _ _ h => h

theorem refines_tokens (stop : Lexeme) {token : StateT Lookahead2 (Except Ret) Unit}
    {token' : StateT (List Char) (Except Ret) Unit}
    (htoken : Refines (Stands text) (fun _ => Stands text) token token') (fuel : Nat) :
    Refines (Stands text) (fun _ => Stands text) (parseRemapTokens stop token fuel)
      (parseRemapTokens stop token' fuel) := by
  induction fuel with
  | zero => exact Refines.throw _
  | succ fuel ih =>
    refine refines_peek.bind fun lexeme => Refines.ite (fun _ => ?_) fun _ => ?_
    · exact Refines.pure fun _ _ h => h.stands
    refine ((refines_expectInRule (by decide)).mono (fun _ _ h => h.stands) fun _ _ _ h => h).bind
      fun _ => ?_
    exact htoken.bind fun _ => ih

theorem refines_nameStart :
    Refines (Stands text) (fun _ => Stands text) (parseRemapNameStart (σ := Lookahead2))
      parseRemapNameStart := by
  refine refines_peek.bind fun lexeme => Refines.ite (fun hl => ?_) fun _ => ?_
  · have hne : lexeme ≠ .none := by
      obtain rfl | rfl := hl
      · decide
      · decide
    exact (refines_accept hne).bind fun _ => Refines.pure fun _ _ h => h
  · exact Refines.pure fun _ _ h => h.stands

theorem refines_name (stop : Lexeme) {token : StateT Lookahead2 (Except Ret) Unit}
    {token' : StateT (List Char) (Except Ret) Unit}
    (htoken : Refines (Stands text) (fun _ => Stands text) token token') :
    Refines (Stands text) (fun _ => Stands text) (parseRemapName stop token)
      (parseRemapName stop token') := by
  refine refines_getText.bind fun start => refines_nameStart.bind fun _ => htoken.bind fun _ => ?_
  refine refines_getText.bind fun left => (refines_tokens stop htoken _).bind fun _ => ?_
  exact refines_getText.bind fun _ => Refines.pure fun _ _ h => h

theorem refines_url :
    Refines (Stands text) (fun _ => Stands text) (parseRemapUrl (σ := Lookahead2))
      parseRemapUrl := by
  refine refines_peek.bind fun lexeme => Refines.ite (fun hl => ?_) fun _ =>
    Refines.ite (fun hl => ?_) fun _ => Refines.pure fun _ _ h => h.stands
  · exact (refines_accept (by simp [hl])).bind fun _ => Refines.pure fun _ _ h => h
  · exact (refines_accept (by simp [hl])).bind fun _ => Refines.pure fun _ _ h => h

theorem refines_nameRemap (nodeName : Option (List Char)) :
    Refines (Stands text) (fun _ => Stands text) (parseRemapNameRemap (σ := Lookahead2) nodeName)
      (parseRemapNameRemap nodeName) := by
  refine Refines.bind (S := fun _ => Stands text) ?_ fun _ =>
    (refines_expectInRule (by decide)).bind fun _ =>
    (refines_name .eof (refines_token _)).bind fun _ => Refines.pure fun _ _ h => h
  exact refines_url.bind fun _ => (refines_name .separator (refines_token _)).bind fun _ =>
    Refines.pure fun _ _ h => h

theorem refines_namespaceTokens (fuel : Nat) :
    Refines (Stands text) (fun _ => Stands text)
      (parseRemapNamespaceTokens (σ := Lookahead2) fuel) (parseRemapNamespaceTokens fuel) := by
  induction fuel with
  | zero => exact Refines.throw _
  | succ fuel ih =>
    refine (refines_expect (by decide)).bind fun a => ?_
    split
    · exact Refines.pure fun _ _ h => h
    refine (refines_expect (by decide)).bind fun a => ?_
    split
    · exact Refines.pure fun _ _ h => h
    · exact ih

theorem refines_namespaceReplacement (nodeName : Option (List Char)) :
    Refines (Stands text) (fun _ => Stands text)
      (parseRemapNamespaceReplacement (σ := Lookahead2) nodeName)
      (parseRemapNamespaceReplacement nodeName) := by
  refine (refines_expectInRule (by decide)).bind fun _ =>
    (refines_expectInRule (by decide)).bind fun _ => refines_getText.bind fun _ => ?_
  refine Refines.bind (S := fun _ => Stands text) ?_ fun _ =>
    (refines_expect (by decide)).bind fun a => ?_
  · exact (refines_expectInRule (by decide)).bind fun _ => refines_getText.bind fun _ =>
      refines_namespaceTokens _
  split
  · exact Refines.throw _
  · exact refines_getText.bind fun _ => Refines.pure fun _ _ h => h

theorem refines_nodenameReplacement (nodeName : Option (List Char)) :
    Refines (Stands text) (fun _ => Stands text)
      (parseRemapNodenameReplacement (σ := Lookahead2) nodeName)
      (parseRemapNodenameReplacement nodeName) := by
  refine (refines_expectInRule (by decide)).bind fun _ =>
    (refines_expectInRule (by decide)).bind fun _ => (refines_expect (by decide)).bind fun a => ?_
  split
  · exact Refines.throw _
  · exact Refines.throw _
  · exact Refines.pure fun _ _ h => h

theorem refines_nodenamePrefix :
    Refines (Stands text) (fun _ => Stands text) (parseRemapNodenamePrefix (σ := Lookahead2))
      parseRemapNodenamePrefix := by
  refine (refines_expectInRule (by decide)).bind fun nodeName =>
    (refines_expectInRule (by decide)).bind fun _ => ?_
  split
  · exact Refines.pure fun _ _ h => h
  · exact Refines.throw _

theorem refines_body (nodeName : Option (List Char)) :
    Refines (Stands text) (fun _ => Stands text) (parseRemapBody (σ := Lookahead2) nodeName)
      (parseRemapBody nodeName) := by
  refine refines_peek.bind fun lexeme => Refines.mono (R := Stands text) ?_
    (fun _ _ h => h.stands) fun _ _ _ h => h
  exact Refines.ite (fun _ => refines_nodenameReplacement nodeName) fun _ =>
    Refines.ite (fun _ => refines_namespaceReplacement nodeName) fun _ =>
    refines_nameRemap nodeName

/-- the buffer before its first call -/
def AtStart (text : List Char) (b : Lookahead2) (r : List Char) : Prop :=
  b = .init text ∧ r = text

theorem refines_peek2 :
    Refines (AtStart text) (fun _ => Stands text) (peek2 (σ := Lookahead2)) peek2 := by
  rintro b r ⟨rfl, rfl⟩
  have hI := Session.inv_start r
  have hpos : position r 1 = (lexed r).2 := by
    rw [position_succ (Nat.zero_le _)]
    exact Nat.zero_add _
  rw [peek2_text]
  by_cases hle : (lexed r).2 ≤ r.length
  · have hin : position r (0 + 1) ≤ r.length := hpos.trans_le hle
    obtain ⟨b', hp, hI'⟩ := peek2_spec (b := .init r) (c := ⟨0, 0⟩) hI hin
      fun h => absurd h.2 (Nat.lt_irrefl 0)
    rw [if_pos hle]
    refine ⟨b', ?_, ⟨0, 2⟩, hI', Nat.zero_le _, rfl⟩
    show checked Lookahead2.peek2 (Lookahead2.init r) = _
    unfold checked
    rw [hp]
    simp only [hpos]
    rfl
  · obtain ⟨first, hp, hf, -⟩ := peek_spec (b := .init r) (c := ⟨0, 0⟩) hI (Nat.zero_le _)
    have hstop : ¬ first.stop ≤ r.length := by
      rw [hf.stop]
      exact fun h => hle (hpos.symm.trans_le h)
    rw [if_neg hle]
    show checked Lookahead2.peek2 (Lookahead2.init r) = _
    unfold checked Lookahead2.peek2
    rw [hp]
    have ha : analyzeAt r first.stop = .error .undefined := if_neg hstop
    simp only [Lookahead2.init, ge_iff_le, le_refl, if_true, ha]

theorem refines_beginRemapRule :
    Refines (AtStart text) (fun _ => Stands text) (parseRemapBeginRemapRule (σ := Lookahead2))
      parseRemapBeginRemapRule := by
  refine Refines.bind (S := fun _ => Stands text) ?_ fun nodeName =>
    (refines_body nodeName).bind fun _ => (refines_expect (by decide)).bind fun a => ?_
  · refine refines_peek2.bind fun x => Refines.ite (fun _ => ?_) fun _ => ?_
    · exact refines_nodenamePrefix.bind fun _ => Refines.pure fun _ _ h => h
    · exact Refines.pure fun _ _ h => h
  split
  · exact Refines.throw _
  · exact Refines.throw _
  · exact Refines.pure fun _ _ h => h

end

/-- **The parser on the buffer is the parser on the text.** -/
theorem parseRemapRule_eq (arg : List Char) :
    parseRemapRule arg = (·.1) <$> parseRemapBeginRemapRule.run arg := by
  have hstart : AtStart arg (.init arg) arg := ⟨rfl, rfl⟩
  have h := refines_beginRemapRule _ _ hstart
  unfold parseRemapRule
  cases hq : parseRemapBeginRemapRule.run arg with
  | error e =>
    rw [hq] at h
    rw [show parseRemapBeginRemapRule.run (Lookahead2.init arg) = _ from h]
    rfl
  | ok r =>
    rw [hq] at h
    obtain ⟨b', hb, -⟩ := h
    rw [hb]
    rfl

end PMROS2.Remap
