import PMROS2.Lib.Runs
import PMROS2.Remap.LexemeGrammar

/-!
# The lookahead buffer over the lexer

`rcl_lexer_lookahead2_*` (`lexer_lookahead.c`): a position in the text and two buffered lexemes.
What the buffer is for is a cursor in the sequence of lexemes (`element`) that the lexer finds from
the start of the text on; `answers_along` compares the two over every sequence of calls.

`accept` moves the second lexeme to the first place and leaves it in the second one too.  The
buffer is right as long as `peek2` is not called in between (`second_slot_is_stale`), and as long
as no call goes on behind a lexeme that includes the terminating NUL.
-/

namespace PMROS2.Remap

/-- the `rcl_ret_t` other than `RCL_RET_OK`; `undefined` is a read behind the NUL or of a variable
without a value, `outOfFuel` a loop that has not ended -/
inductive Ret where
  | error
  | wrongLexeme
  | invalidRemapRule
  | undefined
  | outOfFuel
  deriving DecidableEq, Repr

/-- `rcl_lexer_analyze(&text[i], …)` -/
def analyzeAt (text : List Char) (i : Nat) : Except Ret (Lexeme × Nat) :=
  if i ≤ text.length then
    match analyze (text.drop i) with
    | .ok r => .ok r
    | .error .outOfBounds => .error .undefined
    | .error .outOfFuel => .error .outOfFuel
    | .error _ => .error .error
  else .error .undefined

/-! ## the buffer -/

/-- a buffered lexeme: its first character, one past its last character, its type -/
structure Slot where
  start : Nat
  stop : Nat
  type : Lexeme
  deriving DecidableEq, Repr

/-- `rcl_lexer_lookahead2_impl_t` -/
structure Lookahead2 where
  text : List Char
  textIdx : Nat
  first : Slot
  second : Slot

namespace Lookahead2

def init (text : List Char) : Lookahead2 := ⟨text, 0, ⟨0, 0, .none⟩, ⟨0, 0, .none⟩⟩

def peek (b : Lookahead2) : Except Ret Lexeme × Lookahead2 :=
  if b.textIdx ≥ b.first.stop then
    -- no buffered lexeme; get one
    match analyzeAt b.text b.textIdx with
    | .error r => (.error r, b)
    | .ok (type, length) => (.ok type, { b with first := ⟨b.textIdx, b.textIdx + length, type⟩ })
  else (.ok b.first.type, b)

def peek2 (b : Lookahead2) : Except Ret (Lexeme × Lexeme) × Lookahead2 :=
  match peek b with
  | (.error r, b) => (.error r, b)
  | (.ok nextType1, b) =>
    if b.textIdx ≥ b.second.stop then
      match analyzeAt b.text b.first.stop with
      | .error r => (.error r, b)
      | .ok (type, length) =>
        (.ok (nextType1, type), { b with second := ⟨b.first.stop, b.first.stop + length, type⟩ })
    else (.ok (nextType1, b.second.type), b)

/-- the start and the length of the accepted text -/
def accept (b : Lookahead2) : Except Ret (Nat × Nat) × Lookahead2 :=
  if b.first.type = .eof then (.ok (b.textIdx, 0), b)
  else if b.textIdx ≥ b.first.stop then (.error .error, b)
  else
    (.ok (b.first.start, b.first.stop - b.first.start),
      { b with textIdx := b.first.stop, first := b.second })

def expect (b : Lookahead2) (type : Lexeme) : Except Ret (Nat × Nat) × Lookahead2 :=
  match peek b with
  | (.error r, b) => (.error r, b)
  | (.ok lexeme, b) => if type ≠ lexeme then (.error .wrongLexeme, b) else accept b

end Lookahead2

/-! ## calls and answers -/

inductive Call where
  | peek
  | peek2
  | accept
  | expect (type : Lexeme)
  deriving DecidableEq, Repr

inductive Answer where
  | type (type : Lexeme)
  | types (type1 type2 : Lexeme)
  | text (start length : Nat)
  | ret (r : Ret)
  deriving DecidableEq, Repr

def Answer.ofType : Except Ret Lexeme → Answer
  | .ok t => .type t
  | .error r => .ret r

def Answer.ofTypes : Except Ret (Lexeme × Lexeme) → Answer
  | .ok (t₁, t₂) => .types t₁ t₂
  | .error r => .ret r

def Answer.ofText : Except Ret (Nat × Nat) → Answer
  | .ok (start, length) => .text start length
  | .error r => .ret r

def Lookahead2.call (b : Lookahead2) : Call → Answer × Lookahead2
  | .peek => (.ofType b.peek.1, b.peek.2)
  | .peek2 => (.ofTypes b.peek2.1, b.peek2.2)
  | .accept => (.ofText b.accept.1, b.accept.2)
  | .expect type => (.ofText (b.expect type).1, (b.expect type).2)

/-! ## the sequence of lexemes -/

/-- where the `n`-th lexeme of a text begins -/
def position (text : List Char) : Nat → Nat
  | 0 => 0
  | n + 1 =>
    match analyzeAt text (position text n) with
    | .ok (_, length) => position text n + length
    | .error _ => position text n

/-- the `n`-th lexeme that iterating the lexer finds, and its length -/
def element (text : List Char) (n : Nat) : Except Ret (Lexeme × Nat) :=
  analyzeAt text (position text n)

/-- how many lexemes were accepted, and how many of the next ones were looked at -/
structure Cursor where
  accepted : Nat
  peeked : Nat

/-- the answer of a call when `n` lexemes have been accepted -/
def answerAt (text : List Char) (n : Nat) : Call → Answer
  | .peek => .ofType ((element text n).map (·.1))
  | .peek2 => .ofTypes (do return ((← element text n).1, (← element text (n + 1)).1))
  | .accept => .ofText ((element text n).map fun e => (position text n, e.2))
  | .expect type => .ofText (do
      let e ← element text n
      if type ≠ e.1 then .error .wrongLexeme else .ok (position text n, e.2))

def Cursor.next (text : List Char) (c : Cursor) : Call → Cursor
  | .peek => { c with peeked := max c.peeked 1 }
  | .peek2 => { c with peeked := 2 }
  | .accept => ⟨c.accepted + 1, c.peeked - 1⟩
  | .expect type =>
    if (element text c.accepted).map (·.1) = .ok type then ⟨c.accepted + 1, max c.peeked 1 - 1⟩
    else { c with peeked := max c.peeked 1 }

/-- a buffer, and the cursor that it stands for -/
structure Session where
  buffer : Lookahead2
  cursor : Cursor

namespace Session

def start (text : List Char) : Session := ⟨.init text, ⟨0, 0⟩⟩

/-- one call; a lexeme must have been peeked before it can be accepted -/
def step (s : Session) (call : Call) : Option Session :=
  if call = .accept ∧ s.cursor.peeked = 0 then none
  else some ⟨(s.buffer.call call).2, s.cursor.next s.buffer.text call⟩

/-- the call is answered with the next lexemes of the sequence -/
def Right (s : Session) (call : Call) : Prop :=
  (s.buffer.call call).1 = answerAt s.buffer.text s.cursor.accepted call

instance (s : Session) (call : Call) : Decidable (Right s call) := instDecidableEqAnswer _ _

end Session

/-- the second lexeme of the buffer is the one that `accept` has moved to the first place -/
def Lookahead2.Stale (b : Lookahead2) : Prop :=
  b.second.start = b.textIdx ∧ b.textIdx < b.second.stop

instance (b : Lookahead2) : Decidable b.Stale := inferInstanceAs (Decidable (_ ∧ _))

/-- the call reads inside of the text, and does not read a stale lexeme -/
def Session.Careful (s : Session) : Call → Prop
  | .peek | .expect _ => position s.buffer.text s.cursor.accepted ≤ s.buffer.text.length
  | .peek2 =>
    position s.buffer.text (s.cursor.accepted + 1) ≤ s.buffer.text.length ∧ ¬ s.buffer.Stale
  | .accept => True

instance (s : Session) : ∀ call : Call, Decidable (s.Careful call)
  | .peek | .expect _ => inferInstanceAs (Decidable (_ ≤ _))
  | .peek2 => inferInstanceAs (Decidable (_ ∧ _))
  | .accept => .isTrue trivial

/-! ## the lexemes of a text, one after the other -/

theorem lexed_eof_iff (text : List Char) : (lexed text).1 = .eof ↔ text = [] := by
  unfold lexed
  split
  next hcut =>
    refine ⟨fun h => (by cases h), fun h => ?_⟩
    subst h
    exact absurd hcut (by decide)
  next => exact lexemeOf_eof_iff text

theorem lexemeOf_length_pos {text : List Char} (h : text ≠ []) : 0 < (lexemeOf text).2 := by
  have hkw : ∀ p ∈ keywords, 0 < p.1.length := by decide
  unfold lexemeOf
  rw [if_neg h]
  split
  next p hp => exact hkw p (keywordOf_mem hp).1
  next =>
    split
    next ht => exact ht.1
    next => exact Nat.lt_min.2 ⟨Nat.succ_pos _, List.length_pos_iff.2 h⟩

theorem lexed_length_pos {text : List Char} (h : text ≠ []) : 0 < (lexed text).2 := by
  unfold lexed
  split
  · exact Nat.succ_pos _
  · exact lexemeOf_length_pos h

section
variable {text : List Char} {n : Nat}

theorem analyzeAt_eq {i : Nat} (h : i ≤ text.length) :
    analyzeAt text i = .ok (lexed (text.drop i)) := by
  unfold analyzeAt
  rw [if_pos h, analyze_eq]

theorem element_eq (h : position text n ≤ text.length) :
    element text n = .ok (lexed (text.drop (position text n))) := analyzeAt_eq h

theorem position_succ (h : position text n ≤ text.length) :
    position text (n + 1) = position text n + (lexed (text.drop (position text n))).2 := by
  rw [position, analyzeAt_eq h]

theorem position_le_succ (n : Nat) : position text n ≤ position text (n + 1) := by
  rw [position]
  split
  · exact Nat.le_add_right _ _
  · exact Nat.le_refl _

theorem position_eof (h : position text n = text.length) :
    position text (n + 1) = text.length := by
  rw [position_succ h.le, h, List.drop_length]
  rfl

theorem position_lt (h : position text n < text.length) :
    position text n < position text (n + 1) := by
  rw [position_succ h.le]
  have hne : text.drop (position text n) ≠ [] := fun hd =>
    absurd (List.drop_eq_nil_iff.1 hd) (Nat.not_le.2 h)
  have := lexed_length_pos hne
  omega

end

/-! ## what the buffer holds -/

/-- a place of the buffer holds the `n`-th lexeme -/
structure Slot.Holds (text : List Char) (n : Nat) (slot : Slot) : Prop where
  inText : position text n ≤ text.length
  start : slot.start = position text n
  stop : slot.stop = position text (n + 1)
  type : slot.type = (lexed (text.drop (position text n))).1

section
variable {text : List Char} {n : Nat} {slot : Slot}

theorem Slot.Holds.eof_iff (h : slot.Holds text n) :
    slot.type = .eof ↔ position text n = text.length := by
  rw [h.type, lexed_eof_iff, List.drop_eq_nil_iff]
  exact ⟨fun hle => Nat.le_antisymm h.inText hle, fun heq => heq.ge⟩

theorem Slot.Holds.eof_next (h : slot.Holds text n) (ht : slot.type = .eof) :
    slot.Holds text (n + 1) := by
  have hn := h.eof_iff.1 ht
  have hn₁ := position_eof hn
  have hn₂ := position_eof hn₁
  refine ⟨hn₁.le, ?_, ?_, ?_⟩
  · rw [h.start, hn, hn₁]
  · rw [h.stop, hn₁, hn₂]
  · rw [h.type, hn, hn₁]

theorem Slot.Holds.lt_stop (h : slot.Holds text n) (ht : slot.type ≠ .eof) :
    position text n < slot.stop := by
  rw [h.stop]
  exact position_lt (lt_of_le_of_ne h.inText fun heq => ht (h.eof_iff.2 heq))

theorem Slot.holds_analyzed (h : position text n ≤ text.length) :
    Slot.Holds text n ⟨position text n,
      position text n + (lexed (text.drop (position text n))).2,
      (lexed (text.drop (position text n))).1⟩ :=
  ⟨h, rfl, (position_succ h).symm, rfl⟩

end

/-- the second place of the buffer: empty, the lexeme after the next one, or the stale copy of the
next one -/
def SecondOk (text : List Char) (c : Cursor) (b : Lookahead2) : Prop :=
  (b.second.stop ≤ b.textIdx ∧ c.peeked ≤ 1) ∨
    (b.first.Holds text c.accepted ∧ b.second.Holds text (c.accepted + 1)) ∨
    (b.first.Holds text c.accepted ∧ b.second = b.first ∧ c.peeked ≤ 1)

/-- **The invariant**: the buffer stands for the cursor. -/
structure Session.Inv (text : List Char) (s : Session) : Prop where
  text_eq : s.buffer.text = text
  textIdx : s.buffer.textIdx = position text s.cursor.accepted
  peeked : s.cursor.peeked ≤ 2
  first : s.buffer.first.Holds text s.cursor.accepted ∨
    (s.buffer.first.stop ≤ s.buffer.textIdx ∧ s.buffer.first.type ≠ .eof ∧ s.cursor.peeked = 0)
  second : SecondOk text s.cursor s.buffer
  eof : s.buffer.second.type = .eof → s.buffer.second.stop = text.length

theorem Session.inv_start (text : List Char) : (start text).Inv text where
  text_eq := rfl
  textIdx := rfl
  peeked := Nat.zero_le 2
  first := .inr ⟨Nat.le_refl 0, fun h => (by cases h), rfl⟩
  second := .inl ⟨Nat.le_refl 0, Nat.zero_le 1⟩
  eof := fun h => (by cases h)

/-! ## one call -/

section
variable {text : List Char} {b : Lookahead2} {c : Cursor}

/-- `peek` fills the first place of the buffer and leaves the rest -/
theorem peek_spec (h : Session.Inv text ⟨b, c⟩)
    (hin : position text c.accepted ≤ text.length) :
    ∃ first, b.peek =
        (.ok (lexed (text.drop (position text c.accepted))).1, { b with first := first }) ∧
      first.Holds text c.accepted ∧
      Session.Inv text ⟨{ b with first := first }, { c with peeked := max c.peeked 1 }⟩ := by
  have hpeeked : max c.peeked 1 ≤ 2 := Nat.max_le.2 ⟨h.peeked, by omega⟩
  have hone : c.peeked ≤ 1 → max c.peeked 1 ≤ 1 := fun hc => Nat.max_le.2 ⟨hc, Nat.le_refl 1⟩
  unfold Lookahead2.peek
  by_cases hstop : b.textIdx ≥ b.first.stop
  · have hidx : b.textIdx = position text c.accepted := h.textIdx
    have ha : analyzeAt b.text b.textIdx =
        .ok (lexed (text.drop (position text c.accepted))) := by
      rw [show b.text = text from h.text_eq, hidx, analyzeAt_eq hin]
    have hnew := Slot.holds_analyzed hin
    rw [← hidx] at hnew
    rw [if_pos hstop, ha, ← hidx]
    refine ⟨_, rfl, hidx ▸ hnew, h.text_eq, h.textIdx, hpeeked, .inl (hidx ▸ hnew), ?_, h.eof⟩
    obtain ⟨hs, hc⟩ | ⟨_, hs⟩ | ⟨_, hs, hc⟩ := h.second
    · exact .inl ⟨hs, hone hc⟩
    · exact .inr (.inl ⟨hnew, hs⟩)
    · have hle : b.second.stop ≤ b.textIdx := by
        rw [show b.second = b.first from hs]
        exact hstop
      exact .inl ⟨hle, hone hc⟩
  · rw [if_neg hstop]
    have hold := h.first.resolve_right fun hn => hstop hn.1
    refine ⟨b.first, ?_, hold, ?_⟩
    · rw [show b.first.type = _ from hold.type]
    refine ⟨h.text_eq, h.textIdx, hpeeked, .inl hold, ?_, h.eof⟩
    obtain ⟨hs, hc⟩ | hs | ⟨hf, hs, hc⟩ := h.second
    · exact .inl ⟨hs, hone hc⟩
    · exact .inr (.inl hs)
    · exact .inr (.inr ⟨hf, hs, hone hc⟩)

theorem peek2_spec (h : Session.Inv text ⟨b, c⟩)
    (hin : position text (c.accepted + 1) ≤ text.length) (hstale : ¬ b.Stale) :
    ∃ b', b.peek2 = (.ok ((lexed (text.drop (position text c.accepted))).1,
        (lexed (text.drop (position text (c.accepted + 1)))).1), b') ∧
      Session.Inv text ⟨b', { c with peeked := 2 }⟩ := by
  have hin' := (position_le_succ c.accepted).trans hin
  obtain ⟨first, hp, hf, hI⟩ := peek_spec h hin'
  unfold Lookahead2.peek2
  rw [hp]
  by_cases hstop : b.textIdx ≥ b.second.stop
  · simp only [if_pos hstop]
    rw [show b.text = text from h.text_eq, hf.stop, analyzeAt_eq hin]
    have hnew := Slot.holds_analyzed hin
    refine ⟨_, rfl, rfl, h.textIdx, Nat.le_refl 2, .inl hf, .inr (.inl ⟨hf, hnew⟩), fun ht => ?_⟩
    have hend : position text (c.accepted + 1) = text.length := hnew.eof_iff.1 ht
    exact hnew.stop.trans (position_eof hend)
  · simp only [if_neg hstop]
    obtain ⟨hs, _⟩ | ⟨_, hs⟩ | ⟨_, hs, _⟩ := hI.second
    · exact absurd hs hstop
    · refine ⟨{ b with first := first }, ?_, h.text_eq, h.textIdx, Nat.le_refl 2, .inl hf,
        .inr (.inl ⟨hf, hs⟩), h.eof⟩
      rw [show b.second.type = _ from hs.type]
    · refine absurd ⟨?_, Nat.not_le.1 hstop⟩ hstale
      rw [show b.second = first from hs, hf.start]
      exact h.textIdx.symm

theorem accept_spec (h : Session.Inv text ⟨b, c⟩) (hc : 0 < c.peeked) :
    ∃ b', b.accept = (.ok (position text c.accepted,
        (lexed (text.drop (position text c.accepted))).2), b') ∧
      Session.Inv text ⟨b', ⟨c.accepted + 1, c.peeked - 1⟩⟩ := by
  have hf := h.first.resolve_right fun hn => hc.ne' hn.2.2
  have hidx : b.textIdx = position text c.accepted := h.textIdx
  have hpeeked : c.peeked - 1 ≤ 1 := by have := h.peeked; simp only at this; omega
  unfold Lookahead2.accept
  by_cases ht : b.first.type = .eof
  · rw [if_pos ht]
    have hend := hf.eof_iff.1 ht
    have hend' := position_eof hend
    refine ⟨b, ?_, h.text_eq, ?_, hpeeked.trans (by omega), .inl (hf.eof_next ht), ?_, h.eof⟩
    · rw [hidx, hend, List.drop_length]
      rfl
    · exact hidx.trans (hend.trans hend'.symm)
    · -- the second place is empty, whatever it holds
      refine .inl ⟨?_, hpeeked⟩
      show b.second.stop ≤ b.textIdx
      obtain ⟨hs, _⟩ | ⟨_, hs⟩ | ⟨_, hs, _⟩ := h.second
      · exact hs
      · rw [hidx, hend, show b.second.stop = _ from hs.stop, position_eof hend']
      · rw [hidx, hend, show b.second = b.first from hs, show b.first.stop = _ from hf.stop, hend']
  · have hlt : b.textIdx < b.first.stop := hidx ▸ hf.lt_stop ht
    rw [if_neg ht, if_neg (Nat.not_le.2 hlt)]
    have hstop : b.first.stop = position text (c.accepted + 1) := hf.stop
    have hlen : b.first.stop - b.first.start =
        (lexed (text.drop (position text c.accepted))).2 := by
      rw [show b.first.start = _ from hf.start, hstop, position_succ hf.inText,
        Nat.add_sub_cancel_left]
    refine ⟨{ b with textIdx := b.first.stop, first := b.second }, ?_, h.text_eq, hstop,
      hpeeked.trans (by omega), ?_, ?_, h.eof⟩
    · rw [hlen, show b.first.start = _ from hf.start]
    · obtain ⟨hs, hc'⟩ | ⟨_, hs⟩ | ⟨_, hs, hc'⟩ := h.second
      · have hs' : b.second.stop ≤ b.textIdx := hs
        refine .inr ⟨(hs'.trans hlt.le), fun hse => ht ?_, Nat.sub_eq_zero_of_le hc'⟩
        -- a lexeme at the end of the text cannot lie before a lexeme
        have hend : b.second.stop = text.length := h.eof hse
        have hge : text.length ≤ position text c.accepted := by omega
        exact hf.eof_iff.2 (Nat.le_antisymm hf.inText hge)
      · exact .inl hs
      · have hs' : b.second = b.first := hs
        refine .inr ⟨?_, ?_, Nat.sub_eq_zero_of_le hc'⟩
        · simp only [hs', le_refl]
        · simpa only [hs'] using ht
    · obtain ⟨hs, _⟩ | ⟨_, hs⟩ | ⟨_, hs, _⟩ := h.second
      · have hs' : b.second.stop ≤ b.textIdx := hs
        exact .inl ⟨hs'.trans hlt.le, hpeeked⟩
      · exact .inr (.inr ⟨hs, rfl, hpeeked⟩)
      · have hs' : b.second = b.first := hs
        refine .inl ⟨?_, hpeeked⟩
        simp only [hs', le_refl]

end

/-- **One call**: it is answered with the next lexemes, and the buffer stands for the cursor
again. -/
theorem Session.call_spec {text : List Char} {s : Session} {call : Call} (h : s.Inv text)
    (hpeeked : ¬ (call = .accept ∧ s.cursor.peeked = 0)) (hc : s.Careful call) :
    s.Right call ∧ Session.Inv text ⟨(s.buffer.call call).2, s.cursor.next text call⟩ := by
  obtain ⟨b, c⟩ := s
  obtain rfl : b.text = text := h.text_eq
  unfold Right
  cases call with
  | peek =>
    obtain ⟨first, hp, -, hI⟩ := peek_spec h hc
    simp only [Lookahead2.call, answerAt, hp, element_eq hc]
    exact ⟨rfl, hI⟩
  | peek2 =>
    obtain ⟨b', hp, hI⟩ := peek2_spec h hc.1 hc.2
    have he := element_eq ((position_le_succ c.accepted).trans hc.1)
    simp only [Lookahead2.call, answerAt, hp, he, element_eq hc.1]
    exact ⟨rfl, hI⟩
  | accept =>
    have hpos : 0 < c.peeked := Nat.pos_of_ne_zero fun h0 => hpeeked ⟨rfl, h0⟩
    obtain ⟨b', hp, hI⟩ := accept_spec h hpos
    have hf := h.first.resolve_right fun hn => hpos.ne' hn.2.2
    simp only [Lookahead2.call, answerAt, hp, element_eq hf.inText]
    exact ⟨rfl, hI⟩
  | expect type =>
    obtain ⟨first, hp, hf, hI⟩ := peek_spec h hc
    have hpos : 0 < max c.peeked 1 := lt_max_of_lt_right Nat.one_pos
    obtain ⟨b', ha, hI'⟩ := accept_spec hI hpos
    simp only [Lookahead2.call, answerAt, Lookahead2.expect, hp, element_eq hc, Cursor.next]
    by_cases ht : type = (lexed (b.text.drop (position b.text c.accepted))).1
    · subst ht
      simp only [ne_eq, not_true_eq_false, if_false, ha]
      constructor
      · show Answer.ofText _ = Answer.ofText (if ¬ (lexed _).1 = (lexed _).1 then _ else _)
        rw [if_neg (not_not.2 rfl)]
      · have heq : Except.map (fun e => e.1)
            (Except.ok (lexed (b.text.drop (position b.text c.accepted))) : Except Ret _) =
            .ok (lexed (b.text.drop (position b.text c.accepted))).1 := rfl
        rw [if_pos heq]
        exact hI'
    · have hne : Except.map (fun e => e.1)
          (Except.ok (lexed (b.text.drop (position b.text c.accepted))) : Except Ret _) ≠
          .ok type := fun h => ht (Except.ok.inj h).symm
      simp only [if_pos ht, if_neg hne]
      refine ⟨?_, hI⟩
      show Answer.ofText _ = Answer.ofText (if type ≠ _ then _ else _)
      rw [if_pos ht]

/-- **Every call of a sequence is answered with the next lexemes of the text**, as long as no call
goes on behind the terminating NUL and `peek2` is not called while the second lexeme is stale. -/
theorem answers_along (text : List Char) (calls : List Call)
    (h : Runs.Along Session.step (fun s call _ => s.Careful call) (.start text) calls) :
    Runs.Along Session.step (fun s call _ => s.Right call) (.start text) calls := by
  have hstep : ∀ s call s', Session.Inv text s → s.step call = some s' → s.Careful call →
      s.Right call ∧ Session.Inv text s' := by
    intro s call s' hI hs hc
    rw [Session.step] at hs
    split at hs
    · cases hs
    next hp =>
      obtain rfl := Option.some.inj hs
      rw [hI.text_eq]
      exact Session.call_spec hI hp hc
  exact Runs.along_of_inv (fun s call s' hI hs hc => (hstep s call s' hI hs hc).2)
    (fun s call s' hI hs hc => (hstep s call s' hI hs hc).1) calls _ (Session.inv_start text) h

theorem answers_along_foo_bar :
    Runs.Along Session.step (fun s call _ => s.Right call) (.start "foo/bar:=".toList)
      [.peek2, .accept, .peek, .accept, .peek2, .accept, .accept, .peek2, .expect .token] :=
  answers_along _ _ (by decide)

/-- after `peek2` and `accept` the next `peek2` returns the same lexeme twice -/
theorem second_slot_is_stale :
    ¬ Runs.Along Session.step (fun s call _ => s.Right call) (.start "foo/bar".toList)
      [.peek2, .accept, .peek2] := by
  decide

end PMROS2.Remap
