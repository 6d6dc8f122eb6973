import Mathlib

/-!
# The lexer of remap rules

`rcl_lexer_analyze` (`lexer.c`): a table of states, each with transitions on ranges of characters
and one `<else,M>` transition, and a loop that follows it.  `M = 0` moves one character forwards,
`M = 1 + N` moves `N` characters backwards.

A text is the list of its characters before the terminating NUL; reading at its length gives the
NUL, and reading further is an error of the model (`outOfBounds`).  A character outside of ASCII
is in no range, as a `char` of either signedness.  The loop has fuel; running out of it is an
outcome of its own.
-/

namespace PMROS2.Remap

/-- `rcl_lexeme_t` -/
inductive Lexeme where
  | none
  | eof
  | tildeSlash
  | urlService
  | urlTopic
  | colon
  | node
  | ns
  | separator
  | br1
  | br2
  | br3
  | br4
  | br5
  | br6
  | br7
  | br8
  | br9
  | token
  | forwardSlash
  | wildOne
  | wildMulti
  deriving DecidableEq, Repr

/-- the error returns of `rcl_lexer_analyze`, and what must not happen -/
inductive LexerError where
  | nextStateDoesNotExist
  | readBeforeStart
  | terminalDoesNotExist
  | outOfBounds
  | outOfFuel
  deriving DecidableEq, Repr

/-! ## the table -/

structure Transition where
  toState : Nat
  rangeStart : Char
  rangeEnd : Char

structure LexerState where
  elseState : Nat
  elseMovement : Nat
  transitions : List Transition

abbrev s0 : Nat := 0
abbrev s1 : Nat := 1
abbrev s2 : Nat := 2
abbrev s3 : Nat := 3
abbrev s4 : Nat := 4
abbrev s5 : Nat := 5
abbrev s6 : Nat := 6
abbrev s7 : Nat := 7
abbrev s8 : Nat := 8
abbrev s9 : Nat := 9
abbrev s10 : Nat := 10
abbrev s11 : Nat := 11
abbrev s12 : Nat := 12
abbrev s13 : Nat := 13
abbrev s14 : Nat := 14
abbrev s15 : Nat := 15
abbrev s16 : Nat := 16
abbrev s17 : Nat := 17
abbrev s18 : Nat := 18
abbrev s19 : Nat := 19
abbrev s20 : Nat := 20
abbrev s21 : Nat := 21
abbrev s22 : Nat := 22
abbrev s23 : Nat := 23
abbrev s24 : Nat := 24
abbrev s25 : Nat := 25
abbrev s26 : Nat := 26
abbrev s27 : Nat := 27
abbrev s28 : Nat := 28
abbrev s29 : Nat := 29
abbrev s30 : Nat := 30
abbrev lastState : Nat := s30

abbrev tTildeSlash : Nat := 31
abbrev tUrlService : Nat := 32
abbrev tUrlTopic : Nat := 33
abbrev tColon : Nat := 34
abbrev tNode : Nat := 35
abbrev tNs : Nat := 36
abbrev tSeparator : Nat := 37
abbrev tBr1 : Nat := 38
abbrev tBr2 : Nat := 39
abbrev tBr3 : Nat := 40
abbrev tBr4 : Nat := 41
abbrev tBr5 : Nat := 42
abbrev tBr6 : Nat := 43
abbrev tBr7 : Nat := 44
abbrev tBr8 : Nat := 45
abbrev tBr9 : Nat := 46
abbrev tToken : Nat := 47
abbrev tForwardSlash : Nat := 48
abbrev tWildOne : Nat := 49
abbrev tWildMulti : Nat := 50
abbrev tEof : Nat := 51
abbrev tNone : Nat := 52
abbrev firstTerminal : Nat := tTildeSlash
abbrev lastTerminal : Nat := tNone

/-- `END_TRANSITIONS` -/
abbrev endTransitions : Transition := ⟨0, '\x00', '\x00'⟩

def gStates : List LexerState := [
  -- S0
  ⟨tNone, 0, [
    ⟨tForwardSlash, '/', '/'⟩, ⟨s1, '\\', '\\'⟩, ⟨s2, '~', '~'⟩, ⟨s3, '_', '_'⟩,
    ⟨s8, 'a', 'q'⟩, ⟨s8, 's', 'z'⟩, ⟨s8, 'A', 'Z'⟩, ⟨s10, 'r', 'r'⟩, ⟨s29, '*', '*'⟩,
    ⟨s30, ':', ':'⟩, endTransitions]⟩,
  -- S1
  ⟨tNone, 0, [
    ⟨tBr1, '1', '1'⟩, ⟨tBr2, '2', '2'⟩, ⟨tBr3, '3', '3'⟩, ⟨tBr4, '4', '4'⟩, ⟨tBr5, '5', '5'⟩,
    ⟨tBr6, '6', '6'⟩, ⟨tBr7, '7', '7'⟩, ⟨tBr8, '8', '8'⟩, ⟨tBr9, '9', '9'⟩, endTransitions]⟩,
  -- S2
  ⟨tNone, 0, [⟨tTildeSlash, '/', '/'⟩, endTransitions]⟩,
  -- S3
  ⟨s9, 1, [⟨s4, '_', '_'⟩, endTransitions]⟩,
  -- S4
  ⟨tNone, 0, [⟨s5, 'n', 'n'⟩, endTransitions]⟩,
  -- S5
  ⟨tNone, 0, [⟨tNs, 's', 's'⟩, ⟨s6, 'o', 'o'⟩, endTransitions]⟩,
  -- S6
  ⟨tNone, 0, [⟨s7, 'd', 'd'⟩, endTransitions]⟩,
  -- S7
  ⟨tNone, 0, [⟨tNode, 'e', 'e'⟩, endTransitions]⟩,
  -- S8
  ⟨tToken, 1, [⟨s8, 'a', 'z'⟩, ⟨s8, 'A', 'Z'⟩, ⟨s8, '0', '9'⟩, ⟨s9, '_', '_'⟩, endTransitions]⟩,
  -- S9
  ⟨tToken, 1, [⟨s8, 'a', 'z'⟩, ⟨s8, 'A', 'Z'⟩, ⟨s8, '0', '9'⟩, endTransitions]⟩,
  -- S10
  ⟨s8, 1, [⟨s11, 'o', 'o'⟩, endTransitions]⟩,
  -- S11
  ⟨s8, 1, [⟨s12, 's', 's'⟩, endTransitions]⟩,
  -- S12
  ⟨s8, 1, [⟨s13, 't', 't'⟩, ⟨s20, 's', 's'⟩, endTransitions]⟩,
  -- S13
  ⟨s8, 1, [⟨s14, 'o', 'o'⟩, endTransitions]⟩,
  -- S14
  ⟨s8, 1, [⟨s15, 'p', 'p'⟩, endTransitions]⟩,
  -- S15
  ⟨s8, 1, [⟨s16, 'i', 'i'⟩, endTransitions]⟩,
  -- S16
  ⟨s8, 1, [⟨s17, 'c', 'c'⟩, endTransitions]⟩,
  -- S17
  ⟨s8, 1, [⟨s18, ':', ':'⟩, endTransitions]⟩,
  -- S18
  ⟨s8, 2, [⟨s19, '/', '/'⟩, endTransitions]⟩,
  -- S19
  ⟨s8, 3, [⟨tUrlTopic, '/', '/'⟩, endTransitions]⟩,
  -- S20
  ⟨s8, 1, [⟨s21, 'e', 'e'⟩, endTransitions]⟩,
  -- S21
  ⟨s8, 1, [⟨s22, 'r', 'r'⟩, endTransitions]⟩,
  -- S22
  ⟨s8, 1, [⟨s23, 'v', 'v'⟩, endTransitions]⟩,
  -- S23
  ⟨s8, 1, [⟨s24, 'i', 'i'⟩, endTransitions]⟩,
  -- S24
  ⟨s8, 1, [⟨s25, 'c', 'c'⟩, endTransitions]⟩,
  -- S25
  ⟨s8, 1, [⟨s26, 'e', 'e'⟩, endTransitions]⟩,
  -- S26
  ⟨s8, 1, [⟨s27, ':', ':'⟩, endTransitions]⟩,
  -- S27
  ⟨s8, 2, [⟨s28, '/', '/'⟩, endTransitions]⟩,
  -- S28
  ⟨s8, 3, [⟨tUrlService, '/', '/'⟩, endTransitions]⟩,
  -- S29
  ⟨tWildOne, 1, [⟨tWildMulti, '*', '*'⟩, endTransitions]⟩,
  -- S30
  ⟨tColon, 1, [⟨tSeparator, '=', '='⟩, endTransitions]⟩]

/-- `g_terminals`; the rest of the array is zero, which is `RCL_LEXEME_NONE` -/
def gTerminals : List Lexeme := [
  .tildeSlash, .urlService, .urlTopic, .colon, .node, .ns, .separator, .br1,
  .br2, .br3, .br4, .br5, .br6, .br7, .br8, .br9,
  .token, .forwardSlash, .wildOne, .wildMulti, .eof, .none]

/-! ## the loop -/

/-- the search for a transition: the state it leads to, 0 if there is none -/
def findTransition : List Transition → Char → Nat
  | [], _ => 0
  | t :: ts, c =>
    if t.rangeStart ≤ c ∧ c ≤ t.rangeEnd then t.toState
    else if t.toState = 0 then 0
    else findTransition ts c

/-- the character at a position, the terminating NUL included -/
def charAt (text : List Char) (i : Nat) : Option Char := (text ++ ['\x00'])[i]?

def nextState (state : LexerState) (c : Char) : Nat × Nat :=
  if findTransition state.transitions c = 0 then (state.elseState, state.elseMovement)
  else (findTransition state.transitions c, 0)

/-- the body of the loop: the next state and the new length -/
def lexStep (text : List Char) (state length : Nat) : Except LexerError (Nat × Nat) :=
  match gStates[state]? with
  | none => .error .nextStateDoesNotExist
  | some st =>
    match charAt text length with
    | none => .error .outOfBounds
    | some c =>
      let (next, movement) := nextState st c
      if movement = 0 then .ok (next, length + 1)
      else if movement - 1 > length then .error .readBeforeStart
      else .ok (next, length - (movement - 1))

def terminal (state length : Nat) : Except LexerError (Lexeme × Nat) :=
  if firstTerminal > state ∨ state - firstTerminal > lastTerminal then
    .error .terminalDoesNotExist
  else .ok (gTerminals.getD (state - firstTerminal) .none, length)

def lexLoop (text : List Char) : Nat → Nat → Nat → Except LexerError (Lexeme × Nat)
  | 0, _, _ => .error .outOfFuel
  | fuel + 1, state, length =>
    match lexStep text state length with
    | .error e => .error e
    | .ok (next, length) =>
      if next < firstTerminal then lexLoop text fuel next length else terminal next length

/-- `rcl_lexer_analyze`, with as many rounds of the loop as the text has characters, and four -/
def analyze (text : List Char) : Except LexerError (Lexeme × Nat) :=
  if text = [] then .ok (.eof, 0) else lexLoop text (text.length + 4) s0 0

end PMROS2.Remap
