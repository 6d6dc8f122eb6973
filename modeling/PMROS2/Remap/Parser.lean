import PMROS2.Remap.Lookahead

/-!
# The parser of remap rules

The productions `_rcl_parse_remap_*` of `arguments.c`, a recursive descent over the lookahead
buffer.  They are written for any `LexerLookahead`: the buffer of `lexer_lookahead.c` is the one
the code uses, `RuleGrammar` also runs them on the bare text.

A production is a computation that may return early with a `Ret`.  Where the source checks a call
of `expect` for `RCL_RET_WRONG_LEXEME` only, the other errors are ignored here too.  Allocations
succeed; the error messages and the warnings of the log are left out.
-/

namespace PMROS2.Remap

/-- what the parser uses of the lookahead buffer -/
class LexerLookahead (σ : Type) where
  /-- `rcl_lexer_lookahead2_get_text`: the text that is left -/
  getText : σ → List Char
  peek : σ → Except Ret Lexeme × σ
  peek2 : σ → Except Ret (Lexeme × Lexeme) × σ
  accept : σ → Except Ret (List Char) × σ
  expect : σ → Lexeme → Except Ret (List Char) × σ

def Lookahead2.lexemeText (b : Lookahead2) (r : Except Ret (Nat × Nat)) : Except Ret (List Char) :=
  r.map fun p => (b.text.drop p.1).take p.2

instance : LexerLookahead Lookahead2 where
  getText b := b.text.drop b.textIdx
  peek := Lookahead2.peek
  peek2 := Lookahead2.peek2
  accept b := (b.lexemeText b.accept.1, b.accept.2)
  expect b type := (b.lexemeText (b.expect type).1, (b.expect type).2)

/-! ## calls of the buffer -/

section
variable {σ : Type} [LexerLookahead σ]

/-- a call whose return value is returned unless it is `RCL_RET_OK` -/
def checked {α : Type} (f : σ → Except Ret α × σ) : StateT σ (Except Ret) α := fun s =>
  match f s with
  | (.ok a, s) => .ok (a, s)
  | (.error r, _) => .error r

def getText : StateT σ (Except Ret) (List Char) := fun s => .ok (LexerLookahead.getText s, s)

def peek : StateT σ (Except Ret) Lexeme := checked LexerLookahead.peek

def peek2 : StateT σ (Except Ret) (Lexeme × Lexeme) := checked LexerLookahead.peek2

def accept : StateT σ (Except Ret) (List Char) := checked LexerLookahead.accept

/-- `expect`, whose return value is looked at by the caller -/
def expect (type : Lexeme) : StateT σ (Except Ret) (Except Ret (List Char)) := fun s =>
  match LexerLookahead.expect s type with
  | (.error .undefined, _) => .error .undefined
  | (.error .outOfFuel, _) => .error .outOfFuel
  | (r, s) => .ok (r, s)

/-- `expect`, checked for `RCL_RET_WRONG_LEXEME` only -/
def expectInRule (type : Lexeme) : StateT σ (Except Ret) (Option (List Char)) := do
  match ← expect type with
  | .error .wrongLexeme => throw .invalidRemapRule
  | .error _ => return none
  | .ok text => return some text

/-- the characters between two positions of the buffer, copied by `rcutils_strndup` -/
def textBetween (start stop : List Char) : List Char := start.take (start.length - stop.length)

/-! ## names -/

/-- one token of a name; some lexemes are not implemented -/
def parseRemapToken (unimplemented : List Lexeme) : StateT σ (Except Ret) Unit := do
  let lexeme ← peek
  if lexeme = .token then
    let _ ← accept
  else if lexeme ∈ unimplemented then throw .error
  else throw .invalidRemapRule

/-- `_rcl_parse_remap_replacement_token` -/
def parseRemapReplacementToken : StateT σ (Except Ret) Unit :=
  parseRemapToken [.br1, .br2, .br3, .br4, .br5, .br6, .br7, .br8, .br9]

/-- `_rcl_parse_remap_match_token` -/
def parseRemapMatchToken : StateT σ (Except Ret) Unit := parseRemapToken [.wildOne, .wildMulti]

/-- the loop `( '/' token )*` of a name, up to the lexeme `stop` -/
def parseRemapTokens (stop : Lexeme) (token : StateT σ (Except Ret) Unit) :
    Nat → StateT σ (Except Ret) Unit
  | 0 => throw .outOfFuel
  | fuel + 1 => do
    let lexeme ← peek
    if lexeme = stop then return ()
    else
      let _ ← expectInRule .forwardSlash
      token
      parseRemapTokens stop token fuel

/-- private name (`~/…`) or fully qualified name (`/…`)? -/
def parseRemapNameStart : StateT σ (Except Ret) Unit := do
  let lexeme ← peek
  if lexeme = .tildeSlash ∨ lexeme = .forwardSlash then
    let _ ← accept
  else return ()

/-- a name, up to the lexeme `stop`, and its text -/
def parseRemapName (stop : Lexeme) (token : StateT σ (Except Ret) Unit) :
    StateT σ (Except Ret) (List Char) := do
  let start ← getText
  parseRemapNameStart
  token
  -- no more rounds than characters are left, and the last one
  parseRemapTokens stop token ((← getText).length + 1)
  return textBetween start (← getText)

/-- `_rcl_parse_remap_replacement_name` -/
def parseRemapReplacementName : StateT σ (Except Ret) (List Char) :=
  parseRemapName .eof parseRemapReplacementToken

/-! ## rules -/

/-- `rcl_remap_type_t`, a bit mask -/
abbrev topicRemap : Nat := 1 <<< 0
abbrev serviceRemap : Nat := 1 <<< 1
abbrev nodenameRemap : Nat := 1 <<< 2
abbrev namespaceRemap : Nat := 1 <<< 3

/-- `rcl_remap_impl_t` -/
structure RemapImpl where
  type : Nat
  nodeName : Option (List Char)
  matchText : Option (List Char)
  replacement : Option (List Char)
  deriving DecidableEq, Repr

/-- the url scheme of a name, which is optional, and the type of the rule -/
def parseRemapUrl : StateT σ (Except Ret) Nat := do
  let lexeme ← peek
  if lexeme = .urlService then
    let _ ← accept
    return serviceRemap
  else if lexeme = .urlTopic then
    let _ ← accept
    return topicRemap
  else return topicRemap ||| serviceRemap

/-- `_rcl_parse_remap_match_name` -/
def parseRemapMatchName : StateT σ (Except Ret) (Nat × List Char) := do
  let type ← parseRemapUrl
  return (type, ← parseRemapName .separator parseRemapMatchToken)

/-- `_rcl_parse_remap_name_remap` -/
def parseRemapNameRemap (nodeName : Option (List Char)) : StateT σ (Except Ret) RemapImpl := do
  let (type, matchText) ← parseRemapMatchName
  let _ ← expectInRule .separator
  let replacement ← parseRemapReplacementName
  return ⟨type, nodeName, some matchText, some replacement⟩

/-- the loop `( token '/' )* [ token ]` of a namespace -/
def parseRemapNamespaceTokens : Nat → StateT σ (Except Ret) Unit
  | 0 => throw .outOfFuel
  | fuel + 1 => do
    match ← expect .token with
    | .error .wrongLexeme => return ()
    | _ =>
      match ← expect .forwardSlash with
      | .error .wrongLexeme => return ()
      | _ => parseRemapNamespaceTokens fuel

/-- `_rcl_parse_remap_fully_qualified_namespace` -/
def parseRemapFullyQualifiedNamespace : StateT σ (Except Ret) Unit := do
  let _ ← expectInRule .forwardSlash
  parseRemapNamespaceTokens ((← getText).length + 1)

/-- `_rcl_parse_remap_namespace_replacement` -/
def parseRemapNamespaceReplacement (nodeName : Option (List Char)) :
    StateT σ (Except Ret) RemapImpl := do
  let _ ← expectInRule .ns
  let _ ← expectInRule .separator
  let start ← getText
  parseRemapFullyQualifiedNamespace
  -- there should be nothing left; the error is returned as it is
  match ← expect .eof with
  | .error r => throw r
  | .ok _ => return ⟨namespaceRemap, nodeName, none, some (textBetween start (← getText))⟩

/-- `_rcl_parse_remap_nodename_replacement` -/
def parseRemapNodenameReplacement (nodeName : Option (List Char)) :
    StateT σ (Except Ret) RemapImpl := do
  let _ ← expectInRule .node
  let _ ← expectInRule .separator
  match ← expect .token with
  | .error .wrongLexeme => throw .invalidRemapRule
  | .error r => throw r
  | .ok text => return ⟨nodenameRemap, nodeName, none, some text⟩

/-- `_rcl_parse_remap_nodename_prefix` -/
def parseRemapNodenamePrefix : StateT σ (Except Ret) (List Char) := do
  let nodeName ← expectInRule .token
  let _ ← expectInRule .colon
  match nodeName with
  | some text => return text
  -- the variable has no value if the first `expect` failed otherwise
  | none => throw .undefined

/-- the kinds of rules -/
def parseRemapBody (nodeName : Option (List Char)) : StateT σ (Except Ret) RemapImpl := do
  let lexeme ← peek
  if lexeme = .node then parseRemapNodenameReplacement nodeName
  else if lexeme = .ns then parseRemapNamespaceReplacement nodeName
  else parseRemapNameRemap nodeName

def parseRemapOptionalPrefix : StateT σ (Except Ret) (Option (List Char)) := do
  let (lexeme1, lexeme2) ← peek2
  if lexeme1 = .token ∧ lexeme2 = .colon then return some (← parseRemapNodenamePrefix)
  else return none

/-- `_rcl_parse_remap_begin_remap_rule` -/
def parseRemapBeginRemapRule : StateT σ (Except Ret) RemapImpl := do
  let nodeName ← parseRemapOptionalPrefix
  let rule ← parseRemapBody nodeName
  -- make sure all characters in string have been consumed
  match ← expect .eof with
  | .error .wrongLexeme => throw .invalidRemapRule
  | .error r => throw r
  | .ok _ => return rule

end

/-- `_rcl_parse_remap_rule` -/
def parseRemapRule (arg : List Char) : Except Ret RemapImpl :=
  (·.1) <$> parseRemapBeginRemapRule.run (Lookahead2.init arg)

end PMROS2.Remap
