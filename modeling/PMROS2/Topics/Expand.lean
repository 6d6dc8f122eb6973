import PMROS2.Topics.Validator

/-!
# Expansion of topic names

`rcl_expand_topic_name` (`expand_topic_name.c`).  Allocations succeed and no argument is NULL.  The
validation of node names and namespaces and the textual replacement are those of `rmw` and
`rcutils`, a parameter (`Library`); a string map is what `rcutils_string_map_getn` finds in it.

The loop has fuel: without a result (`none`) it has not come to an end, or a pointer means nothing.

* `Library.Documented`          what the libraries promise;
* `substitutionLoop_outcome`    the loop replaces one key after the other, and all in the end;
* `expandTopicName_outcome`     the whole function.
-/

namespace PMROS2.Topics
open PMROS2.Strings PMROS2.Template PMROS2.Simulation

/-- the error codes of `rcl/types.h` that are returned here -/
inductive RclRet
  | error
  | invalidArgument
  | topicNameInvalid
  | nodeInvalidName
  | nodeInvalidNamespace
  | unknownSubstitution
  deriving DecidableEq, Repr

abbrev Substitutions := Text → Option Text

/-! ## the code -/

/-- the replacement for the key at the beginning of a text; `len` counts the braces too -/
def replacementAt (nodeName nodeNamespace : Text) (substitutions : Substitutions)
    (openingBrace : Text) (len : Nat) : Option Text :=
  if strncmpEq (braced "node".toList) openingBrace len then some nodeName
  else if strncmpEq (braced "ns".toList) openingBrace len ||
      strncmpEq (braced "namespace".toList) openingBrace len then some nodeNamespace
  else substitutions ((openingBrace.drop 1).take (len - 2))

/-- the `while` loop -/
def substitutionLoop (lib : Library) (nodeName nodeNamespace : Text)
    (substitutions : Substitutions) : Nat → Text → Option (Except RclRet Text)
  | 0, _ => none
  | fuel + 1, currentOutput =>
    match find '{' currentOutput with
    | none => some (.ok currentOutput)
    | some opening =>
      match find '}' currentOutput with
      | none => none
      | some closing =>
        if closing < opening then none
        else
          let openingBrace := currentOutput.drop opening
          let len := closing - opening + 1
          match replacementAt nodeName nodeNamespace substitutions openingBrace len with
          | none => some (.error .unknownSubstitution)
          | some replacement =>
            substitutionLoop lib nodeName nodeNamespace substitutions fuel
              (lib.replStr currentOutput (openingBrace.take len) replacement)

/-- the formats `"%s%s"` and `"%s/%s"` -/
def joinNamespace (nodeNamespace name : Text) : Text :=
  if nodeNamespace.length = 1 then nodeNamespace ++ name else nodeNamespace ++ '/' :: name

/-- `rmw_ret_t` to `rcl_ret_t` -/
def RmwRet.toRcl : RmwRet → RclRet
  | .invalidArgument => .invalidArgument
  | .other => .error

/-- the checks at the beginning -/
def checkNames (lib : Library) (inputTopicName nodeName nodeNamespace : Text) :
    Except RclRet Unit :=
  match validateTopicName inputTopicName with
  | .error _ => .error .topicNameInvalid
  | .ok () =>
    match lib.validateNodeName nodeName with
    | .error ret => .error ret.toRcl
    | .ok false => .error .nodeInvalidName
    | .ok true =>
      match lib.validateNamespace nodeNamespace with
      | .error ret => .error ret.toRcl
      | .ok false => .error .nodeInvalidNamespace
      | .ok true => .ok ()

/-- `rcl_expand_topic_name` -/
def expandTopicName (lib : Library) (fuel : Nat) (inputTopicName nodeName nodeNamespace : Text)
    (substitutions : Substitutions) : Option (Except RclRet Text) :=
  match checkNames lib inputTopicName nodeName nodeNamespace with
  | .error ret => some (.error ret)
  | .ok () =>
    let hasASubstitution := inputTopicName.contains '{'
    let hasANamespaceTilde := inputTopicName.head? = some '~'
    let isAbsolute := inputTopicName.head? = some '/'
    if isAbsolute ∧ hasASubstitution = false then some (.ok inputTopicName)
    else
      let localOutput := if hasANamespaceTilde
        then joinNamespace nodeNamespace (nodeName ++ inputTopicName.drop 1)
        else inputTopicName
      let result := if hasASubstitution
        then substitutionLoop lib nodeName nodeNamespace substitutions fuel localOutput
        else some (.ok localOutput)
      match result with
      | none => none
      | some (.error ret) => some (.error ret)
      | some (.ok localOutput) =>
        some (.ok (if localOutput.head? = some '/' then localOutput
          else joinNamespace nodeNamespace localOutput))

/-! ## names -/

/-- the name of a node, or one token of a longer name -/
def isToken (s : Text) : Bool :=
  match s with
  | [] => false
  | c :: s => !isDigit c && isWord c && s.all isWord

/-- `/`, or tokens with a slash before each -/
def isNamespace (s : Text) : Bool :=
  match s with
  | '/' :: rest => rest = [] || (rest.splitOn '/').all isToken
  | _ => false

/-- what the documentation of the other packages says -/
structure Library.Documented (lib : Library) : Prop where
  nodeName : ∀ name, lib.validateNodeName name = .ok true → isToken name = true
  nodeNamespace : ∀ ns, lib.validateNamespace ns = .ok true → isNamespace ns = true
  replStr : ∀ str old new, old ≠ [] → lib.replStr str old new = replace old new str

def plainLibrary : Library where
  validateNodeName name := .ok (isToken name)
  validateNamespace ns := .ok (isNamespace ns)
  replStr str old new := replace old new str

theorem plainLibrary_documented : plainLibrary.Documented where
  nodeName _ h := Except.ok.inj h
  nodeNamespace _ h := Except.ok.inj h
  replStr _ _ _ _ := rfl

/-- a map with one entry -/
def oneSubstitution (key value : Text) : Substitutions :=
  fun k => if k = key then some value else none

/-! ## what the result is -/

/-- the value of a key: the built-in ones first -/
def valueOf (nodeName nodeNamespace : Text) (substitutions : Substitutions) : Substitutions :=
  fun k =>
    if k = "node".toList then some nodeName
    else if k = "ns".toList ∨ k = "namespace".toList then some nodeNamespace
    else substitutions k

/-- the pieces of a name, with the full name of the node for a tilde at the beginning -/
def pieces (nodeName nodeNamespace : Text) : Text → List Piece
  | '~' :: rest => (joinNamespace nodeNamespace nodeName).map .char ++ scan none rest
  | name => scan none name

/-- prefixed with the namespace when relative -/
def absolute (nodeNamespace name : Text) : Text :=
  if name.head? = some '/' then name else joinNamespace nodeNamespace name

def keysOf (name : Text) : List Text := keys (scan none name)

/-- all keys and the tilde replaced at once -/
def outcome (value : Substitutions) (ps : List Piece) : Except RclRet Text :=
  if (keys ps).all fun k => (value k).isSome then .ok (fill value ps)
  else .error .unknownSubstitution

/-! ## the loop -/

section
variable {nodeName nodeNamespace : Text} {substitutions : Substitutions}

theorem strncmpEq_braced {w k : Text} (hw : Unbraced w) (hk : Unbraced k) (s : Text) :
    strncmpEq (braced w) (braced k ++ s) (braced k).length = decide (k = w) := by
  rw [strncmpEq, List.take_left, decide_eq_decide]
  constructor
  · intro h
    have hpre : braced k <+: '{' :: (w ++ '}' :: []) := by
      rw [← h]
      exact List.take_prefix _ _
    exact eq_of_prefix_braced hk hw hpre
  · rintro rfl
    exact List.take_length

theorem replacementAt_braced {k : Text} (hk : Unbraced k) (s : Text) :
    replacementAt nodeName nodeNamespace substitutions (braced k ++ s) (braced k).length =
      valueOf nodeName nodeNamespace substitutions k := by
  have hkey : ((braced k ++ s).drop 1).take ((braced k).length - 2) = k := by
    simp [braced]
  have hnode : Unbraced "node".toList := by unfold Unbraced; decide
  have hns : Unbraced "ns".toList := by unfold Unbraced; decide
  have hnamespace : Unbraced "namespace".toList := by unfold Unbraced; decide
  rw [replacementAt, valueOf, strncmpEq_braced hnode hk, strncmpEq_braced hns hk,
    strncmpEq_braced hnamespace hk, hkey]
  simp only [decide_eq_true_eq, Bool.or_eq_true]

theorem outcome_substitute {value : Substitutions} {k v : Text} (h : value k = some v)
    (ps : List Piece) : outcome value (substitute k v ps) = outcome value ps := by
  have hall : ((keys (substitute k v ps)).all fun k => (value k).isSome) =
      (keys ps).all fun k => (value k).isSome := by
    rw [Bool.eq_iff_iff, List.all_eq_true, List.all_eq_true, keys_substitute]
    constructor
    · intro hknown k' hk'
      by_cases hkk : k' = k
      · rw [hkk, h]
        rfl
      · exact hknown k' (List.mem_filter.mpr ⟨hk', decide_eq_true hkk⟩)
    · intro hknown k' hk'
      exact hknown k' (List.mem_filter.mp hk').1
  rw [outcome, outcome, hall, fill_substitute h]

/-- **The loop** fills in all keys, if there is fuel for each of them, and stops at an unknown
one. -/
theorem substitutionLoop_outcome {lib : Library} (hlib : lib.Documented)
    (hvalue : ∀ k v, valueOf nodeName nodeNamespace substitutions k = some v → Unbraced v) :
    ∀ (fuel : Nat) (ps : List Piece), (∀ p ∈ ps, p.Plain) → (keys ps).length < fuel →
      substitutionLoop lib nodeName nodeNamespace substitutions fuel (render ps) =
        some (outcome (valueOf nodeName nodeNamespace substitutions) ps) := by
  intro fuel
  induction fuel with
  | zero =>
    intro ps _ hlt
    exact absurd hlt (Nat.not_lt_zero _)
  | succ fuel ih =>
    intro ps hplain hlt
    rw [substitutionLoop]
    cases hkeys : keys ps with
    | nil =>
      obtain ⟨s, rfl⟩ := chars_of_keys_nil hkeys
      have hs : '{' ∉ s := fun hc => (hplain (.char '{') (List.mem_map_of_mem hc)).1 rfl
      rw [render_map_char, find_eq_none.mpr hs, outcome, hkeys, fill_map_char]
      rfl
    | cons k ks =>
      obtain ⟨a, b, rfl, ha⟩ := split_first_key hkeys hplain
      have hk : Unbraced k := hplain (.key k) (by simp)
      have htext : render (a.map .char ++ .key k :: b) = a ++ (braced k ++ render b) := by
        rw [render_append, render_map_char]
        rfl
      have hopen : find '{' (a ++ (braced k ++ render b)) = some a.length := find_append_cons ha.1 _
      have hclose : find '}' (a ++ (braced k ++ render b)) = some (a ++ '{' :: k).length := by
        have hno : '}' ∉ a ++ '{' :: k := by
          simp [ha.2, hk.2]
        have hfind := find_append_cons hno (render b)
        simpa [braced] using hfind
      have hlen : (a ++ '{' :: k).length - a.length + 1 = (braced k).length := by
        simp [braced]
      rw [htext, hopen, hclose]
      simp only
      rw [if_neg (by simp), List.drop_left, hlen, List.take_left, replacementAt_braced hk]
      cases hv : valueOf nodeName nodeNamespace substitutions k with
      | none =>
        rw [outcome, hkeys, if_neg]
        simp [hv]
      | some v =>
        simp only
        have hbraced : braced k ≠ [] := List.cons_ne_nil _ _
        have hfuel : (keys (substitute k v (a.map .char ++ .key k :: b))).length < fuel := by
          have hle := List.length_filter_le (· ≠ k) ks
          rw [hkeys, List.length_cons] at hlt
          rw [keys_substitute, hkeys, List.filter_cons, if_neg (by simp)]
          omega
        rw [hlib.replStr _ _ _ hbraced, ← htext, replace_render hk v hplain,
          ih _ (plain_substitute (hvalue k v hv) hplain) hfuel, outcome_substitute hv]

end

/-! ## parts of names -/

/-- a token or a namespace, seen as a part of a longer name -/
structure NamePart (s : Text) : Prop where
  ne_nil : s ≠ []
  chars : ∀ c ∈ s, isNameChar c = true
  head : ∀ c ∈ s.head?, isDigit c = false
  chain : NoDigitAfterSlash s
  last : s.getLast? = some '/' → s = ['/']

theorem noDigitAfterSlash_append {s t : Text} :
    NoDigitAfterSlash (s ++ t) ↔ NoDigitAfterSlash s ∧ NoDigitAfterSlash t ∧
      ∀ c ∈ s.getLast?, ∀ d ∈ t.head?, ¬ (c = '/' ∧ isDigit d = true) :=
  List.isChain_append

theorem isToken_word {s : Text} (h : isToken s = true) : ∀ c ∈ s, isWord c = true := by
  cases s with
  | nil => cases h
  | cons c s =>
    simp only [isToken, Bool.and_eq_true, List.all_eq_true] at h
    exact List.forall_mem_cons.mpr ⟨h.1.2, h.2⟩

theorem isToken_last {s : Text} (h : isToken s = true) : s.getLast? ≠ some '/' := by
  intro hl
  have hw := isToken_word h '/' (List.mem_of_getLast? hl)
  cases hw

theorem noDigitAfterSlash_of_word {s : Text} (h : ∀ c ∈ s, isWord c = true) :
    NoDigitAfterSlash s := by
  induction s with
  | nil => exact List.isChain_nil
  | cons c s ih =>
    refine List.isChain_cons.mpr ⟨?_, ih fun d hd => h d (List.mem_cons_of_mem c hd)⟩
    rintro d - ⟨rfl, -⟩
    cases h '/' List.mem_cons_self

theorem isToken_namePart {s : Text} (h : isToken s = true) : NamePart s where
  ne_nil := by
    rintro rfl
    cases h
  chars c hc := by
    rw [isNameChar, isToken_word h c hc]
    rfl
  head c hc := by
    cases s with
    | nil => cases hc
    | cons d s =>
      obtain rfl := Option.some.inj hc
      simp only [isToken, Bool.and_eq_true, Bool.not_eq_true'] at h
      exact h.1.1
  chain := noDigitAfterSlash_of_word (isToken_word h)
  last hl := absurd hl (isToken_last h)

/-- tokens with a slash before each -/
theorem slashed_namePart {ts : List Text} (hne : ts ≠ []) (h : ∀ t ∈ ts, isToken t = true) :
    NamePart ('/' :: List.intercalate ['/'] ts) ∧
      ('/' :: List.intercalate ['/'] ts).getLast? ≠ some '/' := by
  induction ts with
  | nil => exact absurd rfl hne
  | cons t ts ih =>
    have ht := h t List.mem_cons_self
    have hpart := isToken_namePart ht
    have hone : NoDigitAfterSlash ('/' :: t) := by
      refine List.isChain_cons.mpr ⟨?_, hpart.chain⟩
      rintro d hd ⟨-, hdigit⟩
      rw [hpart.head d hd] at hdigit
      cases hdigit
    have hlast : ('/' :: t).getLast? ≠ some '/' := by
      rw [List.getLast?_cons_of_ne_nil hpart.ne_nil]
      exact isToken_last ht
    cases ts with
    | nil =>
      rw [List.intercalate_singleton]
      refine ⟨⟨List.cons_ne_nil _ _, List.forall_mem_cons.mpr ⟨rfl, hpart.chars⟩, ?_, hone,
        fun hl => absurd hl hlast⟩, hlast⟩
      intro c hc
      obtain rfl := Option.some.inj hc
      rfl
    | cons t' ts =>
      obtain ⟨hrest, hrestlast⟩ := ih (List.cons_ne_nil _ _) fun u hu =>
        h u (List.mem_cons_of_mem t hu)
      have hsplit : '/' :: List.intercalate ['/'] (t :: t' :: ts) =
          ('/' :: t) ++ '/' :: List.intercalate ['/'] (t' :: ts) := by
        rw [List.intercalate_cons_cons, List.append_assoc]
        rfl
      have hlast' : (('/' :: t) ++ '/' :: List.intercalate ['/'] (t' :: ts)).getLast? ≠
          some '/' := by
        rw [List.getLast?_append_of_ne_nil _ (List.cons_ne_nil _ _)]
        exact hrestlast
      rw [hsplit]
      refine ⟨⟨by simp, ?_, ?_, ?_, fun hl => absurd hl hlast'⟩, hlast'⟩
      · exact List.forall_mem_append.mpr
          ⟨List.forall_mem_cons.mpr ⟨rfl, hpart.chars⟩, hrest.chars⟩
      · intro c hc
        obtain rfl := Option.some.inj hc
        rfl
      · refine noDigitAfterSlash_append.mpr ⟨hone, hrest.chain, ?_⟩
        rintro c - d hd ⟨-, hdigit⟩
        obtain rfl := Option.some.inj hd
        cases hdigit

theorem isNamespace_cases {s : Text} (h : isNamespace s = true) :
    s = ['/'] ∨ (NamePart s ∧ s.getLast? ≠ some '/' ∧ s.head? = some '/' ∧ s.length ≠ 1) := by
  unfold isNamespace at h
  split at h
  · rename_i rest
    by_cases hrest : rest = []
    · exact .inl (by rw [hrest])
    · refine .inr ?_
      simp only [hrest, decide_false, Bool.false_or, List.all_eq_true] at h
      have hne : rest.splitOn '/' ≠ [] := List.splitOn_ne_nil _ _
      have hspec := slashed_namePart hne h
      rw [List.intercalate_splitOn] at hspec
      refine ⟨hspec.1, hspec.2, rfl, ?_⟩
      rw [List.length_cons]
      have := List.length_pos_of_ne_nil hrest
      omega
  · cases h

theorem isNamespace_namePart {s : Text} (h : isNamespace s = true) : NamePart s := by
  rcases isNamespace_cases h with rfl | ⟨hs, -⟩
  · have hchars : ∀ c ∈ ['/'], isNameChar c = true := by
      intro c hc
      rw [List.mem_singleton.mp hc]
      rfl
    have hhead : ∀ c ∈ ['/'].head?, isDigit c = false := by
      intro c hc
      cases hc
      rfl
    exact ⟨List.cons_ne_nil _ _, hchars, hhead, List.isChain_singleton _, fun _ => rfl⟩
  · exact hs

theorem isNamespace_head {s : Text} (h : isNamespace s = true) : s.head? = some '/' := by
  rcases isNamespace_cases h with rfl | ⟨-, -, hs, -⟩
  · rfl
  · exact hs

theorem unbraced_of_nameChar {s : Text} (h : ∀ c ∈ s, isNameChar c = true) : Unbraced s := by
  constructor
  · intro hc
    cases h _ hc
  · intro hc
    cases h _ hc

/-! ## the whole function -/

section
variable {nodeName nodeNamespace : Text} {substitutions : Substitutions}

theorem joinNamespace_append (ns s t : Text) :
    joinNamespace ns (s ++ t) = joinNamespace ns s ++ t := by
  unfold joinNamespace
  split
  · rw [List.append_assoc]
  · rw [List.append_assoc, List.cons_append]

theorem joinNamespace_chars {ns s : Text} (hns : ∀ c ∈ ns, isNameChar c = true)
    (hs : ∀ c ∈ s, isNameChar c = true) : ∀ c ∈ joinNamespace ns s, isNameChar c = true := by
  unfold joinNamespace
  split
  · exact List.forall_mem_append.mpr ⟨hns, hs⟩
  · exact List.forall_mem_append.mpr ⟨hns, List.forall_mem_cons.mpr ⟨rfl, hs⟩⟩

theorem plain_of_nameChar {s : Text} (h : ∀ c ∈ s, isNameChar c = true) :
    ∀ p ∈ s.map Piece.char, p.Plain := by
  intro p hp
  obtain ⟨c, hc, rfl⟩ := List.mem_map.mp hp
  have hs := unbraced_of_nameChar h
  exact ⟨fun he => hs.1 (he ▸ hc), fun he => hs.2 (he ▸ hc)⟩

theorem keys_append (ps qs : List Piece) : keys (ps ++ qs) = keys ps ++ keys qs :=
  List.filterMap_append

theorem pieces_of_ne_tilde {name : Text} (h : name.head? ≠ some '~') :
    pieces nodeName nodeNamespace name = scan none name := by
  unfold pieces
  split
  · exact absurd rfl h
  · rfl

theorem keys_pieces (name : Text) : keys (pieces nodeName nodeNamespace name) = keysOf name := by
  by_cases h : name.head? = some '~'
  · obtain ⟨rest, rfl⟩ := List.head?_eq_some_iff.mp h
    rw [pieces, keys_append, keys_map_char]
    rfl
  · rw [pieces_of_ne_tilde h]
    rfl

/-- the text of the pieces is what the code starts its loop with -/
theorem render_pieces {name : Text} (h : Accepted name) (hnode : isToken nodeName = true)
    (hns : isNamespace nodeNamespace = true) :
    render (pieces nodeName nodeNamespace name) =
      (if name.head? = some '~' then joinNamespace nodeNamespace (nodeName ++ name.drop 1)
        else name) ∧
    ∀ p ∈ pieces nodeName nodeNamespace name, p.Plain := by
  by_cases ht : name.head? = some '~'
  · obtain ⟨rest, rfl⟩ := List.head?_eq_some_iff.mp ht
    obtain ⟨hrender, hplain⟩ := render_scan (s := rest) h.balanced
    rw [if_pos ht, pieces, render_append, render_map_char, hrender, joinNamespace_append]
    refine ⟨rfl, List.forall_mem_append.mpr ⟨?_, hplain⟩⟩
    exact plain_of_nameChar
      (joinNamespace_chars (isNamespace_namePart hns).chars (isToken_namePart hnode).chars)
  · rw [if_neg ht, pieces_of_ne_tilde ht]
    exact render_scan h.balanced

theorem checkNames_ok {lib : Library} {name : Text} (hname : Accepted name)
    (hnode : lib.validateNodeName nodeName = .ok true)
    (hns : lib.validateNamespace nodeNamespace = .ok true) :
    checkNames lib name nodeName nodeNamespace = .ok () := by
  rw [Accepted] at hname
  rw [checkNames, hname, hnode, hns]

theorem valueOf_unbraced (hnode : isToken nodeName = true) (hns : isNamespace nodeNamespace = true)
    (hvalues : ∀ k v, substitutions k = some v → Unbraced v) :
    ∀ k v, valueOf nodeName nodeNamespace substitutions k = some v → Unbraced v := by
  intro k v h
  unfold valueOf at h
  split at h
  · obtain rfl := Option.some.inj h
    exact unbraced_of_nameChar (isToken_namePart hnode).chars
  · split at h
    · obtain rfl := Option.some.inj h
      exact unbraced_of_nameChar (isNamespace_namePart hns).chars
    · exact hvalues k v h

theorem scan_of_not_mem {s : Text} (h : '{' ∉ s) : scan none s = s.map .char := by
  induction s with
  | nil => rfl
  | cons c s ih =>
    rw [List.mem_cons, not_or] at h
    rw [scan, if_neg (Ne.symm h.1), ih h.2, List.map_cons]

/-- **Expansion**: everything is replaced at once, and the name is made absolute; only an unknown
key is an error. -/
theorem expandTopicName_outcome {lib : Library} (hlib : lib.Documented) {name : Text}
    (hname : Accepted name) (hnode : lib.validateNodeName nodeName = .ok true)
    (hns : lib.validateNamespace nodeNamespace = .ok true)
    (hvalues : ∀ k v, substitutions k = some v → Unbraced v) {fuel : Nat}
    (hfuel : (keysOf name).length < fuel) :
    expandTopicName lib fuel name nodeName nodeNamespace substitutions =
      some ((outcome (valueOf nodeName nodeNamespace substitutions)
        (pieces nodeName nodeNamespace name)).map (absolute nodeNamespace)) := by
  have hnode' := hlib.nodeName nodeName hnode
  have hns' := hlib.nodeNamespace nodeNamespace hns
  obtain ⟨hrender, hplain⟩ := render_pieces hname hnode' hns'
  have hloop := substitutionLoop_outcome hlib (valueOf_unbraced hnode' hns' hvalues) fuel
    (pieces nodeName nodeNamespace name) hplain (by rw [keys_pieces]; exact hfuel)
  -- without a substitution the loop would have nothing to do
  have hnone : name.contains '{' = false →
      outcome (valueOf nodeName nodeNamespace substitutions)
        (pieces nodeName nodeNamespace name) = .ok (render (pieces nodeName nodeNamespace name)) := by
    intro hno
    have hno' : '{' ∉ name := by
      intro hmem
      rw [List.contains_iff_mem.mpr hmem] at hno
      cases hno
    have hkeys : keys (pieces nodeName nodeNamespace name) = [] := by
      rw [keys_pieces, keysOf, scan_of_not_mem hno', keys_map_char]
    obtain ⟨s, hs⟩ := chars_of_keys_nil hkeys
    rw [outcome, hkeys, hs, render_map_char, fill_map_char]
    rfl
  rw [expandTopicName, checkNames_ok hname hnode hns]
  simp only
  rw [← hrender]
  by_cases habs : name.head? = some '/' ∧ name.contains '{' = false
  · rw [if_pos habs, hnone habs.2, hrender, if_neg (by rw [habs.1]; decide)]
    simp only [Except.map, absolute]
    rw [if_pos habs.1]
  · rw [if_neg habs]
    have hresult : (if name.contains '{' = true
        then substitutionLoop lib nodeName nodeNamespace substitutions fuel
          (render (pieces nodeName nodeNamespace name))
        else some (.ok (render (pieces nodeName nodeNamespace name)))) =
        some (outcome (valueOf nodeName nodeNamespace substitutions)
          (pieces nodeName nodeNamespace name)) := by
      by_cases hb : name.contains '{' = true
      · rw [if_pos hb, hloop]
      · rw [if_neg hb, hnone (Bool.eq_false_iff.mpr hb)]
    rw [hresult]
    cases outcome (valueOf nodeName nodeNamespace substitutions)
        (pieces nodeName nodeNamespace name) with
    | error ret => rfl
    | ok out => rfl

end

end PMROS2.Topics
