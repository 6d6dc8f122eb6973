import PMROS2.Topics.Expand

/-!
# What expanded names look like

An expanded name is absolute and has no braces.  It need not be a valid name again: the value `/`,
which is a namespace, leaves a slash at the end of the name or before a digit.

* `SlashMisplaced`                 a key of value `/` at the end or before a digit;
* `fill_wellFormed_iff`            nothing else goes wrong when tokens and namespaces are filled in;
* `expandTopicName_expanded`       termination, unknown keys, and the shape of the result.
-/

namespace PMROS2.Topics
open PMROS2.Strings PMROS2.Template PMROS2.Simulation

/-! ## a slash at the wrong place -/

/-- a key whose value is `/` is the last piece, or a digit follows it -/
def SlashMisplaced (value : Substitutions) (ps : List Piece) : Prop :=
  ∃ a k b, ps = a ++ .key k :: b ∧ value k = some ['/'] ∧
    (b = [] ∨ ∃ d b', b = .char d :: b' ∧ isDigit d = true)

section
variable {value : Substitutions}

theorem slashMisplaced_char {c : Char} {ps : List Piece} :
    SlashMisplaced value (.char c :: ps) ↔ SlashMisplaced value ps := by
  constructor
  · rintro ⟨a, k, b, hps, hv, hb⟩
    cases a with
    | nil => cases hps
    | cons p a => exact ⟨a, k, b, (List.cons.inj hps).2, hv, hb⟩
  · rintro ⟨a, k, b, rfl, hv, hb⟩
    exact ⟨.char c :: a, k, b, rfl, hv, hb⟩

theorem slashMisplaced_key {k : Text} {ps : List Piece} :
    SlashMisplaced value (.key k :: ps) ↔
      (value k = some ['/'] ∧ (ps = [] ∨ ∃ d qs, ps = .char d :: qs ∧ isDigit d = true)) ∨
        SlashMisplaced value ps := by
  constructor
  · rintro ⟨a, k', b, hps, hv, hb⟩
    cases a with
    | nil =>
      obtain ⟨hk, rfl⟩ := List.cons.inj hps
      obtain rfl := Piece.key.inj hk
      exact .inl ⟨hv, hb⟩
    | cons p a => exact .inr ⟨a, k', b, (List.cons.inj hps).2, hv, hb⟩
  · rintro (⟨hv, hb⟩ | ⟨a, k', b, rfl, hv, hb⟩)
    · exact ⟨[], k, ps, rfl, hv, hb⟩
    · exact ⟨.key k :: a, k', b, rfl, hv, hb⟩

theorem slashMisplaced_chars (s : Text) {ps : List Piece} :
    SlashMisplaced value (s.map .char ++ ps) ↔ SlashMisplaced value ps := by
  induction s with
  | nil => rfl
  | cons c s ih => exact slashMisplaced_char.trans ih

/-! ## tokens and namespaces filled in -/

theorem fill_char (c : Char) (ps : List Piece) : fill value (.char c :: ps) = c :: fill value ps :=
  rfl

theorem fill_key {k v : Text} (h : value k = some v) (ps : List Piece) :
    fill value (.key k :: ps) = v ++ fill value ps := by
  simp [fill, h]

/-- every key has a value that is a part of a name -/
def Parts (value : Substitutions) (ps : List Piece) : Prop :=
  ∀ k ∈ keys ps, ∃ v, value k = some v ∧ NamePart v

theorem Parts.tail {p : Piece} {ps : List Piece} (h : Parts value (p :: ps)) : Parts value ps := by
  intro k hk
  exact h k (mem_keys.mpr (List.mem_cons_of_mem p (mem_keys.mp hk)))

theorem fill_eq_nil {ps : List Piece} (h : Parts value ps) : fill value ps = [] ↔ ps = [] := by
  constructor
  · intro hnil
    cases ps with
    | nil => rfl
    | cons p ps =>
      cases p with
      | char c => cases hnil
      | key k =>
        obtain ⟨v, hv, hpart⟩ := h k (mem_keys.mpr List.mem_cons_self)
        rw [fill_key hv, List.append_eq_nil_iff] at hnil
        exact absurd hnil.1 hpart.ne_nil
  · rintro rfl
    rfl

theorem fill_head_digit {ps : List Piece} (h : Parts value ps) {d : Char}
    (hd : d ∈ (fill value ps).head?) (hdigit : isDigit d = true) : ∃ qs, ps = .char d :: qs := by
  cases ps with
  | nil => cases hd
  | cons p ps =>
    cases p with
    | char c =>
      obtain rfl := Option.some.inj hd
      exact ⟨ps, rfl⟩
    | key k =>
      obtain ⟨v, hv, hpart⟩ := h k (mem_keys.mpr List.mem_cons_self)
      rw [fill_key hv, List.head?_append_of_ne_nil _ hpart.ne_nil] at hd
      rw [hpart.head d hd] at hdigit
      cases hdigit

theorem getLast?_cons_ne {c : Char} {s : Text} :
    (c :: s).getLast? ≠ some '/' ↔ (s = [] → c ≠ '/') ∧ s.getLast? ≠ some '/' := by
  by_cases hs : s = []
  · subst hs
    simp
  · rw [List.getLast?_cons_of_ne_nil hs]
    simp [hs]

theorem getLast?_append_ne {s t : Text} :
    (s ++ t).getLast? ≠ some '/' ↔ (t = [] → s.getLast? ≠ some '/') ∧ t.getLast? ≠ some '/' := by
  by_cases ht : t = []
  · subst ht
    simp
  · rw [List.getLast?_append_of_ne_nil _ ht]
    simp [ht]

/-- **Tokens and namespaces filled in**: the slashes stay at their places, unless a value is a
slash itself. -/
theorem fill_wellFormed_iff {ps : List Piece} (hparts : Parts value ps)
    (hlast : (render ps).getLast? ≠ some '/') (hchain : NoDigitAfterSlash (render ps)) :
    (fill value ps).getLast? ≠ some '/' ∧ NoDigitAfterSlash (fill value ps) ↔
      ¬ SlashMisplaced value ps := by
  induction ps with
  | nil =>
    refine ⟨fun _ => ?_, fun _ => ⟨by simp [fill], List.isChain_nil⟩⟩
    rintro ⟨a, k, b, h, -⟩
    cases a <;> cases h
  | cons p ps ih =>
    cases p with
    | char c =>
      rw [render_char] at hlast hchain
      obtain ⟨hend, hlast⟩ := getLast?_cons_ne.mp hlast
      obtain ⟨hnext, hchain⟩ := List.isChain_cons.mp hchain
      rw [slashMisplaced_char, ← ih hparts.tail hlast hchain, fill_char, getLast?_cons_ne,
        NoDigitAfterSlash, List.isChain_cons]
      have hempty : fill value ps = [] → c ≠ '/' := by
        intro hnil
        rw [fill_eq_nil hparts.tail] at hnil
        subst hnil
        exact hend rfl
      have hdigit : ∀ d ∈ (fill value ps).head?, ¬ (c = '/' ∧ isDigit d = true) := by
        rintro d hd ⟨hc, hdd⟩
        obtain ⟨qs, rfl⟩ := fill_head_digit hparts.tail hd hdd
        exact hnext d rfl ⟨hc, hdd⟩
      exact ⟨fun h => ⟨h.1.2, h.2.2⟩, fun h => ⟨⟨hempty, h.1⟩, hdigit, h.2⟩⟩
    | key k =>
      obtain ⟨v, hv, hpart⟩ := hparts k (mem_keys.mpr List.mem_cons_self)
      have hrest : (render ps).getLast? ≠ some '/' ∧ NoDigitAfterSlash (render ps) := by
        rw [render_key, ← List.singleton_append (x := '}'), ← List.append_assoc,
          ← List.cons_append] at hlast hchain
        exact ⟨(getLast?_append_ne.mp hlast).2, (noDigitAfterSlash_append.mp hchain).2.1⟩
      rw [slashMisplaced_key, not_or, ← ih hparts.tail hrest.1 hrest.2, fill_key hv,
        getLast?_append_ne, noDigitAfterSlash_append, fill_eq_nil hparts.tail, hv]
      constructor
      · rintro ⟨⟨hend, hl⟩, -, hc, hboundary⟩
        refine ⟨?_, hl, hc⟩
        rintro ⟨hslash, hnil | ⟨d, qs, rfl, hd⟩⟩
        · rw [Option.some.inj hslash] at hend
          exact hend hnil rfl
        · rw [Option.some.inj hslash] at hboundary
          exact hboundary '/' rfl d rfl ⟨rfl, hd⟩
      · rintro ⟨hno, hl, hc⟩
        refine ⟨⟨?_, hl⟩, hpart.chain, hc, ?_⟩
        · intro hnil hvl
          exact hno ⟨congrArg some (hpart.last hvl), .inl hnil⟩
        · rintro c hvc d hd ⟨rfl, hdigit⟩
          obtain ⟨qs, hqs⟩ := fill_head_digit hparts.tail hd hdigit
          exact hno ⟨congrArg some (hpart.last hvc), .inr ⟨d, qs, hqs, hdigit⟩⟩

end

/-! ## before the values are filled in -/

section
variable {nodeName nodeNamespace : Text} {substitutions : Substitutions}

/-- no slash at the end and no digit after one -/
def WellFormed (s : Text) : Prop := s.getLast? ≠ some '/' ∧ NoDigitAfterSlash s

theorem joinNamespace_eq (ns s : Text) : joinNamespace ns s = joinNamespace ns [] ++ s := by
  rw [← joinNamespace_append, List.nil_append]

theorem joinNamespace_wellFormed {ns s : Text} (hns : isNamespace ns = true) (hne : s ≠ [])
    (hhead : ∀ c ∈ s.head?, isDigit c = false) (hs : WellFormed s) :
    WellFormed (joinNamespace ns s) := by
  have hpart := isNamespace_namePart hns
  have hprefix : NoDigitAfterSlash (joinNamespace ns []) := by
    unfold joinNamespace
    split
    · rw [List.append_nil]
      exact hpart.chain
    · refine noDigitAfterSlash_append.mpr ⟨hpart.chain, List.isChain_singleton _, ?_⟩
      rintro c - d hd ⟨-, hdigit⟩
      obtain rfl := Option.some.inj hd
      cases hdigit
  rw [joinNamespace_eq, WellFormed, getLast?_append_ne, noDigitAfterSlash_append]
  refine ⟨⟨fun h => absurd h hne, hs.1⟩, hprefix, hs.2, ?_⟩
  rintro c - d hd ⟨-, hdigit⟩
  rw [hhead d hd] at hdigit
  cases hdigit

theorem joinNamespace_head {ns : Text} (hns : isNamespace ns = true) (s : Text) :
    (joinNamespace ns s).head? = some '/' := by
  have hne := (isNamespace_namePart hns).ne_nil
  unfold joinNamespace
  split
  · rw [List.head?_append_of_ne_nil _ hne, isNamespace_head hns]
  · rw [List.head?_append_of_ne_nil _ hne, isNamespace_head hns]

/-- the text of the pieces, keys included, has the slashes of the name -/
theorem pieces_wellFormed {name : Text} (h : Accepted name) (hnode : isToken nodeName = true)
    (hns : isNamespace nodeNamespace = true) :
    WellFormed (render (pieces nodeName nodeNamespace name)) ∧
      ∀ c ∈ (render (pieces nodeName nodeNamespace name)).head?, isDigit c = false := by
  rw [(render_pieces h hnode hns).1]
  by_cases ht : name.head? = some '~'
  · obtain ⟨rest, rfl⟩ := List.head?_eq_some_iff.mp ht
    have hpart := isToken_namePart hnode
    have hfull : WellFormed (joinNamespace nodeNamespace nodeName) :=
      joinNamespace_wellFormed hns hpart.ne_nil hpart.head ⟨isToken_last hnode, hpart.chain⟩
    rw [if_pos ht, joinNamespace_append]
    refine ⟨⟨?_, ?_⟩, ?_⟩
    · exact getLast?_append_ne.mpr ⟨fun _ => hfull.1, (getLast?_cons_ne.mp h.getLast).2⟩
    · refine noDigitAfterSlash_append.mpr ⟨hfull.2, (List.isChain_cons.mp h.chain).2, ?_⟩
      rintro c hc d - ⟨rfl, -⟩
      exact hfull.1 hc
    · intro c hc
      rw [← joinNamespace_append, joinNamespace_head hns] at hc
      obtain rfl := Option.some.inj hc
      rfl
  · rw [if_neg ht]
    exact ⟨⟨h.getLast, h.chain⟩, h.not_digit⟩

theorem mem_render_of_char {ps : List Piece} {c : Char} (h : .char c ∈ ps) : c ∈ render ps :=
  List.mem_flatMap.mpr ⟨.char c, h, List.mem_singleton.mpr rfl⟩

/-- apart from keys there are only characters of names, and no tilde any more -/
theorem pieces_chars {name : Text} (h : Accepted name) (hnode : isToken nodeName = true)
    (hns : isNamespace nodeNamespace = true) {c : Char}
    (hc : .char c ∈ pieces nodeName nodeNamespace name) : isNameChar c = true := by
  obtain ⟨hrender, hplain⟩ := render_pieces h hnode hns
  obtain ⟨hopen, hclose⟩ := hplain _ hc
  have hmem := mem_render_of_char hc
  rw [hrender] at hmem
  cases name with
  | nil => cases h
  | cons first rest =>
    obtain ⟨hfirst, hrest⟩ := h.chars
    have htail : c ∈ rest → isNameChar c = true := by
      intro hr
      rcases hrest c hr with hn | ho | hcl
      · exact hn
      · exact absurd ho hopen
      · exact absurd hcl hclose
    by_cases ht : first = '~'
    · subst ht
      rw [if_pos (by rfl), joinNamespace_append] at hmem
      rcases List.mem_append.mp hmem with hfull | hr
      · exact joinNamespace_chars (isNamespace_namePart hns).chars
          (isToken_namePart hnode).chars c hfull
      · exact htail hr
    · rw [if_neg (by simpa using ht)] at hmem
      rcases List.mem_cons.mp hmem with rfl | hr
      · rcases hfirst with hn | ho | htl
        · exact hn
        · exact absurd ho hopen
        · exact absurd htl ht
      · exact htail hr

/-! ## the result -/

theorem absolute_eq_fill (value : Substitutions) (ns : Text) (ps : List Piece) :
    absolute ns (fill value ps) = fill value ps ∨
      absolute ns (fill value ps) = fill value ((joinNamespace ns []).map .char ++ ps) := by
  unfold absolute
  split
  · exact .inl rfl
  · rw [joinNamespace_eq, fill_append, fill_map_char]
    exact .inr rfl

def expanded (nodeName nodeNamespace : Text) (substitutions : Substitutions) (name : Text) : Text :=
  absolute nodeNamespace
    (fill (valueOf nodeName nodeNamespace substitutions) (pieces nodeName nodeNamespace name))

theorem expanded_head (hns : isNamespace nodeNamespace = true) (name : Text) :
    (expanded nodeName nodeNamespace substitutions name).head? = some '/' := by
  unfold expanded absolute
  split
  · assumption
  · exact joinNamespace_head hns _

/-- the characters: those of names, and those of the values -/
theorem mem_expanded {name : Text} (h : Accepted name) (hnode : isToken nodeName = true)
    (hns : isNamespace nodeNamespace = true) {c : Char}
    (hc : c ∈ expanded nodeName nodeNamespace substitutions name) :
    isNameChar c = true ∨ ∃ k ∈ keysOf name, ∃ v,
      valueOf nodeName nodeNamespace substitutions k = some v ∧ c ∈ v := by
  have hfill : c ∈ fill (valueOf nodeName nodeNamespace substitutions)
      (pieces nodeName nodeNamespace name) → isNameChar c = true ∨ ∃ k ∈ keysOf name, ∃ v,
        valueOf nodeName nodeNamespace substitutions k = some v ∧ c ∈ v := by
    intro hc
    rw [mem_fill, keys_pieces] at hc
    rcases hc with hchar | hkey
    · exact .inl (pieces_chars h hnode hns hchar)
    · exact .inr hkey
  rcases absolute_eq_fill (valueOf nodeName nodeNamespace substitutions) nodeNamespace
    (pieces nodeName nodeNamespace name) with heq | heq
  · rw [expanded, heq] at hc
    exact hfill hc
  · rw [expanded, heq, fill_append, fill_map_char] at hc
    rcases List.mem_append.mp hc with hpre | hc
    · refine .inl (joinNamespace_chars (isNamespace_namePart hns).chars ?_ c hpre)
      exact fun d hd => absurd hd List.not_mem_nil
    · exact hfill hc

theorem mem_expanded_of_value {name : Text} {k v : Text} (hk : k ∈ keysOf name)
    (hv : valueOf nodeName nodeNamespace substitutions k = some v) {c : Char} (hc : c ∈ v) :
    c ∈ expanded nodeName nodeNamespace substitutions name := by
  have hfill : c ∈ fill (valueOf nodeName nodeNamespace substitutions)
      (pieces nodeName nodeNamespace name) := by
    rw [mem_fill, keys_pieces]
    exact .inr ⟨k, hk, v, hv, hc⟩
  unfold expanded absolute
  split
  · exact hfill
  · rw [joinNamespace_eq]
    exact List.mem_append_right _ hfill

theorem slashMisplaced_pieces (value : Substitutions) (name : Text) :
    SlashMisplaced value (pieces nodeName nodeNamespace name) ↔
      SlashMisplaced value (scan none name) := by
  by_cases ht : name.head? = some '~'
  · obtain ⟨rest, rfl⟩ := List.head?_eq_some_iff.mp ht
    rw [pieces, slashMisplaced_chars]
    exact slashMisplaced_char.symm
  · rw [pieces_of_ne_tilde ht]

/-- **Valid again**, exactly when no slash gets to the wrong place. -/
theorem expanded_accepted_iff {name : Text} (h : Accepted name) (hnode : isToken nodeName = true)
    (hns : isNamespace nodeNamespace = true)
    (hparts : ∀ k ∈ keysOf name, ∃ v, valueOf nodeName nodeNamespace substitutions k = some v ∧
      NamePart v) :
    Accepted (expanded nodeName nodeNamespace substitutions name) ↔
      ¬ SlashMisplaced (valueOf nodeName nodeNamespace substitutions) (scan none name) := by
  have hchars : ∀ c ∈ expanded nodeName nodeNamespace substitutions name, isNameChar c = true := by
    intro c hc
    rcases mem_expanded h hnode hns hc with hn | ⟨k, hk, v, hv, hcv⟩
    · exact hn
    · obtain ⟨v', hv', hpart⟩ := hparts k hk
      obtain rfl := Option.some.inj (hv.symm.trans hv')
      exact hpart.chars c hcv
  obtain ⟨hwf, hhead⟩ := pieces_wellFormed h hnode hns
  have hps : Parts (valueOf nodeName nodeNamespace substitutions)
      (pieces nodeName nodeNamespace name) := by
    rw [Parts, keys_pieces]
    exact hparts
  rw [accepted_iff_of_absolute (expanded_head hns name) hchars]
  rcases absolute_eq_fill (valueOf nodeName nodeNamespace substitutions) nodeNamespace
    (pieces nodeName nodeNamespace name) with heq | heq
  · rw [expanded, heq, fill_wellFormed_iff hps hwf.1 hwf.2, slashMisplaced_pieces]
  · have hne : render (pieces nodeName nodeNamespace name) ≠ [] := by
      rw [(render_pieces h hnode hns).1]
      split
      · intro hnil
        have hj := joinNamespace_head hns (nodeName ++ name.drop 1)
        rw [hnil] at hj
        cases hj
      · exact h.ne_nil
    have hjoin := joinNamespace_wellFormed hns hne hhead hwf
    have hrender : render ((joinNamespace nodeNamespace []).map .char ++
        pieces nodeName nodeNamespace name) =
        joinNamespace nodeNamespace (render (pieces nodeName nodeNamespace name)) := by
      rw [render_append, render_map_char, ← joinNamespace_eq]
    have hps' : Parts (valueOf nodeName nodeNamespace substitutions)
        ((joinNamespace nodeNamespace []).map .char ++ pieces nodeName nodeNamespace name) := by
      rw [Parts, keys_append, keys_map_char, List.nil_append]
      exact hps
    rw [expanded, heq, fill_wellFormed_iff hps' (by rw [hrender]; exact hjoin.1)
      (by rw [hrender]; exact hjoin.2), slashMisplaced_chars, slashMisplaced_pieces]

end

/-- what the expansion of a name promises -/
structure Expansion (lib : Library) (nodeName nodeNamespace : Text) (substitutions : Substitutions)
    (name out : Text) : Prop where
  /-- the tilde and all keys are replaced at once, and a relative name gets the namespace -/
  atOnce : out = absolute nodeNamespace (fill (valueOf nodeName nodeNamespace substitutions)
    (pieces nodeName nodeNamespace name))
  head : out.head? = some '/'
  unbraced : Unbraced out
  /-- only a value can bring a tilde -/
  tilde : '~' ∈ out ↔ ∃ k ∈ keysOf name, ∃ v,
    valueOf nodeName nodeNamespace substitutions k = some v ∧ '~' ∈ v
  /-- valid again, unless a value `/` stands at the end or before a digit -/
  again : (∀ k ∈ keysOf name, ∀ v, valueOf nodeName nodeNamespace substitutions k = some v →
      isToken v = true ∨ isNamespace v = true) →
    (Accepted out ↔
      ¬ SlashMisplaced (valueOf nodeName nodeNamespace substitutions) (scan none name))
  unchanged : Accepted out →
    ∀ fuel, expandTopicName lib fuel out nodeName nodeNamespace substitutions = some (.ok out)

section
variable {nodeName nodeNamespace : Text} {substitutions : Substitutions}

theorem expandTopicName_unchanged {lib : Library} {name : Text} (hname : Accepted name)
    (hnode : lib.validateNodeName nodeName = .ok true)
    (hns : lib.validateNamespace nodeNamespace = .ok true) (hhead : name.head? = some '/')
    (hbrace : '{' ∉ name) (fuel : Nat) :
    expandTopicName lib fuel name nodeName nodeNamespace substitutions = some (.ok name) := by
  have hno : name.contains '{' = false := by
    rw [Bool.eq_false_iff, ne_eq, List.contains_iff_mem]
    exact hbrace
  rw [expandTopicName, checkNames_ok hname hnode hns]
  exact if_pos ⟨hhead, hno⟩

theorem expanded_expansion {lib : Library} (hlib : lib.Documented) {name : Text}
    (hname : Accepted name) (hnode : lib.validateNodeName nodeName = .ok true)
    (hns : lib.validateNamespace nodeNamespace = .ok true)
    (hvalues : ∀ k v, substitutions k = some v → Unbraced v)
    (hknown : ∀ k ∈ keysOf name, valueOf nodeName nodeNamespace substitutions k ≠ none) :
    Expansion lib nodeName nodeNamespace substitutions name
      (expanded nodeName nodeNamespace substitutions name) := by
  have hnode' := hlib.nodeName nodeName hnode
  have hns' := hlib.nodeNamespace nodeNamespace hns
  have hhead : (expanded nodeName nodeNamespace substitutions name).head? = some '/' :=
    expanded_head hns' name
  -- a character that no name has comes from a value
  have hother : ∀ c, isNameChar c = false → c ∈ expanded nodeName nodeNamespace substitutions name →
      ∃ k ∈ keysOf name, ∃ v, valueOf nodeName nodeNamespace substitutions k = some v ∧ c ∈ v := by
    intro c hno hc
    rcases mem_expanded hname hnode' hns' hc with hn | hv
    · rw [hno] at hn
      cases hn
    · exact hv
  have hunbraced : Unbraced (expanded nodeName nodeNamespace substitutions name) := by
    constructor
    · intro hc
      obtain ⟨k, -, v, hv, hcv⟩ := hother _ rfl hc
      exact (valueOf_unbraced hnode' hns' hvalues k v hv).1 hcv
    · intro hc
      obtain ⟨k, -, v, hv, hcv⟩ := hother _ rfl hc
      exact (valueOf_unbraced hnode' hns' hvalues k v hv).2 hcv
  refine ⟨rfl, hhead, hunbraced, ⟨hother _ rfl, ?_⟩, ?_, ?_⟩
  · rintro ⟨k, hk, v, hv, hc⟩
    exact mem_expanded_of_value hk hv hc
  · intro hvalid
    refine expanded_accepted_iff hname hnode' hns' fun k hk => ?_
    obtain ⟨v, hv⟩ := Option.ne_none_iff_exists'.mp (hknown k hk)
    refine ⟨v, hv, ?_⟩
    rcases hvalid k hk v hv with ht | hn
    · exact isToken_namePart ht
    · exact isNamespace_namePart hn
  · intro hagain fuel
    exact expandTopicName_unchanged hagain hnode hns hhead hunbraced.1 fuel

end

/-- **Expansion of an accepted name** comes to an end; it fails just for an unknown key, and
otherwise everything is replaced at once. -/
theorem expandTopicName_expanded (lib : Library) (hlib : lib.Documented)
    (name nodeName nodeNamespace : Text) (substitutions : Substitutions) (hname : Accepted name)
    (hnode : lib.validateNodeName nodeName = .ok true)
    (hns : lib.validateNamespace nodeNamespace = .ok true)
    (hvalues : ∀ k v, substitutions k = some v → Unbraced v) :
    ∃ enough, ∀ fuel, enough ≤ fuel →
      (expandTopicName lib fuel name nodeName nodeNamespace substitutions =
          some (.error .unknownSubstitution) ↔
        ∃ k ∈ keysOf name, valueOf nodeName nodeNamespace substitutions k = none) ∧
      ((∀ k ∈ keysOf name, valueOf nodeName nodeNamespace substitutions k ≠ none) →
        ∃ out, expandTopicName lib fuel name nodeName nodeNamespace substitutions =
            some (.ok out) ∧
          Expansion lib nodeName nodeNamespace substitutions name out) := by
  refine ⟨(keysOf name).length + 1, fun fuel hfuel => ?_⟩
  rw [expandTopicName_outcome hlib hname hnode hns hvalues hfuel, outcome, keys_pieces]
  by_cases hall : (keysOf name).all
      (fun k => (valueOf nodeName nodeNamespace substitutions k).isSome) = true
  · have hknown : ∀ k ∈ keysOf name, valueOf nodeName nodeNamespace substitutions k ≠ none := by
      intro k hk
      exact Option.isSome_iff_ne_none.mp (List.all_eq_true.mp hall k hk)
    rw [if_pos hall]
    refine ⟨⟨?_, ?_⟩, fun _ => ?_⟩
    · intro h
      cases h
    · rintro ⟨k, hk, hv⟩
      exact absurd hv (hknown k hk)
    · exact ⟨_, rfl, expanded_expansion hlib hname hnode hns hvalues hknown⟩
  · have hunknown : ∃ k ∈ keysOf name, valueOf nodeName nodeNamespace substitutions k = none := by
      by_contra hno
      push Not at hno
      exact hall (List.all_eq_true.mpr fun k hk => Option.isSome_iff_ne_none.mpr (hno k hk))
    rw [if_neg hall]
    refine ⟨⟨fun _ => hunknown, fun _ => rfl⟩, fun hknown => ?_⟩
    obtain ⟨k, hk, hv⟩ := hunknown
    exact absurd hv (hknown k hk)

theorem expandTopicName_expanded_chatter :
    ∃ enough, ∀ fuel, enough ≤ fuel →
      expandTopicName plainLibrary fuel "~/{robot}{ns}/chatter".toList "talker".toList
          "/demo".toList (oneSubstitution "robot".toList "r2".toList) =
        some (.ok "/demo/talker/r2/demo/chatter".toList) := by
  have hvalues : ∀ k v, oneSubstitution "robot".toList "r2".toList k = some v → Unbraced v := by
    intro k v h
    unfold oneSubstitution at h
    split at h
    · obtain rfl := Option.some.inj h
      unfold Unbraced
      decide
    · cases h
  obtain ⟨enough, henough⟩ := expandTopicName_expanded plainLibrary plainLibrary_documented
    "~/{robot}{ns}/chatter".toList "talker".toList "/demo".toList
    (oneSubstitution "robot".toList "r2".toList) (by decide) (by decide) (by decide) hvalues
  refine ⟨enough, fun fuel hfuel => ?_⟩
  obtain ⟨out, hout, hexp⟩ := (henough fuel hfuel).2 (by decide)
  rw [hout, hexp.atOnce]
  decide

/-- in the namespace `/` the name `{ns}` becomes `/`, which is no valid name; and a value may have a
tilde -/
theorem root_namespace_not_accepted :
    (Accepted "{ns}".toList ∧
      expandTopicName plainLibrary 2 "{ns}".toList "talker".toList "/".toList (fun _ => none) =
        some (.ok "/".toList) ∧
      isNamespace "/".toList = true ∧ ¬ Accepted "/".toList) ∧
    (Accepted "{home}".toList ∧ Unbraced "~".toList ∧
      expandTopicName plainLibrary 2 "{home}".toList "talker".toList "/demo".toList
        (oneSubstitution "home".toList "~".toList) = some (.ok "/demo/~".toList)) := by
  unfold Unbraced
  decide

end PMROS2.Topics
