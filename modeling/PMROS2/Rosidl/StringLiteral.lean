import PMROS2.Lib.Codecs

/-!
# IDL string literals

`rosidl_adapter` writes comments, units and string defaults as IDL string literals, and
`rosidl_parser` reads them back.  The writer passes the text through the *decoder* of
`unicode_escape`; the reader's table of escapes finds only `\x`, because two of its three
patterns are written with one backslash less and match their own text.

* `stringToIdlStringLiteral`     the writer;
* `stringLiteralChild`           the token of a literal, by the rule of the grammar;
* `getStringLiteralValue`        the reader;
* `roundTrip_iff`                the texts that come back unchanged.
-/

namespace PMROS2.Rosidl
open PMROS2.Codecs

/-! ## the writer -/

/-- `estr.replace('"', r'\"')` -/
def replaceQuote (t : Text) : Text := t.flatMap fun c => if c = 34 then [92, 34] else [c]

/-- `string_to_idl_string_literal` -/
def stringToIdlStringLiteral (names : Names) (string : Text) : Option Text := do
  let bytes ← utf8 string
  let estr ← decode names bytes
  return [34] ++ replaceQuote estr ++ [34]

/-! ## the grammar -/

/-- the pattern `(\\\"|[^"])+` of `string_literal`, or nothing -/
def matchesBody : Text → Bool
  | [] => true
  | [c] => c ≠ 34
  | c :: d :: rest =>
    if c = 92 ∧ d = 34 then matchesBody rest else c ≠ 34 && matchesBody (d :: rest)

/-- the child of the tree `string_literal`: none for `""`, else the token between the quotes -/
def stringLiteralChild (literal : Text) : Option (Option Text) :=
  match literal with
  | 34 :: rest =>
    if rest.getLast? = some 34 then
      let body := rest.dropLast
      if body = [] then some none
      else if matchesBody body then some (some body)
      else none
    else none
  | _ => none

/-! ## the reader -/

/-- the text the first pattern of `_get_escape_sequences_regex` matches -/
def listPattern : Text := text "[ntvbrfa?'\"]"

/-- the beginning of the text the second pattern matches; up to three closing brackets follow -/
def octalPattern : Text := text "[0-7"

/-- the match of the pattern at the beginning of a text, and the rest -/
def matchEscape (t : Text) : Option (Text × Text) :=
  if listPattern.isPrefixOf t then some (listPattern, t.drop listPattern.length)
  else if (octalPattern ++ [93]).isPrefixOf t then
    let brackets := ((t.drop octalPattern.length).take 3).takeWhile (· = 93)
    some (octalPattern ++ brackets, t.drop (octalPattern.length + brackets.length))
  else
    match t with
    | 92 :: 120 :: rest =>
      let arg := (rest.take 2).takeWhile (· ≠ 10)
      if arg = [] then none else some (92 :: 120 :: arg, rest.drop arg.length)
    | _ => none

/-- `_decode_escape_sequence`: a text is decoded as its UTF-8 bytes -/
def decodeEscapeSequence (names : Names) (group : Text) : Option Text :=
  (utf8 group).bind (decode names)

/-- `regex.sub`, from left to right -/
def subLoop (names : Names) : Nat → Text → Option Text
  | _, [] => some []
  | 0, _ :: _ => none
  | n + 1, c :: rest =>
    match matchEscape (c :: rest) with
    | some (group, after) => (decodeEscapeSequence names group).bind fun out =>
        (subLoop names n after).map (out ++ ·)
    | none => (subLoop names n rest).map (c :: ·)

def unescapeLoop : Nat → Text → Nat → Text
  | 0, value, _ => value
  | n + 1, value, i =>
    if i < value.length then
      if value[i]? = some 92 ∧ i + 1 < value.length ∧
          (value[i + 1]? = some 34 ∨ value[i + 1]? = some 92) then
        unescapeLoop n (value.take i ++ value.drop (i + 1)) (i + 1)
      else unescapeLoop n value (i + 1)
    else value

/-- `get_string_literal_value` -/
def getStringLiteralValue (names : Names) (child : Option Text) : Option Text :=
  match child with
  | none => some []
  | some value => (subLoop names value.length value).map fun value =>
      unescapeLoop value.length value 0

/-- a text written and read back -/
def roundTrip (names : Names) (s : Text) : Option Text := do
  let literal ← stringToIdlStringLiteral names s
  let child ← stringLiteralChild literal
  getStringLiteralValue names child

/-! ## the loop that unescapes -/

def unescape : Text → Text
  | [] => []
  | [c] => [c]
  | c :: d :: rest =>
    if c = 92 ∧ (d = 34 ∨ d = 92) then d :: unescape rest else c :: unescape (d :: rest)

theorem unescape_pair {d : Nat} (h : d = 34 ∨ d = 92) (rest : Text) :
    unescape (92 :: d :: rest) = d :: unescape rest := by
  simp only [unescape, h, and_true, if_true]

theorem unescape_keep {c : Nat} {rest : Text}
    (h : ¬ (c = 92 ∧ (rest.head? = some 34 ∨ rest.head? = some 92))) :
    unescape (c :: rest) = c :: unescape rest := by
  cases rest with
  | nil => rfl
  | cons d rest =>
    simp only [List.head?_cons, Option.some_inj] at h
    simp only [unescape, h, if_false]

/-- the loop works on the part it has not passed yet -/
theorem unescapeLoop_eq (n : Nat) (done value : Text) (h : value.length ≤ n) :
    unescapeLoop n (done ++ value) done.length = done ++ unescape value := by
  induction n generalizing done value with
  | zero =>
    obtain rfl := List.length_eq_zero_iff.mp (Nat.le_zero.mp h)
    rfl
  | succ n ih =>
    match value, h with
    | [], _ => simp [unescapeLoop, unescape]
    | c :: rest, h =>
      rw [List.length_cons] at h
      have hlt : done.length < (done ++ c :: rest).length := by simp
      have hget : (done ++ c :: rest)[done.length]? = some c := by simp
      have hnext : (done ++ c :: rest)[done.length + 1]? = rest.head? := by
        rw [List.getElem?_append_right (by omega)]
        cases rest <;> simp
      simp only [unescapeLoop, if_pos hlt, hget, hnext, Option.some_inj]
      by_cases hp : c = 92 ∧ (rest.head? = some 34 ∨ rest.head? = some 92)
      · obtain ⟨rfl, hp⟩ := hp
        match rest, hp, h with
        | d :: rest, hp, h =>
          rw [List.length_cons] at h
          have hd : d = 34 ∨ d = 92 := by simpa using hp
          have hlen : done.length + 1 < (done ++ 92 :: d :: rest).length := by simp
          have hcut : (done ++ 92 :: d :: rest).take done.length ++
              (done ++ 92 :: d :: rest).drop (done.length + 1) = (done ++ [d]) ++ rest := by
            rw [List.take_left, ← List.drop_drop, List.drop_left]
            simp
          rw [if_pos ⟨rfl, hlen, hp⟩, hcut, unescape_pair hd]
          have hi := ih (done ++ [d]) rest (by omega)
          rw [List.length_append, List.length_singleton] at hi
          rw [hi, List.append_assoc, List.singleton_append]
      · rw [if_neg fun hc => hp ⟨hc.1, hc.2.2⟩, unescape_keep hp]
        have hi := ih (done ++ [c]) rest (by omega)
        rw [List.length_append, List.length_singleton, List.append_assoc,
          List.singleton_append] at hi
        rw [hi, List.append_assoc, List.singleton_append]

theorem getStringLiteralValue_some (names : Names) (value : Text) :
    getStringLiteralValue names (some value) =
      (subLoop names value.length value).map unescape := by
  have hloop : ∀ t : Text, unescapeLoop t.length t 0 = unescape t := by
    intro t
    exact unescapeLoop_eq t.length [] t (Nat.le_refl _)
  simp only [getStringLiteralValue, hloop]

/-! ## the token of a written literal -/

theorem replaceQuote_cons (c : Nat) (t : Text) :
    replaceQuote (c :: t) = (if c = 34 then [92, 34] else [c]) ++ replaceQuote t := rfl

theorem matchesBody_keep {c : Nat} (hc : c ≠ 34) {rest : Text} (hr : rest.head? ≠ some 34) :
    matchesBody (c :: rest) = matchesBody rest := by
  cases rest with
  | nil => simp [matchesBody, hc]
  | cons d rest =>
    have hd : d ≠ 34 := fun h => hr (congrArg some h)
    simp [matchesBody, hc, hd]

theorem head?_replaceQuote (t : Text) : (replaceQuote t).head? ≠ some 34 := by
  cases t with
  | nil => intro h; cases h
  | cons c t =>
    rw [replaceQuote_cons]
    split
    · intro h
      cases h
    · rename_i hc
      intro h
      exact hc (Option.some.inj h)

theorem matchesBody_replaceQuote (t : Text) : matchesBody (replaceQuote t) = true := by
  induction t with
  | nil => rfl
  | cons c t ih =>
    rw [replaceQuote_cons]
    by_cases hc : c = 34
    · rw [if_pos hc]
      simpa [matchesBody] using ih
    · rw [if_neg hc, List.singleton_append, matchesBody_keep hc (head?_replaceQuote t)]
      exact ih

theorem replaceQuote_eq_nil {t : Text} : replaceQuote t = [] ↔ t = [] := by
  cases t with
  | nil => exact ⟨fun _ => rfl, fun _ => rfl⟩
  | cons c t =>
    rw [replaceQuote_cons]
    split <;> simp

theorem stringLiteralChild_written (t : Text) :
    stringLiteralChild ([34] ++ replaceQuote t ++ [34]) =
      some (if t = [] then none else some (replaceQuote t)) := by
  show stringLiteralChild (34 :: (replaceQuote t ++ [34])) = _
  simp only [stringLiteralChild, List.getLast?_concat, if_true, List.dropLast_concat,
    matchesBody_replaceQuote, replaceQuote_eq_nil]
  split <;> rfl

theorem roundTrip_eq (names : Names) (s : Text) :
    roundTrip names s = (utf8 s).bind fun bytes => (decode names bytes).bind fun d =>
      (subLoop names (replaceQuote d).length (replaceQuote d)).map unescape := by
  rw [roundTrip, stringToIdlStringLiteral]
  cases utf8 s with
  | none => rfl
  | some bytes =>
    cases hd : decode names bytes with
    | none => simp [hd]
    | some d =>
      simp only [Option.bind_eq_bind, Option.bind_some, hd, Option.pure_def,
        stringLiteralChild_written]
      by_cases h : d = []
      · subst h
        rfl
      · rw [if_neg h, getStringLiteralValue_some]

/-! ## one match -/

/-- the two patterns that match their own text -/
structure Plain (group : Text) : Prop where
  ascii : ∀ b ∈ group, b < 128
  noBackslash : ∀ b ∈ group, b ≠ 92
  head : ∃ rest, group = 91 :: rest

theorem Plain.benign {group : Text} (h : Plain group) : Benign group := by
  have hall : ∀ t : Text, (∀ b ∈ t, b ≠ 92) → Benign t := by
    intro t
    induction t with
    | nil => exact fun _ => trivial
    | cons c t ih =>
      intro ht
      exact ⟨fun h92 => absurd h92 (ht c List.mem_cons_self),
        ih fun b hb => ht b (List.mem_cons_of_mem c hb)⟩
  exact hall group h.noBackslash

theorem Plain.decode {group : Text} (h : Plain group) (names : Names) :
    decodeEscapeSequence names group = some group := by
  rw [decodeEscapeSequence, utf8_ascii h.ascii, Option.bind_some, decode_of_benign names h.benign]

theorem plain_listPattern : Plain listPattern :=
  ⟨by decide, by decide, ⟨text "ntvbrfa?'\"]", rfl⟩⟩

theorem plain_octalPattern {brackets : Text} (h : ∀ b ∈ brackets, b = 93) :
    Plain (octalPattern ++ brackets) := by
  refine ⟨fun b hb => ?_, fun b hb => ?_, ⟨text "0-7" ++ brackets, rfl⟩⟩
  · rcases List.mem_append.mp hb with hb | hb
    · exact (by decide : ∀ b ∈ octalPattern, b < 128) b hb
    · rw [h b hb]
      omega
  · rcases List.mem_append.mp hb with hb | hb
    · exact (by decide : ∀ b ∈ octalPattern, b ≠ 92) b hb
    · rw [h b hb]
      omega

theorem take_takeWhile_append (p : Nat → Bool) (n : Nat) (t : Text) :
    t = (t.take n).takeWhile p ++ t.drop ((t.take n).takeWhile p).length := by
  have hpre : (t.take n).takeWhile p <+: t :=
    (List.takeWhile_prefix p).trans (List.take_prefix n t)
  generalize (t.take n).takeWhile p = pre at hpre ⊢
  obtain ⟨r, rfl⟩ := hpre
  rw [List.drop_left]

/-- **One match**: a text without backslashes, or `\x` and at most two characters. -/
theorem matchEscape_spec {t group after : Text} (h : matchEscape t = some (group, after)) :
    t = group ++ after ∧
      (Plain group ∨ ∃ arg, group = 92 :: 120 :: arg ∧ arg.length ≤ 2) := by
  unfold matchEscape at h
  split at h
  · rename_i hp
    obtain ⟨rfl, rfl⟩ := Prod.mk.inj (Option.some.inj h)
    obtain ⟨r, hr⟩ := List.isPrefixOf_iff_prefix.mp hp
    refine ⟨?_, .inl plain_listPattern⟩
    rw [← hr, List.drop_left]
  · split at h
    · rename_i hp
      obtain ⟨rfl, rfl⟩ := Prod.mk.inj (Option.some.inj h)
      obtain ⟨r, hr⟩ := List.isPrefixOf_iff_prefix.mp hp
      rw [List.append_assoc] at hr
      refine ⟨?_, .inl (plain_octalPattern fun b hb => ?_)⟩
      · have hdrop : t.drop octalPattern.length = [93] ++ r := by rw [← hr, List.drop_left]
        have ht : t = octalPattern ++ t.drop octalPattern.length := by rw [hdrop, hr]
        refine ht.trans ?_
        rw [List.append_assoc, ← List.drop_drop]
        exact congrArg (octalPattern ++ ·) (take_takeWhile_append _ 3 _)
      · have hb' := List.mem_takeWhile_imp hb
        exact of_decide_eq_true hb'
    · split at h
      · simp only at h
        split at h
        · cases h
        · obtain ⟨rfl, rfl⟩ := Prod.mk.inj (Option.some.inj h)
          refine ⟨?_, .inr ⟨_, rfl, ?_⟩⟩
          · exact congrArg (fun r => 92 :: 120 :: r) (take_takeWhile_append _ 2 _)
          · refine (List.takeWhile_prefix _).length_le.trans ?_
            rw [List.length_take]
            exact Nat.min_le_left _ _
      · cases h

theorem hexDigit_ne {c d : Nat} (h : hexDigit c = some d) : c ≠ 92 := by
  rintro rfl
  cases h

/-- a byte that is a hexadecimal digit comes from that character -/
theorem utf8_head_hex {c : Nat} {t : Text} {b d : Nat} {bs : List Nat}
    (hu : utf8 (c :: t) = some (b :: bs)) (hd : hexDigit b = some d) :
    c = b ∧ utf8 t = some bs := by
  rw [utf8_cons] at hu
  obtain ⟨b₁, hc, h'⟩ := Option.bind_eq_some_iff.mp hu
  obtain ⟨b₂, ht, hb⟩ := Option.map_eq_some_iff.mp h'
  by_cases hlow : c < 128
  · rw [utf8Char_ascii hlow] at hc
    obtain rfl := Option.some.inj hc
    obtain ⟨rfl, rfl⟩ := List.cons.inj hb
    exact ⟨rfl, ht⟩
  · obtain ⟨x, y, rest, rfl, hx, _⟩ := utf8Char_high (Nat.le_of_not_lt hlow) hc
    have hxb : x = b := (List.cons.inj hb).1
    have := hexDigit_ascii hd
    omega

/-- `\x` is decoded only before two hexadecimal digits -/
theorem decodeEscapeSequence_hex {names : Names} {arg out : Text}
    (h : decodeEscapeSequence names (92 :: 120 :: arg) = some out) (hlen : arg.length ≤ 2) :
    out.length = 1 ∧ (∀ b ∈ arg, b < 128 ∧ b ≠ 92) ∧ arg.length = 2 := by
  rw [decodeEscapeSequence] at h
  obtain ⟨bytes, hu, hdec⟩ := Option.bind_eq_some_iff.mp h
  rw [utf8_cons, utf8_cons] at hu
  simp only [utf8Char_ascii (show (92 : Nat) < 128 by omega),
    utf8Char_ascii (show (120 : Nat) < 128 by omega), Option.bind_some] at hu
  obtain ⟨b', hu', rfl⟩ := Option.map_eq_some_iff.mp hu
  obtain ⟨bs, hbs, rfl⟩ := Option.map_eq_some_iff.mp hu'
  replace hdec : decodeLoop names (bs.length + 1 + 1) (92 :: 120 :: bs) = some out := hdec
  simp only [decodeLoop, if_true] at hdec
  obtain ⟨⟨o, rest⟩, he, hrest⟩ := Option.bind_eq_some_iff.mp hdec
  replace he : (readHex 2 0 bs).map (fun x => ([x.1], x.2)) = some (o, rest) := he
  obtain ⟨⟨v, r⟩, hx, ho⟩ := Option.map_eq_some_iff.mp he
  obtain ⟨rfl, rfl⟩ := Prod.mk.inj ho
  obtain ⟨d, hd, rfl⟩ := Option.map_eq_some_iff.mp hrest
  -- the two bytes after `\x` are digits, so they are the two characters
  cases bs with
  | nil => cases hx
  | cons x bs =>
    obtain ⟨dx, hdx, hx'⟩ := Option.bind_eq_some_iff.mp hx
    cases bs with
    | nil => cases hx'
    | cons y bs =>
      obtain ⟨dy, hdy, hr⟩ := Option.bind_eq_some_iff.mp hx'
      obtain ⟨_, rfl⟩ := Prod.mk.inj (Option.some.inj hr)
      cases arg with
      | nil => cases hbs
      | cons c arg =>
        obtain ⟨rfl, hbs'⟩ := utf8_head_hex hbs hdx
        cases arg with
        | nil => cases hbs'
        | cons e arg =>
          obtain ⟨rfl, hbs''⟩ := utf8_head_hex hbs' hdy
          have harg : arg = [] := by
            apply List.length_eq_zero_iff.mp
            simp only [List.length_cons] at hlen
            omega
          subst harg
          obtain rfl := Option.some.inj hbs''
          obtain rfl : [] = d := Option.some.inj hd
          refine ⟨rfl, ?_, rfl⟩
          rw [List.forall_mem_cons, List.forall_mem_cons]
          exact ⟨⟨hexDigit_ascii hdx, hexDigit_ne hdx⟩, ⟨hexDigit_ascii hdy, hexDigit_ne hdy⟩,
            fun _ hb => absurd hb List.not_mem_nil⟩

/-! ## counting quotes and lengths -/

/-- the number of quotes with a backslash before them -/
def pairs : Text → Nat
  | [] => 0
  | c :: rest => pairs rest + if c = 92 ∧ rest.head? = some 34 then 1 else 0

theorem pairs_append {group : Text} (h : ∀ b ∈ group, b ≠ 92) (t : Text) :
    pairs (group ++ t) = pairs t := by
  induction group with
  | nil => rfl
  | cons c group ih =>
    rw [List.cons_append, pairs, ih fun b hb => h b (List.mem_cons_of_mem c hb),
      if_neg fun hc => h c List.mem_cons_self hc.1]
    rfl

theorem pairs_cons_le (c : Nat) (t : Text) : pairs t ≤ pairs (c :: t) := Nat.le_add_right _ _

theorem length_replaceQuote (t : Text) :
    (replaceQuote t).length = t.length + pairs (replaceQuote t) := by
  induction t with
  | nil => rfl
  | cons c t ih =>
    rw [replaceQuote_cons]
    by_cases hc : c = 34
    · rw [if_pos hc]
      simp only [List.cons_append, List.nil_append, List.length_cons, pairs, List.head?_cons, ih]
      simp
      omega
    · rw [if_neg hc]
      have hno : ¬ (c = 92 ∧ (replaceQuote t).head? = some 34) := fun h => head?_replaceQuote t h.2
      simp only [List.cons_append, List.nil_append, List.length_cons, pairs, if_neg hno, ih]
      omega

theorem highs_replaceQuote (t : Text) : highs (replaceQuote t) = highs t := by
  induction t with
  | nil => rfl
  | cons c t ih =>
    rw [replaceQuote_cons, highs_append, ih, highs_cons c t]
    by_cases hc : c = 34
    · rw [if_pos hc, hc]
      exact Nat.add_comm _ _
    · rw [if_neg hc, highs_cons, highs_nil]
      omega

/-- the substitution keeps the quotes with their backslashes -/
theorem subLoop_spec (names : Names) {n : Nat} {e t : Text} (h : subLoop names n e = some t) :
    t.length ≤ e.length ∧ highs e ≤ highs t ∧ pairs e ≤ pairs t ∧
      (e.head? = some 34 → t.head? = some 34) := by
  induction n generalizing e t with
  | zero =>
    cases e with
    | nil =>
      obtain rfl := Option.some.inj h
      exact ⟨Nat.le_refl 0, Nat.le_refl 0, Nat.le_refl 0, fun h => h⟩
    | cons c e => cases h
  | succ n ih =>
    match e, h with
    | [], h =>
      obtain rfl := Option.some.inj h
      exact ⟨Nat.le_refl 0, Nat.le_refl 0, Nat.le_refl 0, fun h => h⟩
    | c :: rest, h =>
      simp only [subLoop] at h
      cases hm : matchEscape (c :: rest) with
      | none =>
        rw [hm] at h
        obtain ⟨t', ht', rfl⟩ := Option.map_eq_some_iff.mp h
        obtain ⟨ihl, ihh, ihp, ihq⟩ := ih ht'
        refine ⟨Nat.succ_le_succ ihl, ?_, ?_, fun hq => hq⟩
        · rw [highs_cons, highs_cons]
          omega
        · rw [pairs, pairs]
          split
          · rename_i hc
            rw [if_pos ⟨hc.1, ihq hc.2⟩]
            omega
          · omega
      | some ga =>
        obtain ⟨group, after⟩ := ga
        rw [hm] at h
        obtain ⟨out, hout, h'⟩ := Option.bind_eq_some_iff.mp h
        obtain ⟨t', ht', rfl⟩ := Option.map_eq_some_iff.mp h'
        replace hout : decodeEscapeSequence names group = some out := hout
        obtain ⟨ihl, ihh, ihp, _⟩ := ih ht'
        obtain ⟨heq, hcase⟩ := matchEscape_spec hm
        rw [heq]
        rcases hcase with hplain | ⟨arg, rfl, hlen⟩
        · rw [hplain.decode] at hout
          obtain rfl := Option.some.inj hout
          refine ⟨?_, ?_, ?_, ?_⟩
          · rw [List.length_append, List.length_append]
            omega
          · rw [highs_append, highs_append]
            omega
          · rw [pairs_append hplain.noBackslash, pairs_append hplain.noBackslash]
            exact ihp
          · obtain ⟨r, rfl⟩ := hplain.head
            intro hq
            cases hq
        · obtain ⟨ho, harg, hlen2⟩ := decodeEscapeSequence_hex hout hlen
          obtain ⟨v, rfl⟩ := List.length_eq_one_iff.mp ho
          have hargh : highs arg = 0 := highs_eq_zero.mpr fun b hb => (harg b hb).1
          refine ⟨?_, ?_, ?_, fun hq => ?_⟩
          · simp only [List.length_append, List.length_cons, List.length_nil, hlen2]
            omega
          · simp only [highs_append, highs_cons, List.cons_append, hargh]
            rw [if_neg (by omega), if_neg (by omega)]
            omega
          · have hx : pairs (92 :: 120 :: arg ++ after) = pairs after := by
              show pairs (92 :: 120 :: (arg ++ after)) = _
              rw [pairs, pairs, if_neg (by simp), if_neg (by simp),
                pairs_append fun b hb => (harg b hb).2]
              rfl
            rw [hx]
            exact ihp.trans (pairs_cons_le v t')
          · cases hq

/-- unescaping takes away a character for every quote with a backslash -/
theorem unescape_spec (t : Text) :
    (unescape t).length + pairs t ≤ t.length ∧ highs (unescape t) = highs t := by
  induction t using unescape.induct with
  | case1 => exact ⟨Nat.le_refl 0, rfl⟩
  | case2 c =>
    refine ⟨?_, rfl⟩
    have hno : ¬ (c = 92 ∧ ([] : Text).head? = some 34) := fun h => by cases h.2
    simp only [unescape, pairs, if_neg hno, List.length_cons, List.length_nil]
    omega
  | case3 c d rest hc ih =>
    obtain ⟨rfl, hd⟩ := hc
    obtain ⟨ihl, ihh⟩ := ih
    rw [unescape_pair hd]
    refine ⟨?_, ?_⟩
    · simp only [pairs, List.length_cons, List.head?_cons]
      rcases hd with rfl | rfl
      · simp only [and_self, if_true]
        rw [if_neg (by omega)]
        omega
      · rw [if_neg (show ¬ (True ∧ some 92 = some 34) by simp)]
        split <;> omega
    · rw [highs_cons, highs_cons, highs_cons, ihh]
      rw [if_neg (show ¬ 128 ≤ 92 by omega)]
      omega
  | case4 c d rest hc ih =>
    obtain ⟨ihl, ihh⟩ := ih
    have hk : ¬ (c = 92 ∧ ((d :: rest).head? = some 34 ∨ (d :: rest).head? = some 92)) := by
      simpa using hc
    rw [unescape_keep hk]
    refine ⟨?_, ?_⟩
    · have hno : ¬ (c = 92 ∧ (d :: rest).head? = some 34) := fun h => hk ⟨h.1, .inl h.2⟩
      rw [pairs, if_neg hno, List.length_cons, List.length_cons]
      omega
    · rw [highs_cons, highs_cons c, ihh]

/-! ## texts that come back -/

/-- no `\x` -/
def NoHex : Text → Prop
  | [] => True
  | c :: rest => ¬ (c = 92 ∧ rest.head? = some 120) ∧ NoHex rest

theorem NoHex.of_append {s t : Text} (h : NoHex (s ++ t)) : NoHex t := by
  induction s with
  | nil => exact h
  | cons c s ih => exact ih h.2

/-- what follows a backslash of a benign text follows it after the replacement too -/
theorem head?_replaceQuote_of_unknown {d : Nat} (h : recognised d = false) (t : Text) :
    (replaceQuote (d :: t)).head? = some d := by
  have hd : d ≠ 34 := by
    rintro rfl
    cases h
  rw [replaceQuote_cons, if_neg hd]
  rfl

theorem noHex_replaceQuote {s : Text} (h : Benign s) : NoHex (replaceQuote s) := by
  induction s with
  | nil => trivial
  | cons c s ih =>
    rw [replaceQuote_cons]
    by_cases hc : c = 34
    · rw [if_pos hc]
      exact ⟨by simp, by simp, ih h.2⟩
    · rw [if_neg hc]
      refine ⟨?_, ih h.2⟩
      rintro ⟨h92, hx⟩
      obtain ⟨d, hd, hr⟩ := h.1 h92
      cases s with
      | nil => cases hd
      | cons e s =>
        obtain rfl : e = d := Option.some.inj hd
        have hx' := (head?_replaceQuote_of_unknown hr s).symm.trans hx
        obtain rfl := Option.some.inj hx'
        cases hr

theorem subLoop_of_noHex (names : Names) {n : Nat} {e : Text} (hn : e.length ≤ n) (h : NoHex e) :
    subLoop names n e = some e := by
  induction n generalizing e with
  | zero =>
    obtain rfl := List.length_eq_zero_iff.mp (Nat.le_zero.mp hn)
    rfl
  | succ n ih =>
    cases e with
    | nil => rfl
    | cons c rest =>
      simp only [subLoop]
      cases hm : matchEscape (c :: rest) with
      | none =>
        simp only []
        rw [ih (Nat.le_of_succ_le_succ hn) h.2]
        rfl
      | some ga =>
        obtain ⟨group, after⟩ := ga
        obtain ⟨heq, hplain | ⟨arg, rfl, _⟩⟩ := matchEscape_spec hm
        · obtain ⟨r, hr⟩ := hplain.head
          have hlen : after.length ≤ n := by
            have hl := congrArg List.length heq
            rw [hr, List.length_append, List.length_cons, List.length_cons] at hl
            rw [List.length_cons] at hn
            omega
          rw [heq] at h
          simp only [hplain.decode, Option.bind_some]
          rw [ih hlen h.of_append, heq]
          rfl
        · rw [heq] at h
          exact absurd ⟨rfl, rfl⟩ h.1

theorem unescape_replaceQuote {s : Text} (h : Benign s) : unescape (replaceQuote s) = s := by
  induction s with
  | nil => rfl
  | cons c s ih =>
    rw [replaceQuote_cons]
    by_cases hc : c = 34
    · rw [if_pos hc, hc]
      show unescape (92 :: 34 :: replaceQuote s) = _
      rw [unescape_pair (.inl rfl), ih h.2]
    · rw [if_neg hc, List.singleton_append, unescape_keep, ih h.2]
      rintro ⟨h92, hnext⟩
      obtain ⟨d, hd, hr⟩ := h.1 h92
      cases s with
      | nil => cases hd
      | cons e s =>
        obtain rfl : e = d := Option.some.inj hd
        rw [head?_replaceQuote_of_unknown hr] at hnext
        rcases hnext with hx | hx
        · obtain rfl := Option.some.inj hx
          cases hr
        · obtain rfl := Option.some.inj hx
          cases hr

/-- **When a text comes back.**  Exactly when all of it is ASCII and no backslash in it stands at
the end or before a character with which `unicode_escape` starts an escape. -/
theorem roundTrip_iff (names : Names) (s : Text) :
    roundTrip names s = some s ↔ (∀ c ∈ s, c < 128) ∧ Benign s := by
  rw [roundTrip_eq]
  constructor
  · intro h
    obtain ⟨bytes, hu, h'⟩ := Option.bind_eq_some_iff.mp h
    obtain ⟨d, hd, h''⟩ := Option.bind_eq_some_iff.mp h'
    obtain ⟨t, ht, hs⟩ := Option.map_eq_some_iff.mp h''
    obtain ⟨hdh, hdl, hdb⟩ := decode_spec names hd
    obtain ⟨htl, hth, htp, _⟩ := subLoop_spec names ht
    obtain ⟨hul, huh⟩ := unescape_spec t
    -- the characters above 127: none is lost, and encoding doubles them
    have hascii : ∀ c ∈ s, c < 128 := by
      apply highs_eq_zero.mp
      have h2 := highs_utf8 hu
      rw [highs_replaceQuote] at hth
      rw [hs] at huh
      omega
    -- the length: every escape makes the text shorter, and nothing makes it longer again
    obtain rfl : s = bytes := Option.some.inj ((utf8_ascii hascii).symm.trans hu)
    refine ⟨hascii, hdb ?_⟩
    rw [length_replaceQuote] at htl
    rw [hs] at hul
    omega
  · rintro ⟨hascii, hb⟩
    rw [utf8_ascii hascii, Option.bind_some, decode_of_benign names hb, Option.bind_some,
      subLoop_of_noHex names (Nat.le_refl _) (noHex_replaceQuote hb), Option.map_some,
      unescape_replaceQuote hb]

def noNames : Names := ⟨fun _ => none, fun _ _ h => by cases h⟩

/-- a comment with an accented letter comes back as two other letters, and one with a backslash
at its end raises an exception -/
theorem accented_comment_comes_back_changed :
    roundTrip noNames (text "é") = some (text "Ã©") ∧ roundTrip noNames (text "a\\") = none ∧
      ¬ ∀ s, roundTrip noNames s = some s := by
  have hacc : roundTrip noNames (text "é") = some (text "Ã©") := by decide
  refine ⟨hacc, by decide, fun h => ?_⟩
  rw [h (text "é")] at hacc
  exact absurd hacc (by decide)

end PMROS2.Rosidl
