import PMROS2.Remap.Lexer

/-!
# Running the lexer's table

`reads f s pre rest` is the loop in state `s`, with `pre` read and `rest` to come.  The lemmas
follow the table: `reads_token` for the states `S8` and `S9` that read a token, `ReadsAs` for the
states `S10` to `S26` that read a url scheme and fall back to a token, and one lemma for each of
the other first characters.
-/

namespace PMROS2.Remap

/-! ## characters -/

/-- `a-zA-Z` -/
def isLetter (c : Char) : Bool := ('a' ≤ c ∧ c ≤ 'z') ∨ ('A' ≤ c ∧ c ≤ 'Z')

/-- `a-zA-Z0-9` -/
def isAlnum (c : Char) : Bool := isLetter c || ('0' ≤ c ∧ c ≤ '9')

/-- the number of characters the states `S8` (`underscore = false`) and `S9` read -/
def scanToken : Bool → List Char → Nat
  | _, [] => 0
  | underscore, c :: cs =>
    if isAlnum c then scanToken false cs + 1
    else if c = '_' ∧ underscore = false then scanToken true cs + 1
    else 0

theorem scanToken_alnum (u : Bool) {c : Char} (cs : List Char) (h : isAlnum c = true) :
    scanToken u (c :: cs) = scanToken false cs + 1 := if_pos h

theorem scanToken_le (u : Bool) (cs : List Char) : scanToken u cs ≤ cs.length := by
  induction cs generalizing u with
  | nil => exact Nat.le_refl 0
  | cons c cs ih =>
    unfold scanToken
    split
    · exact Nat.succ_le_succ (ih false)
    split
    · exact Nat.succ_le_succ (ih true)
    · exact Nat.zero_le _

/-! ## one round -/

theorem charAt_append (pre rest : List Char) :
    charAt (pre ++ rest) pre.length = some (rest.headD '\x00') := by
  unfold charAt
  rw [List.append_assoc, List.getElem?_append_right (Nat.le_refl _), Nat.sub_self]
  cases rest <;> rfl

/-- the loop in state `s`, after `pre` and before `rest` -/
def reads (f s : Nat) (pre rest : List Char) : Except LexerError (Lexeme × Nat) :=
  lexLoop (pre ++ rest) f s pre.length

/-- go on in a state, or end in a terminal one -/
def continueIn (f s : Nat) (pre rest : List Char) : Except LexerError (Lexeme × Nat) :=
  if s < firstTerminal then reads f s pre rest else terminal s pre.length

section
variable {f s : Nat} {st : LexerState} {pre rest : List Char} {k : Nat}

theorem reads_stay (hst : gStates[s]? = some st)
    (hn : nextState st (rest.headD '\x00') = (k, 1)) :
    reads (f + 1) s pre rest = continueIn f k pre rest := by
  unfold reads continueIn
  rw [lexLoop, lexStep, hst]
  simp only [charAt_append, hn]
  rfl

theorem reads_forward {c : Char} (hst : gStates[s]? = some st)
    (hn : nextState st c = (k, 0)) :
    reads (f + 1) s pre (c :: rest) = continueIn f k (pre ++ [c]) rest := by
  have htext : pre ++ c :: rest = (pre ++ [c]) ++ rest := by simp
  have hlen : pre.length + 1 = (pre ++ [c]).length := by simp
  unfold continueIn reads
  rw [lexLoop, lexStep, hst]
  simp only [charAt_append, List.headD_cons, hn]
  rw [if_pos trivial, htext, hlen]

/-- an `<else,1 + N>` transition goes back over the last `N` characters -/
theorem reads_back {back : List Char} (hst : gStates[s]? = some st)
    (hn : nextState st (rest.headD '\x00') = (k, back.length + 1)) :
    reads (f + 1) s (pre ++ back) rest = continueIn f k pre (back ++ rest) := by
  unfold continueIn reads
  rw [lexLoop, lexStep, hst]
  simp only [charAt_append, hn]
  rw [if_neg (Nat.succ_ne_zero _), if_neg (by simp), List.append_assoc]
  simp

/-- moving past the end of the text ends the analysis with one character too many -/
theorem reads_past_end (hst : gStates[s]? = some st)
    (hn : nextState st '\x00' = (tNone, 0)) :
    reads (f + 1) s pre [] = .ok (.none, pre.length + 1) := by
  unfold reads
  rw [lexLoop, lexStep, hst]
  simp only [charAt_append, List.headD_nil, hn]
  rfl

end

/-! ## the states of the table -/

theorem range_single (c d : Char) : (d ≤ c ∧ c ≤ d) ↔ c = d := by
  rw [eq_comm, le_antisymm_iff]

theorem nextState_single (e m k : Nat) (d c : Char) (hk : k ≠ 0) :
    nextState ⟨e, m, [⟨k, d, d⟩, endTransitions]⟩ c = if c = d then (k, 0) else (e, m) := by
  unfold nextState
  simp only [findTransition, range_single, hk, if_false]
  by_cases hc : c = d
  · simp [hc, hk]
  · simp [hc]

theorem nextState_two (e m k l : Nat) (d d' c : Char) (hk : k ≠ 0) (hl : l ≠ 0) :
    nextState ⟨e, m, [⟨k, d, d⟩, ⟨l, d', d'⟩, endTransitions]⟩ c =
      if c = d then (k, 0) else if c = d' then (l, 0) else (e, m) := by
  unfold nextState
  simp only [findTransition, range_single, hk, hl, if_false]
  by_cases hc : c = d
  · simp [hc, hk]
  · by_cases hc' : c = d'
    · rw [if_neg hc, if_pos hc', if_neg hl, if_neg hc, if_pos hc']
    · simp [hc, hc']

theorem isAlnum_iff (c : Char) : isAlnum c = true ↔
    ('a' ≤ c ∧ c ≤ 'z') ∨ ('A' ≤ c ∧ c ≤ 'Z') ∨ ('0' ≤ c ∧ c ≤ '9') := by
  unfold isAlnum isLetter
  simp [or_assoc]

theorem nextState_s8 (c : Char) :
    nextState ⟨tToken, 1, [⟨s8, 'a', 'z'⟩, ⟨s8, 'A', 'Z'⟩, ⟨s8, '0', '9'⟩, ⟨s9, '_', '_'⟩,
      endTransitions]⟩ c =
      if isAlnum c then (s8, 0) else if c = '_' then (s9, 0) else (tToken, 1) := by
  unfold nextState
  simp only [findTransition, range_single, isAlnum_iff]
  by_cases h₁ : 'a' ≤ c ∧ c ≤ 'z'
  · simp [h₁]
  by_cases h₂ : 'A' ≤ c ∧ c ≤ 'Z'
  · simp [h₁, h₂]
  by_cases h₃ : '0' ≤ c ∧ c ≤ '9'
  · simp [h₁, h₂, h₃]
  by_cases h₄ : c = '_'
  · subst h₄
    decide
  · simp [h₁, h₂, h₃, h₄]

theorem nextState_s9 (c : Char) :
    nextState ⟨tToken, 1, [⟨s8, 'a', 'z'⟩, ⟨s8, 'A', 'Z'⟩, ⟨s8, '0', '9'⟩, endTransitions]⟩ c =
      if isAlnum c then (s8, 0) else (tToken, 1) := by
  unfold nextState
  simp only [findTransition, range_single, isAlnum_iff]
  by_cases h₁ : 'a' ≤ c ∧ c ≤ 'z'
  · simp [h₁]
  by_cases h₂ : 'A' ≤ c ∧ c ≤ 'Z'
  · simp [h₁, h₂]
  by_cases h₃ : '0' ≤ c ∧ c ≤ '9'
  · simp [h₁, h₂, h₃]
  · simp [h₁, h₂, h₃]

/-! ## reading a token -/

def tokenState (underscore : Bool) : Nat := if underscore then s9 else s8

theorem nextState_tokenState (u : Bool) (c : Char) :
    ∃ st, gStates[tokenState u]? = some st ∧ nextState st c =
      if isAlnum c then (tokenState false, 0)
      else if c = '_' ∧ u = false then (tokenState true, 0) else (tToken, 1) := by
  cases u with
  | false =>
    refine ⟨_, rfl, (nextState_s8 c).trans ?_⟩
    simp [tokenState]
  | true =>
    refine ⟨_, rfl, (nextState_s9 c).trans ?_⟩
    simp [tokenState]

theorem continueIn_tokenState (u : Bool) (f : Nat) (pre rest : List Char) :
    continueIn f (tokenState u) pre rest = reads f (tokenState u) pre rest := by
  cases u <;> rfl

/-- **`S8` and `S9` read the rest of a token.** -/
theorem reads_token (u : Bool) (f : Nat) (pre rest : List Char) (hf : rest.length + 1 ≤ f) :
    reads f (tokenState u) pre rest = .ok (.token, pre.length + scanToken u rest) := by
  induction rest generalizing u f pre with
  | nil =>
    obtain ⟨f, rfl⟩ : ∃ g, f = g + 1 := ⟨f - 1, by simp at hf; omega⟩
    obtain ⟨st, hst, hn⟩ := nextState_tokenState u '\x00'
    have hn' : nextState st (([] : List Char).headD '\x00') = (tToken, 1) :=
      hn.trans (by simp [show isAlnum '\x00' = false by decide])
    rw [reads_stay hst hn']
    rfl
  | cons c rest ih =>
    obtain ⟨f, rfl⟩ : ∃ g, f = g + 1 := ⟨f - 1, by simp at hf; omega⟩
    have hf' : rest.length + 1 ≤ f := by simpa using hf
    obtain ⟨st, hst, hn⟩ := nextState_tokenState u c
    unfold scanToken
    by_cases hc : isAlnum c = true
    · rw [if_pos hc] at hn ⊢
      rw [reads_forward hst hn, continueIn_tokenState, ih false f _ hf']
      simp [Nat.add_assoc, Nat.add_comm 1]
    rw [if_neg hc] at hn ⊢
    by_cases hu : c = '_' ∧ u = false
    · rw [if_pos hu] at hn ⊢
      rw [reads_forward hst hn, continueIn_tokenState, ih true f _ hf']
      simp [Nat.add_assoc, Nat.add_comm 1]
    · rw [if_neg hu] at hn ⊢
      have hn' : nextState st ((c :: rest).headD '\x00') = (tToken, 1) := hn
      rw [reads_stay hst hn']
      rfl

/-! ## what a state reads -/

/-- the lexeme of the loop from a state on, and the number of characters from there, is `g` -/
def ReadsAs (s : Nat) (g : List Char → Lexeme × Nat) : Prop :=
  ∀ (f : Nat) (pre rest : List Char), rest.length + 4 ≤ f →
    reads f s pre rest = .ok ((g rest).1, pre.length + (g rest).2)

/-- the url schemes `l`, and otherwise a token -/
def schemes (l : List (List Char × Lexeme)) (rest : List Char) : Lexeme × Nat :=
  match l.find? (fun p => p.1.isPrefixOf rest) with
  | some p => (p.2, p.1.length)
  | none => (.token, scanToken false rest)

/-- the url schemes `l` behind the letter `d` -/
def behind (d : Char) (l : List (List Char × Lexeme)) : List (List Char × Lexeme) :=
  l.map (fun p => (d :: p.1, p.2))

theorem find_behind_self (d : Char) (l : List (List Char × Lexeme)) (rest : List Char) :
    (behind d l).find? (fun p => p.1.isPrefixOf (d :: rest)) =
      (l.find? (fun p => p.1.isPrefixOf rest)).map (fun p => (d :: p.1, p.2)) := by
  unfold behind
  rw [List.find?_map]
  congr 2
  funext p
  simp

theorem find_behind_of_ne {d : Char} (l : List (List Char × Lexeme)) {rest : List Char}
    (h : ∀ cs, rest ≠ d :: cs) :
    (behind d l).find? (fun p => p.1.isPrefixOf rest) = none := by
  rw [List.find?_eq_none]
  intro p hp
  obtain ⟨q, _, rfl⟩ := List.mem_map.1 hp
  cases rest with
  | nil => simp
  | cons c cs =>
    have hc : d ≠ c := fun hdc => h cs (by rw [hdc])
    simp [hc]

theorem schemes_behind_self {d : Char} (hd : isAlnum d = true)
    (l : List (List Char × Lexeme)) (rest : List Char) :
    schemes (behind d l) (d :: rest) = ((schemes l rest).1, (schemes l rest).2 + 1) := by
  unfold schemes
  rw [find_behind_self, scanToken_alnum false rest hd]
  cases l.find? (fun p => p.1.isPrefixOf rest) <;> rfl

theorem schemes_behind_of_ne {d : Char} (l : List (List Char × Lexeme)) {rest : List Char}
    (h : ∀ cs, rest ≠ d :: cs) :
    schemes (behind d l) rest = (.token, scanToken false rest) := by
  unfold schemes
  rw [find_behind_of_ne l h]

theorem schemes_append_of_ne {d : Char} (l l' : List (List Char × Lexeme)) {rest : List Char}
    (h : ∀ cs, rest ≠ d :: cs) :
    schemes (behind d l ++ l') rest = schemes l' rest := by
  unfold schemes
  rw [List.find?_append, find_behind_of_ne l h, Option.none_or]

theorem schemes_append_left {d : Char} (l l' : List (List Char × Lexeme)) {rest : List Char}
    (h : ∀ cs, rest ≠ d :: cs) :
    schemes (l' ++ behind d l) rest = schemes l' rest := by
  unfold schemes
  rw [List.find?_append, find_behind_of_ne l h, Option.or_none]

theorem headD_ne_of_ne {d : Char} {rest : List Char} (hd : d ≠ '\x00')
    (h : ∀ cs, rest ≠ d :: cs) : rest.headD '\x00' ≠ d := by
  cases rest with
  | nil => exact hd.symm
  | cons c cs =>
    intro hc
    exact h cs (by rw [← hc]; rfl)

theorem ne_nul_of_isAlnum {d : Char} (hd : isAlnum d = true) : d ≠ '\x00' := by
  rintro rfl
  exact absurd hd (by decide)

theorem eq_cons_or (d : Char) (rest : List Char) :
    (∃ cs, rest = d :: cs) ∨ ∀ cs, rest ≠ d :: cs := by
  by_cases h : ∃ cs, rest = d :: cs
  · exact .inl h
  · exact .inr fun cs hcs => h ⟨cs, hcs⟩

section
variable {s k j t : Nat} {d d' : Char} {l l' : List (List Char × Lexeme)} {x : Lexeme}

/-- one more round of the loop goes forwards into a state that reads as `g` -/
theorem ReadsAs.forward {g : List Char → Lexeme × Nat} {st : LexerState} (h : ReadsAs k g)
    (hst : gStates[s]? = some st) (hk : k < firstTerminal) {c : Char}
    (hn : nextState st c = (k, 0)) {f : Nat} {pre rest : List Char}
    (hf : (c :: rest).length + 4 ≤ f) :
    reads f s pre (c :: rest) = .ok ((g rest).1, pre.length + ((g rest).2 + 1)) := by
  rw [List.length_cons] at hf
  obtain ⟨f, rfl⟩ : ∃ i, f = i + 1 := ⟨f - 1, by omega⟩
  rw [reads_forward hst hn, continueIn, if_pos hk, h f _ rest (by omega)]
  simp [Nat.add_assoc, Nat.add_comm 1]

theorem reads_fall_back {st : LexerState} (hst : gStates[s]? = some st) {rest : List Char}
    (hn : nextState st (rest.headD '\x00') = (s8, 1)) {f : Nat} {pre : List Char}
    (hf : rest.length + 4 ≤ f) :
    reads f s pre rest = .ok (.token, pre.length + scanToken false rest) := by
  obtain ⟨f, rfl⟩ : ∃ i, f = i + 1 := ⟨f - 1, by omega⟩
  rw [reads_stay hst hn]
  exact reads_token false f pre rest (by omega)

theorem readsAs_chain (hst : gStates[s]? = some ⟨s8, 1, [⟨k, d, d⟩, endTransitions]⟩)
    (hk : 0 < k ∧ k < firstTerminal) (hd : isAlnum d = true) (h : ReadsAs k (schemes l)) :
    ReadsAs s (schemes (behind d l)) := by
  intro f pre rest hf
  obtain ⟨cs, rfl⟩ | hne := eq_cons_or d rest
  · have hn := nextState_single s8 1 k d d hk.1.ne'
    rw [if_pos rfl] at hn
    rw [h.forward hst hk.2 hn hf, schemes_behind_self hd]
  · have hn := nextState_single s8 1 k d (rest.headD '\x00') hk.1.ne'
    rw [if_neg (headD_ne_of_ne (ne_nul_of_isAlnum hd) hne)] at hn
    rw [reads_fall_back hst hn hf, schemes_behind_of_ne l hne]

/-- `S12`, where the two url schemes part -/
theorem readsAs_fork
    (hst : gStates[s]? = some ⟨s8, 1, [⟨k, d, d⟩, ⟨j, d', d'⟩, endTransitions]⟩)
    (hk : 0 < k ∧ k < firstTerminal) (hj : 0 < j ∧ j < firstTerminal)
    (hd : isAlnum d = true) (hd' : isAlnum d' = true) (hdd : d ≠ d')
    (h : ReadsAs k (schemes l)) (h' : ReadsAs j (schemes l')) :
    ReadsAs s (schemes (behind d l ++ behind d' l')) := by
  intro f pre rest hf
  have hn := fun c => nextState_two s8 1 k j d d' c hk.1.ne' hj.1.ne'
  obtain ⟨cs, rfl⟩ | hne := eq_cons_or d rest
  · have hcs : ∀ cs', d :: cs ≠ d' :: cs' := fun cs' hcs => hdd (List.cons.inj hcs).1
    rw [h.forward hst hk.2 ((hn d).trans (if_pos rfl)) hf, schemes_append_left l' _ hcs,
      schemes_behind_self hd]
  rw [schemes_append_of_ne l _ hne]
  obtain ⟨cs, rfl⟩ | hne' := eq_cons_or d' rest
  · have hn' := (hn d').trans ((if_neg hdd.symm).trans (if_pos rfl))
    rw [h'.forward hst hj.2 hn' hf, schemes_behind_self hd']
  · have hc := headD_ne_of_ne (ne_nul_of_isAlnum hd) hne
    have hc' := headD_ne_of_ne (ne_nul_of_isAlnum hd') hne'
    have hn' := (hn (rest.headD '\x00')).trans ((if_neg hc).trans (if_neg hc'))
    rw [reads_fall_back hst hn' hf, schemes_behind_of_ne l' hne']

/-- going back over the colon of a url scheme ends the token before it -/
theorem reads_back_to_colon {st : LexerState} {back cs rest : List Char}
    (hst : gStates[s]? = some st)
    (hn : nextState st (rest.headD '\x00') = (s8, (':' :: back).length + 1))
    {f : Nat} {pre : List Char} (hf : (back ++ rest).length + 3 ≤ f) (hcs : cs = back ++ rest) :
    reads f s (pre ++ ':' :: back) rest =
      .ok (.token, pre.length + scanToken false (':' :: cs)) := by
  obtain ⟨f, rfl⟩ : ∃ i, f = i + 1 := ⟨f - 1, by omega⟩
  rw [reads_back hst hn, hcs]
  exact reads_token false f pre _ (by simp at hf ⊢; omega)

theorem schemes_url_of_ne (x : Lexeme) {rest : List Char}
    (h : ∀ cs, rest ≠ ':' :: '/' :: '/' :: cs) :
    schemes [([':', '/', '/'], x)] rest = (.token, scanToken false rest) := by
  have hp : List.isPrefixOf [':', '/', '/'] rest = false := by
    rw [Bool.eq_false_iff]
    intro hp
    obtain ⟨cs, rfl⟩ := List.isPrefixOf_iff_prefix.1 hp
    exact h cs rfl
  unfold schemes
  simp [hp]

/-- `S17` to `S19`, and `S26` to `S28`: the end of a url scheme -/
theorem readsAs_url (hs : gStates[s]? = some ⟨s8, 1, [⟨k, ':', ':'⟩, endTransitions]⟩)
    (hsk : gStates[k]? = some ⟨s8, 2, [⟨j, '/', '/'⟩, endTransitions]⟩)
    (hsj : gStates[j]? = some ⟨s8, 3, [⟨t, '/', '/'⟩, endTransitions]⟩)
    (hk : 0 < k ∧ k < firstTerminal) (hj : 0 < j ∧ j < firstTerminal)
    (ht : firstTerminal ≤ t) (hx : ∀ n, terminal t n = .ok (x, n)) :
    ReadsAs s (schemes [([':', '/', '/'], x)]) := by
  intro f pre rest hf
  obtain ⟨f, rfl⟩ : ∃ i, f = i + 3 := ⟨f - 3, by omega⟩
  have hcolon : ':' ≠ '\x00' := by decide
  have hslash : '/' ≠ '\x00' := by decide
  have hn := fun c => nextState_single s8 1 k ':' c hk.1.ne'
  obtain ⟨r, rfl⟩ | hne := eq_cons_or ':' rest
  swap
  · have hc := headD_ne_of_ne hcolon hne
    rw [reads_fall_back hs ((hn _).trans (if_neg hc)) hf,
      schemes_url_of_ne x fun cs h => hne _ h]
  rw [reads_forward hs ((hn ':').trans (if_pos rfl)), continueIn, if_pos hk.2]
  have hn := fun c => nextState_single s8 2 j '/' c hj.1.ne'
  obtain ⟨r, rfl⟩ | hne := eq_cons_or '/' r
  swap
  · have hc := headD_ne_of_ne hslash hne
    rw [schemes_url_of_ne x fun cs h => hne _ (List.cons.inj h).2]
    exact reads_back_to_colon hsk ((hn _).trans (if_neg hc)) (by simp at hf ⊢; omega) rfl
  rw [reads_forward hsk ((hn '/').trans (if_pos rfl)), continueIn, if_pos hj.2,
    List.append_assoc]
  have hn := fun c => nextState_single s8 3 t '/' c (by omega : 0 < t).ne'
  obtain ⟨r, rfl⟩ | hne := eq_cons_or '/' r
  swap
  · have hc := headD_ne_of_ne hslash hne
    rw [schemes_url_of_ne x fun cs h => hne _ (List.cons.inj (List.cons.inj h).2).2]
    exact reads_back_to_colon hsj ((hn _).trans (if_neg hc)) (by simp at hf ⊢; omega) rfl
  rw [reads_forward hsj ((hn '/').trans (if_pos rfl)), continueIn,
    if_neg (Nat.not_lt.2 ht), hx]
  simp [schemes]

end

/-- **`S10`: a text that begins with `r` is a url scheme or a token.** -/
theorem readsAs_s10 : ReadsAs s10 (schemes
    [("ostopic://".toList, .urlTopic), ("osservice://".toList, .urlService)]) := by
  have h₁₇ : ReadsAs s17 (schemes [(_, .urlTopic)]) :=
    readsAs_url (k := s18) (j := s19) (t := tUrlTopic) rfl rfl rfl ⟨by decide, by decide⟩
      ⟨by decide, by decide⟩ (by decide) fun _ => rfl
  have h₁₆ := readsAs_chain (s := s16) rfl (by decide) (by decide) h₁₇
  have h₁₅ := readsAs_chain (s := s15) rfl (by decide) (by decide) h₁₆
  have h₁₄ := readsAs_chain (s := s14) rfl (by decide) (by decide) h₁₅
  have h₁₃ := readsAs_chain (s := s13) rfl (by decide) (by decide) h₁₄
  have h₂₆ : ReadsAs s26 (schemes [(_, .urlService)]) :=
    readsAs_url (k := s27) (j := s28) (t := tUrlService) rfl rfl rfl ⟨by decide, by decide⟩
      ⟨by decide, by decide⟩ (by decide) fun _ => rfl
  have h₂₅ := readsAs_chain (s := s25) rfl (by decide) (by decide) h₂₆
  have h₂₄ := readsAs_chain (s := s24) rfl (by decide) (by decide) h₂₅
  have h₂₃ := readsAs_chain (s := s23) rfl (by decide) (by decide) h₂₄
  have h₂₂ := readsAs_chain (s := s22) rfl (by decide) (by decide) h₂₃
  have h₂₁ := readsAs_chain (s := s21) rfl (by decide) (by decide) h₂₂
  have h₂₀ := readsAs_chain (s := s20) rfl (by decide) (by decide) h₂₁
  have h₁₂ := readsAs_fork (s := s12) rfl (by decide) (by decide) (by decide) (by decide)
    (by decide) h₁₃ h₂₀
  have h₁₁ := readsAs_chain (s := s11) rfl (by decide) (by decide) h₁₂
  have h₁₀ := readsAs_chain (s := s10) rfl (by decide) (by decide) h₁₁
  exact h₁₀

/-! ## the other states -/

section
variable {f s k : Nat} {st : LexerState} {pre rest : List Char} {x : Lexeme}

theorem reads_terminal {c : Char} (hst : gStates[s]? = some st)
    (hn : nextState st c = (k, 0)) (hk : firstTerminal ≤ k)
    (hx : ∀ n, terminal k n = .ok (x, n)) :
    reads (f + 1) s pre (c :: rest) = .ok (x, pre.length + 1) := by
  rw [reads_forward hst hn, continueIn, if_neg (Nat.not_lt.2 hk), hx, List.length_append]
  rfl

theorem reads_else_terminal (hst : gStates[s]? = some st)
    (hn : nextState st (rest.headD '\x00') = (k, 1)) (hk : firstTerminal ≤ k)
    (hx : ∀ n, terminal k n = .ok (x, n)) :
    reads (f + 1) s pre rest = .ok (x, pre.length) := by
  rw [reads_stay hst hn, continueIn, if_neg (Nat.not_lt.2 hk), hx]

theorem reads_none (hst : gStates[s]? = some st)
    (hn : nextState st (rest.headD '\x00') = (tNone, 0)) :
    reads (f + 1) s pre rest = .ok (.none, pre.length + 1) := by
  cases rest with
  | nil => exact reads_past_end hst hn
  | cons c cs => exact reads_terminal hst hn (by decide) fun _ => rfl

theorem reads_next {c : Char} (hst : gStates[s]? = some st)
    (hn : nextState st c = (k, 0)) (hk : k < firstTerminal) :
    reads (f + 1) s pre (c :: rest) = reads f k (pre ++ [c]) rest := by
  rw [reads_forward hst hn, continueIn, if_pos hk]

end

theorem analyze_cons (c : Char) (cs : List Char) :
    analyze (c :: cs) = reads (cs.length + 4 + 1) s0 [] (c :: cs) := by
  unfold analyze
  rw [if_neg (List.cons_ne_nil c cs)]
  rfl

/-- `S0` -/
def stateS0 : LexerState := ⟨tNone, 0, [
  ⟨tForwardSlash, '/', '/'⟩, ⟨s1, '\\', '\\'⟩, ⟨s2, '~', '~'⟩, ⟨s3, '_', '_'⟩,
  ⟨s8, 'a', 'q'⟩, ⟨s8, 's', 'z'⟩, ⟨s8, 'A', 'Z'⟩, ⟨s10, 'r', 'r'⟩, ⟨s29, '*', '*'⟩,
  ⟨s30, ':', ':'⟩, endTransitions]⟩

theorem gStates_s0 : gStates[s0]? = some stateS0 := rfl

theorem isLetter_iff (c : Char) : isLetter c = true ↔
    ('a' ≤ c ∧ c ≤ 'z') ∨ ('A' ≤ c ∧ c ≤ 'Z') := by
  unfold isLetter
  simp

theorem range_letter {c : Char} (h : isLetter c = true) (hr : c ≠ 'r') :
    ('a' ≤ c ∧ c ≤ 'q') ∨ ('s' ≤ c ∧ c ≤ 'z') ∨ ('A' ≤ c ∧ c ≤ 'Z') := by
  have hr' : c.toNat ≠ 'r'.toNat := fun h' => hr (Char.toNat_inj.1 h')
  have hle : ∀ a b : Char, a ≤ b ↔ a.toNat ≤ b.toNat := fun _ _ => Iff.rfl
  rw [isLetter_iff] at h
  simp only [hle] at h ⊢
  have ha : 'a'.toNat = 97 ∧ 'q'.toNat = 113 ∧ 'r'.toNat = 114 ∧ 's'.toNat = 115 ∧
    'z'.toNat = 122 := by decide
  omega

theorem nextState_s0_letter {c : Char} (h : isLetter c = true) (hr : c ≠ 'r') :
    nextState stateS0 c = (s8, 0) := by
  have h₁ : c ≠ '/' := by rintro rfl; exact absurd h (by decide)
  have h₂ : c ≠ '\\' := by rintro rfl; exact absurd h (by decide)
  have h₃ : c ≠ '~' := by rintro rfl; exact absurd h (by decide)
  have h₄ : c ≠ '_' := by rintro rfl; exact absurd h (by decide)
  unfold nextState stateS0
  simp only [findTransition, range_single, if_neg h₁, if_neg h₂, if_neg h₃, if_neg h₄]
  obtain hc | hc | hc := range_letter h hr
  · simp [hc]
  · simp [hc]
  · simp [hc]

theorem nextState_s0_other {c : Char} (h : isLetter c = false)
    (hc : c ∉ ['/', '\\', '~', '_', '*', ':']) : nextState stateS0 c = (tNone, 0) := by
  have hr : c ≠ 'r' := by rintro rfl; exact absurd h (by decide)
  have hq : ¬ ('a' ≤ c ∧ c ≤ 'q') := fun hq =>
    absurd ((isLetter_iff c).2 (.inl ⟨hq.1, hq.2.trans (by decide)⟩)) (by simp [h])
  have hz : ¬ ('s' ≤ c ∧ c ≤ 'z') := fun hz =>
    absurd ((isLetter_iff c).2 (.inl ⟨.trans (by decide) hz.1, hz.2⟩)) (by simp [h])
  have hZ : ¬ ('A' ≤ c ∧ c ≤ 'Z') := fun hZ =>
    absurd ((isLetter_iff c).2 (.inr hZ)) (by simp [h])
  simp only [List.mem_cons, List.not_mem_nil, or_false, not_or] at hc
  obtain ⟨h₁, h₂, h₃, h₄, h₅, h₆⟩ := hc
  unfold nextState stateS0
  simp only [findTransition, range_single, if_neg h₁, if_neg h₂, if_neg h₃, if_neg h₄, if_neg h₅,
    if_neg h₆, if_neg hr, if_neg hq, if_neg hz, if_neg hZ]
  simp

end PMROS2.Remap
