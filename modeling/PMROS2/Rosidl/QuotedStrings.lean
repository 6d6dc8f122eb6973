import PMROS2.Rosidl.MsgParser

/-!
# Strings between quotes

A string is written between quotes, with a backslash before each quote of the same kind.
`find_matching_end_quote` of `rosidl_adapter.parser` is to find the end of it; it counts wrongly
where the string has its quote twice, and overlooks the end where the last character is one.  What
is read is then taken for a value without quotes, stripped and unquoted once more.

* `quoted`                         a string as it is written, and what stands behind;
* `findMatchingEndQuote_written`   the end of it, as it is found;
* `EndFound`, `findMatchingEndQuote_cases`   whether this is the right one;
* `Gives`, `gives_self_iff`        what is kept when a string is read once more;
* `not_gives_of_wrong`             a wrong end gives another string.
-/

namespace PMROS2.Rosidl
open PMROS2.Strings

/-! ## what is written -/

inductive Quote where
  | double | single
  deriving DecidableEq

def Quote.char : Quote → Char
  | .double => '"'
  | .single => '\''

/-- a quote stands behind a backslash -/
def escapeQuote (quote : Char) (s : Text) : Text :=
  s.flatMap fun c => if c = quote then ['\\', c] else [c]

/-- the string between its quotes, and what stands behind -/
def quoted (quote : Quote) (s behind : Text) : Text :=
  quote.char :: (escapeQuote quote.char s ++ quote.char :: behind)

/-! ## when it is read again -/

/-- The scanner finds the end of the string: its quote occurs once at most, and not at the end.  (Or
it occurs several times and at the end, and from there to the next such quote it is as far as what
was written up to the last but one happens to be long.) -/
def EndFound (quote : Char) (s behind : Text) : Prop :=
  (s.count quote ≤ 1 ∧ s.getLast? ≠ some quote) ∨
    ∃ u v b t, s = u ++ quote :: v ++ [quote] ∧ quote ∉ v ∧ behind = b ++ quote :: t ∧ quote ∉ b ∧
      b.length = (escapeQuote quote (u ++ [quote])).length

/-- nothing is taken off: the string has no whitespace at its ends, and not twice the same quote -/
structure Kept (s : Text) : Prop where
  strip : strip s = s
  ends : ∀ quote : Quote, ¬ (s.head? = some quote.char ∧ s.getLast? = some quote.char)

/-! ## quotes and backslashes -/

section
variable {quote : Char} {s : Text}

theorem Quote.char_ne (q : Quote) : q.char ≠ '\\' := by
  cases q <;> decide

theorem escapeQuote_append (a b : Text) :
    escapeQuote quote (a ++ b) = escapeQuote quote a ++ escapeQuote quote b := List.flatMap_append

theorem escapeQuote_quote (a : Text) :
    escapeQuote quote (quote :: a) = '\\' :: quote :: escapeQuote quote a := by
  rw [escapeQuote, List.flatMap_cons, if_pos rfl]
  rfl

theorem escapeQuote_cons {c : Char} (hc : c ≠ quote) (a : Text) :
    escapeQuote quote (c :: a) = c :: escapeQuote quote a := by
  rw [escapeQuote, List.flatMap_cons, if_neg hc]
  rfl

theorem escapeQuote_of_notMem (h : quote ∉ s) : escapeQuote quote s = s := by
  induction s with
  | nil => rfl
  | cons c s ih =>
    rw [List.mem_cons, not_or] at h
    rw [escapeQuote_cons (Ne.symm h.1), ih h.2]

theorem length_escapeQuote_quote (a b : Text) : (escapeQuote quote (a ++ quote :: b)).length =
    (escapeQuote quote a).length + 2 + (escapeQuote quote b).length := by
  rw [escapeQuote_append, escapeQuote_quote, List.length_append, List.length_cons, List.length_cons]
  omega

/-- the characters that are no backslashes -/
def bare (s : Text) : Text := s.filter (· ≠ '\\')

theorem bare_append (a b : Text) : bare (a ++ b) = bare a ++ bare b := List.filter_append ..

theorem bare_of_notMem (h : '\\' ∉ s) : bare s = s := by
  rw [bare, List.filter_eq_self]
  intro c hc
  rw [decide_eq_true_eq]
  rintro rfl
  exact h hc

theorem bare_escapeQuote (hq : quote ≠ '\\') : bare (escapeQuote quote s) = bare s := by
  induction s with
  | nil => rfl
  | cons c s ih =>
    by_cases hc : c = quote
    · subst hc
      rw [escapeQuote_quote]
      unfold bare at ih ⊢
      rw [List.filter_cons_of_neg (by simp), List.filter_cons_of_pos (by simpa using hq),
        List.filter_cons_of_pos (by simpa using hq), ih]
    · rw [escapeQuote_cons hc]
      unfold bare at ih ⊢
      rw [List.filter_cons, List.filter_cons, ih]

/-- unescaping takes off backslashes, and nothing else -/
theorem bare_replaceLoop (n : Nat) : ∀ s : Text,
    bare (replaceLoop ['\\', quote] [quote] n s) = bare s := by
  induction n with
  | zero => intro s; rfl
  | succ n ih =>
    intro s
    cases s with
    | nil => rfl
    | cons c s =>
      rw [replaceLoop]
      by_cases hp : ['\\', quote].isPrefixOf (c :: s) = true
      · rw [if_pos hp]
        obtain ⟨t, ht⟩ := List.isPrefixOf_iff_prefix.mp hp
        rw [← ht]
        show bare ([quote] ++ replaceLoop _ _ n t) = bare (['\\'] ++ [quote] ++ t)
        rw [bare_append, bare_append, bare_append, ih]
        rfl
      · rw [if_neg hp]
        have hs := ih s
        unfold bare at hs ⊢
        rw [List.filter_cons, List.filter_cons, hs]

theorem bare_replace (s : Text) : bare (replace ['\\', quote] [quote] s) = bare s :=
  bare_replaceLoop _ s

theorem replaceLoop_escapeQuote (hs : '\\' ∉ s) (n : Nat) (h : (escapeQuote quote s).length ≤ n) :
    replaceLoop ['\\', quote] [quote] n (escapeQuote quote s) = s := by
  induction s generalizing n with
  | nil => cases n <;> rfl
  | cons c s ih =>
    rw [List.mem_cons, not_or] at hs
    by_cases hc : c = quote
    · subst hc
      rw [escapeQuote_quote, List.length_cons, List.length_cons] at h
      obtain ⟨m, rfl⟩ : ∃ m, n = m + 1 := ⟨n - 1, by omega⟩
      rw [escapeQuote_quote, replaceLoop, if_pos (by simp)]
      show c :: replaceLoop _ _ m (escapeQuote c s) = _
      rw [ih hs.2 m (by omega)]
    · rw [escapeQuote_cons hc, List.length_cons] at h
      obtain ⟨m, rfl⟩ : ∃ m, n = m + 1 := ⟨n - 1, by omega⟩
      rw [escapeQuote_cons hc, replaceLoop, if_neg, ih hs.2 m (by omega)]
      rw [List.isPrefixOf_iff_prefix]
      intro hp
      exact hs.1 (List.cons_prefix_cons.mp hp).1

theorem replace_escapeQuote (hs : '\\' ∉ s) :
    replace ['\\', quote] [quote] (escapeQuote quote s) = s :=
  replaceLoop_escapeQuote hs _ (Nat.le_refl _)

end

/-! ## the end of a string -/

section
variable {quote : Char}

/-- the loop looks for a quote behind the first character -/
theorem endQuoteLoop_quote {i r : Text} {c : Char} (h : quote ∉ (i ++ [c]).drop 1) (n final : Nat) :
    findMatchingEndQuoteLoop quote (n + 1) (i ++ c :: quote :: r) final =
      if c = '\\' then findMatchingEndQuoteLoop quote n r (i.length + 2)
      else some (final + i.length) := by
  have hsplit : i ++ c :: quote :: r = (i ++ [c]) ++ quote :: r := by simp
  have hlen : (i ++ [c]).length = i.length + 1 := List.length_append
  have hfind : find quote ((i ++ c :: quote :: r).drop 1) = some i.length := by
    rw [hsplit, List.drop_append_of_le_length (by omega), find_append_cons h, List.length_drop, hlen]
    rfl
  have hnil : i ++ c :: quote :: r ≠ [] := fun he => by simpa using congrArg List.length he
  rw [findMatchingEndQuoteLoop, if_neg hnil, hfind]
  dsimp only
  rw [List.drop_left, List.drop_length_add_append]
  show (if [c, quote] ≠ ['\\', quote] then _ else findMatchingEndQuoteLoop quote n r _) = _
  by_cases hc : c = '\\'
  · rw [if_pos hc, if_neg (by simp [hc])]
  · rw [if_neg hc, if_pos (by simpa using hc)]

theorem endQuoteLoop_none {s : Text} (h : quote ∉ s.drop 1) (n final : Nat) :
    findMatchingEndQuoteLoop quote n s final = none := by
  cases n with
  | zero => rfl
  | succ n =>
    rw [findMatchingEndQuoteLoop, find_eq_none.mpr h]
    exact ite_self _

theorem endQuoteLoop_escaped {a s r : Text} (h : quote ∉ a) (hq : quote ≠ '\\') (n final : Nat) :
    findMatchingEndQuoteLoop quote (n + 1) (escapeQuote quote (a ++ quote :: s) ++ r) final =
      findMatchingEndQuoteLoop quote n (escapeQuote quote s ++ r) (a.length + 2) := by
  have hnot : quote ∉ (a ++ ['\\']).drop 1 := by
    intro hmem
    rcases List.mem_append.mp (List.mem_of_mem_drop hmem) with hmem | hmem
    · exact h hmem
    · exact hq (List.mem_singleton.mp hmem)
  have hrun := endQuoteLoop_quote (r := escapeQuote quote s ++ r) hnot n final
  rw [if_pos rfl] at hrun
  rw [escapeQuote_append, escapeQuote_of_notMem h, escapeQuote_quote, List.append_assoc]
  exact hrun

theorem tail_of_last {b u : Text} (h : (b ++ quote :: u).getLast? = some quote) :
    u = [] ∨ u.getLast? = some quote := by
  rcases List.eq_nil_or_concat u with rfl | ⟨u', c, rfl⟩
  · exact .inl rfl
  · refine .inr ?_
    rw [List.concat_eq_append] at h ⊢
    rw [← List.cons_append, ← List.append_assoc, List.getLast?_concat] at h
    rw [List.getLast?_concat, h]

/-- Escaped quotes are skipped; what is counted is the way from the last but one to the last. -/
theorem endQuoteLoop_skip {a v r : Text} (ha : quote ∉ a) (hq : quote ≠ '\\') (m : Nat) :
    ∀ {u : Text} {n : Nat} (final : Nat), u.length ≤ m → (u = [] ∨ u.getLast? = some quote) →
      (escapeQuote quote (u ++ a ++ quote :: v) ++ r).length < n →
      ∃ n', (escapeQuote quote v ++ r).length < n' ∧
        findMatchingEndQuoteLoop quote n (escapeQuote quote (u ++ a ++ quote :: v) ++ r) final =
          findMatchingEndQuoteLoop quote n' (escapeQuote quote v ++ r) (a.length + 2) := by
  -- induction on the length of what stands before the last but one quote
  have hstep : ∀ {b s : Text} {n : Nat} (final : Nat), quote ∉ b →
      (escapeQuote quote (b ++ quote :: s) ++ r).length < n →
      ∃ n', (escapeQuote quote s ++ r).length < n' ∧
        findMatchingEndQuoteLoop quote n (escapeQuote quote (b ++ quote :: s) ++ r) final =
          findMatchingEndQuoteLoop quote n' (escapeQuote quote s ++ r) (b.length + 2) := by
    intro b s n final hb hn
    obtain ⟨n', rfl⟩ : ∃ n', n = n' + 1 := ⟨n - 1, by omega⟩
    refine ⟨n', ?_, endQuoteLoop_escaped hb hq n' final⟩
    rw [List.length_append, length_escapeQuote_quote] at hn
    rw [List.length_append]
    omega
  induction m with
  | zero =>
    intro u n final hu _ hn
    obtain rfl := List.length_eq_zero_iff.mp (Nat.le_zero.mp hu)
    exact hstep final ha hn
  | succ m ih =>
    intro u n final hu hlast hn
    rcases hlast with rfl | hlast
    · exact hstep final ha hn
    · obtain ⟨b, u', rfl, hb⟩ := List.eq_append_cons_of_mem (List.mem_of_getLast? hlast)
      have hassoc : b ++ quote :: u' ++ a ++ quote :: v = b ++ quote :: (u' ++ a ++ quote :: v) := by
        simp
      rw [hassoc] at hn ⊢
      obtain ⟨n₁, hn₁, hrun₁⟩ := hstep final hb hn
      have hu' : u'.length ≤ m := by
        rw [List.length_append, List.length_cons] at hu
        omega
      obtain ⟨n₂, hn₂, hrun₂⟩ := ih (b.length + 2) hu' (tail_of_last hlast) hn₁
      exact ⟨n₂, hn₂, hrun₁.trans hrun₂⟩

def FirstBare (quote : Char) (r : Text) : Prop :=
  ∀ b t, r = b ++ quote :: t → quote ∉ b → b.getLast? ≠ some '\\'

theorem FirstBare.nil : FirstBare quote [] := by
  intro b t h
  cases b <;> cases h

theorem FirstBare.here (r : Text) : FirstBare quote (quote :: r) := by
  intro b t h hb
  cases b with
  | nil => exact nofun
  | cons c b =>
    obtain ⟨rfl, -⟩ := List.cons.inj h
    exact absurd List.mem_cons_self hb

theorem FirstBare.cons {c : Char} {r : Text} (h : FirstBare quote r) (hc : c ≠ '\\') :
    FirstBare quote (c :: r) := by
  intro b t heq hb
  cases b with
  | nil => exact nofun
  | cons d b =>
    obtain ⟨rfl, hr⟩ := List.cons.inj heq
    have hlast := h b t hr fun hmem => hb (List.mem_cons_of_mem _ hmem)
    cases b with
    | nil => exact fun he => hc (Option.some.inj he)
    | cons e b => exact hlast

theorem FirstBare.escaped {c : Char} {r : Text} (h : FirstBare quote r) (hc : c ≠ '\\')
    (hquote : c ≠ quote) (hq : quote ≠ '\\') : FirstBare quote ('\\' :: c :: r) := by
  intro b t heq hb
  cases b with
  | nil => exact absurd (List.cons.inj heq).1.symm hq
  | cons d b =>
    obtain ⟨rfl, hr⟩ := List.cons.inj heq
    have hlast := (h.cons hc) b t hr fun hmem => hb (List.mem_cons_of_mem _ hmem)
    cases b with
    | nil => exact absurd (List.cons.inj hr).1 hquote
    | cons e b => exact hlast

theorem FirstBare.escapeQuote {c : Char} {s r : Text} (h : FirstBare quote r) (hc : c ≠ '\\')
    (hquote : c ≠ quote) (hq : quote ≠ '\\') (hs : '\\' ∉ s) :
    FirstBare quote (Rosidl.escapeQuote c s ++ r) := by
  induction s with
  | nil => exact h
  | cons d s ih =>
    rw [List.mem_cons, not_or] at hs
    by_cases hd : d = c
    · rw [hd, escapeQuote_quote]
      exact (ih hs.2).escaped hc hquote hq
    · rw [escapeQuote_cons hd]
      exact (ih hs.2).cons (Ne.symm hs.1)

theorem firstBare_quoted (q : Quote) {p : Quote} {s r : Text} (h : FirstBare q.char r)
    (hs : '\\' ∉ s) : FirstBare q.char (quoted p s r) := by
  by_cases hp : p = q
  · rw [quoted, hp]
    exact .here _
  · have hne : p.char ≠ q.char := by
      intro he
      apply hp
      cases p <;> cases q
      · rfl
      · cases he
      · cases he
      · rfl
    exact ((h.cons p.char_ne).escapeQuote p.char_ne hne q.char_ne hs).cons p.char_ne

/-- the last part of the string: only if something stands there the loop finds its end -/
theorem endQuoteLoop_last {v r : Text} (hv : quote ∉ v) (hs : '\\' ∉ v) (hq : quote ≠ '\\')
    (hr : FirstBare quote r) (n final : Nat) :
    findMatchingEndQuoteLoop quote (n + 1) (v ++ quote :: r) final =
      if v = [] then (find quote r).map (final + ·) else some (final + (v.length - 1)) := by
  rcases List.eq_nil_or_concat v with rfl | ⟨i, c, rfl⟩
  · rw [if_pos rfl]
    by_cases hmem : quote ∈ r
    · obtain ⟨b, t, rfl, hb⟩ := List.eq_append_cons_of_mem hmem
      have hlast := hr b t rfl hb
      rw [find_append_cons hb]
      rcases List.eq_nil_or_concat b with rfl | ⟨b', c, rfl⟩
      · have hnot : quote ∉ (([] : Text) ++ [quote]).drop 1 := by simp
        have hrun := endQuoteLoop_quote (r := t) hnot n final
        rw [if_neg hq] at hrun
        exact hrun
      · rw [List.concat_eq_append] at hb hlast ⊢
        rw [List.getLast?_concat] at hlast
        have hnot : quote ∉ (quote :: b' ++ [c]).drop 1 := hb
        have hrun := endQuoteLoop_quote (r := t) hnot n final
        rw [if_neg fun he => hlast (congrArg some he)] at hrun
        rw [List.length_append, List.append_assoc]
        exact hrun
    · rw [find_eq_none.mpr hmem]
      exact endQuoteLoop_none hmem _ _
  · rw [List.concat_eq_append] at hv hs ⊢
    have hrun := endQuoteLoop_quote (r := r) (fun h => hv (List.mem_of_mem_drop h)) n final
    have hc : c ≠ '\\' := by
      rintro rfl
      exact hs (List.mem_append_right _ List.mem_cons_self)
    rw [if_neg hc] at hrun
    rw [if_neg (by simp), List.append_assoc, List.length_append, List.length_singleton,
      Nat.add_sub_cancel]
    exact hrun

theorem endQuoteLoop_first {b s r : Text} (hb : quote ∉ b) (hq : quote ≠ '\\') (n final : Nat) :
    findMatchingEndQuoteLoop quote (n + 1) (quote :: (escapeQuote quote (b ++ quote :: s) ++ r))
      final = findMatchingEndQuoteLoop quote n (escapeQuote quote s ++ r) (b.length + 3) := by
  have hnot : quote ∉ (quote :: b ++ ['\\']).drop 1 := by
    intro hmem
    rcases List.mem_append.mp hmem with hmem | hmem
    · exact hb hmem
    · exact hq (List.mem_singleton.mp hmem)
  have hrun := endQuoteLoop_quote (r := escapeQuote quote s ++ r) hnot n final
  rw [if_pos rfl] at hrun
  rw [escapeQuote_append, escapeQuote_of_notMem hb, escapeQuote_quote, List.append_assoc]
  exact hrun

end

/-- the last two quotes of a string that it has in it -/
structure LastQuotes (quote : Char) (s u a v : Text) : Prop where
  eq : s = u ++ a ++ quote :: v
  between : quote ∉ a
  behind : quote ∉ v
  before : u = [] ∨ u.getLast? = some quote

/-- how much has been counted behind the last of them -/
def counted (u a : Text) : Nat := if u = [] then a.length + 3 else a.length + 2

/-- **The end of a written string**, as the scanner finds it. -/
theorem findMatchingEndQuote_written (q : Quote) {s r : Text} (hs : '\\' ∉ s)
    (hr : FirstBare q.char r) :
    (q.char ∉ s ∧ findMatchingEndQuote (quoted q s r) q.char = some s.length) ∨
      ∃ u a v, LastQuotes q.char s u a v ∧ findMatchingEndQuote (quoted q s r) q.char =
        if v = [] then (find q.char r).map (counted u a + ·)
        else some (counted u a + (v.length - 1)) := by
  unfold findMatchingEndQuote quoted
  by_cases hmem : q.char ∈ s
  · obtain ⟨p, v, rfl, hv⟩ := exists_last_of_mem hmem
    obtain ⟨u, a, rfl, ha, hu⟩ := exists_tail q.char p
    refine .inr ⟨u, a, v, ⟨rfl, ha, hv, hu⟩, ?_⟩
    have hplain : '\\' ∉ v := fun h => hs (List.mem_append_right _ (List.mem_cons_of_mem _ h))
    have hlast : ∀ {n final : Nat}, (escapeQuote q.char v ++ q.char :: r).length < n →
        findMatchingEndQuoteLoop q.char n (escapeQuote q.char v ++ q.char :: r) final =
          if v = [] then (find q.char r).map (final + ·) else some (final + (v.length - 1)) := by
      intro n final hn
      obtain ⟨n, rfl⟩ : ∃ n', n = n' + 1 := ⟨n - 1, by omega⟩
      rw [escapeQuote_of_notMem hv]
      exact endQuoteLoop_last hv hplain q.char_ne hr n final
    rcases hu with rfl | hu
    · rw [List.nil_append, endQuoteLoop_first ha q.char_ne, counted, if_pos rfl]
      apply hlast
      rw [List.length_cons, List.length_append, List.length_append, length_escapeQuote_quote]
      omega
    · obtain ⟨b, u', rfl, hb⟩ := List.eq_append_cons_of_mem (List.mem_of_getLast? hu)
      have hassoc : b ++ q.char :: u' ++ a ++ q.char :: v =
          b ++ q.char :: (u' ++ a ++ q.char :: v) := by simp
      have hcounted : counted (b ++ q.char :: u') a = a.length + 2 := if_neg (by simp)
      have hlen : (escapeQuote q.char (u' ++ a ++ q.char :: v) ++ q.char :: r).length <
          (q.char :: (escapeQuote q.char (b ++ q.char :: (u' ++ a ++ q.char :: v)) ++
            q.char :: r)).length := by
        rw [List.length_cons, List.length_append, List.length_append, length_escapeQuote_quote b]
        omega
      rw [hcounted, hassoc, endQuoteLoop_first hb q.char_ne]
      obtain ⟨n', hn', hrun⟩ := endQuoteLoop_skip ha q.char_ne u'.length _ (Nat.le_refl _)
        (tail_of_last hu) hlen
      rw [hrun, hlast hn']
  · refine .inl ⟨hmem, ?_⟩
    rw [escapeQuote_of_notMem hmem]
    rcases List.eq_nil_or_concat (q.char :: s) with hnil | ⟨i, c, hic⟩
    · cases hnil
    · rw [List.concat_eq_append] at hic
      have hc : c ≠ '\\' := by
        have hcmem : c ∈ q.char :: s := hic ▸ List.mem_append_right _ List.mem_cons_self
        rintro rfl
        rcases List.mem_cons.mp hcmem with h | h
        · exact q.char_ne h.symm
        · exact hs h
      have hnot : q.char ∉ (i ++ [c]).drop 1 := by
        rw [← hic]
        exact hmem
      have hlen : s.length = i.length := by
        have := congrArg List.length hic
        rw [List.length_append, List.length_cons, List.length_singleton] at this
        omega
      have hrun := endQuoteLoop_quote (r := r) hnot ((q.char :: (s ++ q.char :: r)).length) 0
      rw [if_neg hc, Nat.zero_add] at hrun
      rw [hlen, ← hrun]
      congr 1
      rw [← List.cons_append, hic, List.append_assoc]
      rfl

/-! ## whether it is the right one -/

section
variable {quote : Char} {s u a v r : Text}

theorem LastQuotes.length_escapeQuote (h : LastQuotes quote s u a v) :
    (escapeQuote quote s).length = (escapeQuote quote u).length + a.length + 2 + v.length := by
  rw [h.eq, length_escapeQuote_quote, escapeQuote_append, escapeQuote_of_notMem h.between,
    escapeQuote_of_notMem h.behind, List.length_append]

theorem LastQuotes.count (h : LastQuotes quote s u a v) : s.count quote = u.count quote + 1 := by
  rw [h.eq, List.count_append, List.count_append, List.count_cons_self,
    List.count_eq_zero_of_not_mem h.between, List.count_eq_zero_of_not_mem h.behind]

theorem LastQuotes.getLast? (h : LastQuotes quote s u a v) :
    s.getLast? = some quote ↔ v = [] := by
  rw [h.eq]
  rcases List.eq_nil_or_concat v with rfl | ⟨i, c, rfl⟩
  · exact iff_of_true List.getLast?_concat rfl
  · have hc : c ≠ quote := by
      rintro rfl
      apply h.behind
      rw [List.concat_eq_append]
      exact List.mem_append_right _ List.mem_cons_self
    rw [List.concat_eq_append, ← List.cons_append, ← List.append_assoc, List.getLast?_concat]
    refine iff_of_false (fun he => hc (Option.some.inj he)) ?_
    simp

theorem LastQuotes.one_le_count (h : u.getLast? = some quote) : 1 ≤ u.count quote :=
  List.count_pos_iff.mpr (List.mem_of_getLast? h)

theorem LastQuotes.endFound_iff (h : LastQuotes quote s u a v) : EndFound quote s r ↔
    u = [] ∧ v ≠ [] ∨
      u ≠ [] ∧ v = [] ∧ find quote r = some (escapeQuote quote u).length := by
  have hcount := h.count
  constructor
  · rintro (⟨hone, hlast⟩ | ⟨u', v', b, t, rfl, hv', hr, hb, hlen⟩)
    · refine .inl ⟨?_, fun hv => hlast (h.getLast?.mpr hv)⟩
      rcases h.before with hu | hu
      · exact hu
      · have := LastQuotes.one_le_count hu
        omega
    · obtain rfl := h.getLast?.mp List.getLast?_concat
      have heq : u' ++ quote :: v' = u ++ a := List.append_cancel_right h.eq
      rcases h.before with rfl | hu
      · refine absurd ?_ h.between
        rw [List.nil_append] at heq
        rw [← heq]
        exact List.mem_append_right _ List.mem_cons_self
      · obtain ⟨p, rfl⟩ : ∃ p, u = p ++ [quote] := by
          obtain ⟨p, hp⟩ := List.getLast?_eq_some_iff.mp hu
          exact ⟨p, hp⟩
        rw [List.append_assoc] at heq
        obtain ⟨rfl, -⟩ := last_unique heq hv' h.between
        exact .inr ⟨by simp, rfl, find_eq_some.mpr ⟨b, t, hr, hb, hlen⟩⟩
  · rintro (⟨rfl, hv⟩ | ⟨hu, rfl, hfind⟩)
    · refine .inl ⟨?_, fun hlast => hv (h.getLast?.mp hlast)⟩
      rw [hcount]
      exact Nat.le_refl 1
    · obtain ⟨p, rfl⟩ := List.getLast?_eq_some_iff.mp (h.before.resolve_left hu)
      obtain ⟨b, t, hr, hb, hlen⟩ := find_eq_some.mp hfind
      refine .inr ⟨p, a, b, t, ?_, h.between, hr, hb, hlen⟩
      rw [h.eq, List.append_assoc p]
      rfl

theorem endFound_of_notMem (h : quote ∉ s) : EndFound quote s r := by
  refine .inl ⟨?_, fun hlast => h (List.mem_of_getLast? hlast)⟩
  rw [List.count_eq_zero_of_not_mem h]
  exact Nat.zero_le 1

end

/-- the end that is found, if any, by comparison with the right one -/
theorem findMatchingEndQuote_cases (q : Quote) {s r : Text} (hs : '\\' ∉ s)
    (hr : FirstBare q.char r) :
    (EndFound q.char s r ∧ findMatchingEndQuote (quoted q s r) q.char =
      some (escapeQuote q.char s).length) ∨
    (¬ EndFound q.char s r ∧ ∀ e, findMatchingEndQuote (quoted q s r) q.char = some e →
      e < (escapeQuote q.char s).length ∨
        q.char ∈ s ∧ (escapeQuote q.char s).length < e ∧ ∃ b t, r = b ++ q.char :: t ∧
          q.char ∉ b ∧ e ≤ (escapeQuote q.char s).length + 1 + b.length) := by
  rcases findMatchingEndQuote_written q hs hr with ⟨hmem, hfind⟩ | ⟨u, a, v, h, hfind⟩
  · rw [escapeQuote_of_notMem hmem]
    exact .inl ⟨endFound_of_notMem hmem, hfind⟩
  · have hlen := h.length_escapeQuote
    have hmem : q.char ∈ s := by
      rw [h.eq]
      exact List.mem_append_right _ List.mem_cons_self
    rw [hfind, h.endFound_iff, hlen]
    unfold counted
    by_cases hu : u = [] <;> by_cases hv : v = []
    · -- the one quote is the last character
      refine .inr ⟨by simp [hu, hv], ?_⟩
      intro e he
      rw [if_pos hv, if_pos hu] at he
      obtain ⟨k, hk, rfl⟩ := Option.map_eq_some_iff.mp he
      obtain ⟨b, t, hbt, hb, rfl⟩ := find_eq_some.mp hk
      subst hu hv
      refine .inr ⟨hmem, ?_, b, t, hbt, hb, ?_⟩
      · simp only [escapeQuote, List.flatMap_nil, List.length_nil]
        omega
      · simp only [escapeQuote, List.flatMap_nil, List.length_nil]
        omega
    · refine .inl ⟨.inl ⟨hu, hv⟩, ?_⟩
      have := List.length_pos_iff.mpr hv
      rw [if_neg hv, if_pos hu, hu]
      simp only [escapeQuote, List.flatMap_nil, List.length_nil, Option.some.injEq]
      omega
    · -- several quotes, and the last of them is the last character
      rw [if_pos hv, if_neg hu, hv]
      by_cases hk : find q.char r = some (escapeQuote q.char u).length
      · refine .inl ⟨.inr ⟨hu, rfl, hk⟩, ?_⟩
        rw [hk, Option.map_some, List.length_nil, Option.some.injEq]
        omega
      · refine .inr ⟨by simp [hu, hk], ?_⟩
        intro e he
        obtain ⟨k, hk', rfl⟩ := Option.map_eq_some_iff.mp he
        obtain ⟨b, t, hbt, hb, rfl⟩ := find_eq_some.mp hk'
        have hne : b.length ≠ (escapeQuote q.char u).length := fun heq => hk (heq ▸ hk')
        rw [List.length_nil]
        rcases Nat.lt_or_gt_of_ne hne with hlt | hgt
        · exact .inl (by omega)
        · exact .inr ⟨hmem, by omega, b, t, hbt, hb, by omega⟩
    · refine .inr ⟨by simp [hu, hv], ?_⟩
      intro e he
      rw [if_neg hv, if_neg hu] at he
      have := List.length_pos_iff.mpr hv
      obtain rfl := Option.some.inj he
      exact .inl (by omega)

/-! ## a value that is read once more -/

section
variable {s t : Text} {c : Char}

/-- the same quote at both ends, perhaps one character -/
def Enclosed (quote : Char) (s : Text) : Prop := s.head? = some quote ∧ s.getLast? = some quote

theorem Enclosed.cases (h : Enclosed c s) : s = [c] ∨ s = c :: ((s.drop 1).dropLast ++ [c]) := by
  obtain ⟨hhead, hlast⟩ := h
  cases s with
  | nil => cases hhead
  | cons d s =>
    obtain rfl := Option.some.inj hhead
    rcases List.eq_nil_or_concat s with rfl | ⟨i, e, rfl⟩
    · exact .inl rfl
    · rw [List.concat_eq_append, ← List.cons_append, List.getLast?_concat] at hlast
      obtain rfl := Option.some.inj hlast
      refine .inr ?_
      rw [List.concat_eq_append, List.drop_one, List.tail_cons, List.dropLast_concat]

theorem unquote_ok (h : unquote .string t = .ok s) :
    (s = t ∧ ∀ q : Quote, ¬ Enclosed q.char t) ∨
      ∃ q : Quote, Enclosed q.char t ∧
        s = replace ['\\', q.char] [q.char] ((t.drop 1).dropLast) := by
  have hend : ∀ c : Char, (startswith t [c] && endswith t [c]) = true ↔ Enclosed c t := by
    intro c
    rw [Bool.and_eq_true, startswith_char, endswith_char]
    rfl
  have hinside : ∀ c : Char, Enclosed c t →
      (if hasBareQuote c ((t.drop 1).dropLast) none then
        .error (invalidValue Primitive.string.text ((t.drop 1).dropLast)
          "string inner quotes not properly escaped".toList)
      else Except.ok (replace ['\\', c] [c] ((t.drop 1).dropLast))) = .ok s →
      s = replace ['\\', c] [c] ((t.drop 1).dropLast) := by
    intro c _ hc
    split at hc
    · cases hc
    · exact (Except.ok.inj hc).symm
  unfold unquote at h
  by_cases hdouble : (startswith t ['"'] && endswith t ['"']) = true
  · rw [if_pos hdouble] at h
    have henc := (hend _).mp hdouble
    exact .inr ⟨.double, henc, hinside _ henc h⟩
  · rw [if_neg hdouble] at h
    by_cases hsingle : (startswith t ['\''] && endswith t ['\'']) = true
    · rw [if_pos hsingle] at h
      have henc := (hend _).mp hsingle
      exact .inr ⟨.single, henc, hinside _ henc h⟩
    · rw [if_neg hsingle] at h
      refine .inl ⟨(Except.ok.inj h).symm, ?_⟩
      intro q hq
      cases q with
      | double => exact hdouble ((hend _).mpr hq)
      | single => exact hsingle ((hend _).mpr hq)

theorem unquote_of_not_enclosed (h : ∀ q : Quote, ¬ Enclosed q.char s) :
    unquote .string s = .ok s := by
  have hend : ∀ q : Quote, ¬ (startswith s [q.char] && endswith s [q.char]) = true := by
    intro q
    rw [Bool.and_eq_true, startswith_char, endswith_char]
    exact h q
  have hdouble : ¬ (startswith s ['"'] && endswith s ['"']) = true := hend .double
  have hsingle : ¬ (startswith s ['\''] && endswith s ['\'']) = true := hend .single
  unfold unquote
  rw [if_neg hdouble, if_neg hsingle]

theorem inner_sublist (s : Text) : ((s.drop 1).dropLast).Sublist s :=
  (List.dropLast_sublist _).trans (List.drop_sublist 1 s)

/-- a text that is read as a value gives a string -/
def Gives (t s : Text) : Prop := unquote .string (strip t) = .ok s

theorem Gives.bare_sublist (h : Gives t s) : (bare s).Sublist (bare t) := by
  rcases unquote_ok h with ⟨rfl, -⟩ | ⟨q, -, rfl⟩
  · exact (strip_sublist t).filter _
  · rw [bare_replace]
    exact ((inner_sublist _).trans (strip_sublist t)).filter _

theorem gives_self_iff (hs : '\\' ∉ s) : Gives s s ↔ Kept s := by
  constructor
  · intro h
    rcases unquote_ok h with ⟨heq, hends⟩ | ⟨q, henc, heq⟩
    · rw [← heq] at hends
      exact ⟨heq.symm, hends⟩
    · -- what has lost its quotes is too short
      have hbare : s = bare ((strip s).drop 1).dropLast := by
        rw [← bare_replace, ← heq, bare_of_notMem hs]
      have hlen := congrArg List.length hbare
      have hle : (bare ((strip s).drop 1).dropLast).length ≤ ((strip s).drop 1).dropLast.length :=
        List.length_filter_le ..
      have hstrip := (strip_sublist s).length_le
      have hpos : 0 < (strip s).length := by
        cases hnil : strip s with
        | nil =>
          have hhead := henc.1
          rw [hnil] at hhead
          cases hhead
        | cons d l => exact Nat.succ_pos _
      rw [List.length_dropLast, List.length_drop] at hle
      omega
  · intro h
    show unquote .string (strip s) = _
    rw [h.strip]
    exact unquote_of_not_enclosed h.ends

theorem Quote.char_not_space (q : Quote) : isSpace q.char = false := by
  cases q <;> decide

theorem count_bare (q : Quote) (s : Text) : (bare s).count q.char = s.count q.char :=
  List.count_filter (decide_eq_true q.char_ne)

/-- the count of a quote after unquoting: as before, or two less, or one was all there was -/
theorem Gives.count (h : Gives t s) (q : Quote) : s.count q.char = t.count q.char ∨
    s.count q.char + 2 = t.count q.char ∨ s.count q.char = 0 := by
  rw [← count_strip q.char_not_space t]
  rcases unquote_ok h with ⟨rfl, -⟩ | ⟨p, henc, rfl⟩
  · exact .inl rfl
  · rw [← count_bare, bare_replace, count_bare]
    rcases henc.cases with hone | hmany
    · rw [hone]
      exact .inr (.inr rfl)
    · by_cases hp : p.char = q.char
      · refine .inr (.inl ?_)
        conv => rhs; rw [hmany]
        rw [hp, List.count_cons_self, List.count_append, List.count_singleton_self]
      · refine .inl ?_
        conv => rhs; rw [hmany]
        rw [List.count_cons_of_ne hp, List.count_append,
          List.count_eq_zero_of_not_mem fun hmem => hp (List.mem_singleton.mp hmem).symm]
        rfl

/-- the last character of what is written is no backslash -/
theorem getLast?_escapeQuote (q : Quote) (hs : '\\' ∉ s) :
    (escapeQuote q.char s).getLast? ≠ some '\\' := by
  rcases List.eq_nil_or_concat s with rfl | ⟨i, d, rfl⟩
  · exact nofun
  · rw [List.concat_eq_append] at hs ⊢
    have hd : d ≠ '\\' := by
      rintro rfl
      exact hs (List.mem_append_right _ List.mem_cons_self)
    have hlast : (escapeQuote q.char (i ++ [d])).getLast? = some d := by
      rw [escapeQuote_append]
      by_cases hdq : d = q.char
      · rw [hdq, escapeQuote_quote, List.getLast?_append_of_ne_nil _ (List.cons_ne_nil _ _)]
        rfl
      · rw [escapeQuote_cons hdq, List.getLast?_append_of_ne_nil _ (List.cons_ne_nil _ _)]
        rfl
    rw [hlast]
    exact fun h => hd (Option.some.inj h)

/-- a part that leaves out the end has fewer characters -/
theorem length_bare_take {e : Nat} (hlast : s.getLast? ≠ some '\\') (he : e < s.length) :
    (bare (s.take e)).length < (bare s).length := by
  have hsplit : bare s = bare (s.take e) ++ bare (s.drop e) := by
    rw [← bare_append, List.take_append_drop]
  have hpos : 0 < (bare (s.drop e)).length := by
    have hne : s.drop e ≠ [] := by
      intro hnil
      have := List.drop_eq_nil_iff.mp hnil
      omega
    obtain ⟨i, d, hid⟩ := (List.eq_nil_or_concat (s.drop e)).resolve_left hne
    rw [List.concat_eq_append] at hid
    have hd : d ≠ '\\' := by
      rintro rfl
      apply hlast
      rw [← List.take_append_drop e s, hid, ← List.append_assoc, List.getLast?_concat]
    have hmem : d ∈ bare (s.drop e) := by
      rw [bare, List.mem_filter, hid, decide_eq_true_eq]
      exact ⟨List.mem_append_right _ List.mem_cons_self, hd⟩
    exact List.length_pos_of_mem hmem
  rw [hsplit, List.length_append]
  omega

/-- **A wrong end** gives another string. -/
theorem not_gives_of_wrong (q : Quote) {r : Text} {e : Nat} (hs : '\\' ∉ s)
    (hr : FirstBare q.char r) (hend : ¬ EndFound q.char s r)
    (hfind : findMatchingEndQuote (quoted q s r) q.char = some e) :
    ¬ Gives (replace ['\\', q.char] [q.char] ((escapeQuote q.char s ++ q.char :: r).take e)) s := by
  intro hgives
  rcases findMatchingEndQuote_cases q hs hr with ⟨hfound, -⟩ | ⟨-, hwrong⟩
  · exact hend hfound
  · rcases hwrong e hfind with hlt | ⟨hmem, hgt, b, t, rfl, hb, hle⟩
    · -- too short
      have hsub := hgives.bare_sublist.length_le
      rw [bare_replace, List.take_append_of_le_length (Nat.le_of_lt hlt)] at hsub
      have hshort := length_bare_take (getLast?_escapeQuote q hs) hlt
      rw [bare_escapeQuote q.char_ne] at hshort
      omega
    · -- one quote too many
      have htake : (escapeQuote q.char s ++ q.char :: (b ++ q.char :: t)).take e =
          escapeQuote q.char s ++
            q.char :: b.take (e - (escapeQuote q.char s).length - 1) := by
        obtain ⟨k, hk⟩ : ∃ k, e - (escapeQuote q.char s).length = k + 1 :=
          ⟨e - (escapeQuote q.char s).length - 1, by omega⟩
        rw [List.take_append, List.take_of_length_le (Nat.le_of_lt hgt), hk, List.take_succ_cons,
          List.take_append_of_le_length (by omega)]
        rfl
      have hcount := hgives.count q
      rw [← count_bare q (replace _ _ _), bare_replace, count_bare, htake, List.count_append,
        ← count_bare q (escapeQuote q.char s), bare_escapeQuote q.char_ne, count_bare,
        List.count_cons_self, List.count_eq_zero_of_not_mem fun h => hb (List.mem_of_mem_take h)]
        at hcount
      have := List.count_pos_iff.mpr hmem
      omega

end

end PMROS2.Rosidl
