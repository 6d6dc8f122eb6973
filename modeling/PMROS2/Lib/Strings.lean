import Mathlib.Data.List.TakeWhile

/-!
# Python strings

A string is a list of characters.  Only the methods with a rule of their own are here, and one
function of C; the others are those of lists.

* `splitlines`     at every line boundary Python knows; a boundary at the end starts no line;
* `strip`, `lstrip`, `rstrip`, `partition`, `find`, `replace`;
* `takeWhile_of_find_some`, `find_append_cons`   what stands before the first occurrence;
* `splitlines_cons`, `splitlines_suffix`   the lines around a newline.
-/

namespace PMROS2.Strings

abbrev Text := List Char

/-! ## whitespace -/

/-- `str.isspace`, of one character -/
def isSpace (c : Char) : Bool :=
  (9 ≤ c.toNat && c.toNat ≤ 13) || (28 ≤ c.toNat && c.toNat ≤ 32) || c.toNat = 0x85 ||
    c.toNat = 0xA0 || c.toNat = 0x1680 || (0x2000 ≤ c.toNat && c.toNat ≤ 0x200A) ||
    c.toNat = 0x2028 || c.toNat = 0x2029 || c.toNat = 0x202F || c.toNat = 0x205F ||
    c.toNat = 0x3000

def lstrip (s : Text) : Text := s.dropWhile isSpace

def rstrip (s : Text) : Text := (s.reverse.dropWhile isSpace).reverse

def strip (s : Text) : Text := rstrip (lstrip s)

/-- `lstrip(' ')` -/
def lstripBlanks (s : Text) : Text := s.dropWhile (· = ' ')

theorem rstrip_eq_nil {s : Text} : rstrip s = [] ↔ ∀ c ∈ s, isSpace c = true := by
  rw [rstrip, List.reverse_eq_nil_iff, List.dropWhile_eq_nil_iff]
  simp only [List.mem_reverse]

theorem rstrip_rstrip (s : Text) : rstrip (rstrip s) = rstrip s := by
  have h : ∀ t : Text, (t.dropWhile isSpace).dropWhile isSpace = t.dropWhile isSpace := by
    intro t
    cases hd : t.dropWhile isSpace with
    | nil => rfl
    | cons c r =>
      have hc := List.head_dropWhile_not isSpace (l := t) (by rw [hd]; exact List.cons_ne_nil c r)
      simp only [hd, List.head_cons] at hc
      rw [List.dropWhile_cons, if_neg (by rw [hc]; exact Bool.false_ne_true)]
  rw [rstrip, rstrip, List.reverse_reverse, h]

theorem rstrip_of_strip {s : Text} (h : strip s = []) : rstrip s = [] := by
  rw [strip, rstrip_eq_nil] at h
  rw [rstrip_eq_nil]
  intro c hc
  have hall : ∀ c ∈ s.takeWhile isSpace ++ s.dropWhile isSpace, isSpace c = true := by
    intro d hd
    rcases List.mem_append.mp hd with hd | hd
    · exact List.mem_takeWhile_imp hd
    · exact h d hd
  rw [List.takeWhile_append_dropWhile] at hall
  exact hall c hc

theorem strip_eq (s : Text) : ∃ a b, s = a ++ strip s ++ b ∧ (∀ d ∈ a, isSpace d = true) ∧
    ∀ d ∈ b, isSpace d = true := by
  refine ⟨s.takeWhile isSpace, ((lstrip s).reverse.takeWhile isSpace).reverse, ?_, ?_, ?_⟩
  · have hright : strip s ++ ((lstrip s).reverse.takeWhile isSpace).reverse = lstrip s := by
      rw [strip, rstrip, ← List.reverse_append, List.takeWhile_append_dropWhile,
        List.reverse_reverse]
    rw [List.append_assoc, hright]
    exact List.takeWhile_append_dropWhile.symm
  · intro d hd
    exact List.mem_takeWhile_imp hd
  · intro d hd
    exact List.mem_takeWhile_imp (List.mem_reverse.mp hd)

theorem strip_sublist (s : Text) : (strip s).Sublist s := by
  obtain ⟨a, b, h, -⟩ := strip_eq s
  conv => rhs; rw [h]
  exact ((List.sublist_append_right a _)).trans (List.sublist_append_left _ b)

theorem count_strip {c : Char} (hc : isSpace c = false) (s : Text) :
    (strip s).count c = s.count c := by
  obtain ⟨a, b, h, ha, hb⟩ := strip_eq s
  have hnot : ∀ l : Text, (∀ d ∈ l, isSpace d = true) → l.count c = 0 := by
    intro l hl
    apply List.count_eq_zero_of_not_mem
    intro hmem
    rw [hl c hmem] at hc
    cases hc
  conv => rhs; rw [h]
  rw [List.count_append, List.count_append, hnot a ha, hnot b hb]
  omega

theorem lstripBlanks_of_head {s : Text} (h : s.head? ≠ some ' ') : lstripBlanks s = s := by
  cases s with
  | nil => rfl
  | cons c s =>
    rw [lstripBlanks, List.dropWhile_cons, if_neg]
    rw [decide_eq_true_eq]
    exact fun hc => h (congrArg some hc)

theorem lstripBlanks_cons {c : Char} (hc : c ≠ ' ') (s : Text) : lstripBlanks (c :: s) = c :: s :=
  lstripBlanks_of_head fun h => hc (Option.some.inj h)

theorem lstripBlanks_replicate (n : Nat) : lstripBlanks (List.replicate n ' ') = [] := by
  rw [lstripBlanks, List.dropWhile_eq_nil_iff]
  intro c hc
  rw [decide_eq_true_eq]
  exact List.eq_of_mem_replicate hc

/-! ## searching -/

/-- `find`, of a character -/
def find (c : Char) (s : Text) : Option Nat := s.findIdx? (· = c)

theorem find_eq_none {c : Char} {s : Text} : find c s = none ↔ c ∉ s := by
  rw [find, List.findIdx?_eq_none_iff]
  constructor
  · intro h hc
    simpa using h c hc
  · intro h d hd
    rw [decide_eq_false_iff_not]
    rintro rfl
    exact h hd

theorem takeWhile_of_find_none {c : Char} {s : Text} (h : find c s = none) :
    s.takeWhile (· ≠ c) = s := by
  rw [List.takeWhile_eq_self_iff]
  intro d hd
  rw [decide_eq_true_eq]
  rintro rfl
  exact find_eq_none.mp h hd

theorem takeWhile_of_find_some {c : Char} {s : Text} {i : Nat} (h : find c s = some i) :
    s.takeWhile (· ≠ c) = s.take i := by
  induction s generalizing i with
  | nil => cases h
  | cons d s ih =>
    rw [find, List.findIdx?_cons] at h
    by_cases hd : d = c
    · rw [if_pos (by simpa using hd)] at h
      obtain rfl := Option.some.inj h
      rw [List.takeWhile_cons, if_neg (by simpa using hd)]
      rfl
    · rw [if_neg (by simpa using hd)] at h
      obtain ⟨j, hj, rfl⟩ := Option.map_eq_some_iff.mp h
      rw [List.takeWhile_cons, if_pos (by simpa using hd), ih hj]
      rfl

theorem find_append_cons {c : Char} {a : Text} (h : c ∉ a) (s : Text) :
    find c (a ++ c :: s) = some a.length := by
  rw [find, List.findIdx?_append, ← find, find_eq_none.mpr h, List.findIdx?_cons]
  simp

theorem find_eq_some {c : Char} {s : Text} {k : Nat} :
    find c s = some k ↔ ∃ b t, s = b ++ c :: t ∧ c ∉ b ∧ b.length = k := by
  constructor
  · intro h
    by_cases hmem : c ∈ s
    · obtain ⟨b, t, rfl, hb⟩ := List.eq_append_cons_of_mem hmem
      rw [find_append_cons hb] at h
      exact ⟨b, t, rfl, hb, Option.some.inj h⟩
    · rw [find_eq_none.mpr hmem] at h
      cases h
  · rintro ⟨b, t, rfl, hb, rfl⟩
    exact find_append_cons hb t

/-! ## the last occurrence -/

theorem exists_last_of_mem {c : Char} {s : Text} (h : c ∈ s) :
    ∃ p v, s = p ++ c :: v ∧ c ∉ v := by
  obtain ⟨v, p, hs, hv⟩ := List.eq_append_cons_of_mem (List.mem_reverse.mpr h)
  refine ⟨p.reverse, v.reverse, ?_, fun hmem => hv (List.mem_reverse.mp hmem)⟩
  rw [← List.reverse_reverse s, hs, List.reverse_append, List.reverse_cons, List.append_assoc]
  rfl

theorem exists_tail (c : Char) (p : Text) :
    ∃ u a, p = u ++ a ∧ c ∉ a ∧ (u = [] ∨ u.getLast? = some c) := by
  by_cases h : c ∈ p
  · obtain ⟨u, a, rfl, ha⟩ := exists_last_of_mem h
    refine ⟨u ++ [c], a, ?_, ha, .inr List.getLast?_concat⟩
    rw [List.append_assoc]
    rfl
  · exact ⟨[], p, rfl, h, .inl rfl⟩

theorem last_unique {c : Char} {p p' a a' : Text} (h : p ++ c :: a = p' ++ c :: a') (ha : c ∉ a)
    (ha' : c ∉ a') : p = p' ∧ a = a' := by
  rcases List.append_eq_append_iff.mp h with ⟨w, rfl, hw⟩ | ⟨w, rfl, hw⟩
  · cases w with
    | nil => exact ⟨(List.append_nil p).symm, (List.cons.inj hw).2⟩
    | cons d w =>
      refine absurd ?_ ha
      rw [(List.cons.inj hw).2]
      exact List.mem_append_right _ List.mem_cons_self
  · cases w with
    | nil => exact ⟨List.append_nil p', (List.cons.inj hw).2.symm⟩
    | cons d w =>
      refine absurd ?_ ha'
      rw [(List.cons.inj hw).2]
      exact List.mem_append_right _ List.mem_cons_self

/-! ## parts -/

/-- `partition`, at a character: before, whether it was found, after -/
def partition (c : Char) (s : Text) : Text × Bool × Text :=
  match find c s with
  | none => (s, false, [])
  | some i => (s.take i, true, s.drop (i + 1))

def startswith (s p : Text) : Bool := p.isPrefixOf s

def endswith (s p : Text) : Bool := p.isSuffixOf s

theorem startswith_char {s : Text} {c : Char} : startswith s [c] = true ↔ s.head? = some c := by
  unfold startswith
  rw [List.isPrefixOf_iff_prefix]
  cases s with
  | nil => simp
  | cons d s =>
    rw [List.cons_prefix_cons, List.head?_cons, Option.some.injEq]
    exact ⟨fun h => h.1.symm, fun h => ⟨h.symm, List.nil_prefix⟩⟩

theorem endswith_char {s : Text} {c : Char} : endswith s [c] = true ↔ s.getLast? = some c := by
  unfold endswith
  rw [List.isSuffixOf_iff_suffix, List.getLast?_eq_some_iff]
  constructor
  · rintro ⟨i, rfl⟩
    exact ⟨i, rfl⟩
  · rintro ⟨i, rfl⟩
    exact ⟨i, rfl⟩

/-- `replace`, of a text that is not empty: occurrences from the left that do not overlap -/
def replaceLoop (old new : Text) : Nat → Text → Text
  | 0, s => s
  | _ + 1, [] => []
  | n + 1, c :: s =>
    if old.isPrefixOf (c :: s) then new ++ replaceLoop old new n ((c :: s).drop old.length)
    else c :: replaceLoop old new n s

def replace (old new s : Text) : Text := replaceLoop old new s.length s

/-- `sep.join` -/
def join (sep : Text) (ls : List Text) : Text := sep.intercalate ls

/-- C's `strncmp(a, b, n) == 0` -/
def strncmpEq (a b : Text) (n : Nat) : Bool := a.take n = b.take n

/-! ## lines -/

def isLineBreak (c : Char) : Bool :=
  (10 ≤ c.toNat && c.toNat ≤ 13) || (28 ≤ c.toNat && c.toNat ≤ 30) || c.toNat = 0x85 ||
    c.toNat = 0x2028 || c.toNat = 0x2029

/-- `cur` is the line so far, backwards -/
def splitlinesLoop : Text → Text → List Text
  | cur, [] => if cur = [] then [] else [cur.reverse]
  | cur, '\r' :: '\n' :: s => cur.reverse :: splitlinesLoop [] s
  | cur, c :: s =>
    if isLineBreak c then cur.reverse :: splitlinesLoop [] s else splitlinesLoop (c :: cur) s

def splitlines (s : Text) : List Text := splitlinesLoop [] s

def OneLine (s : Text) : Prop := ∀ c ∈ s, isLineBreak c = false

theorem splitlinesLoop_cons_keep {c : Char} (hc : isLineBreak c = false) (cur s : Text) :
    splitlinesLoop cur (c :: s) = splitlinesLoop (c :: cur) s := by
  rw [splitlinesLoop.eq_3 cur c s, if_neg (by rw [hc]; exact Bool.false_ne_true)]
  rintro t rfl
  cases hc

theorem splitlinesLoop_newline (cur s : Text) :
    splitlinesLoop cur ('\n' :: s) = cur.reverse :: splitlinesLoop [] s := by
  rw [splitlinesLoop.eq_3 cur '\n' s]
  · rfl
  · intro t h
    cases h

theorem splitlinesLoop_append {l : Text} (hl : OneLine l) (cur s : Text) :
    splitlinesLoop cur (l ++ s) = splitlinesLoop (l.reverse ++ cur) s := by
  induction l generalizing cur with
  | nil => rfl
  | cons c l ih =>
    rw [List.cons_append, splitlinesLoop_cons_keep (hl c List.mem_cons_self),
      ih fun d hd => hl d (List.mem_cons_of_mem c hd), List.reverse_cons, List.append_assoc]
    rfl

theorem splitlines_cons {l : Text} (hl : OneLine l) (s : Text) :
    splitlines (l ++ '\n' :: s) = l :: splitlines s := by
  rw [splitlines, splitlinesLoop_append hl, splitlinesLoop_newline, List.append_nil,
    List.reverse_reverse]
  rfl

theorem splitlines_line {l : Text} (hl : OneLine l) :
    splitlines l = if l = [] then [] else [l] := by
  have h := splitlinesLoop_append hl [] []
  rw [List.append_nil, List.append_nil] at h
  rw [splitlines, h, splitlinesLoop]
  by_cases hn : l = []
  · rw [if_pos hn, if_pos (by rw [hn]; rfl)]
  · rw [if_neg hn, if_neg (by simpa using hn), List.reverse_reverse]

/-- a character that is not the first half of a boundary of two characters -/
theorem splitlinesLoop_cons {c : Char} {s : Text} (h : ¬ (c = '\r' ∧ s.head? = some '\n'))
    (cur : Text) :
    splitlinesLoop cur (c :: s) =
      if isLineBreak c then cur.reverse :: splitlinesLoop [] s else splitlinesLoop (c :: cur) s := by
  rw [splitlinesLoop.eq_3 cur c s]
  rintro t rfl rfl
  exact h ⟨rfl, rfl⟩

/-- whatever stands before a newline, the lines after it are lines -/
theorem splitlinesLoop_suffix : ∀ a s cur : Text,
    ∃ before, splitlinesLoop cur (a ++ '\n' :: s) = before ++ splitlines s
  | [], s, cur => ⟨[cur.reverse], by rw [List.nil_append, splitlinesLoop_newline]; rfl⟩
  | [c], s, cur => by
    by_cases hc : c = '\r'
    · subst hc
      exact ⟨[cur.reverse], rfl⟩
    · rw [List.singleton_append, splitlinesLoop_cons fun h => hc h.1]
      split
      · obtain ⟨before, hb⟩ := splitlinesLoop_suffix [] s []
        exact ⟨cur.reverse :: before, congrArg (cur.reverse :: ·) hb⟩
      · exact splitlinesLoop_suffix [] s (c :: cur)
  | c :: d :: a, s, cur => by
    by_cases hcd : c = '\r' ∧ d = '\n'
    · obtain ⟨rfl, rfl⟩ := hcd
      obtain ⟨before, hb⟩ := splitlinesLoop_suffix a s []
      exact ⟨cur.reverse :: before, congrArg (cur.reverse :: ·) hb⟩
    · have hne : ¬ (c = '\r' ∧ (d :: a ++ '\n' :: s).head? = some '\n') := by
        rintro ⟨hc, hd⟩
        exact hcd ⟨hc, Option.some.inj hd⟩
      rw [List.cons_append, splitlinesLoop_cons hne]
      split
      · obtain ⟨before, hb⟩ := splitlinesLoop_suffix (d :: a) s []
        exact ⟨cur.reverse :: before, congrArg (cur.reverse :: ·) hb⟩
      · exact splitlinesLoop_suffix (d :: a) s (c :: cur)

theorem splitlines_suffix (a s : Text) :
    ∃ before, splitlines (a ++ '\n' :: s) = before ++ splitlines s :=
  splitlinesLoop_suffix a s []

theorem mem_splitlines {l : Text} (hl : OneLine l) (a s : Text) :
    l ∈ splitlines (a ++ '\n' :: (l ++ '\n' :: s)) := by
  obtain ⟨before, hb⟩ := splitlines_suffix a (l ++ '\n' :: s)
  rw [hb, splitlines_cons hl]
  exact List.mem_append_right before List.mem_cons_self

theorem splitlinesLoop_oneLine : ∀ s cur : Text, OneLine cur →
    ∀ l ∈ splitlinesLoop cur s, OneLine l
  | [], cur, hcur => by
    intro l hl
    rw [splitlinesLoop] at hl
    split at hl
    · cases hl
    · rw [List.mem_singleton.mp hl]
      exact fun c hc => hcur c (List.mem_reverse.mp hc)
  | c :: s, cur, hcur => by
    have hrev : OneLine cur.reverse := fun c hc => hcur c (List.mem_reverse.mp hc)
    have hnil : OneLine [] := fun c hc => absurd hc List.not_mem_nil
    intro l hl
    by_cases hcs : c = '\r' ∧ s.head? = some '\n'
    · obtain ⟨rfl, hs⟩ := hcs
      cases s with
      | nil => cases hs
      | cons d s =>
        obtain rfl : d = '\n' := Option.some.inj hs
        rcases List.mem_cons.mp hl with rfl | hl
        · exact hrev
        · exact splitlinesLoop_oneLine s [] hnil l hl
    · rw [splitlinesLoop_cons hcs] at hl
      split at hl
      · rcases List.mem_cons.mp hl with rfl | hl
        · exact hrev
        · exact splitlinesLoop_oneLine s [] hnil l hl
      · rename_i hc
        refine splitlinesLoop_oneLine s (c :: cur) ?_ l hl
        exact List.forall_mem_cons.mpr ⟨Bool.eq_false_iff.mpr hc, hcur⟩

theorem splitlines_oneLine {s l : Text} (h : l ∈ splitlines s) : OneLine l :=
  splitlinesLoop_oneLine s [] (fun _ hc => absurd hc List.not_mem_nil) l h

/-- lines put together and cut again; only an empty line at the end gets lost -/
theorem filterMap_splitlines_join {β : Type*} {g : Text → Option β} (hg : g [] = none)
    {ls : List Text} (h : ∀ l ∈ ls, OneLine l) :
    (splitlines (join ['\n'] ls)).filterMap g = ls.filterMap g := by
  induction ls with
  | nil => rfl
  | cons l ls ih =>
    have hl := h l List.mem_cons_self
    cases ls with
    | nil =>
      rw [join, List.intercalate_singleton, splitlines_line hl]
      split
      · rename_i hnil
        rw [hnil, List.filterMap_cons, hg]
      · rfl
    | cons l' ls =>
      have hls := ih fun k hk => h k (List.mem_cons_of_mem l hk)
      rw [join] at hls ⊢
      rw [List.intercalate_cons_cons, List.append_assoc, List.singleton_append,
        splitlines_cons hl, List.filterMap_cons, List.filterMap_cons (l := l' :: ls), hls]

end PMROS2.Strings
