import PMROS2.Lib.Loops
import PMROS2.Rosidl.QuotedStrings

/-!
# Default values of string arrays

`parse_value_string` of `rosidl_adapter.parser`, for the type `string[]`.  The loop reads one
element after the other; where blanks stand for an element, it indexes an empty string.

* `QuotedString`, `writeArray`   lists, and how they are written;
* `StringElement`             one element of a text, as the loop reads it;
* `roundTrip_strings_iff`     the lists that are read as they were written;
* `answers_iff`               the texts for which the exception is one that callers expect;
* `stringArray_iff`           both, and both loops end.
-/

namespace PMROS2.Rosidl
open PMROS2.Strings PMROS2.Loops

/-- the type `string[]` -/
def stringArray : MsgType := ⟨.primitive .string none, true, none, false⟩

example {F : Type} (py : Python F) :
    MsgType.parse py "string[]".toList none = .ok stringArray := rfl

/-! ## lists -/

/-- a string with the quote to write around it, and blanks in front -/
structure QuotedString where
  blanks : Nat
  quote : Quote
  text : Text
  plain : '\\' ∉ text

/-- the list without its brackets; `comma`: an element stands before -/
def writeElements (comma : Bool) : List QuotedString → Text
  | [] => []
  | x :: xs => (if comma then [','] else []) ++
      (List.replicate x.blanks ' ' ++ quoted x.quote x.text (writeElements true xs))

def writeArray (xs : List QuotedString) : Text := '[' :: (writeElements false xs ++ [']'])

/-- the lists that are read as they were written -/
def ReadAgain : List QuotedString → Prop
  | [] => True
  | x :: xs => EndFound x.quote.char x.text (writeElements true xs) ∧ Kept x.text ∧ ReadAgain xs

theorem firstBare_writeElements (q : Quote) (xs : List QuotedString) :
    ∀ comma, FirstBare q.char (writeElements comma xs) := by
  induction xs with
  | nil => intro comma; exact .nil
  | cons x xs ih =>
    intro comma
    have hblanks : ∀ n, FirstBare q.char
        (List.replicate n ' ' ++ quoted x.quote x.text (writeElements true xs)) := by
      intro n
      induction n with
      | zero => exact firstBare_quoted q (ih true) x.plain
      | succ n ihn => exact ihn.cons (by decide)
    cases comma with
    | true => exact (hblanks x.blanks).cons (by decide)
    | false => exact hblanks x.blanks

/-! ## the elements of a text -/

def quotedValue (q : Quote) (s : Text) (e : Nat) : Text :=
  replace ['\\', q.char] [q.char] (s.take e)

def behindElement (s : Text) : Text :=
  let s := lstripBlanks s
  if s.head? = some ',' then s.drop 1 else s

/-- one element at the beginning of a text, and what is left behind it -/
inductive StringElement : Text → Text → Text → Prop
  | blank {s v t : Text} : StringElement s v t → StringElement (' ' :: s) v t
  | quoted (q : Quote) {s : Text} {e : Nat} :
      findMatchingEndQuote (q.char :: s) q.char = some e →
      StringElement (q.char :: s) (quotedValue q s e) (behindElement (s.drop (e + 1)))
  | unquoted {c : Char} {a s : Text} : c ≠ ' ' → c ≠ ',' → (∀ q : Quote, c ≠ q.char) → ',' ∉ a →
      StringElement (c :: (a ++ ',' :: s)) (c :: a) s
  | last {c : Char} {a : Text} : c ≠ ' ' → c ≠ ',' → (∀ q : Quote, c ≠ q.char) → ',' ∉ a →
      StringElement (c :: a) (c :: a) []

section
variable {F : Type} (py : Python F)

/-- one turn of the loop of `parse_string_array_value_string`, without the blanks -/
def parseTurn (values : List Text) (s : Text) : Except PyError (List Text × Text) :=
  match s.head? with
  | none => .error .indexError
  | some c =>
    if c = ',' then
      .error (.valueError ("unxepected ',' at beginning of [".toList ++ s ++ "]".toList))
    else do
      let st ← readQuoted py '"' (values, s, false)
      let (values, s, quoted) ← readQuoted py '\'' st
      let (values, s) := if quoted then (values, s)
        else match find ',' s with
          | none => (values ++ [s], [])
          | some i => (values ++ [s.take i], s.drop i)
      return (values, behindElement s)

theorem parseStringArrayLoop_succ {s : Text} (hs : s ≠ []) (n : Nat) (values : List Text) :
    parseStringArrayLoop py (n + 1) values s =
      (parseTurn py values (lstripBlanks s)).bind fun st =>
        parseStringArrayLoop py n st.1 st.2 := by
  rw [parseStringArrayLoop, if_neg hs]
  unfold parseTurn
  cases hhead : (lstripBlanks s).head? with
  | none =>
    dsimp only
    rw [hhead]
    rfl
  | some c =>
    dsimp only
    rw [hhead]
    dsimp only
    by_cases hc : c = ','
    · rw [if_pos hc, if_pos hc]
      rfl
    · rw [if_neg hc, if_neg hc]
      cases readQuoted py '"' (values, lstripBlanks s, false) with
      | error e => rfl
      | ok st =>
        show (readQuoted py '\'' st >>= _) = (readQuoted py '\'' st >>= _).bind _
        cases readQuoted py '\'' st with
        | error e => rfl
        | ok st => rfl

theorem readQuoted_other {quote : Char} {s : Text} (h : s.head? ≠ some quote)
    (values : List Text) (b : Bool) : readQuoted py quote (values, s, b) = .ok (values, s, b) := by
  unfold readQuoted
  dsimp only
  rw [if_neg fun hs => h (startswith_char.mp hs)]

theorem readQuoted_some {quote : Char} {s : Text} {e : Nat}
    (h : findMatchingEndQuote (quote :: s) quote = some e) (values : List Text) (b : Bool) :
    readQuoted py quote (values, quote :: s, b) =
      .ok (values ++ [replace ['\\', quote] [quote] (s.take e)], s.drop (e + 1), true) := by
  unfold readQuoted
  dsimp only
  rw [if_pos (startswith_char.mpr rfl), h]
  rfl

theorem readQuoted_none {quote : Char} {s : Text} (h : findMatchingEndQuote (quote :: s) quote = none)
    (values : List Text) (b : Bool) :
    ∃ text, readQuoted py quote (values, quote :: s, b) = .error (.valueError text) := by
  unfold readQuoted
  dsimp only
  rw [if_pos (startswith_char.mpr rfl), h]
  exact ⟨_, rfl⟩

theorem readQuoted_flag {quote : Char} {s : Text} (h : s.head? = some quote)
    (values : List Text) (b b' : Bool) :
    readQuoted py quote (values, s, b) = readQuoted py quote (values, s, b') := by
  unfold readQuoted
  dsimp only
  rw [if_pos (startswith_char.mpr h), if_pos (startswith_char.mpr h)]

theorem behindElement_of_head {s : Text} (hblank : s.head? ≠ some ' ') (hcomma : s.head? ≠ some ',') :
    behindElement s = s := by
  unfold behindElement
  rw [lstripBlanks_of_head hblank, if_neg hcomma]

/-! ### one turn -/

variable (values : List Text)

theorem parseTurn_comma (s : Text) : ∃ text, parseTurn py values (',' :: s) =
    .error (.valueError text) := ⟨_, rfl⟩

theorem parseTurn_open (q : Quote) {s : Text}
    (h : findMatchingEndQuote (q.char :: s) q.char = none) :
    ∃ text, parseTurn py values (q.char :: s) = .error (.valueError text) := by
  unfold parseTurn
  cases q with
  | double =>
    obtain ⟨text, htext⟩ := readQuoted_none py h values false
    refine ⟨text, ?_⟩
    show (readQuoted py '"' (values, '"' :: s, false) >>= _) = _
    rw [show readQuoted py '"' (values, '"' :: s, false) = _ from htext]
    rfl
  | single =>
    obtain ⟨text, htext⟩ := readQuoted_none py h values false
    refine ⟨text, ?_⟩
    show (readQuoted py '"' (values, '\'' :: s, false) >>= _) = _
    rw [readQuoted_other py (by simp)]
    show (readQuoted py '\'' (values, '\'' :: s, false) >>= _) = _
    rw [show readQuoted py '\'' (values, '\'' :: s, false) = _ from htext]
    rfl

theorem parseTurn_quoted (q : Quote) {s : Text} {e : Nat}
    (h : findMatchingEndQuote (q.char :: s) q.char = some e)
    (hnext : q = .double → (s.drop (e + 1)).head? ≠ some '\'') :
    parseTurn py values (q.char :: s) =
      .ok (values ++ [quotedValue q s e], behindElement (s.drop (e + 1))) := by
  unfold parseTurn
  cases q with
  | double =>
    show (readQuoted py '"' (values, '"' :: s, false) >>= _) = _
    rw [show readQuoted py '"' (values, '"' :: s, false) = _ from readQuoted_some py h values false]
    show (readQuoted py '\'' (_, s.drop (e + 1), true) >>= _) = _
    rw [readQuoted_other py (hnext rfl)]
    rfl
  | single =>
    show (readQuoted py '"' (values, '\'' :: s, false) >>= _) = _
    rw [readQuoted_other py (by simp)]
    show (readQuoted py '\'' (values, '\'' :: s, false) >>= _) = _
    rw [show readQuoted py '\'' (values, '\'' :: s, false) = _ from readQuoted_some py h values false]
    rfl

/-- a string in single quotes right behind one in double quotes is read in the same turn -/
theorem parseTurn_both {s : Text} {e : Nat} (h : findMatchingEndQuote ('"' :: s) '"' = some e)
    (hnext : (s.drop (e + 1)).head? = some '\'') :
    parseTurn py values ('"' :: s) =
      parseTurn py (values ++ [quotedValue .double s e]) (s.drop (e + 1)) := by
  have hne : '\'' ≠ ',' := by decide
  unfold parseTurn
  show (readQuoted py '"' (values, '"' :: s, false) >>= _) = _
  rw [readQuoted_some py h values false, hnext]
  dsimp only
  rw [if_neg hne, readQuoted_other py (by rw [hnext]; decide)]
  show (readQuoted py '\'' (_, s.drop (e + 1), true) >>= _) =
    (readQuoted py '\'' (_, s.drop (e + 1), false) >>= _)
  rw [readQuoted_flag py hnext _ true false]
  rfl

/-- a text without quotes goes up to the next comma -/
theorem parseTurn_unquoted {c : Char} {a : Text} (hcomma : c ≠ ',') (hquote : ∀ q : Quote, c ≠ q.char) :
    parseTurn py values (c :: a) = match find ',' (c :: a) with
      | none => .ok (values ++ [c :: a], [])
      | some i => .ok (values ++ [(c :: a).take i], behindElement ((c :: a).drop i)) := by
  have hdouble : (c :: a).head? ≠ some '"' := fun h => hquote .double (Option.some.inj h)
  have hsingle : (c :: a).head? ≠ some '\'' := fun h => hquote .single (Option.some.inj h)
  unfold parseTurn
  show (if c = ',' then _ else _) = _
  rw [if_neg hcomma, readQuoted_other py hdouble]
  show (readQuoted py '\'' (values, c :: a, false) >>= _) = _
  rw [readQuoted_other py hsingle]
  show (match (match find ',' (c :: a) with
      | none => (values ++ [c :: a], [])
      | some i => (values ++ [(c :: a).take i], (c :: a).drop i) : List Text × Text) with
    | (values, s) => Except.ok (values, behindElement s)) = _
  cases find ',' (c :: a) <;> rfl

/-! ### one element -/

theorem length_behindElement (s : Text) : (behindElement s).length ≤ s.length := by
  have hstrip : (lstripBlanks s).length ≤ s.length := (List.dropWhile_sublist _).length_le
  unfold behindElement
  dsimp only
  split
  · rw [List.length_drop]
    omega
  · exact hstrip

theorem StringElement.length_lt {s v t : Text} (h : StringElement s v t) : t.length < s.length := by
  induction h with
  | blank _ ih => exact Nat.lt_succ_of_lt ih
  | @quoted q s e _ =>
    have hle := length_behindElement (s.drop (e + 1))
    rw [List.length_drop] at hle
    rw [List.length_cons]
    omega
  | unquoted =>
    rw [List.length_cons, List.length_append, List.length_cons]
    omega
  | last => exact Nat.succ_pos _

theorem parseStringArrayLoop_blank {s : Text} (hs : s ≠ []) (n : Nat) :
    parseStringArrayLoop py (n + 1) values (' ' :: s) =
      parseStringArrayLoop py (n + 1) values s := by
  rw [parseStringArrayLoop_succ py (List.cons_ne_nil _ _), parseStringArrayLoop_succ py hs]
  rfl

theorem parseStringArrayLoop_turn {c : Char} {s v t : Text} (hc : c ≠ ' ')
    (h : parseTurn py values (c :: s) = .ok (values ++ [v], t)) (n : Nat) :
    parseStringArrayLoop py (n + 1) values (c :: s) =
      parseStringArrayLoop py n (values ++ [v]) t := by
  rw [parseStringArrayLoop_succ py (List.cons_ne_nil _ _), lstripBlanks_cons hc, h]
  rfl

theorem Quote.char_ne_blank (q : Quote) : q.char ≠ ' ' := by
  cases q <;> decide

/-- **The loop reads element after element.** -/
theorem StringElement.run {s v t : Text} (h : StringElement s v t) : ∀ {n : Nat} (values : List Text),
    s.length < n → ∃ n', t.length < n' ∧
      parseStringArrayLoop py n values s = parseStringArrayLoop py n' (values ++ [v]) t := by
  induction h with
  | @blank s v t h ih =>
    intro n values hn
    obtain ⟨n, rfl⟩ : ∃ m, n = m + 1 := ⟨n - 1, by omega⟩
    have hs : s ≠ [] := List.length_pos_iff.mp (Nat.lt_of_le_of_lt (Nat.zero_le _) h.length_lt)
    rw [parseStringArrayLoop_blank py values hs]
    apply ih
    rw [List.length_cons] at hn
    omega
  | @quoted q s e hfind =>
    intro n values hn
    obtain ⟨n, rfl⟩ : ∃ m, n = m + 1 := ⟨n - 1, by omega⟩
    have hlen := length_behindElement (s.drop (e + 1))
    rw [List.length_drop] at hlen
    rw [List.length_cons] at hn
    by_cases hnext : q = .double ∧ (s.drop (e + 1)).head? = some '\''
    · -- the next string is read in the same turn
      obtain ⟨rfl, hnext⟩ := hnext
      have hrest : behindElement (s.drop (e + 1)) = s.drop (e + 1) :=
        behindElement_of_head (by rw [hnext]; decide) (by rw [hnext]; decide)
      have hne : s.drop (e + 1) ≠ [] := by
        intro hnil
        rw [hnil] at hnext
        cases hnext
      refine ⟨n + 1, by omega, ?_⟩
      show parseStringArrayLoop py (n + 1) values ('"' :: s) = _
      rw [hrest, parseStringArrayLoop_succ py (List.cons_ne_nil _ _),
        parseStringArrayLoop_succ py hne, lstripBlanks_cons (by decide),
        parseTurn_both py values hfind hnext, lstripBlanks_of_head (s := s.drop (e + 1)) (by rw [hnext]; decide)]
    · refine ⟨n, by omega, parseStringArrayLoop_turn py values q.char_ne_blank ?_ n⟩
      exact parseTurn_quoted py values q hfind fun hq hhead => hnext ⟨hq, hhead⟩
  | @unquoted c a s hblank hcomma hquote ha =>
    intro n values hn
    obtain ⟨n, rfl⟩ : ∃ m, n = m + 1 := ⟨n - 1, by omega⟩
    rw [List.length_cons, List.length_append, List.length_cons] at hn
    refine ⟨n, by omega, parseStringArrayLoop_turn py values hblank ?_ n⟩
    have hfind : find ',' (c :: (a ++ ',' :: s)) = some (a.length + 1) := by
      apply find_append_cons (a := c :: a)
      rw [List.mem_cons, not_or]
      exact ⟨Ne.symm hcomma, ha⟩
    rw [parseTurn_unquoted py values hcomma hquote, hfind]
    dsimp only
    rw [List.take_succ_cons, List.take_left, List.drop_succ_cons, List.drop_left]
    rfl
  | @last c a hblank hcomma hquote ha =>
    intro n values hn
    obtain ⟨n, rfl⟩ : ∃ m, n = m + 1 := ⟨n - 1, by omega⟩
    rw [List.length_cons] at hn
    refine ⟨n, by rw [List.length_nil]; omega, parseStringArrayLoop_turn py values hblank ?_ n⟩
    have hnot : ',' ∉ c :: a := by
      rw [List.mem_cons, not_or]
      exact ⟨Ne.symm hcomma, ha⟩
    rw [parseTurn_unquoted py values hcomma hquote, find_eq_none.mpr hnot]

/-! ### all of them -/

/-- blanks in place of an element: in the brackets, or behind the last comma -/
inductive EndsInBlanks : Text → Prop
  | blanks (n : Nat) : EndsInBlanks (List.replicate (n + 1) ' ')
  | element {s v t : Text} : StringElement s v t → EndsInBlanks t → EndsInBlanks s

theorem EndsInBlanks.run {s : Text} (h : EndsInBlanks s) : ∀ {n : Nat} (values : List Text),
    s.length < n → parseStringArrayLoop py n values s = .error .indexError := by
  induction h with
  | blanks k =>
    intro n values hn
    obtain ⟨n, rfl⟩ : ∃ m, n = m + 1 := ⟨n - 1, by omega⟩
    have hne : List.replicate (k + 1) ' ' ≠ [] := List.cons_ne_nil _ _
    rw [parseStringArrayLoop_succ py hne, lstripBlanks_replicate]
    rfl
  | element h _ ih =>
    intro n values hn
    obtain ⟨n', hn', hrun⟩ := h.run py values hn
    rw [hrun, ih _ hn']

/-- what can stand at the beginning of a text -/
theorem element_cases (s : Text) : s = [] ∨ (∃ n, s = List.replicate (n + 1) ' ') ∨
    (∃ v t, StringElement s v t) ∨ ∀ n (values : List Text), ∃ text,
      parseStringArrayLoop py (n + 1) values s = .error (.valueError text) := by
  induction s with
  | nil => exact .inl rfl
  | cons c s ih =>
    have hturn : c ≠ ' ' → (∀ values, ∃ text, parseTurn py values (c :: s) =
        .error (.valueError text)) → ∀ n (values : List Text), ∃ text,
          parseStringArrayLoop py (n + 1) values (c :: s) = .error (.valueError text) := by
      intro hc h n values
      obtain ⟨text, htext⟩ := h values
      refine ⟨text, ?_⟩
      rw [parseStringArrayLoop_succ py (List.cons_ne_nil _ _), lstripBlanks_cons hc, htext]
      rfl
    by_cases hblank : c = ' '
    · subst hblank
      rcases ih with rfl | ⟨n, rfl⟩ | ⟨v, t, h⟩ | h
      · exact .inr (.inl ⟨0, rfl⟩)
      · exact .inr (.inl ⟨n + 1, rfl⟩)
      · exact .inr (.inr (.inl ⟨v, t, .blank h⟩))
      · refine .inr (.inr (.inr fun n values => ?_))
        have hs : s ≠ [] := by
          rintro rfl
          obtain ⟨text, htext⟩ := h 0 []
          cases htext
        rw [parseStringArrayLoop_blank py values hs]
        exact h n values
    · refine .inr (.inr ?_)
      by_cases hcomma : c = ','
      · subst hcomma
        exact .inr (hturn hblank fun values => parseTurn_comma py values s)
      · by_cases hquote : ∃ q : Quote, c = q.char
        · obtain ⟨q, rfl⟩ := hquote
          cases hfind : findMatchingEndQuote (q.char :: s) q.char with
          | none => exact .inr (hturn hblank fun values => parseTurn_open py values q hfind)
          | some e => exact .inl ⟨_, _, .quoted q hfind⟩
        · have hquote' : ∀ q : Quote, c ≠ q.char := fun q hq => hquote ⟨q, hq⟩
          by_cases hmem : ',' ∈ s
          · obtain ⟨a, t, rfl, ha⟩ := List.eq_append_cons_of_mem hmem
            exact .inl ⟨_, _, .unquoted hblank hcomma hquote' ha⟩
          · exact .inl ⟨_, _, .last hblank hcomma hquote' hmem⟩

/-- **What the loop answers**, for every text. -/
theorem parseStringArrayLoop_cases (m : Nat) : ∀ {s : Text} {n : Nat} (values : List Text),
    s.length ≤ m → s.length < n →
    (∃ ws, parseStringArrayLoop py n values s = .ok ws ∧ values <+: ws) ∨
      (parseStringArrayLoop py n values s = .error .indexError ∧ EndsInBlanks s) ∨
      ∃ text, parseStringArrayLoop py n values s = .error (.valueError text) := by
  induction m with
  | zero =>
    intro s n values hs hn
    obtain rfl := List.length_eq_zero_iff.mp (Nat.le_zero.mp hs)
    obtain ⟨n, rfl⟩ : ∃ m, n = m + 1 := ⟨n - 1, by omega⟩
    exact .inl ⟨values, rfl, List.prefix_refl _⟩
  | succ m ih =>
    intro s n values hs hn
    rcases element_cases py s with rfl | ⟨k, rfl⟩ | ⟨v, t, h⟩ | h
    · obtain ⟨n, rfl⟩ : ∃ m, n = m + 1 := ⟨n - 1, by omega⟩
      exact .inl ⟨values, rfl, List.prefix_refl _⟩
    · have hblanks := EndsInBlanks.blanks k
      exact .inr (.inl ⟨hblanks.run py values hn, hblanks⟩)
    · obtain ⟨n', hn', hrun⟩ := h.run py values hn
      have hlt := h.length_lt
      rw [hrun]
      rcases ih (values ++ [v]) (by omega) hn' with ⟨ws, hws, hp⟩ | ⟨hi, hb⟩ | htext
      · exact .inl ⟨ws, hws, (List.prefix_append values [v]).trans hp⟩
      · exact .inr (.inl ⟨hi, .element h hb⟩)
      · exact .inr (.inr htext)
    · obtain ⟨n, rfl⟩ : ∃ m, n = m + 1 := ⟨n - 1, by omega⟩
      exact .inr (.inr (h n values))

/-- the first of the values that are added -/
theorem StringElement.first {s v t : Text} (h : StringElement s v t) {n : Nat} (hn : s.length < n)
    {ws : List Text} (hok : parseStringArrayLoop py n values s = .ok (values ++ ws)) :
    ∃ ws' n', ws = v :: ws' ∧ t.length < n' ∧
      parseStringArrayLoop py n' (values ++ [v]) t = .ok (values ++ [v] ++ ws') := by
  obtain ⟨n', hn', hrun⟩ := h.run py values hn
  rw [hrun] at hok
  rcases parseStringArrayLoop_cases py _ (values ++ [v]) (Nat.le_refl _) hn' with
    ⟨all, hall, hp⟩ | ⟨hbad, -⟩ | ⟨text, hbad⟩
  · rw [hok] at hall
    rw [← Except.ok.inj hall] at hp
    obtain ⟨ws', rfl⟩ := (List.prefix_append_right_inj values).mp hp
    refine ⟨ws', n', rfl, hn', ?_⟩
    rw [hok, List.append_assoc]
  · cases hok.symm.trans hbad
  · cases hok.symm.trans hbad

theorem parseStringArray_indexError_iff (s : Text) :
    parseStringArrayValueString py s = .error .indexError ↔ EndsInBlanks s := by
  have hlen : s.length < s.length + 1 := Nat.lt_succ_self _
  constructor
  · intro h
    rcases parseStringArrayLoop_cases py s.length [] (Nat.le_refl _) hlen with
      ⟨ws, hws, -⟩ | ⟨-, hb⟩ | ⟨text, htext⟩
    · cases hws.symm.trans h
    · exact hb
    · cases htext.symm.trans h
  · intro h
    exact h.run py [] hlen

/-! ## written lists -/

theorem parseStringArrayLoop_replicate {s : Text} (hs : s ≠ []) (n k : Nat) :
    parseStringArrayLoop py (n + 1) values (List.replicate k ' ' ++ s) =
      parseStringArrayLoop py (n + 1) values s := by
  induction k with
  | zero => rfl
  | succ k ih =>
    have hne : List.replicate k ' ' ++ s ≠ [] := by simp [hs]
    exact (parseStringArrayLoop_blank py values hne n).trans ih

theorem behindElement_writeElements (xs : List QuotedString) :
    behindElement (writeElements true xs) = writeElements false xs := by
  cases xs with
  | nil => rfl
  | cons x xs => rfl

/-- the values of the strings, each as it is read once more -/
theorem parseStringArrayLoop_written (xs : List QuotedString) : ∀ {n : Nat} (values : List Text),
    (writeElements false xs).length < n →
    ((∃ ws, parseStringArrayLoop py n values (writeElements false xs) = .ok (values ++ ws) ∧
      List.Forall₂ Gives ws (xs.map QuotedString.text)) ↔ ReadAgain xs) := by
  induction xs with
  | nil =>
    intro n values hn
    obtain ⟨n, rfl⟩ : ∃ m, n = m + 1 := ⟨n - 1, by omega⟩
    refine iff_of_true ⟨[], ?_, .nil⟩ trivial
    rw [List.append_nil]
    rfl
  | cons x xs ih =>
    intro n values hn
    obtain ⟨n, rfl⟩ : ∃ m, n = m + 1 := ⟨n - 1, by omega⟩
    have hr := firstBare_writeElements x.quote xs true
    have htext : writeElements false (x :: xs) =
        List.replicate x.blanks ' ' ++ quoted x.quote x.text (writeElements true xs) := rfl
    have hne : quoted x.quote x.text (writeElements true xs) ≠ [] := List.cons_ne_nil _ _
    have hlen : (quoted x.quote x.text (writeElements true xs)).length < n + 1 := by
      rw [htext, List.length_append] at hn
      omega
    rw [htext, parseStringArrayLoop_replicate py values hne]
    rcases findMatchingEndQuote_cases x.quote x.plain hr with ⟨hend, hfind⟩ | ⟨hend, -⟩
    · -- the string is read, and the rest of the list is left
      have helement := StringElement.quoted x.quote hfind
      have hvalue : quotedValue x.quote
          (escapeQuote x.quote.char x.text ++ x.quote.char :: writeElements true xs)
          (escapeQuote x.quote.char x.text).length = x.text := by
        rw [quotedValue, List.take_left, replace_escapeQuote x.plain]
      have hrest : (escapeQuote x.quote.char x.text ++
          x.quote.char :: writeElements true xs).drop
            ((escapeQuote x.quote.char x.text).length + 1) = writeElements true xs := by
        rw [List.drop_length_add_append]
        rfl
      rw [hvalue, hrest, behindElement_writeElements] at helement
      constructor
      · rintro ⟨ws, hok, hall⟩
        obtain ⟨ws', n', rfl, hn', hok'⟩ := helement.first py values hlen hok
        cases hall with
        | cons hgives hall =>
          exact ⟨hend, (gives_self_iff x.plain).mp hgives, (ih _ hn').mp ⟨ws', hok', hall⟩⟩
      · rintro ⟨-, hkept, hagain⟩
        obtain ⟨n', hn', hrun⟩ := helement.run py values hlen
        obtain ⟨ws, hok, hall⟩ := (ih (values ++ [x.text]) hn').mpr hagain
        refine ⟨x.text :: ws, ?_, .cons ((gives_self_iff x.plain).mpr hkept) hall⟩
        rw [quoted, hrun, hok, List.append_assoc]
        rfl
    · -- another string is read, or none
      refine iff_of_false ?_ fun h => hend h.1
      rintro ⟨ws, hok, hall⟩
      cases hfind : findMatchingEndQuote (quoted x.quote x.text (writeElements true xs))
        x.quote.char with
      | none =>
        obtain ⟨text, htext⟩ := parseTurn_open py values x.quote hfind
        rw [parseStringArrayLoop_succ py hne, quoted, lstripBlanks_cons x.quote.char_ne_blank,
          htext] at hok
        cases hok
      | some e =>
        obtain ⟨ws', -, rfl, -, -⟩ := (StringElement.quoted x.quote hfind).first py values hlen hok
        cases hall with
        | cons hgives _ => exact not_gives_of_wrong x.quote x.plain hr hend hfind hgives

/-! ## values of the type -/

theorem unquote_error {t : Text} {e : PyError} (h : unquote .string t = .error e) :
    ∃ text, e = .invalidValue text := by
  have hinside : ∀ c : Char, (if hasBareQuote c ((t.drop 1).dropLast) none then
      .error (invalidValue Primitive.string.text ((t.drop 1).dropLast)
        "string inner quotes not properly escaped".toList)
    else Except.ok (replace ['\\', c] [c] ((t.drop 1).dropLast))) = .error e →
      ∃ text, e = .invalidValue text := by
    intro c hc
    split at hc
    · exact ⟨_, (Except.error.inj hc).symm⟩
    · cases hc
  unfold unquote at h
  dsimp only at h
  split at h
  · exact hinside _ h
  · split at h
    · exact hinside _ h
    · cases h

theorem parseElements_cons (valueString : Text) (i : Nat) (w : Text) (ws : List Text) :
    parseElements py stringArray valueString i (w :: ws) =
      match unquote .string (strip w) with
      | .ok s => (parseElements py stringArray valueString (i + 1) ws).bind fun vs =>
          .ok (.str s :: vs)
      | .error (.invalidValue e) => .error (invalidValue stringArray.str valueString
          ("element ".toList ++ decimal i ++ " with ".toList ++ e))
      | .error e => .error e := by
  have hbase : (do
      let base ← MsgType.parse py stringArray.base.str none
      parsePrimitiveValueString py base.base (strip w)) =
        (unquote .string (strip w)).bind fun s => .ok (Value.str s) := rfl
  rw [parseElements, hbase]
  cases unquote .string (strip w) with
  | ok s => rfl
  | error e => cases e <;> rfl

theorem parseElements_cases (valueString : Text) (ws : List Text) : ∀ i,
    (∃ vs, parseElements py stringArray valueString i ws = .ok vs) ∨
      ∃ text, parseElements py stringArray valueString i ws = .error (.invalidValue text) := by
  induction ws with
  | nil => intro i; exact .inl ⟨[], rfl⟩
  | cons w ws ih =>
    intro i
    rw [parseElements_cons]
    cases hw : unquote .string (strip w) with
    | error e =>
      obtain ⟨text, rfl⟩ := unquote_error hw
      exact .inr ⟨_, rfl⟩
    | ok s =>
      dsimp only
      rcases ih (i + 1) with ⟨vs, hvs⟩ | ⟨text, htext⟩
      · rw [hvs]
        exact .inl ⟨.str s :: vs, rfl⟩
      · rw [htext]
        exact .inr ⟨text, rfl⟩

theorem parseElements_ok_iff (valueString : Text) (ws : List Text) : ∀ {i : Nat} {ss : List Text},
    parseElements py stringArray valueString i ws = .ok (ss.map .str) ↔
      List.Forall₂ Gives ws ss := by
  induction ws with
  | nil =>
    intro i ss
    cases ss with
    | nil => exact iff_of_true rfl .nil
    | cons s ss =>
      refine iff_of_false ?_ fun h => (by cases h)
      intro h
      cases Except.ok.inj h
  | cons w ws ih =>
    intro i ss
    rw [parseElements_cons]
    cases hw : unquote .string (strip w) with
    | error e =>
      obtain ⟨text, rfl⟩ := unquote_error hw
      refine iff_of_false (fun h => by cases h) ?_
      intro h
      cases h with
      | cons hgives _ => cases hw.symm.trans hgives
    | ok s =>
      dsimp only
      constructor
      · intro h
        cases hvs : parseElements py stringArray valueString (i + 1) ws with
        | error e =>
          rw [hvs] at h
          cases h
        | ok vs =>
          rw [hvs] at h
          have hmap : ss.map Value.str = Value.str s :: vs := (Except.ok.inj h).symm
          obtain ⟨u, us, rfl, hu, hus⟩ := List.map_eq_cons_iff.mp hmap
          obtain rfl := Value.str.inj hu
          rw [← hus] at hvs
          exact .cons hw (ih.mp hvs)
      · intro h
        cases h with
        | cons hgives hall =>
          obtain rfl := Except.ok.inj (hw.symm.trans hgives)
          rw [(ih (i := i + 1)).mpr hall]
          rfl

theorem parseValueString_brackets (s : Text) :
    parseValueString py stringArray ('[' :: (s ++ [']'])) =
      (parseStringArrayValueString py s).bind fun ws =>
        (parseElements py stringArray ('[' :: (s ++ [']'])) 0 ws).bind fun vs =>
          .ok (.many vs) := by
  have hstart : startswith ('[' :: (s ++ [']'])) ['['] = true := startswith_char.mpr rfl
  have hend : endswith ('[' :: (s ++ [']'])) [']'] = true := by
    rw [endswith_char, ← List.cons_append, List.getLast?_concat]
  have hinner : (('[' :: (s ++ [']'])).drop 1).dropLast = s := by
    rw [List.drop_one, List.tail_cons, List.dropLast_concat]
  unfold parseValueString
  dsimp only [stringArray]
  rw [hstart, hend, hinner]
  rfl

theorem parseValueString_other {text : Text} (h : ¬ ∃ s, text = '[' :: (s ++ [']'])) :
    ∃ e, parseValueString py stringArray text = .error (.invalidValue e) := by
  have hbrackets : (!startswith text ['['] || !endswith text [']']) = true := by
    by_contra hnot
    rw [Bool.not_eq_true, Bool.or_eq_false_iff, Bool.not_eq_false', Bool.not_eq_false',
      startswith_char, endswith_char] at hnot
    obtain ⟨hhead, hlast⟩ := hnot
    apply h
    cases text with
    | nil => cases hhead
    | cons c t =>
      obtain rfl := Option.some.inj hhead
      rcases List.eq_nil_or_concat t with rfl | ⟨s, d, rfl⟩
      · cases Option.some.inj hlast
      · rw [List.concat_eq_append, ← List.cons_append, List.getLast?_concat] at hlast
        obtain rfl := Option.some.inj hlast
        exact ⟨s, by rw [List.concat_eq_append]⟩
  unfold parseValueString
  dsimp only [stringArray]
  rw [hbrackets]
  exact ⟨_, rfl⟩

/-- **The lists that are read as they were written.** -/
theorem roundTrip_strings_iff (xs : List QuotedString) :
    parseValueString py stringArray (writeArray xs) =
      .ok (.many (xs.map fun x => .str x.text)) ↔ ReadAgain xs := by
  have hvalues : xs.map (fun x => (.str x.text : Value F)) =
      (xs.map QuotedString.text).map .str := List.map_map.symm
  have hlen : (writeElements false xs).length < (writeElements false xs).length + 1 :=
    Nat.lt_succ_self _
  have hwritten := parseStringArrayLoop_written py xs [] hlen
  rw [← hwritten, writeArray, parseValueString_brackets, hvalues]
  constructor
  · intro h
    cases hws : parseStringArrayValueString py (writeElements false xs) with
    | error e =>
      rw [hws] at h
      cases h
    | ok ws =>
      rw [hws] at h
      change (parseElements py stringArray _ 0 ws).bind _ = _ at h
      refine ⟨ws, hws, ?_⟩
      rw [← parseElements_ok_iff py ('[' :: (writeElements false xs ++ [']'])) ws (i := 0)]
      cases hvs : parseElements py stringArray ('[' :: (writeElements false xs ++ [']'])) 0 ws with
      | error e =>
        rw [hvs] at h
        cases h
      | ok vs =>
        rw [hvs] at h
        exact congrArg Except.ok (DefaultValue.many.inj (Except.ok.inj h))
  · rintro ⟨ws, hok, hall⟩
    have hws : parseStringArrayValueString py (writeElements false xs) = .ok ws := hok
    rw [hws]
    show (parseElements py stringArray _ 0 ws).bind _ = _
    rw [(parseElements_ok_iff py _ ws).mpr hall]
    rfl

/-! ## answers and ends -/

/-- a list, or one of the exceptions that callers expect -/
def Answers (text : Text) : Prop :=
  (∃ vs, parseValueString py stringArray text = .ok (.many vs)) ∨
    (∃ e, parseValueString py stringArray text = .error (.invalidValue e)) ∨
      ∃ e, parseValueString py stringArray text = .error (.valueError e)

theorem answers_iff (text : Text) :
    Answers py text ↔ ¬ ∃ s, text = '[' :: (s ++ [']']) ∧ EndsInBlanks s := by
  by_cases hbrackets : ∃ s, text = '[' :: (s ++ [']'])
  · obtain ⟨s, rfl⟩ := hbrackets
    have hblanks : (∃ s', '[' :: (s ++ [']']) = '[' :: (s' ++ [']']) ∧ EndsInBlanks s') ↔
        EndsInBlanks s := by
      constructor
      · rintro ⟨s', heq, h⟩
        rw [List.append_cancel_right (List.cons.inj heq).2]
        exact h
      · exact fun h => ⟨s, rfl, h⟩
    rw [hblanks, ← parseStringArray_indexError_iff py s, Answers, parseValueString_brackets]
    rcases parseStringArrayLoop_cases py s.length [] (Nat.le_refl _)
      (Nat.lt_succ_self _) with ⟨ws, hws, -⟩ | ⟨hi, -⟩ | ⟨e, he⟩
    · have hws' : parseStringArrayValueString py s = .ok ws := hws
      rw [hws']
      refine iff_of_true ?_ nofun
      show (∃ vs, (parseElements py stringArray _ 0 ws).bind _ = _) ∨
        (∃ e, (parseElements py stringArray _ 0 ws).bind _ = _) ∨ _
      rcases parseElements_cases py ('[' :: (s ++ [']'])) ws 0 with ⟨vs, hvs⟩ | ⟨e, he⟩
      · rw [hvs]
        exact .inl ⟨vs, rfl⟩
      · rw [he]
        exact .inr (.inl ⟨e, rfl⟩)
    · have hi' : parseStringArrayValueString py s = .error .indexError := hi
      rw [hi']
      refine iff_of_false ?_ fun h => h rfl
      rintro (⟨vs, h⟩ | ⟨e, h⟩ | ⟨e, h⟩)
      · cases h
      · cases h
      · cases h
    · have he' : parseStringArrayValueString py s = .error (.valueError e) := he
      rw [he']
      exact iff_of_true (.inr (.inr ⟨e, rfl⟩)) nofun
  · obtain ⟨e, he⟩ := parseValueString_other py hbrackets
    exact iff_of_true (.inr (.inl ⟨e, he⟩)) fun ⟨s, hs, _⟩ => hbrackets ⟨s, hs⟩

/-- one turn of the loop of `find_matching_end_quote` -/
def endQuoteStep (quote : Char) (st : Text × Nat) : (Text × Nat) ⊕ Option Nat :=
  if st.1 = [] then .inr none
  else
    match find quote (st.1.drop 1) with
    | none => .inr none
    | some e =>
      if (st.1.drop e).take 2 ≠ ['\\', quote] then .inr (some (st.2 + e))
      else .inl (st.1.drop (e + 2), e + 2)

theorem endQuoteLoop_ends (quote : Char) (s : Text) (r : Option Nat) :
    Ends (endQuoteStep quote) (s, 0) r ↔ r = findMatchingEndQuote s quote := by
  apply Ends.iff_eq
  apply ends_of_fuel (f := fun n st => findMatchingEndQuoteLoop quote n st.1 st.2)
    (μ := fun st => st.1.length) ?_ ?_ (s.length + 1) (s, 0) (Nat.lt_succ_self _)
  · intro n st
    rw [findMatchingEndQuoteLoop, endQuoteStep]
    by_cases hnil : st.1 = []
    · rw [if_pos hnil, if_pos hnil]
      rfl
    · rw [if_neg hnil, if_neg hnil]
      cases find quote (st.1.drop 1) with
      | none => rfl
      | some e =>
        dsimp only
        split <;> rfl
  · intro st st' h
    rw [endQuoteStep] at h
    split at h
    · cases h
    · rename_i hne
      split at h
      · cases h
      · split at h
        · cases h
        · obtain rfl := Sum.inl.inj h
          have := List.length_pos_iff.mpr hne
          dsimp only
          rw [List.length_drop]
          omega

theorem parseTurn_shorter {s : Text} {st : List Text × Text} (hblank : s.head? ≠ some ' ')
    (h : parseTurn py values s = .ok st) : st.2.length < s.length := by
  have hdrop : ∀ {t : Text} {e : Nat}, (behindElement (t.drop (e + 1))).length < t.length + 1 := by
    intro t e
    have hle := length_behindElement (t.drop (e + 1))
    rw [List.length_drop] at hle
    omega
  have hsingle : ∀ {t : Text} {values : List Text}, parseTurn py values ('\'' :: t) = .ok st →
      st.2.length < t.length + 1 := by
    intro t values ht
    cases hfind : findMatchingEndQuote ('\'' :: t) '\'' with
    | none =>
      obtain ⟨text, htext⟩ := parseTurn_open py values .single hfind
      cases htext.symm.trans ht
    | some e =>
      have hturn := parseTurn_quoted py values .single hfind nofun
      rw [← Except.ok.inj (hturn.symm.trans ht)]
      exact hdrop
  cases s with
  | nil => cases h
  | cons c t =>
    rw [List.length_cons]
    by_cases hcomma : c = ','
    · subst hcomma
      cases h
    · by_cases hquote : ∃ q : Quote, c = q.char
      · obtain ⟨q, rfl⟩ := hquote
        cases hfind : findMatchingEndQuote (q.char :: t) q.char with
        | none =>
          obtain ⟨text, htext⟩ := parseTurn_open py values q hfind
          cases htext.symm.trans h
        | some e =>
          by_cases hnext : q = .double → (t.drop (e + 1)).head? ≠ some '\''
          · have hturn := parseTurn_quoted py values q hfind hnext
            rw [← Except.ok.inj (hturn.symm.trans h)]
            exact hdrop
          · obtain ⟨rfl, hhead⟩ := Classical.not_imp.mp hnext
            obtain ⟨t', ht'⟩ := List.head?_eq_some_iff.mp (not_not.mp hhead)
            have hboth := parseTurn_both py values hfind (not_not.mp hhead)
            rw [ht'] at hboth
            have hlt := hsingle (hboth.symm.trans h)
            have hlen := congrArg List.length ht'
            rw [List.length_drop, List.length_cons] at hlen
            omega
      · have hturn := parseTurn_unquoted py values (a := t) hcomma
          fun q hq => hquote ⟨q, hq⟩
        rw [hturn] at h
        cases hfind : find ',' (c :: t) with
        | none =>
          rw [hfind] at h
          rw [← Except.ok.inj h]
          exact Nat.succ_pos _
        | some i =>
          rw [hfind] at h
          obtain ⟨b, r, hbr, -, rfl⟩ := find_eq_some.mp hfind
          rw [← Except.ok.inj h]
          cases b with
          | nil => exact absurd (List.cons.inj hbr).1 hcomma
          | cons d b =>
            have hle := length_behindElement ((c :: t).drop (b.length + 1))
            rw [List.length_drop, List.length_cons] at hle
            show (behindElement ((c :: t).drop (b.length + 1))).length < _
            omega

/-- one turn of the loop of `parse_string_array_value_string` -/
def parseStep (st : List Text × Text) : (List Text × Text) ⊕ Except PyError (List Text) :=
  if st.2 = [] then .inr (.ok st.1)
  else
    match parseTurn py st.1 (lstripBlanks st.2) with
    | .error e => .inr (.error e)
    | .ok st' => .inl st'

theorem parseStringArrayLoop_ends (s : Text) (r : Except PyError (List Text)) :
    Ends (parseStep py) ([], s) r ↔ r = parseStringArrayValueString py s := by
  apply Ends.iff_eq
  apply ends_of_fuel (f := fun n st => parseStringArrayLoop py n st.1 st.2)
    (μ := fun st => st.2.length) ?_ ?_ (s.length + 1) ([], s) (Nat.lt_succ_self _)
  · intro n st
    rw [parseStep]
    by_cases hnil : st.2 = []
    · rw [if_pos hnil, hnil]
      rfl
    · rw [if_neg hnil, parseStringArrayLoop_succ py hnil]
      cases parseTurn py st.1 (lstripBlanks st.2) <;> rfl
  · intro st st' h
    rw [parseStep] at h
    split at h
    · cases h
    · split at h
      · cases h
      · rename_i hturn
        obtain rfl := Sum.inl.inj h
        refine Nat.lt_of_lt_of_le (parseTurn_shorter py st.1 ?_ hturn) (List.dropWhile_sublist _).length_le
        intro hhead
        have hnot := List.head?_dropWhile_not (· = ' ') st.2
        rw [show (st.2.dropWhile fun c => decide (c = ' ')).head? = some ' ' from hhead] at hnot
        cases hnot

/-- **String arrays.**  A list is read as it was written exactly if the scanner finds the end of each
string and each is kept when it is read once more; the answer to a text is one that callers expect
exactly if no blanks stand for an element; both loops end, always. -/
theorem stringArray_iff :
    (∀ xs : List QuotedString, parseValueString py stringArray (writeArray xs) =
      .ok (.many (xs.map fun x => .str x.text)) ↔ ReadAgain xs) ∧
    (∀ text, Answers py text ↔ ¬ ∃ s, text = '[' :: (s ++ [']']) ∧ EndsInBlanks s) ∧
    (∀ quote s r, Ends (endQuoteStep quote) (s, 0) r ↔ r = findMatchingEndQuote s quote) ∧
    ∀ s r, Ends (parseStep py) ([], s) r ↔ r = parseStringArrayValueString py s :=
  ⟨roundTrip_strings_iff py, answers_iff py, endQuoteLoop_ends, parseStringArrayLoop_ends py⟩

end

/-- `a"b"c` in double quotes -/
theorem not_roundTrip_strings : ¬ ∀ (py : Python Unit) (xs : List QuotedString),
    parseValueString py stringArray (writeArray xs) =
      .ok (.many (xs.map fun x => .str x.text)) := by
  intro h
  have hagain := (roundTrip_strings_iff _ _).mp (h ⟨fun _ => none, fun _ => none, fun _ => [], id⟩
    [⟨0, .double, "a\"b\"c".toList, by decide⟩])
  rcases hagain.1 with ⟨hcount, -⟩ | ⟨u, v, b, t, hs, -⟩
  · exact absurd hcount (by decide)
  · have hlast := congrArg List.getLast? hs
    rw [List.getLast?_concat] at hlast
    cases hlast

example {F : Type} (py : Python F) :
    parseValueString py stringArray "[\"a\\\"b\\\"c\"]".toList =
      .ok (.many [.str "a\"".toList, .str "\\\"c\"".toList]) := rfl

example {F : Type} (py : Python F) :
    parseValueString py stringArray "['a', ]".toList = .error .indexError := rfl

end PMROS2.Rosidl
