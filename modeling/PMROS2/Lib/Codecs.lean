import Mathlib.Data.List.TakeWhile

/-!
# The codecs `utf-8` and `unicode_escape`

A text is a list of code points, a byte string a list of numbers below 256.  `none` is an
exception of the codec.

* `utf8`                 encoding; surrogates cannot be encoded;
* `decode`               decoding of `unicode_escape`: the backslash escapes of a string literal, all
                         other bytes as Latin-1;
* `Benign`               no backslash starts an escape the codec knows;
* `decode_of_benign`     then nothing changes;
* `decode_spec`          decoding loses no byte above 127 and makes the text shorter, unless it is
                         benign.
-/

namespace PMROS2.Codecs

abbrev Text := List Nat

def text (s : String) : Text := s.toList.map Char.toNat

/-! ## encoding -/

def utf8Char (c : Nat) : Option (List Nat) :=
  if c < 0x80 then some [c]
  else if c < 0x800 then some [0xC0 + c / 64, 0x80 + c % 64]
  else if 0xD800 ≤ c ∧ c < 0xE000 then none
  else if c < 0x10000 then some [0xE0 + c / 4096, 0x80 + c / 64 % 64, 0x80 + c % 64]
  else if c < 0x110000 then
    some [0xF0 + c / 262144, 0x80 + c / 4096 % 64, 0x80 + c / 64 % 64, 0x80 + c % 64]
  else none

def utf8 : Text → Option (List Nat)
  | [] => some []
  | c :: cs => (utf8Char c).bind fun bs => (utf8 cs).map (bs ++ ·)

/-! ## decoding -/

/-- the names of `\N{...}`; they are written in ASCII -/
structure Names where
  lookup : List Nat → Option Nat
  ascii : ∀ n v, lookup n = some v → ∀ b ∈ n, b < 128

/-- a backslash and a newline, a backslash, a quote, or one of b f t n r v a -/
def simpleEscapes : List (Nat × Text) :=
  [(10, []), (92, [92]), (39, [39]), (34, [34]), (98, [8]), (102, [12]), (116, [9]), (110, [10]),
   (114, [13]), (118, [11]), (97, [7])]

def isOctal (c : Nat) : Bool := 48 ≤ c && c ≤ 55

def hexDigit (c : Nat) : Option Nat :=
  if 48 ≤ c ∧ c ≤ 57 then some (c - 48)
  else if 97 ≤ c ∧ c ≤ 102 then some (c - 87)
  else if 65 ≤ c ∧ c ≤ 70 then some (c - 55)
  else none

/-- exactly `n` hexadecimal digits -/
def readHex : Nat → Nat → List Nat → Option (Nat × List Nat)
  | 0, v, bs => some (v, bs)
  | _ + 1, _, [] => none
  | n + 1, v, b :: bs => (hexDigit b).bind fun d => readHex n (v * 16 + d) bs

/-- at most `n` more octal digits -/
def readOctal : Nat → Nat → List Nat → Nat × List Nat
  | 0, v, bs => (v, bs)
  | _ + 1, v, [] => (v, [])
  | n + 1, v, b :: bs => if isOctal b then readOctal n (v * 8 + (b - 48)) bs else (v, b :: bs)

def readName (names : Names) : List Nat → Option (Nat × List Nat)
  | 123 :: bs =>
    match bs.dropWhile (· ≠ 125) with
    | [] => none
    | _ :: rest =>
      if bs.takeWhile (· ≠ 125) = [] then none
      else (names.lookup (bs.takeWhile (· ≠ 125))).map (·, rest)
  | _ => none

def escapeLetters : List Nat := [120, 117, 85, 78]

/-- the byte after a backslash starts an escape -/
def recognised (c : Nat) : Bool :=
  (simpleEscapes.lookup c).isSome || isOctal c || escapeLetters.contains c

/-- the escape with the byte `c` after the backslash: what it stands for and the bytes after it -/
def readEscape (names : Names) (c : Nat) (bs : List Nat) : Option (Text × List Nat) :=
  match simpleEscapes.lookup c with
  | some out => some (out, bs)
  | none =>
    if isOctal c then
      let (v, rest) := readOctal 2 (c - 48) bs
      some ([v], rest)
    else if c = 120 then (readHex 2 0 bs).map fun (v, rest) => ([v], rest)
    else if c = 117 then (readHex 4 0 bs).map fun (v, rest) => ([v], rest)
    else if c = 85 then
      (readHex 8 0 bs).bind fun (v, rest) => if v ≤ 0x10FFFF then some ([v], rest) else none
    else if c = 78 then (readName names bs).map fun (v, rest) => ([v], rest)
    -- an unknown escape stays, with its backslash
    else some ([92, c], bs)

def decodeLoop (names : Names) : Nat → List Nat → Option Text
  | _, [] => some []
  | 0, _ :: _ => none
  | n + 1, b :: bs =>
    if b = 92 then
      match bs with
      | [] => none
      | c :: bs => (readEscape names c bs).bind fun (out, rest) =>
          (decodeLoop names n rest).map (out ++ ·)
    else (decodeLoop names n bs).map (b :: ·)

/-- every round consumes a byte -/
def decode (names : Names) (bs : List Nat) : Option Text := decodeLoop names bs.length bs

/-! ## ASCII -/

/-- the number of code points above 127 -/
def highs (t : Text) : Nat := t.countP fun c => 128 ≤ c

@[simp] theorem highs_nil : highs [] = 0 := rfl

theorem highs_cons (c : Nat) (t : Text) :
    highs (c :: t) = highs t + if 128 ≤ c then 1 else 0 := by
  rw [highs, List.countP_cons]
  simp only [decide_eq_true_eq, highs]

theorem highs_append (s t : Text) : highs (s ++ t) = highs s + highs t := List.countP_append

theorem highs_eq_zero {t : Text} : highs t = 0 ↔ ∀ c ∈ t, c < 128 := by
  rw [highs, List.countP_eq_zero]
  refine forall_congr' fun c => forall_congr' fun _ => ?_
  rw [decide_eq_true_eq, Nat.not_le]

theorem utf8_cons (c : Nat) (cs : Text) :
    utf8 (c :: cs) = (utf8Char c).bind fun bs => (utf8 cs).map (bs ++ ·) := rfl

theorem utf8Char_ascii {c : Nat} (h : c < 128) : utf8Char c = some [c] := by
  rw [utf8Char, if_pos h]

theorem utf8_ascii {t : Text} (h : ∀ c ∈ t, c < 128) : utf8 t = some t := by
  induction t with
  | nil => rfl
  | cons c cs ih =>
    rw [utf8_cons, utf8Char_ascii (h c List.mem_cons_self),
      ih fun d hd => h d (List.mem_cons_of_mem c hd)]
    rfl

/-- a code point above 127 becomes a first byte above 127 and at least one more -/
theorem utf8Char_high {c : Nat} (h : 128 ≤ c) {bs : List Nat} (hb : utf8Char c = some bs) :
    ∃ b b' rest, bs = b :: b' :: rest ∧ 128 ≤ b ∧ 128 ≤ b' := by
  simp only [utf8Char] at hb
  rw [if_neg (by omega)] at hb
  split at hb
  · obtain rfl := Option.some.inj hb
    exact ⟨_, _, _, rfl, by omega, by omega⟩
  · split at hb
    · cases hb
    · split at hb
      · obtain rfl := Option.some.inj hb
        exact ⟨_, _, _, rfl, by omega, by omega⟩
      · split at hb
        · obtain rfl := Option.some.inj hb
          exact ⟨_, _, _, rfl, by omega, by omega⟩
        · cases hb

/-- encoding doubles the number of code points above 127, at least -/
theorem highs_utf8 {t : Text} {bs : List Nat} (h : utf8 t = some bs) :
    2 * highs t ≤ highs bs := by
  induction t generalizing bs with
  | nil =>
    obtain rfl := Option.some.inj h
    exact Nat.le_refl 0
  | cons c cs ih =>
    rw [utf8_cons] at h
    obtain ⟨b₁, hc, h'⟩ := Option.bind_eq_some_iff.mp h
    obtain ⟨b₂, hcs, rfl⟩ := Option.map_eq_some_iff.mp h'
    have ih' := ih hcs
    rw [highs_append, highs_cons]
    by_cases hhigh : 128 ≤ c
    · obtain ⟨b, b', rest, rfl, hb, hb'⟩ := utf8Char_high hhigh hc
      rw [highs_cons, highs_cons, if_pos hhigh, if_pos hb, if_pos hb']
      omega
    · rw [if_neg hhigh]
      omega

/-! ## escapes -/

/-- every backslash stands before a byte that starts no escape -/
def Benign : List Nat → Prop
  | [] => True
  | c :: bs => (c = 92 → ∃ d, bs.head? = some d ∧ recognised d = false) ∧ Benign bs

theorem hexDigit_ascii {c d : Nat} (h : hexDigit c = some d) : c < 128 := by
  simp only [hexDigit] at h
  split at h
  · omega
  · split at h
    · omega
    · split at h
      · omega
      · cases h

theorem readHex_ascii {n v w : Nat} {bs rest : List Nat} (h : readHex n v bs = some (w, rest)) :
    ∃ taken, bs = taken ++ rest ∧ (∀ b ∈ taken, b < 128) ∧ taken.length = n := by
  induction n generalizing v bs with
  | zero =>
    obtain ⟨rfl, rfl⟩ := Prod.mk.inj (Option.some.inj h)
    exact ⟨[], rfl, fun _ hb => absurd hb List.not_mem_nil, rfl⟩
  | succ n ih =>
    cases bs with
    | nil => cases h
    | cons b bs =>
      obtain ⟨d, hd, h'⟩ := Option.bind_eq_some_iff.mp h
      obtain ⟨taken, rfl, ht, hlen⟩ := ih h'
      refine ⟨b :: taken, rfl, ?_, congrArg (· + 1) hlen⟩
      exact List.forall_mem_cons.mpr ⟨hexDigit_ascii hd, ht⟩

theorem readOctal_ascii (n v : Nat) (bs : List Nat) :
    ∃ taken, bs = taken ++ (readOctal n v bs).2 ∧ ∀ b ∈ taken, b < 128 := by
  induction n generalizing v bs with
  | zero => exact ⟨[], rfl, fun _ hb => absurd hb List.not_mem_nil⟩
  | succ n ih =>
    cases bs with
    | nil => exact ⟨[], rfl, fun _ hb => absurd hb List.not_mem_nil⟩
    | cons b bs =>
      simp only [readOctal]
      by_cases hb : isOctal b
      · rw [if_pos hb]
        obtain ⟨taken, htk, ht⟩ := ih (v * 8 + (b - 48)) bs
        refine ⟨b :: taken, congrArg (b :: ·) htk, List.forall_mem_cons.mpr ⟨?_, ht⟩⟩
        simp only [isOctal, Bool.and_eq_true, decide_eq_true_eq] at hb
        omega
      · rw [if_neg hb]
        exact ⟨[], rfl, fun _ hb => absurd hb List.not_mem_nil⟩

theorem readName_ascii {names : Names} {bs rest : List Nat} {v : Nat}
    (h : readName names bs = some (v, rest)) :
    ∃ taken, bs = taken ++ rest ∧ ∀ b ∈ taken, b < 128 := by
  unfold readName at h
  split at h
  · rename_i bs
    have hsplit : bs.takeWhile (· ≠ 125) ++ bs.dropWhile (· ≠ 125) = bs :=
      List.takeWhile_append_dropWhile
    split at h
    · cases h
    · rename_i c rest' hd
      split at h
      · cases h
      · obtain ⟨w, hw, hwr⟩ := Option.map_eq_some_iff.mp h
        obtain ⟨rfl, rfl⟩ := Prod.mk.inj hwr
        have hc : c = 125 := by
          have hnot := List.head_dropWhile_not (· ≠ 125) (l := bs)
            (by rw [hd]; exact List.cons_ne_nil c rest')
          simp only [hd, List.head_cons] at hnot
          simpa using hnot
        refine ⟨123 :: bs.takeWhile (· ≠ 125) ++ [c], ?_, ?_⟩
        · rw [hd] at hsplit
          rw [List.cons_append, List.cons_append, List.append_assoc]
          exact congrArg (123 :: ·) hsplit.symm
        · intro b hb
          rcases List.mem_append.mp hb with hb | hb
          · rcases List.mem_cons.mp hb with rfl | hb
            · omega
            · exact names.ascii _ _ hw b hb
          · rw [List.mem_singleton.mp hb, hc]
            omega
  · cases h

/-- the code points an escape is written with are ASCII -/
theorem recognised_ascii {c : Nat} (h : recognised c = true) : c < 128 := by
  have hs : ∀ l : List (Nat × Text), (l.lookup c).isSome = true → ∃ p ∈ l, p.1 = c := by
    intro l
    induction l with
    | nil => intro h; cases h
    | cons p l ih =>
      intro h
      rw [List.lookup_cons] at h
      by_cases hp : c = p.1
      · exact ⟨p, List.mem_cons_self, hp.symm⟩
      · rw [beq_eq_false_iff_ne.mpr hp] at h
        obtain ⟨q, hq, hqc⟩ := ih h
        exact ⟨q, List.mem_cons_of_mem p hq, hqc⟩
  simp only [recognised, Bool.or_eq_true] at h
  rcases h with (h | h) | h
  · obtain ⟨p, hp, rfl⟩ := hs simpleEscapes h
    have hall : simpleEscapes.all fun p => decide (p.1 < 128) := by decide
    exact of_decide_eq_true (List.all_eq_true.mp hall p hp)
  · simp only [isOctal, Bool.and_eq_true, decide_eq_true_eq] at h
    omega
  · have hall : escapeLetters.all fun c => decide (c < 128) := by decide
    exact of_decide_eq_true (List.all_eq_true.mp hall c (List.contains_iff_mem.mp h))

/-- **One escape**: either an unknown one, which stays, or one that stands for at most one code
point and is written in ASCII. -/
theorem readEscape_spec {names : Names} {c : Nat} {bs rest : List Nat} {out : Text}
    (h : readEscape names c bs = some (out, rest)) :
    (recognised c = false ∧ out = [92, c] ∧ rest = bs) ∨
      (recognised c = true ∧ out.length ≤ 1 ∧ ∃ taken, bs = taken ++ rest ∧ ∀ b ∈ taken, b < 128) := by
  have hnil : ∀ bs : List Nat, ∃ taken, bs = taken ++ bs ∧ ∀ b ∈ taken, b < 128 :=
    fun bs => ⟨[], rfl, fun _ hb => absurd hb List.not_mem_nil⟩
  unfold readEscape at h
  split at h
  · rename_i o hl
    obtain ⟨rfl, rfl⟩ := Prod.mk.inj (Option.some.inj h)
    refine .inr ⟨by simp [recognised, hl], ?_, hnil _⟩
    have hall : ∀ l : List (Nat × Text), (l.all fun p => decide (p.2.length ≤ 1)) = true →
        ∀ o, l.lookup c = some o → o.length ≤ 1 := by
      intro l
      induction l with
      | nil => intro _ o ho; cases ho
      | cons p l ih =>
        intro hp o ho
        rw [List.all_cons, Bool.and_eq_true] at hp
        rw [List.lookup_cons] at ho
        split at ho
        · obtain rfl := Option.some.inj ho
          exact of_decide_eq_true hp.1
        · exact ih hp.2 o ho
    exact hall simpleEscapes (by decide) _ hl
  · rename_i hl
    split at h
    · rename_i ho
      obtain ⟨rfl, rfl⟩ := Prod.mk.inj (Option.some.inj h)
      exact .inr ⟨by simp [recognised, ho], Nat.le_refl 1, readOctal_ascii 2 (c - 48) bs⟩
    · rename_i ho
      split at h
      · subst c
        obtain ⟨⟨v, r⟩, hv, he⟩ := Option.map_eq_some_iff.mp h
        obtain ⟨rfl, rfl⟩ := Prod.mk.inj he
        obtain ⟨taken, ht, ha, _⟩ := readHex_ascii hv
        exact .inr ⟨rfl, Nat.le_refl 1, taken, ht, ha⟩
      · split at h
        · subst c
          obtain ⟨⟨v, r⟩, hv, he⟩ := Option.map_eq_some_iff.mp h
          obtain ⟨rfl, rfl⟩ := Prod.mk.inj he
          obtain ⟨taken, ht, ha, _⟩ := readHex_ascii hv
          exact .inr ⟨rfl, Nat.le_refl 1, taken, ht, ha⟩
        · split at h
          · subst c
            obtain ⟨⟨v, r⟩, hv, he⟩ := Option.bind_eq_some_iff.mp h
            obtain ⟨taken, ht, ha, _⟩ := readHex_ascii hv
            replace he : (if v ≤ 0x10FFFF then some ([v], r) else none) = some (out, rest) := he
            split at he
            · obtain ⟨rfl, rfl⟩ := Prod.mk.inj (Option.some.inj he)
              exact .inr ⟨rfl, Nat.le_refl 1, taken, ht, ha⟩
            · cases he
          · split at h
            · subst c
              obtain ⟨⟨v, r⟩, hv, he⟩ := Option.map_eq_some_iff.mp h
              obtain ⟨rfl, rfl⟩ := Prod.mk.inj he
              exact .inr ⟨rfl, Nat.le_refl 1, readName_ascii hv⟩
            · rename_i hx hu hU hN
              obtain ⟨rfl, rfl⟩ := Prod.mk.inj (Option.some.inj h)
              refine .inl ⟨?_, rfl, rfl⟩
              simp [recognised, hl, ho, escapeLetters, hx, hu, hU, hN]

theorem readEscape_unknown (names : Names) {c : Nat} (h : recognised c = false) (bs : List Nat) :
    readEscape names c bs = some ([92, c], bs) := by
  simp only [recognised, Bool.or_eq_false_iff, escapeLetters, List.contains_cons, beq_eq_false_iff_ne,
    List.contains_nil] at h
  obtain ⟨⟨hs, ho⟩, hx, hu, hU, hN, _⟩ := h
  have hl : simpleEscapes.lookup c = none := by
    cases hl : simpleEscapes.lookup c with
    | none => rfl
    | some o =>
      rw [hl] at hs
      cases hs
  simp [readEscape, hl, ho, hx, hu, hU, hN]

/-! ## whole texts -/

/-- nothing changes in a text without escapes -/
theorem decodeLoop_of_benign (names : Names) {n : Nat} {bs : List Nat} (hn : bs.length ≤ n)
    (h : Benign bs) : decodeLoop names n bs = some bs := by
  induction n generalizing bs with
  | zero =>
    obtain rfl := List.length_eq_zero_iff.mp (Nat.le_zero.mp hn)
    rfl
  | succ n ih =>
    match bs, hn, h with
    | [], _, _ => rfl
    | b :: bs, hn, h =>
      rw [List.length_cons] at hn
      by_cases hb : b = 92
      · obtain ⟨d, hd, hr⟩ := h.1 hb
        match bs, hd, hn, h with
        | c :: bs, hd, hn, h =>
          obtain rfl : c = d := Option.some.inj hd
          rw [List.length_cons] at hn
          subst hb
          simp only [decodeLoop, if_true, readEscape_unknown names hr, Option.bind_some]
          rw [ih (by omega) h.2.2]
          rfl
      · simp only [decodeLoop, if_neg hb]
        rw [ih (by omega) h.2]
        rfl

theorem decode_of_benign (names : Names) {bs : List Nat} (h : Benign bs) :
    decode names bs = some bs := decodeLoop_of_benign names (Nat.le_refl _) h

theorem decodeLoop_spec (names : Names) {n : Nat} {bs : List Nat} {d : Text}
    (h : decodeLoop names n bs = some d) :
    highs bs ≤ highs d ∧ d.length ≤ bs.length ∧ (d.length = bs.length → Benign bs) := by
  induction n generalizing bs d with
  | zero =>
    cases bs with
    | nil =>
      obtain rfl := Option.some.inj h
      exact ⟨Nat.le_refl 0, Nat.le_refl 0, fun _ => trivial⟩
    | cons b bs => cases h
  | succ n ih =>
    match bs, h with
    | [], h =>
      obtain rfl := Option.some.inj h
      exact ⟨Nat.le_refl 0, Nat.le_refl 0, fun _ => trivial⟩
    | b :: bs, h =>
      by_cases hb : b = 92
      · subst hb
        match bs, h with
        | [], h => cases h
        | c :: bs, h =>
          simp only [decodeLoop, if_true] at h
          obtain ⟨⟨out, rest⟩, he, h'⟩ := Option.bind_eq_some_iff.mp h
          obtain ⟨d', hd', rfl⟩ := Option.map_eq_some_iff.mp h'
          replace hd' : decodeLoop names n rest = some d' := hd'
          show _ ≤ highs (out ++ d') ∧ (out ++ d').length ≤ _ ∧ ((out ++ d').length = _ → _)
          obtain ⟨ihh, ihl, ihb⟩ := ih hd'
          rcases readEscape_spec he with ⟨hr, rfl, rfl⟩ | ⟨hr, hout, taken, rfl, hta⟩
          · have hc : c ≠ 92 := by
              rintro rfl
              cases hr
            refine ⟨?_, ?_, fun hlen => ?_⟩
            · simp only [List.cons_append, List.nil_append, highs_cons]
              omega
            · simp only [List.cons_append, List.nil_append, List.length_cons]
              omega
            · simp only [List.cons_append, List.nil_append, List.length_cons] at hlen
              exact ⟨fun _ => ⟨c, rfl, hr⟩, fun h92 => absurd h92 hc, ihb (by omega)⟩
          · -- a known escape is longer than what it stands for
            have hcl := recognised_ascii hr
            have htk : highs taken = 0 := highs_eq_zero.mpr hta
            refine ⟨?_, ?_, fun hlen => ?_⟩
            · simp only [highs_append, highs_cons, htk]
              rw [if_neg (by omega), if_neg (by omega)]
              omega
            · simp only [List.length_append, List.length_cons]
              omega
            · simp only [List.length_append, List.length_cons] at hlen
              omega
      · simp only [decodeLoop, if_neg hb] at h
        obtain ⟨d', hd', rfl⟩ := Option.map_eq_some_iff.mp h
        obtain ⟨ihh, ihl, ihb⟩ := ih hd'
        refine ⟨?_, ?_, fun hlen => ?_⟩
        · rw [highs_cons, highs_cons]
          omega
        · rw [List.length_cons, List.length_cons]
          omega
        · rw [List.length_cons, List.length_cons] at hlen
          exact ⟨fun h92 => absurd h92 hb, ihb (by omega)⟩

/-- **Decoding** keeps the bytes above 127 and makes the text shorter, unless there is no escape
in it. -/
theorem decode_spec (names : Names) {bs : List Nat} {d : Text} (h : decode names bs = some d) :
    highs bs ≤ highs d ∧ d.length ≤ bs.length ∧ (d.length = bs.length → Benign bs) :=
  decodeLoop_spec names h

end PMROS2.Codecs
