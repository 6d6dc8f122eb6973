import PMROS2.Rosidl.IdlGrammar

/-!
# Reading a part of an IDL file

A number in an IDL file is followed by a character that no number has, and an expression is read in
the part of the text before this character.

* `Part`            the texts that begin with characters of a list, up to a character `σ`;
* `part_confines`   what the rules of the grammar make of them, when it can be computed;
* `reads_digits`    what a repetition of digits reads;
* `ReadsOnly`       one tree, for the readings that end behind the part.
-/

namespace PMROS2.Rosidl
open PMROS2.Strings PMROS2.Grammars

variable {s r : Text} {ts : List (Tree Rule Terminal)} {p : Nat}

/-! ## a part of the text -/

/-- characters of the list `q`, then `σ` and `v` -/
def Part (q : List Char) (σ : Char) (v : Text) (s : Text) : Prop :=
  ∃ w, (∀ c ∈ w, c ∈ q) ∧ s = w ++ σ :: v

def isHexDigit (c : Char) : Bool := isDigit c || ('a' ≤ c && c ≤ 'f') || ('A' ≤ c && c ≤ 'F')

/-- the terminal does not read `σ` -/
def safeAt (σ : Char) : Terminal → Bool
  | .str text => !text.toList.contains σ
  | .anyCase text => !text.toList.contains σ.toLower
  | .identifier => !isIdentifierChar σ
  | .digit | .nonzero | .octal | .hexdigit => !isHexDigit σ
  | _ => false

/-- the terminal reads a character that is not in the part -/
def deadAt (q : List Char) (σ : Char) : Terminal → Bool
  | .str text => !text.toList.contains σ && text.toList.any fun c => !q.contains c
  | .anyCase text => !text.toList.contains σ.toLower &&
      text.toList.any fun c => !(q.map Char.toLower).contains c
  | .identifier => (σ :: q).all fun c => !isLetter c
  | .digit | .nonzero | .octal | .hexdigit => (σ :: q).all fun c => !isHexDigit c
  | _ => false

/-- nothing is ignored before these characters -/
def solidChars (q : List Char) (σ : Char) : Bool := (σ :: q).all fun c => !isBlank c && c ≠ '/'

section
variable {q : List Char} {σ : Char} {v : Text}

theorem Part.head (h : Part q σ v s) : ∃ c u, s = c :: u ∧ c ∈ σ :: q := by
  obtain ⟨w, hw, rfl⟩ := h
  cases w with
  | nil => exact ⟨σ, v, rfl, List.mem_cons_self⟩
  | cons c w => exact ⟨c, w ++ σ :: v, rfl, List.mem_cons_of_mem _ (hw c List.mem_cons_self)⟩

theorem Part.settled (h : Part q σ v s) (hq : solidChars q σ = true) : Settled idl s := by
  obtain ⟨c, u, rfl, hc⟩ := h.head
  have hsolid := List.all_eq_true.mp hq c hc
  rw [Bool.and_eq_true, Bool.not_eq_true', decide_eq_true_eq] at hsolid
  exact settled_cons hsolid.1 hsolid.2 u

theorem Part.split (h : Part q σ v s) {u : Text} (hu : s = u ++ r) (hσ : σ ∉ u) :
    (∀ c ∈ u, c ∈ q) ∧ Part q σ v r := by
  obtain ⟨w, hw, rfl⟩ := h
  rcases List.append_eq_append_iff.mp hu with ⟨a, rfl, ha⟩ | ⟨a, rfl, rfl⟩
  · cases a with
    | nil =>
      rw [List.append_nil] at *
      exact ⟨hw, [], fun c hc => absurd hc List.not_mem_nil, ha.symm⟩
    | cons d a =>
      rw [(List.cons.inj ha).1] at hσ
      exact absurd (List.mem_append_right _ List.mem_cons_self) hσ
  · exact ⟨fun c hc => hw c (List.mem_append_left _ hc), a,
      fun c hc => hw c (List.mem_append_right _ hc), rfl⟩

theorem scan_of_settled {t : Terminal} (hs : Settled idl s) (h : Reads idl (.terminal t) s ts p r) :
    ∃ w, t.scan s = some (w, r) ∧ ts = idl.leaf t w ∧ p = 0 := by
  cases h with
  | terminal hk hw =>
    obtain rfl := hs.skips hk
    exact ⟨_, hw, rfl, rfl⟩

theorem scan_anyCase {text : String} {w : Text} (h : (Terminal.anyCase text).scan s = some (w, r)) :
    w.map Char.toLower = text.toList ∧ s = w ++ r := by
  obtain ⟨n, hn, rfl, rfl⟩ := scan_eq_some.mp h
  rw [Terminal.length] at hn
  split at hn
  · rename_i heq
    obtain rfl := Option.some.inj hn
    exact ⟨heq, (List.take_append_drop _ _).symm⟩
  · cases hn

/-- one character that is a digit, of a base up to 16 -/
theorem scan_digit {t : Terminal} (ht : t ∈ [.digit, .nonzero, .octal, .hexdigit]) {w : Text}
    (h : t.scan s = some (w, r)) : ∃ c, isHexDigit c = true ∧ w = [c] ∧ s = [c] ++ r := by
  have hone : ∃ f : Char → Bool, t.length = lengthOne f ∧
      ∀ c, f c = true → isHexDigit c = true := by
    have hdigit : ∀ c, isDigit c = true → isHexDigit c = true := by
      intro c hc
      rw [isHexDigit, hc]
      rfl
    simp only [List.mem_cons, List.not_mem_nil, or_false] at ht
    obtain rfl | rfl | rfl | rfl := ht
    · exact ⟨_, rfl, hdigit⟩
    · exact ⟨_, rfl, fun c hc => hdigit c (Bool.and_eq_true _ _ ▸ hc).1⟩
    · refine ⟨_, rfl, fun c hc => hdigit c ?_⟩
      rw [Bool.and_eq_true, decide_eq_true_eq, decide_eq_true_eq] at hc
      rw [isDigit, Bool.and_eq_true, decide_eq_true_eq, decide_eq_true_eq]
      exact ⟨hc.1, hc.2.trans (by decide)⟩
    · exact ⟨_, rfl, fun c hc => hc⟩
  obtain ⟨f, hf, hhex⟩ := hone
  obtain ⟨c, hc, rfl, rfl⟩ := (scan_one hf).mp h
  exact ⟨c, hhex c hc, rfl, rfl⟩

theorem not_mem_of_contains {l : List Char} {c : Char} (h : (!l.contains c) = true) : c ∉ l := by
  rw [Bool.not_eq_true', List.contains_eq_mem, decide_eq_false_iff_not] at h
  exact h

/-- the characters that a terminal reads in a part -/
theorem Part.scan {t : Terminal} {w : Text} (hs : Part q σ v s) (hw : t.scan s = some (w, r))
    (hsafe : safeAt σ t = true) :
    Part q σ v r ∧ (∀ c ∈ w, c ∈ q) := by
  have key : σ ∉ w → s = w ++ r → Part q σ v r ∧ (∀ c ∈ w, c ∈ q) := fun hσ he =>
    ⟨(hs.split he hσ).2, (hs.split he hσ).1⟩
  have hdigits : t ∈ [.digit, .nonzero, .octal, .hexdigit] → (!isHexDigit σ) = true →
      Part q σ v r ∧ (∀ c ∈ w, c ∈ q) := by
    intro ht hσ
    obtain ⟨c, hc, rfl, he⟩ := scan_digit ht hw
    refine key ?_ he
    rw [List.mem_singleton]
    rintro rfl
    rw [hc] at hσ
    cases hσ
  cases t with
  | str text =>
    obtain ⟨rfl, he⟩ := scan_str.mp hw
    exact key (not_mem_of_contains hsafe) he
  | anyCase text =>
    obtain ⟨hlower, he⟩ := scan_anyCase hw
    refine key (fun hσ => not_mem_of_contains hsafe ?_) he
    rw [← hlower]
    exact List.mem_map_of_mem hσ
  | identifier =>
    obtain ⟨he, hword⟩ := scan_identifier.mp hw
    refine key (fun hσ => ?_) he
    rw [safeAt, hword.chars σ hσ] at hsafe
    cases hsafe
  | digit => exact hdigits (by decide) hsafe
  | nonzero => exact hdigits (by decide) hsafe
  | octal => exact hdigits (by decide) hsafe
  | hexdigit => exact hdigits (by decide) hsafe
  | _ => cases hsafe

theorem Part.dead {t : Terminal} (hs : Part q σ v s) {w : Text}
    (hw : t.scan s = some (w, r)) (hdead : deadAt q σ t = true) : False := by
  have hfirst : ∀ f : Char → Bool, ((σ :: q).all fun c => !f c) = true → ∀ c u, s = c :: u →
      f c = true → False := by
    intro f hf c u he hc
    obtain ⟨d, u', hs', hd⟩ := hs.head
    rw [he] at hs'
    obtain ⟨rfl, -⟩ := List.cons.inj hs'
    have hnot := List.all_eq_true.mp hf c hd
    rw [hc] at hnot
    cases hnot
  have hdigits : t ∈ [.digit, .nonzero, .octal, .hexdigit] →
      ((σ :: q).all fun c => !isHexDigit c) = true → False := by
    intro ht hq
    obtain ⟨c, hc, -, he⟩ := scan_digit ht hw
    exact hfirst isHexDigit hq c r he hc
  cases t with
  | str text =>
    rw [deadAt, Bool.and_eq_true] at hdead
    obtain ⟨c, hc, hq⟩ := List.any_eq_true.mp hdead.2
    obtain ⟨rfl, -⟩ := scan_str.mp hw
    exact not_mem_of_contains hq ((hs.scan hw hdead.1).2 c hc)
  | anyCase text =>
    rw [deadAt, Bool.and_eq_true] at hdead
    obtain ⟨c, hc, hq⟩ := List.any_eq_true.mp hdead.2
    obtain ⟨hlower, -⟩ := scan_anyCase hw
    rw [← hlower] at hc
    obtain ⟨d, hd, rfl⟩ := List.mem_map.mp hc
    exact not_mem_of_contains hq (List.mem_map_of_mem ((hs.scan hw hdead.1).2 d hd))
  | identifier =>
    obtain ⟨rfl, ⟨c, u, rfl, hc⟩, -, -⟩ := scan_identifier.mp hw
    exact hfirst isLetter hdead c _ rfl hc
  | digit => exact hdigits (by decide) hdead
  | nonzero => exact hdigits (by decide) hdead
  | octal => exact hdigits (by decide) hdead
  | hexdigit => exact hdigits (by decide) hdead
  | _ => cases hdead

/-- **What the rules make of a part**: one looks at the rules of two lists, one by one. -/
theorem part_confines (hq : solidChars q σ = true) (inside shut : List Rule)
    (hinside : ∀ x ∈ inside,
      (x.body.fate (· ∈ inside) (· ∈ shut) (safeAt σ) (deadAt q σ)).stays = true)
    (hshut : ∀ x ∈ shut,
      (x.body.fate (· ∈ inside) (· ∈ shut) (safeAt σ) (deadAt q σ)).stuck = true) :
    Confines idl (Part q σ v) (· ∈ inside) (· ∈ shut) (safeAt σ) (deadAt q σ) where
  of_safe t ht s ts p r hs h := by
    obtain ⟨w, hw, -, -⟩ := scan_of_settled (hs.settled hq) h
    exact (hs.scan hw ht).1
  of_dead t ht s ts p r hs h := by
    obtain ⟨w, hw, -, -⟩ := scan_of_settled (hs.settled hq) h
    exact hs.dead hw ht
  of_inside x hx := hinside x (of_decide_eq_true hx)
  of_shut x hx := hshut x (of_decide_eq_true hx)

theorem Part.eq_of_head (h : Part q σ v s) (hq : solidChars q σ = true) (hσ : σ ∉ q)
    (hs : (skip s).head? = some σ) : s = σ :: v := by
  rw [skip_of_settled (h.settled hq)] at hs
  obtain ⟨w, hw, rfl⟩ := h
  cases w with
  | nil => rfl
  | cons c w =>
    obtain rfl : c = σ := Option.some.inj hs
    exact absurd (hw c List.mem_cons_self) hσ

/-- a part inside of a longer one ends before it -/
theorem Part.extend {q' : List Char} {σ' : Char} {w : Text} (h : Part q' σ' (w ++ σ :: v) s)
    (hq : ∀ c ∈ q', c ∈ q) (hσ : σ' ∈ q) (hw : ∀ c ∈ w, c ∈ q) :
    Part q σ v s ∧ s ≠ σ :: v := by
  obtain ⟨u, hu, rfl⟩ := h
  constructor
  · refine ⟨u ++ σ' :: w, fun c hc => ?_, by rw [List.append_assoc, List.cons_append]⟩
    rcases List.mem_append.mp hc with hc | hc
    · exact hq c (hu c hc)
    · rcases List.mem_cons.mp hc with rfl | hc
      · exact hσ
      · exact hw c hc
  · intro he
    have hlen := congrArg List.length he
    rw [List.length_append, List.length_cons, List.length_append] at hlen
    omega

end

/-! ## digits -/

def digitToken (c : Char) : Tree Rule Terminal := .token .digit [c]

/-- the text begins with no digit, and with nothing that is ignored -/
structure EndsDigits (rest : Text) : Prop where
  settled : Settled idl rest
  head : ∀ c ∈ rest.head?, isDigit c = false

theorem settled_digit {c : Char} (hc : isDigit c = true) (u : Text) : Settled idl (c :: u) :=
  settled_cons (isBlank_of_digit hc).1 (isBlank_of_digit hc).2 u

theorem EndsDigits.append_settled {D rest : Text} (hrest : EndsDigits rest)
    (hD : ∀ c ∈ D, isDigit c = true) : Settled idl (D ++ rest) := by
  cases D with
  | nil => exact hrest.settled
  | cons d D => exact settled_digit (hD d List.mem_cons_self) _

theorem reads_digit_of {D rest : Text} (hrest : EndsDigits rest) (hD : ∀ c ∈ D, isDigit c = true)
    (h : Reads idl (.terminal .digit) (D ++ rest) ts p r) :
    ∃ c D', D = c :: D' ∧ ts = [digitToken c] ∧ p = 0 ∧ r = D' ++ rest := by
  obtain ⟨c, hc, hs, rfl, rfl⟩ := reads_digit.mp h
  rw [skip_of_settled (hrest.append_settled hD)] at hs
  cases D with
  | nil =>
    have hnot := hrest.head c (by rw [← List.nil_append rest, hs]; rfl)
    rw [hc] at hnot
    cases hnot
  | cons d D =>
    obtain ⟨rfl, rfl⟩ := List.cons.inj hs
    exact ⟨d, D, rfl, rfl, rfl, rfl⟩

/-- **A repetition of digits** reads some of the digits that come first. -/
theorem reads_digits {D rest : Text} (hrest : EndsDigits rest) (hD : ∀ c ∈ D, isDigit c = true)
    (h : Reads idl (.star (.terminal .digit)) (D ++ rest) ts p r) :
    ∃ A B, D = A ++ B ∧ ts = A.map digitToken ∧ p = 0 ∧ r = B ++ rest := by
  induction D generalizing ts p with
  | nil =>
    rcases reads_star.mp h with ⟨rfl, rfl, rfl⟩ | ⟨s', us, q, vs, k, rfl, rfl, hd, -⟩
    · exact ⟨[], [], rfl, rfl, rfl, rfl⟩
    · obtain ⟨c, D', hc, -⟩ := reads_digit_of hrest hD hd
      cases hc
  | cons d D ih =>
    rcases reads_star.mp h with ⟨rfl, rfl, rfl⟩ | ⟨s', us, q, vs, k, rfl, rfl, hd, htail⟩
    · exact ⟨[], d :: D, rfl, rfl, rfl, rfl⟩
    · obtain ⟨c, D', hc, rfl, rfl, rfl⟩ := reads_digit_of hrest hD hd
      obtain ⟨rfl, rfl⟩ := List.cons.inj hc
      obtain ⟨A, B, rfl, rfl, rfl, rfl⟩ := ih (fun e he => hD e (List.mem_cons_of_mem _ he)) htail
      exact ⟨d :: A, B, rfl, rfl, rfl, rfl⟩

theorem reads_plus_digits {D rest : Text} (hrest : EndsDigits rest)
    (hD : ∀ c ∈ D, isDigit c = true) (h : Reads idl (.plus (.terminal .digit)) (D ++ rest) ts p r) :
    ∃ A B, A ≠ [] ∧ D = A ++ B ∧ ts = A.map digitToken ∧ p = 0 ∧ r = B ++ rest := by
  obtain ⟨s', us, q, vs, k, rfl, rfl, hd, htail⟩ := reads_seq.mp h
  obtain ⟨c, D', rfl, rfl, rfl, rfl⟩ := reads_digit_of hrest hD hd
  obtain ⟨A, B, rfl, rfl, rfl, rfl⟩ :=
    reads_digits hrest (fun e he => hD e (List.mem_cons_of_mem _ he)) htail
  exact ⟨c :: A, B, List.cons_ne_nil _ _, rfl, rfl, rfl, rfl⟩

theorem reads_digits_all {D rest : Text} (hD : ∀ c ∈ D, isDigit c = true) :
    Reads idl (.star (.terminal .digit)) (D ++ rest) (D.map digitToken) 0 rest := by
  induction D with
  | nil => exact .done rest
  | cons d D ih =>
    have hd := hD d List.mem_cons_self
    have hread : Reads idl (.terminal .digit) (d :: D ++ rest) [digitToken d] 0 (D ++ rest) :=
      reads_digit.mpr ⟨d, hd, skip_of_settled (settled_digit hd _), rfl, rfl⟩
    exact .more hread (ih fun c hc => hD c (List.mem_cons_of_mem _ hc))

theorem reads_plus_digits_all {D rest : Text} (hne : D ≠ []) (hD : ∀ c ∈ D, isDigit c = true) :
    Reads idl (.plus (.terminal .digit)) (D ++ rest) (D.map digitToken) 0 rest := by
  obtain ⟨d, D, rfl⟩ := List.exists_cons_of_ne_nil hne
  have hd := hD d List.mem_cons_self
  have hread : Reads idl (.terminal .digit) (d :: D ++ rest) [digitToken d] 0 (D ++ rest) :=
    reads_digit.mpr ⟨d, hd, skip_of_settled (settled_digit hd _), rfl, rfl⟩
  exact .seq hread (reads_digits_all fun c hc => hD c (List.mem_cons_of_mem _ hc))

theorem not_letter_of_digit {c : Char} (hc : isDigit c = true) (h : isLetter c = true) : False := by
  have hle : ∀ {a b : Char}, (decide (a ≤ b)) = true → a.toNat ≤ b.toNat := fun h =>
    of_decide_eq_true h
  rw [isDigit, Bool.and_eq_true] at hc
  have hdigit := hle hc.2
  rw [isLetter, Bool.or_eq_true, isLower, isUpper, Bool.and_eq_true, Bool.and_eq_true] at h
  rcases h with h | h
  · have hlower := hle h.1
    exact absurd (hlower.trans hdigit) (by decide)
  · have hupper := hle h.1
    exact absurd (hupper.trans hdigit) (by decide)

def StartsWithDigit (s : Text) : Prop := ∃ c u, s = c :: u ∧ isDigit c = true

/-- the terminal begins with something else -/
def noDigitFirst : Terminal → Bool
  | .str text =>
    match text.toList with
    | [] => false
    | c :: _ => !isDigit c
  | .identifier => true
  | _ => false

theorem StartsWithDigit.settled (h : StartsWithDigit s) : Settled idl s := by
  obtain ⟨c, u, rfl, hc⟩ := h
  exact settled_digit hc u

theorem digit_confines (shut : List Rule) (hshut : ∀ x ∈ shut,
      (x.body.fate (fun _ => false) (· ∈ shut) (fun _ => false) noDigitFirst).stuck = true) :
    Confines idl StartsWithDigit (fun _ => false) (· ∈ shut) (fun _ => false) noDigitFirst where
  of_safe t ht := by cases ht
  of_dead t ht s ts p r hs h := by
    obtain ⟨w, hw, -, -⟩ := scan_of_settled hs.settled h
    obtain ⟨c, u, rfl, hc⟩ := hs
    cases t with
    | str text =>
      obtain ⟨rfl, he⟩ := scan_str.mp hw
      rw [noDigitFirst] at ht
      split at ht
      · cases ht
      · rename_i d k hk
        rw [hk] at he
        obtain ⟨rfl, -⟩ := List.cons.inj he
        rw [hc] at ht
        cases ht
    | identifier =>
      obtain ⟨he, ⟨d, k, rfl, hd⟩, -, -⟩ := scan_identifier.mp hw
      obtain ⟨rfl, -⟩ := List.cons.inj he
      exact not_letter_of_digit hc hd
    | _ => cases ht
  of_inside x hx := by cases hx
  of_shut x hx := hshut x (of_decide_eq_true hx)

/-! ## strings of the grammar -/

theorem reads_str_of {text : String} (hs : Settled idl s) (h : Reads idl (Rule.s text) s ts p r) :
    ts = [] ∧ p = 0 ∧ s = text.toList ++ r := by
  obtain ⟨w, hw, rfl, rfl⟩ := scan_of_settled hs h
  exact ⟨rfl, rfl, (scan_str.mp hw).2⟩

theorem reads_str_self (text : String) (r : Text) :
    Reads idl (Rule.s text) (text.toList ++ r) [] 0 r :=
  .terminal (.refl _) (scan_str.mpr ⟨rfl, rfl⟩)

theorem reads_node {x : Rule} (hx : x.priority = 0) (h : Reads idl x.body s ts p r) :
    Reads idl (.rule x) s [.node x ts] p r := by
  refine reads_rule.mpr ⟨ts, p, rfl, ?_, h⟩
  rw [show idl.priority x = 0 from hx, Nat.zero_add]

theorem reads_str_rule {x : Rule} (text : String) (hx : x.body = Rule.s text) (hs : Settled idl s)
    (h : Reads idl (.rule x) s ts p r) :
    ts = [.node x []] ∧ p = x.priority ∧ s = text.toList ++ r := by
  obtain ⟨us, q, rfl, rfl, hbody⟩ := reads_rule.mp h
  rw [show idl.body x = Rule.s text from hx] at hbody
  obtain ⟨rfl, rfl, he⟩ := reads_str_of hs hbody
  exact ⟨rfl, rfl, he⟩

theorem reads_str_length {o : String} {r r' : Text} {us : List (Tree Rule Terminal)} {q : Nat}
    (ho : o.toList ≠ []) (h : Reads idl (Rule.s o) r us q r') : r'.length < r.length := by
  rw [Rule.s] at h
  cases h with
  | terminal hs hw =>
    obtain ⟨-, rfl⟩ := scan_str.mp hw
    have hle := hs.isSuffix.length_le
    have hpos := List.length_pos_iff.mpr ho
    rw [List.length_append] at hle
    omega

/-! ## expressions -/

/-- every reading of the rule ends in the part, and one that ends behind it gives this tree -/
def ReadsOnly (q : List Char) (σ : Char) (v : Text) (x : Rule) (s : Text)
    (t : Tree Rule Terminal) : Prop :=
  ∀ ts p r, Reads idl (.rule x) s ts p r → Part q σ v r ∧ (r = σ :: v → ts = [t])

section
variable {q : List Char} {σ : Char} {v : Text} {t : Tree Rule Terminal}

theorem Part.not_reads_str (hs : Part q σ v s) (hq : solidChars q σ = true) {o : String}
    (ho : deadAt q σ (.str o) = true) : ¬ Reads idl (Rule.s o) s ts p r := by
  intro h
  obtain ⟨w, hw, -, -⟩ := scan_of_settled (hs.settled hq) h
  exact hs.dead hw ho

/-- an expression with operators is its first operand, or has one behind a shorter expression -/
theorem reads_binary {x y : Rule} {ops : List String} (hx : x.body = Rule.binary x y ops)
    (h : Reads idl (.rule x) s ts p r) :
    (∃ us k, ts = [.node x us] ∧ Reads idl (.rule y) s us k r) ∨
    ∃ o ∈ ops, ∃ s₁ s₂ us vs ws k m n, ts = [.node x (us ++ (vs ++ ws))] ∧
      Reads idl (.rule x) s us k s₁ ∧ Reads idl (Rule.s o) s₁ vs m s₂ ∧
      Reads idl (.rule y) s₂ ws n r := by
  obtain ⟨us, k, rfl, -, hbody⟩ := reads_rule.mp h
  rw [show idl.body x = Rule.binary x y ops from hx, Rule.binary,
    reads_alts (List.cons_ne_nil _ _)] at hbody
  obtain ⟨l, hl, h⟩ := hbody
  rcases List.mem_cons.mp hl with rfl | hl
  · exact .inl ⟨us, k, rfl, h⟩
  · obtain ⟨o, ho, rfl⟩ := List.mem_map.mp hl
    obtain ⟨s₁, us, m, vs, n, rfl, rfl, hleft, h⟩ := reads_seq.mp h
    obtain ⟨s₂, us', m', vs', n', rfl, rfl, hop, hright⟩ := reads_seq.mp h
    exact .inr ⟨o, ho, s₁, s₂, us, us', vs', m, m', n', rfl, hleft, hop, hright⟩

/-- **An expression with operators**, none of which is in the part. -/
theorem ReadsOnly.binary {x y : Rule} {ops : List String} (hx : x.body = Rule.binary x y ops)
    (hq : solidChars q σ = true)
    (hops : (ops.all fun o => o.toList ≠ [] && deadAt q σ (.str o)) = true)
    (hy : ReadsOnly q σ v y s t) : ReadsOnly q σ v x s (.node x [t]) := by
  intro ts p r h
  -- the readings that end further to the left come first
  induction hn : s.length - r.length using Nat.strong_induction_on generalizing ts p r with
  | _ n ih =>
    rcases reads_binary hx h with ⟨us, k, rfl, hfirst⟩ |
      ⟨o, ho, s₁, s₂, us, vs, ws, k, m, l, rfl, hleft, hop, hright⟩
    · obtain ⟨hpart, hend⟩ := hy _ _ _ hfirst
      exact ⟨hpart, fun hr => by rw [hend hr]⟩
    · -- behind the left operand there would be an operator
      have hdead := List.all_eq_true.mp hops o ho
      rw [Bool.and_eq_true, decide_eq_true_eq] at hdead
      have hlt : r.length < s₁.length :=
        Nat.lt_of_le_of_lt hright.isSuffix.length_le (reads_str_length hdead.1 hop)
      have hle := hleft.isSuffix.length_le
      have hpart := (ih (s.length - s₁.length) (by omega) us k s₁ hleft rfl).1
      exact absurd hop (hpart.not_reads_str hq hdead.2)

theorem ReadsOnly.rule {x y : Rule} (hx : x.body = .rule y)
    (hy : ReadsOnly q σ v y s t) : ReadsOnly q σ v x s (.node x [t]) := by
  intro ts p r h
  obtain ⟨us, m, rfl, rfl, hbody⟩ := reads_rule.mp h
  rw [show idl.body x = .rule y from hx] at hbody
  obtain ⟨hpart, hend⟩ := hy _ _ _ hbody
  exact ⟨hpart, fun hr => by rw [hend hr]⟩

def exprTree (t : Tree Rule Terminal) : Tree Rule Terminal :=
  .node .constExpr [.node .orExpr [.node .xorExpr [.node .andExpr [.node .shiftExpr
    [.node .addExpr [.node .multExpr [t]]]]]]]

/-- no operator with two operands is in the part -/
def noOperators (q : List Char) (σ : Char) : Bool :=
  ["|", "^", "&", ">>", "<<", "+", "-", "*", "/", "%"].all fun o =>
    o.toList ≠ [] && deadAt q σ (.str o)

theorem ReadsOnly.constExpr (hq : solidChars q σ = true) (hops : noOperators q σ = true)
    (h : ReadsOnly q σ v .unaryExpr s t) : ReadsOnly q σ v .constExpr s (exprTree t) := by
  have hsub : ∀ ops : List String,
      (∀ o ∈ ops, o ∈ ["|", "^", "&", ">>", "<<", "+", "-", "*", "/", "%"]) →
      (ops.all fun o => o.toList ≠ [] && deadAt q σ (.str o)) = true := fun ops hsub =>
    List.all_eq_true.mpr fun o ho => List.all_eq_true.mp hops o (hsub o ho)
  have h₁ := h.binary (x := .multExpr) rfl hq (hsub _ (by decide))
  have h₂ := h₁.binary (x := .addExpr) rfl hq (hsub _ (by decide))
  have h₃ := h₂.binary (x := .shiftExpr) rfl hq (hsub _ (by decide))
  have h₄ := h₃.binary (x := .andExpr) rfl hq (hsub _ (by decide))
  have h₅ := h₄.binary (x := .xorExpr) rfl hq (hsub _ (by decide))
  have h₆ := h₅.binary (x := .orExpr) rfl hq (hsub _ (by decide))
  exact h₆.rule rfl

/-- an operand is an expression -/
theorem reads_constExpr (h : Reads idl (.rule .unaryExpr) s [t] p r) :
    Reads idl (.rule .constExpr) s [exprTree t] p r := by
  have hbinary : ∀ {x y : Rule} {ops : List String} {t : Tree Rule Terminal},
      x.body = Rule.binary x y ops → x.priority = 0 → Reads idl (.rule y) s [t] p r →
      Reads idl (.rule x) s [.node x [t]] p r := by
    intro x y ops t hx hpriority h
    refine reads_node hpriority ?_
    rw [hx, Rule.binary, reads_alts (List.cons_ne_nil _ _)]
    exact ⟨_, List.mem_cons_self, h⟩
  have h₁ := hbinary (x := .multExpr) rfl rfl h
  have h₂ := hbinary (x := .addExpr) rfl rfl h₁
  have h₃ := hbinary (x := .shiftExpr) rfl rfl h₂
  have h₄ := hbinary (x := .andExpr) rfl rfl h₃
  have h₅ := hbinary (x := .xorExpr) rfl rfl h₄
  have h₆ := hbinary (x := .orExpr) rfl rfl h₅
  exact reads_node rfl h₆

end

/-! ## blanks and comments before an expression -/

/-- the terminal begins with no blank and no slash -/
def solidFirst : Terminal → Bool
  | .str text => solidText text
  | .anyCase text =>
    match text.toList with
    | [] => false
    | c :: _ => isDigit c
  | .identifier | .digit | .nonzero | .octal | .hexdigit => true
  | _ => false

theorem isBlank_of_hexDigit {c : Char} (h : isHexDigit c = true) : isBlank c = false ∧ c ≠ '/' := by
  refine ⟨?_, by rintro rfl; exact absurd h (by decide)⟩
  rw [Bool.eq_false_iff]
  intro hb
  simp only [isBlank, Bool.or_eq_true, decide_eq_true_eq] at hb
  rcases hb with (((rfl | rfl) | rfl) | rfl) | rfl <;> exact absurd h (by decide)

theorem isBlank_of_toLower {c d : Char} (hd : isDigit d = true) (h : c.toLower = d) :
    isBlank c = false ∧ c ≠ '/' := by
  subst h
  refine ⟨?_, by rintro rfl; exact absurd hd (by decide)⟩
  rw [Bool.eq_false_iff]
  intro hb
  simp only [isBlank, Bool.or_eq_true, decide_eq_true_eq] at hb
  rcases hb with (((rfl | rfl) | rfl) | rfl) | rfl <;> exact absurd hd (by decide)

theorem solid_of_first {t : Terminal} (ht : solidFirst t = true) : Solid idl t := by
  have hdigits : t ∈ [.digit, .nonzero, .octal, .hexdigit] → Solid idl t := by
    intro ht s w r hw
    obtain ⟨c, hc, -, rfl⟩ := scan_digit ht hw
    exact settled_cons (isBlank_of_hexDigit hc).1 (isBlank_of_hexDigit hc).2 r
  cases t with
  | str text => exact solid_str ht
  | anyCase text =>
    intro s w r hw
    obtain ⟨hlower, rfl⟩ := scan_anyCase hw
    rw [solidFirst] at ht
    split at ht
    · cases ht
    · rename_i d k hk
      rw [hk] at hlower
      obtain ⟨c, w, rfl, hc, -⟩ := List.map_eq_cons_iff.mp hlower
      exact settled_cons (isBlank_of_toLower ht hc).1 (isBlank_of_toLower ht hc).2 _
  | identifier => exact solid_identifier
  | digit => exact hdigits (by decide)
  | nonzero => exact hdigits (by decide)
  | octal => exact hdigits (by decide)
  | hexdigit => exact hdigits (by decide)
  | _ => cases ht

/-- the rules that an expression can begin with -/
def firstOfExpr : List Rule :=
  [.constExpr, .orExpr, .xorExpr, .andExpr, .shiftExpr, .addExpr, .multExpr, .unaryExpr,
   .unaryOperator, .unaryOperatorMinus, .unaryOperatorPlus, .unaryOperatorTilde, .primaryExpr,
   .scopedName, .scopedNameSeparator, .literal, .integerLiteral, .decimalLiteral, .octalLiteral,
   .hexadecimalLiteral, .floatingPtLiteral, .floatingPtLiteralDot, .fixedPtLiteral, .booleanLiteral,
   .booleanLiteralTrue, .booleanLiteralFalse, .stringLiterals, .stringLiteral, .wideStringLiterals,
   .wideStringLiteral]

/-- **Blanks and comments** before an expression do not matter. -/
theorem reads_constExpr_skip {s' : Text} (h : Reads idl (.rule .constExpr) s ts p r)
    (hs : skip s' = skip s) : Reads idl (.rule .constExpr) s' ts p r := by
  have hfirst : ∀ x ∈ firstOfExpr, x.body.startsWith (· ∈ firstOfExpr) solidFirst = true := by
    decide
  exact h.of_skip ignores_skip (fun x hx => hfirst x (of_decide_eq_true hx))
    (fun _ => solid_of_first) rfl hs

end PMROS2.Rosidl
