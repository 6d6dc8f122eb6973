import Mathlib.Data.List.Basic
import PMROS2.Lib.Strings

/-!
# Texts with keys in braces

A text such as `a/{key}/b` is a list of pieces: characters and keys.  Filling in the values of all
keys at once is a map over the pieces; a program that replaces one key after the other in the text
gets there too, because values have no braces.

* `scan`, `render_scan`        the pieces of a text, and the text again;
* `fill`                       all keys at once;
* `replace_render`             a textual replacement of one key is `substitute`;
* `fill_substitute`, `keys_substitute`   one key filled in: the same result, one key less.
-/

namespace PMROS2.Template
open PMROS2.Strings

inductive Piece
  | char (c : Char)
  | key (k : Text)
  deriving DecidableEq, Repr

def braced (k : Text) : Text := '{' :: (k ++ ['}'])

def Piece.text : Piece → Text
  | .char c => [c]
  | .key k => braced k

def render (ps : List Piece) : Text := ps.flatMap Piece.text

/-- no brace of either kind -/
def Unbraced (s : Text) : Prop := '{' ∉ s ∧ '}' ∉ s

def Piece.Plain : Piece → Prop
  | .char c => c ≠ '{' ∧ c ≠ '}'
  | .key k => Unbraced k

/-- braces are matched and not nested -/
def balanced : Bool → Text → Bool
  | inside, [] => !inside
  | inside, c :: s =>
    if c = '{' then !inside && balanced true s
    else if c = '}' then inside && balanced false s
    else balanced inside s

/-- the pieces; `mode` is the key that is being read, backwards -/
def scan : Option Text → Text → List Piece
  | _, [] => []
  | none, c :: s => if c = '{' then scan (some []) s else .char c :: scan none s
  | some k, c :: s => if c = '}' then .key k.reverse :: scan none s else scan (some (c :: k)) s

def keys (ps : List Piece) : List Text :=
  ps.filterMap fun p => match p with
    | .char _ => none
    | .key k => some k

/-- all keys replaced at once -/
def fill (value : Text → Option Text) (ps : List Piece) : Text :=
  ps.flatMap fun p => match p with
    | .char c => [c]
    | .key k => (value k).getD []

/-- one key replaced -/
def substitute (k v : Text) (ps : List Piece) : List Piece :=
  ps.flatMap fun p => if p = .key k then v.map .char else [p]

/-! ## pieces of a text -/

theorem render_char (c : Char) (ps : List Piece) : render (.char c :: ps) = c :: render ps := rfl

theorem render_key (k : Text) (ps : List Piece) :
    render (.key k :: ps) = '{' :: (k ++ '}' :: render ps) := by
  simp [render, Piece.text, braced]

theorem render_append (ps qs : List Piece) : render (ps ++ qs) = render ps ++ render qs :=
  List.flatMap_append

theorem render_map_char (s : Text) : render (s.map .char) = s := by
  induction s with
  | nil => rfl
  | cons c s ih => rw [List.map_cons, render_char, ih]

/-- what has been read of a key -/
def opened : Option Text → Text
  | none => []
  | some k => '{' :: k.reverse

theorem render_scan_mode (s : Text) :
    ∀ mode : Option Text, balanced mode.isSome s = true → (∀ k ∈ mode, Unbraced k) →
      render (scan mode s) = opened mode ++ s ∧ ∀ p ∈ scan mode s, p.Plain := by
  induction s with
  | nil =>
    intro mode hb hmode
    cases mode with
    | none => exact ⟨rfl, fun p hp => absurd hp List.not_mem_nil⟩
    | some k => cases hb
  | cons c s ih =>
    intro mode hb hmode
    rw [balanced] at hb
    cases mode with
    | none =>
      rw [scan]
      by_cases hopen : c = '{'
      · rw [if_pos hopen] at hb ⊢
        obtain ⟨hr, hp⟩ := ih (some []) (by simpa using hb) (by simp [Unbraced])
        refine ⟨?_, hp⟩
        rw [hr, hopen]
        rfl
      · rw [if_neg hopen] at hb ⊢
        by_cases hclose : c = '}'
        · rw [if_pos hclose] at hb
          simp at hb
        · rw [if_neg hclose] at hb
          obtain ⟨hr, hp⟩ := ih none hb (by simp)
          refine ⟨?_, List.forall_mem_cons.mpr ⟨⟨hopen, hclose⟩, hp⟩⟩
          rw [render_char, hr]
          rfl
    | some k =>
      obtain ⟨hk₁, hk₂⟩ := hmode k rfl
      have hrev : Unbraced k.reverse := by
        rw [Unbraced, List.mem_reverse, List.mem_reverse]
        exact ⟨hk₁, hk₂⟩
      rw [scan]
      by_cases hopen : c = '{'
      · rw [if_pos hopen] at hb
        simp at hb
      · rw [if_neg hopen] at hb
        by_cases hclose : c = '}'
        · rw [if_pos hclose] at hb ⊢
          obtain ⟨hr, hp⟩ := ih none (by simpa using hb) (by simp)
          refine ⟨?_, List.forall_mem_cons.mpr ⟨hrev, hp⟩⟩
          rw [render_key, hr, hclose]
          rfl
        · rw [if_neg hclose] at hb ⊢
          have hck : ∀ k' ∈ some (c :: k), Unbraced k' := by
            intro k' hk'
            obtain rfl := Option.mem_some.mp hk'
            rw [Unbraced, List.mem_cons, List.mem_cons]
            exact ⟨by rintro (h | h); exacts [hopen h.symm, hk₁ h],
              by rintro (h | h); exacts [hclose h.symm, hk₂ h]⟩
          obtain ⟨hr, hp⟩ := ih (some (c :: k)) hb hck
          refine ⟨?_, hp⟩
          rw [hr, opened, List.reverse_cons]
          simp [opened]

/-- **The pieces of a text** with matched braces make it up. -/
theorem render_scan {s : Text} (h : balanced false s = true) :
    render (scan none s) = s ∧ ∀ p ∈ scan none s, p.Plain :=
  render_scan_mode s none h fun _ hk => absurd hk (Option.not_mem_none _)

/-! ## the first key -/

theorem split_first_key {ps : List Piece} {k : Text} {ks : List Text} (h : keys ps = k :: ks)
    (hplain : ∀ p ∈ ps, p.Plain) :
    ∃ a b, ps = a.map .char ++ .key k :: b ∧ Unbraced a := by
  induction ps with
  | nil => cases h
  | cons p ps ih =>
    cases p with
    | key k' =>
      obtain ⟨rfl, -⟩ := List.cons.inj h
      exact ⟨[], ps, rfl, by simp [Unbraced]⟩
    | char c =>
      have hps := fun p hp => hplain p (List.mem_cons_of_mem _ hp)
      obtain ⟨a, b, rfl, ha₁, ha₂⟩ := ih h hps
      obtain ⟨hc₁, hc₂⟩ := hplain (.char c) List.mem_cons_self
      refine ⟨c :: a, b, rfl, ?_⟩
      rw [Unbraced, List.mem_cons, List.mem_cons]
      exact ⟨by rintro (h | h); exacts [hc₁ h.symm, ha₁ h],
        by rintro (h | h); exacts [hc₂ h.symm, ha₂ h]⟩

theorem chars_of_keys_nil {ps : List Piece} (h : keys ps = []) : ∃ s : Text, ps = s.map .char := by
  induction ps with
  | nil => exact ⟨[], rfl⟩
  | cons p ps ih =>
    cases p with
    | key k => cases h
    | char c =>
      obtain ⟨s, rfl⟩ := ih h
      exact ⟨c :: s, rfl⟩

/-! ## filling in -/

theorem fill_append (value : Text → Option Text) (ps qs : List Piece) :
    fill value (ps ++ qs) = fill value ps ++ fill value qs :=
  List.flatMap_append

theorem fill_map_char (value : Text → Option Text) (s : Text) : fill value (s.map .char) = s := by
  induction s with
  | nil => rfl
  | cons c s ih =>
    rw [List.map_cons]
    exact congrArg (c :: ·) ih

theorem mem_keys {ps : List Piece} {k : Text} : k ∈ keys ps ↔ .key k ∈ ps := by
  rw [keys, List.mem_filterMap]
  constructor
  · rintro ⟨p, hp, hk⟩
    cases p with
    | char c => cases hk
    | key k' =>
      obtain rfl := Option.some.inj hk
      exact hp
  · intro h
    exact ⟨.key k, h, rfl⟩

theorem mem_fill {value : Text → Option Text} {ps : List Piece} {c : Char} :
    c ∈ fill value ps ↔ .char c ∈ ps ∨ ∃ k ∈ keys ps, ∃ v, value k = some v ∧ c ∈ v := by
  rw [fill, List.mem_flatMap]
  constructor
  · rintro ⟨p, hp, hc⟩
    cases p with
    | char d =>
      obtain rfl := List.mem_singleton.mp hc
      exact .inl hp
    | key k =>
      cases hv : value k with
      | none =>
        simp [hv] at hc
      | some v =>
        simp only [hv, Option.getD_some] at hc
        exact .inr ⟨k, mem_keys.mpr hp, v, hv, hc⟩
  · rintro (h | ⟨k, hk, v, hv, hc⟩)
    · exact ⟨.char c, h, List.mem_singleton.mpr rfl⟩
    · refine ⟨.key k, mem_keys.mp hk, ?_⟩
      simp only [hv, Option.getD_some]
      exact hc

/-! ## one key -/

theorem substitute_cons (k v : Text) (p : Piece) (ps : List Piece) :
    substitute k v (p :: ps) = (if p = .key k then v.map .char else [p]) ++ substitute k v ps :=
  rfl

theorem fill_substitute {value : Text → Option Text} {k v : Text} (h : value k = some v)
    (ps : List Piece) : fill value (substitute k v ps) = fill value ps := by
  induction ps with
  | nil => rfl
  | cons p ps ih =>
    rw [substitute_cons, fill_append, ih]
    by_cases hp : p = .key k
    · rw [if_pos hp, fill_map_char, hp]
      simp [fill, h]
    · rw [if_neg hp]
      simp [fill]

theorem keys_map_char (s : Text) : keys (s.map .char) = [] := by
  induction s with
  | nil => rfl
  | cons c s ih => exact ih

theorem keys_substitute (k v : Text) (ps : List Piece) :
    keys (substitute k v ps) = (keys ps).filter (· ≠ k) := by
  induction ps with
  | nil => rfl
  | cons p ps ih =>
    rw [substitute_cons]
    cases p with
    | char c =>
      rw [if_neg (by simp)]
      exact ih
    | key k' =>
      by_cases hk : k' = k
      · subst hk
        rw [if_pos rfl, keys, List.filterMap_append, ← keys, keys_map_char, List.nil_append,
          ← keys, ih]
        simp [keys]
      · rw [if_neg (by simpa using hk)]
        simp only [keys, List.singleton_append, List.filterMap_cons] at ih ⊢
        rw [ih, List.filter_cons, if_pos (by simpa using hk)]

theorem plain_substitute {k v : Text} (hv : Unbraced v) {ps : List Piece}
    (h : ∀ p ∈ ps, p.Plain) : ∀ p ∈ substitute k v ps, p.Plain := by
  intro p hp
  obtain ⟨q, hq, hp⟩ := List.mem_flatMap.mp hp
  split at hp
  · obtain ⟨c, hc, rfl⟩ := List.mem_map.mp hp
    exact ⟨fun he => hv.1 (he ▸ hc), fun he => hv.2 (he ▸ hc)⟩
  · rw [List.mem_singleton.mp hp]
    exact h q hq

/-! ## a textual replacement -/

theorem replaceLoop_skip {old new : Text} {c : Char} {s : Text} (h : ¬ old <+: c :: s) (n : Nat) :
    replaceLoop old new (n + 1) (c :: s) = c :: replaceLoop old new n s := by
  rw [replaceLoop, if_neg (by rw [List.isPrefixOf_iff_prefix]; exact h)]

theorem not_prefix_of_ne {old s : Text} {c : Char} (h : c ≠ '{') : ¬ '{' :: old <+: c :: s := by
  intro hp
  exact h (List.cons_prefix_cons.mp hp).1.symm

theorem replaceLoop_unbraced (old new : Text) {a : Text} (ha : '{' ∉ a) (n : Nat) (s : Text) :
    replaceLoop ('{' :: old) new (a.length + n) (a ++ s) =
      a ++ replaceLoop ('{' :: old) new n s := by
  induction a with
  | nil => rw [List.length_nil, Nat.zero_add]; rfl
  | cons c a ih =>
    rw [List.mem_cons, not_or] at ha
    obtain ⟨hc, ha⟩ := ha
    rw [List.length_cons, Nat.add_right_comm, List.cons_append,
      replaceLoop_skip (not_prefix_of_ne (Ne.symm hc)), ih ha]
    rfl

theorem eq_of_prefix_braced {k k' s : Text} (hk : Unbraced k) (hk' : Unbraced k')
    (h : braced k <+: '{' :: (k' ++ '}' :: s)) : k = k' := by
  obtain ⟨t, ht⟩ := h
  have heq : k ++ '}' :: t = k' ++ '}' :: s := by
    simpa [braced] using ht
  have htake := congrArg (List.takeWhile (· ≠ '}')) heq
  have hall : ∀ l : Text, '}' ∉ l → ∀ c ∈ l, decide (c ≠ '}') = true := by
    intro l hl c hc
    rw [decide_eq_true_eq]
    rintro rfl
    exact hl hc
  rw [List.takeWhile_append_of_pos (hall k hk.2), List.takeWhile_append_of_pos (hall k' hk'.2)]
    at htake
  simpa using htake

theorem replaceLoop_render {k v : Text} (hk : Unbraced k) {ps : List Piece}
    (h : ∀ p ∈ ps, p.Plain) :
    ∀ n, (render ps).length ≤ n →
      replaceLoop (braced k) v n (render ps) = render (substitute k v ps) := by
  induction ps with
  | nil =>
    intro n _
    cases n <;> rfl
  | cons p ps ih =>
    intro n hn
    have hps := ih fun p hp => h p (List.mem_cons_of_mem _ hp)
    have hp := h p List.mem_cons_self
    rw [substitute_cons, render_append]
    cases p with
    | char c =>
      rw [render_char, List.length_cons] at hn
      obtain ⟨m, rfl⟩ : ∃ m, n = m + 1 := ⟨n - 1, by omega⟩
      rw [render_char, braced, replaceLoop_skip (not_prefix_of_ne hp.1), if_neg (by simp),
        ← braced, hps m (by omega)]
      rfl
    | key k' =>
      rw [render_key, List.length_cons, List.length_append, List.length_cons] at hn
      by_cases hkk : k' = k
      · subst hkk
        obtain ⟨m, rfl⟩ : ∃ m, n = m + 1 := ⟨n - 1, by omega⟩
        have hprefix : braced k' <+: '{' :: (k' ++ '}' :: render ps) :=
          ⟨render ps, by simp [braced]⟩
        have hdrop : ('{' :: (k' ++ '}' :: render ps)).drop (braced k').length = render ps := by
          simp [braced]
        rw [render_key, replaceLoop, if_pos (List.isPrefixOf_iff_prefix.mpr hprefix), hdrop,
          hps m (by omega), if_pos rfl, render_map_char]
      · obtain ⟨m, rfl⟩ : ∃ m, n = k'.length + 1 + m + 1 := ⟨n - k'.length - 2, by omega⟩
        have hno : ¬ braced k <+: '{' :: (k' ++ '}' :: render ps) := fun hpre =>
          hkk (eq_of_prefix_braced hk hp hpre).symm
        have hrest : '{' ∉ k' ++ ['}'] := by
          rw [List.mem_append, List.mem_singleton]
          rintro (h | h)
          · exact hp.1 h
          · cases h
        have hskip := replaceLoop_unbraced (k ++ ['}']) v hrest m (render ps)
        rw [List.append_assoc, List.length_append] at hskip
        rw [render_key, replaceLoop_skip hno, if_neg (by simpa using hkk), braced]
        refine (congrArg ('{' :: ·) hskip).trans ?_
        rw [← braced, hps m (by omega), ← render_append, List.singleton_append, render_key]
        simp

/-- **Replacing a key in the text** is replacing it among the pieces. -/
theorem replace_render {k : Text} (hk : Unbraced k) (v : Text) {ps : List Piece}
    (h : ∀ p ∈ ps, p.Plain) :
    replace (braced k) v (render ps) = render (substitute k v ps) :=
  replaceLoop_render hk h _ le_rfl

end PMROS2.Template
