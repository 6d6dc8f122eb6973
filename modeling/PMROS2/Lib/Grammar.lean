import PMROS2.Lib.Strings

/-!
# Grammars

A grammar has a right-hand side for every rule, with alternatives and repetitions.  A terminal
matches the beginning of a text, in one way; some terminals may stand between the others and are
ignored.  The rules have priorities, and a derivation has the sum of those of its rules.

* `Reads`          an expression reads the beginning of a text, as trees, and leaves a rest;
* `Reads.of_skip`  what is ignored before an expression does not matter.
-/

namespace PMROS2.Grammars
open Strings

/-! ## right-hand sides and trees -/

inductive Expr (ρ τ : Type) where
  | empty
  | terminal (t : τ)
  | rule (x : ρ)
  | seq (a b : Expr ρ τ)
  | alt (a b : Expr ρ τ)
  | star (a : Expr ρ τ)

namespace Expr
variable {ρ τ : Type}

def seqs : List (Expr ρ τ) → Expr ρ τ
  | [] => .empty
  | [a] => a
  | a :: b :: l => .seq a (seqs (b :: l))

/-- the alternatives of a rule -/
def alts : List (List (Expr ρ τ)) → Expr ρ τ
  | [] => .empty
  | [l] => seqs l
  | l :: l' :: ls => .alt (seqs l) (alts (l' :: ls))

def plus (a : Expr ρ τ) : Expr ρ τ := .seq a (.star a)

def option (a : Expr ρ τ) : Expr ρ τ := .alt a .empty

end Expr

/-- the tokens of the terminals that are kept, and nodes -/
inductive Tree (ρ τ : Type) where
  | token (type : τ) (value : Text)
  | node (data : ρ) (children : List (Tree ρ τ))

section
variable {ρ τ : Type}

def Tree.data? : Tree ρ τ → Option ρ
  | .token _ _ => none
  | .node x _ => some x

def Tree.children : Tree ρ τ → List (Tree ρ τ)
  | .token _ _ => []
  | .node _ ts => ts

mutual

/-- the nodes of a tree, each behind those below it -/
def Tree.subtrees : Tree ρ τ → List (Tree ρ τ)
  | .token _ _ => []
  | .node x ts => subtreesAll ts ++ [.node x ts]

def subtreesAll : List (Tree ρ τ) → List (Tree ρ τ)
  | [] => []
  | t :: ts => t.subtrees ++ subtreesAll ts

end

mutual

def Tree.tokens : Tree ρ τ → List (τ × Text)
  | .token t w => [(t, w)]
  | .node _ ts => tokensAll ts

def tokensAll : List (Tree ρ τ) → List (τ × Text)
  | [] => []
  | t :: ts => t.tokens ++ tokensAll ts

end

mutual

theorem sizeOf_le_of_mem_subtrees [SizeOf ρ] [SizeOf τ] : ∀ (t : Tree ρ τ) {u : Tree ρ τ},
    u ∈ t.subtrees → sizeOf u ≤ sizeOf t
  | .token _ _, u, h => by
    rw [Tree.subtrees] at h
    cases h
  | .node x ts, u, h => by
    rw [Tree.subtrees] at h
    rcases List.mem_append.mp h with h | h
    · have hle := sizeOf_le_of_mem_subtreesAll ts h
      rw [Tree.node.sizeOf_spec]
      omega
    · exact Nat.le_of_eq (congrArg sizeOf (List.mem_singleton.mp h))

theorem sizeOf_le_of_mem_subtreesAll [SizeOf ρ] [SizeOf τ] :
    ∀ (ts : List (Tree ρ τ)) {u : Tree ρ τ}, u ∈ subtreesAll ts → sizeOf u ≤ sizeOf ts
  | [], u, h => by
    rw [subtreesAll] at h
    cases h
  | t :: ts, u, h => by
    rw [subtreesAll] at h
    rw [List.cons.sizeOf_spec]
    rcases List.mem_append.mp h with h | h
    · have hle := sizeOf_le_of_mem_subtrees t h
      omega
    · have hle := sizeOf_le_of_mem_subtreesAll ts h
      omega

end

theorem subtreesAll_append (ts us : List (Tree ρ τ)) :
    subtreesAll (ts ++ us) = subtreesAll ts ++ subtreesAll us := by
  induction ts with
  | nil => rfl
  | cons t ts ih => rw [List.cons_append, subtreesAll, ih, subtreesAll, List.append_assoc]

theorem subtreesAll_singleton (t : Tree ρ τ) : subtreesAll [t] = t.subtrees :=
  List.append_nil _

theorem subtrees_node (x : ρ) (ts : List (Tree ρ τ)) :
    (Tree.node x ts).subtrees = subtreesAll ts ++ [.node x ts] := by
  rw [Tree.subtrees]

theorem tokens_node (x : ρ) (ts : List (Tree ρ τ)) : (Tree.node x ts).tokens = tokensAll ts := by
  rw [Tree.tokens]

variable [DecidableEq ρ]

/-- the nodes of a rule, in this order -/
def findAll (x : ρ) (ts : List (Tree ρ τ)) : List (Tree ρ τ) :=
  (subtreesAll ts).filter fun t => t.data? = some x

def Tree.findData (x : ρ) (t : Tree ρ τ) : List (Tree ρ τ) :=
  t.subtrees.filter fun t => t.data? = some x

theorem findAll_append (x : ρ) (ts us : List (Tree ρ τ)) :
    findAll x (ts ++ us) = findAll x ts ++ findAll x us := by
  rw [findAll, subtreesAll_append, List.filter_append, findAll, findAll]

theorem findAll_cons (x : ρ) (t : Tree ρ τ) (ts : List (Tree ρ τ)) :
    findAll x (t :: ts) = t.findData x ++ findAll x ts := by
  rw [findAll, subtreesAll, List.filter_append, findAll, Tree.findData]

theorem findAll_eq_flatMap (x : ρ) (ts : List (Tree ρ τ)) :
    findAll x ts = ts.flatMap (Tree.findData x) := by
  induction ts with
  | nil => rfl
  | cons t ts ih => rw [findAll_cons, ih, List.flatMap_cons]

theorem findAll_eq_nil {x : ρ} {ts : List (Tree ρ τ)} (h : ∀ t ∈ ts, t.findData x = []) :
    findAll x ts = [] := by
  rw [findAll_eq_flatMap, List.flatMap_eq_nil_iff]
  exact h

theorem findData_token (x : ρ) (t : τ) (w : Text) :
    (Tree.token t w : Tree ρ τ).findData x = [] := by
  rw [Tree.findData, Tree.subtrees]
  rfl

theorem findData_node (x y : ρ) (ts : List (Tree ρ τ)) : (Tree.node y ts).findData x =
    findAll x ts ++ if y = x then [.node y ts] else [] := by
  rw [Tree.findData, subtrees_node, List.filter_append, findAll]
  congr 1
  by_cases h : y = x
  · rw [if_pos h, List.filter_cons_of_pos (by simp [Tree.data?, h]), List.filter_nil]
  · rw [if_neg h, List.filter_cons_of_neg (by simp [Tree.data?, h]), List.filter_nil]

theorem findData_single {x y : ρ} (h : y ≠ x) (t : Tree ρ τ) :
    (Tree.node y [t]).findData x = t.findData x := by
  rw [findData_node, findAll_cons, if_neg h, List.append_nil]
  exact List.append_nil _

variable [DecidableEq τ]

mutual

/-- trees are compared node by node -/
def Tree.beq : Tree ρ τ → Tree ρ τ → Bool
  | .token t w, .token t' w' => t = t' && w = w'
  | .node x ts, .node y us => x = y && beqAll ts us
  | _, _ => false

def beqAll : List (Tree ρ τ) → List (Tree ρ τ) → Bool
  | [], [] => true
  | t :: ts, u :: us => t.beq u && beqAll ts us
  | _, _ => false

end

mutual

def Tree.findPath : Tree ρ τ → Tree ρ τ → Option (List (Tree ρ τ))
  | .token _ _, _ => none
  | .node x ts, target =>
    if (Tree.node x ts).beq target then some [.node x ts]
    else (findPathAll ts target).map (.node x ts :: ·)

def findPathAll : List (Tree ρ τ) → Tree ρ τ → Option (List (Tree ρ τ))
  | [], _ => none
  | t :: ts, target => (t.findPath target).or (findPathAll ts target)

end

end

structure Grammar (ρ τ : Type) where
  body : ρ → Expr ρ τ
  priority : ρ → Nat
  /-- the match at the beginning of a text, and the rest -/
  scan : τ → Text → Option (Text × Text)
  scan_eq : ∀ t s w r, scan t s = some (w, r) → s = w ++ r
  /-- the terminals that have tokens in the tree -/
  keeps : τ → Bool
  ignored : List τ

variable {ρ τ : Type} (G : Grammar ρ τ)

def Grammar.leaf (t : τ) (w : Text) : List (Tree ρ τ) := if G.keeps t then [.token t w] else []

/-! ## reading -/

inductive Skips : Text → Text → Prop
  | refl (s : Text) : Skips s s
  | step {s w r s' : Text} {t : τ} (ht : t ∈ G.ignored) (h : G.scan t s = some (w, r))
      (hr : Skips r s') : Skips s s'

/-- the expression reads a text up to a rest, as trees, with a priority -/
inductive Reads : Expr ρ τ → Text → List (Tree ρ τ) → Nat → Text → Prop
  | empty (s : Text) : Reads .empty s [] 0 s
  | terminal {t : τ} {s s' w r : Text} (hs : Skips G s s') (h : G.scan t s' = some (w, r)) :
      Reads (.terminal t) s (G.leaf t w) 0 r
  | rule {x : ρ} {s r : Text} {ts : List (Tree ρ τ)} {p : Nat} (h : Reads (G.body x) s ts p r) :
      Reads (.rule x) s [.node x ts] (G.priority x + p) r
  | seq {a b : Expr ρ τ} {s s' r : Text} {ts us : List (Tree ρ τ)} {p q : Nat}
      (ha : Reads a s ts p s') (hb : Reads b s' us q r) :
      Reads (.seq a b) s (ts ++ us) (p + q) r
  | left {a b : Expr ρ τ} {s r : Text} {ts : List (Tree ρ τ)} {p : Nat} (h : Reads a s ts p r) :
      Reads (.alt a b) s ts p r
  | right {a b : Expr ρ τ} {s r : Text} {ts : List (Tree ρ τ)} {p : Nat} (h : Reads b s ts p r) :
      Reads (.alt a b) s ts p r
  | done {a : Expr ρ τ} (s : Text) : Reads (.star a) s [] 0 s
  | more {a : Expr ρ τ} {s s' r : Text} {ts us : List (Tree ρ τ)} {p q : Nat}
      (ha : Reads a s ts p s') (hb : Reads (.star a) s' us q r) :
      Reads (.star a) s (ts ++ us) (p + q) r

section
variable {G} {a b : Expr ρ τ} {x : ρ} {t : τ} {s r : Text} {ts : List (Tree ρ τ)} {p : Nat}

theorem reads_empty : Reads G .empty s ts p r ↔ ts = [] ∧ p = 0 ∧ r = s := by
  constructor
  · intro h
    cases h
    exact ⟨rfl, rfl, rfl⟩
  · rintro ⟨rfl, rfl, rfl⟩
    exact .empty _

theorem reads_rule : Reads G (.rule x) s ts p r ↔
    ∃ us q, ts = [.node x us] ∧ p = G.priority x + q ∧ Reads G (G.body x) s us q r := by
  constructor
  · intro h
    cases h with
    | rule h => exact ⟨_, _, rfl, rfl, h⟩
  · rintro ⟨us, q, rfl, rfl, h⟩
    exact .rule h

theorem reads_seq : Reads G (.seq a b) s ts p r ↔
    ∃ s' us q vs k, ts = us ++ vs ∧ p = q + k ∧ Reads G a s us q s' ∧ Reads G b s' vs k r := by
  constructor
  · intro h
    cases h with
    | seq ha hb => exact ⟨_, _, _, _, _, rfl, rfl, ha, hb⟩
  · rintro ⟨s', us, q, vs, k, rfl, rfl, ha, hb⟩
    exact .seq ha hb

theorem reads_alt : Reads G (.alt a b) s ts p r ↔ Reads G a s ts p r ∨ Reads G b s ts p r := by
  constructor
  · intro h
    cases h with
    | left h => exact .inl h
    | right h => exact .inr h
  · rintro (h | h)
    · exact .left h
    · exact .right h

theorem reads_star : Reads G (.star a) s ts p r ↔ (ts = [] ∧ p = 0 ∧ r = s) ∨
    ∃ s' us q vs k, ts = us ++ vs ∧ p = q + k ∧ Reads G a s us q s' ∧
      Reads G (.star a) s' vs k r := by
  constructor
  · intro h
    cases h with
    | done => exact .inl ⟨rfl, rfl, rfl⟩
    | more ha hb => exact .inr ⟨_, _, _, _, _, rfl, rfl, ha, hb⟩
  · rintro (⟨rfl, rfl, rfl⟩ | ⟨s', us, q, vs, k, rfl, rfl, ha, hb⟩)
    · exact .done _
    · exact .more ha hb

theorem reads_alts {ls : List (List (Expr ρ τ))} (hne : ls ≠ []) :
    Reads G (.alts ls) s ts p r ↔ ∃ l ∈ ls, Reads G (.seqs l) s ts p r := by
  induction ls with
  | nil => exact absurd rfl hne
  | cons l ls ih =>
    cases ls with
    | nil =>
      constructor
      · exact fun h => ⟨l, List.mem_cons_self, h⟩
      · rintro ⟨l', hl', h⟩
        rw [List.mem_singleton.mp hl'] at h
        exact h
    | cons l' ls =>
      show Reads G (.alt (.seqs l) (.alts (l' :: ls))) s ts p r ↔ _
      rw [reads_alt, ih (List.cons_ne_nil _ _)]
      constructor
      · rintro (h | ⟨m, hm, h⟩)
        · exact ⟨l, List.mem_cons_self, h⟩
        · exact ⟨m, List.mem_cons_of_mem _ hm, h⟩
      · rintro ⟨m, hm, h⟩
        rcases List.mem_cons.mp hm with rfl | hm
        · exact .inl h
        · exact .inr ⟨m, hm, h⟩

theorem Skips.isSuffix {s s' : Text} (h : Skips G s s') : s' <:+ s := by
  induction h with
  | refl s => exact List.suffix_refl s
  | step _ hw _ ih =>
    rw [G.scan_eq _ _ _ _ hw]
    exact ih.trans (List.suffix_append _ _)

theorem Reads.isSuffix (h : Reads G a s ts p r) : r <:+ s := by
  induction h with
  | empty s => exact List.suffix_refl s
  | terminal hs hw =>
    refine List.IsSuffix.trans ?_ hs.isSuffix
    rw [G.scan_eq _ _ _ _ hw]
    exact List.suffix_append _ _
  | rule _ ih => exact ih
  | seq _ _ iha ihb => exact ihb.trans iha
  | left _ ih => exact ih
  | right _ ih => exact ih
  | done s => exact List.suffix_refl s
  | more _ _ iha ihb => exact ihb.trans iha

/-- the trees of a repetition are those of its readings -/
theorem Reads.of_star (h : Reads G (.star a) s ts p r) :
    ∃ tss : List (List (Tree ρ τ)), ts = tss.flatten ∧
      ∀ us ∈ tss, ∃ s' q r', Reads G a s' us q r' := by
  generalize he : Expr.star a = e at h
  induction h with
  | empty _ => cases he
  | terminal _ _ => cases he
  | rule _ _ => cases he
  | seq _ _ _ _ => cases he
  | left _ _ => cases he
  | right _ _ => cases he
  | done s => exact ⟨[], rfl, fun us hus => absurd hus List.not_mem_nil⟩
  | more ha _ _ ihb =>
    obtain rfl := Expr.star.inj he
    obtain ⟨tss, rfl, htss⟩ := ihb rfl
    refine ⟨_ :: tss, rfl, fun us hus => ?_⟩
    rcases List.mem_cons.mp hus with rfl | hus
    · exact ⟨_, _, _, ha⟩
    · exact htss us hus

end

/-! ## the rules in a tree -/

/-- every rule in the expression is in the set -/
def Expr.within (f : ρ → Bool) : Expr ρ τ → Bool
  | .empty | .terminal _ => true
  | .rule x => f x
  | .seq a b | .alt a b => a.within f && b.within f
  | .star a => a.within f

section
variable {G} {a : Expr ρ τ} {s r : Text} {ts : List (Tree ρ τ)} {p : Nat}

/-- **A closed set of rules** holds all nodes of the trees. -/
theorem Reads.within {f : ρ → Bool} (hf : ∀ x, f x = true → (G.body x).within f = true)
    (h : Reads G a s ts p r) (ha : a.within f = true) :
    ∀ t ∈ subtreesAll ts, ∃ x us, t = .node x us ∧ f x = true := by
  induction h with
  | empty s => exact fun t ht => absurd ht List.not_mem_nil
  | terminal _ _ =>
    intro t ht
    rw [Grammar.leaf] at ht
    split at ht
    · rw [subtreesAll_singleton, Tree.subtrees] at ht
      cases ht
    · cases ht
  | @rule x _ _ us _ _ ih =>
    intro t ht
    rw [subtreesAll_singleton, subtrees_node] at ht
    rcases List.mem_append.mp ht with ht | ht
    · exact ih (hf x ha) t ht
    · exact ⟨x, us, List.mem_singleton.mp ht, ha⟩
  | seq _ _ iha ihb =>
    intro t ht
    rw [Expr.within, Bool.and_eq_true] at ha
    rw [subtreesAll_append] at ht
    rcases List.mem_append.mp ht with ht | ht
    · exact iha ha.1 t ht
    · exact ihb ha.2 t ht
  | left _ ih =>
    rw [Expr.within, Bool.and_eq_true] at ha
    exact ih ha.1
  | right _ ih =>
    rw [Expr.within, Bool.and_eq_true] at ha
    exact ih ha.2
  | done s => exact fun t ht => absurd ht List.not_mem_nil
  | more _ _ iha ihb =>
    intro t ht
    rw [subtreesAll_append] at ht
    rcases List.mem_append.mp ht with ht | ht
    · exact iha ha t ht
    · exact ihb ha t ht

theorem Reads.findAll_eq_nil [DecidableEq ρ] {f : ρ → Bool} {x : ρ}
    (hf : ∀ x, f x = true → (G.body x).within f = true) (h : Reads G a s ts p r)
    (ha : a.within f = true) (hx : f x = false) : findAll x ts = [] := by
  rw [findAll, List.filter_eq_nil_iff]
  intro t ht hd
  obtain ⟨y, us, rfl, hy⟩ := h.within hf ha t ht
  obtain rfl : y = x := by simpa [Tree.data?] using hd
  rw [hx] at hy
  cases hy

end

/-- every reading of the expression has a node of one of these rules -/
def Expr.needs (f : ρ → Bool) : Expr ρ τ → Bool
  | .empty | .terminal _ | .star _ => false
  | .rule x => f x
  | .seq a b => a.needs f || b.needs f
  | .alt a b => a.needs f && b.needs f

/-- **Rules that lead to `x`**, whatever they read, have a node of `x` in the trees. -/
theorem Reads.findAll_ne_nil [DecidableEq ρ] {G} {a : Expr ρ τ} {s r : Text}
    {ts : List (Tree ρ τ)} {p : Nat} {f : ρ → Bool} {x : ρ}
    (hf : ∀ y, f y = true → y = x ∨ (G.body y).needs f = true) (h : Reads G a s ts p r)
    (ha : a.needs f = true) : findAll x ts ≠ [] := by
  induction h with
  | empty s => cases ha
  | terminal _ _ => cases ha
  | @rule y _ _ us _ _ ih =>
    have hsplit : findAll x [Tree.node y us] =
        findAll x us ++ if y = x then [.node y us] else [] := by
      rw [findAll_cons, findData_node]
      exact List.append_nil _
    rw [hsplit]
    rcases hf y ha with rfl | hy
    · rw [if_pos rfl]
      exact List.append_ne_nil_of_right_ne_nil _ (List.cons_ne_nil _ _)
    · exact List.append_ne_nil_of_left_ne_nil (ih hy) _
  | seq _ _ iha ihb =>
    rw [findAll_append]
    rw [Expr.needs, Bool.or_eq_true] at ha
    rcases ha with ha | hb
    · exact List.append_ne_nil_of_left_ne_nil (iha ha) _
    · exact List.append_ne_nil_of_right_ne_nil _ (ihb hb)
  | left _ ih =>
    rw [Expr.needs, Bool.and_eq_true] at ha
    exact ih ha.1
  | right _ ih =>
    rw [Expr.needs, Bool.and_eq_true] at ha
    exact ih ha.2
  | done s => cases ha
  | more _ _ _ _ => cases ha

/-! ## readings inside a part of the text -/

/-- what becomes of an expression on some texts: it stays with them, or cannot read them -/
structure Fate where
  stays : Bool
  stuck : Bool

/-- the fate of an expression, from those of its rules and terminals -/
def Expr.fate (inside shut : ρ → Bool) (safe dead : τ → Bool) : Expr ρ τ → Fate
  | .empty => ⟨true, false⟩
  | .terminal t => ⟨safe t || dead t, dead t⟩
  | .rule x => ⟨inside x || shut x, shut x⟩
  | .seq a b =>
    let fa := a.fate inside shut safe dead
    let fb := b.fate inside shut safe dead
    let stuck := fa.stuck || fa.stays && fb.stuck
    ⟨stuck || fa.stays && fb.stays, stuck⟩
  | .alt a b =>
    let fa := a.fate inside shut safe dead
    let fb := b.fate inside shut safe dead
    ⟨fa.stays && fb.stays, fa.stuck && fb.stuck⟩
  | .star a => ⟨(a.fate inside shut safe dead).stays, false⟩

/-- safe terminals stay with the texts of `S`, and dead ones cannot read them -/
structure Confines (G : Grammar ρ τ) (S : Text → Prop) (inside shut : ρ → Bool)
    (safe dead : τ → Bool) : Prop where
  of_safe : ∀ t, safe t = true → ∀ s ts p r, S s → Reads G (.terminal t) s ts p r → S r
  of_dead : ∀ t, dead t = true → ∀ s ts p r, S s → ¬ Reads G (.terminal t) s ts p r
  of_inside : ∀ x, inside x = true → ((G.body x).fate inside shut safe dead).stays = true
  of_shut : ∀ x, shut x = true → ((G.body x).fate inside shut safe dead).stuck = true

section
variable {G} {S : Text → Prop} {inside shut : ρ → Bool} {safe dead : τ → Bool} {a : Expr ρ τ}
  {s r : Text} {ts : List (Tree ρ τ)} {p : Nat}

/-- **The rule for a part of the text**, from the fate of an expression. -/
theorem Confines.reads (hS : Confines G S inside shut safe dead) (h : Reads G a s ts p r)
    (hs : S s) : ((a.fate inside shut safe dead).stays = true → S r) ∧
      (a.fate inside shut safe dead).stuck = false := by
  induction h with
  | empty s => exact ⟨fun _ => hs, rfl⟩
  | @terminal t _ _ _ _ hk hw =>
    have hdead : dead t = false := by
      rw [← Bool.not_eq_true]
      exact fun ht => hS.of_dead t ht _ _ _ _ hs (.terminal hk hw)
    refine ⟨fun ha => ?_, hdead⟩
    rw [Expr.fate, hdead, Bool.or_false] at ha
    exact hS.of_safe t ha _ _ _ _ hs (.terminal hk hw)
  | @rule x _ _ _ _ _ ih =>
    have hshut : shut x = false := by
      rw [← Bool.not_eq_true]
      intro hx
      have hstuck := (ih hs).2
      rw [hS.of_shut x hx] at hstuck
      cases hstuck
    refine ⟨fun ha => ?_, hshut⟩
    rw [Expr.fate, hshut, Bool.or_false] at ha
    exact (ih hs).1 (hS.of_inside x ha)
  | @seq b c _ _ _ _ _ _ _ _ _ iha ihb =>
    have hb := iha hs
    have hstuck : ((Expr.seq b c).fate inside shut safe dead).stuck = false := by
      rw [Expr.fate]
      dsimp only
      rw [hb.2, Bool.false_or, Bool.and_eq_false_iff]
      by_cases hstays : (b.fate inside shut safe dead).stays = true
      · exact .inr (ihb (hb.1 hstays)).2
      · exact .inl (Bool.eq_false_iff.mpr hstays)
    refine ⟨fun h => ?_, hstuck⟩
    rw [Expr.fate] at h hstuck
    dsimp only at h hstuck
    rw [hstuck, Bool.false_or, Bool.and_eq_true] at h
    exact (ihb (hb.1 h.1)).1 h.2
  | left _ ih =>
    refine ⟨fun h => ?_, ?_⟩
    · rw [Expr.fate, Bool.and_eq_true] at h
      exact (ih hs).1 h.1
    · rw [Expr.fate, Bool.and_eq_false_iff]
      exact .inl (ih hs).2
  | right _ ih =>
    refine ⟨fun h => ?_, ?_⟩
    · rw [Expr.fate, Bool.and_eq_true] at h
      exact (ih hs).1 h.2
    · rw [Expr.fate, Bool.and_eq_false_iff]
      exact .inr (ih hs).2
  | done s => exact ⟨fun _ => hs, rfl⟩
  | more _ _ iha ihb => exact ⟨fun h => (ihb ((iha hs).1 h)).1 h, rfl⟩

theorem Confines.stays (hS : Confines G S inside shut safe dead) (hs : S s)
    (ha : (a.fate inside shut safe dead).stays = true) (h : Reads G a s ts p r) : S r :=
  (hS.reads h hs).1 ha

theorem Confines.stuck (hS : Confines G S inside shut safe dead) (hs : S s)
    (ha : (a.fate inside shut safe dead).stuck = true) : ¬ Reads G a s ts p r := by
  intro h
  rw [(hS.reads h hs).2] at ha
  cases ha

end

/-! ## what is ignored -/

section
variable {G}

/-- nothing is ignored at the beginning of the text -/
def Settled (G : Grammar ρ τ) (s : Text) : Prop := ∀ t ∈ G.ignored, G.scan t s = none

theorem Settled.skips {s s' : Text} (hs : Settled G s) (h : Skips G s s') : s' = s := by
  cases h with
  | refl => rfl
  | step ht hw _ =>
    rw [hs _ ht] at hw
    cases hw

/-- `skip` passes all that is ignored -/
structure Ignores (G : Grammar ρ τ) (skip : Text → Text) : Prop where
  skips : ∀ s, Skips G s (skip s)
  settled : ∀ s, Settled G (skip s)
  skip_eq : ∀ s s', Skips G s s' → skip s' = skip s

/-- the terminal begins with nothing that is ignored -/
def Solid (G : Grammar ρ τ) (t : τ) : Prop := ∀ s w r, G.scan t s = some (w, r) → Settled G s

variable {skip : Text → Text} {t : τ} {s r : Text} {ts : List (Tree ρ τ)} {p : Nat}

theorem reads_terminal (hskip : Ignores G skip) (ht : Solid G t) :
    Reads G (.terminal t) s ts p r ↔
      ∃ w, G.scan t (skip s) = some (w, r) ∧ ts = G.leaf t w ∧ p = 0 := by
  constructor
  · intro h
    cases h with
    | terminal hs hw =>
      have hset := ht _ _ _ hw
      have heq := hset.skips (hskip.skips _)
      rw [hskip.skip_eq _ _ hs] at heq
      rw [heq]
      exact ⟨_, hw, rfl, rfl⟩
  · rintro ⟨w, hw, rfl, rfl⟩
    exact .terminal (hskip.skips s) hw

end

/-- the expression reads something, with one of these terminals or rules first -/
def Expr.startsWith (f : ρ → Bool) (g : τ → Bool) : Expr ρ τ → Bool
  | .terminal t => g t
  | .rule x => f x
  | .seq a _ => a.startsWith f g
  | .alt a b => a.startsWith f g && b.startsWith f g
  | .empty | .star _ => false

section
variable {G} {skip : Text → Text} {a : Expr ρ τ} {s s' r : Text} {ts : List (Tree ρ τ)} {p : Nat}

/-- **What is ignored** before an expression does not matter. -/
theorem Reads.of_skip (hskip : Ignores G skip) {f : ρ → Bool} {g : τ → Bool}
    (hf : ∀ x, f x = true → (G.body x).startsWith f g = true) (hg : ∀ t, g t = true → Solid G t)
    (h : Reads G a s ts p r) (ha : a.startsWith f g = true) (hs : skip s' = skip s) :
    Reads G a s' ts p r := by
  induction h with
  | empty s => cases ha
  | @terminal t _ _ _ _ hk hw =>
    obtain ⟨w, hw', hts, -⟩ := (reads_terminal hskip (hg t ha)).mp (.terminal hk hw)
    rw [hts]
    refine (reads_terminal hskip (hg t ha)).mpr ⟨w, ?_, rfl, rfl⟩
    rw [hs]
    exact hw'
  | rule _ ih => exact .rule (ih (hf _ ha) hs)
  | seq _ hb iha _ => exact .seq (iha ha hs) hb
  | left _ ih =>
    rw [Expr.startsWith, Bool.and_eq_true] at ha
    exact .left (ih ha.1 hs)
  | right _ ih =>
    rw [Expr.startsWith, Bool.and_eq_true] at ha
    exact .right (ih ha.2 hs)
  | done s => cases ha
  | more _ _ _ _ => cases ha

end

end PMROS2.Grammars
