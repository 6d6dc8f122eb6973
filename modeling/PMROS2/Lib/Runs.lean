import Mathlib.Data.List.Basic

/-!
# Runs of a guarded transition function

A system is a function `step : σ → α → Option σ`; `none` means that the action is not enabled in
the state.  All the choices of the environment are part of the action.

* `exec step s as`       the state after the actions `as`;
* `Reach step C I`       the states reached from `I` by steps that all meet the condition `C`;
* `Along step Q s as`    every step of the run meets `Q`;
* `Always step P s as`   `P` holds in every state the run visits.

`Reach.inv` is the invariant rule.  `always_iff_along` is the rule for an exact condition: the
condition keeps an invariant that gives the property, and one step against it breaks the
property at once; `along_iff_of_inv` is the same rule for a property of the steps, and
`meets_iff_of_inv` for one of all steps, those without a result too.  `exec_rel` relates the runs
of two systems.  `isSome_exec_iff`, `exec_of_meets` and `exec_iff_meets` are about runs in which
every step has a result.
-/

set_option linter.unusedSectionVars false

namespace PMROS2.Runs

variable {σ α : Type*} (step : σ → α → Option σ)

def exec : σ → List α → Option σ
  | s, [] => some s
  | s, a :: as => (step s a).bind fun s' => exec s' as

/-- the states reached from `I` by steps that all meet `C` -/
inductive Reach (C : σ → α → Prop) (I : σ → Prop) : σ → Prop
  | start {s : σ} (h : I s) : Reach C I s
  | next {s s' : σ} {a : α} (h : Reach C I s) (hc : C s a) (hs : step s a = some s') : Reach C I s'

/-- no condition on the steps -/
def Free : σ → α → Prop := fun _ _ => True

def Along (Q : σ → α → σ → Prop) : σ → List α → Prop
  | _, [] => True
  | s, a :: as => ∀ s', step s a = some s' → Q s a s' ∧ Along Q s' as

def Always (P : σ → Prop) : σ → List α → Prop
  | s, [] => P s
  | s, a :: as => P s ∧ ∀ s', step s a = some s' → Always P s' as

variable {step}

theorem guarded_eq_some {p : Prop} [Decidable p] {s t : σ} :
    (if p then some s else none) = some t ↔ p ∧ s = t := by
  rw [Option.ite_none_right_eq_some, Option.some_inj]

theorem exec_cons (s : σ) (a : α) (as : List α) :
    exec step s (a :: as) = (step s a).bind fun s' => exec step s' as := rfl

theorem exec_append (s : σ) (as bs : List α) :
    exec step s (as ++ bs) = (exec step s as).bind fun t => exec step t bs := by
  induction as generalizing s with
  | nil => rfl
  | cons a as ih =>
    rw [List.cons_append, exec_cons, exec_cons, Option.bind_assoc]
    exact Option.bind_congr fun s' _ => ih s'

/-! ## reachable states -/

section
variable {C : σ → α → Prop} {I P : σ → Prop}

/-- **The invariant rule.** -/
theorem Reach.inv (h0 : ∀ s, I s → P s)
    (hstep : ∀ s a s', P s → C s a → step s a = some s' → P s') {s : σ}
    (h : Reach step C I s) : P s := by
  induction h with
  | start h => exact h0 _ h
  | next _ hc hs ih => exact hstep _ _ _ ih hc hs

theorem Reach.of_along {s t : σ} (h : Reach step C I s) (as : List α)
    (hC : Along step (fun s a _ => C s a) s as) (he : exec step s as = some t) :
    Reach step C I t := by
  induction as generalizing s with
  | nil =>
    obtain rfl : s = t := Option.some.inj he
    exact h
  | cons a as ih =>
    rw [exec_cons] at he
    obtain ⟨s', hs, he'⟩ := Option.bind_eq_some_iff.mp he
    obtain ⟨hc, hC'⟩ := hC s' hs
    exact ih (.next h hc hs) hC' he'

theorem along_free (as : List α) : ∀ s, Along step (fun s a _ => Free s a) s as := by
  induction as with
  | nil => intro s; trivial
  | cons a as ih => exact fun s s' _ => ⟨trivial, ih s'⟩

theorem Reach.of_exec_map {β : Type*} {s : σ} (h : I s) (as : List α)
    (hC : Along step (fun s a _ => C s a) s as) (f : σ → β) {b : β}
    (he : (exec step s as).map f = some b) : ∃ t, Reach step C I t ∧ f t = b := by
  obtain ⟨t, ht, hb⟩ := Option.map_eq_some_iff.mp he
  exact ⟨t, Reach.of_along (.start h) as hC ht, hb⟩

end

/-! ## properties of the states of a run -/

theorem Always.exec {P : σ → Prop} {s t : σ} {as : List α} (h : Always step P s as)
    (he : Runs.exec step s as = some t) : P t := by
  induction as generalizing s with
  | nil =>
    obtain rfl : s = t := Option.some.inj he
    exact h
  | cons a as ih =>
    rw [exec_cons] at he
    obtain ⟨s', hs, he'⟩ := Option.bind_eq_some_iff.mp he
    exact ih (h.2 s' hs) he'

/-! ## conditions along a run -/

section
variable {I P : σ → Prop} {C : σ → α → Prop} {Q Q' : σ → α → σ → Prop}

theorem along_cons_some {s t : σ} {a : α} (as : List α) (h : step s a = some t) :
    Along step Q s (a :: as) ↔ Q s a t ∧ Along step Q t as := by
  refine ⟨fun hQ => hQ t h, fun hQ s' hs => ?_⟩
  obtain rfl := Option.some.inj (h.symm.trans hs)
  exact hQ

theorem Along.of_append {s t : σ} {as bs : List α} (h : Along step Q s (as ++ bs))
    (he : exec step s as = some t) : Along step Q t bs := by
  induction as generalizing s with
  | nil =>
    obtain rfl : s = t := Option.some.inj he
    exact h
  | cons a as ih =>
    rw [exec_cons] at he
    obtain ⟨s', hs, he'⟩ := Option.bind_eq_some_iff.mp he
    exact ih (h s' hs).2 he'

theorem Along.left {s : σ} {as bs : List α} (h : Along step Q s (as ++ bs)) :
    Along step Q s as := by
  induction as generalizing s with
  | nil => trivial
  | cons a as ih => exact fun s' hs => ⟨(h s' hs).1, ih (h s' hs).2⟩

theorem along_cons_none {s : σ} {a : α} (as : List α) (h : step s a = none) :
    Along step Q s (a :: as) := by
  intro s' hs
  rw [h] at hs
  cases hs

/-- a condition that can be evaluated can be evaluated along a run -/
instance Along.decidable [∀ s a t, Decidable (Q s a t)] : ∀ s as, Decidable (Along step Q s as)
  | _, [] => .isTrue trivial
  | s, a :: as =>
    match h : step s a with
    | none => .isTrue (along_cons_none as h)
    | some t =>
      have := Along.decidable t as
      decidable_of_iff _ (along_cons_some as h).symm

/-- two step conditions that agree under an invariant agree along every run -/
theorem along_congr (hI : ∀ s a s', I s → step s a = some s' → I s')
    (hQ : ∀ s a s', I s → step s a = some s' → (Q s a s' ↔ Q' s a s')) (as : List α) :
    ∀ s, I s → (Along step Q s as ↔ Along step Q' s as) := by
  induction as with
  | nil => intro s _; exact Iff.rfl
  | cons a as ih =>
    intro s hs
    refine forall_congr' fun s' => forall_congr' fun h => ?_
    rw [hQ s a s' hs h, ih s' (hI s a s' hs h)]

/-- **The rule for a step property**: under the condition `C` the invariant `I` is kept and gives
`Q`. -/
theorem along_of_inv (keep : ∀ s a s', I s → step s a = some s' → C s a → I s')
    (prop : ∀ s a s', I s → step s a = some s' → C s a → Q s a s') (as : List α) :
    ∀ s, I s → Along step (fun s a _ => C s a) s as → Along step Q s as := by
  induction as with
  | nil => intro s _ _; trivial
  | cons a as ih =>
    intro s hs h s' hs'
    obtain ⟨hc, h'⟩ := h s' hs'
    exact ⟨prop s a s' hs hs' hc, ih s' (keep s a s' hs hs' hc) h'⟩

/-- **The rule for an exact condition on the steps**: where the invariant `I` holds, a step has the
property `Q` just when it meets `C`, which keeps `I`. -/
theorem along_iff_of_inv (keep : ∀ s a s', I s → step s a = some s' → C s a → I s')
    (hQ : ∀ s a s', I s → step s a = some s' → (Q s a s' ↔ C s a)) (as : List α) :
    ∀ s, I s → (Along step Q s as ↔ Along step (fun s a _ => C s a) s as) := by
  induction as with
  | nil => intro s _; exact Iff.rfl
  | cons a as ih =>
    intro s hs
    refine forall_congr' fun s' => forall_congr' fun hs' => ?_
    rw [hQ s a s' hs hs']
    exact and_congr_right fun hc => ih s' (keep s a s' hs hs' hc)

/-- an invariant that the condition `C` keeps holds in every state of a run that meets it -/
theorem always_of_inv (keep : ∀ s a s', I s → step s a = some s' → C s a → I s') (as : List α) :
    ∀ s, I s → Along step (fun s a _ => C s a) s as → Always step I s as := by
  induction as with
  | nil => intro s hs _; exact hs
  | cons a as ih =>
    intro s hs h
    refine ⟨hs, fun s' hs' => ?_⟩
    obtain ⟨hc, h'⟩ := h s' hs'
    exact ih s' (keep s a s' hs hs' hc) h'

theorem always_of_keep (hP : ∀ s, I s → P s) (keep : ∀ s a s', I s → step s a = some s' → I s')
    (as : List α) : ∀ s, I s → Always step P s as := by
  induction as with
  | nil => exact fun s hs => hP s hs
  | cons a as ih => exact fun s hs => ⟨hP s hs, fun s' hs' => ih s' (keep s a s' hs hs')⟩

/-- **The rule for an exact condition**: `C` keeps the invariant `I`, which gives `P`, and a
step against `C` breaks `P` in the next state. -/
theorem always_iff_along (hP : ∀ s, I s → P s)
    (keep : ∀ s a s', I s → step s a = some s' → C s a → I s')
    (fail : ∀ s a s', I s → step s a = some s' → ¬ C s a → ¬ P s') (as : List α) :
    ∀ s, I s → (Always step P s as ↔ Along step (fun s a _ => C s a) s as) := by
  induction as with
  | nil => intro s hs; exact ⟨fun _ => trivial, fun _ => hP s hs⟩
  | cons a as ih =>
    intro s hs
    constructor
    · rintro ⟨_, h⟩ s' hs'
      by_cases hc : C s a
      · exact ⟨hc, (ih s' (keep s a s' hs hs' hc)).mp (h s' hs')⟩
      · -- the run itself visits `s'`, where `P` fails
        have hP' : P s' := by
          have h' := h s' hs'
          cases as with
          | nil => exact h'
          | cons b bs => exact h'.1
        exact absurd hP' (fail s a s' hs hs' hc)
    · intro h
      refine ⟨hP s hs, fun s' hs' => ?_⟩
      obtain ⟨hc, h'⟩ := h s' hs'
      exact (ih s' (keep s a s' hs hs' hc)).mpr h'

end

/-! ## a run of two systems -/

section
variable {τ : Type*} {step' : τ → α → Option τ} {R : σ → τ → Prop} {A : α → Prop}

theorem rel_bind {σ' τ' : Type*} {S : σ' → τ' → Prop} {x : Option σ} {y : Option τ}
    {f : σ → Option σ'} {g : τ → Option τ'} (h : Option.Rel R x y)
    (hf : ∀ s t, R s t → Option.Rel S (f s) (g t)) : Option.Rel S (x.bind f) (y.bind g) := by
  cases h with
  | some h => exact hf _ _ h
  | none => exact .none

theorem rel_map {σ' τ' : Type*} {S : σ' → τ' → Prop} {x : Option σ} {y : Option τ} {f : σ → σ'}
    {g : τ → τ'} (h : Option.Rel R x y) (hf : ∀ s t, R s t → S (f s) (g t)) :
    Option.Rel S (x.map f) (y.map g) := by
  cases h with
  | some h => exact .some (hf _ _ h)
  | none => exact .none

/-- **Two systems in step**: actions that meet `A` are enabled in both or in neither and keep the
relation, so do whole runs. -/
theorem exec_rel (hstep : ∀ s t a, R s t → A a → Option.Rel R (step s a) (step' t a))
    (as : List α) : ∀ s t, R s t → (∀ a ∈ as, A a) →
      Option.Rel R (exec step s as) (exec step' t as) := by
  induction as with
  | nil => exact fun s t h _ => .some h
  | cons a as ih =>
    intro s t h hA
    rw [exec_cons, exec_cons]
    apply rel_bind (hstep s t a h (hA a List.mem_cons_self))
    exact fun s' t' h' => ih s' t' h' fun b hb => hA b (List.mem_cons_of_mem a hb)

end

/-! ## steps that have a result -/

section
variable {I : σ → Prop} {C : σ → α → Prop} {A : α → Prop}

/-- every step meets `C`, in the state before it -/
def Meets (step : σ → α → Option σ) (C : σ → α → Prop) : σ → List α → Prop
  | _, [] => True
  | s, a :: as => C s a ∧ ∀ s', step s a = some s' → Meets step C s' as

/-- **The rule for a condition on the results**: where `C` says which steps have a result, it says
which runs have one. -/
theorem isSome_exec_iff (hI : ∀ s a s', I s → A a → step s a = some s' → I s')
    (hC : ∀ s a, I s → A a → ((step s a).isSome = true ↔ C s a)) (as : List α) :
    ∀ s, I s → (∀ a ∈ as, A a) → ((exec step s as).isSome = true ↔ Meets step C s as) := by
  induction as with
  | nil => exact fun s _ _ => ⟨fun _ => trivial, fun _ => rfl⟩
  | cons a as ih =>
    intro s hs hA
    have ha := hA a List.mem_cons_self
    have has : ∀ b ∈ as, A b := fun b hb => hA b (List.mem_cons_of_mem a hb)
    rw [exec_cons, Meets, ← hC s a hs ha]
    cases hstep : step s a with
    | none =>
      rw [Option.bind_none]
      exact ⟨fun h => (by cases h), fun h => absurd h.1 Bool.false_ne_true⟩
    | some s' =>
      rw [Option.bind_some, ih s' (hI s a s' hs ha hstep) has]
      constructor
      · intro h
        refine ⟨rfl, fun s₁ hs₁ => ?_⟩
        obtain rfl := Option.some.inj hs₁
        exact h
      · intro h
        exact h.2 s' rfl

theorem meets_cons_some {s t : σ} {a : α} (as : List α) (h : step s a = some t) :
    Meets step C s (a :: as) ↔ C s a ∧ Meets step C t as := by
  refine and_congr_right fun _ => ⟨fun hM => hM t h, fun hM s' hs => ?_⟩
  obtain rfl := Option.some.inj (h.symm.trans hs)
  exact hM

/-- a condition on the steps that can be evaluated can be evaluated along a run -/
instance Meets.decidable [∀ s a, Decidable (C s a)] : ∀ s as, Decidable (Meets step C s as)
  | _, [] => .isTrue trivial
  | s, a :: as =>
    match h : step s a with
    | none => decidable_of_iff (C s a) ⟨fun hc => ⟨hc, fun s' hs => by rw [h] at hs; cases hs⟩,
        fun hM => hM.1⟩
    | some t =>
      have := Meets.decidable t as
      decidable_of_iff _ (meets_cons_some as h).symm

theorem Meets.of_append {s t : σ} {as bs : List α} (h : Meets step C s (as ++ bs))
    (he : exec step s as = some t) : Meets step C t bs := by
  induction as generalizing s with
  | nil =>
    obtain rfl : s = t := Option.some.inj he
    exact h
  | cons a as ih =>
    rw [exec_cons] at he
    obtain ⟨s', hs, he'⟩ := Option.bind_eq_some_iff.mp he
    exact ih (h.2 s' hs) he'

/-- **The rule for an exact condition on all steps**, those without a result too: where the
invariant `I` holds, a step has the property `Q` just when it meets `C`, which keeps `I`. -/
theorem meets_iff_of_inv {Q : σ → α → Prop}
    (keep : ∀ s a s', I s → step s a = some s' → C s a → I s')
    (hQ : ∀ s a, I s → (Q s a ↔ C s a)) (as : List α) :
    ∀ s, I s → (Meets step Q s as ↔ Meets step C s as) := by
  induction as with
  | nil => intro s _; exact Iff.rfl
  | cons a as ih =>
    intro s hs
    rw [Meets, Meets, hQ s a hs]
    refine and_congr_right fun hc => forall_congr' fun s' => forall_congr' fun hs' => ?_
    exact ih s' (keep s a s' hs hs' hc)

/-- **The rule for steps that have a result**: a step that meets `C` where `I` holds has one, keeps
`I` and meets `Q`. -/
theorem exec_of_meets {Q : σ → α → σ → Prop}
    (hstep : ∀ s a, I s → C s a → ∃ s', step s a = some s' ∧ I s' ∧ Q s a s') (as : List α) :
    ∀ s, I s → Meets step C s as →
      (exec step s as).isSome = true ∧ Always step I s as ∧ Along step Q s as := by
  induction as with
  | nil => exact fun s hs _ => ⟨rfl, hs, trivial⟩
  | cons a as ih =>
    intro s hs h
    obtain ⟨s', hs', hI, hQ⟩ := hstep s a hs h.1
    obtain ⟨hexec, halways, halong⟩ := ih s' hI (h.2 s' hs')
    refine ⟨?_, ⟨hs, fun s₁ hs₁ => ?_⟩, (along_cons_some as hs').mpr ⟨hQ, halong⟩⟩
    · rw [exec_cons, hs', Option.bind_some]
      exact hexec
    · obtain rfl := Option.some.inj (hs'.symm.trans hs₁)
      exact halways

/-- a property that no step repairs holds before a run that ends with it -/
theorem of_exec {P : σ → Prop} (back : ∀ s a s', step s a = some s' → P s' → P s) {as : List α} :
    ∀ {s t : σ}, exec step s as = some t → P t → P s := by
  induction as with
  | nil =>
    intro s t h ht
    obtain rfl : s = t := Option.some.inj h
    exact ht
  | cons a as ih =>
    intro s t h ht
    rw [exec_cons] at h
    obtain ⟨s', hs', h'⟩ := Option.bind_eq_some_iff.mp h
    exact back s a s' hs' (ih h' ht)

/-- **The rule for an exact condition on a run**: a step that meets `C` where `I` holds has a result
and keeps `I`, which gives `P`; one that does not has none or breaks `P`, and no step repairs `P`. -/
theorem exec_iff_meets {P : σ → Prop} (hP : ∀ s, I s → P s)
    (keep : ∀ s a, I s → C s a → ∃ s', step s a = some s' ∧ I s')
    (fail : ∀ s a s', I s → step s a = some s' → P s' → C s a)
    (back : ∀ s a s', step s a = some s' → P s' → P s) (as : List α) :
    ∀ s, I s → ((∃ t, exec step s as = some t ∧ P t) ↔ Meets step C s as) := by
  induction as with
  | nil => exact fun s hs => ⟨fun _ => trivial, fun _ => ⟨s, rfl, hP s hs⟩⟩
  | cons a as ih =>
    intro s hs
    rw [exec_cons]
    constructor
    · rintro ⟨t, h, ht⟩
      obtain ⟨s₁, hs₁, h'⟩ := Option.bind_eq_some_iff.mp h
      have hc := fail s a s₁ hs hs₁ (of_exec back h' ht)
      refine ⟨hc, fun s' hs' => ?_⟩
      obtain ⟨s₂, hs₂, hI⟩ := keep s a hs hc
      obtain rfl := Option.some.inj (hs₁.symm.trans hs')
      obtain rfl := Option.some.inj (hs₁.symm.trans hs₂)
      exact (ih s₁ hI).mp ⟨t, h', ht⟩
    · intro h
      obtain ⟨s', hs', hI⟩ := keep s a hs h.1
      rw [hs', Option.bind_some]
      exact (ih s' hI).mpr (h.2 s' hs')

theorem exec_eq_of_step {f : List α → σ} (h : ∀ l a, A a → step (f l) a = some (f (l ++ [a])))
    (as : List α) : ∀ l, (∀ a ∈ as, A a) → exec step (f l) as = some (f (l ++ as)) := by
  induction as with
  | nil =>
    intro l _
    rw [List.append_nil]
    rfl
  | cons a as ih =>
    intro l hA
    rw [exec_cons, h l a (hA a List.mem_cons_self), Option.bind_some,
      ih (l ++ [a]) fun b hb => hA b (List.mem_cons_of_mem a hb), List.append_assoc]
    rfl

theorem forall_of_exec (h : ∀ s a s', step s a = some s' → A a) {as : List α} :
    ∀ {s t : σ}, exec step s as = some t → ∀ a ∈ as, A a := by
  induction as with
  | nil => exact fun _ a ha => absurd ha List.not_mem_nil
  | cons a as ih =>
    intro s t he b hb
    rw [exec_cons] at he
    obtain ⟨s', hs', he'⟩ := Option.bind_eq_some_iff.mp he
    rcases List.mem_cons.mp hb with rfl | hb
    · exact h s b s' hs'
    · exact ih he' b hb

end

end PMROS2.Runs
