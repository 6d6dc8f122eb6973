import PMROS2.Lib.Runs

/-!
# Simulation

`Refines R S p q`: started in states that are related by `R`, the computation `p` throws what `q`
throws, or returns what `q` returns, in states that are related by `S` of the returned value.

`Follows step Q s as r M`: the run of a transition function over the actions `as` does what the
result `r` of a recursive computation says.  Where `r` is a value, the run ends in a state that
`M` relates to it; where `r` is `stop`, the run stops; where `r` is `outside`, a step of the run
does not meet `Q`, and nothing is said about the rest.  `Follows.bind` puts two such runs in a
sequence.  `Inside r P`: the computation itself does not end `outside`, and its value meets `P`.
-/

namespace PMROS2.Simulation

variable {σ τ ε α β : Type} {p : StateT σ (Except ε) α} {q : StateT τ (Except ε) α}

/-! ## computations in a sequence -/

theorem run_bind_ok {f : α → StateT σ (Except ε) β} {s s' : σ} {a : α}
    (h : p.run s = .ok (a, s')) : (p >>= f).run s = (f a).run s' := by
  rw [StateT.run_bind, h]
  rfl

theorem run_bind_error {f : α → StateT σ (Except ε) β} {s : σ} {e : ε}
    (h : p.run s = .error e) : (p >>= f).run s = .error e := by
  rw [StateT.run_bind, h]
  rfl

theorem bind_eq_ok {x : Except ε α} {f : α → Except ε β} {b : β} :
    x >>= f = .ok b ↔ ∃ a, x = .ok a ∧ f a = .ok b := by
  cases x with
  | error e =>
    refine ⟨fun h => ?_, fun ⟨a, h, _⟩ => ?_⟩ <;> cases h
  | ok a =>
    refine ⟨fun h => ⟨a, rfl, h⟩, fun ⟨a', h, h'⟩ => ?_⟩
    cases h
    exact h'

theorem toOption_bind (x : Except ε α) (f : α → Except ε β) :
    (x >>= f).toOption = x.toOption.bind fun a => (f a).toOption := by
  cases x <;> rfl

theorem toOption_mapM (f : α → Except ε β) (l : List α) :
    (l.mapM f).toOption = l.mapM fun a => (f a).toOption := by
  induction l with
  | nil => rfl
  | cons a l ih =>
    rw [List.mapM_cons, List.mapM_cons, toOption_bind]
    refine congrArg _ (funext fun b => ?_)
    rw [toOption_bind, ih]
    rfl

theorem mapM_congr {f g : α → Option β} {l : List α} (h : ∀ a ∈ l, f a = g a) :
    l.mapM f = l.mapM g := by
  induction l with
  | nil => rfl
  | cons a l ih =>
    rw [List.mapM_cons, List.mapM_cons, h a List.mem_cons_self,
      ih fun b hb => h b (List.mem_cons_of_mem _ hb)]

theorem mapM_eq_some_iff {f : α → Option β} {l : List α} {l' : List β} :
    l.mapM f = some l' ↔ l.map f = l'.map some := by
  induction l generalizing l' with
  | nil => cases l' <;> simp
  | cons a l ih =>
    rw [List.mapM_cons, List.map_cons]
    cases hf : f a with
    | none => cases l' <;> simp
    | some b =>
      cases l' with
      | nil => cases h : l.mapM f <;> simp
      | cons c l' =>
        rw [List.map_cons, List.cons.injEq, Option.some.injEq, ← ih]
        cases h : l.mapM f <;> simp

theorem mapM_eq_none_iff {f : α → Option β} {l : List α} :
    l.mapM f = none ↔ ∃ a ∈ l, f a = none := by
  induction l with
  | nil => exact ⟨fun h => (by cases h), fun ⟨a, ha, _⟩ => absurd ha List.not_mem_nil⟩
  | cons a l ih =>
    rw [List.mapM_cons]
    cases hf : f a with
    | none => exact ⟨fun _ => ⟨a, List.mem_cons_self, hf⟩, fun _ => rfl⟩
    | some b =>
      have htail : (do let b ← some b; let l ← l.mapM f; pure (b :: l)) = none ↔
          l.mapM f = none := by
        cases l.mapM f <;> simp
      rw [htail, ih]
      constructor
      · rintro ⟨c, hc, hnone⟩
        exact ⟨c, List.mem_cons_of_mem _ hc, hnone⟩
      · rintro ⟨c, hc, hnone⟩
        rcases List.mem_cons.mp hc with rfl | hc
        · rw [hf] at hnone
          cases hnone
        · exact ⟨c, hc, hnone⟩

theorem bind_eq_error {x : Except ε α} {f : α → Except ε β} {e : ε} :
    x >>= f = .error e ↔ x = .error e ∨ ∃ a, x = .ok a ∧ f a = .error e := by
  cases x with
  | error e' =>
    constructor
    · intro h
      obtain rfl := Except.error.inj h
      exact .inl rfl
    · rintro (h | ⟨a, h, _⟩)
      · obtain rfl := Except.error.inj h
        rfl
      · cases h
  | ok a =>
    constructor
    · exact fun h => .inr ⟨a, rfl, h⟩
    · rintro (h | ⟨a', h, hf⟩)
      · cases h
      · obtain rfl := Except.ok.inj h
        exact hf

theorem foldlM_inv {f : β → α → Except ε β} {P : β → Prop}
    (hf : ∀ b a b', P b → f b a = .ok b' → P b') (l : List α) :
    ∀ b b', P b → l.foldlM f b = .ok b' → P b' := by
  induction l with
  | nil =>
    intro b b' hb h
    obtain rfl := Except.ok.inj h
    exact hb
  | cons a l ih =>
    intro b b' hb h
    rw [List.foldlM_cons] at h
    obtain ⟨b₁, h₁, h⟩ := bind_eq_ok.mp h
    exact ih b₁ b' (hf b a b₁ hb h₁) h

theorem mem_of_mapM_eq_ok {f : α → Except ε β} {l : List α} {l' : List β}
    (h : l.mapM f = .ok l') {b : β} (hb : b ∈ l') : ∃ a ∈ l, f a = .ok b := by
  induction l generalizing l' with
  | nil =>
    obtain rfl := Except.ok.inj h
    cases hb
  | cons a l ih =>
    rw [List.mapM_cons] at h
    obtain ⟨b₁, h₁, h⟩ := bind_eq_ok.mp h
    obtain ⟨l₁, hl₁, h⟩ := bind_eq_ok.mp h
    obtain rfl := Except.ok.inj h
    rcases List.mem_cons.mp hb with rfl | hb
    · exact ⟨a, List.mem_cons_self, h₁⟩
    · obtain ⟨a', ha', hf⟩ := ih hl₁ hb
      exact ⟨a', List.mem_cons_of_mem a ha', hf⟩

theorem exists_of_mapM_eq_ok {f : α → Except ε β} {l : List α} {l' : List β}
    (h : l.mapM f = .ok l') {a : α} (ha : a ∈ l) : ∃ b ∈ l', f a = .ok b := by
  induction l generalizing l' with
  | nil => cases ha
  | cons a' l ih =>
    rw [List.mapM_cons] at h
    obtain ⟨b, hb, h⟩ := bind_eq_ok.mp h
    obtain ⟨l₁, hl₁, h⟩ := bind_eq_ok.mp h
    obtain rfl := Except.ok.inj h
    rcases List.mem_cons.mp ha with rfl | ha
    · exact ⟨b, List.mem_cons_self, hb⟩
    · obtain ⟨b', hb', hf⟩ := ih hl₁ ha
      exact ⟨b', List.mem_cons_of_mem b hb', hf⟩

/-! ## refinement -/

def Refines (R : σ → τ → Prop) (S : α → σ → τ → Prop) (p : StateT σ (Except ε) α)
    (q : StateT τ (Except ε) α) : Prop :=
  ∀ s t, R s t →
    match q.run t with
    | .ok (a, t') => ∃ s', p.run s = .ok (a, s') ∧ S a s' t'
    | .error e => p.run s = .error e

variable {R R' : σ → τ → Prop} {S S' : α → σ → τ → Prop} {T : β → σ → τ → Prop}

theorem Refines.pure {a : α} (h : ∀ s t, R s t → S a s t) :
    Refines R S (Pure.pure a : StateT σ (Except ε) α) (Pure.pure a) :=
  fun s t hR => ⟨s, rfl, h s t hR⟩

theorem Refines.throw (e : ε) :
    Refines R S (MonadExcept.throw e : StateT σ (Except ε) α) (MonadExcept.throw e) :=
  fun _ _ _ => rfl

theorem Refines.bind {f : α → StateT σ (Except ε) β} {g : α → StateT τ (Except ε) β}
    (hp : Refines R S p q) (hf : ∀ a, Refines (S a) T (f a) (g a)) :
    Refines R T (p >>= f) (q >>= g) := by
  intro s t hR
  have h := hp s t hR
  rw [StateT.run_bind, StateT.run_bind]
  cases hq : q.run t with
  | error e =>
    rw [hq] at h
    rw [show p.run s = .error e from h]
    rfl
  | ok r =>
    obtain ⟨a, t'⟩ := r
    rw [hq] at h
    obtain ⟨s', hs, hS⟩ := h
    rw [hs]
    exact hf a s' t' hS

theorem Refines.mono (hp : Refines R S p q) (hR : ∀ s t, R' s t → R s t)
    (hS : ∀ a s t, S a s t → S' a s t) : Refines R' S' p q := by
  intro s t h
  have h' := hp s t (hR s t h)
  cases hq : q.run t with
  | error e =>
    rw [hq] at h'
    exact h'
  | ok r =>
    rw [hq] at h'
    obtain ⟨s', hs, hS'⟩ := h'
    exact ⟨s', hs, hS r.1 s' r.2 hS'⟩

theorem Refines.ite {c : Prop} [Decidable c] {p' : StateT σ (Except ε) α}
    {q' : StateT τ (Except ε) α} (h : c → Refines R S p q) (h' : ¬ c → Refines R S p' q') :
    Refines R S (if c then p else p') (if c then q else q') := by
  split
  next hc => exact h hc
  next hc => exact h' hc

theorem Refines.gets {f : σ → α} {g : τ → α} (h : ∀ s t, R s t → f s = g t ∧ S (f s) s t) :
    Refines R S (fun s => .ok (f s, s) : StateT σ (Except ε) α) (fun t => .ok (g t, t)) := by
  intro s t hR
  obtain ⟨hfg, hS⟩ := h s t hR
  exact ⟨s, by rw [← hfg]; rfl, hfg ▸ hS⟩

/-! ## a run that follows a recursive computation -/

inductive Halt where
  | stop
  | outside
  deriving DecidableEq

section
open Runs
variable {σ α ρ ρ' : Type} (step : σ → α → Option σ) (Q : σ → α → σ → Prop)

def Follows (s : σ) (as : List α) (r : Except Halt ρ) (M : σ → ρ → Prop) : Prop :=
  match r with
  | .ok x => ∃ t, exec step s as = some t ∧ M t x
  | .error .stop => exec step s as = none
  | .error .outside => ¬ Along step Q s as

variable {step Q} {s : σ} {as bs : List α} {r : Except Halt ρ} {M : σ → ρ → Prop}

theorem Follows.pure {x : ρ} (h : M s x) : Follows step Q s [] (.ok x) M := ⟨s, rfl, h⟩

theorem Follows.bind {f : ρ → Except Halt ρ'} {M' : σ → ρ' → Prop}
    (h : Follows step Q s as r M)
    (hf : ∀ t x, r = .ok x → M t x → Follows step Q t bs (f x) M') :
    Follows step Q s (as ++ bs) (r >>= f) M' := by
  cases r with
  | ok x =>
    obtain ⟨t, ht, hM⟩ := h
    have h' := hf t x rfl hM
    change Follows step Q s (as ++ bs) (f x) M'
    cases hx : f x with
    | ok y =>
      rw [hx] at h'
      obtain ⟨u, hu, hM'⟩ := h'
      exact ⟨u, by rw [exec_append, ht]; exact hu, hM'⟩
    | error e =>
      rw [hx] at h'
      cases e with
      | stop =>
        change exec step s (as ++ bs) = none
        rw [exec_append, ht]
        exact h'
      | outside => exact fun hQ => h' (hQ.of_append ht)
  | error e =>
    cases e with
    | stop =>
      change exec step s (as ++ bs) = none
      rw [exec_append, show exec step s as = none from h]
      rfl
    | outside => exact fun hQ => h hQ.left

theorem Follows.mono {M' : σ → ρ → Prop} (h : Follows step Q s as r M)
    (hM : ∀ t x, r = .ok x → M t x → M' t x) : Follows step Q s as r M' := by
  cases r with
  | ok x =>
    obtain ⟨t, ht, hx⟩ := h
    exact ⟨t, ht, hM t x rfl hx⟩
  | error e =>
    cases e with
    | stop => exact h
    | outside => exact h

theorem Follows.cons {a : α} {t : σ} (hs : step s a = some t) (h : Follows step Q t as r M) :
    Follows step Q s (a :: as) r M := by
  have h1 : Follows step Q s [a] (.ok ()) (fun u _ => u = t) := ⟨t, by rw [exec_cons, hs]; rfl, rfl⟩
  exact h1.bind (f := fun _ => r) fun u _ _ hu => hu ▸ h

theorem Follows.stop {a : α} (hs : step s a = none) :
    Follows step Q s (a :: as) (.error .stop : Except Halt ρ) M := by
  change exec step s (a :: as) = none
  rw [exec_cons, hs]
  rfl

theorem Follows.outside {a : α} {t : σ} (hs : step s a = some t) (hQ : ¬ Q s a t) :
    Follows step Q s (a :: as) (.error .outside : Except Halt ρ) M :=
  fun h => hQ (h t hs).1

/-- a run to its end is followed to its end, where its steps meet the condition -/
theorem Follows.ok {t : σ} (h : Follows step Q s as r M) (hs : exec step s as = some t)
    (hQ : r = .error .outside → Along step Q s as) : ∃ x, r = .ok x ∧ M t x := by
  cases r with
  | ok x =>
    obtain ⟨u, hu, hM⟩ := h
    obtain rfl := Option.some.inj (hs.symm.trans hu)
    exact ⟨x, rfl, hM⟩
  | error e =>
    cases e with
    | stop => cases hs.symm.trans h
    | outside => exact absurd (hQ rfl) h

/-- the computation does not leave the condition, and what it returns meets `P` -/
def Inside (r : Except Halt ρ) (P : ρ → Prop) : Prop :=
  match r with
  | .ok x => P x
  | .error e => e = .stop

theorem Inside.bind {P : ρ → Prop} {f : ρ → Except Halt ρ'} {P' : ρ' → Prop} (h : Inside r P)
    (hf : ∀ x, r = .ok x → P x → Inside (f x) P') : Inside (r >>= f) P' := by
  cases r with
  | ok x => exact hf x rfl h
  | error e => exact h

theorem Inside.mono {P P' : ρ → Prop} (h : Inside r P) (hP : ∀ x, r = .ok x → P x → P' x) :
    Inside r P' := by
  cases r with
  | ok x => exact hP x rfl h
  | error e => exact h

theorem Inside.ok {P : ρ → Prop} {x : ρ} (h : Inside r P) (hr : r = .ok x) : P x := by
  rw [hr] at h
  exact h

end

end PMROS2.Simulation
