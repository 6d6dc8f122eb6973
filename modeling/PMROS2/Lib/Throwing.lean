import Mathlib.Logic.Function.Basic

/-!
# Computations that throw and keep their state

`EStateM ε σ`: an exception leaves the state as it was at that point, as it does in a language with
mutable objects.

* `after x s`      the state that `x` leaves behind, whether it returns or throws;
* `Keeps f x`      what `f` reads of the state is the same before and after `x`;
* `Ensures P x Q E`   from a state with `P` the computation returns to one with `Q`, or throws in one
  with `E`.
-/

namespace PMROS2.Throwing

variable {ε σ τ α β : Type}

def throwIf (p : Bool) (e : ε) : EStateM ε σ Unit := if p then throw e else pure ()

/-! ## computations in a sequence -/

theorem get_bind (k : σ → EStateM ε σ β) (s : σ) : (get >>= k).run s = (k s).run s := rfl

theorem modify_bind (g : σ → σ) (k : Unit → EStateM ε σ β) (s : σ) :
    (modify g >>= k).run s = (k ()).run (g s) := rfl

theorem bind_ok {x : EStateM ε σ α} {k : α → EStateM ε σ β} {s s' : σ} {a : α}
    (h : x.run s = .ok a s') : (x >>= k).run s = (k a).run s' := by
  show EStateM.bind x k s = _
  unfold EStateM.bind
  rw [show x s = _ from h]
  rfl

theorem bind_error {x : EStateM ε σ α} {k : α → EStateM ε σ β} {s s' : σ} {e : ε}
    (h : x.run s = .error e s') : (x >>= k).run s = .error e s' := by
  show EStateM.bind x k s = _
  unfold EStateM.bind
  rw [show x s = _ from h]

theorem tryCatch_ok {x : EStateM ε σ α} {k : ε → EStateM ε σ α} {s s' : σ} {a : α}
    (h : x.run s = .ok a s') : (tryCatch x k).run s = .ok a s' := by
  show EStateM.tryCatch x k s = _
  unfold EStateM.tryCatch
  simp only [show x s = _ from h]

theorem tryCatch_error {x : EStateM ε σ α} {k : ε → EStateM ε σ α} {s s' : σ} {e : ε}
    (h : x.run s = .error e s') : (tryCatch x k).run s = (k e).run s' := by
  show EStateM.tryCatch x k s = _
  unfold EStateM.tryCatch
  simp only [show x s = _ from h]
  rfl

/-! ## the state that is left behind -/

def after (x : EStateM ε σ α) (s : σ) : σ :=
  match x.run s with
  | .ok _ s' => s'
  | .error _ s' => s'

theorem after_ok {x : EStateM ε σ α} {s s' : σ} {a : α} (h : x.run s = .ok a s') :
    after x s = s' := by
  unfold after
  rw [h]

theorem after_error {x : EStateM ε σ α} {s s' : σ} {e : ε} (h : x.run s = .error e s') :
    after x s = s' := by
  unfold after
  rw [h]

/-! ## what a computation does not touch -/

def Keeps (f : σ → τ) (x : EStateM ε σ α) : Prop := ∀ s, f (after x s) = f s

variable {f : σ → τ}

theorem Keeps.pure (a : α) : Keeps f (Pure.pure a : EStateM ε σ α) := fun _ => rfl

theorem Keeps.throw (e : ε) : Keeps f (MonadExcept.throw e : EStateM ε σ α) := fun _ => rfl

theorem Keeps.get : Keeps f (MonadState.get : EStateM ε σ σ) := fun _ => rfl

theorem Keeps.modify {g : σ → σ} (h : ∀ s, f (g s) = f s) :
    Keeps f (modify g : EStateM ε σ PUnit) := h

theorem Keeps.ite {p : Prop} [Decidable p] {x y : EStateM ε σ α} (hx : Keeps f x)
    (hy : Keeps f y) : Keeps f (if p then x else y) := by
  split
  · exact hx
  · exact hy

theorem Keeps.throwIf (p : Bool) (e : ε) : Keeps f (Throwing.throwIf p e : EStateM ε σ Unit) :=
  Keeps.ite (Keeps.throw e) (Keeps.pure ())

theorem Keeps.bind {x : EStateM ε σ α} {k : α → EStateM ε σ β} (hx : Keeps f x)
    (hk : ∀ a, Keeps f (k a)) : Keeps f (x >>= k) := by
  intro s
  have hs := hx s
  cases h : x.run s with
  | error e s' =>
    rw [after_error h] at hs
    rw [after_error (bind_error h), hs]
  | ok a s' =>
    rw [after_ok h] at hs
    have hafter : after (x >>= k) s = after (k a) s' := by
      unfold after
      rw [bind_ok h]
    rw [hafter, hk a s', hs]

/-! ## what a computation brings about -/

/-- the outcome meets `Q` when it is a value and `E` when it is an exception -/
def Outcome (Q : α → σ → Prop) (E : σ → Prop) : EStateM.Result ε σ α → Prop
  | .ok a s => Q a s
  | .error _ s => E s

def Ensures (P : σ → Prop) (x : EStateM ε σ α) (Q : α → σ → Prop) (E : σ → Prop) : Prop :=
  ∀ s, P s → Outcome Q E (x.run s)

section
variable {P P' E E' : σ → Prop} {Q Q' : α → σ → Prop}

/-- a computation whose outcomes all meet `E` leaves a state that does -/
theorem Ensures.after {x : EStateM ε σ α} (h : Ensures P x (fun _ => E) E) {s : σ} (hs : P s) :
    E (after x s) := by
  have hs' := h s hs
  unfold Throwing.after
  cases hx : x.run s with
  | ok a s' =>
    rw [hx] at hs'
    exact hs'
  | error e s' =>
    rw [hx] at hs'
    exact hs'

theorem Ensures.weaken {x : EStateM ε σ α} (h : Ensures P x Q E) (hP : ∀ s, P' s → P s)
    (hQ : ∀ a s, Q a s → Q' a s) (hE : ∀ s, E s → E' s) : Ensures P' x Q' E' := by
  intro s hs
  have hs' := h s (hP s hs)
  cases hx : x.run s with
  | ok a s' =>
    rw [hx] at hs'
    exact hQ a s' hs'
  | error e s' =>
    rw [hx] at hs'
    exact hE s' hs'

theorem Ensures.pure {a : α} (h : ∀ s, P s → Q a s) :
    Ensures P (Pure.pure a : EStateM ε σ α) Q E := h

theorem Ensures.throw {e : ε} (h : ∀ s, P s → E s) :
    Ensures P (MonadExcept.throw e : EStateM ε σ α) Q E := h

theorem Ensures.modify {g : σ → σ} {Q : PUnit → σ → Prop} (h : ∀ s, P s → Q ⟨⟩ (g s)) :
    Ensures P (modify g : EStateM ε σ PUnit) Q E := h

theorem Ensures.get_bind {k : σ → EStateM ε σ β} {Q : β → σ → Prop}
    (h : ∀ s, P s → Ensures (fun t => t = s) (k s) Q E) : Ensures P (get >>= k) Q E :=
  fun s hs => h s hs s rfl

theorem Ensures.get_self {s : σ} {k : σ → EStateM ε σ β} {Q : β → σ → Prop}
    (h : Ensures (fun t => t = s) (k s) Q E) : Ensures (fun t => t = s) (get >>= k) Q E :=
  fun t ht => by
    subst ht
    exact h t rfl

theorem Ensures.bind {x : EStateM ε σ α} {k : α → EStateM ε σ β} {R : β → σ → Prop}
    (hx : Ensures P x Q E) (hk : ∀ a, Ensures (Q a) (k a) R E) : Ensures P (x >>= k) R E := by
  intro s hs
  have hs' := hx s hs
  cases h : x.run s with
  | ok a s' =>
    rw [h] at hs'
    rw [bind_ok h]
    exact hk a s' hs'
  | error e s' =>
    rw [h] at hs'
    rw [bind_error h]
    exact hs'

theorem Ensures.ite {p : Prop} [Decidable p] {x y : EStateM ε σ α} (hx : p → Ensures P x Q E)
    (hy : ¬ p → Ensures P y Q E) : Ensures P (if p then x else y) Q E := by
  split
  · rename_i h
    exact hx h
  · rename_i h
    exact hy h

theorem Ensures.throwIf {p : Bool} {e : ε} {Q : Unit → σ → Prop}
    (hQ : ∀ s, P s → p = false → Q () s) (hE : ∀ s, P s → p = true → E s) :
    Ensures P (Throwing.throwIf p e : EStateM ε σ Unit) Q E := by
  unfold Throwing.throwIf
  refine Ensures.ite (fun h => Ensures.throw fun s hs => hE s hs h) fun h => ?_
  exact Ensures.pure fun s hs => hQ s hs (Bool.eq_false_iff.mpr h)

theorem Ensures.tryCatch {x : EStateM ε σ α} {k : ε → EStateM ε σ α} (hx : Ensures P x Q E')
    (hk : ∀ e, Ensures E' (k e) Q E) : Ensures P (MonadExcept.tryCatch x k) Q E := by
  intro s hs
  have hs' := hx s hs
  cases h : x.run s with
  | ok a s' =>
    rw [h] at hs'
    rw [tryCatch_ok h]
    exact hs'
  | error e s' =>
    rw [h] at hs'
    rw [tryCatch_error h]
    exact hk e s' hs'

end

end PMROS2.Throwing
