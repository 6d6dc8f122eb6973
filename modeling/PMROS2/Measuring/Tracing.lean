import PMROS2.Lib.Checked
import PMROS2.Measuring.InfluxWriter

/-!
# Tracing messages

`TracingPublisherMessageTracker` numbers the messages of a publisher so that they can be followed
over several hops.  The identifier is kept in the message: 0 stands for a message that has none, and
the tracker writes to the caller's object behind the `const` of `publish`.

`Publisher` is a publisher with the message objects of its process.  Beside the tracking variables
an object carries the identifier that was assigned to it elsewhere, by the user or by another
publisher, if any; `sent` are the messages handed to `rcl_publish`.

* `Traced`                assigned identifiers are forwarded, the others are numbered upwards;
* `Unnumbered`            a message without an assigned identifier is published with 0;
* `identifiers_traced_iff`  the first holds of a run just when its steps meet the second.
-/

set_option linter.unusedSectionVars false

namespace PMROS2.Measuring
open Runs Checked

/-! ## the tracker -/

structure TracingTracker where
  currentMsgId : Int64 := 1
  hostHash : UInt32

/-- `TracingPublisherMessageTracker::track_message`: the tracker and the message after the call, in
which the increment must not overflow -/
def TracingTracker.trackMessage (t : TracingTracker) (now : Int64)
    (message : MessageTrackingVariables) : Option (TracingTracker × MessageTrackingVariables) :=
  let message := { message with timestamp := now }
  let numbered :=
    if message.identifier = 0 then
      (int64 (t.currentMsgId.toInt + 1)).map fun next =>
        ({ t with currentMsgId := Int64.ofInt next },
          { message with identifier := t.currentMsgId })
    else some (t, message)
  numbered.map fun r => (r.1, { r.2 with publisherHash := t.hostHash.toInt32 })

/-! ## the publisher -/

structure Object where
  vars : MessageTrackingVariables
  /-- the identifier that the user or another publisher gave it -/
  assigned : Option Int64

/-- a message as it is constructed -/
def Object.fresh : Object := ⟨⟨0, 0, 0⟩, none⟩

structure Sent where
  vars : MessageTrackingVariables
  assigned : Option Int64

structure Publisher (O : Type*) where
  tracker : TracingTracker
  intraProcessIsEnabled : Bool
  objects : O → Object
  sent : List Sent

/-- what happens to the objects; `needed` says whether there are subscriptions outside the
process -/
inductive TracingCall (O : Type*) where
  | construct (o : O)
  | assign (o : O) (vars : MessageTrackingVariables)
  | copy (src dst : O)
  | publish (o : O) (needed : Bool) (now : Int64)
  | publishUnique (o : O) (needed : Bool) (now : Int64)

namespace Publisher
variable {O : Type*} [DecidableEq O] (p : Publisher O)

def construct (O : Type*) (hostHash : UInt32) (intraProcessIsEnabled : Bool) : Publisher O where
  tracker := { hostHash := hostHash }
  intraProcessIsEnabled := intraProcessIsEnabled
  objects := fun _ => Object.fresh
  sent := []

def put (o : O) (obj : Object) : Publisher O :=
  { p with objects := Function.update p.objects o obj }

/-- `do_inter_process_publish`, and the object after it -/
def doInterProcessPublish (obj : Object) (now : Int64) : Option (Publisher O × Object) :=
  (p.tracker.trackMessage now obj.vars).map fun r =>
    ({ p with tracker := r.1, sent := p.sent ++ [⟨r.2, obj.assigned⟩] },
      { obj with vars := r.2 })

/-- `publish(std::unique_ptr)`: the object belongs to the publisher -/
def publishOwned (obj : Object) (needed : Bool) (now : Int64) : Option (Publisher O) :=
  if !p.intraProcessIsEnabled then (p.doInterProcessPublish obj now).map Prod.fst
  else if needed then (p.doInterProcessPublish obj now).map Prod.fst
  else some p

def step : TracingCall O → Option (Publisher O)
  | .construct o => some (p.put o Object.fresh)
  | .assign o vars =>
    some (p.put o ⟨vars, if vars.identifier = 0 then none else some vars.identifier⟩)
  | .copy src dst => some (p.put dst (p.objects src))
  | .publish o needed now =>
    if !p.intraProcessIsEnabled then
      (p.doInterProcessPublish (p.objects o) now).map fun r => r.1.put o r.2
    -- a copy is published
    else p.publishOwned (p.objects o) needed now
  -- the object is gone; the next one in its place is a new one
  | .publishUnique o needed now =>
    (p.publishOwned (p.objects o) needed now).map fun p => p.put o Object.fresh

/-- the object that a call hands to the tracker -/
def tracked : TracingCall O → Option Object
  | .publish o needed _ | .publishUnique o needed _ =>
    if !p.intraProcessIsEnabled || needed then some (p.objects o) else none
  | _ => none

end Publisher

/-! ## what is asked for -/

/-- the identifiers of the messages that had none -/
def numbers (sent : List Sent) : List Int64 :=
  (sent.filter fun m => m.assigned.isNone).map fun m => m.vars.identifier

/-- assigned identifiers are forwarded; the others are not 0, and increase in publish order -/
structure Traced (sent : List Sent) : Prop where
  forwarded : ∀ m ∈ sent, ∀ i, m.assigned = some i → m.vars.identifier = i
  ne_zero : ∀ i ∈ numbers sent, i ≠ 0
  increasing : (numbers sent).Pairwise (· < ·)

/-- a message without an assigned identifier has not been through the tracker, which has an
identifier left -/
def Publisher.Unnumbered {O : Type*} (p : Publisher O) (a : TracingCall O) : Prop :=
  ∀ obj ∈ p.tracked a, obj.assigned = none →
    obj.vars.identifier = 0 ∧ p.tracker.currentMsgId.toInt < int64Max

/-! ## the log -/

theorem numbers_append (l l' : List Sent) : numbers (l ++ l') = numbers l ++ numbers l' := by
  unfold numbers
  rw [List.filter_append, List.map_append]

theorem numbers_none (vars : MessageTrackingVariables) : numbers [⟨vars, none⟩] = [vars.identifier] :=
  rfl

theorem numbers_some (vars : MessageTrackingVariables) (i : Int64) :
    numbers [⟨vars, some i⟩] = [] := rfl

theorem Traced.left {l l' : List Sent} (h : Traced (l ++ l')) : Traced l where
  forwarded := fun m hm => h.forwarded m (List.mem_append_left l' hm)
  ne_zero := by
    intro i hi
    apply h.ne_zero
    rw [numbers_append]
    exact List.mem_append_left _ hi
  increasing := by
    have hinc := h.increasing
    rw [numbers_append] at hinc
    exact (List.pairwise_append.mp hinc).1

/-! ## one call -/

section
variable (t : TracingTracker) (now : Int64) {message : MessageTrackingVariables}

theorem TracingTracker.trackMessage_of_ne (h : message.identifier ≠ 0) :
    t.trackMessage now message = some (t, ⟨now, message.identifier, t.hostHash.toInt32⟩) := by
  unfold trackMessage
  simp only
  rw [if_neg h]
  rfl

theorem TracingTracker.trackMessage_of_eq (h : message.identifier = 0) :
    t.trackMessage now message = (int64 (t.currentMsgId.toInt + 1)).map fun next =>
      ({ t with currentMsgId := Int64.ofInt next },
        ⟨now, t.currentMsgId, t.hostHash.toInt32⟩) := by
  unfold trackMessage
  simp only
  rw [if_pos h, Option.map_map]
  rfl

end

/-- the identifier of an object was assigned, or is one of the numbers, or is 0 -/
def Object.Known (numbers : List Int64) (obj : Object) : Prop :=
  match obj.assigned with
  | some i => i ≠ 0 ∧ obj.vars.identifier = i
  | none => obj.vars.identifier = 0 ∨ obj.vars.identifier ∈ numbers

theorem Object.known_fresh (l : List Int64) : Object.fresh.Known l := .inl rfl

theorem Object.known_assign (l : List Int64) (vars : MessageTrackingVariables) :
    Object.Known l ⟨vars, if vars.identifier = 0 then none else some vars.identifier⟩ := by
  by_cases h : vars.identifier = 0
  · rw [if_pos h]
    exact .inl h
  · rw [if_neg h]
    exact ⟨h, rfl⟩

theorem Object.Known.append {l : List Int64} {obj : Object} (h : obj.Known l) (l' : List Int64) :
    obj.Known (l ++ l') := by
  obtain ⟨vars, assigned⟩ := obj
  cases assigned with
  | some i => exact h
  | none => exact h.imp id (List.mem_append_left l')

namespace Publisher
variable {O : Type*} [DecidableEq O] {p p' : Publisher O} {a : TracingCall O}

theorem forall_put {R : Object → Prop} (h : ∀ o, R (p.objects o)) {obj : Object} (hobj : R obj)
    (o : O) : ∀ o', R ((p.put o obj).objects o') :=
  (Function.forall_update_iff p.objects fun _ obj => R obj).mpr ⟨hobj, fun o' _ => h o'⟩

/-- what is published goes to the tracker unless all subscriptions are in the process -/
theorem publishOwned_eq (p : Publisher O) (obj : Object) (needed : Bool) (now : Int64) :
    p.publishOwned obj needed now =
      if !p.intraProcessIsEnabled || needed then (p.doInterProcessPublish obj now).map Prod.fst
      else some p := by
  unfold publishOwned
  cases p.intraProcessIsEnabled with
  | false => rfl
  | true => rfl

/-- a call that hands nothing to the tracker -/
theorem step_untracked (h : p.tracked a = none) : ∃ p', p.step a = some p' ∧
    p'.tracker = p.tracker ∧ p'.sent = p.sent ∧
    ∀ l, (∀ o, (p.objects o).Known l) → ∀ o, (p'.objects o).Known l := by
  cases a with
  | construct o => exact ⟨_, rfl, rfl, rfl, fun l hl => forall_put hl (Object.known_fresh l) o⟩
  | assign o vars =>
    exact ⟨_, rfl, rfl, rfl, fun l hl => forall_put hl (Object.known_assign l vars) o⟩
  | copy src dst => exact ⟨_, rfl, rfl, rfl, fun l hl => forall_put hl (hl src) dst⟩
  | publish o needed now =>
    have hsend : ¬ (!p.intraProcessIsEnabled || needed) = true := fun hs => by
      rw [tracked, if_pos hs] at h
      cases h
    refine ⟨p, ?_, rfl, rfl, fun l hl => hl⟩
    rw [step, if_neg fun hi => hsend (by rw [hi, Bool.true_or]), publishOwned_eq, if_neg hsend]
  | publishUnique o needed now =>
    have hsend : ¬ (!p.intraProcessIsEnabled || needed) = true := fun hs => by
      rw [tracked, if_pos hs] at h
      cases h
    refine ⟨p.put o Object.fresh, ?_, rfl, rfl, fun l hl => forall_put hl (Object.known_fresh l) o⟩
    rw [step, publishOwned_eq, if_neg hsend]
    rfl

/-- a call that hands an object to the tracker: where that has a result, the object is sent, and
may stay -/
theorem step_tracked {obj : Object} (h : p.tracked a = some obj) : ∃ now,
    (p.tracker.trackMessage now obj.vars = none → p.step a = none) ∧
    ∀ t vars, p.tracker.trackMessage now obj.vars = some (t, vars) → ∃ p', p.step a = some p' ∧
      p'.tracker = t ∧ p'.sent = p.sent ++ [⟨vars, obj.assigned⟩] ∧
      ∀ l, (∀ o, (p.objects o).Known l) → Object.Known l ⟨vars, obj.assigned⟩ →
        ∀ o, (p'.objects o).Known l := by
  cases a with
  | construct o => cases h
  | assign o vars => cases h
  | copy src dst => cases h
  | publish o needed now =>
    refine ⟨now, ?_⟩
    rw [tracked, Option.ite_none_right_eq_some] at h
    obtain ⟨hsend, rfl⟩ := h.imp_right Option.some.inj
    rw [step, publishOwned_eq, if_pos hsend]
    unfold doInterProcessPublish
    constructor
    · intro hnone
      rw [hnone]
      split
      · rfl
      · rfl
    · intro t vars hsome
      rw [hsome]
      split
      · exact ⟨_, rfl, rfl, rfl, fun l hl hobj => forall_put hl hobj o⟩
      · exact ⟨_, rfl, rfl, rfl, fun l hl _ => hl⟩
  | publishUnique o needed now =>
    refine ⟨now, ?_⟩
    rw [tracked, Option.ite_none_right_eq_some] at h
    obtain ⟨hsend, rfl⟩ := h.imp_right Option.some.inj
    rw [step, publishOwned_eq, if_pos hsend]
    unfold doInterProcessPublish
    constructor
    · intro hnone
      rw [hnone]
      rfl
    · intro t vars hsome
      rw [hsome]
      exact ⟨_, rfl, rfl, rfl, fun l hl _ => forall_put hl (Object.known_fresh l) o⟩

theorem sent_step (h : p.step a = some p') : ∃ l, p'.sent = p.sent ++ l := by
  cases htr : p.tracked a with
  | none =>
    obtain ⟨p₁, hp₁, _, hsent, _⟩ := step_untracked htr
    obtain rfl := Option.some.inj (h.symm.trans hp₁)
    exact ⟨[], by rw [hsent, List.append_nil]⟩
  | some obj =>
    obtain ⟨now, hnone, hsome⟩ := step_tracked htr
    cases ht : p.tracker.trackMessage now obj.vars with
    | none => cases h.symm.trans (hnone ht)
    | some r =>
      obtain ⟨p₁, hp₁, _, hsent, _⟩ := hsome r.1 r.2 ht
      obtain rfl := Option.some.inj (h.symm.trans hp₁)
      exact ⟨_, hsent⟩

theorem known_of_tracked {obj : Object} (h : p.tracked a = some obj) {l : List Int64}
    (hl : ∀ o, (p.objects o).Known l) : obj.Known l := by
  cases a with
  | construct o => cases h
  | assign o vars => cases h
  | copy src dst => cases h
  | publish o needed now | publishUnique o needed now =>
    rw [tracked, Option.ite_none_right_eq_some] at h
    obtain ⟨_, rfl⟩ := h.imp_right Option.some.inj
    exact hl o

/-! ## the invariant -/

structure Inv (p : Publisher O) : Prop where
  known : ∀ o, (p.objects o).Known (numbers p.sent)
  traced : Traced p.sent
  /-- identifiers that were given out are behind the counter -/
  below : ∀ i ∈ numbers p.sent, i < p.tracker.currentMsgId
  positive : 0 < p.tracker.currentMsgId.toInt

theorem inv_construct (hostHash : UInt32) (intraProcessIsEnabled : Bool) :
    Inv (construct O hostHash intraProcessIsEnabled) where
  known := fun _ => Object.known_fresh _
  traced := ⟨fun _ h => (by cases h), fun _ h => (by cases h), List.Pairwise.nil⟩
  below := fun _ h => (by cases h)
  positive := by
    show 0 < (1 : Int64).toInt
    decide

/-- an assigned identifier is sent -/
theorem Inv.forward (h : Inv p) {vars : MessageTrackingVariables} {i : Int64}
    (hi : vars.identifier = i) : Traced (p.sent ++ [⟨vars, some i⟩]) where
  forwarded := by
    intro m hm j hj
    obtain hm | hm := List.mem_append.mp hm
    · exact h.traced.forwarded m hm j hj
    · obtain rfl := List.mem_singleton.mp hm
      rw [hi]
      exact Option.some.inj hj
  ne_zero := by
    rw [numbers_append, numbers_some, List.append_nil]
    exact h.traced.ne_zero
  increasing := by
    rw [numbers_append, numbers_some, List.append_nil]
    exact h.traced.increasing

/-- the identifier at the counter is sent -/
theorem Inv.number (h : Inv p) {vars : MessageTrackingVariables}
    (hvars : vars.identifier = p.tracker.currentMsgId) :
    Traced (p.sent ++ [⟨vars, none⟩]) where
  forwarded := by
    intro m hm i hi
    obtain hm | hm := List.mem_append.mp hm
    · exact h.traced.forwarded m hm i hi
    · obtain rfl := List.mem_singleton.mp hm
      cases hi
  ne_zero := by
    rw [numbers_append, numbers_none, hvars]
    intro i hi
    obtain hi | hi := List.mem_append.mp hi
    · exact h.traced.ne_zero i hi
    · obtain rfl := List.mem_singleton.mp hi
      intro h0
      have hpos := h.positive
      rw [h0] at hpos
      cases hpos
  increasing := by
    rw [numbers_append, numbers_none, hvars, List.pairwise_append]
    refine ⟨h.traced.increasing, List.pairwise_singleton _ _, ?_⟩
    intro i hi j hj
    obtain rfl := List.mem_singleton.mp hj
    exact h.below i hi

theorem toInt_next {x : Int64} (hpos : 0 < x.toInt) (hlt : x.toInt < int64Max) :
    (Int64.ofInt (x.toInt + 1)).toInt = x.toInt + 1 := by
  unfold int64Max at hlt
  apply Int64.toInt_ofInt_of_le
  · omega
  · omega

/-- a call on a message that has no number yet, or an assigned one -/
theorem Inv.keep (h : Inv p) (hc : p.Unnumbered a) : ∃ p', p.step a = some p' ∧ Inv p' := by
  cases htr : p.tracked a with
  | none =>
    obtain ⟨p', hp', htracker, hsent, hknown⟩ := step_untracked htr
    refine ⟨p', hp', ?_, ?_, ?_, ?_⟩
    · rw [hsent]
      exact hknown _ h.known
    · rw [hsent]
      exact h.traced
    · rw [hsent, htracker]
      exact h.below
    · rw [htracker]
      exact h.positive
  | some obj =>
    have hobj := known_of_tracked htr h.known
    have hnew := hc obj htr
    obtain ⟨now, _, hstep⟩ := step_tracked htr
    obtain ⟨vars, assigned⟩ := obj
    cases assigned with
    | some i =>
      obtain ⟨hi, hvars⟩ : i ≠ 0 ∧ vars.identifier = i := hobj
      have ht := TracingTracker.trackMessage_of_ne p.tracker now (hvars ▸ hi)
      obtain ⟨p', hp', htracker, hsent, hknown⟩ := hstep _ _ ht
      have hnum : numbers p'.sent = numbers p.sent := by
        rw [hsent, numbers_append, numbers_some, List.append_nil]
      refine ⟨p', hp', ?_, ?_, ?_, ?_⟩
      · rw [hnum]
        exact hknown _ h.known ⟨hi, hvars⟩
      · rw [hsent]
        exact h.forward hvars
      · rw [hnum, htracker]
        exact h.below
      · rw [htracker]
        exact h.positive
    | none =>
      obtain ⟨hzero, hlt⟩ := hnew rfl
      have hnext := toInt_next h.positive hlt
      have hfits : Fits (p.tracker.currentMsgId.toInt + 1) := by
        rw [← hnext]
        exact fits_toInt _
      have ht := TracingTracker.trackMessage_of_eq p.tracker now hzero
      rw [int64_of_fits hfits] at ht
      obtain ⟨p', hp', htracker, hsent, hknown⟩ := hstep _ _ ht
      have hnum : numbers p'.sent = numbers p.sent ++ [p.tracker.currentMsgId] := by
        rw [hsent, numbers_append, numbers_none]
      have hcur : p.tracker.currentMsgId < p'.tracker.currentMsgId := by
        rw [htracker, Int64.lt_iff_toInt_lt, hnext]
        omega
      refine ⟨p', hp', ?_, ?_, ?_, ?_⟩
      · rw [hnum]
        refine hknown _ (fun o => (h.known o).append _) (.inr ?_)
        exact List.mem_append_right _ (List.mem_singleton.mpr rfl)
      · rw [hsent]
        exact h.number rfl
      · rw [hnum]
        intro i hi
        obtain hi | hi := List.mem_append.mp hi
        · exact Int64.lt_trans (h.below i hi) hcur
        · obtain rfl := List.mem_singleton.mp hi
          exact hcur
      · rw [htracker, hnext]
        have hpos := h.positive
        omega

/-- a message that has a number would be sent with it again -/
theorem Inv.unnumbered (h : Inv p) (hs : p.step a = some p') (hp' : Traced p'.sent) :
    p.Unnumbered a := by
  intro obj htr hnone
  obtain ⟨vars, assigned⟩ := obj
  obtain rfl : assigned = none := hnone
  obtain ⟨now, hover, hstep⟩ := step_tracked htr
  have hknown : vars.identifier = 0 ∨ vars.identifier ∈ numbers p.sent :=
    known_of_tracked htr h.known
  by_cases hzero : vars.identifier = 0
  · refine ⟨hzero, ?_⟩
    apply Int.lt_of_not_ge
    intro hge
    have ht := TracingTracker.trackMessage_of_eq p.tracker now hzero
    have hfits : ¬ Fits (p.tracker.currentMsgId.toInt + 1) := by
      unfold Fits int64Max at *
      omega
    rw [int64, if_neg hfits] at ht
    cases hs.symm.trans (hover ht)
  · have ht := TracingTracker.trackMessage_of_ne p.tracker now hzero
    obtain ⟨p₁, hp₁, _, hsent, _⟩ := hstep _ _ ht
    obtain rfl := Option.some.inj (hs.symm.trans hp₁)
    have hinc := hp'.increasing
    rw [hsent, numbers_append, numbers_none] at hinc
    have hlt := (List.pairwise_append.mp hinc).2.2 _ (hknown.resolve_left hzero) _
      (List.mem_singleton.mpr rfl)
    exact absurd hlt Int64.lt_irrefl

end Publisher

/-- **The identifiers.**  A run of a publisher is defined, forwards all assigned identifiers and
numbers the other messages upwards, just when no message without an assigned identifier goes through
the tracker twice and the identifiers do not run out. -/
theorem identifiers_traced_iff {O : Type*} [DecidableEq O] (hostHash : UInt32)
    (intraProcessIsEnabled : Bool) (calls : List (TracingCall O)) :
    (∃ p, exec Publisher.step (.construct O hostHash intraProcessIsEnabled) calls = some p ∧
        Traced p.sent) ↔
      Meets Publisher.step Publisher.Unnumbered (.construct O hostHash intraProcessIsEnabled)
        calls := by
  apply exec_iff_meets (P := fun p : Publisher O => Traced p.sent)
    (fun p hp => Publisher.Inv.traced hp) (fun p a hp hc => hp.keep hc)
    (fun p a p' hp hs hp' => hp.unnumbered hs hp')
  · intro p a p' hs hp'
    obtain ⟨l, hl⟩ := Publisher.sent_step hs
    rw [hl] at hp'
    exact hp'.left
  · exact Publisher.inv_construct hostHash intraProcessIsEnabled

/-- a message that is published twice is sent with identifier 1 twice -/
theorem identifier_sent_twice : ¬ ∃ p,
    exec Publisher.step (.construct Unit 7 false)
        [.publish () true 100, .publish () true 200] = some p ∧ Traced p.sent := by
  intro ⟨p, hp, htraced⟩
  have hnum : (exec Publisher.step (.construct Unit 7 false)
      [.publish () true 100, .publish () true 200]).map (fun p => numbers p.sent) =
        some [1, 1] := by
    rfl
  rw [hp, Option.map_some, Option.some_inj] at hnum
  have hinc := htraced.increasing
  rw [hnum] at hinc
  exact absurd hinc (by decide)

end PMROS2.Measuring
