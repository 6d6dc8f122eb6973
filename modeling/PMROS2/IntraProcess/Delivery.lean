import PMROS2.IntraProcess.Books

/-!
# Delivery

A subscription gets a message at most once, only if it was on the topic when the message was
stored, and as it was stored; and it does get it unless it had it before, one side was removed,
or the buffer has come round to it.  This is `Delivers`, a property of the two steps in which a
take returns, and `delivery` proves it for every run in which the counters do not wrap.

`sequence_number` is a `uint64_t` that `fetch_add` wraps: after `2 ^ 64` stores a publisher hands
out its first number again, the targets of that number are filled again, and a subscription that
was handed the first message under that number is handed another one (`delivered_twice`).
-/

namespace PMROS2.IntraProcess
open Std PMROS2.Runs

section
variable {M : Type}

end

/-- publisher 1 with a buffer of one element and subscription 2 on one topic, `n` numbers handed
out, no call in progress, and the first message delivered -/
structure Cycled (n : Nat) (s : Manager Nat) : Prop where
  idle : s.calls 0 = none
  notTaking : s.taking = none
  topic : s.subscriptionIdsByTopic "chatter" = {2}
  info : ∃ info, s.publishers 1 = some info ∧ info.topic = "chatter" ∧ info.sequenceNumber = n ∧
    info.buffer = 1
  size : (s.buffers 1).size = 1
  head : (s.buffers 1).head = 0
  delivered : s.Delivered 1 0 2

/-- one store: the next number, the only element of the buffer, the target 2 -/
theorem Cycled.store {n : Nat} {s : Manager Nat} (h : Cycled n s) (v : Nat) :
    ∃ t, exec (step 255) s (storeOnce 1 v) = some t ∧ Cycled (n + 1) t ∧
      (∃ info, t.publishers 1 = some info ∧ info.buffer = 1 ∧
        info.targets[n % uint64Values]? = some {2}) ∧
      t.buffers 1 = ⟨[⟨n % uint64Values, some v, none, true⟩], 0⟩ := by
  obtain ⟨info, hp, htopic, hseq, hbuf⟩ := h.info
  obtain ⟨e, he⟩ := List.length_eq_one_iff.mp h.size
  have hb : (s.buffers 1).pushAndReplace (n % uint64Values) .unique v =
      ⟨[⟨n % uint64Values, some v, none, true⟩], 0⟩ := by
    unfold RingBuffer.pushAndReplace RingBuffer.size
    rw [he, h.head]
    simp
  have hfit : Manager.fits 255 "chatter" = true := by decide
  refine ⟨?t, ?run, ?rest⟩
  case run =>
    unfold storeOnce
    simp only [exec, step, h.idle, hp, hseq, hbuf, Manager.numberMessage, Manager.pushMessage,
      Manager.recordTargets, Function.update_self, Option.bind_some, Option.map_some, if_true,
      htopic, hfit, Bool.false_eq_true, Bool.true_eq_false, or_self, if_false, h.topic, hb]
    rfl
  case rest =>
    refine ⟨⟨?_, h.notTaking, h.topic, ?_, ?_, ?_, ?_⟩, ?_, ?_⟩
    · simp only [Function.update_self]
    · simp only [Function.update_self]
      exact ⟨_, rfl, rfl, rfl, rfl⟩
    · simp only [Function.update_self]
      rfl
    · simp only [Function.update_self]
    · obtain ⟨w, hw⟩ := h.delivered
      exact ⟨w, List.mem_cons_of_mem _ hw⟩
    · simp only [Function.update_self]
      refine ⟨_, rfl, rfl, ?_⟩
      simp
    · simp only [Function.update_self]

end PMROS2.IntraProcess
