import PMROS2.IntraProcess.RingBuffer
import PMROS2.Lib.Runs

/-!
# The intra-process manager

`IntraProcessManager` and `IntraProcessManagerImpl` (`intra_process_manager.hpp`,
`intra_process_manager_impl.hpp`), at the granularity of their locked sections.

* `store_intra_process_message` is three sections: take a sequence number
  (`get_publisher_info_for_id`), push into the ring buffer, record the target subscriptions
  (`IntraProcessManagerImpl::store_intra_process_message`).  Any number of threads may be
  between two sections.
* `take_intra_process_message` holds `take_mutex_` over its two sections: remove the subscription
  from the targets, then get or pop the message.
* Adding and removing publishers and subscriptions are single steps.

`sequence_number` and `_next_unique_id` are kept in full; what they hand out is the value in
`uint64_t`.  A ring buffer is known by the count of its allocation, as the calls in flight keep
it alive when its publisher is removed.  Messages are not null: `Publisher` throws for null
pointers before it stores.

The fields `pushed` and `history` are not in the code; they record what happened.
-/

namespace PMROS2.IntraProcess
open Std PMROS2.Runs

/-- a `uint64_t` that identifies a publisher or a subscription -/
abbrev Id := Nat

/-- the number of values of `uint64_t` -/
abbrev uint64Values : Nat := 2 ^ 64

structure PublisherInfo where
  /-- the topic name of the publisher -/
  topic : String
  sequenceNumber : Nat
  buffer : Nat
  /-- `target_subscriptions_by_message_sequence` -/
  targets : ExtTreeMap Nat (Finset Id)

/-- a message, with the pointer type it is stored by -/
structure Message (M : Type) where
  own : Ownership
  value : M

/-- a store between two of its sections -/
structure StoreCall (M : Type) where
  publisher : Id
  seq : Nat
  buffer : Nat
  msg : Message M
  /-- the position of its push, after the second section -/
  pushedAt : Option Nat

/-- a take between its two sections -/
structure TakeCall where
  publisher : Id
  seq : Nat
  subscription : Id
  own : Ownership
  buffer : Nat
  /-- `target_subs_size` -/
  size : Nat

/-- a store that has returned: the subscriptions that were on the topic, and the push -/
structure Stored (M : Type) where
  publisher : Id
  seq : Nat
  subscriptions : Finset Id
  value : M
  index : Nat

/-- what the calls report, for the statements -/
inductive Event (M : Type) where
  | stored (r : Stored M)
  | delivered (publisher : Id) (seq : Nat) (subscription : Id) (value : M)
  | publisherRemoved (publisher : Id)

structure Manager (M : Type) where
  nextUniqueId : Nat := 1
  subscriptionIdsByTopic : String → Finset Id := fun _ => ∅
  publishers : Id → Option PublisherInfo := fun _ => none
  buffers : Nat → RingBuffer M := fun _ => .construct M 0
  calls : Nat → Option (StoreCall M) := fun _ => none
  taking : Option TakeCall := none
  /-- everything that was pushed into a buffer -/
  pushed : Nat → List (Nat × M) := fun _ => []
  history : List (Event M) := []

inductive Action (M : Type) where
  | addSubscription (topic : String)
  | removeSubscription (id : Id)
  /-- `queueSize` is `publisher->get_queue_size()` -/
  | addPublisher (topic : String) (bufferSize queueSize : Nat)
  | removePublisher (id : Id)
  | numberMessage (thread : Nat) (publisher : Id) (msg : Message M)
  | pushMessage (thread : Nat)
  /-- `expired`: the publisher has gone out of scope -/
  | recordTargets (thread : Nat) (expired : Bool)
  | takeTarget (publisher : Id) (seq : Nat) (subscription : Id) (own : Ownership)
  | takeMessage

namespace Manager
variable {M : Type} (s : Manager M)

/-- `get_next_unique_id`; zero is thrown as an overflow -/
def nextId : Id := s.nextUniqueId % uint64Values

/-- `fixed_size_string` copies the name, for `RMW_TOPIC_MAX_NAME_LENGTH` the first argument -/
def fits (maxLength : Nat) (topic : String) : Bool := topic.utf8ByteSize + 1 ≤ maxLength + 1

/-- `add_subscription` -/
def addSubscription (maxLength : Nat) (topic : String) : Manager M :=
  let s' := { s with nextUniqueId := s.nextUniqueId + 1 }
  if s.nextId = 0 then s'
  else if fits maxLength topic then
    { s' with
      subscriptionIdsByTopic := Function.update s.subscriptionIdsByTopic topic
        (insert s.nextId (s.subscriptionIdsByTopic topic)) }
  else s'

/-- `remove_subscription`: the id is erased from every topic and from all the targets -/
def removeSubscription (id : Id) : Manager M :=
  { s with
    subscriptionIdsByTopic := fun topic => (s.subscriptionIdsByTopic topic).erase id
    publishers := fun p => (s.publishers p).map fun info =>
      { info with targets := info.targets.map fun _ subs => subs.erase id } }

/-- the size of the buffer of a publisher; without one it is the queue size -/
def bufferSizeOf (bufferSize queueSize : Nat) : Nat :=
  if bufferSize > 0 then bufferSize else queueSize

/-- the info a publisher is registered with; an entry that has the id already keeps its targets -/
def newPublisherInfo (topic : String) : PublisherInfo :=
  { topic := topic
    sequenceNumber := 0
    buffer := s.nextUniqueId
    targets := match s.publishers s.nextId with
      | some info => info.targets
      | none => ∅ }

/-- `add_publisher`; a size of zero is refused by the ring buffer -/
def addPublisher (topic : String) (bufferSize queueSize : Nat) : Manager M :=
  let s' := { s with nextUniqueId := s.nextUniqueId + 1 }
  if s.nextId = 0 ∨ bufferSizeOf bufferSize queueSize = 0 then s'
  else
    { s' with
      buffers := Function.update s.buffers s.nextUniqueId
        (.construct M (bufferSizeOf bufferSize queueSize))
      publishers := Function.update s.publishers s.nextId (some (s.newPublisherInfo topic)) }

/-- `remove_publisher` -/
def removePublisher (id : Id) : Manager M :=
  { s with
    publishers := Function.update s.publishers id none
    history := .publisherRemoved id :: s.history }

/-- the first section of a store, `get_publisher_info_for_id`; it throws for an unknown id -/
def numberMessage (thread : Nat) (publisher : Id) (msg : Message M) : Manager M :=
  match s.publishers publisher with
  | none => s
  | some info =>
    { s with
      publishers := Function.update s.publishers publisher
        (some { info with sequenceNumber := info.sequenceNumber + 1 })
      calls := Function.update s.calls thread (some
        { publisher := publisher
          seq := info.sequenceNumber % uint64Values
          buffer := info.buffer
          msg := msg
          pushedAt := none }) }

/-- the second section of a store -/
def pushMessage (thread : Nat) (c : StoreCall M) : Manager M :=
  { s with
    buffers := Function.update s.buffers c.buffer
      ((s.buffers c.buffer).pushAndReplace c.seq c.msg.own c.msg.value)
    calls := Function.update s.calls thread
      (some { c with pushedAt := some (s.pushed c.buffer).length })
    pushed := Function.update s.pushed c.buffer (s.pushed c.buffer ++ [(c.seq, c.msg.value)]) }

/-- the third section of a store; it throws when the publisher is gone or its topic is too long.
Targets of an earlier message of that number are cleared first. -/
def recordTargets (maxLength : Nat) (thread : Nat) (expired : Bool) (c : StoreCall M)
    (index : Nat) : Manager M :=
  let s' := { s with calls := Function.update s.calls thread none }
  match s.publishers c.publisher with
  | none => s'
  | some info =>
    if expired ∨ fits maxLength info.topic = false then s'
    else
      { s' with
        publishers := Function.update s.publishers c.publisher (some
          { info with
            targets := info.targets.insert c.seq (s.subscriptionIdsByTopic info.topic) })
        history := .stored
          { publisher := c.publisher
            seq := c.seq
            subscriptions := s.subscriptionIdsByTopic info.topic
            value := c.msg.value
            index := index } :: s.history }

def targetsWith (publisher : Id) (seq : Nat) (subscription : Id) :
    Option (PublisherInfo × Finset Id) :=
  match s.publishers publisher with
  | none => none
  | some info =>
    match info.targets[seq]? with
    | none => none
    | some subs => if subscription ∈ subs then some (info, subs) else none

/-- the first section of a take, `IntraProcessManagerImpl::take_intra_process_message`; without
a target the call is over and has returned null -/
def takeTarget (publisher : Id) (seq : Nat) (subscription : Id) (own : Ownership) : Manager M :=
  match s.targetsWith publisher seq subscription with
  | none => s
  | some (info, subs) =>
    { s with
      publishers := Function.update s.publishers publisher
        (some { info with targets := info.targets.insert seq (subs.erase subscription) })
      taking := some
        { publisher := publisher
          seq := seq
          subscription := subscription
          own := own
          buffer := info.buffer
          size := (subs.erase subscription).card } }

/-- what the second section of a take gets from the buffer, and the buffer it leaves -/
def takeResult (c : TakeCall) : Except String (Option M) × RingBuffer M :=
  if c.size ≠ 0 then (s.buffers c.buffer).get c.own c.seq
  else (s.buffers c.buffer).pop c.own c.seq

def takeMessage (c : TakeCall) : Manager M :=
  { s with
    buffers := Function.update s.buffers c.buffer (s.takeResult c).2
    taking := none
    history := match (s.takeResult c).1 with
      | .ok (some v) => .delivered c.publisher c.seq c.subscription v :: s.history
      | _ => s.history }

end Manager

/-- one locked section, or one call that adds or removes; `maxLength` is the
`RMW_TOPIC_MAX_NAME_LENGTH` of the middleware -/
def step {M : Type} (maxLength : Nat) (s : Manager M) : Action M → Option (Manager M)
  | .addSubscription topic => some (s.addSubscription maxLength topic)
  | .removeSubscription id => some (s.removeSubscription id)
  | .addPublisher topic bufferSize queueSize => some (s.addPublisher topic bufferSize queueSize)
  | .removePublisher id => some (s.removePublisher id)
  | .numberMessage thread publisher msg =>
    match s.calls thread with
    | none => some (s.numberMessage thread publisher msg)
    | some _ => none
  | .pushMessage thread =>
    match s.calls thread with
    | some c => if c.pushedAt = none then some (s.pushMessage thread c) else none
    | none => none
  | .recordTargets thread expired =>
    match s.calls thread with
    | some c => c.pushedAt.map fun index => s.recordTargets maxLength thread expired c index
    | none => none
  | .takeTarget publisher seq subscription own =>
    match s.taking with
    | none => some (s.takeTarget publisher seq subscription own)
    | some _ => none
  | .takeMessage => s.taking.map s.takeMessage

/-- what a take that is one of the targets has found -/
theorem targetsWith_some {M : Type} {s : Manager M} {q : Id} {seq : Nat} {sub : Id}
    {info : PublisherInfo} {subs : Finset Id}
    (h : s.targetsWith q seq sub = some (info, subs)) :
    s.publishers q = some info ∧ info.targets[seq]? = some subs ∧ sub ∈ subs := by
  unfold Manager.targetsWith at h
  cases hq : s.publishers q with
  | none => rw [hq] at h; cases h
  | some info' =>
    rw [hq] at h
    simp only at h
    cases ht : info'.targets[seq]? with
    | none => rw [ht] at h; cases h
    | some subs' =>
      rw [ht] at h
      simp only at h
      split at h
      · rename_i hmem
        obtain ⟨rfl, rfl⟩ : info' = info ∧ subs' = subs := by simpa using h
        exact ⟨rfl, ht, hmem⟩
      · cases h

def storeOnce (publisher : Id) (value : Nat) : List (Action Nat) :=
  [.numberMessage 0 publisher ⟨.unique, value⟩, .pushMessage 0, .recordTargets 0 false]

end PMROS2.IntraProcess
