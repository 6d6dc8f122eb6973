import PMROS2.IntraProcess.Manager
import PMROS2.Lib.Writes

/-!
# The entries of `target_subscriptions_by_message_sequence`

An entry is made when a store returns.  A take erases one subscription from it and
`remove_subscription` erases one from all of them, but no step before the removal of the
publisher erases the entry itself: the entries of a publisher are the numbers it has stored
(`Counted`).  So the entries stay within the size of the ring buffer exactly as long as no
publisher stores more messages than its buffer has elements (`bounded_iff`).
-/

namespace PMROS2.IntraProcess
open Std PMROS2.Runs PMROS2.Writes

section
variable {M : Type}

/-- the numbers stored under an id since it was last removed -/
def numbersOf (p : Id) : List (Event M) → Finset Nat
  | [] => ∅
  | .stored r :: es => if r.publisher = p then insert r.seq (numbersOf p es) else numbersOf p es
  | .publisherRemoved q :: es => if q = p then ∅ else numbersOf p es
  | .delivered _ _ _ _ :: es => numbersOf p es

/-- the entries are the stored numbers, and every registered buffer is allocated -/
structure Counted (s : Manager M) : Prop where
  keys : ∀ (p : Id) (info : PublisherInfo), s.publishers p = some info →
    ∀ k, info.targets.contains k = true ↔ k ∈ numbersOf p s.history
  size : ∀ (p : Id) (info : PublisherInfo), s.publishers p = some info →
    info.targets.size = (numbersOf p s.history).card
  none : ∀ p : Id, s.publishers p = none → numbersOf p s.history = ∅
  buffer : ∀ (p : Id) (info : PublisherInfo), s.publishers p = some info →
    info.buffer < s.nextUniqueId

/-- no publisher has more entries than its buffer has elements -/
def Bounded (s : Manager M) : Prop :=
  ∀ (p : Id) (info : PublisherInfo), s.publishers p = some info →
    info.targets.size ≤ (s.buffers info.buffer).size

/-- a store that returns is one of at most as many as the buffer has elements; an id that is
handed out again does not come with a smaller buffer -/
def StaysWithin (maxLength : Nat) (s : Manager M) : Action M → Prop
  | .recordTargets thread expired =>
    ∀ c index info, s.calls thread = some c → c.pushedAt = some index →
      s.publishers c.publisher = some info → expired = false →
      Manager.fits maxLength info.topic = true →
      (insert c.seq (numbersOf c.publisher s.history)).card ≤ (s.buffers info.buffer).size
  | .addPublisher _ bufferSize queueSize =>
    s.nextId ≠ 0 → Manager.bufferSizeOf bufferSize queueSize ≠ 0 →
      (numbersOf s.nextId s.history).card ≤ Manager.bufferSizeOf bufferSize queueSize
  | _ => True

/-! ## steps that keep the entries -/

/-- the registered publishers are the same, with the same entries and buffers -/
structure SameEntries (s s' : Manager M) : Prop where
  info : ∀ (p : Id) (info' : PublisherInfo), s'.publishers p = some info' →
    ∃ info, s.publishers p = some info ∧ info'.buffer = info.buffer ∧
      info'.targets.size = info.targets.size ∧
      ∀ k, info'.targets.contains k = info.targets.contains k
  none : ∀ p : Id, s'.publishers p = none → s.publishers p = none
  numbers : ∀ p : Id, numbersOf p s'.history = numbersOf p s.history
  buffers : ∀ b < s.nextUniqueId, (s'.buffers b).size = (s.buffers b).size
  next : s.nextUniqueId ≤ s'.nextUniqueId

variable {s s' : Manager M}

theorem SameEntries.counted (h : SameEntries s s') (hc : Counted s) : Counted s' := by
  refine ⟨fun p info' hp k => ?_, fun p info' hp => ?_, fun p hp => ?_, fun p info' hp => ?_⟩
  · obtain ⟨info, hinfo, _, _, hkeys⟩ := h.info p info' hp
    rw [hkeys, h.numbers]
    exact hc.keys p info hinfo k
  · obtain ⟨info, hinfo, _, hsize, _⟩ := h.info p info' hp
    rw [hsize, h.numbers]
    exact hc.size p info hinfo
  · rw [h.numbers]
    exact hc.none p (h.none p hp)
  · obtain ⟨info, hinfo, hb, _, _⟩ := h.info p info' hp
    rw [hb]
    exact (hc.buffer p info hinfo).trans_le h.next

theorem SameEntries.bounded (h : SameEntries s s') (hc : Counted s) (hb : Bounded s) :
    Bounded s' := by
  intro p info' hp
  obtain ⟨info, hinfo, hbuf, hsize, _⟩ := h.info p info' hp
  rw [hsize, hbuf, h.buffers _ (hc.buffer p info hinfo)]
  exact hb p info hinfo

theorem sameEntries_of_eq (hp : s'.publishers = s.publishers)
    (hh : ∀ p : Id, numbersOf p s'.history = numbersOf p s.history)
    (hb : ∀ b, (s'.buffers b).size = (s.buffers b).size)
    (hn : s.nextUniqueId ≤ s'.nextUniqueId) : SameEntries s s' := by
  refine ⟨fun p info' h => ?_, fun p h => ?_, hh, fun b _ => hb b, hn⟩
  · rw [hp] at h
    exact ⟨info', h, rfl, rfl, fun k => rfl⟩
  · rw [hp] at h
    exact h

/-- one publisher gets new targets for numbers it already has, or a new sequence number -/
theorem sameEntries_update {q : Id} {info₀ info₁ : PublisherInfo}
    (hq : s.publishers q = some info₀)
    (hp : s'.publishers = Function.update s.publishers q (some info₁))
    (hbuf : info₁.buffer = info₀.buffer) (hsize : info₁.targets.size = info₀.targets.size)
    (hkeys : ∀ k, info₁.targets.contains k = info₀.targets.contains k)
    (hh : s'.history = s.history) (hb : s'.buffers = s.buffers)
    (hn : s'.nextUniqueId = s.nextUniqueId) : SameEntries s s' := by
  refine ⟨fun p info' h => ?_, fun p h => ?_, fun p => (by rw [hh]), fun b _ => (by rw [hb]), hn.ge⟩
  · rw [hp] at h
    by_cases hpq : p = q
    · subst hpq
      rw [Function.update_self] at h
      obtain rfl := Option.some.inj h
      exact ⟨info₀, hq, hbuf, hsize, hkeys⟩
    · rw [Function.update_of_ne hpq] at h
      exact ⟨info', h, rfl, rfl, fun k => rfl⟩
  · rw [hp] at h
    by_cases hpq : p = q
    · subst hpq
      rw [Function.update_self] at h
      cases h
    · rw [Function.update_of_ne hpq] at h
      exact h

theorem size_update (f : Nat → RingBuffer M) (i : Nat) (b : RingBuffer M)
    (h : b.size = (f i).size) (j : Nat) : (Function.update f i b j).size = (f j).size := by
  by_cases hj : j = i
  · subst hj
    rw [Function.update_self, h]
  · rw [Function.update_of_ne hj]

theorem sameEntries_removeSubscription (s : Manager M) (id : Id) :
    SameEntries s (s.removeSubscription id) := by
  refine ⟨fun p info' h => ?_, fun p h => ?_, fun p => rfl, fun b _ => rfl, Nat.le_refl _⟩
  · obtain ⟨info, hinfo, rfl⟩ := Option.map_eq_some_iff.mp h
    exact ⟨info, hinfo, rfl, ExtTreeMap.size_map, fun k => ExtTreeMap.contains_map⟩
  · exact Option.map_eq_none_iff.mp h

theorem sameEntries_numberMessage (s : Manager M) (thread : Nat) (q : Id) (msg : Message M) :
    SameEntries s (s.numberMessage thread q msg) := by
  unfold Manager.numberMessage
  cases hq : s.publishers q with
  | none => exact sameEntries_of_eq rfl (fun _ => rfl) (fun _ => rfl) (Nat.le_refl _)
  | some info => exact sameEntries_update hq rfl rfl rfl (fun _ => rfl) rfl rfl rfl

theorem sameEntries_takeTarget (s : Manager M) (q : Id) (seq : Nat) (sub : Id) (own : Ownership) :
    SameEntries s (s.takeTarget q seq sub own) := by
  unfold Manager.takeTarget
  cases ht : s.targetsWith q seq sub with
  | none => exact sameEntries_of_eq rfl (fun _ => rfl) (fun _ => rfl) (Nat.le_refl _)
  | some found =>
    obtain ⟨info, subs⟩ := found
    obtain ⟨hq, hseq, _⟩ := targetsWith_some ht
    have hmem : info.targets.contains seq = true := by
      rw [← ExtTreeMap.isSome_getElem?_eq_contains, hseq]
      rfl
    refine sameEntries_update hq rfl rfl ?_ ?_ rfl rfl rfl
    · show (info.targets.insert seq (subs.erase sub)).size = info.targets.size
      rw [ExtTreeMap.size_insert, if_pos hmem]
    · intro k
      show (info.targets.insert seq (subs.erase sub)).contains k = info.targets.contains k
      rw [ExtTreeMap.contains_insert]
      by_cases hk : seq = k
      · subst hk
        simp [hmem]
      · simp [hk]

theorem sameEntries_takeMessage (s : Manager M) (c : TakeCall) :
    SameEntries s (s.takeMessage c) := by
  apply sameEntries_of_eq
  · rfl
  · intro p
    unfold Manager.takeMessage
    simp only
    split <;> rfl
  · apply size_update
    unfold Manager.takeResult
    split
    · exact RingBuffer.size_atKey ..
    · exact RingBuffer.size_atKey ..
  · exact Nat.le_refl _

/-! ## steps that change the entries -/

theorem counted_removePublisher (h : Counted s) (q : Id) : Counted (s.removePublisher q) := by
  have hnum : ∀ p, p ≠ q → numbersOf p (s.removePublisher q).history = numbersOf p s.history := by
    intro p hpq
    exact if_neg (Ne.symm hpq)
  have hold : ∀ p info, (s.removePublisher q).publishers p = some info →
      p ≠ q ∧ s.publishers p = some info := by
    intro p info hp
    have hp' : Function.update s.publishers q none p = some info := hp
    by_cases hpq : p = q
    · subst hpq
      rw [Function.update_self] at hp'
      cases hp'
    · rw [Function.update_of_ne hpq] at hp'
      exact ⟨hpq, hp'⟩
  refine ⟨fun p info hp k => ?_, fun p info hp => ?_, fun p hp => ?_, fun p info hp => ?_⟩
  · obtain ⟨hpq, hp'⟩ := hold p info hp
    rw [hnum p hpq]
    exact h.keys p info hp' k
  · obtain ⟨hpq, hp'⟩ := hold p info hp
    rw [hnum p hpq]
    exact h.size p info hp'
  · by_cases hpq : p = q
    · subst hpq
      exact if_pos rfl
    · rw [hnum p hpq]
      have hp' : Function.update s.publishers q none p = none := hp
      rw [Function.update_of_ne hpq] at hp'
      exact h.none p hp'
  · exact h.buffer p info (hold p info hp).2

theorem bounded_removePublisher (h : Bounded s) (q : Id) : Bounded (s.removePublisher q) := by
  intro p info hp
  have hp' : Function.update s.publishers q none p = some info := hp
  by_cases hpq : p = q
  · subst hpq
    rw [Function.update_self] at hp'
    cases hp'
  · rw [Function.update_of_ne hpq] at hp'
    exact h p info hp'

/-- one publisher is registered or has one more number, the others are as before -/
structure Updated (s s' : Manager M) (q : Id) (info₁ : PublisherInfo) : Prop where
  publishers : s'.publishers = Function.update s.publishers q (some info₁)
  numbers : ∀ p, p ≠ q → numbersOf p s'.history = numbersOf p s.history
  buffers : ∀ b < s.nextUniqueId, (s'.buffers b).size = (s.buffers b).size
  next : s.nextUniqueId ≤ s'.nextUniqueId
  buffer : info₁.buffer < s'.nextUniqueId
  keys : ∀ k, info₁.targets.contains k = true ↔ k ∈ numbersOf q s'.history
  size : info₁.targets.size = (numbersOf q s'.history).card

theorem Updated.counted {q : Id} {info₁ : PublisherInfo} (h : Updated s s' q info₁)
    (hc : Counted s) : Counted s' := by
  have hself : s'.publishers q = some info₁ := by rw [h.publishers, Function.update_self]
  have hold : ∀ p, p ≠ q → s'.publishers p = s.publishers p := by
    intro p hpq
    rw [h.publishers, Function.update_of_ne hpq]
  refine ⟨fun p info hp k => ?_, fun p info hp => ?_, fun p hp => ?_, fun p info hp => ?_⟩
  · by_cases hpq : p = q
    · subst hpq
      obtain rfl := Option.some.inj (hself.symm.trans hp)
      exact h.keys k
    · rw [hold p hpq] at hp
      rw [h.numbers p hpq]
      exact hc.keys p info hp k
  · by_cases hpq : p = q
    · subst hpq
      obtain rfl := Option.some.inj (hself.symm.trans hp)
      exact h.size
    · rw [hold p hpq] at hp
      rw [h.numbers p hpq]
      exact hc.size p info hp
  · by_cases hpq : p = q
    · subst hpq
      rw [hself] at hp
      cases hp
    · rw [hold p hpq] at hp
      rw [h.numbers p hpq]
      exact hc.none p hp
  · by_cases hpq : p = q
    · subst hpq
      obtain rfl := Option.some.inj (hself.symm.trans hp)
      exact h.buffer
    · rw [hold p hpq] at hp
      exact (hc.buffer p info hp).trans_le h.next

/-- the bound then depends on that publisher alone -/
theorem Updated.bounded_step {q : Id} {info₁ : PublisherInfo} (h : Updated s s' q info₁)
    (hc : Counted s) (hb : Bounded s) :
    Bounded s' ↔ (numbersOf q s'.history).card ≤ (s'.buffers info₁.buffer).size := by
  have hself : s'.publishers q = some info₁ := by rw [h.publishers, Function.update_self]
  rw [← h.size]
  constructor
  · intro hb'
    exact hb' q info₁ hself
  · intro hle p info hp
    by_cases hpq : p = q
    · subst hpq
      obtain rfl := Option.some.inj (hself.symm.trans hp)
      exact hle
    · rw [h.publishers, Function.update_of_ne hpq] at hp
      rw [h.buffers _ (hc.buffer p info hp)]
      exact hb p info hp

/-- registering a publisher starts from the numbers its id has, usually none -/
theorem updated_addPublisher (hc : Counted s) (topic : String) {bs qs : Nat} (hid : s.nextId ≠ 0)
    (hsize : Manager.bufferSizeOf bs qs ≠ 0) :
    ∃ info₁, Updated s (s.addPublisher topic bs qs) s.nextId info₁ ∧
      numbersOf s.nextId (s.addPublisher topic bs qs).history = numbersOf s.nextId s.history ∧
      ((s.addPublisher topic bs qs).buffers info₁.buffer).size = Manager.bufferSizeOf bs qs := by
  have heq : s.addPublisher topic bs qs =
      { s with
        nextUniqueId := s.nextUniqueId + 1
        buffers := Function.update s.buffers s.nextUniqueId
          (.construct M (Manager.bufferSizeOf bs qs))
        publishers := Function.update s.publishers s.nextId (some (s.newPublisherInfo topic)) } :=
    if_neg (not_or.mpr ⟨hid, hsize⟩)
  rw [heq]
  refine ⟨_, ⟨rfl, fun _ _ => rfl, fun b hb => ?_, Nat.le_succ _, Nat.lt_succ_self _, ?_, ?_⟩,
    rfl, ?_⟩
  · show (Function.update s.buffers s.nextUniqueId _ b).size = _
    rw [Function.update_of_ne hb.ne]
  · intro k
    unfold Manager.newPublisherInfo
    cases hp : s.publishers s.nextId with
    | some info => exact hc.keys _ info hp k
    | none =>
      rw [hc.none _ hp]
      simp
  · unfold Manager.newPublisherInfo
    cases hp : s.publishers s.nextId with
    | some info => exact hc.size _ info hp
    | none =>
      rw [hc.none _ hp]
      rfl
  · show (Function.update s.buffers s.nextUniqueId _ s.nextUniqueId).size = _
    rw [Function.update_self]
    exact List.length_replicate

/-- a store that returns adds its number -/
theorem updated_recordTargets (hc : Counted s) (maxLength thread : Nat) {c : StoreCall M}
    (index : Nat) {info : PublisherInfo} (hp : s.publishers c.publisher = some info)
    (hfit : Manager.fits maxLength info.topic = true) :
    ∃ info₁, Updated s (s.recordTargets maxLength thread false c index) c.publisher info₁ ∧
      numbersOf c.publisher (s.recordTargets maxLength thread false c index).history =
        insert c.seq (numbersOf c.publisher s.history) ∧
      ((s.recordTargets maxLength thread false c index).buffers info₁.buffer).size =
        (s.buffers info.buffer).size := by
  unfold Manager.recordTargets
  rw [hp]
  simp only [hfit, Bool.false_eq_true, Bool.true_eq_false, or_self, if_false]
  have hnum : ∀ r : Stored M, r.publisher = c.publisher → r.seq = c.seq →
      numbersOf c.publisher (.stored r :: s.history) =
        insert c.seq (numbersOf c.publisher s.history) := by
    intro r hr hseq
    rw [← hseq]
    exact if_pos hr
  refine ⟨_, ⟨rfl, fun p hpq => if_neg (Ne.symm hpq), fun _ _ => rfl, Nat.le_refl _,
    hc.buffer _ info hp, ?_, ?_⟩, hnum _ rfl rfl, rfl⟩
  · intro k
    show (info.targets.insert c.seq _).contains k = true ↔ _
    rw [hnum _ rfl rfl, ExtTreeMap.contains_insert, Finset.mem_insert, Bool.or_eq_true,
      hc.keys _ info hp k, beq_iff_eq, Std.compare_eq_iff_eq, eq_comm]
  · show (info.targets.insert c.seq _).size = _
    rw [hnum _ rfl rfl, ExtTreeMap.size_insert, hc.size _ info hp]
    by_cases hk : info.targets.contains c.seq = true
    · rw [if_pos hk, Finset.insert_eq_of_mem ((hc.keys _ info hp _).mp hk)]
    · rw [if_neg hk, Finset.card_insert_of_notMem fun h => hk ((hc.keys _ info hp _).mpr h)]

/-! ## the exact condition -/

/-- one step keeps the count, and keeps the bound exactly under the condition -/
theorem bounded_step_iff (maxLength : Nat) {a : Action M} (hc : Counted s) (hb : Bounded s)
    (hs : step maxLength s a = some s') :
    Counted s' ∧ (Bounded s' ↔ StaysWithin maxLength s a) := by
  have hsame : StaysWithin maxLength s a → SameEntries s s' →
      Counted s' ∧ (Bounded s' ↔ StaysWithin maxLength s a) := fun hC h =>
    ⟨h.counted hc, fun _ => hC, fun _ => h.bounded hc hb⟩
  cases a with
  | addSubscription topic =>
    obtain rfl := Option.some.inj hs
    apply hsame trivial
    unfold Manager.addSubscription
    simp only
    split
    · exact sameEntries_of_eq rfl (fun _ => rfl) (fun _ => rfl) (Nat.le_succ _)
    split
    · exact sameEntries_of_eq rfl (fun _ => rfl) (fun _ => rfl) (Nat.le_succ _)
    · exact sameEntries_of_eq rfl (fun _ => rfl) (fun _ => rfl) (Nat.le_succ _)
  | removeSubscription id =>
    obtain rfl := Option.some.inj hs
    exact hsame trivial (sameEntries_removeSubscription s id)
  | addPublisher topic bs qs =>
    obtain rfl := Option.some.inj hs
    by_cases hreg : s.nextId ≠ 0 ∧ Manager.bufferSizeOf bs qs ≠ 0
    · obtain ⟨info₁, hupd, hnum, hsize⟩ := updated_addPublisher hc topic hreg.1 hreg.2
      refine ⟨hupd.counted hc, ?_⟩
      rw [hupd.bounded_step hc hb, hnum, hsize]
      exact ⟨fun h _ _ => h, fun h => h hreg.1 hreg.2⟩
    · apply hsame
      · intro hid hsize
        exact absurd ⟨hid, hsize⟩ hreg
      · have heq : s.addPublisher topic bs qs = { s with nextUniqueId := s.nextUniqueId + 1 } := by
          unfold Manager.addPublisher
          refine if_pos ?_
          by_contra hcon
          exact hreg (not_or.mp hcon)
        rw [heq]
        exact sameEntries_of_eq rfl (fun _ => rfl) (fun _ => rfl) (Nat.le_succ _)
  | removePublisher id =>
    obtain rfl := Option.some.inj hs
    exact ⟨counted_removePublisher hc id,
      fun _ => trivial, fun _ => bounded_removePublisher hb id⟩
  | numberMessage thread q msg =>
    unfold step at hs
    simp only at hs
    split at hs
    · obtain rfl := Option.some.inj hs
      exact hsame trivial (sameEntries_numberMessage s thread q msg)
    · cases hs
  | pushMessage thread =>
    unfold step at hs
    simp only at hs
    split at hs
    · split at hs
      · obtain rfl := Option.some.inj hs
        apply hsame trivial
        refine sameEntries_of_eq rfl (fun _ => rfl) ?_ (Nat.le_refl _)
        exact size_update _ _ _ (RingBuffer.size_pushAndReplace ..)
      · cases hs
    · cases hs
  | recordTargets thread expired =>
    unfold step at hs
    simp only at hs
    split at hs
    case h_2 => cases hs
    rename_i c hcall
    obtain ⟨index, hidx, rfl⟩ := Option.map_eq_some_iff.mp hs
    by_cases hrec : ∃ info, s.publishers c.publisher = some info ∧ expired = false ∧
        Manager.fits maxLength info.topic = true
    · obtain ⟨info, hp, rfl, hfit⟩ := hrec
      obtain ⟨info₁, hupd, hnum, hsize⟩ := updated_recordTargets hc maxLength thread index hp hfit
      refine ⟨hupd.counted hc, ?_⟩
      rw [hupd.bounded_step hc hb, hnum, hsize]
      constructor
      · intro h c' index' info' hcall' _ hp' _ _
        obtain rfl := Option.some.inj (hcall.symm.trans hcall')
        obtain rfl := Option.some.inj (hp.symm.trans hp')
        exact h
      · intro h
        exact h c index info hcall hidx hp rfl hfit
    · apply hsame
      · intro c' index' info' hcall' _ hp' hexp hfit
        obtain rfl := Option.some.inj (hcall.symm.trans hcall')
        exact absurd ⟨info', hp', hexp, hfit⟩ hrec
      · have heq : s.recordTargets maxLength thread expired c index =
            { s with calls := Function.update s.calls thread none } := by
          unfold Manager.recordTargets
          cases hp : s.publishers c.publisher with
          | none => rfl
          | some info =>
            refine if_pos ?_
            by_contra hcon
            obtain ⟨hexp, hfit⟩ := not_or.mp hcon
            exact hrec ⟨info, hp, Bool.eq_false_iff.mpr hexp, by simpa using hfit⟩
        rw [heq]
        exact sameEntries_of_eq rfl (fun _ => rfl) (fun _ => rfl) (Nat.le_refl _)
  | takeTarget q seq sub own =>
    unfold step at hs
    simp only at hs
    split at hs
    · obtain rfl := Option.some.inj hs
      exact hsame trivial (sameEntries_takeTarget s q seq sub own)
    · cases hs
  | takeMessage =>
    obtain ⟨c, _, rfl⟩ := Option.map_eq_some_iff.mp hs
    exact hsame trivial (sameEntries_takeMessage s c)

/-- **The entries stay within the buffer exactly as long as no publisher stores more messages
than its buffer has elements.** -/
theorem bounded_iff (maxLength : Nat) (as : List (Action M)) :
    Always (step maxLength) Bounded ({} : Manager M) as ↔
      Along (step maxLength) (fun s a _ => StaysWithin maxLength s a) ({} : Manager M) as := by
  apply always_iff_along (I := fun s => Counted s ∧ Bounded s)
  · exact fun s h => h.2
  · intro s a s' h hs hC
    obtain ⟨hc, hb⟩ := bounded_step_iff maxLength h.1 h.2 hs
    exact ⟨hc, hb.mpr hC⟩
  · intro s a s' h hs hC hb'
    exact hC ((bounded_step_iff maxLength h.1 h.2 hs).2.mp hb')
  · refine ⟨⟨fun p info hp => ?_, fun p info hp => ?_, fun p _ => rfl, fun p info hp => ?_⟩,
      fun p info hp => ?_⟩
    all_goals cases hp

end

/-- a buffer of one element and two stores: the second store leaves two entries -/
theorem two_stores_two_entries :
    ¬ Always (step 255) Bounded ({} : Manager Nat)
      (.addPublisher "chatter" 1 1 :: (storeOnce 1 10 ++ storeOnce 1 20)) := by
  intro h
  have hrun : (exec (step 255) ({} : Manager Nat)
      (.addPublisher "chatter" 1 1 :: (storeOnce 1 10 ++ storeOnce 1 20))).map
        (fun s => (s.publishers 1).map fun info =>
          (info.targets.size, (s.buffers info.buffer).size)) = some (some (2, 1)) := by
    decide
  obtain ⟨s, hs, hobs⟩ := Option.map_eq_some_iff.mp hrun
  obtain ⟨info, hinfo, hsizes⟩ := Option.map_eq_some_iff.mp hobs
  have hle := h.exec hs 1 info hinfo
  obtain ⟨htwo, hone⟩ := Prod.mk.inj hsizes
  omega

end PMROS2.IntraProcess
