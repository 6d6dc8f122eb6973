import PMROS2.IntraProcess.Manager

/-!
# Ids and sequence numbers

As long as the `uint64_t` counters do not hand out an id or a sequence number twice (`NoWrap`),
the sequence numbers of a publisher that are in flight and those that were pushed are distinct,
and a publisher and its buffer have the same name (`Numbering`).  Three steps matter: registering
a publisher, numbering a message and pushing it; `Numbering.frame` covers the rest.
-/

namespace PMROS2.IntraProcess
open Std PMROS2.Runs

section
variable {M : Type}

/-- the step does not hand out an id or a sequence number for the second time -/
def NoWrap (s : Manager M) : Action M → Prop
  | .addSubscription _ => s.nextUniqueId < uint64Values
  | .addPublisher _ _ _ => s.nextUniqueId < uint64Values
  | .numberMessage _ p _ => ∀ info ∈ s.publishers p, info.sequenceNumber < uint64Values
  | _ => True

instance NoWrap.decidable (s : Manager M) : ∀ a, Decidable (NoWrap s a)
  | .addSubscription _ => inferInstanceAs (Decidable (_ < _))
  | .addPublisher _ _ _ => inferInstanceAs (Decidable (_ < _))
  | .numberMessage _ p _ =>
    inferInstanceAs (Decidable (∀ info ∈ s.publishers p, info.sequenceNumber < uint64Values))
  | .removeSubscription _ | .removePublisher _ | .pushMessage _ | .recordTargets _ _
  | .takeTarget _ _ _ _ | .takeMessage => inferInstanceAs (Decidable True)

/-- sequence numbers: those in flight and those pushed are distinct and were handed out -/
structure Numbering (s : Manager M) : Prop where
  pos : 0 < s.nextUniqueId
  live : ∀ (p : Id) (info : PublisherInfo), s.publishers p = some info →
    p < s.nextUniqueId ∧ info.buffer = p ∧ 0 < (s.buffers p).size
  call : ∀ (t : Nat) (c : StoreCall M), s.calls t = some c →
    c.publisher < s.nextUniqueId ∧ c.buffer = c.publisher ∧ 0 < (s.buffers c.publisher).size
  callBelow : ∀ (t : Nat) (c : StoreCall M) (info : PublisherInfo), s.calls t = some c →
    s.publishers c.publisher = some info → c.seq < info.sequenceNumber
  callNew : ∀ (t : Nat) (c : StoreCall M), s.calls t = some c → c.pushedAt = none →
    c.seq ∉ (s.pushed c.publisher).map Prod.fst
  callPushed : ∀ (t : Nat) (c : StoreCall M) (i : Nat), s.calls t = some c →
    c.pushedAt = some i → (s.pushed c.publisher)[i]? = some (c.seq, c.msg.value)
  callNe : ∀ (t t' : Nat) (c c' : StoreCall M), s.calls t = some c → s.calls t' = some c' →
    c.publisher = c'.publisher → c.seq = c'.seq → t = t'
  nodup : ∀ p : Id, ((s.pushed p).map Prod.fst).Nodup
  below : ∀ (p : Id) (info : PublisherInfo), s.publishers p = some info →
    ∀ k ∈ (s.pushed p).map Prod.fst, k < info.sequenceNumber
  fresh : ∀ p : Id, s.nextUniqueId ≤ p → s.pushed p = []

/-! ## ids and buffers -/

theorem nextId_of_noWrap {s : Manager M} (hpos : 0 < s.nextUniqueId)
    (h : s.nextUniqueId < uint64Values) : s.nextId = s.nextUniqueId ∧ s.nextId ≠ 0 := by
  have heq : s.nextId = s.nextUniqueId := Nat.mod_eq_of_lt h
  exact ⟨heq, heq ▸ hpos.ne'⟩

section
variable {α β : Type}

theorem update_eq_some [DecidableEq α] {f : α → Option β} {q p : α} {o : Option β} {b : β}
    (h : Function.update f q o p = some b) : (p = q ∧ o = some b) ∨ (p ≠ q ∧ f p = some b) := by
  by_cases hpq : p = q
  · subst hpq
    rw [Function.update_self] at h
    exact .inl ⟨rfl, h⟩
  · rw [Function.update_of_ne hpq] at h
    exact .inr ⟨hpq, h⟩

end

/-! ## the numbers -/

variable {s s' : Manager M}

/-- steps that start no store and push nothing -/
theorem Numbering.frame (h : Numbering s) (hn : s.nextUniqueId ≤ s'.nextUniqueId)
    (hpub : ∀ p info', s'.publishers p = some info' → ∃ info, s.publishers p = some info ∧
      info'.buffer = info.buffer ∧ info'.sequenceNumber = info.sequenceNumber)
    (hsize : ∀ b, (s'.buffers b).size = (s.buffers b).size)
    (hcalls : ∀ t c, s'.calls t = some c → s.calls t = some c)
    (hpushed : s'.pushed = s.pushed) : Numbering s' where
  pos := h.pos.trans_le hn
  live p info' hp := by
    obtain ⟨info, hinfo, hbuf, _⟩ := hpub p info' hp
    obtain ⟨hlt, hb, hs⟩ := h.live p info hinfo
    exact ⟨hlt.trans_le hn, hbuf.trans hb, by rw [hsize]; exact hs⟩
  call t c hc := by
    obtain ⟨hlt, hb, hs⟩ := h.call t c (hcalls t c hc)
    exact ⟨hlt.trans_le hn, hb, by rw [hsize]; exact hs⟩
  callBelow t c info' hc hp := by
    obtain ⟨info, hinfo, _, hseq⟩ := hpub _ info' hp
    rw [hseq]
    exact h.callBelow t c info (hcalls t c hc) hinfo
  callNew t c hc hnone := by
    rw [hpushed]
    exact h.callNew t c (hcalls t c hc) hnone
  callPushed t c i hc hi := by
    rw [hpushed]
    exact h.callPushed t c i (hcalls t c hc) hi
  callNe t t' c c' hc hc' := h.callNe t t' c c' (hcalls t c hc) (hcalls t' c' hc')
  nodup := by
    rw [hpushed]
    exact h.nodup
  below p info' hp := by
    obtain ⟨info, hinfo, _, hseq⟩ := hpub p info' hp
    rw [hseq, hpushed]
    exact h.below p info hinfo
  fresh p hp := by
    rw [hpushed]
    exact h.fresh p (hn.trans hp)

/-- a publisher is registered under the next id, with an empty buffer -/
theorem Numbering.addPublisher (h : Numbering s) (hw : s.nextUniqueId < uint64Values)
    (topic : String) (bs qs : Nat) : Numbering (s.addPublisher topic bs qs) := by
  obtain ⟨hid, hne⟩ := nextId_of_noWrap h.pos hw
  unfold Manager.addPublisher
  split
  · exact h.frame (Nat.le_succ _) (fun p info hp => ⟨info, hp, rfl, rfl⟩) (fun _ => rfl)
      (fun _ _ hc => hc) rfl
  rename_i hreg
  obtain ⟨_, hsize⟩ := not_or.mp hreg
  have hbuf : ∀ (p : Nat), p < s.nextUniqueId → ∀ b : RingBuffer M,
      Function.update s.buffers s.nextUniqueId b p = s.buffers p := fun p hp b =>
    Function.update_of_ne hp.ne _ _
  -- the calls in flight are of older publishers
  have hcallPub : ∀ (t : Nat) (c : StoreCall M) (o : Option PublisherInfo), s.calls t = some c →
      Function.update s.publishers s.nextId o c.publisher = s.publishers c.publisher := by
    intro t c o hc
    rw [hid]
    exact Function.update_of_ne (h.call t c hc).1.ne _ _
  refine
    { pos := Nat.succ_pos _
      live := fun p info hp => ?_
      call := fun t c hc => ?_
      callBelow := fun t c info hc hp => ?_
      callNew := h.callNew
      callPushed := h.callPushed
      callNe := h.callNe
      nodup := h.nodup
      below := fun p info hp k hk => ?_
      fresh := fun p hp => h.fresh p (Nat.le_of_succ_le hp) }
  · rcases update_eq_some hp with ⟨rfl, hinfo⟩ | ⟨_, hinfo⟩
    · obtain rfl := Option.some.inj hinfo
      refine ⟨by rw [hid]; exact Nat.lt_succ_self _, hid.symm, ?_⟩
      simp only [hid, Function.update_self]
      exact (Nat.pos_of_ne_zero hsize).trans_eq List.length_replicate.symm
    · obtain ⟨hlt, hb, hs⟩ := h.live p info hinfo
      refine ⟨hlt.trans (Nat.lt_succ_self _), hb, ?_⟩
      simp only [hbuf p hlt]
      exact hs
  · obtain ⟨hlt, hb, hs⟩ := h.call t c hc
    refine ⟨hlt.trans (Nat.lt_succ_self _), hb, ?_⟩
    simp only [hbuf _ hlt]
    exact hs
  · exact h.callBelow t c info hc ((hcallPub t c _ hc).symm.trans hp)
  · rcases update_eq_some hp with ⟨rfl, _⟩ | ⟨_, hinfo⟩
    · have hnil : s.pushed s.nextId = [] := h.fresh _ hid.ge
      have hk' : k ∈ (s.pushed s.nextId).map Prod.fst := hk
      rw [hnil] at hk'
      cases hk'
    · exact h.below p info hinfo k hk

/-- a store gets the next number of its publisher -/
theorem Numbering.numberMessage (h : Numbering s) (t : Nat) (q : Id) (msg : Message M)
    (hidle : s.calls t = none)
    (hw : ∀ info, s.publishers q = some info → info.sequenceNumber < uint64Values) :
    Numbering (s.numberMessage t q msg) := by
  unfold Manager.numberMessage
  cases hq : s.publishers q with
  | none => exact h
  | some info₀ =>
    have hmod : info₀.sequenceNumber % uint64Values = info₀.sequenceNumber :=
      Nat.mod_eq_of_lt (hw info₀ hq)
    simp only [hmod]
    obtain ⟨hqlt, hqbuf, hqsize⟩ := h.live q info₀ hq
    -- the numbers of the publisher that are in use are below the new one
    have hcallBelow : ∀ (t' : Nat) (c : StoreCall M), s.calls t' = some c → c.publisher = q →
        c.seq < info₀.sequenceNumber := by
      intro t' c hc hcq
      subst hcq
      exact h.callBelow t' c info₀ hc hq
    refine
      { pos := h.pos
        live := fun p info hp => ?_
        call := fun t' c hc => ?_
        callBelow := fun t' c info hc hp => ?_
        callNew := fun t' c hc hnone => ?_
        callPushed := fun t' c i hc hi => ?_
        callNe := fun t₁ t₂ c₁ c₂ hc₁ hc₂ hp hseq => ?_
        nodup := h.nodup
        below := fun p info hp k hk => ?_
        fresh := h.fresh }
    · rcases update_eq_some hp with ⟨rfl, hinfo⟩ | ⟨_, hinfo⟩
      · obtain rfl := Option.some.inj hinfo
        exact ⟨hqlt, hqbuf, hqsize⟩
      · exact h.live p info hinfo
    · rcases update_eq_some hc with ⟨rfl, hcall⟩ | ⟨_, hcall⟩
      · obtain rfl := Option.some.inj hcall
        exact ⟨hqlt, hqbuf, hqsize⟩
      · exact h.call t' c hcall
    · rcases update_eq_some hc with ⟨rfl, hcall⟩ | ⟨_, hcall⟩
      · obtain rfl := Option.some.inj hcall
        have hp' : Function.update s.publishers q _ q = some info := hp
        rw [Function.update_self] at hp'
        obtain rfl := Option.some.inj hp'
        exact Nat.lt_succ_self _
      · rcases update_eq_some hp with ⟨hcq, hinfo⟩ | ⟨_, hinfo⟩
        · obtain rfl := Option.some.inj hinfo
          exact (hcallBelow t' c hcall hcq).trans (Nat.lt_succ_self _)
        · exact h.callBelow t' c info hcall hinfo
    · rcases update_eq_some hc with ⟨rfl, hcall⟩ | ⟨_, hcall⟩
      · obtain rfl := Option.some.inj hcall
        intro hmem
        exact Nat.lt_irrefl _ (h.below q info₀ hq _ hmem)
      · exact h.callNew t' c hcall hnone
    · rcases update_eq_some hc with ⟨rfl, hcall⟩ | ⟨_, hcall⟩
      · obtain rfl := Option.some.inj hcall
        cases hi
      · exact h.callPushed t' c i hcall hi
    · rcases update_eq_some hc₁ with ⟨rfl, hcall₁⟩ | ⟨_, hcall₁⟩
      · rcases update_eq_some hc₂ with ⟨rfl, _⟩ | ⟨_, hcall₂⟩
        · rfl
        · obtain rfl := Option.some.inj hcall₁
          have hlt := hcallBelow t₂ c₂ hcall₂ hp.symm
          rw [← hseq] at hlt
          exact absurd hlt (Nat.lt_irrefl _)
      · rcases update_eq_some hc₂ with ⟨rfl, hcall₂⟩ | ⟨_, hcall₂⟩
        · obtain rfl := Option.some.inj hcall₂
          have hlt := hcallBelow t₁ c₁ hcall₁ hp
          rw [hseq] at hlt
          exact absurd hlt (Nat.lt_irrefl _)
        · exact h.callNe t₁ t₂ c₁ c₂ hcall₁ hcall₂ hp hseq
    · rcases update_eq_some hp with ⟨rfl, hinfo⟩ | ⟨_, hinfo⟩
      · obtain rfl := Option.some.inj hinfo
        exact (h.below p info₀ hq k hk).trans (Nat.lt_succ_self _)
      · exact h.below p info hinfo k hk

theorem pushed_update (s : Manager M) (c : StoreCall M) (p : Id) :
    Function.update s.pushed c.buffer (s.pushed c.buffer ++ [(c.seq, c.msg.value)]) p =
      s.pushed p ++ if p = c.buffer then [(c.seq, c.msg.value)] else [] := by
  by_cases hp : p = c.buffer
  · subst hp
    rw [Function.update_self, if_pos rfl]
  · rw [Function.update_of_ne hp, if_neg hp, List.append_nil]

theorem size_buffers_pushMessage (s : Manager M) (t : Nat) (c : StoreCall M) (b : Nat) :
    ((s.pushMessage t c).buffers b).size = (s.buffers b).size := by
  show (Function.update s.buffers c.buffer _ b).size = _
  by_cases hb : b = c.buffer
  · subst hb
    rw [Function.update_self, RingBuffer.size_pushAndReplace]
  · rw [Function.update_of_ne hb]

theorem getElem?_pushed_pushMessage {t : Nat} {c : StoreCall M} {p : Id} {i : Nat} {e : Nat × M}
    (h : (s.pushed p)[i]? = some e) : ((s.pushMessage t c).pushed p)[i]? = some e := by
  show (Function.update s.pushed c.buffer _ p)[i]? = some e
  rw [pushed_update, List.getElem?_append_left (List.getElem?_eq_some_iff.mp h).1]
  exact h

theorem Numbering.pushMessage (h : Numbering s) {t : Nat} {c : StoreCall M}
    (hc : s.calls t = some c) (hnone : c.pushedAt = none) : Numbering (s.pushMessage t c) := by
  obtain ⟨hclt, hcbuf, hcsize⟩ := h.call t c hc
  have hkeys : ∀ p : Id, ((s.pushMessage t c).pushed p).map Prod.fst =
      (s.pushed p).map Prod.fst ++ if p = c.publisher then [c.seq] else [] := by
    intro p
    show (Function.update s.pushed c.buffer _ p).map Prod.fst = _
    rw [pushed_update, List.map_append, hcbuf]
    split <;> rfl
  -- the calls are the same, up to where the push of this one is
  have hcalls : ∀ (t' : Nat) (c' : StoreCall M), (s.pushMessage t c).calls t' = some c' →
      (t' = t ∧ c' = { c with pushedAt := some (s.pushed c.buffer).length }) ∨
        (t' ≠ t ∧ s.calls t' = some c') := by
    intro t' c' hc'
    rcases update_eq_some hc' with ⟨ht, hcall⟩ | hother
    · exact .inl ⟨ht, (Option.some.inj hcall).symm⟩
    · exact .inr hother
  have hcallNe : ∀ (t' : Nat) (c' : StoreCall M), t' ≠ t → s.calls t' = some c' →
      c'.publisher = c.publisher → c'.seq ≠ c.seq := by
    intro t' c' ht hc' hp hseq
    exact ht (h.callNe t' t c' c hc' hc hp hseq)
  refine
    { pos := h.pos
      live := fun p info hp => ?_
      call := fun t' c' hc' => ?_
      callBelow := fun t' c' info hc' hp => ?_
      callNew := fun t' c' hc' hnone' => ?_
      callPushed := fun t' c' i hc' hi => ?_
      callNe := fun t₁ t₂ c₁ c₂ hc₁ hc₂ hp hseq => ?_
      nodup := fun p => ?_
      below := fun p info hp k hk => ?_
      fresh := fun p hp => ?_ }
  · rw [size_buffers_pushMessage]
    exact h.live p info hp
  · rw [size_buffers_pushMessage]
    rcases hcalls t' c' hc' with ⟨rfl, rfl⟩ | ⟨_, hcall⟩
    · exact ⟨hclt, hcbuf, hcsize⟩
    · exact h.call t' c' hcall
  · rcases hcalls t' c' hc' with ⟨rfl, rfl⟩ | ⟨_, hcall⟩
    · exact h.callBelow t' c info hc hp
    · exact h.callBelow t' c' info hcall hp
  · rcases hcalls t' c' hc' with ⟨rfl, rfl⟩ | ⟨ht, hcall⟩
    · cases hnone'
    · rw [hkeys, List.mem_append]
      rintro (hmem | hmem)
      · exact h.callNew t' c' hcall hnone' hmem
      · split at hmem
        · rename_i hp
          exact hcallNe t' c' ht hcall hp (List.mem_singleton.mp hmem)
        · cases hmem
  · rcases hcalls t' c' hc' with ⟨rfl, rfl⟩ | ⟨_, hcall⟩
    · obtain rfl := Option.some.inj hi
      show (Function.update s.pushed c.buffer _ c.publisher)[(s.pushed c.buffer).length]? = _
      rw [← hcbuf, Function.update_self, List.getElem?_append_right (Nat.le_refl _), Nat.sub_self]
      rfl
    · exact getElem?_pushed_pushMessage (h.callPushed t' c' i hcall hi)
  · rcases hcalls t₁ c₁ hc₁ with ⟨rfl, rfl⟩ | ⟨ht₁, hcall₁⟩
    · rcases hcalls t₂ c₂ hc₂ with ⟨rfl, rfl⟩ | ⟨ht₂, hcall₂⟩
      · rfl
      · exact absurd hseq.symm (hcallNe t₂ c₂ ht₂ hcall₂ hp.symm)
    · rcases hcalls t₂ c₂ hc₂ with ⟨rfl, rfl⟩ | ⟨_, hcall₂⟩
      · exact absurd hseq (hcallNe t₁ c₁ ht₁ hcall₁ hp)
      · exact h.callNe t₁ t₂ c₁ c₂ hcall₁ hcall₂ hp hseq
  · rw [hkeys]
    split
    · rename_i hp
      subst hp
      refine List.nodup_append.mpr ⟨h.nodup _, List.nodup_singleton _, fun k hk k' hk' heq => ?_⟩
      rw [List.mem_singleton.mp hk'] at heq
      subst heq
      exact h.callNew t c hc hnone hk
    · rw [List.append_nil]
      exact h.nodup p
  · rw [hkeys, List.mem_append] at hk
    rcases hk with hk | hk
    · exact h.below p info hp k hk
    · split at hk
      · rename_i hpc
        subst hpc
        rw [List.mem_singleton.mp hk]
        exact h.callBelow t c info hc hp
      · cases hk
  · show Function.update s.pushed c.buffer _ p = []
    have hne : p ≠ c.buffer := by
      rintro rfl
      rw [hcbuf] at hp
      exact Nat.not_lt.mpr hp hclt
    rw [pushed_update, h.fresh p hp, if_neg hne]
    rfl

end

end PMROS2.IntraProcess
