import PMROS2.IntraProcess.Numbering
import PMROS2.Lib.Writes

/-!
# What the sections of stores and takes keep

Between any two sections, ids and sequence numbers being unique (`Numbering`):

* `Held`    the buffers hold what was pushed, up to what nobody is left to take;
* `Books`   the targets of a message are the subscriptions it was stored for, without those that
            were removed, that have it, or that are just taking it.

`inv_step` collects one lemma for each step.
-/

namespace PMROS2.IntraProcess
open Std PMROS2.Runs PMROS2.Writes

section
variable {M : Type}

/-! ## the invariant -/

def Manager.Registered (s : Manager M) (sub : Id) : Prop :=
  ∃ topic, sub ∈ s.subscriptionIdsByTopic topic

/-- the subscription has been handed the message -/
def Manager.Delivered (s : Manager M) (p : Id) (k : Nat) (sub : Id) : Prop :=
  ∃ v, Event.delivered p k sub v ∈ s.history

/-- nobody is left to take the message, and nobody is just taking it -/
def Manager.Drained (s : Manager M) (p : Id) (k : Nat) : Prop :=
  (∀ info : PublisherInfo, s.publishers p = some info → info.targets[k]? = some ∅) ∧
    ∀ c, s.taking = some c → ¬ (c.publisher = p ∧ c.seq = k)

/-- the buffers hold what was pushed, drained messages apart -/
def Held (s : Manager M) : Prop :=
  ∀ p, 0 < (s.buffers p).size → (s.buffers p).Tracks (s.pushed p) (s.Drained p)

/-- more than `size` messages were pushed since, this one included -/
def Manager.Displaced (s : Manager M) (r : Stored M) : Prop :=
  r.index + (s.buffers r.publisher).size < (s.pushed r.publisher).length

/-- the take in progress is for this message and subscription -/
def Manager.TakingFor (s : Manager M) (p : Id) (k : Nat) (sub : Id) : Prop :=
  ∃ c, s.taking = some c ∧ c.publisher = p ∧ c.seq = k ∧ c.subscription = sub

/-- the targets against what was stored and delivered -/
structure Books (s : Manager M) : Prop where
  topic : ∀ (topic : String) (sub : Id), sub ∈ s.subscriptionIdsByTopic topic →
    sub < s.nextUniqueId
  storedKnown : ∀ r : Stored M, .stored r ∈ s.history →
    r.publisher < s.nextUniqueId ∧ ∀ sub ∈ r.subscriptions, sub < s.nextUniqueId
  storedPushed : ∀ r : Stored M, .stored r ∈ s.history →
    (s.pushed r.publisher)[r.index]? = some (r.seq, r.value)
  storedCall : ∀ (r : Stored M) (t : Nat) (c : StoreCall M), .stored r ∈ s.history →
    s.calls t = some c → c.publisher = r.publisher → c.seq ≠ r.seq
  storedOnce : ∀ r r' : Stored M, .stored r ∈ s.history → .stored r' ∈ s.history →
    r.publisher = r'.publisher → r.seq = r'.seq → r = r'
  target : ∀ (p : Id) (info : PublisherInfo) (k : Nat) (subs : Finset Id),
    s.publishers p = some info → info.targets[k]? = some subs →
    ∃ r : Stored M, .stored r ∈ s.history ∧ r.publisher = p ∧ r.seq = k ∧ subs ⊆ r.subscriptions
  entry : ∀ (r : Stored M) (info : PublisherInfo), .stored r ∈ s.history →
    s.publishers r.publisher = some info →
    ∃ subs, info.targets[r.seq]? = some subs ∧
      ∀ sub ∈ r.subscriptions, s.Registered sub →
        sub ∈ subs ∨ s.Delivered r.publisher r.seq sub ∨ s.TakingFor r.publisher r.seq sub ∨
          s.Displaced r
  delivered : ∀ (p : Id) (k : Nat) (sub : Id), s.Delivered p k sub →
    (∃ r : Stored M, .stored r ∈ s.history ∧ r.publisher = p ∧ r.seq = k) ∧
    ∀ (info : PublisherInfo) (subs : Finset Id), s.publishers p = some info →
      info.targets[k]? = some subs → sub ∉ subs
  taking : ∀ c : TakeCall, s.taking = some c →
    c.buffer = c.publisher ∧ 0 < (s.buffers c.publisher).size ∧
    (∃ r : Stored M, .stored r ∈ s.history ∧ r.publisher = c.publisher ∧ r.seq = c.seq ∧
      c.subscription ∈ r.subscriptions) ∧
    ¬ s.Delivered c.publisher c.seq c.subscription ∧
    ∀ (info : PublisherInfo) (subs : Finset Id), s.publishers c.publisher = some info →
      info.targets[c.seq]? = some subs → c.subscription ∉ subs ∧ (c.size = 0 → subs = ∅)

structure Inv (s : Manager M) : Prop where
  numbering : Numbering s
  held : Held s
  books : Books s

variable {s s' : Manager M}

/-! ## subscriptions come and go -/

theorem Held.frame (h : Held s) (hb : s'.buffers = s.buffers) (hp : s'.pushed = s.pushed)
    (hd : ∀ p k, s.Drained p k → s'.Drained p k) : Held s' := by
  intro p hpos
  rw [hb] at hpos ⊢
  rw [hp]
  exact (h p hpos).mono (hd p)

/-- the id counter moves on; the only new registration is of the id it was at -/
theorem Inv.count (h : Inv s) (topics : String → Finset Id)
    (htopics : ∀ topic sub, sub ∈ topics topic →
      sub ∈ s.subscriptionIdsByTopic topic ∨ sub = s.nextUniqueId) :
    Inv { s with nextUniqueId := s.nextUniqueId + 1, subscriptionIdsByTopic := topics } where
  numbering := h.numbering.frame (Nat.le_succ _) (fun p info hp => ⟨info, hp, rfl, rfl⟩)
    (fun _ => rfl) (fun _ _ hc => hc) rfl
  held := h.held.frame rfl rfl fun _ _ hd => hd
  books :=
    { topic := fun topic sub hsub => by
        rcases htopics topic sub hsub with hold | rfl
        · exact (h.books.topic topic sub hold).trans (Nat.lt_succ_self _)
        · exact Nat.lt_succ_self _
      storedKnown := fun r hr => by
        obtain ⟨hp, hsubs⟩ := h.books.storedKnown r hr
        exact ⟨hp.trans (Nat.lt_succ_self _),
          fun sub hsub => (hsubs sub hsub).trans (Nat.lt_succ_self _)⟩
      storedPushed := h.books.storedPushed
      storedCall := h.books.storedCall
      storedOnce := h.books.storedOnce
      target := h.books.target
      entry := fun r info hr hp => by
        obtain ⟨subs, hsubs, hall⟩ := h.books.entry r info hr hp
        refine ⟨subs, hsubs, fun sub hsub hreg => hall sub hsub ?_⟩
        -- a subscription of the past does not have the new id
        obtain ⟨topic, hmem⟩ := hreg
        rcases htopics topic sub hmem with hold | rfl
        · exact ⟨topic, hold⟩
        · exact absurd ((h.books.storedKnown r hr).2 _ hsub) (Nat.lt_irrefl _)
      delivered := h.books.delivered
      taking := h.books.taking }

theorem Inv.addSubscription (h : Inv s) (hw : s.nextUniqueId < uint64Values) (maxLength : Nat)
    (topic : String) : Inv (s.addSubscription maxLength topic) := by
  obtain ⟨hid, _⟩ := nextId_of_noWrap h.numbering.pos hw
  unfold Manager.addSubscription
  simp only
  split
  · exact h.count _ fun _ _ hsub => .inl hsub
  split
  · refine h.count _ fun topic' sub hsub => ?_
    by_cases ht : topic' = topic
    · subst ht
      rw [Function.update_self, Finset.mem_insert, hid] at hsub
      exact hsub.symm
    · rw [Function.update_of_ne ht] at hsub
      exact .inl hsub
  · exact h.count _ fun _ _ hsub => .inl hsub

theorem publishers_removeSubscription {id p : Id} {info' : PublisherInfo}
    (h : (s.removeSubscription id).publishers p = some info') :
    ∃ info, s.publishers p = some info ∧ info'.buffer = info.buffer ∧
      info'.sequenceNumber = info.sequenceNumber ∧
      ∀ k : Nat, info'.targets[k]? = info.targets[k]?.map fun subs : Finset Id => subs.erase id := by
  obtain ⟨info, hinfo, rfl⟩ := Option.map_eq_some_iff.mp h
  exact ⟨info, hinfo, rfl, rfl, fun k => ExtTreeMap.getElem?_map⟩

theorem Inv.removeSubscription (h : Inv s) (id : Id) : Inv (s.removeSubscription id) where
  numbering := by
    refine h.numbering.frame (Nat.le_refl _) (fun p info' hp => ?_) (fun _ => rfl)
      (fun _ _ hc => hc) rfl
    obtain ⟨info, hinfo, hb, hseq, _⟩ := publishers_removeSubscription hp
    exact ⟨info, hinfo, hb, hseq⟩
  held := by
    refine h.held.frame rfl rfl fun p k hd => ⟨fun info' hp => ?_, hd.2⟩
    obtain ⟨info, hinfo, _, _, ht⟩ := publishers_removeSubscription hp
    rw [ht, hd.1 info hinfo]
    rfl
  books :=
    { topic := fun topic sub hsub => h.books.topic topic sub (Finset.mem_of_mem_erase hsub)
      storedKnown := h.books.storedKnown
      storedPushed := h.books.storedPushed
      storedCall := h.books.storedCall
      storedOnce := h.books.storedOnce
      target := fun p info' k subs' hp hk => by
        obtain ⟨info, hinfo, _, _, ht⟩ := publishers_removeSubscription hp
        rw [ht] at hk
        obtain ⟨subs, hsubs, rfl⟩ := Option.map_eq_some_iff.mp hk
        obtain ⟨r, hr, hrp, hrk, hsub⟩ := h.books.target p info k subs hinfo hsubs
        exact ⟨r, hr, hrp, hrk, (Finset.erase_subset _ _).trans hsub⟩
      entry := fun r info' hr hp => by
        obtain ⟨info, hinfo, _, _, ht⟩ := publishers_removeSubscription hp
        obtain ⟨subs, hsubs, hall⟩ := h.books.entry r info hr hinfo
        refine ⟨subs.erase id, by rw [ht, hsubs]; rfl, fun sub hsub hreg => ?_⟩
        obtain ⟨topic, hmem⟩ := hreg
        have hmem' := Finset.mem_erase.mp hmem
        exact (hall sub hsub ⟨topic, hmem'.2⟩).imp_left fun hin =>
          Finset.mem_erase.mpr ⟨hmem'.1, hin⟩
      delivered := fun p k sub hdel => by
        obtain ⟨hr, hnot⟩ := h.books.delivered p k sub hdel
        refine ⟨hr, fun info' subs' hp hk hmem => ?_⟩
        obtain ⟨info, hinfo, _, _, ht⟩ := publishers_removeSubscription hp
        rw [ht] at hk
        obtain ⟨subs, hsubs, rfl⟩ := Option.map_eq_some_iff.mp hk
        exact hnot info subs hinfo hsubs (Finset.mem_of_mem_erase hmem)
      taking := fun c hc => by
        obtain ⟨hb, hs, hr, hdel, hnot⟩ := h.books.taking c hc
        refine ⟨hb, hs, hr, hdel, fun info' subs' hp hk => ?_⟩
        obtain ⟨info, hinfo, _, _, ht⟩ := publishers_removeSubscription hp
        rw [ht] at hk
        obtain ⟨subs, hsubs, rfl⟩ := Option.map_eq_some_iff.mp hk
        obtain ⟨hmem, hempty⟩ := hnot info subs hinfo hsubs
        refine ⟨fun hin => hmem (Finset.mem_of_mem_erase hin), fun hzero => ?_⟩
        rw [hempty hzero]
        rfl }

/-! ## publishers come and go -/

theorem Inv.addPublisher (h : Inv s) (hw : s.nextUniqueId < uint64Values) (topic : String)
    (bs qs : Nat) : Inv (s.addPublisher topic bs qs) := by
  have hnum := h.numbering.addPublisher hw topic bs qs
  obtain ⟨hid, hne⟩ := nextId_of_noWrap h.numbering.pos hw
  by_cases hreg : s.nextId = 0 ∨ Manager.bufferSizeOf bs qs = 0
  · have heq : s.addPublisher topic bs qs = { s with nextUniqueId := s.nextUniqueId + 1 } :=
      if_pos hreg
    rw [heq]
    exact h.count _ fun _ _ hsub => .inl hsub
  have heq : s.addPublisher topic bs qs =
      { s with
        nextUniqueId := s.nextUniqueId + 1
        buffers := Function.update s.buffers s.nextUniqueId
          (.construct M (Manager.bufferSizeOf bs qs))
        publishers := Function.update s.publishers s.nextUniqueId
          (some (s.newPublisherInfo topic)) } := by
    unfold Manager.addPublisher
    rw [if_neg hreg, hid]
  rw [heq] at hnum ⊢
  have hnone : s.publishers s.nextUniqueId = none := by
    rw [Option.eq_none_iff_forall_ne_some]
    intro info hp
    exact Nat.lt_irrefl _ (h.numbering.live _ info hp).1
  have htargets : (s.newPublisherInfo topic).targets = ∅ := by
    unfold Manager.newPublisherInfo
    rw [hid, hnone]
  have hpub : ∀ p < s.nextUniqueId, ∀ o : Option PublisherInfo,
      Function.update s.publishers s.nextUniqueId o p = s.publishers p := fun p hp o =>
    Function.update_of_ne hp.ne _ _
  have hbuf : ∀ p < s.nextUniqueId, ∀ b : RingBuffer M,
      Function.update s.buffers s.nextUniqueId b p = s.buffers p := fun p hp b =>
    Function.update_of_ne hp.ne _ _
  refine ⟨hnum, fun p hpos => ?_, ?_⟩
  · by_cases hp : p = s.nextUniqueId
    · subst hp
      have hpos' : 0 < Manager.bufferSizeOf bs qs := Nat.pos_of_ne_zero (not_or.mp hreg).2
      show (Function.update s.buffers s.nextUniqueId _ s.nextUniqueId).Tracks
        (s.pushed s.nextUniqueId) _
      rw [Function.update_self, h.numbering.fresh _ (Nat.le_refl _)]
      exact RingBuffer.tracks_construct _ hpos' _
    · simp only [Function.update_of_ne hp] at hpos ⊢
      refine (h.held p hpos).mono fun k hd => ⟨fun info hinfo => ?_, hd.2⟩
      exact hd.1 info ((Function.update_of_ne hp _ _).symm.trans hinfo)
  · refine
      { topic := fun topic sub hsub => (h.books.topic topic sub hsub).trans (Nat.lt_succ_self _)
        storedKnown := fun r hr => ?_
        storedPushed := h.books.storedPushed
        storedCall := h.books.storedCall
        storedOnce := h.books.storedOnce
        target := fun p info k subs hp hk => ?_
        entry := fun r info hr hp => ?_
        delivered := fun p k sub hdel => ?_
        taking := fun c hc => ?_ }
    · obtain ⟨hp, hsubs⟩ := h.books.storedKnown r hr
      exact ⟨hp.trans (Nat.lt_succ_self _),
        fun sub hsub => (hsubs sub hsub).trans (Nat.lt_succ_self _)⟩
    · rcases update_eq_some hp with ⟨rfl, hinfo⟩ | ⟨_, hinfo⟩
      · obtain rfl := Option.some.inj hinfo
        rw [htargets] at hk
        cases hk
      · exact h.books.target p info k subs hinfo hk
    · have hlt := (h.books.storedKnown r hr).1
      obtain ⟨subs, hsubs, hall⟩ := h.books.entry r info hr ((hpub _ hlt _).symm.trans hp)
      refine ⟨subs, hsubs, fun sub hsub hsubreg => ?_⟩
      rcases hall sub hsub hsubreg with hin | hdel | htake | hdis
      · exact .inl hin
      · exact .inr (.inl hdel)
      · exact .inr (.inr (.inl htake))
      · refine .inr (.inr (.inr ?_))
        unfold Manager.Displaced
        simp only [hbuf _ hlt]
        exact hdis
    · obtain ⟨⟨r, hr, hrp, hrk⟩, hnot⟩ := h.books.delivered p k sub hdel
      refine ⟨⟨r, hr, hrp, hrk⟩, fun info subs hp hk => ?_⟩
      have hlt : p < s.nextUniqueId := hrp ▸ (h.books.storedKnown r hr).1
      exact hnot info subs ((hpub _ hlt _).symm.trans hp) hk
    · obtain ⟨hb, hs, ⟨r, hr, hrp, hrest⟩, hdel, hnot⟩ := h.books.taking c hc
      have hlt : c.publisher < s.nextUniqueId := hrp ▸ (h.books.storedKnown r hr).1
      refine ⟨hb, ?_, ⟨r, hr, hrp, hrest⟩, hdel, fun info subs hp hk => ?_⟩
      · simp only [hbuf _ hlt]
        exact hs
      · exact hnot info subs ((hpub _ hlt _).symm.trans hp) hk

theorem Inv.removePublisher (h : Inv s) (q : Id) : Inv (s.removePublisher q) := by
  have hpub : ∀ p info, (s.removePublisher q).publishers p = some info →
      s.publishers p = some info := by
    intro p info hp
    rcases update_eq_some hp with ⟨_, hinfo⟩ | ⟨_, hinfo⟩
    · cases hinfo
    · exact hinfo
  have hstored : ∀ r : Stored M, .stored r ∈ (s.removePublisher q).history →
      .stored r ∈ s.history := fun r hr => (List.mem_cons.mp hr).resolve_left (by simp)
  have hdelivered : ∀ p k sub, (s.removePublisher q).Delivered p k sub → s.Delivered p k sub := by
    rintro p k sub ⟨v, hv⟩
    exact ⟨v, (List.mem_cons.mp hv).resolve_left (by simp)⟩
  have hnew : ∀ e, e ∈ s.history → e ∈ (s.removePublisher q).history := fun e he =>
    List.mem_cons_of_mem _ he
  refine ⟨?_, ?_, ?_⟩
  · exact h.numbering.frame (Nat.le_refl _) (fun p info hp => ⟨info, hpub p info hp, rfl, rfl⟩)
      (fun _ => rfl) (fun _ _ hc => hc) rfl
  · exact h.held.frame rfl rfl fun p k hd => ⟨fun info hp => hd.1 info (hpub p info hp), hd.2⟩
  · refine
      { topic := h.books.topic
        storedKnown := fun r hr => h.books.storedKnown r (hstored r hr)
        storedPushed := fun r hr => h.books.storedPushed r (hstored r hr)
        storedCall := fun r t c hr => h.books.storedCall r t c (hstored r hr)
        storedOnce := fun r r' hr hr' => h.books.storedOnce r r' (hstored r hr) (hstored r' hr')
        target := fun p info k subs hp hk => ?_
        entry := fun r info hr hp => ?_
        delivered := fun p k sub hdel => ?_
        taking := fun c hc => ?_ }
    · obtain ⟨r, hr, hrest⟩ := h.books.target p info k subs (hpub p info hp) hk
      exact ⟨r, hnew _ hr, hrest⟩
    · obtain ⟨subs, hsubs, hall⟩ := h.books.entry r info (hstored r hr) (hpub _ info hp)
      refine ⟨subs, hsubs, fun sub hsub hreg => ?_⟩
      rcases hall sub hsub hreg with hin | ⟨v, hv⟩ | hrest
      · exact .inl hin
      · exact .inr (.inl ⟨v, hnew _ hv⟩)
      · exact .inr (.inr hrest)
    · obtain ⟨⟨r, hr, hrest⟩, hnot⟩ := h.books.delivered p k sub (hdelivered p k sub hdel)
      exact ⟨⟨r, hnew _ hr, hrest⟩, fun info subs hp => hnot info subs (hpub p info hp)⟩
    · obtain ⟨hb, hs, ⟨r, hr, hrest⟩, hdel, hnot⟩ := h.books.taking c hc
      exact ⟨hb, hs, ⟨r, hnew _ hr, hrest⟩, fun hd => hdel (hdelivered _ _ _ hd),
        fun info subs hp => hnot info subs (hpub _ info hp)⟩

/-! ## the sections of a store -/

theorem Inv.numberMessage (h : Inv s) (t : Nat) (q : Id) (msg : Message M)
    (hidle : s.calls t = none)
    (hw : ∀ info, s.publishers q = some info → info.sequenceNumber < uint64Values) :
    Inv (s.numberMessage t q msg) := by
  have hnum := h.numbering.numberMessage t q msg hidle hw
  unfold Manager.numberMessage at hnum ⊢
  cases hq : s.publishers q with
  | none => exact h
  | some info₀ =>
    rw [hq] at hnum
    simp only at hnum ⊢
    have hpub : ∀ p info, Function.update s.publishers q
        (some { info₀ with sequenceNumber := info₀.sequenceNumber + 1 }) p = some info →
        ∃ info', s.publishers p = some info' ∧ info.targets = info'.targets := by
      intro p info hp
      rcases update_eq_some hp with ⟨rfl, hinfo⟩ | ⟨_, hinfo⟩
      · obtain rfl := Option.some.inj hinfo
        exact ⟨info₀, hq, rfl⟩
      · exact ⟨info, hinfo, rfl⟩
    refine ⟨hnum, ?_, ?_⟩
    · refine h.held.frame rfl rfl fun p k hd => ⟨fun info hp => ?_, hd.2⟩
      obtain ⟨info', hinfo, ht⟩ := hpub p info hp
      rw [ht]
      exact hd.1 info' hinfo
    · refine
        { topic := h.books.topic
          storedKnown := h.books.storedKnown
          storedPushed := h.books.storedPushed
          storedCall := fun r t' c hr hc hcr => ?_
          storedOnce := h.books.storedOnce
          target := fun p info k subs hp hk => ?_
          entry := fun r info hr hp => ?_
          delivered := fun p k sub hdel => ?_
          taking := fun c hc => ?_ }
      · rcases update_eq_some hc with ⟨_, hcall⟩ | ⟨_, hcall⟩
        · obtain rfl := Option.some.inj hcall
          -- what was stored was pushed, and so is below the new number
          have hmem : r.seq ∈ (s.pushed q).map Prod.fst := by
            have hcr' : q = r.publisher := hcr
            rw [hcr']
            exact List.mem_map.mpr
              ⟨_, List.mem_of_getElem? (h.books.storedPushed r hr), rfl⟩
          have hlt := h.numbering.below q info₀ hq _ hmem
          have hmod : info₀.sequenceNumber % uint64Values = info₀.sequenceNumber :=
            Nat.mod_eq_of_lt (hw info₀ hq)
          simp only [hmod]
          exact hlt.ne'
        · exact h.books.storedCall r t' c hr hcall hcr
      · obtain ⟨info', hinfo, ht⟩ := hpub p info hp
        rw [ht] at hk
        exact h.books.target p info' k subs hinfo hk
      · obtain ⟨info', hinfo, ht⟩ := hpub _ info hp
        rw [ht]
        exact h.books.entry r info' hr hinfo
      · obtain ⟨hr, hnot⟩ := h.books.delivered p k sub hdel
        refine ⟨hr, fun info subs hp hk => ?_⟩
        obtain ⟨info', hinfo, ht⟩ := hpub p info hp
        rw [ht] at hk
        exact hnot info' subs hinfo hk
      · obtain ⟨hb, hs, hr, hdel, hnot⟩ := h.books.taking c hc
        refine ⟨hb, hs, hr, hdel, fun info subs hp hk => ?_⟩
        obtain ⟨info', hinfo, ht⟩ := hpub _ info hp
        rw [ht] at hk
        exact hnot info' subs hinfo hk

theorem Inv.pushMessage (h : Inv s) {t : Nat} {c : StoreCall M} (hc : s.calls t = some c)
    (hnone : c.pushedAt = none) : Inv (s.pushMessage t c) := by
  refine ⟨h.numbering.pushMessage hc hnone, fun p hpos => ?_, ?_⟩
  · by_cases hp : p = c.buffer
    · subst hp
      rw [size_buffers_pushMessage] at hpos
      show (Function.update s.buffers c.buffer _ c.buffer).Tracks
        (Function.update s.pushed c.buffer _ c.buffer) (s.Drained c.buffer)
      rw [Function.update_self, Function.update_self]
      exact (h.held c.buffer hpos).pushAndReplace c.seq c.msg.own c.msg.value
    · show (Function.update s.buffers c.buffer _ p).Tracks
        (Function.update s.pushed c.buffer _ p) (s.Drained p)
      rw [size_buffers_pushMessage] at hpos
      rw [Function.update_of_ne hp, Function.update_of_ne hp]
      exact h.held p hpos
  · refine
      { topic := h.books.topic
        storedKnown := h.books.storedKnown
        storedPushed := fun r hr => getElem?_pushed_pushMessage (h.books.storedPushed r hr)
        storedCall := fun r t' c' hr hc' => ?_
        storedOnce := h.books.storedOnce
        target := h.books.target
        entry := fun r info hr hp => ?_
        delivered := h.books.delivered
        taking := fun c' hc' => ?_ }
    · rcases update_eq_some hc' with ⟨_, hcall⟩ | ⟨_, hcall⟩
      · obtain rfl := Option.some.inj hcall
        exact h.books.storedCall r t c hr hc
      · exact h.books.storedCall r t' c' hr hcall
    · obtain ⟨subs, hsubs, hall⟩ := h.books.entry r info hr hp
      refine ⟨subs, hsubs, fun sub hsub hreg => ?_⟩
      rcases hall sub hsub hreg with hin | hdel | htake | hdis
      · exact .inl hin
      · exact .inr (.inl hdel)
      · exact .inr (.inr (.inl htake))
      · -- the log only grows
        refine .inr (.inr (.inr ?_))
        unfold Manager.Displaced at hdis ⊢
        rw [size_buffers_pushMessage]
        show _ < (Function.update s.pushed c.buffer _ r.publisher).length
        rw [pushed_update, List.length_append]
        exact hdis.trans_le (Nat.le_add_right _ _)
    · obtain ⟨hb, hs, hrest⟩ := h.books.taking c' hc'
      exact ⟨hb, by rw [size_buffers_pushMessage]; exact hs, hrest⟩

theorem Inv.endCall (h : Inv s) (t : Nat) :
    Inv { s with calls := Function.update s.calls t none } := by
  have hcalls : ∀ (t' : Nat) (c : StoreCall M), Function.update s.calls t none t' = some c →
      s.calls t' = some c := by
    intro t' c hc
    rcases update_eq_some hc with ⟨_, hcall⟩ | ⟨_, hcall⟩
    · cases hcall
    · exact hcall
  refine ⟨?_, h.held.frame rfl rfl fun _ _ hd => hd, ?_⟩
  · exact h.numbering.frame (Nat.le_refl _) (fun p info hp => ⟨info, hp, rfl, rfl⟩)
      (fun _ => rfl) hcalls rfl
  · exact { h.books with storedCall := fun r t' c hr hc =>
              h.books.storedCall r t' c hr (hcalls t' c hc) }

theorem targets_insert {info : PublisherInfo} {k : Nat} {subs : Finset Id} {q p : Id}
    {info' : PublisherInfo} (hq : s.publishers q = some info)
    (h : Function.update s.publishers q (some { info with targets := info.targets.insert k subs }) p
      = some info') :
    ∃ info₀, s.publishers p = some info₀ ∧ info'.buffer = info₀.buffer ∧
      info'.sequenceNumber = info₀.sequenceNumber ∧
      ∀ j : Nat, info'.targets[j]? = if p = q ∧ k = j then some subs else info₀.targets[j]? := by
  rcases update_eq_some h with ⟨rfl, hinfo⟩ | ⟨hne, hinfo⟩
  · obtain rfl := Option.some.inj hinfo
    refine ⟨info, hq, rfl, rfl, fun j => ?_⟩
    rw [getElem?_insert_if]
    simp
  · refine ⟨info', hinfo, rfl, rfl, fun j => ?_⟩
    rw [if_neg fun hj => hne hj.1]

/-- a store records its targets under a number that no stored message has -/
theorem Inv.recordTargets (h : Inv s) (maxLength : Nat) {t : Nat} (expired : Bool)
    {c : StoreCall M} {index : Nat} (hc : s.calls t = some c) (hidx : c.pushedAt = some index) :
    Inv (s.recordTargets maxLength t expired c index) := by
  unfold Manager.recordTargets
  cases hq : s.publishers c.publisher with
  | none => exact h.endCall t
  | some info =>
    simp only
    split
    · exact h.endCall t
    have hend := h.endCall t
    have hfreshSeq : ∀ r : Stored M, .stored r ∈ s.history → r.publisher = c.publisher →
        r.seq ≠ c.seq := fun r hr hrp => (h.books.storedCall r t c hr hc hrp.symm).symm
    -- no entry, no delivery and no take is of this number
    have hfreshTarget : info.targets[c.seq]? = none := by
      rw [Option.eq_none_iff_forall_ne_some]
      intro subs hsubs
      obtain ⟨r, hr, hrp, hrk, _⟩ := h.books.target _ info _ subs hq hsubs
      exact hfreshSeq r hr hrp hrk
    have hstored : ∀ r r₀ : Stored M, .stored r ∈ Event.stored r₀ :: s.history →
        r = r₀ ∨ .stored r ∈ s.history := by
      intro r r₀ hr
      rcases List.mem_cons.mp hr with heq | hr
      · exact .inl (Event.stored.inj heq)
      · exact .inr hr
    refine ⟨?_, ?_, ?_⟩
    · refine hend.numbering.frame (Nat.le_refl _) (fun p info' hp => ?_) (fun _ => rfl)
        (fun _ _ hc => hc) rfl
      obtain ⟨info₀, hinfo, hb, hseq, _⟩ := targets_insert hq hp
      exact ⟨info₀, hinfo, hb, hseq⟩
    · refine h.held.frame rfl rfl fun p k hd => ⟨fun info' hp => ?_, hd.2⟩
      obtain ⟨info₀, hinfo, _, _, ht⟩ := targets_insert hq hp
      rw [ht, if_neg, hd.1 info₀ hinfo]
      rintro ⟨rfl, rfl⟩
      rw [hd.1 info hq] at hfreshTarget
      cases hfreshTarget
    · refine
        { topic := h.books.topic
          storedKnown := fun r hr => ?_
          storedPushed := fun r hr => ?_
          storedCall := fun r t' c' hr hc' hcr => ?_
          storedOnce := fun r r' hr hr' hp hk => ?_
          target := fun p info' k subs hp hk => ?_
          entry := fun r info' hr hp => ?_
          delivered := fun p k sub hdel => ?_
          taking := fun c' hc' => ?_ }
      · rcases hstored r _ hr with rfl | hr
        · exact ⟨(h.numbering.call t c hc).1, fun sub hsub => h.books.topic _ sub hsub⟩
        · exact h.books.storedKnown r hr
      · rcases hstored r _ hr with rfl | hr
        · exact h.numbering.callPushed t c index hc hidx
        · exact h.books.storedPushed r hr
      · rcases update_eq_some hc' with ⟨_, hcall⟩ | ⟨ht, hcall⟩
        · cases hcall
        rcases hstored r _ hr with rfl | hr
        · intro hseq
          exact ht (h.numbering.callNe t' t c' c hcall hc hcr hseq)
        · exact h.books.storedCall r t' c' hr hcall hcr
      · rcases hstored r _ hr with rfl | hr
        · rcases hstored r' _ hr' with rfl | hr'
          · rfl
          · exact absurd hk.symm (hfreshSeq r' hr' hp.symm)
        · rcases hstored r' _ hr' with rfl | hr'
          · exact absurd hk (hfreshSeq r hr hp)
          · exact h.books.storedOnce r r' hr hr' hp hk
      · obtain ⟨info₀, hinfo, _, _, ht⟩ := targets_insert hq hp
        rw [ht] at hk
        split at hk
        · rename_i hpk
          obtain ⟨rfl, rfl⟩ := hpk
          obtain rfl := Option.some.inj hk
          exact ⟨_, List.mem_cons_self, rfl, rfl, Finset.Subset.refl _⟩
        · obtain ⟨r, hr, hrest⟩ := h.books.target p info₀ k subs hinfo hk
          exact ⟨r, List.mem_cons_of_mem _ hr, hrest⟩
      · obtain ⟨info₀, hinfo, _, _, ht⟩ := targets_insert hq hp
        rcases hstored r _ hr with rfl | hr
        · exact ⟨_, by rw [ht, if_pos ⟨rfl, rfl⟩], fun sub hsub _ => .inl hsub⟩
        · obtain ⟨subs, hsubs, hall⟩ := h.books.entry r info₀ hr hinfo
          refine ⟨subs, ?_, fun sub hsub hreg => ?_⟩
          · rw [ht, if_neg fun hpk => hfreshSeq r hr hpk.1 hpk.2.symm]
            exact hsubs
          · rcases hall sub hsub hreg with hin | ⟨v, hv⟩ | hrest
            · exact .inl hin
            · exact .inr (.inl ⟨v, List.mem_cons_of_mem _ hv⟩)
            · exact .inr (.inr hrest)
      · obtain ⟨v, hv⟩ := hdel
        have hdel' : s.Delivered p k sub := ⟨v, (List.mem_cons.mp hv).resolve_left (by simp)⟩
        obtain ⟨⟨r, hr, hrp, hrk⟩, hnot⟩ := h.books.delivered p k sub hdel'
        refine ⟨⟨r, List.mem_cons_of_mem _ hr, hrp, hrk⟩, fun info' subs hp hk => ?_⟩
        obtain ⟨info₀, hinfo, _, _, ht⟩ := targets_insert hq hp
        rw [ht, if_neg] at hk
        · exact hnot info₀ subs hinfo hk
        · rintro ⟨rfl, hk'⟩
          exact hfreshSeq r hr hrp (hrk.trans hk'.symm)
      · obtain ⟨hb, hs, ⟨r, hr, hrp, hrk, hsub⟩, hdel, hnot⟩ := h.books.taking c' hc'
        refine ⟨hb, hs, ⟨r, List.mem_cons_of_mem _ hr, hrp, hrk, hsub⟩, ?_,
          fun info' subs hp hk => ?_⟩
        · rintro ⟨v, hv⟩
          exact hdel ⟨v, (List.mem_cons.mp hv).resolve_left (by simp)⟩
        · obtain ⟨info₀, hinfo, _, _, ht⟩ := targets_insert hq hp
          rw [ht, if_neg] at hk
          · exact hnot info₀ subs hinfo hk
          · rintro ⟨hpc, hk'⟩
            exact hfreshSeq r hr (hrp.trans hpc) (hrk.trans hk'.symm)

/-! ## the sections of a take -/

theorem Inv.takeTarget (h : Inv s) (hidle : s.taking = none) (q : Id) (k : Nat) (sub : Id)
    (own : Ownership) : Inv (s.takeTarget q k sub own) := by
  unfold Manager.takeTarget
  cases hfound : s.targetsWith q k sub with
  | none => exact h
  | some found =>
    obtain ⟨info, subs⟩ := found
    obtain ⟨hq, hk, hmem⟩ := targetsWith_some hfound
    simp only
    have hnotTaking : ∀ p j sub', ¬ s.TakingFor p j sub' := by
      rintro p j sub' ⟨c, hc, _⟩
      rw [hidle] at hc
      cases hc
    refine ⟨?_, ?_, ?_⟩
    · refine h.numbering.frame (Nat.le_refl _) (fun p info' hp => ?_) (fun _ => rfl)
        (fun _ _ hc => hc) rfl
      obtain ⟨info₀, hinfo, hb, hseq, _⟩ := targets_insert hq hp
      exact ⟨info₀, hinfo, hb, hseq⟩
    · refine h.held.frame rfl rfl fun p j hd => ?_
      -- the message that is taken had a target left, so it was not drained
      have hne : ¬ (p = q ∧ k = j) := by
        rintro ⟨rfl, rfl⟩
        rw [hd.1 info hq] at hk
        obtain rfl := Option.some.inj hk
        cases hmem
      refine ⟨fun info' hp => ?_, fun c hc hcp => ?_⟩
      · obtain ⟨info₀, hinfo, _, _, ht⟩ := targets_insert hq hp
        rw [ht, if_neg hne]
        exact hd.1 info₀ hinfo
      · obtain rfl := Option.some.inj hc
        exact hne ⟨hcp.1.symm, hcp.2⟩
    · refine
        { topic := h.books.topic
          storedKnown := h.books.storedKnown
          storedPushed := h.books.storedPushed
          storedCall := h.books.storedCall
          storedOnce := h.books.storedOnce
          target := fun p info' j subs' hp hj => ?_
          entry := fun r info' hr hp => ?_
          delivered := fun p j sub' hdel => ?_
          taking := fun c hc => ?_ }
      · obtain ⟨info₀, hinfo, _, _, ht⟩ := targets_insert hq hp
        rw [ht] at hj
        split at hj
        · rename_i hpk
          obtain ⟨rfl, rfl⟩ := hpk
          obtain rfl := Option.some.inj hj
          obtain ⟨r, hr, hrp, hrk, hsubs⟩ := h.books.target p info k subs hq hk
          exact ⟨r, hr, hrp, hrk, (Finset.erase_subset _ _).trans hsubs⟩
        · exact h.books.target p info₀ j subs' hinfo hj
      · obtain ⟨info₀, hinfo, _, _, ht⟩ := targets_insert hq hp
        obtain ⟨subs₀, hsubs₀, hall⟩ := h.books.entry r info₀ hr hinfo
        by_cases hpk : r.publisher = q ∧ k = r.seq
        · obtain ⟨hrq, hrk⟩ := hpk
          refine ⟨subs.erase sub, by rw [ht, if_pos ⟨hrq, hrk⟩], fun sub' hsub' hreg => ?_⟩
          have hsame : subs₀ = subs := by
            rw [hrq] at hinfo
            obtain rfl := Option.some.inj (hq.symm.trans hinfo)
            rw [← hrk] at hsubs₀
            exact Option.some.inj (hsubs₀.symm.trans hk)
          subst hsame
          rcases hall sub' hsub' hreg with hin | hdel | htake | hdis
          · by_cases hss : sub' = sub
            · subst hss
              exact .inr (.inr (.inl ⟨_, rfl, hrq.symm, hrk, rfl⟩))
            · exact .inl (Finset.mem_erase.mpr ⟨hss, hin⟩)
          · exact .inr (.inl hdel)
          · exact absurd htake (hnotTaking _ _ _)
          · exact .inr (.inr (.inr hdis))
        · refine ⟨subs₀, by rw [ht, if_neg hpk]; exact hsubs₀, fun sub' hsub' hreg => ?_⟩
          rcases hall sub' hsub' hreg with hin | hdel | htake | hdis
          · exact .inl hin
          · exact .inr (.inl hdel)
          · exact absurd htake (hnotTaking _ _ _)
          · exact .inr (.inr (.inr hdis))
      · obtain ⟨hr, hnot⟩ := h.books.delivered p j sub' hdel
        refine ⟨hr, fun info' subs' hp hj => ?_⟩
        obtain ⟨info₀, hinfo, _, _, ht⟩ := targets_insert hq hp
        rw [ht] at hj
        split at hj
        · rename_i hpk
          obtain ⟨rfl, rfl⟩ := hpk
          obtain rfl := Option.some.inj hj
          exact fun hin => hnot info subs hq hk (Finset.mem_of_mem_erase hin)
        · exact hnot info₀ subs' hinfo hj
      · obtain rfl := Option.some.inj hc
        obtain ⟨_, hbuf, hsize⟩ := h.numbering.live q info hq
        obtain ⟨r, hr, hrp, hrk, hsubs⟩ := h.books.target q info k subs hq hk
        refine ⟨hbuf, hsize, ⟨r, hr, hrp, hrk, hsubs hmem⟩, fun hdel => ?_,
          fun info' subs' hp hj => ?_⟩
        · exact (h.books.delivered q k sub hdel).2 info subs hq hk hmem
        · obtain ⟨info₀, _, _, _, ht⟩ := targets_insert hq hp
          rw [ht, if_pos ⟨rfl, rfl⟩] at hj
          obtain rfl := Option.some.inj hj
          exact ⟨Finset.notMem_erase _ _, fun hzero => Finset.card_eq_zero.mp hzero⟩

/-- **What the second section of a take returns**: the value that was stored, unless the message
was displaced. -/
theorem Inv.takeResult_fst (h : Inv s) {c : TakeCall} (hc : s.taking = some c) :
    ∃ o, (s.takeResult c).1 = .ok o ∧
      ∀ r : Stored M, .stored r ∈ s.history → r.publisher = c.publisher → r.seq = c.seq →
        (∀ v, o = some v → r.value = v) ∧ (¬ s.Displaced r → o = some r.value) := by
  obtain ⟨hbuf, hsize, _⟩ := h.books.taking c hc
  have htracks := h.held c.publisher hsize
  have hnodup := h.numbering.nodup c.publisher
  have hspec : ∃ o, (s.takeResult c).1 = .ok o ∧
      (∀ v, o = some v → (c.seq, v) ∈ s.pushed c.publisher) ∧
      ∀ (j : Nat) (v : M), (s.pushed c.publisher)[j]? = some (c.seq, v) →
        (s.pushed c.publisher).length ≤ j + (s.buffers c.publisher).size →
        ¬ s.Drained c.publisher c.seq → o = some v := by
    unfold Manager.takeResult
    rw [hbuf]
    split
    · exact htracks.atKey_fst hnodup (yields_getElement c.own) c.seq
    · exact htracks.atKey_fst hnodup (yields_popElement c.own) c.seq
  obtain ⟨o, hres, hvalue, hkept⟩ := hspec
  refine ⟨o, hres, fun r hr hrp hrk => ⟨fun v hv => ?_, fun hdis => ?_⟩⟩
  · -- the number was pushed once
    have hpushed := h.books.storedPushed r hr
    rw [hrp, hrk] at hpushed
    have hmem := List.mem_of_getElem? hpushed
    have hpair := List.inj_on_of_nodup_map hnodup hmem (hvalue v hv) rfl
    exact (Prod.mk.inj hpair).2
  · have hpushed := h.books.storedPushed r hr
    rw [hrp, hrk] at hpushed
    apply hkept r.index r.value hpushed
    · unfold Manager.Displaced at hdis
      rw [hrp] at hdis
      exact Nat.not_lt.mp hdis
    · exact fun hd => hd.2 c hc ⟨rfl, rfl⟩

theorem size_takeResult (s : Manager M) (c : TakeCall) :
    (s.takeResult c).2.size = (s.buffers c.buffer).size := by
  unfold Manager.takeResult
  split
  · exact RingBuffer.size_atKey ..
  · exact RingBuffer.size_atKey ..

theorem size_buffers_takeMessage (s : Manager M) (c : TakeCall) (b : Nat) :
    ((s.takeMessage c).buffers b).size = (s.buffers b).size := by
  show (Function.update s.buffers c.buffer _ b).size = _
  by_cases hb : b = c.buffer
  · subst hb
    rw [Function.update_self, size_takeResult]
  · rw [Function.update_of_ne hb]

theorem history_takeMessage {c : TakeCall} {o : Option M} (h : (s.takeResult c).1 = .ok o) :
    (s.takeMessage c).history =
      (o.map (.delivered c.publisher c.seq c.subscription)).toList ++ s.history := by
  unfold Manager.takeMessage
  rw [h]
  cases o <;> rfl

theorem Inv.takeMessage (h : Inv s) {c : TakeCall} (hc : s.taking = some c) :
    Inv (s.takeMessage c) := by
  obtain ⟨hbuf, hsize, ⟨rc, hrc, hrcp, hrck, hrcs⟩, hdel, hnot⟩ := h.books.taking c hc
  obtain ⟨o, hres, hspec⟩ := h.takeResult_fst hc
  have hhist := history_takeMessage hres
  have hstored : ∀ r : Stored M, .stored r ∈ (s.takeMessage c).history ↔ .stored r ∈ s.history := by
    intro r
    rw [hhist]
    cases o with
    | none => exact Iff.rfl
    | some v => simp
  -- what is delivered afterwards: what was, and this triple if a message is returned
  have hdelivered : ∀ p k sub, (s.takeMessage c).Delivered p k sub →
      s.Delivered p k sub ∨ (p = c.publisher ∧ k = c.seq ∧ sub = c.subscription) := by
    rintro p k sub ⟨v, hv⟩
    rw [hhist] at hv
    cases o with
    | none => exact .inl ⟨v, hv⟩
    | some w =>
      rcases List.mem_cons.mp hv with heq | hv
      · obtain ⟨rfl, rfl, rfl, _⟩ := Event.delivered.inj heq
        exact .inr ⟨rfl, rfl, rfl⟩
      · exact .inl ⟨v, hv⟩
  have hkept : ∀ p k sub, s.Delivered p k sub → (s.takeMessage c).Delivered p k sub := by
    rintro p k sub ⟨v, hv⟩
    refine ⟨v, ?_⟩
    rw [hhist]
    cases o with
    | none => exact hv
    | some w => exact List.mem_cons_of_mem _ hv
  have hdrained : ∀ p k, s.Drained p k → (s.takeMessage c).Drained p k := fun p k hd =>
    ⟨hd.1, fun c' hc' => by cases hc'⟩
  refine ⟨?_, fun p hpos => ?_, ?_⟩
  · exact h.numbering.frame (Nat.le_refl _) (fun p info hp => ⟨info, hp, rfl, rfl⟩)
      (size_buffers_takeMessage s c) (fun _ _ hc => hc) rfl
  · rw [size_buffers_takeMessage] at hpos
    by_cases hp : p = c.buffer
    · subst hp
      show (Function.update s.buffers c.buffer _ c.buffer).Tracks (s.pushed c.buffer) _
      rw [Function.update_self]
      unfold Manager.takeResult
      split
      · exact (h.held _ hpos).atKey_snd (yields_getElement c.own) c.seq (hdrained _)
          (.inr (getElement_inUse c.own))
      · -- popped: the targets are empty
        rename_i hzero
        refine (h.held _ hpos).atKey_snd (yields_popElement c.own) c.seq (hdrained _) (.inl ?_)
        refine ⟨fun info hp => ?_, fun c' hc' => by cases hc'⟩
        rw [hbuf] at hp
        have hp' : s.publishers rc.publisher = some info := hrcp ▸ hp
        obtain ⟨subs, hsubs, _⟩ := h.books.entry rc info hrc hp'
        rw [hrck] at hsubs
        rw [hsubs, (hnot info subs hp hsubs).2 (not_not.mp hzero)]
    · show (Function.update s.buffers c.buffer _ p).Tracks (s.pushed p) _
      rw [Function.update_of_ne hp]
      exact (h.held p hpos).mono (hdrained p)
  · refine
      { topic := h.books.topic
        storedKnown := fun r hr => h.books.storedKnown r ((hstored r).mp hr)
        storedPushed := fun r hr => h.books.storedPushed r ((hstored r).mp hr)
        storedCall := fun r t c hr => h.books.storedCall r t c ((hstored r).mp hr)
        storedOnce := fun r r' hr hr' =>
          h.books.storedOnce r r' ((hstored r).mp hr) ((hstored r').mp hr')
        target := fun p info k subs hp hk => ?_
        entry := fun r info hr hp => ?_
        delivered := fun p k sub hdel' => ?_
        taking := fun c' hc' => by cases hc' }
    · obtain ⟨r, hr, hrest⟩ := h.books.target p info k subs hp hk
      exact ⟨r, (hstored r).mpr hr, hrest⟩
    · have hr' := (hstored r).mp hr
      obtain ⟨subs, hsubs, hall⟩ := h.books.entry r info hr' hp
      refine ⟨subs, hsubs, fun sub hsub hreg => ?_⟩
      have hdis : s.Displaced r → (s.takeMessage c).Displaced r := by
        intro hd
        unfold Manager.Displaced
        rw [size_buffers_takeMessage]
        exact hd
      rcases hall sub hsub hreg with hin | hdel' | ⟨c', hc', hcp, hck, hcs⟩ | hd
      · exact .inl hin
      · exact .inr (.inl (hkept _ _ _ hdel'))
      · -- the take in progress ends here: it delivers unless the message was displaced
        obtain rfl := Option.some.inj (hc.symm.trans hc')
        by_cases hd : s.Displaced r
        · exact .inr (.inr (.inr (hdis hd)))
        · refine .inr (.inl ⟨r.value, ?_⟩)
          rw [hhist, (hspec r hr' hcp.symm hck.symm).2 hd, ← hcp, ← hck, ← hcs]
          exact List.mem_cons_self
      · exact .inr (.inr (.inr (hdis hd)))
    · rcases hdelivered p k sub hdel' with hdel' | ⟨rfl, rfl, rfl⟩
      · obtain ⟨⟨r, hr, hrest⟩, hnot'⟩ := h.books.delivered p k sub hdel'
        exact ⟨⟨r, (hstored r).mpr hr, hrest⟩, hnot'⟩
      · exact ⟨⟨rc, (hstored rc).mpr hrc, hrcp, hrck⟩,
          fun info subs hp hk => (hnot info subs hp hk).1⟩

/-! ## every step -/

theorem inv_init : Inv ({} : Manager M) where
  numbering :=
    { pos := Nat.one_pos
      live := fun _ _ hp => by cases hp
      call := fun _ _ hc => by cases hc
      callBelow := fun _ _ _ hc => by cases hc
      callNew := fun _ _ hc => by cases hc
      callPushed := fun _ _ _ hc => by cases hc
      callNe := fun _ _ _ _ hc => by cases hc
      nodup := fun _ => List.nodup_nil
      below := fun _ _ hp => by cases hp
      fresh := fun _ _ => rfl }
  held := fun _ hpos => absurd hpos (Nat.lt_irrefl 0)
  books :=
    { topic := fun _ _ hsub => by cases hsub
      storedKnown := fun _ hr => by cases hr
      storedPushed := fun _ hr => by cases hr
      storedCall := fun _ _ _ hr => by cases hr
      storedOnce := fun _ _ hr => by cases hr
      target := fun _ _ _ _ hp => by cases hp
      entry := fun _ _ hr => by cases hr
      delivered := fun _ _ _ hdel => by
        obtain ⟨v, hv⟩ := hdel
        cases hv
      taking := fun _ hc => by cases hc }

/-- **Every step that hands out no id and no number twice keeps the invariant.** -/
theorem inv_step (maxLength : Nat) {a : Action M} (h : Inv s)
    (hs : step maxLength s a = some s') (hw : NoWrap s a) : Inv s' := by
  cases a with
  | addSubscription topic =>
    obtain rfl := Option.some.inj hs
    exact h.addSubscription hw maxLength topic
  | removeSubscription id =>
    obtain rfl := Option.some.inj hs
    exact h.removeSubscription id
  | addPublisher topic bs qs =>
    obtain rfl := Option.some.inj hs
    exact h.addPublisher hw topic bs qs
  | removePublisher id =>
    obtain rfl := Option.some.inj hs
    exact h.removePublisher id
  | numberMessage t q msg =>
    unfold step at hs
    simp only at hs
    split at hs
    · rename_i hidle
      obtain rfl := Option.some.inj hs
      exact h.numberMessage t q msg hidle hw
    · cases hs
  | pushMessage t =>
    unfold step at hs
    simp only at hs
    split at hs
    · rename_i c hc
      split at hs
      · rename_i hnone
        obtain rfl := Option.some.inj hs
        exact h.pushMessage hc hnone
      · cases hs
    · cases hs
  | recordTargets t expired =>
    unfold step at hs
    simp only at hs
    split at hs
    · rename_i c hc
      obtain ⟨index, hidx, rfl⟩ := Option.map_eq_some_iff.mp hs
      exact h.recordTargets maxLength expired hc hidx
    · cases hs
  | takeTarget q k sub own =>
    unfold step at hs
    simp only at hs
    split at hs
    · rename_i hidle
      obtain rfl := Option.some.inj hs
      exact h.takeTarget hidle q k sub own
    · cases hs
  | takeMessage =>
    obtain ⟨c, hc, rfl⟩ := Option.map_eq_some_iff.mp hs
    exact h.takeMessage hc

end

end PMROS2.IntraProcess
