import PMROS2.Rcl.Timer
import PMROS2.Lib.Runs

/-!
# The jump callbacks of a clock

`rcl_clock_add_jump_callback` and `rcl_clock_remove_jump_callback` (`time.c`).  A removal moves the
callbacks behind the given one back by one cell and then makes the array smaller; the array may
stay where it is, and the call fails with the cells moved already.

* `moveBack_found`         the array after the loop of a removal;
* `Ordered`                the pairs are distinct, in the order in which they were added;
* `Proper`                 what one call promises;
* `proper_iff`             a call keeps its promises, in an ordered state, just when no removal in
                           front of the last callback fails to shrink the array;
* `jumpCallbacks_proper_iff`   the same along every run.

The addresses of callbacks and of user data are of arbitrary types; `none` is a callback that is
`NULL`.  Whether an allocation succeeds is part of the call.
-/

set_option linter.unusedSectionVars false

namespace PMROS2.Rcl
open Runs

/-! ## the functions -/

/-- durations are in nanoseconds -/
structure JumpThreshold where
  onClockChange : Bool
  minForward : Int
  minBackward : Int
  deriving DecidableEq

structure JumpCallbackInfo (κ υ : Type*) where
  callback : κ
  threshold : JumpThreshold
  userData : υ
  deriving DecidableEq

structure JumpClock (κ υ : Type*) where
  /-- an array of `num_jump_callbacks` elements -/
  jumpCallbacks : List (JumpCallbackInfo κ υ) := []
  /-- what `RCL_CHECK_ALLOCATOR` finds of `clock->allocator` -/
  allocatorIsValid : Bool := true

variable {κ υ : Type*}

def JumpCallbackInfo.pair (info : JumpCallbackInfo κ υ) : κ × υ := (info.callback, info.userData)

def JumpClock.pairs (clock : JumpClock κ υ) : List (κ × υ) :=
  clock.jumpCallbacks.map JumpCallbackInfo.pair

variable [DecidableEq κ] [DecidableEq υ]

/-- `rcl_clock_add_jump_callback`; `allocated`: `reallocate` returns an array -/
def addJumpCallback (clock : JumpClock κ υ) (threshold : JumpThreshold) (callback : Option κ)
    (userData : υ) (allocated : Bool) : Except Failure Unit × JumpClock κ υ :=
  if !clock.allocatorIsValid then (.error .invalidArgument, clock)
  else match callback with
    | none => (.error .invalidArgument, clock)
    | some callback =>
      if threshold.minForward < 0 then (.error .invalidArgument, clock)
      else if threshold.minBackward > 0 then (.error .invalidArgument, clock)
      else if clock.jumpCallbacks.any fun info =>
          info.callback = callback && info.userData = userData then (.error .error, clock)
      else if !allocated then (.error .badAlloc, clock)
      else (.ok (), { clock with
        jumpCallbacks := clock.jumpCallbacks ++ [⟨callback, threshold, userData⟩] })

/-- one turn of the loop of a removal: `found_callback` and the array -/
def moveBackTurn (callback : κ) (userData : υ) :
    Bool × List (JumpCallbackInfo κ υ) → Nat → Bool × List (JumpCallbackInfo κ υ)
  | (found, infos), i =>
    match infos[i]? with
    | none => (found, infos)
    | some info =>
      if found then (true, infos.set (i - 1) info)
      else (info.callback = callback && info.userData = userData, infos)

def moveBack (callback : κ) (userData : υ) (infos : List (JumpCallbackInfo κ υ)) :
    Bool × List (JumpCallbackInfo κ υ) :=
  (List.range infos.length).foldl (moveBackTurn callback userData) (false, infos)

/-- `rcl_clock_remove_jump_callback`; `allocated`: `reallocate` returns an array -/
def removeJumpCallback (clock : JumpClock κ υ) (callback : Option κ) (userData : υ)
    (allocated : Bool) : Except Failure Unit × JumpClock κ υ :=
  if !clock.allocatorIsValid then (.error .invalidArgument, clock)
  else match callback with
    | none => (.error .invalidArgument, clock)
    | some callback =>
      let (found, infos) := moveBack callback userData clock.jumpCallbacks
      if !found then (.error .error, { clock with jumpCallbacks := infos })
      else if infos.length = 1 then (.ok (), { clock with jumpCallbacks := [] })
      else if !allocated then (.error .badAlloc, { clock with jumpCallbacks := infos })
      -- the array of one element less keeps the first ones
      else (.ok (), { clock with jumpCallbacks := infos.take (infos.length - 1) })

/-! ## runs -/

/-- a call, with its arguments and what the allocator does -/
inductive JumpCall (κ υ : Type*) where
  | add (threshold : JumpThreshold) (callback : Option κ) (userData : υ) (allocated : Bool)
  | remove (callback : Option κ) (userData : υ) (allocated : Bool)

def JumpClock.call (clock : JumpClock κ υ) : JumpCall κ υ → Except Failure Unit × JumpClock κ υ
  | .add threshold callback userData allocated =>
    addJumpCallback clock threshold callback userData allocated
  | .remove callback userData allocated => removeJumpCallback clock callback userData allocated

/-- a clock, and for each pair the number of the call that added it last -/
structure JumpState (κ υ : Type*) where
  clock : JumpClock κ υ
  calls : Nat := 0
  addedAt : κ × υ → Nat := fun _ => 0

def JumpCall.added : JumpCall κ υ → Except Failure Unit → Option (κ × υ)
  | .add _ (some callback) userData _, .ok () => some (callback, userData)
  | _, _ => none

def JumpState.next (s : JumpState κ υ) (c : JumpCall κ υ) : JumpState κ υ where
  clock := (s.clock.call c).2
  calls := s.calls + 1
  addedAt p := if c.added (s.clock.call c).1 = some p then s.calls else s.addedAt p

def JumpState.step (s : JumpState κ υ) (c : JumpCall κ υ) : Option (JumpState κ υ) :=
  some (s.next c)

/-- the pairs are distinct, in the order of their addition -/
structure Ordered (s : JumpState κ υ) : Prop where
  nodup : s.clock.pairs.Nodup
  order : s.clock.pairs.Pairwise fun p q => s.addedAt p < s.addedAt q

/-- what a call promises: order, and what it does to the list -/
structure Proper (s : JumpState κ υ) (c : JumpCall κ υ) (s' : JumpState κ υ) : Prop where
  ordered : Ordered s'
  removed : ∀ callback userData allocated, c = .remove callback userData allocated →
    (s.clock.call c).1 = .ok () → ∃ callback', callback = some callback' ∧
      (callback', userData) ∈ s.clock.pairs ∧
      s'.clock.jumpCallbacks =
        s.clock.jumpCallbacks.filter fun info => info.pair ≠ (callback', userData)
  unchanged : ∀ e, (s.clock.call c).1 = .error e →
    s'.clock.jumpCallbacks = s.clock.jumpCallbacks

/-- no removal of a pair in front of the last one fails to make the array smaller -/
def Shrinks (s : JumpState κ υ) : JumpCall κ υ → Prop
  | .add .. => True
  | .remove none _ _ => True
  | .remove (some callback) userData allocated =>
    s.clock.allocatorIsValid = true → allocated = false →
      (callback, userData) ∉ s.clock.pairs.dropLast

/-! ## the loop of a removal -/

variable {callback : κ} {userData : υ}

theorem pair_eq_iff {info : JumpCallbackInfo κ υ} :
    (info.callback = callback && info.userData = userData) = true ↔
      info.pair = (callback, userData) := by
  rw [Bool.and_eq_true, decide_eq_true_eq, decide_eq_true_eq, JumpCallbackInfo.pair,
    Prod.mk.injEq]

theorem mem_pairs {clock : JumpClock κ υ} {p : κ × υ} :
    p ∈ clock.pairs ↔ ∃ info ∈ clock.jumpCallbacks, info.pair = p := List.mem_map

/-- in front of the given pair nothing is moved -/
theorem moveBack_front {front rest : List (JumpCallbackInfo κ υ)}
    (hfront : ∀ info ∈ front, info.pair ≠ (callback, userData)) :
    (List.range front.length).foldl (moveBackTurn callback userData) (false, front ++ rest) =
      (false, front ++ rest) := by
  -- the turns up to a cell in front
  have hturns : ∀ n ≤ front.length, (List.range n).foldl (moveBackTurn callback userData)
      (false, front ++ rest) = (false, front ++ rest) := by
    intro n
    induction n with
    | zero => exact fun _ => rfl
    | succ n ih =>
      intro hn
      rw [List.range_succ, List.foldl_append, ih (Nat.le_of_succ_le hn)]
      show moveBackTurn callback userData (false, front ++ rest) n = _
      have hcell : (front ++ rest)[n]? = some front[n] := by
        rw [List.getElem?_append_left hn, List.getElem?_eq_getElem hn]
      have hne := mt pair_eq_iff.mp (hfront _ (List.getElem_mem hn))
      rw [moveBackTurn, hcell]
      show (_, _) = _
      rw [Bool.eq_false_iff.mpr hne]
  exact hturns front.length (Nat.le_refl _)

theorem moveBack_absent {infos : List (JumpCallbackInfo κ υ)}
    (h : ∀ info ∈ infos, info.pair ≠ (callback, userData)) :
    moveBack callback userData infos = (false, infos) := by
  have hall := @moveBack_front κ υ _ _ callback userData infos [] h
  rwa [List.append_nil] at hall

/-- **The array after the loop**: the callbacks behind the given one have moved, and the last one
is there twice. -/
theorem moveBack_found {front back : List (JumpCallbackInfo κ υ)} {info : JumpCallbackInfo κ υ}
    (hfront : ∀ info ∈ front, info.pair ≠ (callback, userData))
    (hinfo : info.pair = (callback, userData)) :
    moveBack callback userData (front ++ info :: back) =
      (true, front ++ back ++ (info :: back).drop back.length) := by
  have hturns : ∀ n ≤ back.length, (List.range (front.length + 1 + n)).foldl
      (moveBackTurn callback userData) (false, front ++ info :: back) =
        (true, front ++ back.take n ++ (info :: back).drop n) := by
    intro n
    induction n with
    | zero =>
      intro _
      rw [Nat.add_zero, List.range_succ, List.foldl_append, moveBack_front hfront]
      show moveBackTurn callback userData (false, front ++ info :: back) front.length = _
      have hcell : (front ++ info :: back)[front.length]? = some info := by
        rw [List.getElem?_append_right (Nat.le_refl _), Nat.sub_self]
        rfl
      rw [moveBackTurn, hcell]
      show (_, _) = _
      rw [pair_eq_iff.mpr hinfo, List.take_zero, List.append_nil, List.drop_zero]
    | succ n ih =>
      intro hn
      rw [← Nat.add_assoc, List.range_succ, List.foldl_append, ih (Nat.le_of_succ_le hn)]
      show moveBackTurn callback userData (true, front ++ back.take n ++ (info :: back).drop n)
        (front.length + 1 + n) = _
      have hlen : (front ++ back.take n).length = front.length + n := by
        rw [List.length_append, List.length_take, Nat.min_eq_left (Nat.le_of_succ_le hn)]
      have hdrop : ∃ old, (info :: back).drop n = old :: back.drop n := by
        refine ⟨_, List.drop_eq_getElem_cons ?_⟩
        rw [List.length_cons]
        omega
      have hcell : (front ++ back.take n ++ (info :: back).drop n)[front.length + 1 + n]? =
          some back[n] := by
        rw [List.getElem?_append_right (by omega), hlen, List.getElem?_drop,
          show n + (front.length + 1 + n - (front.length + n)) = n + 1 by omega,
          List.getElem?_cons_succ, List.getElem?_eq_getElem hn]
      rw [moveBackTurn, hcell]
      show (true, _) = _
      obtain ⟨old, hold⟩ := hdrop
      rw [show front.length + 1 + n - 1 = (front ++ back.take n).length by omega, hold,
        List.set_append_right _ _ (Nat.le_refl _), Nat.sub_self, List.set_cons_zero,
        List.drop_succ_cons, List.take_add_one, List.getElem?_eq_getElem hn, Option.toList_some,
        ← List.append_assoc, List.append_assoc _ [back[n]]]
      rfl
  have hlen : (front ++ info :: back).length = front.length + 1 + back.length := by
    rw [List.length_append, List.length_cons]
    omega
  rw [moveBack, hlen, hturns back.length (Nat.le_refl _), List.take_length]

/-! ## one call -/

theorem exists_front {clock : JumpClock κ υ} {p : κ × υ} (hnodup : clock.pairs.Nodup)
    (h : p ∈ clock.pairs) : ∃ front info back, clock.jumpCallbacks = front ++ info :: back ∧
      info.pair = p ∧ (∀ info ∈ front, info.pair ≠ p) ∧ ∀ info ∈ back, info.pair ≠ p := by
  obtain ⟨info, hinfo, rfl⟩ := mem_pairs.mp h
  obtain ⟨front, back, hsplit⟩ := List.append_of_mem hinfo
  rw [JumpClock.pairs, hsplit, List.map_append, List.map_cons] at hnodup
  obtain ⟨-, hback, hdisjoint⟩ := List.nodup_append.mp hnodup
  refine ⟨front, info, back, hsplit, rfl, ?_, ?_⟩
  · intro other hother heq
    exact hdisjoint _ (List.mem_map_of_mem hother) _ List.mem_cons_self heq
  · intro other hother heq
    exact (List.nodup_cons.mp hback).1 (heq ▸ List.mem_map_of_mem hother)

theorem filter_front {front back : List (JumpCallbackInfo κ υ)} {info : JumpCallbackInfo κ υ}
    {p : κ × υ} (hinfo : info.pair = p) (hfront : ∀ info ∈ front, info.pair ≠ p)
    (hback : ∀ info ∈ back, info.pair ≠ p) :
    (front ++ info :: back).filter (fun info => info.pair ≠ p) = front ++ back := by
  rw [List.filter_append, List.filter_cons_of_neg (by simpa using hinfo),
    List.filter_eq_self.mpr (by simpa using hfront), List.filter_eq_self.mpr (by simpa using hback)]

theorem take_moved {α : Type*} (front back : List α) (info : α) :
    (front ++ back ++ (info :: back).drop back.length).length = front.length + back.length + 1 ∧
      (front ++ back ++ (info :: back).drop back.length).take (front.length + back.length) =
        front ++ back := by
  have hdrop : ((info :: back).drop back.length).length = 1 := by
    rw [List.length_drop, List.length_cons]
    omega
  constructor
  · rw [List.length_append, hdrop, List.length_append]
  · rw [← List.length_append, List.take_left]

/-- a removal of a pair that is held -/
theorem removeJumpCallback_found {clock : JumpClock κ υ} {front back : List (JumpCallbackInfo κ υ)}
    {info : JumpCallbackInfo κ υ} (hvalid : clock.allocatorIsValid = true)
    (hsplit : clock.jumpCallbacks = front ++ info :: back)
    (hinfo : info.pair = (callback, userData))
    (hfront : ∀ info ∈ front, info.pair ≠ (callback, userData)) (allocated : Bool) :
    removeJumpCallback clock (some callback) userData allocated =
      if allocated = true ∨ (front = [] ∧ back = []) then
        (.ok (), { clock with jumpCallbacks := front ++ back })
      else (.error .badAlloc,
        { clock with jumpCallbacks := front ++ back ++ (info :: back).drop back.length }) := by
  obtain ⟨hlen, htake⟩ := take_moved front back info
  have hone : front.length + back.length + 1 = 1 ↔ front = [] ∧ back = [] := by
    rw [← List.length_eq_zero_iff, ← List.length_eq_zero_iff]
    omega
  rw [removeJumpCallback, hvalid, hsplit, moveBack_found hfront hinfo]
  simp only [Bool.not_true, Bool.false_eq_true, if_false, hlen, hone, Nat.add_sub_cancel, htake]
  by_cases hnil : front = [] ∧ back = []
  · rw [if_pos hnil, if_pos (.inr hnil), hnil.1, hnil.2]
    rfl
  · rw [if_neg hnil]
    cases allocated with
    | true => rfl
    | false =>
      rw [if_neg (c := false = true ∨ _) fun h => h.elim (fun hf => nomatch hf) hnil]
      rfl

theorem removeJumpCallback_absent {clock : JumpClock κ υ}
    (h : (callback, userData) ∉ clock.pairs) (allocated : Bool) :
    (∃ e, (removeJumpCallback clock (some callback) userData allocated).1 = .error e) ∧
      (removeJumpCallback clock (some callback) userData allocated).2 = clock := by
  obtain ⟨infos, valid⟩ := clock
  rw [removeJumpCallback]
  cases valid with
  | false => exact ⟨⟨_, rfl⟩, rfl⟩
  | true =>
    rw [moveBack_absent fun info hinfo heq => h (mem_pairs.mpr ⟨info, hinfo, heq⟩)]
    exact ⟨⟨_, rfl⟩, rfl⟩

/-- an addition appends the pair, or changes nothing -/
theorem addJumpCallback_cases (clock : JumpClock κ υ) (threshold : JumpThreshold)
    (callback : Option κ) (userData : υ) (allocated : Bool) :
    (∃ e, addJumpCallback clock threshold callback userData allocated = (.error e, clock)) ∨
    ∃ callback', callback = some callback' ∧ (callback', userData) ∉ clock.pairs ∧
      addJumpCallback clock threshold callback userData allocated =
        (.ok (), { clock with
          jumpCallbacks := clock.jumpCallbacks ++ [⟨callback', threshold, userData⟩] }) := by
  unfold addJumpCallback
  split
  · exact .inl ⟨_, rfl⟩
  cases callback with
  | none => exact .inl ⟨_, rfl⟩
  | some callback =>
    dsimp only
    split
    · exact .inl ⟨_, rfl⟩
    split
    · exact .inl ⟨_, rfl⟩
    split
    · exact .inl ⟨_, rfl⟩
    rename_i hany
    split
    · exact .inl ⟨_, rfl⟩
    refine .inr ⟨callback, rfl, ?_, rfl⟩
    intro hmem
    obtain ⟨info, hinfo, heq⟩ := mem_pairs.mp hmem
    exact hany (List.any_eq_true.mpr ⟨info, hinfo, pair_eq_iff.mpr heq⟩)

/-! ## the order of the pairs -/

/-- the pairs are in order, and they were all added by calls up to here -/
structure JumpInv (s : JumpState κ υ) : Prop where
  ordered : Ordered s
  past : ∀ p ∈ s.clock.pairs, s.addedAt p < s.calls

theorem JumpInv.of_sublist {s s' : JumpState κ υ} (h : JumpInv s)
    (hpairs : s'.clock.pairs.Sublist s.clock.pairs) (hadded : s'.addedAt = s.addedAt)
    (hcalls : s.calls ≤ s'.calls) : JumpInv s' := by
  refine ⟨⟨hpairs.nodup h.ordered.nodup, ?_⟩, ?_⟩
  · rw [hadded]
    exact h.ordered.order.sublist hpairs
  · intro p hp
    rw [hadded]
    exact Nat.lt_of_lt_of_le (h.past p (hpairs.subset hp)) hcalls

theorem next_addedAt {s : JumpState κ υ} {c : JumpCall κ υ} (h : c.added (s.clock.call c).1 = none) :
    (s.next c).addedAt = s.addedAt := by
  funext p
  show (if c.added _ = some p then _ else _) = _
  rw [h, if_neg (by simp)]

theorem added_of_error (c : JumpCall κ υ) (e : Failure) : c.added (.error e) = none := by
  cases c with
  | add threshold callback userData allocated => cases callback <;> rfl
  | remove callback userData allocated => rfl

/-- a call that fails without a change -/
theorem JumpInv.of_error {s : JumpState κ υ} (h : JumpInv s) {c : JumpCall κ υ} {e : Failure}
    (he : (s.clock.call c).1 = .error e) (hclock : (s.clock.call c).2 = s.clock) :
    JumpInv (s.next c) ∧ Proper s c (s.next c) := by
  have hadded := next_addedAt (by rw [he]; exact added_of_error c e)
  have hinv : JumpInv (s.next c) := by
    refine h.of_sublist ?_ hadded (Nat.le_succ _)
    show (s.clock.call c).2.pairs.Sublist _
    rw [hclock]
  refine ⟨hinv, hinv.ordered, ?_, ?_⟩
  · intro callback userData allocated _ hok
    rw [he] at hok
    cases hok
  · intro _ _
    show (s.clock.call c).2.jumpCallbacks = _
    rw [hclock]

/-- an addition -/
theorem JumpInv.add {s : JumpState κ υ} (h : JumpInv s) (threshold : JumpThreshold)
    (callback : Option κ) (userData : υ) (allocated : Bool) :
    JumpInv (s.next (.add threshold callback userData allocated)) ∧
      Proper s (.add threshold callback userData allocated)
        (s.next (.add threshold callback userData allocated)) := by
  rcases addJumpCallback_cases s.clock threshold callback userData allocated with
    ⟨e, he⟩ | ⟨callback, rfl, hnew, hok⟩
  · exact h.of_error (congrArg Prod.fst he) (congrArg Prod.snd he)
  have hcall : s.clock.call (.add threshold (some callback) userData allocated) = _ := hok
  have hpairs : (s.next (.add threshold (some callback) userData allocated)).clock.pairs =
      s.clock.pairs ++ [(callback, userData)] := by
    show JumpClock.pairs (s.clock.call _).2 = _
    rw [hcall, JumpClock.pairs, List.map_append]
    rfl
  -- the call has the highest number
  have hadded : ∀ p, (s.next (.add threshold (some callback) userData allocated)).addedAt p =
      if (callback, userData) = p then s.calls else s.addedAt p := by
    intro p
    show (if JumpCall.added _ (s.clock.call _).1 = some p then _ else _) = _
    rw [hcall]
    simp only [JumpCall.added, Option.some.injEq]
  have hold : ∀ p ∈ s.clock.pairs,
      (s.next (.add threshold (some callback) userData allocated)).addedAt p = s.addedAt p := by
    intro p hp
    rw [hadded, if_neg]
    rintro rfl
    exact hnew hp
  have hinv : JumpInv (s.next (.add threshold (some callback) userData allocated)) := by
    refine ⟨⟨?_, ?_⟩, ?_⟩
    · rw [hpairs]
      refine List.nodup_append.mpr ⟨h.ordered.nodup, List.pairwise_singleton _ _, ?_⟩
      intro p hp q hq heq
      exact hnew (List.mem_singleton.mp hq ▸ heq ▸ hp)
    · rw [hpairs]
      refine List.pairwise_append.mpr ⟨?_, List.pairwise_singleton _ _, ?_⟩
      · refine h.ordered.order.imp_of_mem ?_
        intro p q hp hq hlt
        rw [hold p hp, hold q hq]
        exact hlt
      · intro p hp q hq
        obtain rfl := List.mem_singleton.mp hq
        rw [hold p hp, hadded, if_pos rfl]
        exact h.past p hp
    · intro p hp
      show _ < s.calls + 1
      rw [hadded]
      split
      · exact Nat.lt_succ_self _
      · rename_i hne
        rw [hpairs] at hp
        rcases List.mem_append.mp hp with hp | hp
        · exact Nat.lt_succ_of_lt (h.past p hp)
        · exact absurd (List.mem_singleton.mp hp).symm hne
  refine ⟨hinv, hinv.ordered, ?_, ?_⟩
  · intro _ _ _ hc
    cases hc
  · intro e he
    rw [hcall] at he
    cases he

/-- a removal that succeeds -/
theorem JumpInv.remove {s : JumpState κ υ} (h : JumpInv s) {c : JumpCall κ υ}
    {front back : List (JumpCallbackInfo κ υ)} {info : JumpCallbackInfo κ υ} {allocated : Bool}
    (hc : c = .remove (some callback) userData allocated)
    (hsplit : s.clock.jumpCallbacks = front ++ info :: back)
    (hinfo : info.pair = (callback, userData))
    (hfront : ∀ info ∈ front, info.pair ≠ (callback, userData))
    (hback : ∀ info ∈ back, info.pair ≠ (callback, userData))
    (hcall : s.clock.call c = (.ok (), { s.clock with jumpCallbacks := front ++ back })) :
    JumpInv (s.next c) ∧ Proper s c (s.next c) := by
  have hclock : (s.next c).clock = { s.clock with jumpCallbacks := front ++ back } :=
    congrArg Prod.snd hcall
  have hinv : JumpInv (s.next c) := by
    refine h.of_sublist ?_ (next_addedAt (by rw [hc]; rfl)) (Nat.le_succ _)
    rw [hclock, JumpClock.pairs, JumpClock.pairs, hsplit]
    exact ((List.Sublist.refl front).append (List.sublist_cons_self info back)).map _
  refine ⟨hinv, hinv.ordered, ?_, ?_⟩
  · intro callback' userData' allocated' hc' _
    obtain ⟨rfl, rfl, rfl⟩ := JumpCall.remove.inj (hc.symm.trans hc')
    refine ⟨callback, rfl, mem_pairs.mpr ⟨info, ?_, hinfo⟩, ?_⟩
    · rw [hsplit]
      exact List.mem_append_right _ List.mem_cons_self
    · rw [hclock, hsplit, filter_front hinfo hfront hback]
  · intro e he
    rw [hcall] at he
    cases he

/-- the last pair is the given one just when nothing is behind it -/
theorem mem_dropLast_iff {clock : JumpClock κ υ} {front back : List (JumpCallbackInfo κ υ)}
    {info : JumpCallbackInfo κ υ} {p : κ × υ} (hsplit : clock.jumpCallbacks = front ++ info :: back)
    (hinfo : info.pair = p) (hfront : ∀ info ∈ front, info.pair ≠ p) :
    p ∉ clock.pairs.dropLast ↔ back = [] := by
  rw [JumpClock.pairs, hsplit, List.map_append, List.map_cons, hinfo]
  cases back with
  | nil =>
    rw [List.map_nil, List.dropLast_concat]
    refine ⟨fun _ => rfl, fun _ hp => ?_⟩
    obtain ⟨other, hother, heq⟩ := List.mem_map.mp hp
    exact hfront other hother heq
  | cons b back =>
    rw [List.map_cons, List.dropLast_append_of_ne_nil (List.cons_ne_nil _ _),
      List.dropLast_cons_of_ne_nil (List.cons_ne_nil _ _)]
    refine ⟨fun hp => absurd (List.mem_append_right _ List.mem_cons_self) hp, ?_⟩
    intro hnil
    cases hnil

/-! ## every call -/

/-- a call keeps its promises, or it is a removal that cannot shrink the array -/
theorem call_cases {s : JumpState κ υ} (h : JumpInv s) (c : JumpCall κ υ) :
    (Shrinks s c ∧ JumpInv (s.next c) ∧ Proper s c (s.next c)) ∨
      (¬ Shrinks s c ∧ ¬ Proper s c (s.next c)) := by
  cases c with
  | add threshold callback userData allocated =>
    exact .inl ⟨trivial, h.add threshold callback userData allocated⟩
  | remove callback userData allocated =>
    by_cases hvalid : s.clock.allocatorIsValid = true
    · cases callback with
      | none =>
        have hcall : s.clock.call (.remove none userData allocated) =
            (.error .invalidArgument, s.clock) := by
          show removeJumpCallback s.clock none userData allocated = _
          rw [removeJumpCallback]
          exact ite_self _
        exact .inl ⟨trivial, h.of_error (congrArg Prod.fst hcall) (congrArg Prod.snd hcall)⟩
      | some callback =>
        by_cases hmem : (callback, userData) ∈ s.clock.pairs
        · obtain ⟨front, info, back, hsplit, hinfo, hfront, hback⟩ :=
            exists_front h.ordered.nodup hmem
          have hlast := mem_dropLast_iff hsplit hinfo hfront
          have hcall : s.clock.call (.remove (some callback) userData allocated) = _ :=
            removeJumpCallback_found hvalid hsplit hinfo hfront allocated
          split at hcall
          · rename_i hok
            refine .inl ⟨?_, h.remove rfl hsplit hinfo hfront hback hcall⟩
            intro _ hfail
            rcases hok with hok | ⟨-, hnil⟩
            · rw [hfail] at hok
              cases hok
            · exact hlast.mpr hnil
          · rename_i hbad
            have hfail : allocated = false := Bool.eq_false_iff.mpr fun ht => hbad (.inl ht)
            cases back with
            | nil =>
              -- the last callback: the cells are as they were
              have hclock : (s.clock.call (.remove (some callback) userData allocated)).2 =
                  s.clock := by
                rw [hcall]
                show ({ s.clock with jumpCallbacks := _ } : JumpClock κ υ) = _
                rw [List.append_nil, List.length_nil, List.drop_zero, ← hsplit]
              exact .inl ⟨fun _ _ => hlast.mpr rfl, h.of_error (congrArg Prod.fst hcall) hclock⟩
            | cons b back =>
              refine .inr ⟨fun hs => (List.cons_ne_nil _ _) (hlast.mp (hs hvalid hfail)), ?_⟩
              intro hp
              have hsame : (s.clock.call (.remove (some callback) userData allocated)).2.jumpCallbacks
                  = s.clock.jumpCallbacks := hp.unchanged _ (congrArg Prod.fst hcall)
              rw [hcall, hsplit, List.append_assoc] at hsame
              have hb : b = info := (List.cons.inj (List.append_cancel_left hsame)).1
              exact hback b List.mem_cons_self (hb ▸ hinfo)
        · obtain ⟨⟨e, he⟩, hclock⟩ := removeJumpCallback_absent hmem allocated
          refine .inl ⟨?_, h.of_error he hclock⟩
          intro _ _ hp
          exact hmem (List.dropLast_subset _ hp)
    · have hcall : s.clock.call (.remove callback userData allocated) =
          (.error .invalidArgument, s.clock) := by
        show removeJumpCallback s.clock callback userData allocated = _
        unfold removeJumpCallback
        rw [if_pos (by simpa using hvalid)]
      refine .inl ⟨?_, h.of_error (congrArg Prod.fst hcall) (congrArg Prod.snd hcall)⟩
      cases callback with
      | none => trivial
      | some callback => exact fun hv => absurd hv hvalid

theorem proper_iff {s : JumpState κ υ} (h : JumpInv s) (c : JumpCall κ υ) :
    Proper s c (s.next c) ↔ Shrinks s c := by
  rcases call_cases h c with ⟨hs, -, hp⟩ | ⟨hs, hp⟩
  · exact ⟨fun _ => hs, fun _ => hp⟩
  · exact ⟨fun h => absurd h hp, fun h => absurd h hs⟩

theorem JumpInv.next {s : JumpState κ υ} (h : JumpInv s) {c : JumpCall κ υ} (hc : Shrinks s c) :
    JumpInv (s.next c) := by
  rcases call_cases h c with ⟨-, hinv, -⟩ | ⟨hs, -⟩
  · exact hinv
  · exact absurd hc hs

def newClock (allocatorIsValid : Bool) : JumpState κ υ := { clock := { allocatorIsValid } }

theorem jumpInv_new (valid : Bool) : JumpInv (newClock valid : JumpState κ υ) :=
  ⟨⟨List.nodup_nil, List.Pairwise.nil⟩, fun _ hp => nomatch hp⟩

/-- **The list of jump callbacks along every run**: all calls keep their promises just when every
removal in front of the last callback gets the smaller array. -/
theorem jumpCallbacks_proper_iff (valid : Bool) (cs : List (JumpCall κ υ)) :
    Along JumpState.step Proper (newClock valid) cs ↔
      Along JumpState.step (fun s c _ => Shrinks s c) (newClock valid) cs := by
  refine along_iff_of_inv (I := JumpInv) ?_ ?_ cs (newClock valid) (jumpInv_new valid)
  · intro s c s' h hs hc
    obtain rfl := Option.some.inj hs
    exact h.next hc
  · intro s c s' h hs
    obtain rfl := Option.some.inj hs
    exact proper_iff h c

/-- two callbacks, of which the first one is removed without memory for the smaller array -/
theorem not_jumpCallbacks_proper : ¬ ∀ cs : List (JumpCall Nat Nat),
    Along JumpState.step Proper (newClock true) cs := by
  intro h
  have hrun := h [.add ⟨true, 0, 0⟩ (some 1) 0 true, .add ⟨true, 0, 0⟩ (some 2) 0 true,
    .remove (some 1) 0 false]
  have hlast := ((hrun _ rfl).2 _ rfl).2 _ rfl
  exact absurd hlast.1.ordered.nodup (by decide)

end PMROS2.Rcl
