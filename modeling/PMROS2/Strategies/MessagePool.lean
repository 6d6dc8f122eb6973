import PMROS2.Lib.Runs

/-!
# The message pool

`MessagePoolMemoryStrategy` (`message_pool_memory_strategy.hpp`): a fixed number of messages, lent
in the order of a ring.  A message is known by its pointer; the constructor allocates them one by
one, so the message at place `i` has pointer `i`.

`Lending` is a pool with what was asked of it: how often it was asked for a message, and the
messages that are lent and were not given back.

* `Exclusive`              no message is lent to two borrowers;
* `Available`              a message is lent whenever fewer than all are outstanding;
* `InTurn`                 the message whose turn it is has been given back;
* `message_pool_iff`       the first holds in every run, the second just where the third does.
-/

namespace PMROS2.Strategies
open Runs

/-! ## the pool -/

structure PoolMember where
  msgPtr : Nat
  used : Bool

structure MessagePool where
  pool : List PoolMember
  nextArrayIndex : Nat

namespace MessagePool

def construct (size : Nat) : MessagePool :=
  ⟨(List.range size).map fun i => ⟨i, false⟩, 0⟩

variable (p : MessagePool)

def size : Nat := p.pool.length

def setUsed (i : Nat) (used : Bool) : MessagePool :=
  { p with pool := p.pool.modify i fun m => { m with used := used } }

/-- `borrow_message`; the index moves on before the message is looked at.  There is no message
behind the end of the array. -/
def borrowMessage : Option (Except String Nat × MessagePool) :=
  let moved := { p with nextArrayIndex := (p.nextArrayIndex + 1) % p.size }
  p.pool[p.nextArrayIndex]?.map fun m =>
    if m.used then (.error "Tried to access message that was still in use! Abort.", moved)
    else (.ok m.msgPtr, moved.setUsed p.nextArrayIndex true)

/-- `return_message` -/
def returnMessage (msg : Nat) : Except String Unit × MessagePool :=
  match p.pool.findIdx? fun m => m.msgPtr = msg with
  | some i => (.ok (), p.setUsed i false)
  | none => (.error "Unrecognized message ptr in return_message.", p)

end MessagePool

/-! ## what is lent -/

structure Lending where
  pool : MessagePool
  /-- calls of `borrow_message` -/
  calls : Nat := 0
  /-- messages that are lent -/
  outstanding : List Nat := []

inductive PoolCall where
  | borrowMessage
  | returnMessage (msg : Nat)

/-- only messages that are lent are given back -/
def Lending.step (s : Lending) : PoolCall → Option Lending
  | .borrowMessage => s.pool.borrowMessage.map fun r =>
    { pool := r.2
      calls := s.calls + 1
      outstanding := r.1.toOption.toList ++ s.outstanding }
  | .returnMessage msg =>
    if msg ∈ s.outstanding then
      some { s with
        pool := (s.pool.returnMessage msg).2
        outstanding := s.outstanding.erase msg }
    else none

/-- no message is lent to two borrowers -/
def Exclusive (s : Lending) : Prop := s.outstanding.Nodup

/-- a message is lent whenever fewer than all are outstanding, and what is given back is known -/
def Available (s : Lending) : PoolCall → Prop
  | .borrowMessage =>
    s.outstanding.length < s.pool.size → ∃ msg p, s.pool.borrowMessage = some (.ok msg, p)
  | .returnMessage msg => (s.pool.returnMessage msg).1 = .ok ()

/-- unless all messages are outstanding, the one whose turn it is in the ring is not -/
def InTurn (s : Lending) : PoolCall → Prop
  | .borrowMessage =>
    s.outstanding.length < s.pool.size → s.calls % s.pool.size ∉ s.outstanding
  | .returnMessage _ => True

/-! ## the invariant -/

/-- the message at place `i` has pointer `i` and is marked just when it is lent -/
structure Inv (size : Nat) (s : Lending) : Prop where
  size_eq : s.pool.size = size
  index : s.pool.nextArrayIndex = s.calls % size
  member : ∀ i < size, s.pool.pool[i]? = some ⟨i, decide (i ∈ s.outstanding)⟩
  lent : ∀ msg ∈ s.outstanding, msg < size
  exclusive : s.outstanding.Nodup

theorem inv_construct (size : Nat) : Inv size { pool := .construct size } where
  size_eq := by
    unfold MessagePool.construct MessagePool.size
    rw [List.length_map, List.length_range]
  index := (Nat.zero_mod size).symm
  member := by
    intro i hi
    unfold MessagePool.construct
    rw [List.getElem?_map, List.getElem?_range hi]
    rfl
  lent := fun _ h => (by cases h)
  exclusive := List.nodup_nil

section
variable {size : Nat} {s s' : Lending}

theorem getElem?_setUsed (p : MessagePool) (i j : Nat) (used : Bool) :
    (p.setUsed i used).pool[j]? =
      if i = j then p.pool[j]?.map fun m => { m with used := used } else p.pool[j]? := by
  unfold MessagePool.setUsed
  rw [List.getElem?_modify]
  by_cases h : i = j
  · simp only [h, if_true]
    rfl
  · simp only [h, if_false]
    exact Option.map_id' ..

theorem size_setUsed (p : MessagePool) (i : Nat) (used : Bool) :
    (p.setUsed i used).size = p.size :=
  List.length_modify ..

/-- **What is lent**: the message whose turn it is, unless it is outstanding. -/
theorem Inv.borrowMessage (hs : Inv size s) (hpos : 0 < size) :
    s.pool.borrowMessage = some
      (if s.calls % size ∈ s.outstanding then
        (.error "Tried to access message that was still in use! Abort.",
          { s.pool with nextArrayIndex := (s.calls + 1) % size })
      else (.ok (s.calls % size),
        { s.pool.setUsed (s.calls % size) true with nextArrayIndex := (s.calls + 1) % size })) := by
  have hnext : (s.calls % size + 1) % size = (s.calls + 1) % size := Nat.mod_add_mod ..
  unfold MessagePool.borrowMessage
  rw [hs.index, hs.member _ (Nat.mod_lt _ hpos), hs.size_eq, hnext, Option.map_some]
  by_cases hmem : s.calls % size ∈ s.outstanding
  · simp only [hmem, decide_true, if_true]
  · simp only [hmem, decide_false, Bool.false_eq_true, if_false]
    rfl

/-- a message that is lent is found at its place -/
theorem Inv.returnMessage (hs : Inv size s) {msg : Nat} (hmsg : msg ∈ s.outstanding) :
    s.pool.returnMessage msg = (.ok (), s.pool.setUsed msg false) := by
  have hlt := hs.lent msg hmsg
  have hlen : s.pool.pool.length = size := hs.size_eq
  have hfind : (s.pool.pool.findIdx? fun m => m.msgPtr = msg) = some msg := by
    rw [List.findIdx?_eq_some_iff_getElem]
    have hptr : ∀ j (hj : j < s.pool.pool.length), (s.pool.pool[j]).msgPtr = j := by
      intro j hj
      have hmem := hs.member j (hlen ▸ hj)
      rw [List.getElem?_eq_getElem hj] at hmem
      rw [Option.some.inj hmem]
    refine ⟨hlen ▸ hlt, by rw [hptr]; exact decide_eq_true rfl, fun j hj => ?_⟩
    rw [hptr]
    simpa using Nat.ne_of_lt hj
  unfold MessagePool.returnMessage
  rw [hfind]

theorem Inv.step (hs : Inv size s) (c : PoolCall) (h : s.step c = some s') : Inv size s' := by
  cases c with
  | borrowMessage =>
    rcases Nat.eq_zero_or_pos size with rfl | hpos
    · -- there is no message
      have hempty : s.pool.pool = [] := List.length_eq_zero_iff.mp hs.size_eq
      unfold Lending.step MessagePool.borrowMessage at h
      rw [hempty] at h
      cases h
    unfold Lending.step at h
    rw [hs.borrowMessage hpos] at h
    obtain rfl := Option.some.inj h
    by_cases hmem : s.calls % size ∈ s.outstanding
    · simp only [hmem, if_true]
      exact ⟨hs.size_eq, rfl, hs.member, hs.lent, hs.exclusive⟩
    · simp only [hmem, if_false]
      refine ⟨(size_setUsed ..).trans hs.size_eq, rfl, fun i hi => ?_, fun msg hmsg => ?_,
        List.nodup_cons.mpr ⟨hmem, hs.exclusive⟩⟩
      · show (s.pool.setUsed (s.calls % size) true).pool[i]? =
          some ⟨i, decide (i ∈ s.calls % size :: s.outstanding)⟩
        rw [getElem?_setUsed, hs.member i hi]
        by_cases heq : s.calls % size = i
        · simp [heq]
        · have hne : i ≠ s.calls % size := fun h => heq h.symm
          simp [heq, hne]
      · rcases List.mem_cons.mp hmsg with rfl | hmsg
        · exact Nat.mod_lt _ hpos
        · exact hs.lent msg hmsg
  | returnMessage msg =>
    obtain ⟨hmsg, rfl⟩ := guarded_eq_some.mp h
    rw [hs.returnMessage hmsg]
    refine ⟨(size_setUsed ..).trans hs.size_eq, hs.index, fun i hi => ?_, fun m hm => ?_,
      hs.exclusive.erase msg⟩
    · show (s.pool.setUsed msg false).pool[i]? = some ⟨i, decide (i ∈ s.outstanding.erase msg)⟩
      rw [getElem?_setUsed, hs.member i hi]
      by_cases heq : msg = i
      · subst heq
        simp [hs.exclusive.not_mem_erase]
      · have hne : i ≠ msg := fun h => heq h.symm
        simp [heq, List.mem_erase_of_ne hne]
    · exact hs.lent m (List.mem_of_mem_erase hm)

theorem Inv.available_iff (hs : Inv size s) (c : PoolCall) (h : s.step c = some s') :
    Available s c ↔ InTurn s c := by
  cases c with
  | borrowMessage =>
    unfold Available InTurn
    rw [hs.size_eq]
    refine forall_congr' fun hlt => ?_
    rw [hs.borrowMessage (by omega)]
    by_cases hmem : s.calls % size ∈ s.outstanding
    · simp [hmem]
    · simp [hmem]
  | returnMessage msg =>
    obtain ⟨hmsg, -⟩ := guarded_eq_some.mp h
    refine iff_of_true ?_ trivial
    show (s.pool.returnMessage msg).1 = .ok ()
    rw [hs.returnMessage hmsg]

end

/-- **The message pool.**  For every size and every run in which only messages that are lent are
given back, each once: no message is ever lent to two borrowers, and a message is lent whenever
fewer than all are outstanding just when, at each such call, the message whose turn it is has been
given back. -/
theorem message_pool_iff (size : Nat) (cs : List PoolCall) :
    Always Lending.step Exclusive { pool := .construct size } cs ∧
    (Along Lending.step (fun s c _ => Available s c) { pool := .construct size } cs ↔
      Along Lending.step (fun s c _ => InTurn s c) { pool := .construct size } cs) := by
  constructor
  · exact always_of_keep (I := Inv size) (fun _ hs => hs.exclusive)
      (fun _ c _ hs h => hs.step c h) cs _ (inv_construct size)
  · exact along_congr (I := Inv size) (fun _ c _ hs h => hs.step c h)
      (fun _ c _ hs h => hs.available_iff c h) cs _ (inv_construct size)

/-- two messages, both lent, the second given back: the turn is the first one's -/
theorem returned_message_is_not_lent :
    ¬ Along Lending.step (fun s c _ => Available s c) { pool := .construct 2 }
      [.borrowMessage, .borrowMessage, .returnMessage 1, .borrowMessage] := by
  intro h
  obtain ⟨msg, p, hborrow⟩ := ((((h _ rfl).2 _ rfl).2 _ rfl).2 _ rfl).1 (by decide)
  cases hborrow

end PMROS2.Strategies
