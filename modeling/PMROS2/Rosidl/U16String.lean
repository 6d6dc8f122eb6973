import Mathlib.Data.List.Basic
import Mathlib.Logic.Function.Basic
import Mathlib.Algebra.Group.Nat.Defs

/-!
# The allocations of the u16string functions

The functions ask for `count * sizeof(...)` bytes, computed in `size_t`, and then write `count`
elements.  `resize` rejects every count whose product wraps; `assignn` rejects `SIZE_MAX` only, and
`Sequence__init` nothing.

A call lists what it does to memory: the bytes it asks for, next to the exact product, and the
bytes that it writes in a block.  The allocator is a parameter: it refuses, or gives a block with
any contents.

* `Safe`         no byte count wraps, no write leaves its block, the block is large enough, and
                 a count that no block can hold is rejected without a change;
* `safe_iff`     the counts for which the calls are safe.
-/

namespace PMROS2.Rosidl.U16

/-! ## memory -/

def sizeMax : UInt64 := 18446744073709551615
/-- `sizeof(uint16_t)` -/
def unitBytes : UInt64 := 2
/-- `sizeof(rosidl_generator_c__U16String)`: a pointer and two counts -/
def stringBytes : UInt64 := 24
/-- `sizeof(rosidl_generator_c__U16String__Sequence)` -/
def sequenceBytes : UInt64 := 24

/-- a block of code units -/
structure Block where
  bytes : UInt64
  unit : Nat → UInt16

/-- the answer to a request for some bytes: none, or the contents of a new block -/
abbrev Answer := UInt64 → Option (Nat → UInt16)

def malloc (answer : Answer) (bytes : UInt64) : Option Block :=
  (answer bytes).map fun fresh => { bytes := bytes, unit := fresh }

/-- the contents that fit are kept; a refusal leaves the old block -/
def realloc (answer : Answer) (old : Option Block) (bytes : UInt64) : Option Block :=
  (malloc answer bytes).map fun new => { new with
    unit := fun i => match old with
      | some b => if 2 * i < min b.bytes.toNat bytes.toNat then b.unit i else new.unit i
      | none => new.unit i }

/-- `memcpy(data, value, bytes)` -/
def Block.memcpy (b : Block) (value : List UInt16) (bytes : UInt64) : Block :=
  { b with unit := fun i => if 2 * i < bytes.toNat then value.getD i 0 else b.unit i }

/-- `data[n] = 0` -/
def Block.terminate (b : Block) (n : UInt64) : Block :=
  { b with unit := Function.update b.unit n.toNat 0 }

/-- what a call does to memory; `exact` is the product without wrapping -/
inductive Effect where
  | request (exact : Nat) (bytes : UInt64)
  | copy (block : UInt64) (exact : Nat) (bytes : UInt64)
  | store (block : UInt64) (offset width : Nat)
  deriving DecidableEq, Repr

def Effect.Sound : Effect → Prop
  | .request exact bytes => bytes.toNat = exact
  | .copy block exact bytes => bytes.toNat = exact ∧ exact ≤ block.toNat
  | .store block offset width => offset + width ≤ block.toNat

structure Call (σ : Type) where
  ok : Bool
  after : σ
  effects : List Effect

/-- an early `return false` -/
def Call.reject {σ : Type} (s : σ) : Call σ := { ok := false, after := s, effects := [] }

/-! ## strings -/

structure U16String where
  data : Option Block
  size : UInt64
  capacity : UInt64

def init (answer : Answer) : Option U16String → Call (Option U16String)
  | none => .reject none
  | some str =>
    match malloc answer unitBytes with
    | none =>
      { ok := false
        after := some { str with data := none }
        effects := [.request 2 unitBytes] }
    | some b =>
      { ok := true
        after := some { data := some (b.terminate 0), size := 0, capacity := 1 }
        effects := [.request 2 unitBytes, .store b.bytes 0 2] }

/-- `(n + 1) * sizeof(uint16_t)` bytes -/
def unitsRequest (n : UInt64) : Effect := .request ((n.toNat + 1) * 2) ((n + 1) * unitBytes)

/-- `value` is what the pointer points to -/
def assignn (answer : Answer) (str : Option U16String) (value : Option (List UInt16)) (n : UInt64) :
    Call (Option U16String) :=
  match str, value with
  | none, _ => .reject none
  | some str, none => .reject (some str)
  | some str, some value =>
    if n = sizeMax then .reject (some str)
    else match realloc answer str.data ((n + 1) * unitBytes) with
      | none => { ok := false, after := some str, effects := [unitsRequest n] }
      | some b =>
        { ok := true
          after := some {
            data := some ((b.memcpy value (n * unitBytes)).terminate n)
            size := n
            capacity := n + 1 }
          effects := [unitsRequest n, .copy b.bytes (n.toNat * 2) (n * unitBytes),
            .store b.bytes (n.toNat * 2) 2] }

/-- the cast of `char *` to `uint16_t *`, little endian -/
def castUnits : List UInt8 → List UInt16
  | lo :: hi :: rest => (lo.toUInt16 ||| hi.toUInt16 <<< 8) :: castUnits rest
  | _ => []

def assignnFromChar (answer : Answer) (str : Option U16String) (value : Option (List UInt8))
    (n : UInt64) : Call (Option U16String) :=
  if n % 2 ≠ 0 then .reject str
  else assignn answer str (value.map castUnits) (n / 2)

/-- the units before the first 0 -/
def len : Option (List UInt16) → UInt64
  | none => 0
  | some value => UInt64.ofNat (value.takeWhile (· ≠ 0)).length

def assign (answer : Answer) (str : Option U16String) (value : Option (List UInt16)) :
    Call (Option U16String) :=
  assignn answer str value (len value)

def resize (answer : Answer) (str : Option U16String) (n : UInt64) : Call (Option U16String) :=
  match str with
  | none => .reject none
  | some str =>
    if n > sizeMax / unitBytes - 1 then .reject (some str)
    else match realloc answer str.data ((n + 1) * unitBytes) with
      | none => { ok := false, after := some str, effects := [unitsRequest n] }
      | some b =>
        { ok := true
          after := some { data := some (b.terminate n), size := n, capacity := n + 1 }
          effects := [unitsRequest n, .store b.bytes (n.toNat * 2) 2] }

/-! ## sequences -/

/-- a block of strings -/
structure StringBlock where
  bytes : UInt64
  elements : List U16String

structure Sequence where
  data : Option StringBlock
  size : UInt64
  capacity : UInt64

/-- a call of `init` or `fini` for `data[i]` writes the fields of the element -/
def touch (block : UInt64) (i : Nat) : Effect := .store block (i * 24) 24

/-- `data[i]` was initialized by `first`, and the loop went on with `rest` -/
def Call.next (block : UInt64) (i : Nat) (first : Call (Option U16String))
    (rest : Call (List U16String)) : Call (List U16String) where
  ok := rest.ok
  after := first.after.toList ++ rest.after
  effects := touch block i :: (first.effects ++ rest.effects)

/-- the elements before are finalized, the last one first -/
def Call.unwind (block : UInt64) (i : Nat) (first : Call (Option U16String)) :
    Call (List U16String) where
  ok := false
  after := []
  effects := touch block i :: (first.effects ++ (List.range i).reverse.map (touch block))

/-- the loop from `i` on; `answers` are for the elements, `fresh` is what is in them before -/
def initLoop (answers : Nat → Answer) (fresh : Nat → U16String) (block : UInt64) :
    Nat → Nat → Call (List U16String)
  | 0, _ => { ok := true, after := [], effects := [] }
  | left + 1, i =>
    let first := init (answers i) (some (fresh i))
    if first.ok then first.next block i (initLoop answers fresh block left (i + 1))
    else first.unwind block i

/-- `size * sizeof(rosidl_generator_c__U16String)` bytes -/
def stringsRequest (size : UInt64) : Effect := .request (size.toNat * 24) (size * stringBytes)

/-- `answer` is for the block of the elements -/
def Sequence.init (answer : Answer) (answers : Nat → Answer) (fresh : Nat → U16String)
    (sequence : Option Sequence) (size : UInt64) : Call (Option Sequence) :=
  match sequence with
  | none => .reject none
  | some sequence =>
    if size ≠ 0 then
      match malloc answer (size * stringBytes) with
      | none => { ok := false, after := some sequence, effects := [stringsRequest size] }
      | some b =>
        let loop := initLoop answers fresh b.bytes size.toNat 0
        { ok := loop.ok
          after := some (if loop.ok then
            { data := some { bytes := b.bytes, elements := loop.after }
              size := size
              capacity := size }
            else sequence)
          effects := stringsRequest size :: loop.effects }
    else { ok := true, after := some { data := none, size := size, capacity := size }, effects := [] }

/-- `first` is the answer for the sequence itself, `raw` is what is in it before -/
def Sequence.create (first answer : Answer) (answers : Nat → Answer) (fresh : Nat → U16String)
    (raw : Sequence) (size : UInt64) : Call (Option Sequence) :=
  match malloc first sequenceBytes with
  | none => { ok := false, after := none, effects := [.request 24 sequenceBytes] }
  | some b =>
    let call := Sequence.init answer answers fresh (some raw) size
    { ok := call.ok
      after := if call.ok then call.after else none
      effects := .request 24 sequenceBytes :: .store b.bytes 0 24 :: call.effects }

/-! ## what is asked of a call -/

/-- the bytes of the block that the string owns -/
def U16String.room (str : Option U16String) : Nat :=
  ((str.bind U16String.data).map fun b => b.bytes.toNat).getD 0

def Sequence.room (sequence : Option Sequence) : Nat :=
  ((sequence.bind Sequence.data).map fun b => b.bytes.toNat).getD 0

structure Safe {σ : Type} (room : σ → Nat) (need : Nat) (before : σ) (c : Call σ) : Prop where
  sound : ∀ e ∈ c.effects, e.Sound
  large : c.ok = true → need ≤ room c.after
  impossible : 2 ^ 64 ≤ need → c.ok = false ∧ c.after = before

section
variable {σ : Type} {room : σ → Nat} {need : Nat} {before : σ} {c : Call σ}

theorem safe_reject (room : σ → Nat) (need : Nat) (before : σ) :
    Safe room need before (.reject before) := by
  constructor
  · exact fun e he => absurd he List.not_mem_nil
  · exact fun h => absurd h Bool.false_ne_true
  · exact fun _ => ⟨rfl, rfl⟩

theorem safe_iff_of_sound (hsound : (∀ e ∈ c.effects, e.Sound) ↔ need < 2 ^ 64)
    (hlarge : need < 2 ^ 64 → c.ok = true → need ≤ room c.after) :
    Safe room need before c ↔ need < 2 ^ 64 := by
  constructor
  · exact fun h => hsound.mp h.sound
  · intro h
    refine ⟨hsound.mpr h, hlarge h, fun hle => ?_⟩
    exact absurd h (Nat.not_lt.mpr hle)

end

/-! ## the byte counts -/

section
variable {answer : Answer} {old : Option Block} {bytes n : UInt64} {b : Block}

theorem malloc_bytes (h : malloc answer bytes = some b) : b.bytes = bytes := by
  obtain ⟨fresh, -, rfl⟩ := Option.map_eq_some_iff.mp h
  rfl

theorem realloc_bytes (h : realloc answer old bytes = some b) : b.bytes = bytes := by
  obtain ⟨new, hnew, rfl⟩ := Option.map_eq_some_iff.mp h
  exact malloc_bytes (b := new) hnew

theorem toNat_units (n : UInt64) : (n * unitBytes).toNat = n.toNat * 2 % 2 ^ 64 :=
  UInt64.toNat_mul n unitBytes

theorem toNat_strings (n : UInt64) : (n * stringBytes).toNat = n.toNat * 24 % 2 ^ 64 :=
  UInt64.toNat_mul n stringBytes

theorem toNat_units_succ (n : UInt64) :
    ((n + 1) * unitBytes).toNat = (n.toNat + 1) * 2 % 2 ^ 64 := by
  rw [toNat_units, UInt64.toNat_add]
  show (n.toNat + 1) % 2 ^ 64 * 2 % 2 ^ 64 = _
  omega

theorem toNat_lt_of_ne_sizeMax (h : n ≠ sizeMax) : n.toNat < 2 ^ 64 - 1 := by
  have hlt := n.toNat_lt
  have hne : n.toNat ≠ sizeMax.toNat := fun e => h (UInt64.toNat_inj.mp e)
  have hmax : sizeMax.toNat = 2 ^ 64 - 1 := rfl
  omega

theorem unitsRequest_sound_iff (n : UInt64) :
    (unitsRequest n).Sound ↔ (n.toNat + 1) * 2 < 2 ^ 64 := by
  rw [unitsRequest, Effect.Sound, toNat_units_succ]
  omega

theorem stringsRequest_sound_iff (n : UInt64) :
    (stringsRequest n).Sound ↔ n.toNat * 24 < 2 ^ 64 := by
  rw [stringsRequest, Effect.Sound, toNat_strings]
  omega

end

/-! ## strings -/

section
variable {answer : Answer} {n : UInt64}

theorem assignn_safe_iff (str : Option U16String) (value : Option (List UInt16)) :
    Safe U16String.room ((n.toNat + 1) * 2) str (assignn answer str value n) ↔
      str = none ∨ value = none ∨ n = sizeMax ∨ n.toNat < 2 ^ 63 - 1 := by
  cases str with
  | none => exact iff_of_true (safe_reject _ _ _) (.inl rfl)
  | some str => cases value with
    | none => exact iff_of_true (safe_reject _ _ _) (.inr (.inl rfl))
    | some value =>
      rw [assignn]
      by_cases hn : n = sizeMax
      · rw [if_pos hn]
        exact iff_of_true (safe_reject _ _ _) (.inr (.inr (.inl hn)))
      rw [if_neg hn]
      have hlt := toNat_lt_of_ne_sizeMax hn
      have hrequest := unitsRequest_sound_iff n
      have hcond : (n.toNat + 1) * 2 < 2 ^ 64 ↔
          some str = none ∨ some value = none ∨ n = sizeMax ∨ n.toNat < 2 ^ 63 - 1 := by
        rw [or_iff_right (Option.some_ne_none str), or_iff_right (Option.some_ne_none value),
          or_iff_right hn]
        omega
      rw [← hcond]
      cases hb : realloc answer str.data ((n + 1) * unitBytes) with
      | none =>
        refine safe_iff_of_sound ?_ fun _ h => absurd h Bool.false_ne_true
        rw [← hrequest]
        exact List.forall_mem_singleton
      | some b =>
        have hbytes := congrArg UInt64.toNat (realloc_bytes hb)
        rw [toNat_units_succ] at hbytes
        refine safe_iff_of_sound ?_ fun h _ => ?_
        · refine List.forall_mem_cons.trans ?_
          rw [hrequest, and_iff_left_iff_imp]
          intro h
          rw [Nat.mod_eq_of_lt h] at hbytes
          refine List.forall_mem_cons.mpr ⟨⟨?_, ?_⟩, List.forall_mem_singleton.mpr ?_⟩
          · rw [toNat_units, Nat.mod_eq_of_lt (by omega)]
          · omega
          · show n.toNat * 2 + 2 ≤ b.bytes.toNat
            omega
        · show _ ≤ b.bytes.toNat
          omega

theorem assignnFromChar_safe_iff (str : Option U16String) (value : Option (List UInt8)) :
    Safe U16String.room ((n.toNat / 2 + 1) * 2) str (assignnFromChar answer str value n) ↔
      n.toNat % 2 = 1 ∨ str = none ∨ value = none ∨ n.toNat < 2 ^ 64 - 2 := by
  have hmod : (n % 2).toNat = n.toNat % 2 := UInt64.toNat_mod n 2
  have hdiv : (n / 2).toNat = n.toNat / 2 := UInt64.toNat_div n 2
  have hlt := n.toNat_lt
  rw [assignnFromChar]
  by_cases hodd : n % 2 ≠ 0
  · rw [if_pos hodd]
    refine iff_of_true (safe_reject _ _ _) (.inl ?_)
    have hne : (n % 2).toNat ≠ (0 : UInt64).toNat := fun e => hodd (UInt64.toNat_inj.mp e)
    have hzero : (0 : UInt64).toNat = 0 := rfl
    omega
  · rw [if_neg hodd, ← hdiv, assignn_safe_iff, Option.map_eq_none_iff, hdiv]
    have heven : (n % 2).toNat = 0 := congrArg UInt64.toNat (not_not.mp hodd)
    have hmax : n / 2 ≠ sizeMax := by
      intro e
      have := congrArg UInt64.toNat e
      have hsize : sizeMax.toNat = 2 ^ 64 - 1 := rfl
      omega
    have hnot : ¬ n.toNat % 2 = 1 := by omega
    rw [or_iff_right hmax, or_iff_right hnot]
    have hbound : n.toNat / 2 < 2 ^ 63 - 1 ↔ n.toNat < 2 ^ 64 - 2 := by omega
    rw [hbound]

theorem resize_safe (str : Option U16String) :
    Safe U16String.room ((n.toNat + 1) * 2) str (resize answer str n) := by
  cases str with
  | none => exact safe_reject _ _ _
  | some str =>
    rw [resize]
    have hlimit : (sizeMax / unitBytes - 1).toNat = 2 ^ 63 - 2 := by decide
    by_cases hn : n > sizeMax / unitBytes - 1
    · rw [if_pos hn]
      exact safe_reject _ _ _
    rw [if_neg hn]
    have hle : n.toNat ≤ (sizeMax / unitBytes - 1).toNat := UInt64.le_iff_toNat_le.mp (UInt64.not_lt.mp hn)
    have hlt : (n.toNat + 1) * 2 < 2 ^ 64 := by omega
    have hrequest := (unitsRequest_sound_iff n).mpr hlt
    refine (safe_iff_of_sound (iff_of_true ?_ hlt) fun _ hok => ?_).mpr hlt
    · cases hb : realloc answer str.data ((n + 1) * unitBytes) with
      | none => exact List.forall_mem_singleton.mpr hrequest
      | some b =>
        have hbytes := congrArg UInt64.toNat (realloc_bytes hb)
        rw [toNat_units_succ, Nat.mod_eq_of_lt hlt] at hbytes
        refine List.forall_mem_cons.mpr ⟨hrequest, List.forall_mem_singleton.mpr ?_⟩
        show n.toNat * 2 + 2 ≤ b.bytes.toNat
        omega
    · cases hb : realloc answer str.data ((n + 1) * unitBytes) with
      | none =>
        rw [hb] at hok
        exact absurd hok Bool.false_ne_true
      | some b =>
        have hbytes := congrArg UInt64.toNat (realloc_bytes hb)
        rw [toNat_units_succ, Nat.mod_eq_of_lt hlt] at hbytes
        show _ ≤ b.bytes.toNat
        omega

end

/-! ## sequences -/

section
variable {answers : Nat → Answer} {fresh : Nat → U16String} {block n : UInt64}

theorem init_sound (answer : Answer) (str : Option U16String) :
    ∀ e ∈ (init answer str).effects, e.Sound := by
  cases str with
  | none => exact fun e he => absurd he List.not_mem_nil
  | some str =>
    have hrequest : (Effect.request 2 unitBytes).Sound := rfl
    rw [init]
    cases hb : malloc answer unitBytes with
    | none => exact List.forall_mem_singleton.mpr hrequest
    | some b =>
      refine List.forall_mem_cons.mpr ⟨hrequest, List.forall_mem_singleton.mpr ?_⟩
      rw [malloc_bytes hb]
      exact (by decide : 0 + 2 ≤ unitBytes.toNat)

/-- every element is inside a block for all of them -/
theorem initLoop_sound (left : Nat) : ∀ i, (i + left) * 24 ≤ block.toNat →
    ∀ e ∈ (initLoop answers fresh block left i).effects, e.Sound := by
  induction left with
  | zero => exact fun i _ e he => absurd he List.not_mem_nil
  | succ left ih =>
    intro i hi
    have htouch : ∀ j ≤ i, (touch block j).Sound := by
      intro j hj
      show j * 24 + 24 ≤ block.toNat
      omega
    have hfirst := init_sound (answers i) (some (fresh i))
    rw [initLoop]
    split
    · refine List.forall_mem_cons.mpr ⟨htouch i (Nat.le_refl _), List.forall_mem_append.mpr ⟨hfirst, ?_⟩⟩
      exact ih (i + 1) (by omega)
    · refine List.forall_mem_cons.mpr ⟨htouch i (Nat.le_refl _), List.forall_mem_append.mpr ⟨hfirst, ?_⟩⟩
      intro e he
      obtain ⟨j, hj, rfl⟩ := List.mem_map.mp he
      exact htouch j (Nat.le_of_lt (List.mem_range.mp (List.mem_reverse.mp hj)))

theorem Sequence.init_sound_iff (answer : Answer) (sequence : Sequence) :
    (∀ e ∈ (Sequence.init answer answers fresh (some sequence) n).effects, e.Sound) ↔
      n.toNat * 24 < 2 ^ 64 := by
  rw [Sequence.init]
  by_cases hn : n ≠ 0
  · rw [if_pos hn, ← stringsRequest_sound_iff]
    cases hb : malloc answer (n * stringBytes) with
    | none => exact List.forall_mem_singleton
    | some b =>
      refine List.forall_mem_cons.trans (and_iff_left_iff_imp.mpr fun h => ?_)
      rw [stringsRequest_sound_iff] at h
      have hbytes := congrArg UInt64.toNat (malloc_bytes hb)
      rw [toNat_strings, Nat.mod_eq_of_lt h] at hbytes
      exact initLoop_sound n.toNat 0 (by omega)
  · rw [if_neg hn, not_not.mp hn]
    exact iff_of_true (fun e he => absurd he List.not_mem_nil) (by decide)

theorem Sequence.init_large (answer : Answer) (sequence : Sequence) (h : n.toNat * 24 < 2 ^ 64)
    (hok : (Sequence.init answer answers fresh (some sequence) n).ok = true) :
    n.toNat * 24 ≤ Sequence.room (Sequence.init answer answers fresh (some sequence) n).after := by
  rw [Sequence.init] at hok ⊢
  by_cases hn : n ≠ 0
  · rw [if_pos hn] at hok ⊢
    cases hb : malloc answer (n * stringBytes) with
    | none =>
      rw [hb] at hok
      cases hok
    | some b =>
      rw [hb] at hok
      have hbytes := congrArg UInt64.toNat (malloc_bytes hb)
      rw [toNat_strings, Nat.mod_eq_of_lt h] at hbytes
      replace hok : (initLoop answers fresh b.bytes n.toNat 0).ok = true := hok
      show _ ≤ Sequence.room (some (if _ then _ else _))
      rw [if_pos hok]
      exact Nat.le_of_eq hbytes.symm
  · rw [if_neg hn, not_not.mp hn]
    exact Nat.le_refl _

theorem Sequence.init_safe_iff (answer : Answer) (sequence : Option Sequence) :
    Safe Sequence.room (n.toNat * 24) sequence
        (Sequence.init answer answers fresh sequence n) ↔
      sequence = none ∨ n.toNat * 24 < 2 ^ 64 := by
  cases sequence with
  | none => exact iff_of_true (safe_reject _ _ _) (.inl rfl)
  | some sequence =>
    rw [or_iff_right (Option.some_ne_none sequence)]
    exact safe_iff_of_sound (Sequence.init_sound_iff answer sequence)
      (Sequence.init_large answer sequence)

theorem Sequence.create_safe_iff (first answer : Answer) (raw : Sequence) :
    Safe Sequence.room (n.toNat * 24) none
        (Sequence.create first answer answers fresh raw n) ↔
      first sequenceBytes = none ∨ n.toNat * 24 < 2 ^ 64 := by
  have hrequest : (Effect.request 24 sequenceBytes).Sound := rfl
  rw [Sequence.create]
  cases hb : malloc first sequenceBytes with
  | none =>
    refine iff_of_true ⟨List.forall_mem_singleton.mpr hrequest, ?_, fun _ => ⟨rfl, rfl⟩⟩
      (.inl (Option.map_eq_none_iff.mp hb))
    exact fun h => absurd h Bool.false_ne_true
  | some b =>
    have hfirst : first sequenceBytes ≠ none := by
      intro h
      rw [malloc, h] at hb
      cases hb
    rw [or_iff_right hfirst]
    refine safe_iff_of_sound ?_ fun h hok => ?_
    · refine List.forall_mem_cons.trans ((and_iff_right hrequest).trans ?_)
      refine List.forall_mem_cons.trans ((and_iff_right ?_).trans
        (Sequence.init_sound_iff answer raw))
      rw [malloc_bytes hb]
      exact (by decide : 0 + 24 ≤ sequenceBytes.toNat)
    · replace hok : (Sequence.init answer answers fresh (some raw) n).ok = true := hok
      show _ ≤ Sequence.room (if _ then _ else _)
      rw [if_pos hok]
      exact Sequence.init_large answer raw h hok

end

/-! ## all of them -/

/-- **The counts for which the calls are safe**, for every allocator. -/
theorem safe_iff (answer : Answer) (str : Option U16String) (n : UInt64) :
    (∀ value, Safe U16String.room ((n.toNat + 1) * 2) str (assignn answer str value n) ↔
      str = none ∨ value = none ∨ n = sizeMax ∨ n.toNat < 2 ^ 63 - 1) ∧
    (∀ value, Safe U16String.room ((n.toNat / 2 + 1) * 2) str
        (assignnFromChar answer str value n) ↔
      n.toNat % 2 = 1 ∨ str = none ∨ value = none ∨ n.toNat < 2 ^ 64 - 2) ∧
    (∀ value, Safe U16String.room (((len value).toNat + 1) * 2) str (assign answer str value) ↔
      str = none ∨ value = none ∨ len value = sizeMax ∨ (len value).toNat < 2 ^ 63 - 1) ∧
    Safe U16String.room ((n.toNat + 1) * 2) str (resize answer str n) ∧
    (∀ answers fresh sequence, Safe Sequence.room (n.toNat * 24) sequence
        (Sequence.init answer answers fresh sequence n) ↔
      sequence = none ∨ n.toNat * 24 < 2 ^ 64) ∧
    (∀ first answers fresh raw, Safe Sequence.room (n.toNat * 24) none
        (Sequence.create first answer answers fresh raw n) ↔
      first sequenceBytes = none ∨ n.toNat * 24 < 2 ^ 64) :=
  ⟨assignn_safe_iff str, assignnFromChar_safe_iff str, fun value => assignn_safe_iff str value,
    resize_safe str, fun _ _ => Sequence.init_safe_iff answer,
    fun first _ _ => Sequence.create_safe_iff first answer⟩

/-- an allocator that gives every block, filled with zeros -/
def grantAll : Answer := fun _ => some fun _ => 0

def emptyString : U16String := { data := none, size := 0, capacity := 0 }

/-- **The products wrap**: 2 bytes for `2 ^ 63` units and a zero, and 8 bytes for
768614336404564651 strings, which `Sequence__init` then begins to write. -/
theorem not_safe :
    (¬ Safe U16String.room ((2 ^ 63 + 1) * 2) (some emptyString)
      (assignn grantAll (some emptyString) (some []) 9223372036854775808)) ∧
    ¬ Safe Sequence.room (768614336404564651 * 24)
      (some { data := none, size := 0, capacity := 0 })
      (Sequence.init grantAll (fun _ => grantAll) (fun _ => emptyString)
        (some { data := none, size := 0, capacity := 0 }) 768614336404564651) := by
  constructor
  · intro h
    have hsound := h.sound (unitsRequest 9223372036854775808) List.mem_cons_self
    rw [unitsRequest_sound_iff] at hsound
    exact absurd hsound (by decide)
  · intro h
    have hsound := h.sound (stringsRequest 768614336404564651) List.mem_cons_self
    rw [stringsRequest_sound_iff] at hsound
    exact absurd hsound (by decide)

end PMROS2.Rosidl.U16
