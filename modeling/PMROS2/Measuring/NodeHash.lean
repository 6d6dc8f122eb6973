import PMROS2.Lib.Mixing
import PMROS2.Measuring.InfluxWriter

/-!
# The hash of a node name

`MurmurHash3_x86_32` and `MessageTrackerHostInfo::hash_full_node_name`: a publisher puts the hash of
its node into every message, and the measurements of a subscriber tell the publishers apart by it.

* `murmurHash3`                     `MurmurHash3_x86_32`;
* `hashFullNodeName`                `hash_full_node_name`;
* `murmurHash3_block_injective`     names that differ in one block of four bytes never collide;
* `murmurHash3_seed_injective`      another seed is another hash of the same name;
* `publisherDigits_eq_iff`          what this says about the digits in the measurements.
-/

namespace PMROS2.Measuring
open Mixing Function

/-! ## the code -/

def c1 : BitVec 32 := 0xcc9e2d51
def c2 : BitVec 32 := 0x1b873593

/-- `getblock32`, on a machine that stores the low byte first -/
def getblock32 (b₀ b₁ b₂ b₃ : BitVec 8) : BitVec 32 := b₃ ++ b₂ ++ b₁ ++ b₀

def fmix32 (h : BitVec 32) : BitVec 32 :=
  let h := h ^^^ h >>> 16
  let h := h * 0x85ebca6b
  let h := h ^^^ h >>> 13
  let h := h * 0xc2b2ae35
  h ^^^ h >>> 16

/-- what becomes of a block before it is xored into the hash -/
def mixKey (k : BitVec 32) : BitVec 32 := rotl (k * c1) 15 * c2

/-- one round of the loop over the blocks -/
def mixBlock (h k : BitVec 32) : BitVec 32 := rotl (h ^^^ mixKey k) 13 * 5 + 0xe6546b64

/-- the switch over the bytes behind the last block -/
def mixTail (h : BitVec 32) : List (BitVec 8) → BitVec 32
  | [t₀, t₁, t₂] =>
    h ^^^ mixKey (t₂.setWidth 32 <<< 16 ^^^ t₁.setWidth 32 <<< 8 ^^^ t₀.setWidth 32)
  | [t₀, t₁] => h ^^^ mixKey (t₁.setWidth 32 <<< 8 ^^^ t₀.setWidth 32)
  | [t₀] => h ^^^ mixKey (t₀.setWidth 32)
  | _ => h

/-- a loop over the blocks of four bytes, and what comes behind the last of them -/
def overBlocks {σ : Type} (block : σ → BitVec 32 → σ) (tail : σ → List (BitVec 8) → σ) :
    σ → List (BitVec 8) → σ
  | s, b₀ :: b₁ :: b₂ :: b₃ :: rest =>
    overBlocks block tail (block s (getblock32 b₀ b₁ b₂ b₃)) rest
  | s, rest => tail s rest

/-- the body and the tail -/
def mixBytes (h : BitVec 32) (key : List (BitVec 8)) : BitVec 32 :=
  overBlocks mixBlock mixTail h key

/-- `MurmurHash3_x86_32` -/
def murmurHash3 (key : List (BitVec 8)) (seed : BitVec 32) : BitVec 32 :=
  fmix32 (mixBytes seed key ^^^ BitVec.ofNat 32 key.length)

def bytes (s : List Char) : List (BitVec 8) := s.map fun c => BitVec.ofNat 8 c.toNat

/-- `hash_full_node_name` -/
def HostInfo.hashFullNodeName (host : HostInfo) : UInt32 :=
  ⟨murmurHash3 (bytes (host.nodeNamespace ++ host.nodeName)) 0⟩

/-- the digits that a subscriber records for a message of a publisher on that host: the hash is the
signed `vandenhoven_publisher_hash` of the message on the way -/
def HostInfo.publisherDigits (host : HostInfo) : List Char :=
  hexCharArray host.hashFullNodeName.toInt32.toUInt32

/-! ## every step is injective -/

theorem fmix32_injective : Injective fmix32 := by
  intro x y h
  refine xorShift_injective (k := 16) (by decide) ?_
  refine mul_injective (by decide : (0x85ebca6b : BitVec 32) * 0xa5cb9243 = 1) ?_
  refine xorShift_injective (k := 13) (by decide) ?_
  refine mul_injective (by decide : (0xc2b2ae35 : BitVec 32) * 0x7ed1b41d = 1) ?_
  exact xorShift_injective (k := 16) (by decide) h

theorem mixKey_injective : Injective mixKey := by
  intro x y h
  refine mul_injective (by decide : c1 * 0xdee13bb1 = 1) ?_
  refine rotl_injective (by decide : 15 ≤ 32) ?_
  exact mul_injective (by decide : c2 * 0x56ed309b = 1) h

theorem mixBlock_eq_iff {h h' k k' : BitVec 32} :
    mixBlock h k = mixBlock h' k' ↔ h ^^^ mixKey k = h' ^^^ mixKey k' := by
  refine ⟨fun heq => ?_, fun heq => by unfold mixBlock; rw [heq]⟩
  refine rotl_injective (by decide : 13 ≤ 32) ?_
  refine mul_injective (by decide : (5 : BitVec 32) * 0xcccccccd = 1) ?_
  exact add_injective (0xe6546b64 : BitVec 32) heq

theorem getblock32_eq_iff {a₀ a₁ a₂ a₃ b₀ b₁ b₂ b₃ : BitVec 8} :
    getblock32 a₀ a₁ a₂ a₃ = getblock32 b₀ b₁ b₂ b₃ ↔ a₀ = b₀ ∧ a₁ = b₁ ∧ a₂ = b₂ ∧ a₃ = b₃ := by
  refine ⟨fun h => ?_, fun ⟨h₀, h₁, h₂, h₃⟩ => by rw [h₀, h₁, h₂, h₃]⟩
  obtain ⟨h, h₀⟩ := append_inj h
  obtain ⟨h, h₁⟩ := append_inj h
  obtain ⟨h₃, h₂⟩ := append_inj h
  exact ⟨h₀, h₁, h₂, h₃⟩

/-- the word that a tail is packed into is the one of a block with zeros at the end -/
theorem tailWord_eq (t₀ t₁ t₂ : BitVec 8) :
    t₂.setWidth 32 <<< 16 ^^^ t₁.setWidth 32 <<< 8 ^^^ t₀.setWidth 32 =
      getblock32 t₀ t₁ t₂ 0 := by
  unfold getblock32
  refine BitVec.eq_of_getLsbD_eq fun i hi => ?_
  simp only [BitVec.getLsbD_append, BitVec.getLsbD_xor, BitVec.getLsbD_shiftLeft,
    BitVec.getLsbD_setWidth, hi, decide_true, Bool.true_and]
  rcases Nat.lt_or_ge i 8 with h | h
  · have h16 : i < 16 := by omega
    simp [h, h16]
  have e0 : t₀.getLsbD i = false := BitVec.getLsbD_of_ge _ _ h
  have h8 : ¬ i < 8 := by omega
  have h32 : i - 8 < 32 := by omega
  rcases Nat.lt_or_ge i 16 with h' | h'
  · have hlt : i - 8 < 8 := by omega
    simp [h', hlt, e0, h8, h32]
  have e1 : t₁.getLsbD (i - 8) = false := BitVec.getLsbD_of_ge _ _ (by omega)
  have h16 : ¬ i < 16 := by omega
  have hge : ¬ i - 8 < 8 := by omega
  have h32' : i - 16 < 32 := by omega
  have hsub : i - 8 - 8 = i - 16 := by omega
  rcases Nat.lt_or_ge i 24 with h'' | h''
  · have hlt : i - 16 < 8 := by omega
    simp [e0, e1, h8, h16, hge, h32', hsub, hlt]
  · have e2 : t₂.getLsbD (i - 16) = false := BitVec.getLsbD_of_ge _ _ (by omega)
    simp [e0, e1, e2, hsub]

theorem tailWord_eq_two (t₀ t₁ : BitVec 8) :
    t₁.setWidth 32 <<< 8 ^^^ t₀.setWidth 32 = getblock32 t₀ t₁ 0 0 := by
  rw [← tailWord_eq]
  simp

theorem tailWord_eq_one (t₀ : BitVec 8) : t₀.setWidth 32 = getblock32 t₀ 0 0 0 := by
  rw [← tailWord_eq]
  simp

theorem mixTail_injective (tail : List (BitVec 8)) : Injective fun h => mixTail h tail := by
  intro x y h
  simp only [mixTail] at h
  split at h
  · exact xor_injective _ h
  · exact xor_injective _ h
  · exact xor_injective _ h
  · exact h

/-- tails of the same length never collide -/
theorem mixTail_eq {h : BitVec 32} {l l' : List (BitVec 8)} (hlen : l.length = l'.length)
    (hlt : l.length < 4) (heq : mixTail h l = mixTail h l') : l = l' := by
  rcases l with _ | ⟨a₀, _ | ⟨a₁, _ | ⟨a₂, _ | ⟨a₃, l⟩⟩⟩⟩
  · exact (List.eq_nil_of_length_eq_zero hlen.symm).symm
  · obtain ⟨b₀, rfl⟩ := List.length_eq_one_iff.mp hlen.symm
    have hk := mixKey_injective (xor_injective_right h heq)
    rw [tailWord_eq_one, tailWord_eq_one, getblock32_eq_iff] at hk
    rw [hk.1]
  · obtain ⟨b₀, b₁, rfl⟩ := List.length_eq_two.mp hlen.symm
    have hk := mixKey_injective (xor_injective_right h heq)
    rw [tailWord_eq_two, tailWord_eq_two, getblock32_eq_iff] at hk
    rw [hk.1, hk.2.1]
  · obtain ⟨b₀, b₁, b₂, rfl⟩ := List.length_eq_three.mp hlen.symm
    have hk := mixKey_injective (xor_injective_right h heq)
    rw [tailWord_eq, tailWord_eq, getblock32_eq_iff] at hk
    rw [hk.1, hk.2.1, hk.2.2.1]
  · simp only [List.length_cons] at hlt
    omega

/-! ## whole keys -/

section
variable {σ : Type} (block : σ → BitVec 32 → σ) (tail : σ → List (BitVec 8) → σ) (s : σ)

theorem overBlocks_cons (b₀ b₁ b₂ b₃ : BitVec 8) (rest : List (BitVec 8)) :
    overBlocks block tail s (b₀ :: b₁ :: b₂ :: b₃ :: rest) =
      overBlocks block tail (block s (getblock32 b₀ b₁ b₂ b₃)) rest := rfl

theorem overBlocks_short {l : List (BitVec 8)} (hlt : l.length < 4) :
    overBlocks block tail s l = tail s l := by
  rcases l with _ | ⟨b₀, _ | ⟨b₁, _ | ⟨b₂, _ | ⟨b₃, rest⟩⟩⟩⟩
  · rfl
  · rfl
  · rfl
  · rfl
  · simp only [List.length_cons] at hlt
    omega

end

theorem mixBytes_cons (h : BitVec 32) (b₀ b₁ b₂ b₃ : BitVec 8) (rest : List (BitVec 8)) :
    mixBytes h (b₀ :: b₁ :: b₂ :: b₃ :: rest) =
      mixBytes (mixBlock h (getblock32 b₀ b₁ b₂ b₃)) rest :=
  overBlocks_cons mixBlock mixTail h b₀ b₁ b₂ b₃ rest

theorem mixBytes_short {h : BitVec 32} {tail : List (BitVec 8)} (hlt : tail.length < 4) :
    mixBytes h tail = mixTail h tail :=
  overBlocks_short mixBlock mixTail h hlt

theorem block_cases (l : List (BitVec 8)) :
    l.length < 4 ∨ ∃ b₀ b₁ b₂ b₃ rest, l = b₀ :: b₁ :: b₂ :: b₃ :: rest := by
  rcases l with _ | ⟨b₀, _ | ⟨b₁, _ | ⟨b₂, _ | ⟨b₃, rest⟩⟩⟩⟩
  · exact .inl (by decide)
  · exact .inl (by simp only [List.length_cons, List.length_nil]; omega)
  · exact .inl (by simp only [List.length_cons, List.length_nil]; omega)
  · exact .inl (by simp only [List.length_cons, List.length_nil]; omega)
  · exact .inr ⟨b₀, b₁, b₂, b₃, rest, rfl⟩

theorem mixBytes_inj {x y : BitVec 32} {key : List (BitVec 8)}
    (h : mixBytes x key = mixBytes y key) : x = y := by
  induction hn : key.length using Nat.strong_induction_on generalizing x y key with
  | _ n ih =>
    rcases block_cases key with hlt | ⟨b₀, b₁, b₂, b₃, rest, rfl⟩
    · rw [mixBytes_short hlt, mixBytes_short hlt] at h
      exact mixTail_injective key h
    · rw [mixBytes_cons, mixBytes_cons] at h
      have hrest : rest.length < n := by
        rw [← hn]
        simp only [List.length_cons]
        omega
      exact xor_injective _ (mixBlock_eq_iff.mp (ih rest.length hrest h rfl))

/-- the blocks before the one that differs leave the same hash, and those behind it keep two hashes
apart -/
theorem mixBytes_block {h : BitVec 32} {key key' : List (BitVec 8)} {i : Nat}
    (hlen : key.length = key'.length) (hsame : ∀ j, j / 4 ≠ i → key[j]? = key'[j]?)
    (heq : mixBytes h key = mixBytes h key') : key = key' := by
  induction i generalizing h key key' with
  | zero =>
    rcases block_cases key with hlt | ⟨b₀, b₁, b₂, b₃, rest, rfl⟩
    · rw [mixBytes_short hlt, mixBytes_short (hlen ▸ hlt)] at heq
      exact mixTail_eq hlen hlt heq
    rcases block_cases key' with hlt | ⟨a₀, a₁, a₂, a₃, rest', rfl⟩
    · rw [← hlen] at hlt
      simp only [List.length_cons] at hlt
      omega
    have hrest : rest = rest' := List.ext_getElem? fun j => hsame (j + 4) (by omega)
    subst hrest
    rw [mixBytes_cons, mixBytes_cons] at heq
    have hk := mixKey_injective (xor_injective_right h (mixBlock_eq_iff.mp (mixBytes_inj heq)))
    obtain ⟨rfl, rfl, rfl, rfl⟩ := getblock32_eq_iff.mp hk
    rfl
  | succ i ih =>
    rcases block_cases key with hlt | ⟨b₀, b₁, b₂, b₃, rest, rfl⟩
    · -- the first block is the tail
      refine List.ext_getElem? fun j => ?_
      rcases Nat.lt_or_ge j 4 with hj | hj
      · exact hsame j (by omega)
      · rw [List.getElem?_eq_none (by omega), List.getElem?_eq_none (by omega)]
    rcases block_cases key' with hlt | ⟨a₀, a₁, a₂, a₃, rest', rfl⟩
    · rw [← hlen] at hlt
      simp only [List.length_cons] at hlt
      omega
    obtain rfl := Option.some.inj (hsame 0 (by omega))
    obtain rfl := Option.some.inj (hsame 1 (by omega))
    obtain rfl := Option.some.inj (hsame 2 (by omega))
    obtain rfl := Option.some.inj (hsame 3 (by omega))
    rw [mixBytes_cons, mixBytes_cons] at heq
    have hlen' : rest.length = rest'.length := by simpa using hlen
    rw [ih hlen' (fun j hj => hsame (j + 4) (by omega)) heq]

/-- **Another seed is another hash of the same key.** -/
theorem murmurHash3_seed_injective (key : List (BitVec 8)) : Injective (murmurHash3 key) := by
  intro x y h
  exact mixBytes_inj (xor_injective _ (fmix32_injective h))

/-- **Keys of the same length that differ in one block never collide.** -/
theorem murmurHash3_block_injective {key key' : List (BitVec 8)} {seed : BitVec 32} {i : Nat}
    (hlen : key.length = key'.length) (hsame : ∀ j, j / 4 ≠ i → key[j]? = key'[j]?)
    (h : murmurHash3 key seed = murmurHash3 key' seed) : key = key' := by
  have hmix := fmix32_injective h
  rw [hlen] at hmix
  exact mixBytes_block hlen hsame (xor_injective _ hmix)

/-! ## the digits -/

theorem toChar_injective : ∀ a < 16, ∀ b < 16, toChar.getD a '0' = toChar.getD b '0' → a = b := by
  decide

/-- the digits of base 16 below a place, and what is above it, give the number -/
theorem eq_of_hex_digits {x y : Nat} (n : Nat)
    (hdigit : ∀ i < n, x / 2 ^ (i * 4) % 16 = y / 2 ^ (i * 4) % 16)
    (hrest : x / 2 ^ (n * 4) = y / 2 ^ (n * 4)) : x = y := by
  induction n with
  | zero => simpa using hrest
  | succ n ih =>
    refine ih (fun i hi => hdigit i (Nat.lt_succ_of_lt hi)) ?_
    have hpow : 2 ^ ((n + 1) * 4) = 2 ^ (n * 4) * 16 := by
      rw [Nat.add_mul, Nat.pow_add]
    rw [hpow, ← Nat.div_div_eq_div_mul, ← Nat.div_div_eq_div_mul] at hrest
    rw [← Nat.div_add_mod (x / 2 ^ (n * 4)) 16, hrest, hdigit n (Nat.lt_succ_self n),
      Nat.div_add_mod]

theorem hexCharArray_injective : Injective hexCharArray := by
  intro x y h
  have hdigit : ∀ i < 8, x.toNat / 2 ^ (i * 4) % 16 = y.toNat / 2 ^ (i * 4) % 16 := by
    intro i hi
    have hmem : i ∈ [7, 6, 5, 4, 3, 2, 1, 0] := by
      simp only [List.mem_cons, List.not_mem_nil, or_false]
      omega
    rw [← Nat.shiftRight_eq_div_pow, ← Nat.shiftRight_eq_div_pow]
    exact toChar_injective _ (Nat.mod_lt _ (by decide)) _ (Nat.mod_lt _ (by decide))
      (List.map_inj_left.mp h i hmem)
  refine UInt32.toNat_inj.mp (eq_of_hex_digits 8 hdigit ?_)
  rw [Nat.div_eq_of_lt x.toNat_lt, Nat.div_eq_of_lt y.toNat_lt]

theorem bytes_injective {s s' : List Char} (hs : s.all (fun c => c.toNat < 256) = true)
    (hs' : s'.all (fun c => c.toNat < 256) = true) (h : bytes s = bytes s') : s = s' := by
  induction s generalizing s' with
  | nil =>
    cases s' with
    | nil => rfl
    | cons c' rest' => cases h
  | cons c rest ih =>
    cases s' with
    | nil => cases h
    | cons c' rest' =>
      obtain ⟨hchar, hrest⟩ := List.cons.inj h
      rw [List.all_cons, Bool.and_eq_true, decide_eq_true_iff] at hs hs'
      have hnat := congrArg BitVec.toNat hchar
      rw [BitVec.toNat_ofNat, BitVec.toNat_ofNat, Nat.mod_eq_of_lt hs.1, Nat.mod_eq_of_lt hs'.1]
        at hnat
      rw [Char.toNat_inj.mp hnat, ih hs.2 hs'.2 hrest]

/-- **The digits tell two publishers apart** whose node names, with the namespaces in front of them,
have the same length and differ within one block of four characters. -/
theorem publisherDigits_eq_iff {a b : HostInfo} {i : Nat}
    (ha : a.fullName.all (fun c => c.toNat < 256) = true)
    (hb : b.fullName.all (fun c => c.toNat < 256) = true)
    (hlen : a.fullName.length = b.fullName.length)
    (hsame : ∀ j, j / 4 ≠ i → a.fullName[j]? = b.fullName[j]?) :
    a.publisherDigits = b.publisherDigits ↔ a.fullName = b.fullName := by
  unfold HostInfo.publisherDigits HostInfo.hashFullNodeName
  rw [UInt32.toUInt32_toInt32, UInt32.toUInt32_toInt32]
  refine ⟨fun h => ?_, fun h => by unfold HostInfo.fullName at h; rw [h]⟩
  have hhash := congrArg UInt32.toBitVec (hexCharArray_injective h)
  refine bytes_injective ha hb (murmurHash3_block_injective (i := i) ?_ (fun j hj => ?_) hhash)
  · unfold bytes
    rw [List.length_map, List.length_map]
    exact hlen
  · unfold bytes
    rw [List.getElem?_map, List.getElem?_map]
    exact congrArg _ (hsame j hj)

def leftCamera : HostInfo := ⟨"image".toList, "camera_1".toList, "/robot/".toList⟩
def rightCamera : HostInfo := ⟨"image".toList, "camera_2".toList, "/robot/".toList⟩

theorem publisherDigits_ne_cameras : leftCamera.publisherDigits ≠ rightCamera.publisherDigits := by
  have hprefix : ∀ j < 15, j / 4 ≠ 3 → leftCamera.fullName[j]? = rightCamera.fullName[j]? := by
    decide
  have hsame : ∀ j, j / 4 ≠ 3 → leftCamera.fullName[j]? = rightCamera.fullName[j]? := by
    intro j hj
    rcases Nat.lt_or_ge j 15 with hlt | hge
    · exact hprefix j hlt hj
    · rw [List.getElem?_eq_none hge, List.getElem?_eq_none hge]
  have hne : leftCamera.fullName ≠ rightCamera.fullName := by decide
  have hiff := publisherDigits_eq_iff (a := leftCamera) (b := rightCamera) (i := 3) (by decide)
    (by decide) (by decide) hsame
  exact fun h => hne (hiff.mp h)

end PMROS2.Measuring
