import Mathlib

/-!
# The last write wins

`lastBy key a l` is the last element of `l` with key `a`.  A loop that writes the elements of a
list into a map leaves, for every key, the last one (`getElem?_foldl_insert`); a loop that erases
leaves the keys that are not in the list (`getElem?_foldl_erase`).  `find?_key_eq_some` is about
association lists with distinct keys, where there is one write to find.
-/

namespace PMROS2.Writes
open Std

section
variable {κ β : Type*} [DecidableEq κ] (key : β → κ)

/-- the last element with key `a` -/
def lastBy (a : κ) : List β → Option β
  | [] => none
  | b :: bs => (lastBy a bs).or (if key b = a then some b else none)

theorem lastBy_nil (a : κ) : lastBy key a [] = none := rfl
theorem lastBy_cons (a : κ) (b : β) (bs : List β) :
    lastBy key a (b :: bs) = (lastBy key a bs).or (if key b = a then some b else none) := rfl

variable {key}

theorem lastBy_some {a : κ} {l : List β} {b : β} (h : lastBy key a l = some b) :
    b ∈ l ∧ key b = a := by
  induction l with
  | nil => cases h
  | cons c l ih =>
    rw [lastBy_cons, Option.or_eq_some_iff] at h
    rcases h with h | ⟨_, h⟩
    · exact ⟨List.mem_cons_of_mem _ (ih h).1, (ih h).2⟩
    · by_cases hc : key c = a
      · rw [if_pos hc] at h
        obtain rfl := Option.some.inj h
        exact ⟨List.mem_cons_self .., hc⟩
      · rw [if_neg hc] at h
        cases h

theorem lastBy_eq_none {a : κ} {l : List β} : lastBy key a l = none ↔ ∀ b ∈ l, key b ≠ a := by
  induction l with
  | nil => simp [lastBy_nil]
  | cons c l ih =>
    rw [lastBy_cons, Option.or_eq_none_iff, ih, List.forall_mem_cons, and_comm]
    simp

theorem exists_lastBy (key : β → κ) {a : κ} {l : List β} {b : β} (hb : b ∈ l) (ha : key b = a) :
    ∃ c, lastBy key a l = some c := by
  cases h : lastBy key a l with
  | none => exact absurd ha (lastBy_eq_none.mp h b hb)
  | some c => exact ⟨c, rfl⟩

theorem lastBy_append (a : κ) (l l' : List β) :
    lastBy key a (l ++ l') = (lastBy key a l').or (lastBy key a l) := by
  induction l with
  | nil => rw [List.nil_append, lastBy_nil, Option.or_none]
  | cons c l ih => rw [List.cons_append, lastBy_cons, ih, lastBy_cons, Option.or_assoc]

theorem lastBy_filter {a : κ} {p : β → Bool} {l : List β}
    (h : ∀ b ∈ l, key b = a → p b = true) : lastBy key a (l.filter p) = lastBy key a l := by
  induction l with
  | nil => rfl
  | cons c l ih =>
    have ih' := ih fun b hb => h b (List.mem_cons_of_mem _ hb)
    cases hp : p c with
    | true => rw [List.filter_cons_of_pos hp, lastBy_cons, lastBy_cons, ih']
    | false =>
      have hc : key c ≠ a := fun e => by
        rw [h c (List.mem_cons_self ..) e] at hp
        cases hp
      rw [List.filter_cons_of_neg (by simp [hp]), lastBy_cons, if_neg hc, Option.or_none, ih']

theorem lastBy_filter_none {a : κ} {p : β → Bool} {l : List β}
    (h : ∀ b ∈ l, key b = a → p b = false) : lastBy key a (l.filter p) = none := by
  rw [lastBy_eq_none]
  intro b hb e
  obtain ⟨hl, hp⟩ := List.mem_filter.mp hb
  rw [h b hl e] at hp
  cases hp

end

/-- **An association list with distinct keys**: what is found is what is in it. -/
theorem find?_key_eq_some {κ ν : Type*} [DecidableEq κ] {l : List (κ × ν)}
    (h : (l.map Prod.fst).Nodup) {k : κ} {v : ν} :
    (l.find? fun e => e.1 = k).map Prod.snd = some v ↔ (k, v) ∈ l := by
  rw [Option.map_eq_some_iff]
  constructor
  · rintro ⟨⟨k', v'⟩, hfind, rfl⟩
    obtain rfl : k' = k := by simpa using List.find?_some hfind
    exact List.mem_of_find?_eq_some hfind
  · intro hmem
    obtain ⟨e, he⟩ : ∃ e, (l.find? fun e => e.1 = k) = some e :=
      Option.isSome_iff_exists.mp (List.find?_isSome.mpr ⟨(k, v), hmem, by simp⟩)
    have hkey : e.1 = k := by simpa using List.find?_some he
    have heq : e = (k, v) := List.inj_on_of_nodup_map h (List.mem_of_find?_eq_some he) hmem hkey
    exact ⟨e, he, by rw [heq]⟩

/-! ## loops over a map -/

section
variable {κ β ν : Type*} [Ord κ] [TransOrd κ] [LawfulEqOrd κ] [DecidableEq κ]

theorem getElem?_insert_if (m : ExtTreeMap κ ν) (k a : κ) (v : ν) :
    (m.insert k v)[a]? = if k = a then some v else m[a]? := by
  rw [ExtTreeMap.getElem?_insert]
  simp only [Std.compare_eq_iff_eq]

theorem getElem?_erase_if (m : ExtTreeMap κ ν) (k a : κ) :
    (m.erase k)[a]? = if k = a then none else m[a]? := by
  rw [ExtTreeMap.getElem?_erase]
  simp only [Std.compare_eq_iff_eq]

theorem getElem?_foldl_insert (key : β → κ) (f : β → ν) (l : List β) (m : ExtTreeMap κ ν) (a : κ) :
    (l.foldl (fun m b => m.insert (key b) (f b)) m)[a]? = ((lastBy key a l).map f).or m[a]? := by
  induction l generalizing m with
  | nil => rfl
  | cons b l ih =>
    rw [List.foldl_cons, ih, getElem?_insert_if, lastBy_cons]
    by_cases hb : key b = a
    · rw [if_pos hb, if_pos hb]
      cases lastBy key a l <;> rfl
    · rw [if_neg hb, if_neg hb, Option.or_none]

theorem getElem?_foldl_erase (key : β → κ) (l : List β) (m : ExtTreeMap κ ν) (a : κ) :
    (l.foldl (fun m b => m.erase (key b)) m)[a]? = if a ∈ l.map key then none else m[a]? := by
  induction l generalizing m with
  | nil => rfl
  | cons b l ih =>
    rw [List.foldl_cons, ih, getElem?_erase_if, List.map_cons]
    by_cases hb : key b = a
    · simp [hb]
    · simp [hb, Ne.symm hb]

/-- the entries of a map have one write for each key -/
theorem lastBy_toList (m : ExtTreeMap κ ν) (a : κ) :
    lastBy Prod.fst a m.toList = m[a]?.map fun v => (a, v) := by
  cases h : m[a]? with
  | none =>
    rw [Option.map_none, lastBy_eq_none]
    rintro ⟨k, v⟩ hk rfl
    rw [ExtTreeMap.mem_toList_iff_getElem?_eq_some, h] at hk
    cases hk
  | some v =>
    obtain ⟨⟨k, w⟩, hc⟩ := exists_lastBy Prod.fst
      (ExtTreeMap.mem_toList_iff_getElem?_eq_some.mpr h) rfl
    obtain ⟨hm, rfl⟩ := lastBy_some hc
    rw [ExtTreeMap.mem_toList_iff_getElem?_eq_some, h] at hm
    obtain rfl := Option.some.inj hm
    exact hc

theorem getElem?_foldl_toList (m m' : ExtTreeMap κ ν) (a : κ) :
    (m'.toList.foldl (fun m kv => m.insert kv.1 kv.2) m)[a]? = m'[a]?.or m[a]? := by
  rw [getElem?_foldl_insert Prod.fst Prod.snd, lastBy_toList]
  cases m'[a]? <;> rfl

end

end PMROS2.Writes
