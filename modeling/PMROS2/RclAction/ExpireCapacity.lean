import PMROS2.RclAction.ActionServer

/-!
# Expiring goals into an array of a given size

`rcl_action_expire_goals` compares the capacity of `expired_goals` with the index into the array of
goal handles.  That index counts the goals that are kept, not those that are written.

* `expireScan_cons_expired`, `expireScan_cons_kept`   one step of the scan;
* `scanned`               the goals that the scan looks at: those up to the one where as many goals
                          as the capacity are kept;
* `expiresAtMost_iff`     when the call expires the first goals that fit and nothing else.
-/

namespace PMROS2.RclAction

variable {ι : Type*} {impl : ι → GoalHandleImpl} {timeout now : Int64} {c : Nat}

/-! ## the scan -/

theorem expireScan_full {i : Nat} (hc : c ≤ i) (k : Nat) (h : ι) (hs : List ι) :
    expireScan impl timeout now (some c) i k (h :: hs) = ⟨h :: hs, [], false⟩ := by
  rw [expireScan, if_pos (by simpa using hc)]

theorem expireScan_cons_expired {i : Nat} (hc : i < c) (k : Nat) {h : ι}
    (hh : isExpired impl timeout now h = true) (hs : List ι) :
    expireScan impl timeout now (some c) i k (h :: hs) =
      { expireScan impl timeout now (some c) i (k + 1) hs with
        expired := h :: (expireScan impl timeout now (some c) i (k + 1) hs).expired
        overrun := decide (c ≤ k) ||
          (expireScan impl timeout now (some c) i (k + 1) hs).overrun } := by
  unfold isExpired at hh
  obtain ⟨hinactive, hold⟩ := Bool.and_eq_true_iff.mp hh
  rw [Bool.not_eq_true'] at hinactive
  rw [expireScan, if_neg (by simpa using hc), hinactive, if_neg Bool.false_ne_true,
    if_pos (of_decide_eq_true hold), Option.any_some]

theorem expireScan_cons_kept {i : Nat} (hc : i < c) (k : Nat) {h : ι}
    (hh : isExpired impl timeout now h = false) (hs : List ι) :
    expireScan impl timeout now (some c) i k (h :: hs) =
      { expireScan impl timeout now (some c) (i + 1) k hs with
        kept := h :: (expireScan impl timeout now (some c) (i + 1) k hs).kept
        overrun := !(impl h).state.isActive && decide (c ≤ k) ||
          (expireScan impl timeout now (some c) (i + 1) k hs).overrun } := by
  unfold isExpired at hh
  rw [expireScan, if_neg (by simpa using hc)]
  cases hactive : (impl h).state.isActive with
  | true => rw [if_pos rfl, Bool.not_true, Bool.false_and, Bool.false_or]
  | false =>
    rw [hactive, Bool.not_false, Bool.true_and] at hh
    rw [if_neg Bool.false_ne_true, if_neg (of_decide_eq_false hh), Option.any_some, Bool.not_false,
      Bool.true_and]

/-- the goals that a scan with room for as many kept goals looks at -/
def scanned (impl : ι → GoalHandleImpl) (timeout now : Int64) : List ι → Nat → List ι
  | [], _ => []
  | h :: hs, room =>
    if room = 0 then []
    else h :: scanned impl timeout now hs
      (if isExpired impl timeout now h then room else room - 1)

/-- the goals without the first expired ones -/
def removeExpired (impl : ι → GoalHandleImpl) (timeout now : Int64) : Nat → List ι → List ι
  | 0, hs => hs
  | _ + 1, [] => []
  | n + 1, h :: hs =>
    if isExpired impl timeout now h then removeExpired impl timeout now n hs
    else h :: removeExpired impl timeout now (n + 1) hs

def expired (impl : ι → GoalHandleImpl) (timeout now : Int64) (hs : List ι) : List ι :=
  hs.filter fun h => isExpired impl timeout now h

theorem expired_cons_of_expired {h : ι} (hh : isExpired impl timeout now h = true) (hs : List ι) :
    expired impl timeout now (h :: hs) = h :: expired impl timeout now hs :=
  List.filter_cons_of_pos hh

theorem expired_cons_of_kept {h : ι} (hh : isExpired impl timeout now h = false) (hs : List ι) :
    expired impl timeout now (h :: hs) = expired impl timeout now hs :=
  List.filter_cons_of_neg (by rw [hh]; exact Bool.false_ne_true)

theorem removeExpired_cons_of_kept {h : ι} (hh : isExpired impl timeout now h = false) (n : Nat)
    (hs : List ι) :
    removeExpired impl timeout now n (h :: hs) = h :: removeExpired impl timeout now n hs := by
  cases n with
  | zero => rw [removeExpired, removeExpired]
  | succ n => rw [removeExpired, hh, if_neg Bool.false_ne_true]

theorem scanned_cons_expired {room : Nat} (hr : 0 < room) {h : ι}
    (hh : isExpired impl timeout now h = true) (hs : List ι) :
    scanned impl timeout now (h :: hs) room = h :: scanned impl timeout now hs room := by
  rw [scanned, if_neg hr.ne', hh, if_pos rfl]

theorem scanned_cons_kept {room : Nat} {h : ι} (hh : isExpired impl timeout now h = false)
    (hs : List ι) :
    scanned impl timeout now (h :: hs) (room + 1) = h :: scanned impl timeout now hs room := by
  rw [scanned, if_neg (Nat.succ_ne_zero room), hh, if_neg Bool.false_ne_true, Nat.add_sub_cancel]

theorem scanned_zero (hs : List ι) : scanned impl timeout now hs 0 = [] := by
  cases hs with
  | nil => rfl
  | cons h hs => rw [scanned, if_pos rfl]

/-- the expired goals that the scan looks at are removed -/
theorem expireScan_expired (hs : List ι) : ∀ i k,
    (expireScan impl timeout now (some c) i k hs).expired =
      expired impl timeout now (scanned impl timeout now hs (c - i)) := by
  induction hs with
  | nil => exact fun i k => rfl
  | cons h hs ih =>
    intro i k
    by_cases hc : c ≤ i
    · rw [expireScan_full hc, Nat.sub_eq_zero_of_le hc, scanned_zero]
      rfl
    · have hi : i < c := Nat.not_le.mp hc
      cases hh : isExpired impl timeout now h with
      | true =>
        rw [expireScan_cons_expired hi k hh, scanned_cons_expired (by omega) hh,
          expired_cons_of_expired hh, ← ih i (k + 1)]
      | false =>
        rw [expireScan_cons_kept hi k hh, show c - i = c - (i + 1) + 1 by omega,
          scanned_cons_kept hh, expired_cons_of_kept hh, ← ih (i + 1) k]

/-- the scan removes the first expired goals and keeps the others in order -/
theorem expireScan_kept (hs : List ι) : ∀ i k,
    (expireScan impl timeout now (some c) i k hs).kept =
      removeExpired impl timeout now
        (expireScan impl timeout now (some c) i k hs).expired.length hs := by
  induction hs with
  | nil => exact fun i k => rfl
  | cons h hs ih =>
    intro i k
    by_cases hc : c ≤ i
    · rw [expireScan_full hc]
      rfl
    · have hi : i < c := Nat.not_le.mp hc
      cases hh : isExpired impl timeout now h with
      | true =>
        rw [expireScan_cons_expired hi k hh, List.length_cons, removeExpired, hh, if_pos rfl]
        exact ih i (k + 1)
      | false =>
        rw [expireScan_cons_kept hi k hh, removeExpired_cons_of_kept hh]
        exact congrArg (h :: ·) (ih (i + 1) k)

/-- a write goes past the end: a terminal goal behind as many expired ones as there is room for -/
theorem expireScan_overrun (hs : List ι) : ∀ i k,
    (expireScan impl timeout now (some c) i k hs).overrun = true ↔
      ∃ before g after, scanned impl timeout now hs (c - i) = before ++ g :: after ∧
        (impl g).state.isActive = false ∧
        c ≤ k + (expired impl timeout now before).length := by
  induction hs with
  | nil =>
    intro i k
    refine ⟨fun h => (by cases h), fun h => ?_⟩
    obtain ⟨before, g, after, heq, -⟩ := h
    exact absurd heq (by simp [scanned])
  | cons h hs ih =>
    intro i k
    by_cases hc : c ≤ i
    · rw [expireScan_full hc, Nat.sub_eq_zero_of_le hc, scanned_zero]
      refine ⟨fun h => (by cases h), fun h => ?_⟩
      obtain ⟨before, g, after, heq, -⟩ := h
      exact absurd heq (by simp)
    · have hi : i < c := Nat.not_le.mp hc
      cases hh : isExpired impl timeout now h with
      | true =>
        have hinactive : (impl h).state.isActive = false := by
          unfold isExpired at hh
          have := (Bool.and_eq_true_iff.mp hh).1
          rwa [Bool.not_eq_true'] at this
        rw [expireScan_cons_expired hi k hh, scanned_cons_expired (by omega) hh]
        simp only [Bool.or_eq_true, decide_eq_true_eq, ih i (k + 1)]
        constructor
        · intro hor
          rcases hor with hk | ⟨before, g, after, heq, hg, hle⟩
          · exact ⟨[], h, _, rfl, hinactive, hk⟩
          · refine ⟨h :: before, g, after, congrArg (h :: ·) heq, hg, ?_⟩
            rw [expired_cons_of_expired hh, List.length_cons]
            omega
        · intro hex
          obtain ⟨before, g, after, heq, hg, hle⟩ := hex
          cases before with
          | nil => exact .inl hle
          | cons b before =>
            obtain ⟨rfl, hrest⟩ := List.cons.inj heq
            rw [expired_cons_of_expired hh, List.length_cons] at hle
            exact .inr ⟨before, g, after, hrest, hg, by omega⟩
      | false =>
        rw [expireScan_cons_kept hi k hh, show c - i = c - (i + 1) + 1 by omega,
          scanned_cons_kept hh]
        simp only [Bool.or_eq_true, Bool.and_eq_true, Bool.not_eq_true', decide_eq_true_eq,
          ih (i + 1) k]
        constructor
        · intro hor
          rcases hor with ⟨hinactive, hk⟩ | ⟨before, g, after, heq, hg, hle⟩
          · exact ⟨[], h, _, rfl, hinactive, hk⟩
          · refine ⟨h :: before, g, after, congrArg (h :: ·) heq, hg, ?_⟩
            rw [expired_cons_of_kept hh]
            exact hle
        · intro hex
          obtain ⟨before, g, after, heq, hg, hle⟩ := hex
          cases before with
          | nil =>
            obtain ⟨rfl, -⟩ := List.cons.inj heq
            exact .inl ⟨hg, hle⟩
          | cons b before =>
            obtain ⟨rfl, hrest⟩ := List.cons.inj heq
            rw [expired_cons_of_kept hh] at hle
            exact .inr ⟨before, g, after, hrest, hg, hle⟩

/-! ## the call -/

theorem scanned_isPrefix (hs : List ι) : ∀ room, scanned impl timeout now hs room <+: hs := by
  induction hs with
  | nil => exact fun room => List.nil_prefix
  | cons h hs ih =>
    intro room
    rw [scanned]
    split
    · exact List.nil_prefix
    · exact (List.prefix_cons_inj h).mpr (ih _)

/-- the call expires the first goals that fit, reports them and keeps the others in order -/
structure ExpiresAtMost (impl : ι → GoalHandleImpl) (server : ActionServer ι) (c : Nat)
    (now : Int64) : Prop where
  within : (expireScan impl server.resultTimeout now (some c) 0 0 server.goalHandles).overrun = false
  result : ∃ server' numExpired,
    numExpired = min c (expired impl server.resultTimeout now server.goalHandles).length ∧
    expireGoals impl server (some c) now = .ok (server',
      ((expired impl server.resultTimeout now server.goalHandles).take numExpired).map
        fun h => (impl h).info, numExpired) ∧
    server'.goalHandles =
      removeExpired impl server.resultTimeout now numExpired server.goalHandles

/-- up to the goal where as many as the capacity are kept there are as many expired goals as fit
or as there are, and no terminal goal behind the last that fits -/
structure KeptBehind (impl : ι → GoalHandleImpl) (timeout now : Int64) (c : Nat)
    (goalHandles : List ι) : Prop where
  reached : (expired impl timeout now (scanned impl timeout now goalHandles c)).length =
    min c (expired impl timeout now goalHandles).length
  active : ∀ before g after, scanned impl timeout now goalHandles c = before ++ g :: after →
    c ≤ (expired impl timeout now before).length → (impl g).state.isActive = true

/-- the call in terms of the goals that the scan looks at -/
theorem expireGoals_scanned (impl : ι → GoalHandleImpl) (server : ActionServer ι) (hc : 0 < c)
    (now : Int64) {found : List ι}
    (hfound : expired impl server.resultTimeout now
      (scanned impl server.resultTimeout now server.goalHandles c) = found) :
    ∃ server', expireGoals impl server (some c) now =
        .ok (server', (found.take c).map fun h => (impl h).info, found.length) ∧
      server'.goalHandles =
        removeExpired impl server.resultTimeout now found.length server.goalHandles := by
  have hscan : (expireScan impl server.resultTimeout now (some c) 0 0 server.goalHandles).expired =
      found := (expireScan_expired server.goalHandles 0 0).trans hfound
  have hkept := (expireScan_kept server.goalHandles 0 0).trans (by rw [hscan])
  unfold expireGoals
  rw [if_neg (by simpa using hc.ne')]
  refine ⟨{ server with
    goalHandles := (expireScan impl server.resultTimeout now (some c) 0 0 server.goalHandles).kept
    expireTimer := recalculateExpireTimer impl server.resultTimeout
      (expireScan impl server.resultTimeout now (some c) 0 0 server.goalHandles).kept now },
    ?_, hkept⟩
  simp only [hscan]
  rfl

/-- **Expiring into an array** of a capacity. -/
theorem expiresAtMost_iff (server : ActionServer ι) (hc : 0 < c) :
    ExpiresAtMost impl server c now ↔
      KeptBehind impl server.resultTimeout now c server.goalHandles := by
  obtain ⟨server', hok, hkept⟩ := expireGoals_scanned impl server hc now rfl
  constructor
  · intro h
    obtain ⟨server₁, n, hn, hres, -⟩ := h.result
    have hnum := congrArg (fun r => r.2.2) (Except.ok.inj (hok.symm.trans hres))
    refine ⟨hnum.trans hn, fun before g after heq hle => ?_⟩
    by_contra hactive
    have htrue := (expireScan_overrun server.goalHandles 0 0).mpr
      ⟨before, g, after, heq, Bool.eq_false_of_not_eq_true hactive, by omega⟩
    rw [h.within] at htrue
    cases htrue
  · intro h
    have hprefix : expired impl server.resultTimeout now
        (scanned impl server.resultTimeout now server.goalHandles c) <+:
          expired impl server.resultTimeout now server.goalHandles :=
      (scanned_isPrefix server.goalHandles c).filter _
    have htake := List.prefix_iff_eq_take.mp hprefix
    have hfits : (expired impl server.resultTimeout now
        (scanned impl server.resultTimeout now server.goalHandles c)).length ≤ c := by
      rw [h.reached]
      exact Nat.min_le_left _ _
    refine ⟨?_, server', _, h.reached, ?_, ?_⟩
    · rw [← Bool.not_eq_true]
      intro htrue
      obtain ⟨before, g, after, heq, hinactive, hle⟩ :=
        (expireScan_overrun server.goalHandles 0 0).mp htrue
      rw [h.active before g after heq (by omega)] at hinactive
      cases hinactive
    · rw [hok, List.take_of_length_le hfits, ← htake]
    · exact hkept

/-! ## room for one goal -/

theorem expired_scanned_one (hs : List ι) :
    expired impl timeout now (scanned impl timeout now hs 1) =
      hs.takeWhile fun h => isExpired impl timeout now h := by
  induction hs with
  | nil => rfl
  | cons h hs ih =>
    cases hh : isExpired impl timeout now h with
    | true =>
      rw [scanned_cons_expired Nat.one_pos hh, expired_cons_of_expired hh,
        List.takeWhile_cons_of_pos hh, ih]
    | false =>
      rw [scanned_cons_kept hh, scanned_zero, expired_cons_of_kept hh,
        List.takeWhile_cons_of_neg (by rw [hh]; exact Bool.false_ne_true)]
      rfl

theorem removeExpired_takeWhile (hs : List ι) :
    removeExpired impl timeout now (hs.takeWhile fun h => isExpired impl timeout now h).length hs =
      hs.dropWhile fun h => isExpired impl timeout now h := by
  induction hs with
  | nil => rfl
  | cons h hs ih =>
    cases hh : isExpired impl timeout now h with
    | true =>
      rw [List.takeWhile_cons_of_pos hh, List.dropWhile_cons_of_pos hh, List.length_cons,
        removeExpired, hh, if_pos rfl]
      exact ih
    | false =>
      have hneg : ¬ isExpired impl timeout now h = true := by
        rw [hh]
        exact Bool.false_ne_true
      rw [List.takeWhile_cons_of_neg hneg, List.dropWhile_cons_of_neg hneg, List.length_nil,
        removeExpired]

/-- a call with room for one goal removes the expired goals at the beginning -/
theorem expireGoals_one (impl : ι → GoalHandleImpl) (server : ActionServer ι) (now : Int64) :
    ∃ server', expireGoals impl server (some 1) now =
        .ok (server', ((server.goalHandles.takeWhile
          fun h => isExpired impl server.resultTimeout now h).take 1).map fun h => (impl h).info,
          (server.goalHandles.takeWhile
            fun h => isExpired impl server.resultTimeout now h).length) ∧
      server'.goalHandles =
        server.goalHandles.dropWhile fun h => isExpired impl server.resultTimeout now h := by
  obtain ⟨server', hok, hkept⟩ := expireGoals_scanned impl server Nat.one_pos now
    (expired_scanned_one server.goalHandles)
  exact ⟨server', hok, hkept.trans (removeExpired_takeWhile server.goalHandles)⟩

theorem expireGoals_resultTimeout {server server' : ActionServer ι} {capacity : Option Nat}
    {r : List GoalInfo × Nat} (h : expireGoals impl server capacity now = .ok (server', r)) :
    server'.resultTimeout = server.resultTimeout := by
  unfold expireGoals at h
  split at h
  · cases h
  · cases h
    rfl

end PMROS2.RclAction
