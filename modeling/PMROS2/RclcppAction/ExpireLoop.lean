import PMROS2.RclAction.ExpireCapacity
import PMROS2.RclcppAction.Server

/-!
# The loop that expires goals

`ServerBase::execute_check_expired_goals` calls `rcl_action_expire_goals` with room for one goal
until nothing expires.  A call stops at the first goal that it keeps.

* `checkExpiredGoalsLoop_ends`   the loop ends and leaves the goals from the first one on that is
                                 not expired;
* `expireGoals_iff`              when a call and when the loop do what they are for.
-/

namespace PMROS2.RclcppAction
open RclAction

variable {ρ : Type*}

/-- the loop; `none` when an exception is thrown or the fuel runs out -/
def checkExpiredGoalsLoop : Nat → State ρ → Int64 → Option (State ρ)
  | 0, _, _ => none
  | fuel + 1, s, now =>
    match expireGoals s.impl s.actionServer (some 1) now with
    | .error _ => none
    | .ok (_, _, numExpired) =>
      if numExpired > 0 then checkExpiredGoalsLoop fuel (executeCheckExpiredGoals s now) now
      else some (executeCheckExpiredGoals s now)

def State.expiredAt (s : State ρ) (now : Int64) (h : Nat) : Bool :=
  isExpired s.impl s.actionServer.resultTimeout now h

/-- one round removes the expired goals at the beginning -/
theorem executeCheckExpiredGoals_spec (s : State ρ) (now : Int64) :
    (executeCheckExpiredGoals s now).impl = s.impl ∧
    (executeCheckExpiredGoals s now).actionServer.resultTimeout = s.actionServer.resultTimeout ∧
    (executeCheckExpiredGoals s now).actionServer.goalHandles =
      s.actionServer.goalHandles.dropWhile (s.expiredAt now) ∧
    ∃ server infos, expireGoals s.impl s.actionServer (some 1) now = .ok
      (server, infos, (s.actionServer.goalHandles.takeWhile (s.expiredAt now)).length) := by
  obtain ⟨server', hok, hkept⟩ := expireGoals_one s.impl s.actionServer now
  have htimeout := expireGoals_resultTimeout hok
  unfold executeCheckExpiredGoals
  rw [hok]
  refine ⟨?_, ?_, ?_, server', _, rfl⟩
  · dsimp only
    split <;> rfl
  · dsimp only
    split
    · exact htimeout
    · exact htimeout
  · dsimp only
    split
    · exact hkept
    · exact hkept

theorem takeWhile_dropWhile {α : Type*} (p : α → Bool) (l : List α) :
    (l.dropWhile p).takeWhile p = [] := by
  induction l with
  | nil => rfl
  | cons a l ih =>
    by_cases ha : p a = true
    · rw [List.dropWhile_cons_of_pos ha, ih]
    · rw [List.dropWhile_cons_of_neg ha, List.takeWhile_cons_of_neg ha]

theorem checkExpiredGoalsLoop_last {s : State ρ} {now : Int64}
    (h : s.actionServer.goalHandles.takeWhile (s.expiredAt now) = []) (fuel : Nat) :
    checkExpiredGoalsLoop (fuel + 1) s now = some (executeCheckExpiredGoals s now) := by
  obtain ⟨-, -, -, server, infos, hok⟩ := executeCheckExpiredGoals_spec s now
  rw [checkExpiredGoalsLoop, hok, h]
  rfl

/-- **The loop** ends after two rounds at most. -/
theorem checkExpiredGoalsLoop_ends (s : State ρ) (now : Int64) :
    ∃ s', (∀ fuel, checkExpiredGoalsLoop (fuel + 2) s now = some s') ∧
      s'.actionServer.goalHandles = s.actionServer.goalHandles.dropWhile (s.expiredAt now) := by
  obtain ⟨himpl, htimeout, hkept, server, infos, hok⟩ := executeCheckExpiredGoals_spec s now
  have hexpired : (executeCheckExpiredGoals s now).expiredAt now = s.expiredAt now := by
    unfold State.expiredAt
    rw [himpl, htimeout]
  by_cases hnone : s.actionServer.goalHandles.takeWhile (s.expiredAt now) = []
  · exact ⟨_, fun fuel => checkExpiredGoalsLoop_last hnone (fuel + 1), hkept⟩
  · have hlast : (executeCheckExpiredGoals s now).actionServer.goalHandles.takeWhile
        ((executeCheckExpiredGoals s now).expiredAt now) = [] := by
      rw [hexpired, hkept, takeWhile_dropWhile]
    refine ⟨executeCheckExpiredGoals (executeCheckExpiredGoals s now) now, fun fuel => ?_, ?_⟩
    · have hpos := List.length_pos_iff.mpr hnone
      rw [checkExpiredGoalsLoop, hok]
      show (if _ > 0 then _ else _) = _
      rw [if_pos hpos, checkExpiredGoalsLoop_last hlast fuel]
    · obtain ⟨-, -, hkept', -⟩ :=
        executeCheckExpiredGoals_spec (executeCheckExpiredGoals s now) now
      rw [hkept', hexpired, hkept, List.dropWhile_idempotent]

/-- every expired goal stands before those that are not -/
def ExpiredFirst (s : State ρ) (now : Int64) : Prop :=
  ∀ before g after, s.actionServer.goalHandles = before ++ g :: after →
    s.expiredAt now g = true → ∀ k ∈ before, s.expiredAt now k = true

/-- what is left has no element of `p` exactly when all of them are at the beginning -/
theorem dropWhile_none_iff {α : Type*} (p : α → Bool) (l : List α) :
    (∀ g ∈ l.dropWhile p, p g = false) ↔
      ∀ before g after, l = before ++ g :: after → p g = true → ∀ k ∈ before, p k = true := by
  induction l with
  | nil =>
    refine ⟨fun _ before g after heq => ?_, fun _ g hg => absurd hg List.not_mem_nil⟩
    exact absurd heq.symm (List.append_ne_nil_of_right_ne_nil before (List.cons_ne_nil g after))
  | cons a l ih =>
    by_cases ha : p a = true
    · rw [List.dropWhile_cons_of_pos ha, ih]
      constructor
      · intro h before g after heq hg k hk
        cases before with
        | nil => exact absurd hk List.not_mem_nil
        | cons b before =>
          obtain ⟨rfl, hrest⟩ := List.cons.inj heq
          rcases List.mem_cons.mp hk with rfl | hk
          · exact ha
          · exact h before g after hrest hg k hk
      · intro h before g after heq hg k hk
        exact h (a :: before) g after (congrArg (a :: ·) heq) hg k (List.mem_cons_of_mem a hk)
    · rw [List.dropWhile_cons_of_neg ha]
      constructor
      · intro h before g after heq hg
        have hmem : g ∈ a :: l := by
          rw [heq]
          exact List.mem_append_right before List.mem_cons_self
        rw [h g hmem] at hg
        cases hg
      · intro h g hg
        rcases List.mem_cons.mp hg with rfl | hg
        · exact Bool.eq_false_of_not_eq_true ha
        · obtain ⟨before, after, rfl⟩ := List.append_of_mem hg
          by_contra hgp
          exact ha (h (a :: before) g after rfl (by simpa using hgp) a List.mem_cons_self)

/-- **Expiring goals.**  A call with room for `c` goals expires the first `c` of them exactly when
up to the goal where `c` goals are kept there are that many, with no terminal goal behind them;
the loop removes every expired goal exactly when they all stand at the beginning. -/
theorem expireGoals_iff (s : State ρ) (now : Int64) :
    (∀ c, 0 < c → (ExpiresAtMost s.impl s.actionServer c now ↔
      KeptBehind s.impl s.actionServer.resultTimeout now c s.actionServer.goalHandles)) ∧
    ((∃ s', (∀ fuel, checkExpiredGoalsLoop (fuel + 2) s now = some s') ∧
        ∀ g ∈ s'.actionServer.goalHandles, s.expiredAt now g = false) ↔ ExpiredFirst s now) := by
  refine ⟨fun c hc => expiresAtMost_iff s.actionServer hc, ?_⟩
  obtain ⟨s', hloop, hkept⟩ := checkExpiredGoalsLoop_ends s now
  unfold ExpiredFirst
  rw [← dropWhile_none_iff, ← hkept]
  constructor
  · intro h
    obtain ⟨s₁, hloop₁, hnone⟩ := h
    obtain rfl := Option.some.inj ((hloop 0).symm.trans (hloop₁ 0))
    exact hnone
  · intro h
    exact ⟨s', hloop, h⟩

/-- two goals that were accepted at the time zero; one of them has ended -/
def pairOfGoals (last : Nat) : State Unit :=
  { actionServer := { resultTimeout := 10, goalHandles := [0, 1] }
    impl := fun h =>
      ⟨{ goalId := BitVec.ofNat 128 (h + 1) }, if h = last then .succeeded else .executing⟩ }

/-- the goal that has ended is the first one -/
theorem expireGoals_iff_first :
    ExpiresAtMost (pairOfGoals 0).impl (pairOfGoals 0).actionServer 1 100 := by
  refine ((expireGoals_iff (pairOfGoals 0) 100).1 1 Nat.one_pos).mpr ⟨by decide, ?_⟩
  intro before g after heq hle
  have hscanned : scanned (pairOfGoals 0).impl (pairOfGoals 0).actionServer.resultTimeout 100
      (pairOfGoals 0).actionServer.goalHandles 1 = [0, 1] := by decide
  rw [hscanned] at heq
  cases before with
  | nil => exact absurd hle (by decide)
  | cons b before =>
    obtain ⟨rfl, hrest⟩ := List.cons.inj heq
    cases before with
    | nil =>
      obtain ⟨rfl, -⟩ := List.cons.inj hrest
      rfl
    | cons b' before =>
      obtain ⟨-, hnil⟩ := List.cons.inj hrest
      exact absurd hnil.symm
        (List.append_ne_nil_of_right_ne_nil before (List.cons_ne_nil g after))

/-- a goal that is executed keeps the expired goal behind it in the server -/
theorem active_goal_hides_expired_one :
    ¬ ExpiresAtMost (pairOfGoals 1).impl (pairOfGoals 1).actionServer 1 100 ∧
      ((checkExpiredGoalsLoop 2 (pairOfGoals 1) 100).map fun s => s.actionServer.goalHandles) =
        some [0, 1] := by
  refine ⟨fun h => ?_, by decide⟩
  obtain ⟨server', n, hn, hres, -⟩ := h.result
  have hone : min 1 (expired (pairOfGoals 1).impl (pairOfGoals 1).actionServer.resultTimeout 100
      (pairOfGoals 1).actionServer.goalHandles).length = 1 := by decide
  have hnum : ((expireGoals (pairOfGoals 1).impl (pairOfGoals 1).actionServer (some 1) 100).toOption.map
      fun r => r.2.2) = some 0 := by decide
  rw [hres, hn, hone] at hnum
  cases hnum

end PMROS2.RclcppAction
