/-
  ToolGateway.Gateway.Limiter

  `WindowRateLimiter` (`adapters/memory.py`): a fixed window of one clock minute,
  shared by all agents, with a counter for each.  The counters are dropped whenever
  the minute read is another one than last time, so a clock that is set back over the
  end of a minute and runs on enters that minute with fresh counters.

  The limiter counts as a `FixedWindow`; what it bounds, and when, is read off there.
-/

import Mathlib.Data.Rat.Floor
import ToolGateway.FixedWindow
import ToolGateway.Python.Value

namespace ToolGateway

open Py FixedWindow

-- ============================================================================
-- The limiter
-- ============================================================================

/-- At most `limit` calls per agent in each clock minute; without a positive limit all
    are admitted. -/
structure WindowRateLimiter where
  limit : ℤ
  window : ℤ := -1
  counts : Dict ℕ := []

/-- `int(clock() // 60)`, of a reading in seconds. -/
def clockMinute (now : ℚ) : ℤ := ⌊now / 60⌋

namespace WindowRateLimiter

/-- Another window than the last one starts with fresh counters. -/
def enter (limiter : WindowRateLimiter) (window : ℤ) : WindowRateLimiter :=
  if window ≠ limiter.window then { limiter with window := window, counts := [] } else limiter

/-- `admit_call(agent_id, tool)`, with what the clock reads. -/
def admitCall (limiter : WindowRateLimiter) (now : ℚ) (agentId _tool : String) :
    Bool × WindowRateLimiter :=
  if limiter.limit ≤ 0 then (true, limiter)
  else
    let limiter := limiter.enter (clockMinute now)
    let count := (limiter.counts.lookup agentId).getD 0 + 1
    (decide ((count : ℤ) ≤ limiter.limit),
      { limiter with counts := limiter.counts.set agentId count })

end WindowRateLimiter

/-- One call of `admit_call`. -/
structure Admission where
  now : ℚ
  agentId : String
  tool : String

namespace Admission

/-- Whose counter it is and in which window. -/
def event (a : Admission) : String × ℤ := (a.agentId, clockMinute a.now)

end Admission

/-- The calls with their answers, one after the other. -/
def WindowRateLimiter.admissions : WindowRateLimiter → List Admission → List (Admission × Bool)
  | _, [] => []
  | limiter, a :: rest =>
      let (admitted, limiter) := limiter.admitCall a.now a.agentId a.tool
      (a, admitted) :: admissions limiter rest

-- ============================================================================
-- What it is to bound the calls
-- ============================================================================

/-- The calls of one agent. -/
def callsOf (agentId : String) (calls : List Admission) : List Admission :=
  calls.filter (·.agentId = agentId)

/-- What a fresh limiter tells the agent, over a sequence of calls. -/
def toldTo (agentId : String) (limit : ℤ) (calls : List Admission) : List Bool :=
  ((WindowRateLimiter.admissions { limit } calls).filter (·.1.agentId = agentId)).map Prod.snd

/-- Over these calls a fresh limiter bounds every clock minute. -/
structure BoundsMinutes (limit : ℤ) (calls : List Admission) : Prop where
  /-- of the calls in a minute, each agent's are admitted at most `limit` times -/
  bounded : ∀ agentId minute,
    (((WindowRateLimiter.admissions { limit } calls).countP fun a =>
      a.1.event = (agentId, minute) ∧ a.2 = true : ℕ) : ℤ) ≤ limit
  /-- an agent is told the same without any of the other agents' calls -/
  apart : ∀ agentId fewer, fewer.Sublist calls → callsOf agentId fewer = callsOf agentId calls →
    toldTo agentId limit fewer = toldTo agentId limit calls

/-- An agent with more than `limit` calls in a clock minute makes them without a call of
    another minute, its own or anyone's, in between. -/
def Uninterrupted (limit : ℤ) (calls : List Admission) : Prop :=
  ∀ agentId minute, Tame limit.toNat agentId minute (calls.map Admission.event)

-- ============================================================================
-- The limiter counts as a fixed window
-- ============================================================================

namespace WindowRateLimiter

/-- The limiter's state after the history `h`. -/
structure Reflects (limiter : WindowRateLimiter) (limit : ℕ) (h : List (String × ℤ)) : Prop where
  limit_eq : limiter.limit = limit
  counts : ∀ agentId, (limiter.counts.lookup agentId).getD 0 = counted agentId limiter.window h
  others : ∀ agentId minute, minute ≠ limiter.window → counted agentId minute h = 0

theorem reflects_fresh (limit : ℕ) : Reflects { limit := limit } limit [] where
  limit_eq := rfl
  counts _ := rfl
  others _ _ _ := rfl

variable {limiter : WindowRateLimiter} {limit : ℕ} {h : List (String × ℤ)}

/-- Once the minute of a call is entered, the counters hold for it. -/
theorem Reflects.enter (hr : limiter.Reflects limit h) (minute : ℤ) :
    (limiter.enter minute).limit = limit ∧ (limiter.enter minute).window = minute ∧
      ∀ agentId, ((limiter.enter minute).counts.lookup agentId).getD 0 =
        counted agentId minute h := by
  unfold WindowRateLimiter.enter
  by_cases hw : minute = limiter.window
  · rw [if_neg (not_not.mpr hw)]
    exact ⟨hr.limit_eq, hw.symm, fun agentId => hw ▸ hr.counts agentId⟩
  · rw [if_pos hw]
    exact ⟨hr.limit_eq, rfl, fun agentId => (hr.others agentId minute hw).symm⟩

/-- One call is answered as the fixed window answers its event, and reflected. -/
theorem admitCall_reflects (hpos : 0 < limit) (hr : limiter.Reflects limit h) (a : Admission) :
    (limiter.admitCall a.now a.agentId a.tool).1 = decide (Admits limit h a.event) ∧
      (limiter.admitCall a.now a.agentId a.tool).2.Reflects limit (a.event :: h) := by
  have hlimited : ¬ limiter.limit ≤ 0 := by
    rw [hr.limit_eq]
    omega
  obtain ⟨hlimit, hwindow, hcounts⟩ := hr.enter (clockMinute a.now)
  unfold admitCall
  rw [if_neg hlimited]
  refine ⟨?_, hlimit, ?_, ?_⟩
  · rw [decide_eq_decide, hlimit, hcounts]
    show ((counted a.agentId (clockMinute a.now) h + 1 : ℕ) : ℤ) ≤ limit ↔
      counted a.agentId (clockMinute a.now) h < limit
    omega
  · intro agentId
    rw [Dict.lookup_set, hcounts, hwindow]
    show _ = if clockMinute a.now = clockMinute a.now then
      counted agentId (clockMinute a.now) h + (if a.agentId = agentId then 1 else 0) else 0
    rw [if_pos rfl]
    by_cases hagent : agentId = a.agentId
    · rw [if_pos hagent, hagent, if_pos rfl]
      rfl
    · rw [if_neg hagent, hcounts, if_neg (Ne.symm hagent), Nat.add_zero]
  · intro agentId minute hminute
    rw [hwindow] at hminute
    exact if_neg (Ne.symm hminute)

/-- A run of calls is answered as the fixed window answers their events. -/
theorem admissions_eq_answers (hpos : 0 < limit) (hr : limiter.Reflects limit h)
    (calls : List Admission) :
    (limiter.admissions calls).map (fun a => (a.1.event, a.2)) =
      answers limit h (calls.map Admission.event) := by
  induction calls generalizing limiter h with
  | nil => rfl
  | cons a calls ih =>
      obtain ⟨hanswer, hnext⟩ := admitCall_reflects hpos hr a
      rw [admissions, List.map_cons, List.map_cons, answers, ih hnext, hanswer]

end WindowRateLimiter

-- ============================================================================
-- When the minutes are bounded
-- ============================================================================

variable {limit : ℕ}

/-- How often an agent is admitted in a minute. -/
theorem countP_admissions (hpos : 0 < limit) (calls : List Admission)
    (agentId : String) (minute : ℤ) :
    (WindowRateLimiter.admissions { limit := limit } calls).countP
        (fun a => a.1.event = (agentId, minute) ∧ a.2 = true) =
      admitted limit agentId minute (calls.map Admission.event).reverse := by
  have hrun := WindowRateLimiter.admissions_eq_answers hpos
    (WindowRateLimiter.reflects_fresh limit) calls
  have hcount : (answers limit [] (calls.map Admission.event)).countP
      (fun a => a.1 = (agentId, minute) ∧ a.2 = true) + 0 =
        admitted limit agentId minute ((calls.map Admission.event).reverse ++ []) := countP_answers
  rw [← hrun, List.countP_map, List.append_nil] at hcount
  exact hcount

theorem toldTo_eq_answersTo (hpos : 0 < limit) (calls : List Admission) (agentId : String) :
    toldTo agentId limit calls = answersTo agentId (answers limit [] (calls.map Admission.event)) := by
  have hrun := WindowRateLimiter.admissions_eq_answers hpos
    (WindowRateLimiter.reflects_fresh limit) calls
  unfold toldTo answersTo
  rw [← hrun, List.filter_map, List.map_map]
  rfl

theorem eventsOf_map (calls : List Admission) (agentId : String) :
    eventsOf agentId (calls.map Admission.event) = (callsOf agentId calls).map Admission.event := by
  unfold eventsOf callsOf
  rw [List.filter_map]
  rfl

/-- The limiter bounds every clock minute exactly over the calls in which no agent over
    its budget is interrupted. -/
theorem boundsMinutes_iff {limit : ℤ} (hpos : 0 < limit) (calls : List Admission) :
    BoundsMinutes limit calls ↔ Uninterrupted limit calls := by
  obtain ⟨n, rfl⟩ : ∃ n : ℕ, limit = n := ⟨limit.toNat, by omega⟩
  have hn : 0 < n := by omega
  have hbounded : ∀ agentId minute,
      (((WindowRateLimiter.admissions { limit := n } calls).countP fun a =>
        a.1.event = (agentId, minute) ∧ a.2 = true : ℕ) : ℤ) ≤ n ↔
      Tame n agentId minute (calls.map Admission.event) := by
    intro agentId minute
    rw [countP_admissions hn, ← tame_reverse, ← admitted_le_iff hn]
    omega
  constructor
  · intro h agentId minute
    exact (hbounded agentId minute).mp (h.bounded agentId minute)
  · intro h
    refine ⟨fun agentId minute => (hbounded agentId minute).mpr (h agentId minute), ?_⟩
    intro agentId fewer hfewer hsame
    have hevents : eventsOf agentId (fewer.map Admission.event) =
        eventsOf agentId (calls.map Admission.event) := by
      rw [eventsOf_map, eventsOf_map, hsame]
    rw [toldTo_eq_answersTo hn, toldTo_eq_answersTo hn]
    refine answersTo_of_sublist (hfewer.map _) hevents (List.Sublist.refl _) rfl fun minute => ?_
    rw [List.append_nil, tame_reverse]
    exact h agentId minute

/-- A budget of two, and a clock that runs on into the next minute. -/
theorem boundsMinutes_iff_two :
    BoundsMinutes 2 [⟨58, "alice", "t"⟩, ⟨59, "bob", "t"⟩, ⟨60, "alice", "t"⟩] ↔
      Uninterrupted 2 [⟨58, "alice", "t"⟩, ⟨59, "bob", "t"⟩, ⟨60, "alice", "t"⟩] :=
  boundsMinutes_iff (by decide) _

/-- A budget of one: the clock is set back to the minute before and runs on, and the agent
    is admitted a second time in the same minute. -/
theorem minute_can_be_entered_twice :
    ¬ BoundsMinutes 1 [⟨60, "alice", "t"⟩, ⟨59, "alice", "t"⟩, ⟨60, "alice", "t"⟩] := by
  intro h
  have hbound := h.bounded "alice" 1
  revert hbound
  decide +kernel

/-- A clock that is never set back over the end of a minute interrupts nobody. -/
theorem uninterrupted_of_forward {limit : ℤ} {calls : List Admission}
    (hforward : calls.Pairwise fun a b => clockMinute a.now ≤ clockMinute b.now) :
    Uninterrupted limit calls := fun _ _ =>
  .inr (not_scattered_of_sorted (hforward.map Admission.event fun _ _ h => h))

end ToolGateway
