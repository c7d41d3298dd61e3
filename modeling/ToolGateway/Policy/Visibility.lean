/-
  ToolGateway.Policy.Visibility

  What `tools/list` shows against what a call is granted.  `may_call` walks the
  rules before any arguments exist.  Read through `FirstMatch`, a rule that does
  not target the call is a guard known to be false, an unconditional rule one
  known to be true, and the condition list of any other rule is unknown:
  `may_call` is `FirstMatch.may` on these guards and `grant_for` one of their
  fillings.  Where no filling grants, `grant_for` still has to get through the
  conditions to say so: one that escapes leaves it without an answer.
-/

import ToolGateway.FirstMatch
import ToolGateway.Policy.Evaluate
import ToolGateway.Python.Text

namespace ToolGateway.Policy

open Py

/-- A catalog entry, as far as the listing reads it. -/
structure ToolSpec where
  name : String
  annotations : Option Fields := none

/-- The call `visible_tools` asks about, with the arguments of an actual call. -/
def ToolSpec.call (spec : ToolSpec) (requestId agentId : String) (arguments : Json) : ToolCall :=
  { requestId := requestId
    agentId := agentId
    upstreamId := (partitionDot spec.name).1
    toolName := (partitionDot spec.name).2
    arguments := arguments
    annotations := spec.annotations.getD [] }

namespace Compiled

/-- `ToolGateway.visible_tools` over a resolver with `may_call`. -/
def visibleTools (p : Compiled) (agentId : String) (specs : List ToolSpec) : List ToolSpec :=
  specs.filter fun spec => p.mayCall (spec.call "list" agentId (.dict []))

/-- No arguments make the resolver answer with a grant. -/
def NeverGranted (p : Compiled) (call : ToolCall) : Prop :=
  ∀ (arguments : Json) (g : Grant), p.grantFor { call with arguments := arguments } ≠ .ok (some g)

end Compiled

-- ============================================================================
-- The rules as guards
-- ============================================================================

namespace Rule

/-- What is known of the rule's guard before the arguments are. -/
def guard (r : Rule) (call : ToolCall) (trusted : Bool) : Option Bool :=
  if r.targets call trusted then (if r.conds.isEmpty then some true else none) else some false

theorem verdict_isSome (r : Rule) : r.verdict.isSome = !r.deny := by
  unfold verdict
  by_cases h : r.deny = true
  · simp [h]
  · simp [h]

/-- Whether the rule matches fits what was known of its guard. -/
theorem guard_getD_of_matches {r : Rule} {call : ToolCall} {trusted b : Bool}
    (h : r.matches call trusted = .ok b) : (r.guard call trusted).getD b = b := by
  unfold Rule.matches at h
  unfold guard
  by_cases ht : r.targets call trusted = true
  · rw [if_pos ht] at h ⊢
    by_cases hc : r.conds.isEmpty = true
    · rw [List.isEmpty_iff.mp hc] at h
      have hb : true = b := by simpa [allHold] using h
      simp [hc, hb]
    · simp [hc]
  · rw [if_neg ht] at h ⊢
    have hb : false = b := by simpa using h
    simp [hb]

end Rule

namespace Compiled

/-- The guards and verdicts of the rule list, as one call meets them. -/
def guards (p : Compiled) (call : ToolCall) : List (Option Bool × Option Grant) :=
  p.rules.map fun r => (r.guard call (p.trusts call.upstreamId), r.verdict)

/-- First match and default when the condition lists of the targeted conditional
    rules have these truth values. -/
def grantUnder (p : Compiled) (call : ToolCall) (holds : List Bool) : Option Grant :=
  FirstMatch.firstMatch p.default (FirstMatch.fill (p.guards call) holds)

/-- The loop of `may_call` computes `FirstMatch.may`. -/
theorem mayCallRules_eq_may (call : ToolCall) (trusted : Bool) (default : Option Grant)
    (rules : List Rule) :
    mayCallRules call trusted default rules
      = FirstMatch.may Option.isSome default
          (rules.map fun r => (r.guard call trusted, r.verdict)) := by
  induction rules with
  | nil => rfl
  | cons r rs ih =>
      rw [List.map_cons, mayCallRules]
      by_cases ht : r.targets call trusted = true
      · by_cases hc : r.conds.isEmpty = true
        · simp [Rule.guard, ht, hc, FirstMatch.may, Rule.verdict_isSome]
        · cases hd : r.deny with
          | true => simp [Rule.guard, ht, hc, hd, ih, FirstMatch.may, Rule.verdict_isSome]
          | false => simp [Rule.guard, ht, hc, hd, FirstMatch.may, Rule.verdict_isSome]
      · simp [Rule.guard, ht, ih, FirstMatch.may]

theorem mayCall_eq_may (p : Compiled) (call : ToolCall) :
    p.mayCall call = FirstMatch.may Option.isSome p.default (p.guards call) :=
  mayCallRules_eq_may call _ p.default p.rules

/-- The loop of `grant_for`, when it does not raise, is one filling. -/
theorem firstMatching_eq_fill (default : Option Grant) {call : ToolCall} {trusted : Bool}
    {rules : List Rule} {found : Option Rule}
    (h : firstMatching call trusted rules = .ok found) :
    ∃ holds : List Bool, holds.length = rules.length ∧
      FirstMatch.firstMatch default
          (FirstMatch.fill (rules.map fun r => (r.guard call trusted, r.verdict)) holds)
        = found.elim default Rule.verdict := by
  induction rules with
  | nil =>
      have hf : none = found := by simpa [firstMatching] using h
      exact ⟨[], rfl, by simp [← hf]⟩
  | cons r rs ih =>
      unfold firstMatching at h
      cases hm : r.matches call trusted with
      | error e =>
          rw [hm] at h
          cases h
      | ok b =>
          have hg := Rule.guard_getD_of_matches hm
          rw [hm] at h
          cases b with
          | true =>
              have hf : some r = found := by simpa using h
              exact ⟨true :: rs.map fun _ => false, by simp, by simp [← hf, hg]⟩
          | false =>
              obtain ⟨holds, hlen, hfill⟩ := ih h
              exact ⟨false :: holds, by simp [hlen], by simpa [hg] using hfill⟩

/-- What `grant_for` answers is what some truth values of the conditions give. -/
theorem grantFor_eq_grantUnder {p : Compiled} {call : ToolCall} {g : Option Grant}
    (h : p.grantFor call = .ok g) :
    ∃ holds : List Bool, holds.length = p.rules.length ∧ p.grantUnder call holds = g := by
  unfold grantFor at h
  match hd : p.decidingRule call with
  | .ok found =>
      obtain ⟨holds, hlen, hfill⟩ := firstMatching_eq_fill p.default hd
      refine ⟨holds, hlen, ?_⟩
      rw [grantUnder, guards, hfill]
      rw [hd] at h
      cases found with
      | none => simpa using h
      | some r => simpa using h
  | .error e =>
      rw [hd] at h
      cases h

/-- `may_call` says yes exactly when some truth values of the condition lists
    give a grant. -/
theorem mayCall_iff_grantUnder (p : Compiled) (call : ToolCall) :
    p.mayCall call = true ↔
      ∃ holds : List Bool, holds.length = p.rules.length ∧
        (p.grantUnder call holds).isSome = true := by
  rw [mayCall_eq_may, FirstMatch.may_iff_exists_fill]
  simp only [grantUnder, guards, List.length_map]

theorem mayCall_of_granted {p : Compiled} {call : ToolCall} {g : Grant}
    (h : p.grantFor call = .ok (some g)) : p.mayCall call = true := by
  obtain ⟨holds, hlen, hg⟩ := grantFor_eq_grantUnder h
  exact (mayCall_iff_grantUnder p call).mpr ⟨holds, hlen, by rw [hg]; rfl⟩

/-- The arguments play no part in `may_call`. -/
theorem mayCall_withArguments (p : Compiled) (call : ToolCall) (arguments : Json) :
    p.mayCall { call with arguments := arguments } = p.mayCall call := by
  rw [mayCall_eq_may, mayCall_eq_may]
  rfl

theorem neverGranted_of_mayCall_false {p : Compiled} {call : ToolCall}
    (h : p.mayCall call = false) : p.NeverGranted call := by
  intro arguments g hg
  have hmay := mayCall_of_granted hg
  rw [mayCall_withArguments, h] at hmay
  exact Bool.noConfusion hmay

/-- A tool the listing leaves out is one `may_call` refused. -/
theorem mayCall_false_of_hidden {p : Compiled} {agentId : String} {specs : List ToolSpec}
    {spec : ToolSpec} (hmem : spec ∈ specs) (hhidden : spec ∉ p.visibleTools agentId specs)
    (requestId : String) (arguments : Json) :
    p.mayCall (spec.call requestId agentId arguments) = false := by
  have hno : p.mayCall (spec.call "list" agentId (.dict [])) ≠ true := fun hyes =>
    hhidden (List.mem_filter.mpr ⟨hmem, hyes⟩)
  -- neither the request id nor the arguments are read
  have hsame : p.mayCall (spec.call requestId agentId arguments)
      = p.mayCall (spec.call "list" agentId (.dict [])) := by
    rw [mayCall_eq_may, mayCall_eq_may]
    rfl
  rw [hsame]
  exact Bool.eq_false_iff.mpr hno

/-- A call outside what `may_call` allows gets no grant: over an arguments map
    the resolver denies it, or stops at a number too large to compare. -/
theorem denied_of_mayCall_false {p : Compiled} {call : ToolCall} (h : p.mayCall call = false)
    (arguments : Fields) :
    p.grantFor { call with arguments := .dict arguments } = .ok none ∨
      p.grantFor { call with arguments := .dict arguments } = .error .overflowError := by
  match hg : p.grantFor { call with arguments := .dict arguments } with
  | .ok none => exact Or.inl rfl
  | .ok (some g) => exact absurd hg (neverGranted_of_mayCall_false h (.dict arguments) g)
  | .error e => exact Or.inr (by rw [grantFor_error rfl hg])

/-- The parts that hold of every policy.  Where `may_call` is false no arguments
    map gets a grant, and none does for a tool the listing hides; `may_call` is
    true exactly when some truth values of the condition lists of the targeted
    conditional rules give a grant. -/
theorem mayCall_agrees_with_grantFor (p : Compiled) (call : ToolCall) :
    (p.mayCall call = false → p.NeverGranted call ∧
      ∀ arguments : Fields,
        p.grantFor { call with arguments := .dict arguments } = .ok none ∨
          p.grantFor { call with arguments := .dict arguments } = .error .overflowError) ∧
    (∀ (agentId : String) (specs : List ToolSpec) (spec : ToolSpec),
      spec ∈ specs → spec ∉ p.visibleTools agentId specs →
        ∀ requestId : String, p.NeverGranted (spec.call requestId agentId (.dict []))) ∧
    (p.mayCall call = true ↔
      ∃ holds : List Bool, holds.length = p.rules.length ∧
        (p.grantUnder call holds).isSome = true) := by
  refine ⟨?_, ?_, mayCall_iff_grantUnder p call⟩
  · intro h
    exact ⟨neverGranted_of_mayCall_false h, denied_of_mayCall_false h⟩
  · intro agentId specs spec hmem hhidden requestId
    exact neverGranted_of_mayCall_false
      (mayCall_false_of_hidden hmem hhidden requestId (.dict []))

-- ============================================================================
-- Where the two loops agree
-- ============================================================================

/-- What the listing promises about a policy and a tool as an agent calls it. -/
structure ListsAsGranted (p : Compiled) (call : ToolCall) : Prop where
  /-- What `may_call` rules out, `grant_for` denies whatever the arguments map. -/
  denied : p.mayCall call = false →
    ∀ arguments : Fields, p.grantFor { call with arguments := .dict arguments } = .ok none
  /-- A tool that the listing hides is never granted. -/
  hidden : ∀ (agentId : String) (specs : List ToolSpec) (spec : ToolSpec),
    spec ∈ specs → spec ∉ p.visibleTools agentId specs →
      ∀ requestId : String, p.NeverGranted (spec.call requestId agentId (.dict []))
  /-- `may_call` is exact over the truth values of the condition lists. -/
  exact : p.mayCall call = true ↔
    ∃ holds : List Bool, holds.length = p.rules.length ∧ (p.grantUnder call holds).isSome = true

/-- A search that returns answers what the policy means. -/
theorem answer_of_grantFor {p : Compiled} {call : ToolCall} {g : Option Grant}
    (h : p.grantFor call = .ok g) : p.answer call = g := by
  unfold grantFor at h
  unfold answer
  cases hd : p.decidingRule call with
  | error e =>
      rw [hd] at h
      cases h
  | ok found =>
      rw [hd] at h
      have hfound := firstMatching_ok hd
      rw [← hfound]
      cases found with
      | none => exact Except.ok.inj h
      | some r => exact Except.ok.inj h

/-- Where no filling grants, a call is denied exactly when the search gets through
    the conditions it consults. -/
theorem denied_iff {p : Compiled} {call : ToolCall} (h : p.mayCall call = false)
    (arguments : Fields) :
    p.grantFor { call with arguments := .dict arguments } = .ok none ↔
      ∀ c, p.Consults { call with arguments := .dict arguments } c → ¬ c.Escapes (.dict arguments) := by
  rw [← p.decidingRule_eq_iff { call with arguments := .dict arguments },
    ← p.grantFor_eq_answer_iff { call with arguments := .dict arguments }]
  constructor
  · intro hnone
    rw [answer_of_grantFor hnone]
    exact hnone
  · intro hanswer
    cases hgrant : p.answer { call with arguments := .dict arguments } with
    | none => rwa [hgrant] at hanswer
    | some g =>
        rw [hgrant] at hanswer
        exact absurd hanswer (neverGranted_of_mayCall_false h (.dict arguments) g)

/-- The listing and the authorization agree about a tool exactly when some truth
    values of the conditions give a grant, or no arguments map brings the search to
    a condition that escapes. -/
theorem listsAsGranted_iff (p : Compiled) (call : ToolCall) :
    p.ListsAsGranted call ↔
      (∃ holds : List Bool, holds.length = p.rules.length ∧
        (p.grantUnder call holds).isSome = true) ∨
      ∀ (arguments : Fields) (c : Cond),
        p.Consults { call with arguments := .dict arguments } c → ¬ c.Escapes (.dict arguments) := by
  obtain ⟨-, hhidden, hexact⟩ := p.mayCall_agrees_with_grantFor call
  rw [← hexact]
  constructor
  · intro h
    cases hmay : p.mayCall call with
    | true => exact Or.inl rfl
    | false => exact Or.inr fun arguments => (denied_iff hmay arguments).mp (h.denied hmay arguments)
  · intro h
    refine ⟨fun hmay arguments => ?_, hhidden, hexact⟩
    rcases h with hshown | hreads
    · exact Bool.noConfusion (hmay.symm.trans hshown)
    · exact (denied_iff hmay arguments).mpr (hreads arguments)

/-- Nobody orders, and orders of more than ten items are denied by a rule of
    their own. -/
def largeOrdersDenied : Json :=
  .dict [("rules", .list [.dict [("tool", .str "shop.order"), ("deny", .bool true),
    ("when", .list [.dict [("arg", .str "items"), ("op", .str "gt"), ("value", .int 10)]])]])]

/-- More than ten items. -/
def largeOrder : Cond := { arg := "items", op := .gt, value := .int 10 }

/-- Such orders are denied. -/
def largeOrdersRule : Rule :=
  { smallOrdersRule with conds := [largeOrder], deny := true, mode := none, mode_isSome := nofun }

/-- No rule stands before it, so its condition is consulted, and past the range it
    escapes. -/
theorem largeOrders_escapes {items : ℤ} (hpast : PastBinary64 items) :
    Compiled.Consults ⟨[largeOrdersRule], none, []⟩
        { orderOf 0 with arguments := .dict [("items", .int items)] } largeOrder ∧
      largeOrder.Escapes (.dict [("items", .int items)]) := by
  have htargets : largeOrdersRule.targets (orderOf 0) false = true := by decide
  exact ⟨⟨largeOrdersRule, reaches_cons.mpr (Or.inl rfl), htargets, reaches_cons.mpr (Or.inl rfl)⟩,
    rfl, _, rfl, Or.inl ⟨_, rfl, hpast⟩⟩

/-- The tool is hidden and no call of it is granted, but one with an integer past
    the range is not denied either: the condition of the rule that denies raises. -/
theorem hidden_tool_raises :
    ¬ ∀ (_ : PrintTables) (doc : Json) (p : Compiled), compilePolicy doc = .ok p →
      ∀ call : ToolCall, p.ListsAsGranted call := by
  intro law
  have hagrees := law .ascii largeOrdersDenied ⟨[largeOrdersRule], none, []⟩ rfl (orderOf 0)
  have hmay : Compiled.mayCall ⟨[largeOrdersRule], none, []⟩ (orderOf 0) = false := by decide
  obtain ⟨hconsults, hescapes⟩ := largeOrders_escapes pastBinary64_two_pow
  exact (denied_iff hmay _).mp (hagrees.denied hmay [("items", .int (2 ^ 1024))]) largeOrder
    hconsults hescapes

end Compiled

end ToolGateway.Policy
