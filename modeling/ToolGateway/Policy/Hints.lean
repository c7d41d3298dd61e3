/-
  ToolGateway.Policy.Hints

  Annotations are claims of the upstream.  Two runs that differ in nothing but
  the annotations get the same answers from the policy when the upstream is not
  trusted, and when it is trusted but the four effective hints agree.
-/

import ToolGateway.Policy.Visibility

namespace ToolGateway.Policy

open Py

/-- A rule reads the annotations through the effective hints only. -/
theorem Rule.targets_congr (r : Rule) (call : ToolCall) {trusted : Bool} {a b : Fields}
    (h : trusted = true → effectiveHints a = effectiveHints b) :
    r.targets { call with annotations := a } trusted
      = r.targets { call with annotations := b } trusted := by
  cases trusted with
  | false => rfl
  | true =>
      have hints : effectiveHints a = effectiveHints b := h rfl
      simp only [Rule.targets, if_true, hints]
      rfl

theorem Rule.matches_congr (r : Rule) (call : ToolCall) {trusted : Bool} {a b : Fields}
    (h : trusted = true → effectiveHints a = effectiveHints b) :
    r.matches { call with annotations := a } trusted
      = r.matches { call with annotations := b } trusted := by
  unfold Rule.matches
  rw [r.targets_congr call h]

namespace Compiled

/-- The policy cannot tell the two annotation maps of the upstream apart. -/
def Indistinct (p : Compiled) (upstreamId : String) (a b : Fields) : Prop :=
  p.trusts upstreamId = false ∨ effectiveHints a = effectiveHints b

theorem Indistinct.hints {p : Compiled} {upstreamId : String} {a b : Fields}
    (h : p.Indistinct upstreamId a b) (htrust : p.trusts upstreamId = true) :
    effectiveHints a = effectiveHints b :=
  h.resolve_left (by simp [htrust])

/-- Two catalog entries for one tool, with annotations the policy cannot tell
    apart. -/
def SameEntry (p : Compiled) (s t : ToolSpec) : Prop :=
  s.name = t.name ∧
    p.Indistinct (partitionDot s.name).1 (s.annotations.getD []) (t.annotations.getD [])

theorem firstMatching_congr (call : ToolCall) {trusted : Bool} {a b : Fields}
    (h : trusted = true → effectiveHints a = effectiveHints b) (rules : List Rule) :
    firstMatching { call with annotations := a } trusted rules
      = firstMatching { call with annotations := b } trusted rules := by
  induction rules with
  | nil => rfl
  | cons r rs ih =>
      unfold firstMatching
      rw [r.matches_congr call h, ih]

theorem mayCallRules_congr (call : ToolCall) {trusted : Bool} {a b : Fields}
    (h : trusted = true → effectiveHints a = effectiveHints b) (default : Option Grant)
    (rules : List Rule) :
    mayCallRules { call with annotations := a } trusted default rules
      = mayCallRules { call with annotations := b } trusted default rules := by
  induction rules with
  | nil => rfl
  | cons r rs ih =>
      unfold mayCallRules
      rw [r.targets_congr call h, ih]

theorem grantFor_congr {p : Compiled} {call : ToolCall} {a b : Fields}
    (h : p.Indistinct call.upstreamId a b) :
    p.grantFor { call with annotations := a } = p.grantFor { call with annotations := b } := by
  unfold grantFor decidingRule
  rw [firstMatching_congr call h.hints]

theorem mayCall_congr {p : Compiled} {c : ToolCall} {a b : Fields}
    (h : p.Indistinct c.upstreamId a b) :
    p.mayCall { c with annotations := a } = p.mayCall { c with annotations := b } :=
  mayCallRules_congr c h.hints p.default p.rules

/-- The listing shows an entry of one catalog as it shows that of the other. -/
theorem mayCall_spec_congr {p : Compiled} {s t : ToolSpec} (h : p.SameEntry s t)
    (requestId agentId : String) (arguments : Json) :
    p.mayCall (s.call requestId agentId arguments)
      = p.mayCall (t.call requestId agentId arguments) := by
  obtain ⟨hname, hhints⟩ := h
  have hcall : t.call requestId agentId arguments
      = { s.call requestId agentId arguments with annotations := t.annotations.getD [] } := by
    simp only [ToolSpec.call, hname]
  rw [hcall]
  exact mayCall_congr (c := s.call requestId agentId arguments) hhints

theorem visibleTools_congr {p : Compiled} (agentId : String) {specs specs' : List ToolSpec}
    (h : List.Forall₂ p.SameEntry specs specs') :
    List.Forall₂ p.SameEntry (p.visibleTools agentId specs) (p.visibleTools agentId specs') := by
  unfold visibleTools
  induction h with
  | nil => exact List.Forall₂.nil
  | cons hd _ ih =>
      have hsame := mayCall_spec_congr hd "list" agentId (.dict [])
      rw [List.filter_cons, List.filter_cons, hsame]
      split
      · exact List.Forall₂.cons hd ih
      · exact ih

/-- Annotations act on the policy only as the four effective hints of a trusted
    upstream: where they are indistinct the resolver gives the same grant, with
    the same approval mode, `may_call` the same answer and `visible_tools` the
    same entries. -/
theorem annotations_act_as_hints (p : Compiled) :
    (∀ (call : ToolCall) (a b : Fields), p.Indistinct call.upstreamId a b →
      p.grantFor { call with annotations := a } = p.grantFor { call with annotations := b } ∧
      p.mayCall { call with annotations := a } = p.mayCall { call with annotations := b }) ∧
    (∀ (agentId : String) (specs specs' : List ToolSpec),
      List.Forall₂ p.SameEntry specs specs' →
        List.Forall₂ p.SameEntry (p.visibleTools agentId specs)
          (p.visibleTools agentId specs')) :=
  ⟨fun _ _ _ h => ⟨grantFor_congr h, mayCall_congr h⟩,
    fun agentId _ _ h => visibleTools_congr agentId h⟩

end Compiled

end ToolGateway.Policy
