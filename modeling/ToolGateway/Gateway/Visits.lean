/-
  ToolGateway.Gateway.Visits

  Which steps of a chain a run has entered, and what each of them was told.  `Runs`
  gives every run of a chain, finished or cut off anywhere, together with its log;
  every run of the pipeline is one of them.
-/

import ToolGateway.Gateway.Scripts

namespace ToolGateway

open Coroutine Py

/-- One entry of a log. -/
inductive Visit where
  | entered (step : Tag)
  /-- `call_next` of this step came back with this -/
  | saw (step : Tag) (r : Except Exc ToolResult)
  | left (step : Tag) (r : Except Exc ToolResult)

/-- The steps entered, in order. -/
def entries (log : List Visit) : List Tag :=
  log.filterMap fun
    | .entered step => some step
    | _ => none

@[simp] theorem entries_append (log log' : List Visit) :
    entries (log ++ log') = entries log ++ entries log' :=
  List.filterMap_append

@[simp] theorem entries_entered (step : Tag) (log : List Visit) :
    entries (.entered step :: log) = step :: entries log := rfl

@[simp] theorem entries_saw (step : Tag) (r : Except Exc ToolResult) (log : List Visit) :
    entries (.saw step r :: log) = entries log := rfl

section
variable {σ : Type}

/-- What a run has come to: the result or exception and the context, if it is through. -/
abbrev Outcome := Option (Except Exc ToolResult × CallContext)

/-- The runs of a program on a context, with their logs. -/
abbrev Logged (σ : Type) :=
  CallContext → List (Doing Input (World σ)) → List Visit → Outcome → Prop

/-- The runs of the code of a step, where `rest` gives those of `call_next`. -/
inductive Code.Walks (rest : Logged σ) (step : Tag) :
    Code σ → CallContext → List (Doing Input (World σ)) → List Visit → Outcome → Prop
  | ret (r : ToolResult) (ctx : CallContext) :
      Walks rest step (.ret r) ctx [] [.left step (.ok r)] (some (.ok r, ctx))
  | raise (e : Exc) (ctx : CallContext) :
      Walks rest step (.raise e) ctx [] [.left step (.error e)] (some (.error e, ctx))
  | own {β : Type} {m : StepM σ β} {k : Except Exc β → Code σ} {ctx ctx' : CallContext}
      {ds₁ ds₂ : List (Doing Input (World σ))} {r : Except Exc β} {log : List Visit}
      {out : Outcome} (hown : (m.exec ctx).Takes ds₁ (r, ctx'))
      (hk : Walks rest step (k r) ctx' ds₂ log out) :
      Walks rest step (.own m k) ctx (ds₁ ++ ds₂) log out
  | ownCut {β : Type} {m : StepM σ β} {k : Except Exc β → Code σ} {ctx : CallContext}
      {ds : List (Doing Input (World σ))} {c : Co Input (World σ) (Except Exc β × CallContext)}
      (hown : (m.exec ctx).Path ds c) (hopen : c.returned = none) :
      Walks rest step (.own m k) ctx ds [] none
  | next {k : Except Exc ToolResult → Code σ} {ctx ctx' : CallContext}
      {ds₁ ds₂ : List (Doing Input (World σ))} {r : Except Exc ToolResult}
      {log₁ log₂ : List Visit} {out : Outcome} (hrest : rest ctx ds₁ log₁ (some (r, ctx')))
      (hk : Walks rest step (k r) ctx' ds₂ log₂ out) :
      Walks rest step (.next k) ctx (ds₁ ++ ds₂) (log₁ ++ .saw step r :: log₂) out
  | nextCut {k : Except Exc ToolResult → Code σ} {ctx : CallContext}
      {ds : List (Doing Input (World σ))} {log : List Visit} (hrest : rest ctx ds log none) :
      Walks rest step (.next k) ctx ds log none

/-- The runs of a chain. -/
def Runs : List (Placed σ) → Logged σ
  | [], ctx, ds, log, out => ds = [] ∧ log = [] ∧ out = some (.error (.python .runtimeError), ctx)
  | p :: ps, ctx, ds, log, out =>
      ∃ log', log = .entered p.tag :: log' ∧ p.code.Walks (Runs ps) p.tag ctx ds log' out

/-- Every run of a step's code is logged, if those of `call_next` are. -/
theorem Code.walks_of_path {rest : Logged σ} {n : StepM σ ToolResult}
    (hrest : ∀ {ctx ds c}, (n.exec ctx).Path ds c → ∃ log, rest ctx ds log c.returned)
    (step : Tag) {code : Code σ} {ctx : CallContext} {ds : List (Doing Input (World σ))}
    {c : Co Input (World σ) (Except Exc ToolResult × CallContext)}
    (h : ((code.handle n).exec ctx).Path ds c) :
    ∃ log, code.Walks rest step ctx ds log c.returned := by
  induction code generalizing ctx ds with
  | ret r =>
      obtain ⟨rfl, rfl⟩ := Co.path_ret h
      exact ⟨_, .ret r ctx⟩
  | raise e =>
      obtain ⟨rfl, rfl⟩ := Co.path_ret h
      exact ⟨_, .raise e ctx⟩
  | own m k ih =>
      obtain ⟨c₁, hm, hopen, rfl⟩ | ⟨ds₁, ⟨r, ctx'⟩, ds₂, rfl, hm, hk⟩ := Co.path_bind h
      · rw [Co.returned_bind hopen]
        exact ⟨_, .ownCut hm hopen⟩
      · obtain ⟨log, hlog⟩ := ih r hk
        exact ⟨log, .own hm hlog⟩
  | next k ih =>
      obtain ⟨c₁, hn, hopen, rfl⟩ | ⟨ds₁, ⟨r, ctx'⟩, ds₂, rfl, hn, hk⟩ := Co.path_bind h
      · obtain ⟨log, hlog⟩ := hrest hn
        rw [Co.returned_bind hopen]
        rw [hopen] at hlog
        exact ⟨log, .nextCut hlog⟩
      · obtain ⟨log₁, hlog₁⟩ := hrest (Co.takes_iff_path.mp hn)
        obtain ⟨log₂, hlog₂⟩ := ih r hk
        exact ⟨_, .next hlog₁ hlog₂⟩

/-- Every run of the pipeline is logged. -/
theorem runs_of_path {ps : List (Placed σ)} {ctx : CallContext}
    {ds : List (Doing Input (World σ))}
    {c : Co Input (World σ) (Except Exc ToolResult × CallContext)}
    (h : ((Pipeline.run (ps.map Placed.step)).exec ctx).Path ds c) :
    ∃ log, Runs ps ctx ds log c.returned := by
  induction ps generalizing ctx ds c with
  | nil =>
      obtain ⟨rfl, rfl⟩ := Co.path_ret h
      exact ⟨[], rfl, rfl, rfl⟩
  | cons p ps ih =>
      obtain ⟨log, hlog⟩ := Code.walks_of_path ih p.tag h
      exact ⟨_, log, rfl, hlog⟩

-- ============================================================================
-- Entering each step once
-- ============================================================================

/-- The code calls `call_next` at most this often, whatever it is told. -/
def Code.Calls : Code σ → ℕ → Prop
  | .ret _, _ => True
  | .raise _, _ => True
  | .own _ k, budget => ∀ r, (k r).Calls budget
  | .next k, budget => 0 < budget ∧ ∀ r, (k r).Calls (budget - 1)

theorem Code.Calls.walks {rest : Logged σ} {tags : List Tag} {step : Tag}
    (hrest : ∀ {ctx ds log out}, rest ctx ds log out → entries log <+: tags)
    {code : Code σ} {ctx : CallContext} {ds : List (Doing Input (World σ))} {log : List Visit}
    {out : Outcome} (h : code.Walks rest step ctx ds log out) :
    (code.Calls 0 → entries log = []) ∧ (code.Calls 1 → entries log <+: tags) := by
  induction h with
  | ret r ctx => exact ⟨fun _ => rfl, fun _ => List.nil_prefix⟩
  | raise e ctx => exact ⟨fun _ => rfl, fun _ => List.nil_prefix⟩
  | own _ _ ih => exact ⟨fun h => ih.1 (h _), fun h => ih.2 (h _)⟩
  | ownCut _ _ => exact ⟨fun _ => rfl, fun _ => List.nil_prefix⟩
  | next hrun _ ih =>
      refine ⟨fun h => absurd h.1 (by decide), fun h => ?_⟩
      have hnone := ih.1 (h.2 _)
      rw [entries_append, entries_saw, hnone, List.append_nil]
      exact hrest hrun
  | nextCut hrun => exact ⟨fun h => absurd h.1 (by decide), fun _ => hrest hrun⟩

/-- If no step calls `call_next` twice, the steps are entered one after the other. -/
theorem Runs.entries_prefix {ps : List (Placed σ)} (honce : ∀ p ∈ ps, p.code.Calls 1)
    {ctx : CallContext} {ds : List (Doing Input (World σ))} {log : List Visit} {out : Outcome}
    (h : Runs ps ctx ds log out) : entries log <+: ps.map Placed.tag := by
  induction ps generalizing ctx ds log out with
  | nil =>
      obtain ⟨-, rfl, -⟩ := h
      exact List.nil_prefix
  | cons p ps ih =>
      obtain ⟨log, rfl, hwalks⟩ := h
      have hrest : ∀ {ctx ds log out}, Runs ps ctx ds log out →
          entries log <+: ps.map Placed.tag :=
        ih fun q hq => honce q (List.mem_cons_of_mem p hq)
      have hlater := (Code.Calls.walks hrest hwalks).2 (honce p (List.mem_cons_self ..))
      rw [entries_entered, List.map_cons]
      exact List.cons_prefix_cons.mpr ⟨rfl, hlater⟩

/-- A run that has entered the last step has entered all of them, in order, once each. -/
theorem Runs.entries_eq {ps : List (Placed σ)} {last : Placed σ}
    (honce : ∀ p ∈ ps ++ [last], p.code.Calls 1) (hlast : last.tag ∉ ps.map Placed.tag)
    {ctx : CallContext} {ds : List (Doing Input (World σ))} {log : List Visit} {out : Outcome}
    (h : Runs (ps ++ [last]) ctx ds log out) (hreached : .entered last.tag ∈ log) :
    entries log = (ps ++ [last]).map Placed.tag := by
  have hfront := h.entries_prefix honce
  have hmem : last.tag ∈ entries log := List.mem_filterMap.mpr ⟨_, hreached, rfl⟩
  rw [List.map_append, List.map_singleton] at hfront ⊢
  rcases List.prefix_concat_iff.mp hfront with heq | hshort
  · exact heq
  · exact absurd (hshort.subset hmem) hlast

-- ============================================================================
-- What the steps are told
-- ============================================================================

/-- The step an entry is about. -/
def Visit.step : Visit → Tag
  | .entered step | .saw step _ | .left step _ => step

theorem Code.Walks.tags {rest : Logged σ} {tags : List Tag} {step : Tag}
    (hrest : ∀ {ctx ds log out}, rest ctx ds log out → ∀ v ∈ log, v.step ∈ tags)
    {code : Code σ} {ctx : CallContext} {ds : List (Doing Input (World σ))} {log : List Visit}
    {out : Outcome} (h : code.Walks rest step ctx ds log out) :
    ∀ v ∈ log, v.step ∈ step :: tags := by
  induction h with
  | ret r ctx =>
      intro v hv
      rw [List.mem_singleton.mp hv]
      exact List.mem_cons_self ..
  | raise e ctx =>
      intro v hv
      rw [List.mem_singleton.mp hv]
      exact List.mem_cons_self ..
  | own _ _ ih => exact ih
  | ownCut _ _ => simp
  | next hrun _ ih =>
      intro v hv
      rcases List.mem_append.mp hv with hv | hv
      · exact List.mem_cons_of_mem _ (hrest hrun v hv)
      · rcases List.mem_cons.mp hv with rfl | hv
        · exact List.mem_cons_self ..
        · exact ih v hv
  | nextCut hrun => exact fun v hv => List.mem_cons_of_mem _ (hrest hrun v hv)

/-- A log is about the steps of the chain. -/
theorem Runs.tags {ps : List (Placed σ)} {ctx : CallContext}
    {ds : List (Doing Input (World σ))} {log : List Visit} {out : Outcome}
    (h : Runs ps ctx ds log out) : ∀ v ∈ log, v.step ∈ ps.map Placed.tag := by
  induction ps generalizing ctx ds log out with
  | nil =>
      obtain ⟨-, rfl, -⟩ := h
      simp
  | cons p ps ih =>
      obtain ⟨log, rfl, hwalks⟩ := h
      intro v hv
      rcases List.mem_cons.mp hv with rfl | hv
      · exact List.mem_cons_self ..
      · exact hwalks.tags ih v hv

/-- A step that is through is left with its outcome. -/
theorem Code.Walks.ends {rest : Logged σ} {step : Tag} {code : Code σ} {ctx : CallContext}
    {ds : List (Doing Input (World σ))} {log : List Visit} {out : Outcome}
    (h : code.Walks rest step ctx ds log out) {r : Except Exc ToolResult} {ctx' : CallContext}
    (hout : out = some (r, ctx')) : ∃ log', log = log' ++ [.left step r] := by
  induction h with
  | ret x ctx =>
      cases hout
      exact ⟨[], rfl⟩
  | raise e ctx =>
      cases hout
      exact ⟨[], rfl⟩
  | own _ _ ih => exact ih hout
  | ownCut _ _ => cases hout
  | next _ _ ih =>
      obtain ⟨log', rfl⟩ := ih hout
      exact ⟨_, (List.append_assoc _ (_ :: log') _).symm⟩
  | nextCut _ => cases hout

/-- Whether what the upstream answered is on its way to the redactor. -/
def track (way : Bool) : Visit → Bool
  | .left .dispatch _ => true
  | .left .redact _ => false
  | _ => way

/-- While it is, none of these steps is told anything. -/
def Shielded (front : Tag → Prop) : Bool → List Visit → Prop
  | _, [] => True
  | way, v :: log =>
      (∀ step r, v = .saw step r → front step → way = false) ∧ Shielded front (track way v) log

theorem shielded_append {front : Tag → Prop} {way : Bool} {log log' : List Visit} :
    Shielded front way (log ++ log') ↔
      Shielded front way log ∧ Shielded front (log.foldl track way) log' := by
  induction log generalizing way with
  | nil => exact (iff_of_eq (true_and _)).symm
  | cons v log ih =>
      show _ ∧ Shielded front (track way v) (log ++ log') ↔ (_ ∧ _) ∧ _
      rw [ih, and_assoc]
      rfl

/-- Steps that are not in the log are told nothing. -/
theorem shielded_of_tags {front : Tag → Prop} {log : List Visit}
    (h : ∀ v ∈ log, ¬ front v.step) (way : Bool) : Shielded front way log := by
  induction log generalizing way with
  | nil => trivial
  | cons v log ih =>
      refine ⟨?_, ih (fun v' hv' => h v' (List.mem_cons_of_mem v hv')) _⟩
      rintro step r rfl hfront
      exact absurd hfront (h _ (List.mem_cons_self ..))

/-- A log in which nothing is left on its way, and which tells these steps nothing too
    early. -/
def Settles (front : Tag → Prop) (log : List Visit) (out : Outcome) : Prop :=
  Shielded front false log ∧ (out.isSome = true → log.foldl track false = false)

theorem Code.Walks.settles {front : Tag → Prop} {rest : Logged σ} {step : Tag}
    (hrest : ∀ {ctx ds log out}, rest ctx ds log out → Settles front log out)
    (hdispatch : step ≠ .dispatch) (hredact : step ≠ .redact) {code : Code σ} {ctx : CallContext}
    {ds : List (Doing Input (World σ))} {log : List Visit} {out : Outcome}
    (h : code.Walks rest step ctx ds log out) : Settles front log out := by
  have hleft : ∀ r, track false (.left step r) = false := by
    intro r
    cases step with
    | dispatch => exact absurd rfl hdispatch
    | redact => exact absurd rfl hredact
    | _ => rfl
  have hlast : ∀ r (out : Outcome), Settles front [.left step r] out := by
    intro r out
    refine ⟨⟨fun _ _ heq => ?_, trivial⟩, fun _ => hleft r⟩
    cases heq
  induction h with
  | ret r ctx => exact hlast _ _
  | raise e ctx => exact hlast _ _
  | own _ _ ih => exact ih
  | ownCut _ _ => exact ⟨trivial, fun _ => rfl⟩
  | next hrun _ ih =>
      obtain ⟨hshielded, hway⟩ := hrest hrun
      have hsettled := hway rfl
      constructor
      · rw [shielded_append, hsettled]
        exact ⟨hshielded, fun _ _ _ _ => rfl, ih.1⟩
      · intro hdone
        rw [List.foldl_append, hsettled]
        exact ih.2 hdone
  | nextCut hrun => exact hrest hrun

/-- What the upstream answers passes the redactor before a step placed before it is told. -/
theorem Runs.settles {front : Tag → Prop} {pre post : List (Placed σ)} {red : Placed σ}
    (hred : red.tag = .redact) (hfront : ∀ p ∈ red :: post, ¬ front p.tag)
    (hpre : ∀ p ∈ pre, p.tag ≠ .dispatch ∧ p.tag ≠ .redact) {ctx : CallContext}
    {ds : List (Doing Input (World σ))} {log : List Visit} {out : Outcome}
    (h : Runs (pre ++ red :: post) ctx ds log out) : Settles front log out := by
  induction pre generalizing ctx ds log out with
  | nil =>
      constructor
      · refine shielded_of_tags (fun v hv hf => ?_) _
        obtain ⟨p, hp, hstep⟩ := List.mem_map.mp (h.tags v hv)
        exact hfront p hp (hstep ▸ hf)
      · -- the redactor is left last
        intro hdone
        obtain ⟨⟨r, ctx'⟩, hout⟩ := Option.isSome_iff_exists.mp hdone
        obtain ⟨log, rfl, hwalks⟩ := h
        obtain ⟨log', rfl⟩ := hwalks.ends hout
        rw [hred, List.foldl_cons, List.foldl_append]
        rfl
  | cons p pre ih =>
      obtain ⟨log, rfl, hwalks⟩ := h
      obtain ⟨hdispatch, hredact⟩ := hpre p (List.mem_cons_self ..)
      have hsettles := hwalks.settles
        (fun h => ih (fun q hq => hpre q (List.mem_cons_of_mem p hq)) h) hdispatch hredact
      refine ⟨⟨fun _ _ heq => ?_, hsettles.1⟩, hsettles.2⟩
      cases heq

/-- Results of the code satisfy `P`, whatever it is told. -/
def Code.Returns (P : ToolResult → Prop) : Code σ → Prop
  | .ret r => P r
  | .raise _ => True
  | .own _ k => ∀ r, (k r).Returns P
  | .next k => ∀ r, (k r).Returns P

theorem Code.Walks.returns {P : ToolResult → Prop} {rest : Logged σ} {tag step : Tag}
    (hrest : ∀ {ctx ds log out}, rest ctx ds log out → ∀ r, .left tag (.ok r) ∈ log → P r)
    {code : Code σ} (hcode : step = tag → code.Returns P) {ctx : CallContext}
    {ds : List (Doing Input (World σ))} {log : List Visit} {out : Outcome}
    (h : code.Walks rest step ctx ds log out) : ∀ r, .left tag (.ok r) ∈ log → P r := by
  induction h with
  | ret x ctx =>
      intro r hr
      have heq := List.mem_singleton.mp hr
      injection heq with htag hresult
      injection hresult with hresult
      rw [hresult]
      exact hcode htag.symm
  | raise e ctx =>
      intro r hr
      have heq := List.mem_singleton.mp hr
      injection heq with _ hresult
      cases hresult
  | own _ _ ih => exact ih fun htag => hcode htag _
  | ownCut _ _ => simp
  | next hrun _ ih =>
      intro r hr
      rcases List.mem_append.mp hr with hr | hr
      · exact hrest hrun r hr
      · exact ih (fun htag => hcode htag _) r ((List.mem_cons.mp hr).resolve_left (by simp))
  | nextCut hrun => exact hrest hrun

theorem Runs.returns {P : ToolResult → Prop} {tag : Tag} {ps : List (Placed σ)}
    (hps : ∀ p ∈ ps, p.tag = tag → p.code.Returns P) {ctx : CallContext}
    {ds : List (Doing Input (World σ))} {log : List Visit} {out : Outcome}
    (h : Runs ps ctx ds log out) : ∀ r, .left tag (.ok r) ∈ log → P r := by
  induction ps generalizing ctx ds log out with
  | nil =>
      obtain ⟨-, rfl, -⟩ := h
      simp
  | cons p ps ih =>
      obtain ⟨log, rfl, hwalks⟩ := h
      intro r hr
      have hrest : ∀ {ctx ds log out}, Runs ps ctx ds log out →
          ∀ r, .left tag (.ok r) ∈ log → P r := ih fun q hq => hps q (List.mem_cons_of_mem p hq)
      exact hwalks.returns hrest (hps p (List.mem_cons_self ..)) r
        ((List.mem_cons.mp hr).resolve_left (by simp))

end

end ToolGateway
