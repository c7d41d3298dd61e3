/-
  ToolGateway.Policy.FileRuns

  Concurrent publications to one file.  The publishers share the temporary name,
  so a second one that opens it empties the file the first is about to rename.
  As long as that does not happen (`Exclusive`) the policy file is always
  complete: between an opening and its rename nobody else touches the directory.
-/

import ToolGateway.Policy.FileSource

namespace ToolGateway.Policy

open Coroutine Py

-- ============================================================================
-- Exclusive trails
-- ============================================================================

/-- No publisher opened the temporary file while another running one was between
    its own opening of it and its rename. -/
def Exclusive (tr : TrailOf FileMark) : Prop := ∀ e ∈ tr, ∀ f, e.2 ≠ .opened f false

theorem Exclusive.tail {e : ℕ × FileMark} {tr : TrailOf FileMark} (h : Exclusive (e :: tr)) :
    Exclusive tr :=
  fun e' he' => h e' (List.mem_cons_of_mem e he')

/-- Thread `i` opened the temporary file, and nobody has opened it alone since. -/
def Undisturbed (i : ℕ) (tr : TrailOf FileMark) : Prop :=
  ∃ since f a before, tr = since ++ (i, .opened f a) :: before ∧
    ∀ e ∈ since, ∀ g, e.2 ≠ .opened g true

/-- Of two entries of one list the one that does not come first comes later. -/
theorem mem_of_append_cons_eq {α : Type} {xs ys zs ws : List α} {p q : α}
    (h : xs ++ p :: ys = zs ++ q :: ws) (hq : q ∉ xs) (hne : q ≠ p) : p ∈ zs := by
  induction zs generalizing xs with
  | nil =>
      cases xs with
      | nil => exact absurd (List.cons.inj h).1.symm hne
      | cons x xs =>
          have hx : x = q := (List.cons.inj h).1
          exact absurd (hx ▸ List.mem_cons_self) hq
  | cons z zs ih =>
      cases xs with
      | nil =>
          have hz : p = z := (List.cons.inj h).1
          exact hz ▸ List.mem_cons_self
      | cons x xs =>
          have htail : xs ++ p :: ys = zs ++ q :: ws := (List.cons.inj h).2
          exact List.mem_cons_of_mem z (ih htail fun hin => hq (List.mem_cons_of_mem x hin))

section
variable [PrintTables] (s : FilePolicySource) (start : Directory String) (docs : List Json)

/-- What the policy file holds, by the last rename. -/
def lastHeld : TrailOf FileMark → Option Bytes
  | [] => start.read s.path
  | (_, .renamed held) :: _ => held
  | _ :: tr => lastHeld tr

/-- What the newest mark says about the temporary file. -/
def TmpFits (files : Directory String) : TrailOf FileMark → Prop
  | (_, .opened f _) :: _ => files.entry s.tmp = some f ∧ files.content f = []
  | (_, .wrote f raw) :: _ => files.entry s.tmp = some f ∧ files.content f = raw
  | _ => True

/-- When a publisher may make a mark: in the order of `publish_policy`, and from
    its own document. -/
def fileGuard (i : ℕ) : FileMark → TrailOf FileMark → Prop
  | .opened _ _, tr => own i tr = []
  | .wrote f raw, tr =>
      (∃ a, own i tr = [.opened f a]) ∧ Undisturbed i tr ∧
        ∃ doc, docs[i]? = some doc ∧ raw = doc.dumpsIndented
  | .renamed held, tr =>
      ∃ f raw a, own i tr = [.wrote f raw, .opened f a] ∧ Undisturbed i tr ∧
        (Exclusive tr → held = some raw)
  | .lost, tr => Undisturbed i tr

/-- Whoever opens the temporary file alone tells on every publisher between its
    opening and its rename. -/
def publication : Discipline FileWorld FileMark where
  trail := FileWorld.trail
  guard := fileGuard docs
  agrees w := Exclusive w.trail →
    w.files.read s.path = lastHeld s start w.trail ∧ TmpFits s w.files w.trail
  strikes m tr j := (∃ f, m = .opened f true) ∧ publishing tr j = true

variable {s start docs} {i : ℕ} {tr : TrailOf FileMark}

/-- Only an undisturbed publisher gets on. -/
theorem undisturbed_of_guard {m : FileMark} (h : fileGuard docs i m tr)
    (hm : ∀ f a, m ≠ .opened f a) : Undisturbed i tr := by
  cases m with
  | opened f a => exact absurd rfl (hm f a)
  | wrote f raw => exact h.2.1
  | renamed held =>
      obtain ⟨f, raw, a, -, hundisturbed, -⟩ := h
      exact hundisturbed
  | lost => exact h

/-- In an exclusive trail an opening is followed by marks of its publisher only,
    until the next opening. -/
theorem since_own {since before : TrailOf FileMark} {f : ℕ} {a : Bool}
    (hlegal : Legal (fileGuard docs) (since ++ (i, .opened f a) :: before))
    (hex : Exclusive (since ++ (i, .opened f a) :: before))
    (hsince : ∀ e ∈ since, ∀ g, e.2 ≠ .opened g true) : ∀ e ∈ since, e.1 = i := by
  induction since with
  | nil => exact fun e he => nomatch he
  | cons e es ih =>
      have hes := ih hlegal.2 hex.tail fun e' he' => hsince e' (List.mem_cons_of_mem e he')
      have hnot : ∀ g b, e.2 ≠ .opened g b := by
        intro g b heq
        cases b with
        | true => exact hsince e List.mem_cons_self g heq
        | false => exact hex e List.mem_cons_self g heq
      obtain ⟨later, g, b, earlier, heq, hlater⟩ := undisturbed_of_guard hlegal.1 hnot
      have he : e.1 = i := by
        by_contra hne
        -- the other publisher opened before `i` did, so `i`'s opening disturbed it
        have hprefix : (i, FileMark.opened f a) ∈ later := by
          refine mem_of_append_cons_eq heq (fun hin => hne (hes (e.1, .opened g b) hin)) fun hsame => ?_
          exact hne (congrArg Prod.fst hsame)
        cases a with
        | true => exact hlater _ hprefix f rfl
        | false =>
            exact hex.tail (i, .opened f false) (List.mem_append_right es List.mem_cons_self) f rfl
      intro e' he'
      rcases List.mem_cons.mp he' with rfl | hold
      · exact he
      · exact hes e' hold

/-- In an exclusive trail the newest mark is the publisher's own. -/
theorem newest_own (hlegal : Legal (fileGuard docs) tr) (hex : Exclusive tr)
    (hundisturbed : Undisturbed i tr) {m : FileMark} {marks : List FileMark}
    (hown : own i tr = m :: marks) : ∃ rest, tr = (i, m) :: rest := by
  obtain ⟨since, f, a, before, rfl, hsince⟩ := hundisturbed
  have hall := since_own hlegal hex hsince
  cases since with
  | nil =>
      rw [List.nil_append, own_cons_self] at hown
      exact ⟨before, by rw [List.nil_append, (List.cons.inj hown).1]⟩
  | cons e es =>
      have hi : e.1 = i := hall e List.mem_cons_self
      obtain ⟨j, n⟩ := e
      have hj : j = i := hi
      rw [hj, List.cons_append, own_cons_self] at hown
      exact ⟨es ++ (i, .opened f a) :: before, by rw [List.cons_append, hj, (List.cons.inj hown).1]⟩

/-- A publisher that nobody struck was not disturbed. -/
theorem undisturbed_of_spared (hspared : (publication s start docs).Spared i tr) {f : ℕ} {a : Bool}
    (later : List FileMark) (hown : own i tr = later ++ [.opened f a])
    (hlater : ∀ m ∈ later, ∃ g raw, m = .wrote g raw) : Undisturbed i tr := by
  obtain ⟨since, before, rfl, hsince, -⟩ := own_split hown
  refine ⟨since, f, a, before, rfl, fun e he g heq => ?_⟩
  obtain ⟨new, old, rfl⟩ := List.append_of_mem he
  have hmarks : own i (old ++ (i, .opened f a) :: before)
      = own i old ++ .opened f a :: own i before := by
    simp [own, List.filterMap_append]
  have hsub : ∀ m ∈ own i old, m ∈ later := by
    intro m hm
    rw [← hsince]
    exact mem_own.mpr (List.mem_append_right new (List.mem_cons_of_mem e (mem_own.mp hm)))
  have hpublishing : publishing (old ++ (i, .opened f a) :: before) i = true := by
    unfold publishing
    rw [hmarks]
    cases hold : own i old with
    | nil => rfl
    | cons m ms =>
        obtain ⟨g', raw, rfl⟩ := hlater m (hsub m (hold ▸ List.mem_cons_self))
        rfl
  have hrest : (publication s start docs).Spared i (e :: (old ++ (i, .opened f a) :: before)) := by
    rw [List.append_assoc, List.cons_append] at hspared
    exact hspared.of_append
  exact hrest.1 ⟨⟨g, heq⟩, hpublishing⟩

-- ============================================================================
-- The file operations
-- ============================================================================

omit [PrintTables] in
theorem tmp_ne_path (s : FilePolicySource) : s.tmp ≠ s.path := by
  intro h
  have hlen := congrArg String.length h
  rw [FilePolicySource.tmp, String.length_append] at hlen
  have htmp : ".tmp".length = 4 := rfl
  omega

omit [PrintTables] in
theorem not_live_of_not_busy {w : FileWorld} {slot : Slot Unit} (h : w.busy slot = false) {j : ℕ}
    (hj : j ≠ slot.me) (hpublishing : publishing w.trail j = true) : slot.live j = false := by
  obtain ⟨m, hm⟩ : ∃ m, m ∈ own j w.trail := by
    cases hown : own j w.trail with
    | nil =>
        rw [publishing, hown] at hpublishing
        cases hpublishing
    | cons m ms => exact ⟨m, List.mem_cons_self⟩
  have hentry := List.any_eq_false.mp h (j, m) (mem_own.mp hm)
  by_contra hlive
  exact hentry (by simpa [hj, hpublishing] using hlive)

theorem openTmp_spec :
    (publication s start docs).Triple i [] (Co.atomic s.openTmp)
      fun f marks => ∃ a, marks = [.opened f a] := by
  refine Discipline.Triple.mark fun slot w f w' hinv hk hme hb => ?_
  have hown : own i w.trail = [] := hk.own
  obtain ⟨rfl, rfl⟩ := Prod.mk.inj (Option.some.inj hb)
  obtain ⟨hentry, hcontent⟩ := w.files.openTruncate_entry s.tmp
  refine ⟨fun hex => ⟨?_, hentry, hcontent⟩, Or.inr ⟨.opened _ (!w.busy slot), ?_, hown, ?_, _, rfl⟩⟩
  · have hread := w.files.openTruncate_read (tmp_ne_path s).symm
    exact hread.trans (hinv.2 hex.tail).1
  · rw [← hme]
    rfl
  · rintro j ⟨⟨g, halone⟩, hpublishing⟩
    have hquiet : w.busy slot = false := by simpa using (FileMark.opened.inj halone).2
    refine not_live_of_not_busy hquiet (fun heq => ?_) hpublishing
    have hnone : publishing w.trail j = false := by
      rw [publishing, heq, hme, hown]
      rfl
    exact Bool.false_ne_true (hnone.symm.trans hpublishing)

theorem writeTmp_spec {f : ℕ} {a : Bool} {doc : Json} (hdoc : docs[i]? = some doc) :
    (publication s start docs).Triple i [.opened f a]
      (Co.atomic (FilePolicySource.writeTmp f doc.dumpsIndented))
      fun _ marks => marks = [.wrote f doc.dumpsIndented, .opened f a] := by
  refine Discipline.Triple.mark fun slot w x w' hinv hk hme hb => ?_
  have hown : own i w.trail = [.opened f a] := hk.own
  have hundisturbed : Undisturbed i w.trail :=
    undisturbed_of_spared hk.spared [] hown (by simp)
  obtain ⟨-, rfl⟩ := Prod.mk.inj (Option.some.inj hb)
  refine ⟨fun hex => ?_, Or.inr ⟨.wrote f doc.dumpsIndented, ?_,
    ⟨⟨a, hown⟩, hundisturbed, doc, hdoc, rfl⟩, ?_, rfl⟩⟩
  · have hlegal : Legal (fileGuard docs) w.trail := hinv.1
    obtain ⟨rest, hrest⟩ : ∃ rest, w.trail = (i, .opened f a) :: rest :=
      newest_own hlegal hex.tail hundisturbed hown
    obtain ⟨hread, hfits⟩ := hinv.2 hex.tail
    rw [hrest] at hfits
    obtain ⟨hentry, hcontent⟩ := hfits
    exact ⟨(w.files.write_read hentry (tmp_ne_path s).symm _).trans hread, hentry,
      w.files.write_content hcontent _⟩
  · rw [← hme]
    rfl
  · rintro j ⟨⟨g, hm⟩, -⟩
    cases hm

theorem replaceTmp_spec {f : ℕ} {raw : Bytes} {a : Bool} :
    (publication s start docs).Triple i [.wrote f raw, .opened f a] (Co.atomic s.replaceTmp)
      fun ok marks => ok = true → ∃ held, marks = [.renamed held, .wrote f raw, .opened f a] := by
  refine Discipline.Triple.mark fun slot w ok w' hinv hk hme hb => ?_
  have hown : own i w.trail = [.wrote f raw, .opened f a] := hk.own
  have hundisturbed : Undisturbed i w.trail :=
    undisturbed_of_spared hk.spared [.wrote f raw] hown (by simp)
  have hnone : ∀ {m : FileMark}, (∀ g, m ≠ .opened g true) →
      ∀ j, (publication s start docs).strikes m w.trail j → slot.live j = false := by
    rintro m hm j ⟨⟨g, heq⟩, -⟩
    exact absurd heq (hm g)
  unfold FilePolicySource.replaceTmp at hb
  split at hb
  · next files hfiles =>
      obtain ⟨rfl, rfl⟩ := Prod.mk.inj (Option.some.inj hb)
      refine ⟨fun _ => ⟨rfl, trivial⟩, Or.inr ⟨.renamed (files.read s.path), by rw [← hme]; rfl,
        ⟨f, raw, a, hown, hundisturbed, fun hex => ?_⟩, hnone (by simp), fun _ => ⟨_, rfl⟩⟩⟩
      have hlegal : Legal (fileGuard docs) w.trail := hinv.1
      obtain ⟨rest, hrest⟩ : ∃ rest, w.trail = (i, .wrote f raw) :: rest :=
        newest_own hlegal hex hundisturbed hown
      obtain ⟨-, hfits⟩ := hinv.2 hex
      rw [hrest] at hfits
      obtain ⟨hentry, hcontent⟩ := hfits
      obtain ⟨files', hfiles', hread⟩ := w.files.replace_read hentry (tmp_ne_path s)
      have hsame : files = files' := Option.some.inj (hfiles.symm.trans hfiles')
      rw [hsame, hread, hcontent]
  · obtain ⟨rfl, rfl⟩ := Prod.mk.inj (Option.some.inj hb)
    exact ⟨fun hex => ⟨(hinv.2 hex.tail).1, trivial⟩, Or.inr ⟨.lost, by rw [← hme]; rfl,
      hundisturbed, hnone (by simp), fun h => nomatch h⟩⟩

/-- What a publisher that returned a version has done. -/
theorem publishPolicy_spec (hexdigest : Bytes → String) {doc : Json} (hdoc : docs[i]? = some doc) :
    (publication s start docs).Triple i [] (s.publishPolicy hexdigest doc) fun out marks =>
      ∀ v, out = .version v → v = FilePolicySource.versionOf hexdigest doc.dumpsIndented ∧
        ∃ f held a, marks = [.renamed held, .wrote f doc.dumpsIndented, .opened f a] := by
  unfold FilePolicySource.publishPolicy
  refine Discipline.Triple.bind openTmp_spec ?_
  rintro f marks ⟨a, rfl⟩
  refine Discipline.Triple.bind (writeTmp_spec hdoc) ?_
  rintro - marks rfl
  refine Discipline.Triple.bind replaceTmp_spec fun ok marks hmarks => ?_
  split
  · next hok =>
      obtain ⟨held, rfl⟩ := hmarks hok
      refine Discipline.Triple.ret fun v hv => ?_
      exact ⟨(FilePublished.version.inj hv).symm, f, held, a, rfl⟩
  · exact Discipline.Triple.ret fun v hv => nomatch hv

-- ============================================================================
-- Runs
-- ============================================================================

/-- What atomic publications mean for a run: the policy file is as it was found,
    or holds the complete text of one of the documents; and when a publication
    returned a version, the file held, from its rename on, bytes of that version. -/
structure Atomic (s : FilePolicySource) (hexdigest : Bytes → String) (start : Directory String)
    (docs : List Json) (c : Config Unit FileWorld FilePublished) : Prop where
  complete : c.world.files.read s.path = start.read s.path ∨
    ∃ doc ∈ docs, c.world.files.read s.path = some doc.dumpsIndented
  named : ∀ i v, c.outcome i = some (.version v) →
    ∃ raw, (i, .renamed (some raw)) ∈ c.world.trail ∧ FilePolicySource.versionOf hexdigest raw = v

/-- In an exclusive trail a rename put a whole document under the path. -/
theorem held_of_renamed (hlegal : Legal (fileGuard docs) tr) (hex : Exclusive tr)
    {held : Option Bytes} (hmem : (i, .renamed held) ∈ tr) :
    ∃ doc, docs[i]? = some doc ∧ held = some doc.dumpsIndented := by
  obtain ⟨later, before, rfl, ⟨f, raw, a, hown, -, hheld⟩, hbefore⟩ := hlegal.split hmem
  have hexBefore : Exclusive before := fun e he =>
    hex e (List.mem_append_right later (List.mem_cons_of_mem _ he))
  have hwrote : (i, FileMark.wrote f raw) ∈ before := mem_own.mp (hown ▸ List.mem_cons_self)
  obtain ⟨-, -, -, ⟨-, -, doc, hdoc, hraw⟩, -⟩ := hbefore.split hwrote
  exact ⟨doc, hdoc, hraw ▸ hheld hexBefore⟩

omit [PrintTables] in
/-- The policy file is as it was found, or some publisher's rename put there what
    it holds. -/
theorem lastHeld_cases (s : FilePolicySource) (start : Directory String) (tr : TrailOf FileMark) :
    lastHeld s start tr = start.read s.path ∨ ∃ i, (i, .renamed (lastHeld s start tr)) ∈ tr := by
  induction tr with
  | nil => exact Or.inl rfl
  | cons e tr ih =>
      obtain ⟨j, m⟩ := e
      have hlift : lastHeld s start tr = start.read s.path ∨
          ∃ i, (i, .renamed (lastHeld s start tr)) ∈ (j, m) :: tr := by
        rcases ih with hsame | ⟨i, hi⟩
        · exact Or.inl hsame
        · exact Or.inr ⟨i, List.mem_cons_of_mem _ hi⟩
      cases m with
      | renamed held => exact Or.inr ⟨j, List.mem_cons_self⟩
      | opened f a => exact hlift
      | wrote f raw => exact hlift
      | lost => exact hlift

theorem publishers_run (s : FilePolicySource) (hexdigest : Bytes → String)
    (start : Directory String) (docs : List Json) (es : List (Event Unit)) :
    let c := (s.publishers hexdigest start docs).run es
    Legal (fileGuard docs) c.world.trail ∧
      (Exclusive c.world.trail → c.world.files.read s.path = lastHeld s start c.world.trail) ∧
      ∀ i v, c.outcome i = some (.version v) → ∃ doc f held a, docs[i]? = some doc ∧
        v = FilePolicySource.versionOf hexdigest doc.dumpsIndented ∧
        own i c.world.trail = [.renamed held, .wrote f doc.dumpsIndented, .opened f a] := by
  have hthreads : ∀ i co, (s.publishers hexdigest start docs).threads[i]? = some (some co) →
      (publication s start docs).Triple i [] co fun out marks =>
        ∃ doc, docs[i]? = some doc ∧ ∀ v, out = .version v →
          v = FilePolicySource.versionOf hexdigest doc.dumpsIndented ∧
            ∃ f held a, marks = [.renamed held, .wrote f doc.dumpsIndented, .opened f a] := by
    intro i co hco
    simp only [FilePolicySource.publishers, List.getElem?_map, Option.map_eq_some_iff] at hco
    obtain ⟨doc, hdoc, hthread⟩ := hco
    rw [← Option.some.inj hthread]
    exact (publishPolicy_spec hexdigest hdoc).mono fun out marks h => ⟨doc, hdoc, h⟩
  obtain ⟨hlegal, hagrees, houtcome⟩ :=
    Discipline.run (fun _ => ⟨rfl, trivial⟩) rfl hthreads es
  refine ⟨hlegal, fun hex => (hagrees hex).1, fun i v hv => ?_⟩
  obtain ⟨doc, hdoc, hpost⟩ := houtcome i _ hv
  obtain ⟨hversion, f, held, a, hmarks⟩ := hpost v rfl
  exact ⟨doc, f, held, a, hdoc, hversion, hmarks⟩

end

/-- In every run in which no publisher opens the temporary file while another
    running one is between its opening and its rename, publications are atomic. -/
theorem publish_atomic [PrintTables] (s : FilePolicySource) (hexdigest : Bytes → String)
    (start : Directory String) (docs : List Json) (es : List (Event Unit))
    (hex : Exclusive ((s.publishers hexdigest start docs).run es).world.trail) :
    Atomic s hexdigest start docs ((s.publishers hexdigest start docs).run es) := by
  obtain ⟨hlegal, hread, houtcome⟩ := publishers_run s hexdigest start docs es
  refine ⟨?_, fun i v hv => ?_⟩
  · rw [hread hex]
    rcases lastHeld_cases s start
        ((s.publishers hexdigest start docs).run es).world.trail with hsame | ⟨i, hi⟩
    · exact Or.inl hsame
    · obtain ⟨doc, hdoc, hheld⟩ := held_of_renamed hlegal hex hi
      exact Or.inr ⟨doc, List.mem_of_getElem? hdoc, hheld⟩
  · obtain ⟨doc, f, held, a, hdoc, hversion, hown⟩ := houtcome i v hv
    have hmem := mem_own.mp (hown ▸ List.mem_cons_self)
    obtain ⟨doc', hdoc', hheld⟩ := held_of_renamed hlegal hex hmem
    have hsame : doc = doc' := Option.some.inj (hdoc.symm.trans hdoc')
    refine ⟨doc.dumpsIndented, ?_, hversion.symm⟩
    rw [hheld, ← hsame] at hmem
    exact hmem

-- ============================================================================
-- Two publishers
-- ============================================================================

/-- A directory without files. -/
def emptyDirectory : Directory String where
  entry _ := none
  content _ := []
  next := 0
  entry_lt := nofun
  entry_inj := nofun

/-- The file both publish to. -/
def policyFile : FilePolicySource := ⟨"policy.json"⟩

/-- One operator publishes "deny everything", another one "forward everything". -/
def twoPolicies : List Json := [.dict [("default", .str "deny")], .dict [("default", .str "auto")]]

/-- The sum of the bytes, in place of the hash. -/
def checksum (content : Bytes) : String := toString (content.map UInt8.toNat).sum

-- the two documents get versions of their own
example : (twoPolicies.map fun doc => checksum (@Json.dumpsIndented .ascii doc)).Nodup := by
  decide +kernel

/-- One after the other. -/
theorem publish_atomic_in_turn :
    letI := PrintTables.ascii
    Atomic policyFile checksum emptyDirectory twoPolicies
      ((policyFile.publishers checksum emptyDirectory twoPolicies).run
        [.step 0 (), .step 0 (), .step 0 (), .step 1 (), .step 1 (), .step 1 ()]) := by
  let _ := PrintTables.ascii
  refine publish_atomic policyFile checksum emptyDirectory twoPolicies _ ?_
  intro e he f heq
  have hall : ((policyFile.publishers checksum emptyDirectory twoPolicies).run
      [.step 0 (), .step 0 (), .step 0 (), .step 1 (), .step 1 (), .step 1 ()]).world.trail.all
        (fun e => match e.2 with
          | .opened _ a => a
          | _ => true) = true := rfl
  have hopened := List.all_eq_true.mp hall e he
  rw [heq] at hopened
  cases hopened

/-- The second publisher empties the file that the first one renames, whatever
    the digest. -/
theorem publish_can_leave_an_empty_file :
    ¬ ∃ (_ : PrintTables) (hexdigest : Bytes → String),
      ∀ (s : FilePolicySource) (start : Directory String) (docs : List Json) (es : List (Event Unit)),
        Atomic s hexdigest start docs ((s.publishers hexdigest start docs).run es) := by
  rintro ⟨_, hexdigest, law⟩
  have hempty : ((policyFile.publishers hexdigest emptyDirectory twoPolicies).run
      [.step 0 (), .step 0 (), .step 1 (), .step 0 ()]).world.files.read policyFile.path
        = some [] := rfl
  have hstart : emptyDirectory.read policyFile.path = none := rfl
  rcases (law policyFile emptyDirectory twoPolicies _).complete with hsame | ⟨doc, hdoc, hheld⟩
  · rw [hempty, hstart] at hsame
    cases hsame
  · rw [hempty] at hheld
    obtain ⟨fs, rfl⟩ : ∃ fs, doc = .dict fs := by
      rcases List.mem_cons.mp hdoc with rfl | hdoc
      · exact ⟨_, rfl⟩
      · exact ⟨_, List.mem_singleton.mp hdoc⟩
    exact Json.dumpsIndented_dict_ne_nil fs (Option.some.inj hheld).symm

end ToolGateway.Policy
