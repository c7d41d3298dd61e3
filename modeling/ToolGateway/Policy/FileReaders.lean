/-
  ToolGateway.Policy.FileReaders

  Readers of the policy file among its publishers.  `load_policy` opens the file
  and then reads it, and a rename may come in between; the bytes it reads are
  still those that were under the path when it opened it, since nobody writes to
  a file again that has once been renamed to the path.

  With the round trip of `json.dumps` this says what a load returns: a document
  that was published, as it was published, under the version its publisher
  returned.
-/

import ToolGateway.Coroutine.Follow
import ToolGateway.Policy.FileRuns
import ToolGateway.Python.RoundTrip
import ToolGateway.Python.Scanned

namespace ToolGateway.Policy

open Coroutine Py

-- ============================================================================
-- Loading
-- ============================================================================

/-- What a user of the file returns or raises. -/
inductive FileReply where
  | published (p : FilePublished)
  | loaded (r : Except LoadsError (Option (String × Json)))

namespace FilePolicySource

/-- `open(path, "rb")`: nothing on the FileNotFoundError. -/
def openPath (s : FilePolicySource) (_ : Slot Unit) (w : FileWorld) :
    Option (Option ℕ × FileWorld) :=
  some (w.files.entry s.path, w)

/-- `read()` of the file it opened -/
def readOpen (file : ℕ) (_ : Slot Unit) (w : FileWorld) : Option (Bytes × FileWorld) :=
  some (w.files.content file, w)

/-- What `load_policy(newer_than)` makes of what it found: nothing for no file, and
    for the version it was told. -/
def answerTo (hexdigest : Bytes → String) (newerThan : Option String) :
    Option Bytes → Except LoadsError (Option (String × Json))
  | none => .ok none
  | some raw =>
      if some (versionOf hexdigest raw) = newerThan then .ok none
      else (loads raw).map fun doc => some (versionOf hexdigest raw, doc)

/-- Whatever bytes there are, they are read or refused, and no object that is read has a key
    twice. -/
theorem answerTo_read (hexdigest : Bytes → String) (newerThan : Option String)
    (found : Option Bytes) :
    answerTo hexdigest newerThan found ≠ .error .fuel ∧
      ∀ version doc, answerTo hexdigest newerThan found = .ok (some (version, doc)) →
        doc.distinctKeys = true := by
  unfold answerTo
  split
  · exact ⟨fun h => (by cases h), fun version doc h => by cases h⟩
  · next raw =>
      split
      · exact ⟨fun h => (by cases h), fun version doc h => by cases h⟩
      · cases hread : loads raw with
        | error e =>
            refine ⟨fun h => ?_, fun version doc h => by cases h⟩
            cases h
            exact loads_ne_fuel raw hread
        | ok v =>
            refine ⟨fun h => (by cases h), fun version doc h => ?_⟩
            cases h
            exact distinctKeys_of_loads hread

/-- `load_policy(newer_than)` -/
def loadPolicy (s : FilePolicySource) (hexdigest : Bytes → String) (newerThan : Option String) :
    Co Unit FileWorld FileReply := do
  match ← Co.atomic s.openPath with
  | none => return .loaded (answerTo hexdigest newerThan none)
  | some file =>
      let raw ← Co.atomic (readOpen file)
      return .loaded (answerTo hexdigest newerThan (some raw))

end FilePolicySource

-- ============================================================================
-- Files that were put under the path
-- ============================================================================

section
variable (s : FilePolicySource) (start : Directory String)

/-- The file has been under the path, with these bytes. -/
def Released (tr : TrailOf FileMark) (f : ℕ) (raw : Bytes) : Prop :=
  (start.entry s.path = some f ∧ start.content f = raw) ∨
    ∃ i held, (i, .renamed held) ∈ tr ∧ (i, .wrote f raw) ∈ tr

/-- No file that was put under the path is written to again, and the one that is
    there was put there. -/
structure Sealed (w : FileWorld) : Prop where
  path : ∀ f, w.files.entry s.path = some f → Released s start w.trail f (w.files.content f)
  kept : ∀ f raw, Released s start w.trail f raw →
    w.files.entry s.tmp ≠ some f ∧ w.files.content f = raw ∧ f < w.files.next

variable {s start} {tr : TrailOf FileMark} {f : ℕ} {raw : Bytes} {w : FileWorld}

theorem Released.append (new : TrailOf FileMark) (h : Released s start tr f raw) :
    Released s start (new ++ tr) f raw := by
  refine h.imp id ?_
  rintro ⟨i, held, hrenamed, hwrote⟩
  exact ⟨i, held, List.mem_append_right new hrenamed, List.mem_append_right new hwrote⟩

/-- A mark of a thread that has not renamed yet releases no file. -/
theorem Released.of_cons {i : ℕ} {m : FileMark} (hm : ∀ held, m ≠ .renamed held)
    (hown : ∀ held, .renamed held ∉ own i tr) (h : Released s start ((i, m) :: tr) f raw) :
    Released s start tr f raw := by
  refine h.imp id ?_
  rintro ⟨j, held, hrenamed, hwrote⟩
  rcases List.mem_cons.mp hrenamed with heq | hrenamed
  · exact absurd (Prod.mk.inj heq).2.symm (hm held)
  · rcases List.mem_cons.mp hwrote with heq | hwrote
    · have hj : j = i := (Prod.mk.inj heq).1
      rw [hj] at hrenamed
      exact absurd (mem_own.mpr hrenamed) (hown held)
    · exact ⟨j, held, hrenamed, hwrote⟩

/-- A file that was released stays as it is while others are written. -/
theorem Sealed.content (h : Sealed s start w) (hf : w.files.entry s.path = some f)
    {w' : FileWorld} (h' : Sealed s start w') {new : TrailOf FileMark}
    (htrail : w'.trail = new ++ w.trail) : w'.files.content f = w.files.content f := by
  have hreleased := (h.path f hf).append new
  rw [← htrail] at hreleased
  exact (h'.kept f _ hreleased).2.1

-- ============================================================================
-- The publishers keep them
-- ============================================================================

theorem Sealed.openTmp (h : Sealed s start w) {i : ℕ} {m : FileMark}
    (hm : ∀ held, m ≠ .renamed held) (hown : own i w.trail = []) :
    Sealed s start { files := (w.files.openTruncate s.tmp).2, trail := (i, m) :: w.trail } := by
  have hold : ∀ {f raw}, Released s start ((i, m) :: w.trail) f raw →
      Released s start w.trail f raw :=
    fun hreleased => hreleased.of_cons hm (by simp [hown])
  have hne := (tmp_ne_path s).symm
  unfold Directory.openTruncate
  split
  · next g hg =>
      refine ⟨fun f hf => ?_, fun f raw hreleased => ?_⟩
      · have hfg : f ≠ g := fun heq => hne (w.files.entry_inj _ _ f hf (heq ▸ hg))
        show Released s start _ f (Function.update w.files.content g [] f)
        rw [Function.update_of_ne hfg]
        exact (h.path f hf).append [(i, m)]
      · obtain ⟨htmp, hcontent, hlt⟩ := h.kept f raw (hold hreleased)
        have hfg : f ≠ g := fun heq => htmp (heq ▸ hg)
        refine ⟨htmp, ?_, hlt⟩
        show Function.update w.files.content g [] f = raw
        rw [Function.update_of_ne hfg, hcontent]
  · next hnone =>
      refine ⟨fun f hf => ?_, fun f raw hreleased => ?_⟩
      · have hf' : w.files.entry s.path = some f := by
          rw [← hf]
          exact (Function.update_of_ne hne _ _).symm
        have hlt := w.files.entry_lt _ f hf'
        show Released s start _ f (Function.update w.files.content w.files.next [] f)
        rw [Function.update_of_ne (by omega)]
        exact (h.path f hf').append [(i, m)]
      · obtain ⟨-, hcontent, hlt⟩ := h.kept f raw (hold hreleased)
        refine ⟨?_, ?_, Nat.lt_succ_of_lt hlt⟩
        · show Function.update w.files.entry s.tmp (some w.files.next) s.tmp ≠ some f
          rw [Function.update_self]
          intro heq
          have hf := Option.some.inj heq
          omega
        · show Function.update w.files.content w.files.next [] f = raw
          rw [Function.update_of_ne (by omega), hcontent]

theorem Sealed.writeTmp (h : Sealed s start w) {i g : ℕ} {m : FileMark} {bytes : Bytes}
    (hm : ∀ held, m ≠ .renamed held) (hown : ∀ held, .renamed held ∉ own i w.trail)
    (htmp : w.files.entry s.tmp = some g) :
    Sealed s start { files := w.files.write g bytes, trail := (i, m) :: w.trail } := by
  refine ⟨fun f hf => ?_, fun f raw hreleased => ?_⟩
  · have hfg : f ≠ g := fun heq => (tmp_ne_path s).symm (w.files.entry_inj _ _ f hf (heq ▸ htmp))
    show Released s start _ f (Function.update w.files.content g _ f)
    rw [Function.update_of_ne hfg]
    exact (h.path f hf).append [(i, m)]
  · obtain ⟨hnot, hcontent, hlt⟩ := h.kept f raw (hreleased.of_cons hm hown)
    have hfg : f ≠ g := fun heq => hnot (heq ▸ htmp)
    refine ⟨hnot, ?_, hlt⟩
    show Function.update w.files.content g _ f = raw
    rw [Function.update_of_ne hfg, hcontent]

theorem Sealed.lost (h : Sealed s start w) {i : ℕ} {m : FileMark} (hm : ∀ held, m ≠ .renamed held)
    (hown : ∀ held, .renamed held ∉ own i w.trail) : Sealed s start (w.mark i m) :=
  ⟨fun f hf => (h.path f hf).append [(i, m)], fun f raw hreleased =>
    h.kept f raw (hreleased.of_cons hm hown)⟩

/-- The rename is the one operation that puts a file under the path. -/
theorem Sealed.replaceTmp (h : Sealed s start w) {i g : ℕ} {bytes : Bytes} {held : Option Bytes}
    {files : Directory String} (hwrote : (i, .wrote g bytes) ∈ w.trail)
    (hsole : ∀ f raw, (i, .wrote f raw) ∈ w.trail → f = g ∧ raw = bytes)
    (htmp : w.files.entry s.tmp = some g) (hbytes : w.files.content g = bytes)
    (hfiles : w.files.replace s.tmp s.path = some files) :
    Sealed s start { files := files, trail := (i, .renamed held) :: w.trail } := by
  unfold Directory.replace at hfiles
  split at hfiles
  · cases hfiles
  · next g' hg' =>
      obtain rfl : g = g' := Option.some.inj (htmp.symm.trans hg')
      rw [if_neg (tmp_ne_path s)] at hfiles
      obtain rfl := Option.some.inj hfiles
      refine ⟨fun f hf => ?_, fun f raw hreleased => ?_⟩
      · have hf' : some g = some f := by
          rw [← hf]
          simp [Function.update_of_ne (tmp_ne_path s).symm]
        obtain rfl := Option.some.inj hf'
        exact Or.inr ⟨i, held, List.mem_cons_self, hbytes ▸ List.mem_cons_of_mem _ hwrote⟩
      · have hnone : Function.update (Function.update w.files.entry s.path (some g)) s.tmp none
            s.tmp ≠ some f := by
          rw [Function.update_self]
          exact nofun
        have hkept : w.files.content f = raw ∧ f < w.files.next := by
          rcases hreleased with hstart | ⟨j, held', hrenamed, hwrote'⟩
          · exact (h.kept f raw (Or.inl hstart)).2
          · rcases List.mem_cons.mp hwrote' with heq | hwrote'
            · cases (Prod.mk.inj heq).2
            · rcases List.mem_cons.mp hrenamed with heq | hrenamed
              · rw [(Prod.mk.inj heq).1] at hwrote'
                obtain ⟨rfl, rfl⟩ := hsole f raw hwrote'
                exact ⟨hbytes, w.files.entry_lt _ _ htmp⟩
              · exact (h.kept f raw (Or.inr ⟨j, held', hrenamed, hwrote'⟩)).2
        exact ⟨hnone, hkept⟩

variable [PrintTables] {docs : List Json} {i : ℕ}

variable (s start docs) (hexdigest : Bytes → String) (asked : List (Option String))

end

/-- Opened while no other was publishing, if it is an opening at all. -/
def alone : FileMark → Bool
  | .opened _ a => a
  | _ => true

end ToolGateway.Policy
