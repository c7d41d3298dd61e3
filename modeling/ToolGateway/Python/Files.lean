/-
  ToolGateway.Python.Files

  A directory at the level of file operations: names point at files, and an open
  file stays what it is when its name is taken away or given to another one.  A
  write goes to the file that was opened, wherever its name points by then.
-/

import Mathlib.Logic.Function.Basic
import ToolGateway.Python.Dumps

namespace Py

/-- The files under the names of a directory; a file is a number. -/
structure Directory (Name : Type) where
  entry : Name → Option ℕ
  content : ℕ → Bytes
  /-- the files from here on have never been used -/
  next : ℕ
  entry_lt : ∀ a f, entry a = some f → f < next
  /-- no file has two names -/
  entry_inj : ∀ a b f, entry a = some f → entry b = some f → a = b

namespace Directory

variable {Name : Type} [DecidableEq Name]

/-- What a reader finds under a name. -/
def read (d : Directory Name) (a : Name) : Option Bytes := (d.entry a).map d.content

section
variable (d : Directory Name) (a : Name)

/-- The next file under a name. -/
theorem insert_entry_lt (b : Name) (f : ℕ)
    (h : Function.update d.entry a (some d.next) b = some f) : f < d.next + 1 := by
  by_cases hb : b = a
  · rw [hb, Function.update_self] at h
    have hf : d.next = f := Option.some.inj h
    omega
  · rw [Function.update_of_ne hb] at h
    have hlt := d.entry_lt b f h
    omega

theorem insert_entry_inj (b c : Name) (f : ℕ)
    (hb : Function.update d.entry a (some d.next) b = some f)
    (hc : Function.update d.entry a (some d.next) c = some f) : b = c := by
  have hold : ∀ b f, b ≠ a → Function.update d.entry a (some d.next) b = some f → f < d.next := by
    intro b f hb h
    rw [Function.update_of_ne hb] at h
    exact d.entry_lt b f h
  by_cases hba : b = a
  · by_cases hca : c = a
    · rw [hba, hca]
    · rw [hba, Function.update_self] at hb
      have hf : d.next = f := Option.some.inj hb
      have hlt := hold c f hca hc
      omega
  · by_cases hca : c = a
    · rw [hca, Function.update_self] at hc
      have hf : d.next = f := Option.some.inj hc
      have hlt := hold b f hba hb
      omega
    · rw [Function.update_of_ne hba] at hb
      rw [Function.update_of_ne hca] at hc
      exact d.entry_inj b c f hb hc

end

/-- `open(a, "wb")`: empty the file of that name, or make an empty one. -/
def openTruncate (d : Directory Name) (a : Name) : ℕ × Directory Name :=
  match d.entry a with
  | some f => (f, { d with content := Function.update d.content f [] })
  | none =>
      (d.next,
        { entry := Function.update d.entry a (some d.next)
          content := Function.update d.content d.next []
          next := d.next + 1
          entry_lt := d.insert_entry_lt a
          entry_inj := d.insert_entry_inj a })

/-- Write at the start of an open file; what was there beyond the end stays. -/
def write (d : Directory Name) (f : ℕ) (raw : Bytes) : Directory Name :=
  { d with content := Function.update d.content f (raw ++ (d.content f).drop raw.length) }

/-- `os.replace(a, b)`: give the file of name `a` the name `b`; `none` is the
    FileNotFoundError when there is no such file. -/
def replace (d : Directory Name) (a b : Name) : Option (Directory Name) :=
  match h : d.entry a with
  | none => none
  | some f =>
      if a = b then some d
      else some
        { d with
          entry := Function.update (Function.update d.entry b (some f)) a none
          entry_lt := by
            intro c g hc
            by_cases hca : c = a
            · rw [hca, Function.update_self] at hc
              cases hc
            · rw [Function.update_of_ne hca] at hc
              by_cases hcb : c = b
              · rw [hcb, Function.update_self] at hc
                exact Option.some.inj hc ▸ d.entry_lt a f h
              · rw [Function.update_of_ne hcb] at hc
                exact d.entry_lt c g hc
          entry_inj := by
            have hback : ∀ c g, Function.update (Function.update d.entry b (some f)) a none c
                = some g → c ≠ a ∧ (c = b ∧ g = f ∨ c ≠ b ∧ d.entry c = some g) := by
              intro c g hc
              by_cases hca : c = a
              · rw [hca, Function.update_self] at hc
                cases hc
              · rw [Function.update_of_ne hca] at hc
                by_cases hcb : c = b
                · rw [hcb, Function.update_self] at hc
                  exact ⟨hca, Or.inl ⟨hcb, (Option.some.inj hc).symm⟩⟩
                · rw [Function.update_of_ne hcb] at hc
                  exact ⟨hca, Or.inr ⟨hcb, hc⟩⟩
            intro c c' g hc hc'
            obtain ⟨hca, ⟨hcb, hg⟩ | ⟨-, hold⟩⟩ := hback c g hc
            · obtain ⟨hca', ⟨hcb', -⟩ | ⟨-, hold'⟩⟩ := hback c' g hc'
              · rw [hcb, hcb']
              · exact absurd (d.entry_inj c' a g hold' (hg ▸ h)) hca'
            · obtain ⟨hca', ⟨-, hg'⟩ | ⟨-, hold'⟩⟩ := hback c' g hc'
              · exact absurd (d.entry_inj c a g hold (hg' ▸ h)) hca
              · exact d.entry_inj c c' g hold hold' }

-- ============================================================================
-- What the operations leave
-- ============================================================================

variable {d : Directory Name} {a b : Name} {f : ℕ}

/-- The opened file is empty and has the name. -/
theorem openTruncate_entry (d : Directory Name) (a : Name) :
    (d.openTruncate a).2.entry a = some (d.openTruncate a).1 ∧
      (d.openTruncate a).2.content (d.openTruncate a).1 = [] := by
  unfold openTruncate
  split
  · next f h => exact ⟨h, Function.update_self f [] d.content⟩
  · exact ⟨Function.update_self a _ d.entry, Function.update_self d.next [] d.content⟩

/-- The files of other names are as they were. -/
theorem openTruncate_read (d : Directory Name) (h : b ≠ a) :
    (d.openTruncate a).2.read b = d.read b := by
  unfold openTruncate
  split
  · next f hf =>
      cases hb : d.entry b with
      | none => simp [read, hb]
      | some g =>
          have hne : g ≠ f := fun heq => h (d.entry_inj b a g hb (heq ▸ hf))
          simp [read, hb, Function.update_of_ne hne]
  · cases hb : d.entry b with
    | none => simp [read, Function.update_of_ne h, hb]
    | some g =>
        have hlt := d.entry_lt b g hb
        have hne : g ≠ d.next := by omega
        simp [read, Function.update_of_ne h, hb, Function.update_of_ne hne]

omit [DecidableEq Name] in
/-- Bytes written to an empty file are what it holds. -/
theorem write_content (h : d.content f = []) (raw : Bytes) : (d.write f raw).content f = raw := by
  have hupd : (d.write f raw).content f = raw ++ (d.content f).drop raw.length :=
    Function.update_self f _ d.content
  rw [hupd, h, List.drop_nil, List.append_nil]

omit [DecidableEq Name] in
/-- A write to the file of one name is not seen under another. -/
theorem write_read (h : d.entry a = some f) (hne : b ≠ a) (raw : Bytes) :
    (d.write f raw).read b = d.read b := by
  cases hb : d.entry b with
  | none => simp [read, write, hb]
  | some g =>
      have hg : g ≠ f := fun heq => hne (d.entry_inj b a g hb (heq ▸ h))
      simp [read, write, hb, Function.update_of_ne hg]

/-- A rename puts the file as it is under the new name. -/
theorem replace_read (h : d.entry a = some f) (hne : a ≠ b) :
    ∃ d', d.replace a b = some d' ∧ d'.read b = some (d.content f) := by
  unfold replace
  split
  · next hnone => exact absurd (h.symm.trans hnone) (Option.some_ne_none f)
  · next g hg =>
      have hgf : g = f := Option.some.inj (hg.symm.trans h)
      rw [if_neg hne]
      refine ⟨_, rfl, ?_⟩
      simp [read, Function.update_of_ne (Ne.symm hne), hgf]

end Directory

end Py
