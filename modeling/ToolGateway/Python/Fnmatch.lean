/-
  ToolGateway.Python.Fnmatch

  `fnmatch.fnmatchcase`: shell patterns over strings.  A pattern is read into
  tokens the way `fnmatch.translate` reads it into a regular expression:

    `*`  any run of characters          `?`       any one character
    `[seq]`, `[!seq]`  a character set  other     the character itself

  An opening bracket without a closing one is an ordinary character, the first
  character of a set may be `]`, and ranges that run backwards are removed from
  a set, so that a set can end up empty.
-/

import Mathlib.Data.List.Infix

namespace Py

/-- One piece of a shell pattern. -/
inductive GlobToken where
  | star
  | any
  | lit (c : Char)
  | set (negated : Bool) (ranges : List (Char × Char))
deriving DecidableEq, Repr

namespace GlobToken

/-- The one-character tokens; `star` matches no single character by itself. -/
def accepts : GlobToken → Char → Bool
  | star, _ => false
  | any, _ => true
  | lit c, x => c == x
  | set neg rs, x => (rs.any fun r => r.1 ≤ x && x ≤ r.2) != neg

end GlobToken

-- ============================================================================
-- Character sets
-- ============================================================================

/-- The body of a set and what follows its closing bracket; `none` when it is
    never closed. -/
def bracketBody (cs : List Char) : Option (List Char × List Char) :=
  let (bang, cs) := match cs with
    | '!' :: r => (['!'], r)
    | r => ([], r)
  let (close, cs) := match cs with
    | ']' :: r => ([']'], r)
    | r => ([], r)
  match cs.span (· != ']') with
  | (body, _ :: rest) => some (bang ++ close ++ body, rest)
  | (_, []) => none

/-- Split the body of a set at the hyphens that make ranges: the first is
    looked for from `skip` on, the next ones two characters after the last. -/
def rangeChunks : ℕ → ℕ → List Char → List (List Char)
  | 0, _, cs => [cs]
  | fuel + 1, skip, cs =>
      match (cs.drop skip).findIdx? (· == '-') with
      | none => [cs]
      | some p => cs.take (skip + p) :: rangeChunks fuel 2 (cs.drop (skip + p + 1))

/-- A hyphen at the very end of a set stands for itself. -/
def keepLastHyphen : List (List Char) → List (List Char)
  | [c, []] => [c ++ ['-']]
  | c :: d :: cs => c :: keepLastHyphen (d :: cs)
  | cs => cs

/-- Remove the ranges that run backwards, from the last one to the first. -/
def dropEmptyRanges : List (List Char) → List (List Char)
  | [] => []
  | c :: cs =>
      match dropEmptyRanges cs with
      | [] => [c]
      | d :: ds =>
          match c.getLast?, d.head? with
          | some hi, some lo => if lo < hi then (c.dropLast ++ d.tail) :: ds else c :: d :: ds
          | _, _ => c :: d :: ds

/-- The ranges of a set: each character by itself, and from the last character
    of a chunk to the first of the next. -/
def chunkRanges : List (List Char) → List (Char × Char)
  | [] => []
  | [c] => c.map fun x => (x, x)
  | c :: d :: cs =>
      c.map (fun x => (x, x)) ++
        (match c.getLast?, d.head? with
          | some lo, some hi => [(lo, hi)]
          | _, _ => []) ++ chunkRanges (d :: cs)

/-- The token of a set with this body.  A negated empty set matches any
    character, an empty set matches none. -/
def setToken (body : List Char) : GlobToken :=
  let chunks := dropEmptyRanges <| keepLastHyphen <|
    rangeChunks body.length (if body.head? = some '!' then 2 else 1) body
  match chunks with
  | ('!' :: c) :: cs => .set true (chunkRanges (c :: cs))
  | cs => .set false (chunkRanges cs)

-- ============================================================================
-- Patterns
-- ============================================================================

/-- Read a pattern into tokens; the fuel bounds the number of tokens. -/
def globTokens : ℕ → List Char → List GlobToken
  | 0, _ => []
  | _, [] => []
  | fuel + 1, c :: cs =>
      if c = '*' then .star :: globTokens fuel cs
      else if c = '?' then .any :: globTokens fuel cs
      else if c = '[' then
        match bracketBody cs with
        | some (body, rest) => setToken body :: globTokens fuel rest
        | none => .lit '[' :: globTokens fuel cs
      else .lit c :: globTokens fuel cs

/-- The whole text matches the tokens. -/
def matchTokens : List GlobToken → List Char → Bool
  | [], cs => cs.isEmpty
  | .star :: ts, cs => cs.tails.any (matchTokens ts)
  | t :: ts, c :: cs => t.accepts c && matchTokens ts cs
  | _ :: _, [] => false

/-- `fnmatch.fnmatchcase(name, pat)`. -/
def fnmatchcase (name pat : String) : Bool :=
  matchTokens (globTokens pat.toList.length pat.toList) name.toList

-- ============================================================================
-- Patterns of one character
-- ============================================================================

theorem matchTokens_star (cs : List Char) : matchTokens [.star] cs = true := by
  simp only [matchTokens, List.any_eq_true]
  exact ⟨[], by simp, rfl⟩

/-- A token for one character matches the texts of one character it accepts. -/
theorem matchTokens_singleton {t : GlobToken} (ht : t ≠ .star) (cs : List Char) :
    matchTokens [t] cs = true ↔ ∃ c, cs = [c] ∧ t.accepts c = true := by
  cases cs with
  | nil => cases t <;> simp_all [matchTokens]
  | cons c cs => cases t <;> simp_all [matchTokens] <;> exact And.comm

/-- A pattern of one character: the star matches everything, any other one the
    texts of one character, `?` all of them. -/
theorem fnmatchcase_singleton (name : String) (c : Char) :
    fnmatchcase name (String.ofList [c]) = true ↔
      c = '*' ∨ ∃ x, name.toList = [x] ∧ (c = '?' ∨ c = x) := by
  have hpattern : (String.ofList [c]).toList = [c] := String.toList_ofList
  unfold fnmatchcase
  rw [hpattern]
  by_cases hstar : c = '*'
  · simp [hstar, globTokens, matchTokens_star]
  · by_cases hany : c = '?'
    · have htokens : globTokens [c].length [c] = [.any] := by simp [hany, globTokens]
      rw [htokens, matchTokens_singleton (by simp)]
      simp [hany, GlobToken.accepts]
    · have htokens : globTokens [c].length [c] = [.lit c] := by
        by_cases hbracket : c = '['
        · rw [hbracket]
          rfl
        · simp [hstar, hany, hbracket, globTokens]
      rw [htokens, matchTokens_singleton (by simp)]
      simp [hstar, hany, GlobToken.accepts]

end Py
