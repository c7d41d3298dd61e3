/-
  ToolGateway.Python.Globs

  Two readings of one pattern.  Where only the star is special, every other character
  of a pattern stands for itself; where the pattern is a glob, `?` and sets are special
  too.  The readings are told apart by the shortest texts they let through: a set takes
  one character where its spelling takes at least two.
-/

import ToolGateway.Python.Fnmatch

namespace Py

-- ============================================================================
-- Shortest texts
-- ============================================================================

/-- The tokens that take a character. -/
def solid (ts : List GlobToken) : List GlobToken :=
  ts.filter (· != .star)

@[simp] theorem solid_nil : solid [] = [] := rfl

@[simp] theorem solid_star_cons (ts : List GlobToken) : solid (.star :: ts) = solid ts := rfl

theorem solid_cons {t : GlobToken} (ht : t ≠ .star) (ts : List GlobToken) :
    solid (t :: ts) = t :: solid ts :=
  List.filter_cons_of_pos (by simpa using ht)

theorem matchTokens_star_cons {ts : List GlobToken} {cs : List Char} :
    matchTokens (.star :: ts) cs = true ↔ ∃ rest, rest <:+ cs ∧ matchTokens ts rest = true := by
  simp [matchTokens]

theorem matchTokens_cons {t : GlobToken} (ht : t ≠ .star) {ts : List GlobToken}
    {cs : List Char} :
    matchTokens (t :: ts) cs = true ↔
      ∃ c rest, cs = c :: rest ∧ t.accepts c = true ∧ matchTokens ts rest = true := by
  cases cs with
  | nil => cases t <;> simp_all [matchTokens]
  | cons c rest => cases t <;> simp_all [matchTokens]

/-- A text has a character for every token that takes one. -/
theorem length_solid_le {ts : List GlobToken} {cs : List Char}
    (h : matchTokens ts cs = true) : (solid ts).length ≤ cs.length := by
  induction ts generalizing cs with
  | nil => simp
  | cons t ts ih =>
      by_cases ht : t = .star
      · subst ht
        obtain ⟨rest, hsuffix, hrest⟩ := matchTokens_star_cons.mp h
        have hshort := hsuffix.length_le
        have hlen := ih hrest
        rw [solid_star_cons]
        omega
      · obtain ⟨c, rest, rfl, -, hrest⟩ := (matchTokens_cons ht).mp h
        have hlen := ih hrest
        rw [solid_cons ht, List.length_cons, List.length_cons]
        omega

/-- In a shortest text the stars stand for nothing. -/
theorem match_solid_of_length {ts : List GlobToken} {cs : List Char}
    (h : matchTokens ts cs = true) (hlen : cs.length ≤ (solid ts).length) :
    matchTokens (solid ts) cs = true := by
  induction ts generalizing cs with
  | nil => exact h
  | cons t ts ih =>
      by_cases ht : t = .star
      · subst ht
        obtain ⟨rest, hsuffix, hrest⟩ := matchTokens_star_cons.mp h
        have hshort := length_solid_le hrest
        rw [solid_star_cons] at hlen ⊢
        have heq : rest = cs := hsuffix.eq_of_length_le (by omega)
        exact ih (heq ▸ hrest) hlen
      · obtain ⟨c, rest, rfl, hc, hrest⟩ := (matchTokens_cons ht).mp h
        rw [solid_cons ht, List.length_cons, List.length_cons] at hlen
        rw [solid_cons ht]
        exact (matchTokens_cons ht).mpr ⟨c, rest, rfl, hc, ih hrest (by omega)⟩

/-- Stars may stand for nothing. -/
theorem match_of_solid {ts : List GlobToken} {cs : List Char}
    (h : matchTokens (solid ts) cs = true) : matchTokens ts cs = true := by
  induction ts generalizing cs with
  | nil => exact h
  | cons t ts ih =>
      by_cases ht : t = .star
      · subst ht
        exact matchTokens_star_cons.mpr ⟨cs, List.suffix_rfl, ih h⟩
      · rw [solid_cons ht] at h
        obtain ⟨c, rest, rfl, hc, hrest⟩ := (matchTokens_cons ht).mp h
        exact (matchTokens_cons ht).mpr ⟨c, rest, rfl, hc, ih hrest⟩

/-- Or one of them for any one character. -/
theorem exists_match_of_star {ts : List GlobToken} (hstar : .star ∈ ts) {cs : List Char}
    (h : matchTokens (solid ts) cs = true) (c : Char) :
    ∃ name, c ∈ name ∧ name.length = cs.length + 1 ∧ matchTokens ts name = true := by
  induction ts generalizing cs with
  | nil => simp at hstar
  | cons t ts ih =>
      by_cases ht : t = .star
      · subst ht
        refine ⟨c :: cs, List.mem_cons_self .., rfl, matchTokens_star_cons.mpr ?_⟩
        exact ⟨cs, List.suffix_cons c cs, match_of_solid h⟩
      · have hlater : .star ∈ ts := by
          rcases List.mem_cons.mp hstar with heq | hlater
          · exact absurd heq.symm ht
          · exact hlater
        rw [solid_cons ht] at h
        obtain ⟨x, rest, rfl, hx, hrest⟩ := (matchTokens_cons ht).mp h
        obtain ⟨name, hc, hlen, hname⟩ := ih hlater hrest
        exact ⟨x :: name, List.mem_cons_of_mem x hc, by rw [List.length_cons, hlen, List.length_cons],
          (matchTokens_cons ht).mpr ⟨x, name, rfl, hx, hname⟩⟩

/-- A text made by picking a character for each token. -/
theorem match_map {ts : List GlobToken} {pick : GlobToken → Char}
    (hpick : ∀ t ∈ ts, t ≠ .star → t.accepts (pick t) = true) :
    matchTokens (solid ts) ((solid ts).map pick) = true := by
  induction ts with
  | nil => rfl
  | cons t ts ih =>
      have hrest := ih fun t' ht' => hpick t' (List.mem_cons_of_mem t ht')
      by_cases ht : t = .star
      · subst ht
        exact hrest
      · rw [solid_cons ht]
        exact (matchTokens_cons ht).mpr
          ⟨pick t, (solid ts).map pick, rfl, hpick t (List.mem_cons_self ..) ht, hrest⟩

/-- Every token takes a character it accepts. -/
theorem exists_accepted {ts : List GlobToken} {cs : List Char} (h : matchTokens ts cs = true)
    {t : GlobToken} (hmem : t ∈ ts) (ht : t ≠ .star) : ∃ c ∈ cs, t.accepts c = true := by
  induction ts generalizing cs with
  | nil => simp at hmem
  | cons u ts ih =>
      by_cases hu : u = .star
      · subst hu
        obtain ⟨rest, hsuffix, hrest⟩ := matchTokens_star_cons.mp h
        have hlater : t ∈ ts := (List.mem_cons.mp hmem).resolve_left ht
        obtain ⟨c, hc, hacc⟩ := ih hrest hlater
        exact ⟨c, hsuffix.subset hc, hacc⟩
      · obtain ⟨c, rest, rfl, hacc, hrest⟩ := (matchTokens_cons hu).mp h
        rcases List.mem_cons.mp hmem with rfl | hlater
        · exact ⟨c, List.mem_cons_self .., hacc⟩
        · obtain ⟨d, hd, hacc'⟩ := ih hrest hlater
          exact ⟨d, List.mem_cons_of_mem c hd, hacc'⟩

/-- Without stars every character is taken by a token that accepts it. -/
theorem exists_accepting {ts : List GlobToken} (hstar : .star ∉ ts) {cs : List Char}
    (h : matchTokens ts cs = true) {c : Char} (hc : c ∈ cs) :
    ∃ t ∈ ts, t.accepts c = true := by
  induction ts generalizing cs with
  | nil => cases cs <;> simp_all [matchTokens]
  | cons u ts ih =>
      rw [List.mem_cons, not_or] at hstar
      obtain ⟨d, rest, rfl, hacc, hrest⟩ := (matchTokens_cons (Ne.symm hstar.1)).mp h
      rcases List.mem_cons.mp hc with rfl | hlater
      · exact ⟨u, List.mem_cons_self .., hacc⟩
      · obtain ⟨t, ht, hacc'⟩ := ih hstar.2 hrest hlater
        exact ⟨t, List.mem_cons_of_mem u ht, hacc'⟩

-- ============================================================================
-- Two readings
-- ============================================================================

/-- Only the star is special. -/
def literalToken (c : Char) : GlobToken :=
  if c = '*' then .star else .lit c

/-- The pattern without `?` and sets. -/
def literalTokens (pattern : List Char) : List GlobToken :=
  pattern.map literalToken

@[simp] theorem literalTokens_cons (c : Char) (cs : List Char) :
    literalTokens (c :: cs) = literalToken c :: literalTokens cs := rfl

@[simp] theorem literalToken_star : literalToken '*' = .star := rfl

theorem literalToken_of_ne {c : Char} (hc : c ≠ '*') : literalToken c = .lit c :=
  if_neg hc

/-- The characters of a pattern that take a character, read literally. -/
theorem solid_literalTokens (pattern : List Char) :
    solid (literalTokens pattern) = (pattern.filter (· != '*')).map .lit := by
  induction pattern with
  | nil => rfl
  | cons c cs ih =>
      by_cases hc : c = '*'
      · subst hc
        exact ih
      · rw [literalTokens_cons, literalToken_of_ne hc, solid_cons (by simp),
          List.filter_cons_of_pos (by simpa using hc), List.map_cons, ih]

/-- Literal tokens let one text through. -/
theorem match_lits {cs ds : List Char} :
    matchTokens (cs.map .lit) ds = true ↔ ds = cs := by
  induction cs generalizing ds with
  | nil => simp [matchTokens]
  | cons c cs ih =>
      rw [List.map_cons, matchTokens_cons (by simp)]
      constructor
      · rintro ⟨d, rest, rfl, hd, hrest⟩
        rw [ih.mp hrest, beq_iff_eq.mp hd]
      · rintro rfl
        exact ⟨c, cs, rfl, by simp [GlobToken.accepts], ih.mpr rfl⟩

/-- A shortest text of the literal reading is the pattern without its stars. -/
theorem eq_of_match_literal {pattern name : List Char}
    (h : matchTokens (literalTokens pattern) name = true)
    (hlen : name.length ≤ (solid (literalTokens pattern)).length) :
    name = pattern.filter (· != '*') := by
  have hsolid := match_solid_of_length h hlen
  rw [solid_literalTokens] at hsolid
  exact match_lits.mp hsolid

/-- The pattern without its stars is let through, read literally. -/
theorem match_literal (pattern : List Char) :
    matchTokens (literalTokens pattern) (pattern.filter (· != '*')) = true := by
  refine match_of_solid ?_
  rw [solid_literalTokens]
  exact match_lits.mpr rfl

theorem setToken_eq (body : List Char) : ∃ negated ranges, setToken body = .set negated ranges := by
  simp only [setToken]
  generalize dropEmptyRanges _ = chunks
  split
  · exact ⟨true, _, rfl⟩
  · exact ⟨false, _, rfl⟩

/-- The body of a set that begins with `front`, up to the next bracket in `cs`. -/
def closedAfter (front cs : List Char) : Option (List Char × List Char) :=
  match cs.span (· != ']') with
  | (inner, _ :: rest) => some (front ++ inner, rest)
  | (_, []) => none

theorem closedAfter_eq {front cs body rest : List Char}
    (h : closedAfter front cs = some (body, rest)) :
    ∃ inner, body = front ++ inner ∧ cs = inner ++ ']' :: rest := by
  unfold closedAfter at h
  split at h
  · rename_i inner d tail hspan
    obtain ⟨rfl, rfl⟩ := Prod.mk.inj (Option.some.inj h)
    rw [List.span_eq_takeWhile_dropWhile, Prod.mk.injEq] at hspan
    obtain ⟨rfl, hdrop⟩ := hspan
    have hd : d = ']' := by
      have hhead := List.head?_dropWhile_not (· != ']') cs
      rw [hdrop] at hhead
      simpa using hhead
    rw [hd] at hdrop
    refine ⟨_, rfl, ?_⟩
    rw [← hdrop, List.takeWhile_append_dropWhile]
  · cases h

/-- `!` and `]` in front are characters of the set. -/
theorem bracketBody_front (cs : List Char) :
    ∃ front ds, cs = front ++ ds ∧ (front ≠ [] ∨ ∀ tail, ds ≠ ']' :: tail) ∧
      bracketBody cs = closedAfter front ds := by
  cases cs with
  | nil => exact ⟨[], [], rfl, Or.inr (by simp), rfl⟩
  | cons c r =>
      by_cases hbang : c = '!'
      · subst hbang
        cases r with
        | nil => exact ⟨['!'], [], rfl, Or.inl (by simp), rfl⟩
        | cons d r =>
            by_cases hclose : d = ']'
            · subst hclose
              exact ⟨['!', ']'], r, rfl, Or.inl (by simp), rfl⟩
            · refine ⟨['!'], d :: r, rfl, Or.inl (by simp), ?_⟩
              rcases hspan : (d :: r).span (· != ']') with ⟨inner, rest⟩
              cases rest <;> simp only [bracketBody, closedAfter, List.cons.injEq, hclose, false_and,
                imp_self, implies_true, List.append_nil, hspan]
      · by_cases hclose : c = ']'
        · subst hclose
          exact ⟨[']'], r, rfl, Or.inl (by simp), rfl⟩
        · refine ⟨[], c :: r, rfl, Or.inr (by simp [hclose]), ?_⟩
          rcases hspan : (c :: r).span (· != ']') with ⟨inner, rest⟩
          cases rest <;> simp only [bracketBody, closedAfter, List.cons.injEq, hbang, hclose,
            false_and, imp_self, implies_true, List.append_nil, List.nil_append, hspan]

/-- A closed set has a body, and its bracket behind it. -/
theorem bracketBody_eq {cs body rest : List Char} (h : bracketBody cs = some (body, rest)) :
    body ≠ [] ∧ cs = body ++ ']' :: rest := by
  obtain ⟨front, ds, rfl, hfront, heq⟩ := bracketBody_front cs
  obtain ⟨inner, rfl, rfl⟩ := closedAfter_eq (heq.symm.trans h)
  refine ⟨fun hnil => ?_, (List.append_assoc ..).symm⟩
  obtain ⟨hf, rfl⟩ := List.append_eq_nil_iff.mp hnil
  rcases hfront with hne | hopen
  · exact hne hf
  · exact hopen rest rfl

/-- How the pieces of a glob are spelled. -/
inductive Reads : List Char → List GlobToken → Prop
  | nil : Reads [] []
  | star {cs ts} : Reads cs ts → Reads ('*' :: cs) (.star :: ts)
  | any {cs ts} : Reads cs ts → Reads ('?' :: cs) (.any :: ts)
  | set {body rest ts} (negated ranges) : body ≠ [] → Reads rest ts →
      Reads ('[' :: (body ++ ']' :: rest)) (.set negated ranges :: ts)
  | lit {c cs ts} : c ≠ '*' → c ≠ '?' → Reads cs ts → Reads (c :: cs) (.lit c :: ts)

theorem reads_globTokens {fuel : ℕ} {pattern : List Char} (hfuel : pattern.length ≤ fuel) :
    Reads pattern (globTokens fuel pattern) := by
  induction fuel generalizing pattern with
  | zero =>
      have hnil : pattern = [] := List.eq_nil_of_length_eq_zero (by omega)
      subst hnil
      exact .nil
  | succ fuel ih =>
      cases pattern with
      | nil => exact .nil
      | cons c cs =>
          have hcs : cs.length ≤ fuel := by
            rw [List.length_cons] at hfuel
            omega
          rw [globTokens]
          split
          · rename_i hc
            subst hc
            exact .star (ih hcs)
          split
          · rename_i hc
            subst hc
            exact .any (ih hcs)
          split
          · rename_i hc
            subst hc
            split
            · rename_i body rest hbody
              obtain ⟨hne, rfl⟩ := bracketBody_eq hbody
              obtain ⟨negated, ranges, hset⟩ := setToken_eq body
              rw [List.length_append, List.length_cons] at hcs
              rw [hset]
              exact .set negated ranges hne (ih (by omega))
            · exact .lit (by decide) (by decide) (ih hcs)
          · rename_i hstar hany _
            exact .lit hstar hany (ih hcs)

-- Widths -----------------------------------------------------------------------

/-- The length of the shortest texts. -/
def width (ts : List GlobToken) : ℕ :=
  (solid ts).length

/-- The shortest length of the literal reading. -/
def spelled (cs : List Char) : ℕ :=
  width (literalTokens cs)

theorem spelled_eq (cs : List Char) : spelled cs = (cs.filter (· != '*')).length := by
  rw [spelled, width, solid_literalTokens, List.length_map]

@[simp] theorem spelled_star (cs : List Char) : spelled ('*' :: cs) = spelled cs := rfl

theorem spelled_cons {c : Char} (hc : c ≠ '*') (cs : List Char) :
    spelled (c :: cs) = spelled cs + 1 := by
  rw [spelled_eq, spelled_eq, List.filter_cons_of_pos (by simpa using hc), List.length_cons]

theorem spelled_append (cs ds : List Char) : spelled (cs ++ ds) = spelled cs + spelled ds := by
  rw [spelled_eq, spelled_eq, spelled_eq, List.filter_append, List.length_append]

/-- A set takes one character, its brackets alone two. -/
theorem spelled_set (body rest : List Char) :
    spelled ('[' :: (body ++ ']' :: rest)) = spelled body + spelled rest + 2 := by
  rw [spelled_cons (by decide), spelled_append, spelled_cons (by decide)]
  omega

theorem spelled_pos {cs : List Char} {c : Char} (hc : c ≠ '*') (hmem : c ∈ cs) :
    0 < spelled cs := by
  rw [spelled_eq]
  exact List.length_pos_of_mem (List.mem_filter.mpr ⟨hmem, by simpa using hc⟩)

@[simp] theorem width_nil : width [] = 0 := rfl

@[simp] theorem width_star (ts : List GlobToken) : width (.star :: ts) = width ts := rfl

theorem width_cons {t : GlobToken} (ht : t ≠ .star) (ts : List GlobToken) :
    width (t :: ts) = width ts + 1 := by
  rw [width, solid_cons ht, List.length_cons]
  rfl

namespace Reads

variable {pattern : List Char} {ts : List GlobToken}

/-- A glob lets shorter texts through than its spelling. -/
theorem width_le (h : Reads pattern ts) : width ts ≤ spelled pattern := by
  induction h with
  | nil => exact le_rfl
  | star _ ih => exact ih
  | any _ ih =>
      rw [width_cons (by simp), spelled_cons (by decide)]
      omega
  | set negated ranges _ _ ih =>
      rw [width_cons (by simp), spelled_set]
      omega
  | lit hstar _ _ ih =>
      rw [width_cons (by simp), spelled_cons hstar]
      omega

theorem width_lt_of_set (h : Reads pattern ts) {negated : Bool} {ranges : List (Char × Char)}
    (hset : .set negated ranges ∈ ts) : width ts < spelled pattern := by
  induction h with
  | nil => simp at hset
  | star _ ih => exact ih (by simpa using hset)
  | any _ ih =>
      have hlt := ih (by simpa using hset)
      rw [width_cons (by simp), spelled_cons (by decide)]
      omega
  | set negated' ranges' _ hrest _ =>
      have hle := hrest.width_le
      rw [width_cons (by simp), spelled_set]
      omega
  | lit hstar _ _ ih =>
      have hlt := ih (by simpa using hset)
      rw [width_cons (by simp), spelled_cons hstar]
      omega

/-- A character of the pattern stands for itself, or in a set, which then takes two
    characters less than its spelling. -/
theorem lit_or_width (h : Reads pattern ts) {d : Char} (hstar : d ≠ '*') (hany : d ≠ '?')
    (hopen : d ≠ '[') (hclose : d ≠ ']') (hd : d ∈ pattern) :
    .lit d ∈ ts ∨ width ts + 2 ≤ spelled pattern := by
  induction h with
  | nil => simp at hd
  | star _ ih =>
      rcases ih ((List.mem_cons.mp hd).resolve_left hstar) with hlit | hwide
      · exact Or.inl (List.mem_cons_of_mem _ hlit)
      · exact Or.inr hwide
  | any _ ih =>
      rcases ih ((List.mem_cons.mp hd).resolve_left hany) with hlit | hwide
      · exact Or.inl (List.mem_cons_of_mem _ hlit)
      · right
        rw [width_cons (by simp), spelled_cons (by decide)]
        omega
  | @set body rest ts negated ranges hbody hrest ih =>
      rw [width_cons (by simp), spelled_set]
      have hrest' := hrest.width_le
      have hinner := (List.mem_cons.mp hd).resolve_left hopen
      rcases List.mem_append.mp hinner with hin | hout
      · have hpos := spelled_pos hstar hin
        omega
      · rcases ih ((List.mem_cons.mp hout).resolve_left hclose) with hlit | hwide
        · exact Or.inl (List.mem_cons_of_mem _ hlit)
        · omega
  | @lit c cs ts hc hc' _ ih =>
      rcases List.mem_cons.mp hd with rfl | hlater
      · exact Or.inl (List.mem_cons_self ..)
      · rcases ih hlater with hlit | hwide
        · exact Or.inl (List.mem_cons_of_mem _ hlit)
        · right
          rw [width_cons (by simp), spelled_cons hc]
          omega

/-- Without sets and `?` the readings are the same. -/
theorem eq_literal (h : Reads pattern ts) (hset : ∀ negated ranges, .set negated ranges ∉ ts)
    (hany : '?' ∉ pattern) : ts = literalTokens pattern := by
  induction h with
  | nil => rfl
  | star _ ih =>
      have hrest := ih (fun negated ranges hmem => hset negated ranges (List.mem_cons_of_mem _ hmem))
        fun hmem => hany (List.mem_cons_of_mem _ hmem)
      rw [hrest, literalTokens_cons, literalToken_star]
  | any _ ih => exact absurd (List.mem_cons_self ..) hany
  | set negated ranges _ _ _ => exact absurd (List.mem_cons_self ..) (hset negated ranges)
  | lit hc _ _ ih =>
      have hrest := ih (fun negated ranges hmem => hset negated ranges (List.mem_cons_of_mem _ hmem))
        fun hmem => hany (List.mem_cons_of_mem _ hmem)
      rw [hrest, literalTokens_cons, literalToken_of_ne hc]

/-- Without sets `?` is special wherever it stands. -/
theorem any_mem (h : Reads pattern ts) (hset : ∀ negated ranges, .set negated ranges ∉ ts)
    (hany : '?' ∈ pattern) : .any ∈ ts := by
  induction h with
  | nil => simp at hany
  | star _ ih =>
      refine List.mem_cons_of_mem _ (ih (fun negated ranges hmem => ?_) (by simpa using hany))
      exact hset negated ranges (List.mem_cons_of_mem _ hmem)
  | any _ _ => exact List.mem_cons_self ..
  | set negated ranges _ _ _ => exact absurd (List.mem_cons_self ..) (hset negated ranges)
  | lit _ hne _ ih =>
      refine List.mem_cons_of_mem _ (ih (fun negated ranges hmem => ?_) ?_)
      · exact hset negated ranges (List.mem_cons_of_mem _ hmem)
      · exact (List.mem_cons.mp hany).resolve_left (Ne.symm hne)

theorem star_mem (h : Reads pattern ts) (hstar : .star ∈ ts) : '*' ∈ pattern := by
  induction h with
  | nil => simp at hstar
  | star _ _ => exact List.mem_cons_self ..
  | any _ ih => exact List.mem_cons_of_mem _ (ih (by simpa using hstar))
  | set _ _ _ _ ih =>
      have hrest := ih (by simpa using hstar)
      simp [hrest]
  | lit _ _ _ ih => exact List.mem_cons_of_mem _ (ih (by simpa using hstar))

/-- `?` is never a literal. -/
theorem lit_ne (h : Reads pattern ts) {c : Char} (hc : .lit c ∈ ts) : c ≠ '?' := by
  induction h with
  | nil => simp at hc
  | star _ ih => exact ih (by simpa using hc)
  | any _ ih => exact ih (by simpa using hc)
  | set _ _ _ _ ih => exact ih (by simpa using hc)
  | lit _ hne _ ih =>
      rcases List.mem_cons.mp hc with heq | hlater
      · rw [GlobToken.lit.inj heq]
        exact hne
      · exact ih hlater

-- Texts that tell the readings apart ----------------------------------------------

/-- No text with this character is let through: the literal reading has neither the
    character nor a star, and the glob can take nothing there or not this character. -/
def Barren (d : Char) (pattern : List Char) (ts : List GlobToken) : Prop :=
  d ∉ pattern ∧ '*' ∉ pattern ∧
    ((∃ t ∈ ts, ∀ c, t.accepts c = false) ∨ ∀ t ∈ ts, t.accepts d = false)

/-- Where neither reading lets a text through they agree. -/
theorem barren_agree (h : Reads pattern ts) {d : Char} (hbarren : Barren d pattern ts)
    {name : List Char} (hd : d ∈ name) :
    matchTokens ts name = false ∧ matchTokens (literalTokens pattern) name = false := by
  obtain ⟨hpattern, hnostar, hglob⟩ := hbarren
  have hstar : .star ∉ ts := fun hmem => hnostar (h.star_mem hmem)
  constructor
  · rw [Bool.eq_false_iff]
    intro hmatch
    rcases hglob with ⟨t, ht, hnone⟩ | hnone
    · have hsolid : t ≠ .star := fun heq => hstar (heq ▸ ht)
      obtain ⟨c, -, hc⟩ := exists_accepted hmatch ht hsolid
      rw [hnone c] at hc
      cases hc
    · obtain ⟨t, ht, hacc⟩ := exists_accepting hstar hmatch hd
      rw [hnone t ht] at hacc
      cases hacc
  · rw [Bool.eq_false_iff]
    intro hmatch
    have hplain : .star ∉ literalTokens pattern := by
      intro hmem
      obtain ⟨c, hc, heq⟩ := List.mem_map.mp hmem
      by_cases hcs : c = '*'
      · exact hnostar (hcs ▸ hc)
      · rw [literalToken_of_ne hcs] at heq
        cases heq
    obtain ⟨t, ht, hacc⟩ := exists_accepting hplain hmatch hd
    obtain ⟨c, hc, rfl⟩ := List.mem_map.mp ht
    have hne : c ≠ '*' := fun heq => hnostar (heq ▸ hc)
    rw [literalToken_of_ne hne] at hacc
    exact hpattern (beq_iff_eq.mp hacc ▸ hc)

/-- The literal reading lets a text with `d` through if the pattern has it or a star. -/
theorem exists_literal {d : Char} (hstar : d ≠ '*') (h : d ∈ pattern ∨ '*' ∈ pattern) :
    ∃ name, d ∈ name ∧ matchTokens (literalTokens pattern) name = true := by
  rcases h with hd | hs
  · exact ⟨_, List.mem_filter.mpr ⟨hd, by simpa using hstar⟩, match_literal pattern⟩
  · have hmem : .star ∈ literalTokens pattern := List.mem_map.mpr ⟨'*', hs, rfl⟩
    have hsolid : matchTokens (solid (literalTokens pattern)) (pattern.filter (· != '*')) = true := by
      rw [solid_literalTokens]
      exact match_lits.mpr rfl
    obtain ⟨name, hd, -, hname⟩ := exists_match_of_star hmem hsolid d
    exact ⟨name, hd, hname⟩

/-- A character for every token that accepts one, `d` wherever it may stand. -/
theorem exists_pick (d : Char) (ts : List GlobToken)
    (hsat : ∀ t ∈ ts, t ≠ .star → ∃ c, t.accepts c = true) :
    ∃ pick : GlobToken → Char, (∀ t ∈ ts, t ≠ .star → t.accepts (pick t) = true) ∧
      ∀ t, t.accepts d = true → pick t = d := by
  have hone : ∀ t : GlobToken, ∃ c, (t ∈ ts → t ≠ .star → t.accepts c = true) ∧
      (t.accepts d = true → c = d) := by
    intro t
    by_cases hd : t.accepts d = true
    · exact ⟨d, fun _ _ => hd, fun _ => rfl⟩
    · by_cases ht : t ∈ ts ∧ t ≠ .star
      · obtain ⟨c, hc⟩ := hsat t ht.1 ht.2
        exact ⟨c, fun _ _ => hc, fun h => absurd h hd⟩
      · exact ⟨d, fun hmem hne => absurd ⟨hmem, hne⟩ ht, fun _ => rfl⟩
  choose pick hpick hd using hone
  exact ⟨pick, hpick, hd⟩

/-- A shortest text of the glob with `d` for `?` is not let through literally. -/
theorem missed_of_accepted (h : Reads pattern ts) {d : Char} (hany : d ≠ '?')
    (hne : ts ≠ literalTokens pattern)
    (hsat : ∀ t ∈ ts, t ≠ .star → ∃ c, t.accepts c = true)
    (hacc : ∃ t ∈ ts, t.accepts d = true) :
    ∃ name, d ∈ name ∧ matchTokens ts name = true ∧
      matchTokens (literalTokens pattern) name = false := by
  obtain ⟨pick, hpick, hd⟩ := exists_pick d ts hsat
  refine ⟨(solid ts).map pick, ?_, match_of_solid (match_map hpick),
    Bool.eq_false_iff.mpr fun hliteral => ?_⟩
  · obtain ⟨t, ht, htd⟩ := hacc
    have hsolid : t ∈ solid ts := by
      refine List.mem_filter.mpr ⟨ht, ?_⟩
      have hstar : t ≠ .star := by
        rintro rfl
        cases htd
      simpa using hstar
    exact List.mem_map.mpr ⟨t, hsolid, hd t htd⟩
  · have hlen : ((solid ts).map pick).length = width ts := List.length_map ..
    have hshort : spelled pattern ≤ width ts := hlen ▸ length_solid_le hliteral
    have hset : ∀ negated ranges, .set negated ranges ∉ ts := by
      intro negated ranges hmem
      have hlt := h.width_lt_of_set hmem
      omega
    have hmark : '?' ∈ pattern := by_contra fun hno => hne (h.eq_literal hset hno)
    -- the text is the pattern without its stars, so some token stands for a `?`
    have hname := eq_of_match_literal hliteral (hlen.trans_le h.width_le)
    have hin : '?' ∈ (solid ts).map pick :=
      hname ▸ List.mem_filter.mpr ⟨hmark, by decide⟩
    obtain ⟨t, ht, htpick⟩ := List.mem_map.mp hin
    obtain ⟨hmem, hsolid⟩ := List.mem_filter.mp ht
    have hstar : t ≠ .star := by simpa using hsolid
    have haccepts := hpick t hmem hstar
    rw [htpick] at haccepts
    cases t with
    | star => exact hstar rfl
    | any => exact hany ((hd .any rfl).symm.trans htpick)
    | lit c => exact h.lit_ne hmem (beq_iff_eq.mp haccepts)
    | set negated ranges => exact hset negated ranges hmem

/-- Where no token takes `d`, a text with `d` in the place of a star is not let through
    literally. -/
theorem missed_of_star (h : Reads pattern ts) {d : Char} (hstar : d ≠ '*') (hany : d ≠ '?')
    (hopen : d ≠ '[') (hclose : d ≠ ']') (hne : ts ≠ literalTokens pattern)
    (hsat : ∀ t ∈ ts, t ≠ .star → ∃ c, t.accepts c = true)
    (hacc : ¬ ∃ t ∈ ts, t.accepts d = true) (hstars : .star ∈ ts) :
    ∃ name, d ∈ name ∧ matchTokens ts name = true ∧
      matchTokens (literalTokens pattern) name = false := by
  obtain ⟨pick, hpick, -⟩ := exists_pick d ts hsat
  obtain ⟨name, hd, hlen, hname⟩ := exists_match_of_star hstars (match_map hpick) d
  refine ⟨name, hd, hname, Bool.eq_false_iff.mpr fun hliteral => ?_⟩
  have hset : ∃ negated ranges, .set negated ranges ∈ ts := by
    by_contra hno
    have hnoset : ∀ negated ranges, .set negated ranges ∉ ts := fun negated ranges hmem =>
      hno ⟨negated, ranges, hmem⟩
    have hmark : '?' ∈ pattern := by_contra fun hno' => hne (h.eq_literal hnoset hno')
    exact hacc ⟨.any, h.any_mem hnoset hmark, rfl⟩
  obtain ⟨negated, ranges, hset⟩ := hset
  have hlt := h.width_lt_of_set hset
  have hlen' : name.length = width ts + 1 := by
    rw [hlen, List.length_map]
    rfl
  have hfilter := eq_of_match_literal hliteral (hlen'.trans_le hlt)
  have hdp : d ∈ pattern := (List.mem_filter.mp (hfilter ▸ hd)).1
  have hshort : spelled pattern ≤ name.length := length_solid_le hliteral
  rcases h.lit_or_width hstar hany hopen hclose hdp with hlit | hwide
  · exact hacc ⟨.lit d, hlit, beq_self_eq_true d⟩
  · omega

/-- If the readings differ and the glob lets a text with `d` through, it lets one
    through that the literal reading does not. -/
theorem exists_missed (h : Reads pattern ts) {d : Char} (hstar : d ≠ '*') (hany : d ≠ '?')
    (hopen : d ≠ '[') (hclose : d ≠ ']') (hne : ts ≠ literalTokens pattern) {some' : List Char}
    (hd : d ∈ some') (hglob : matchTokens ts some' = true) :
    ∃ name, d ∈ name ∧ matchTokens ts name = true ∧
      matchTokens (literalTokens pattern) name = false := by
  have hsat : ∀ t ∈ ts, t ≠ .star → ∃ c, t.accepts c = true := by
    intro t ht hsolid
    obtain ⟨c, -, hc⟩ := exists_accepted hglob ht hsolid
    exact ⟨c, hc⟩
  by_cases hacc : ∃ t ∈ ts, t.accepts d = true
  · exact h.missed_of_accepted hany hne hsat hacc
  · have hstars : .star ∈ ts := by_contra fun hno => hacc (exists_accepting hno hglob hd)
    exact h.missed_of_star hstar hany hopen hclose hne hsat hacc hstars

/-- If the readings differ, a text with `d` tells them apart, unless neither lets any
    through. -/
theorem exists_telling (h : Reads pattern ts) {d : Char} (hstar : d ≠ '*') (hany : d ≠ '?')
    (hopen : d ≠ '[') (hclose : d ≠ ']') (hne : ts ≠ literalTokens pattern)
    (hbarren : ¬ Barren d pattern ts) :
    ∃ name, d ∈ name ∧ matchTokens ts name ≠ matchTokens (literalTokens pattern) name := by
  by_cases hlets : ∃ name, d ∈ name ∧ matchTokens ts name = true
  · obtain ⟨some', hd, hglob⟩ := hlets
    obtain ⟨name, hin, hname, hmissed⟩ := h.exists_missed hstar hany hopen hclose hne hd hglob
    exact ⟨name, hin, by rw [hname, hmissed]; nofun⟩
  · -- the glob lets no such text through, so the literal reading does
    have hsource : d ∈ pattern ∨ '*' ∈ pattern := by
      by_contra hno
      rw [not_or] at hno
      refine hbarren ⟨hno.1, hno.2, ?_⟩
      by_cases hsat : ∀ t ∈ ts, t ≠ .star → ∃ c, t.accepts c = true
      · refine Or.inr fun t ht => Bool.eq_false_iff.mpr fun htd => hlets ?_
        obtain ⟨name, hin, hname, -⟩ := h.missed_of_accepted hany hne hsat ⟨t, ht, htd⟩
        exact ⟨name, hin, hname⟩
      · push Not at hsat
        obtain ⟨t, ht, -, hempty⟩ := hsat
        exact Or.inl ⟨t, ht, by simpa using hempty⟩
    obtain ⟨name, hd, hname⟩ := exists_literal hstar hsource
    exact ⟨name, hd, fun heq => hlets ⟨name, hd, heq.trans hname⟩⟩

end Reads

end Py
