/-
  ToolGateway.Keyset

  Paging through a set that changes.  A page holds the first elements past a
  cursor, in an order that does not change; the next cursor is the last element
  of a full page, and a page that is not full is the last one.  Whatever appears,
  disappears or moves out of view between two requests, the pages together are
  in order, and an element that is in view at every request is on one of them.
-/

import Mathlib.Data.List.Basic

namespace Keyset

variable {α : Type} {before : α → α → Prop}

/-- Past the cursor; there is none at first. -/
def Past (before : α → α → Prop) (cursor : Option α) (a : α) : Prop := ∀ c ∈ cursor, before c a

/-- The first `limit` of the elements in view past the cursor. -/
structure IsPage (before : α → α → Prop) (view : α → Prop) (limit : ℕ) (cursor : Option α)
    (page : List α) : Prop where
  sorted : page.Pairwise before
  inView : ∀ a ∈ page, view a
  past : ∀ a ∈ page, Past before cursor a
  /-- what is left out comes after a full page -/
  rest : ∀ a, view a → Past before cursor a → a ∉ page →
    page.length = limit ∧ ∀ b ∈ page, before b a

/-- The start of a sorted list of what is in view past the cursor is a page. -/
theorem IsPage.take {view : α → Prop} {cursor : Option α} {l : List α} (limit : ℕ)
    (hsorted : l.Pairwise before) (hmem : ∀ a, a ∈ l ↔ view a ∧ Past before cursor a) :
    IsPage before view limit cursor (l.take limit) := by
  have hin : ∀ a ∈ l.take limit, view a ∧ Past before cursor a := fun a ha =>
    (hmem a).mp (List.mem_of_mem_take ha)
  refine ⟨hsorted.sublist (List.take_sublist limit l), fun a ha => (hin a ha).1,
    fun a ha => (hin a ha).2, fun a hshown hpast hnot => ?_⟩
  have ha : a ∈ l := (hmem a).mpr ⟨hshown, hpast⟩
  rw [← List.take_append_drop limit l] at ha hsorted
  have hdrop : a ∈ l.drop limit := (List.mem_append.mp ha).resolve_left hnot
  have hlong : limit < l.length := by
    by_contra hshort
    rw [List.drop_eq_nil_of_le (Nat.le_of_not_lt hshort)] at hdrop
    cases hdrop
  refine ⟨?_, fun b hb => (List.pairwise_append.mp hsorted).2.2 b hb a hdrop⟩
  rw [List.length_take]
  omega

/-- Only the order of the elements that are there matters. -/
theorem IsPage.congr {before' : α → α → Prop} {view known : α → Prop} {limit : ℕ}
    {cursor : Option α} {page : List α} (h : IsPage before view limit cursor page)
    (hview : ∀ a, view a → known a) (hcursor : ∀ c ∈ cursor, known c)
    (hsame : ∀ a b, known a → known b → (before a b ↔ before' a b)) :
    IsPage before' view limit cursor page := by
  have hknown : ∀ a ∈ page, known a := fun a ha => hview a (h.inView a ha)
  have hpast : ∀ a, known a → (Past before cursor a ↔ Past before' cursor a) := fun a ha =>
    forall₂_congr fun c hc => hsame c a (hcursor c hc) ha
  refine ⟨?_, h.inView, fun a ha => (hpast a (hknown a ha)).mp (h.past a ha), ?_⟩
  · exact h.sorted.imp_of_mem fun ha hb hab => (hsame _ _ (hknown _ ha) (hknown _ hb)).mp hab
  · intro a ha hafter hnot
    obtain ⟨hfull, hall⟩ := h.rest a ha ((hpast a (hview a ha)).mpr hafter) hnot
    exact ⟨hfull, fun b hb => (hsame b a (hknown b hb) (hview a ha)).mp (hall b hb)⟩

/-- Requests one after another, each with what is in view at it and the page it
    gets; they end with a page that is not full. -/
inductive Follows (before : α → α → Prop) (limit : ℕ) :
    Option α → List ((α → Prop) × List α) → Bool → Prop where
  | last {cursor : Option α} {view : α → Prop} {page : List α}
      (isPage : IsPage before view limit cursor page) (short : page.length ≠ limit) :
      Follows before limit cursor [(view, page)] true
  | stopped {cursor : Option α} {view : α → Prop} {page : List α}
      (isPage : IsPage before view limit cursor page) :
      Follows before limit cursor [(view, page)] false
  | next {cursor : Option α} {view : α → Prop} {page : List α} {c : α}
      {more : List ((α → Prop) × List α)} {ended : Bool}
      (isPage : IsPage before view limit cursor page) (full : page.length = limit)
      (getLast : page.getLast? = some c) (follows : Follows before limit (some c) more ended) :
      Follows before limit cursor ((view, page) :: more) ended

namespace Follows

variable {limit : ℕ} {cursor : Option α} {requests : List ((α → Prop) × List α)} {ended : Bool}

/-- Nothing of a page comes after its last element. -/
theorem before_of_getLast {page : List α} (hsorted : page.Pairwise before) {c : α}
    (hlast : page.getLast? = some c) : ∀ b ∈ page, b = c ∨ before b c := by
  obtain ⟨front, rfl⟩ := List.getLast?_eq_some_iff.mp hlast
  intro b hb
  rcases List.mem_append.mp hb with hfront | hc
  · exact Or.inr ((List.pairwise_append.mp hsorted).2.2 b hfront c (List.mem_singleton_self c))
  · exact Or.inl (List.mem_singleton.mp hc)

/-- The pages together are in order and past the first cursor. -/
theorem sorted (htrans : ∀ a b c, before a b → before b c → before a c)
    (h : Follows before limit cursor requests ended) :
    (requests.flatMap Prod.snd).Pairwise before ∧
      ∀ a ∈ requests.flatMap Prod.snd, Past before cursor a := by
  induction h with
  | last isPage short => simpa using ⟨isPage.sorted, isPage.past⟩
  | stopped isPage => simpa using ⟨isPage.sorted, isPage.past⟩
  | @next cursor view page c more ended isPage full getLast follows ih =>
      obtain ⟨hsorted, hpast⟩ := ih
      have hlast := before_of_getLast isPage.sorted getLast
      have hc : c ∈ page := List.mem_of_getLast? getLast
      rw [List.flatMap_cons]
      refine ⟨List.pairwise_append.mpr ⟨isPage.sorted, hsorted, fun b hb a ha => ?_⟩, fun a ha => ?_⟩
      · have hca : before c a := hpast a ha c rfl
        rcases hlast b hb with rfl | hbc
        · exact hca
        · exact htrans b c a hbc hca
      · rcases List.mem_append.mp ha with hpage | hmore
        · exact isPage.past a hpage
        · exact fun d hd => htrans d c a (isPage.past c hc d hd) (hpast a hmore c rfl)

/-- An element in view at every request is on one of the pages, once they have
    come to an end. -/
theorem complete (h : Follows before limit cursor requests ended) (hended : ended = true) {a : α}
    (hshown : ∀ r ∈ requests, r.1 a) (hpast : Past before cursor a) :
    a ∈ requests.flatMap Prod.snd := by
  induction h with
  | @last cursor view page isPage short =>
      by_contra hnot
      have hout : a ∉ page := by simpa using hnot
      have hview : view a := hshown (view, page) List.mem_cons_self
      exact short (isPage.rest a hview hpast hout).1
  | stopped isPage => cases hended
  | @next cursor view page c more ended isPage full getLast follows ih =>
      rw [List.flatMap_cons]
      by_cases hpage : a ∈ page
      · exact List.mem_append_left _ hpage
      · have hview : view a := hshown (view, page) List.mem_cons_self
        have hafter := (isPage.rest a hview hpast hpage).2 c (List.mem_of_getLast? getLast)
        refine List.mem_append_right _ (ih hended (fun r hr => ?_) fun d hd => ?_)
        · exact hshown r (List.mem_cons_of_mem _ hr)
        · rw [← Option.some.inj hd]
          exact hafter

end Follows

end Keyset
