/-
  ToolGateway.Tickets.Paging

  The approval queue page by page.  Between two requests tickets are filed and
  decided; the pages together list no ticket twice, oldest first, and leave out
  none that waits all the time.  The order of the memory store is that of its
  dict, the order of the SQL store is `(created_at, id)`; neither changes for
  tickets that are there, and no ticket ever goes away.
-/

import ToolGateway.Keyset
import ToolGateway.Tickets.Queue

namespace ToolGateway

open Py

/-- A store whose queue has an order. -/
class OrderedQueue (σ : Type) [TicketStore σ] [TicketQueue σ] where
  known : σ → TicketId → Prop
  /-- the first ticket comes before the second one in the queue -/
  older : σ → TicketId → TicketId → Prop
  /-- the ticket waits for a verdict and the filters let it through -/
  waiting : σ → QueueFilter → TicketId → Prop
  older_known : ∀ s t t', older s t t' → known s t ∧ known s t'
  older_irrefl : ∀ s t, ¬ older s t t
  older_trans : ∀ s a b c, older s a b → older s b c → older s a c
  waiting_known : ∀ s filter t, waiting s filter t → known s t
  pending_isPage : ∀ s (q : PageQuery), 1 ≤ q.limit → (∀ c ∈ q.after, known s c) →
    Keyset.IsPage (older s) (waiting s q.filter) q.limit q.after
      ((TicketQueue.pending s q).map Prod.fst)
  /-- an operation keeps every ticket, and the order of those there -/
  perform_known : ∀ s now op t, known s t → known (TicketOp.perform s now op).2 t
  perform_older : ∀ s now op t t', known s t → known s t' →
    (older (TicketOp.perform s now op).2 t t' ↔ older s t t')

-- ============================================================================
-- The memory store
-- ============================================================================

namespace MemoryTicketStore

/-- The ids in the order of the dict. -/
def ids (s : MemoryTicketStore) : List TicketId := s.tickets.items.map Prod.fst

theorem nodup_ids (s : MemoryTicketStore) : s.ids.Nodup := s.tickets.nodup_items

/-- The id has a ticket. -/
def known (s : MemoryTicketStore) (t : TicketId) : Prop := t ∈ s.ids

/-- It stands earlier in the dict. -/
def older (s : MemoryTicketStore) (t t' : TicketId) : Prop :=
  s.ids.idxOf t < s.ids.idxOf t' ∧ t' ∈ s.ids

/-- The ticket is one the filter wants. -/
def waiting (s : MemoryTicketStore) (filter : QueueFilter) (t : TicketId) : Prop :=
  ∃ ticket, s.tickets.lookup t = some ticket ∧ wanted filter ticket = true

/-- The items past a cursor. -/
def itemsAfter (after : Option TicketId) (items : Dict Ticket) : Dict Ticket :=
  match after with
  | none => items
  | some c => (items.dropWhile fun e => e.1 ≠ c).tail

theorem scan_started (q : PageQuery) (page items : Dict Ticket) (hpage : page.length < q.limit) :
    scan q true page items
      = page ++ (items.filter fun e => wanted q.filter e.2).take (q.limit - page.length) := by
  induction items generalizing page with
  | nil => simp [scan]
  | cons e items ih =>
      obtain ⟨t, ticket⟩ := e
      unfold scan
      by_cases hw : wanted q.filter ticket = true
      · have hkeep : ((t, ticket) :: items).filter (fun e => wanted q.filter e.2)
            = (t, ticket) :: items.filter fun e => wanted q.filter e.2 := by simp [hw]
        have hlen : (page ++ [(t, ticket)]).length = page.length + 1 := by simp
        have hroom : q.limit - page.length = q.limit - (page.length + 1) + 1 := by omega
        rw [if_pos hw, hkeep, hroom, List.take_succ_cons]
        show (if (page ++ [(t, ticket)]).length = q.limit then _ else _) = _
        rw [hlen]
        split
        · next hfull =>
            rw [hfull, Nat.sub_self, List.take_zero]
        · next hmore =>
            rw [ih _ (by omega), hlen, List.append_assoc, List.singleton_append]
      · have hskip : ((t, ticket) :: items).filter (fun e => wanted q.filter e.2)
            = items.filter fun e => wanted q.filter e.2 := by simp [hw]
        rw [if_neg hw, hskip]
        exact ih page hpage

theorem scan_waiting (q : PageQuery) {c : TicketId} (hc : q.after = some c) (page items : Dict Ticket) :
    scan q false page items = scan q true page (itemsAfter q.after items) := by
  rw [hc, itemsAfter]
  induction items with
  | nil => simp [scan]
  | cons e items ih =>
      obtain ⟨t, ticket⟩ := e
      rw [scan, hc]
      by_cases ht : t = c
      · rw [List.dropWhile_cons_of_neg (by simpa using ht)]
        simp [ht]
      · have hfalse : Decidable.decide (some t = some c) = false := by simpa using ht
        rw [List.dropWhile_cons_of_pos (by simpa using ht), hfalse]
        exact ih

/-- A page is the start of what the filters let through past the cursor. -/
theorem pending_eq (s : MemoryTicketStore) (q : PageQuery) (hlimit : 1 ≤ q.limit) :
    s.pending q = ((itemsAfter q.after s.tickets.items).filter
      fun e => wanted q.filter e.2).take q.limit := by
  have hstart : ∀ items, scan q true [] items
      = (items.filter fun e => wanted q.filter e.2).take q.limit := fun items => by
    rw [scan_started q [] items hlimit]
    rfl
  unfold pending
  cases hafter : q.after with
  | none => exact hstart _
  | some c =>
      rw [← hafter, show q.after.isNone = false by rw [hafter]; rfl, scan_waiting q hafter]
      exact hstart _

theorem itemsAfter_sublist (after : Option TicketId) (items : Dict Ticket) :
    (itemsAfter after items).Sublist items := by
  cases after with
  | none => exact List.Sublist.refl items
  | some c => exact (List.tail_sublist _).trans (List.dropWhile_sublist _)

theorem itemsAfter_cons_self {f : TicketId × Ticket} {c : TicketId} (h : f.1 = c)
    (items : Dict Ticket) : itemsAfter (some c) (f :: items) = items := by
  simp [itemsAfter, h]

theorem itemsAfter_cons_of_ne {f : TicketId × Ticket} {c : TicketId} (h : f.1 ≠ c)
    (items : Dict Ticket) : itemsAfter (some c) (f :: items) = itemsAfter (some c) items := by
  simp [itemsAfter, h]

/-- Past a known cursor stand the items that come later. -/
theorem mem_itemsAfter {items : Dict Ticket} (hnodup : (items.map Prod.fst).Nodup) {c : TicketId}
    (hc : c ∈ items.map Prod.fst) (e : TicketId × Ticket) :
    e ∈ itemsAfter (some c) items ↔
      e ∈ items ∧ (items.map Prod.fst).idxOf c < (items.map Prod.fst).idxOf e.1 := by
  induction items with
  | nil => cases hc
  | cons f items ih =>
      rw [List.map_cons, List.nodup_cons] at hnodup
      have hlater : e ∈ items → f.1 ≠ e.1 := fun he heq =>
        hnodup.1 (heq ▸ List.mem_map_of_mem he)
      rw [List.map_cons]
      by_cases hf : f.1 = c
      · rw [itemsAfter_cons_self hf, hf, List.idxOf_cons_self]
        refine ⟨fun he => ⟨List.mem_cons_of_mem f he, ?_⟩, fun ⟨he, hpos⟩ => ?_⟩
        · rw [List.idxOf_cons_ne _ (hf ▸ hlater he)]
          omega
        · rcases List.mem_cons.mp he with rfl | hin
          · rw [hf, List.idxOf_cons_self] at hpos
            omega
          · exact hin
      · have hc' : c ∈ items.map Prod.fst := by
          rw [List.map_cons] at hc
          exact (List.mem_cons.mp hc).resolve_left (Ne.symm hf)
        rw [itemsAfter_cons_of_ne hf, ih hnodup.2 hc', List.idxOf_cons_ne _ hf]
        refine ⟨fun ⟨he, hlt⟩ => ⟨List.mem_cons_of_mem f he, ?_⟩, fun ⟨he, hlt⟩ => ?_⟩
        · rw [List.idxOf_cons_ne _ (hlater he)]
          omega
        · rcases List.mem_cons.mp he with rfl | hin
          · rw [List.idxOf_cons_self] at hlt
            omega
          · rw [List.idxOf_cons_ne _ (hlater hin)] at hlt
            exact ⟨hin, by omega⟩

theorem ids_sorted (s : MemoryTicketStore) : s.ids.Pairwise s.older := by
  rw [List.pairwise_iff_getElem]
  intro i j hi hj hij
  refine ⟨?_, List.getElem_mem hj⟩
  rw [s.nodup_ids.idxOf_getElem i hi, s.nodup_ids.idxOf_getElem j hj]
  exact hij

theorem mem_page_iff (s : MemoryTicketStore) (q : PageQuery) (hc : ∀ c ∈ q.after, s.known c)
    (t : TicketId) :
    t ∈ ((itemsAfter q.after s.tickets.items).filter fun e => wanted q.filter e.2).map Prod.fst ↔
      s.waiting q.filter t ∧ Keyset.Past s.older q.after t := by
  have hitems : ∀ e : TicketId × Ticket, e ∈ itemsAfter q.after s.tickets.items ↔
      e ∈ s.tickets.items ∧ Keyset.Past s.older q.after e.1 := by
    intro e
    cases hafter : q.after with
    | none => simp [itemsAfter, Keyset.Past]
    | some c =>
        rw [mem_itemsAfter s.nodup_ids (hc c hafter)]
        refine and_congr_right fun he => ⟨fun hlt d hd => ?_, fun hpast => (hpast c rfl).1⟩
        rw [← Option.some.inj hd]
        exact ⟨hlt, List.mem_map_of_mem he⟩
  constructor
  · intro h
    obtain ⟨⟨t', ticket⟩, he, rfl⟩ := List.mem_map.mp h
    obtain ⟨hmem, hwanted⟩ := List.mem_filter.mp he
    obtain ⟨hin, hpast⟩ := (hitems _).mp hmem
    exact ⟨⟨ticket, (s.tickets.mem_items_iff t' ticket).mp hin, hwanted⟩, hpast⟩
  · rintro ⟨⟨ticket, hlookup, hwanted⟩, hpast⟩
    have hin := (s.tickets.mem_items_iff t ticket).mpr hlookup
    exact List.mem_map.mpr ⟨(t, ticket), List.mem_filter.mpr ⟨(hitems _).mpr ⟨hin, hpast⟩, hwanted⟩, rfl⟩

theorem pending_isPage (s : MemoryTicketStore) (q : PageQuery) (hlimit : 1 ≤ q.limit)
    (hc : ∀ c ∈ q.after, s.known c) :
    Keyset.IsPage s.older (s.waiting q.filter) q.limit q.after ((s.pending q).map Prod.fst) := by
  rw [s.pending_eq q hlimit, List.map_take]
  refine Keyset.IsPage.take q.limit ?_ (s.mem_page_iff q hc)
  exact s.ids_sorted.sublist ((List.filter_sublist.trans (itemsAfter_sublist _ _)).map Prod.fst)

theorem ids_withTicket (s : MemoryTicketStore) (t : TicketId) (ticket : Ticket) :
    s.ids <+: (s.withTicket t ticket).ids := by
  have hids : (s.withTicket t ticket).ids = if s.tickets.has t then s.ids else s.ids ++ [t] :=
    s.tickets.keys_items_set t ticket
  rw [hids]
  split
  · exact List.prefix_rfl
  · exact List.prefix_append _ _

/-- No operation moves or removes a ticket. -/
theorem ids_perform (s : MemoryTicketStore) (now : Time) (op : TicketOp) :
    s.ids <+: (op.perform s now).2.ids := by
  cases op with
  | create t call => exact s.ids_withTicket t _
  | get t => exact List.prefix_rfl
  | decide t d =>
      show s.ids <+: (s.decide t d).2.ids
      unfold decide
      split
      · exact List.prefix_rfl
      · split
        · exact List.prefix_rfl
        · exact s.ids_withTicket t _
  | claim t =>
      show s.ids <+: (s.claim t now).2.ids
      unfold claim
      split
      · exact List.prefix_rfl
      · split
        · exact List.prefix_rfl
        · exact List.prefix_rfl
  | closeStaleClaim t older result =>
      show s.ids <+: (s.closeStaleClaim t now older result).2.ids
      unfold closeStaleClaim
      split
      · split
        · exact List.prefix_rfl
        · split
          · exact List.prefix_rfl
          · exact s.ids_withTicket t _
      · exact List.prefix_rfl
  | complete t result =>
      simp only [TicketOp.perform, TicketStore.complete, complete]
      split
      · next s' h =>
          split at h
          · cases h
          · cases h
            exact s.ids_withTicket t _
      · exact List.prefix_rfl
  | pending q => exact List.prefix_rfl

instance : OrderedQueue MemoryTicketStore where
  known := known
  older := older
  waiting := waiting
  older_known s t t' h := by
    refine ⟨?_, h.2⟩
    have hlt : s.ids.idxOf t < s.ids.length := h.1.trans (List.idxOf_lt_length_iff.mpr h.2)
    exact List.idxOf_lt_length_iff.mp hlt
  older_irrefl s t h := Nat.lt_irrefl _ h.1
  older_trans s a b c h h' := ⟨h.1.trans h'.1, h'.2⟩
  waiting_known s filter t h := by
    obtain ⟨ticket, hlookup, -⟩ := h
    exact List.mem_map.mpr ⟨(t, ticket), (s.tickets.mem_items_iff t ticket).mpr hlookup, rfl⟩
  pending_isPage := pending_isPage
  perform_known s now op t h := (s.ids_perform now op).subset h
  perform_older s now op t t' h h' := by
    obtain ⟨new, hnew⟩ := s.ids_perform now op
    have hids : (op.perform s now).2.ids = s.ids ++ new := hnew.symm
    have ht : t ∈ s.ids := h
    have ht' : t' ∈ s.ids := h'
    simp only [older, hids, List.idxOf_append_of_mem ht, List.idxOf_append_of_mem ht',
      List.mem_append, ht', true_or]

end MemoryTicketStore

-- ============================================================================
-- The SQL store
-- ============================================================================

namespace SqlTicketStore

/-- The id has a row. -/
def known (s : SqlTicketStore) (t : TicketId) : Prop := (s.row? t).isSome

/-- No operation changes what a row is ordered by. -/
theorem row?_perform [SqlDialect] (s : SqlTicketStore) (now : Time) (op : TicketOp) {t : TicketId}
    {r : TicketRow} (h : s.row? t = some r) :
    ∃ r', (op.perform s now).2.row? t = some r' ∧ r'.createdAt = r.createdAt := by
  have hupdate : ∀ (t' : TicketId) (cond : TicketRow → Bool) (set : TicketRow → TicketRow)
      (set_id : ∀ r, (set r).id = r.id), (∀ r, (set r).createdAt = r.createdAt) →
      ∃ r', (s.updateWhere t' cond set set_id).2.row? t = some r' ∧ r'.createdAt = r.createdAt := by
    intro t' cond set set_id hset
    refine ⟨if r.id = t' && cond r then set r else r, by rw [row?_updateWhere, h]; rfl, ?_⟩
    split
    · exact hset r
    · rfl
  cases op with
  | create t' call =>
      by_cases htaken : t' ∈ s.rows.map TicketRow.id
      · refine ⟨r, ?_, rfl⟩
        simp only [TicketOp.perform, TicketStore.create, create, dif_pos htaken]
        exact h
      · refine ⟨r, ?_, rfl⟩
        simp only [TicketOp.perform, TicketStore.create, create, dif_neg htaken]
        have hfind : s.rows.find? (·.id = t) = some r := h
        simp [row?, List.find?_append, hfind]
  | get t' => exact ⟨r, h, rfl⟩
  | decide t' d => exact hupdate t' _ (.setDecision d) (fun _ => rfl) fun _ => rfl
  | claim t' => exact hupdate t' _ (.setClaimed now) (fun _ => rfl) fun _ => rfl
  | closeStaleClaim t' older result => exact hupdate t' _ (.setResult result) (fun _ => rfl) fun _ => rfl
  | complete t' result => exact hupdate t' _ (.setResult result) (fun _ => rfl) fun _ => rfl
  | pending q => exact ⟨r, h, rfl⟩

section
variable [SqlDialect]

/-- The row comes first in the order of the queue. -/
def before (r r' : TicketRow) : Prop :=
  r.createdAt < r'.createdAt ∨ (r.createdAt = r'.createdAt ∧ SqlDialect.le r'.id r.id = false)

/-- The row of the one comes before that of the other. -/
def older (s : SqlTicketStore) (t t' : TicketId) : Prop :=
  ∃ r r', s.row? t = some r ∧ s.row? t' = some r' ∧ before r r'

/-- The row is one the filter wants. -/
def waiting (s : SqlTicketStore) (filter : QueueFilter) (t : TicketId) : Prop :=
  ∃ r, s.row? t = some r ∧ wanted filter r = true

theorem not_le_trans {a b c : String} (h : SqlDialect.le b a = false) (h' : SqlDialect.le c b = false) :
    SqlDialect.le c a = false := by
  by_contra hca
  have hca' : SqlDialect.le c a = true := by simpa using hca
  have hab : SqlDialect.le a b = true := (SqlDialect.le_total a b).resolve_right (by simp [h])
  have hcb := SqlDialect.le_trans c a b hca' hab
  rw [hcb] at h'
  cases h'

theorem before_irrefl (r : TicketRow) : ¬ before r r := by
  rintro (hlt | ⟨-, hle⟩)
  · exact lt_irrefl _ hlt
  · have hself : SqlDialect.le r.id r.id = true := or_self_iff.mp (SqlDialect.le_total r.id r.id)
    rw [hself] at hle
    cases hle

theorem before_trans {r₁ r₂ r₃ : TicketRow} (h : before r₁ r₂) (h' : before r₂ r₃) : before r₁ r₃ := by
  rcases h with hlt | ⟨heq, hle⟩
  · rcases h' with hlt' | ⟨heq', -⟩
    · exact Or.inl (hlt.trans hlt')
    · exact Or.inl (heq' ▸ hlt)
  · rcases h' with hlt' | ⟨heq', hle'⟩
    · exact Or.inl (heq ▸ hlt')
    · exact Or.inr ⟨heq.trans heq', not_le_trans hle hle'⟩

/-- Rows with different ids are sorted strictly. -/
theorem before_of_ordered {r r' : TicketRow} (h : orderedBefore r r' = true) (hid : r.id ≠ r'.id) :
    before r r' := by
  simp only [orderedBefore, Bool.or_eq_true, Bool.and_eq_true, decide_eq_true_eq] at h
  refine h.imp id fun ⟨heq, hle⟩ => ⟨heq, ?_⟩
  by_contra hback
  exact hid (SqlDialect.le_antisymm _ _ hle (by simpa using hback))

theorem pastCursor_iff (cursor r : TicketRow) :
    pastCursor cursor.createdAt cursor.id r = true ↔ before cursor r := by
  simp only [pastCursor, before, Bool.or_eq_true, Bool.and_eq_true, decide_eq_true_eq,
    Bool.not_eq_true', @eq_comm _ r.createdAt]

theorem orderedBefore_total (r r' : TicketRow) :
    orderedBefore r r' = true ∨ orderedBefore r' r = true := by
  simp only [orderedBefore, Bool.or_eq_true, Bool.and_eq_true, decide_eq_true_eq]
  rcases lt_trichotomy r.createdAt r'.createdAt with hlt | heq | hgt
  · exact Or.inl (Or.inl hlt)
  · exact (SqlDialect.le_total r.id r'.id).imp (fun hle => Or.inr ⟨heq, hle⟩)
      fun hle => Or.inr ⟨heq.symm, hle⟩
  · exact Or.inr (Or.inl hgt)

theorem orderedBefore_trans (r₁ r₂ r₃ : TicketRow) (h : orderedBefore r₁ r₂ = true)
    (h' : orderedBefore r₂ r₃ = true) : orderedBefore r₁ r₃ = true := by
  simp only [orderedBefore, Bool.or_eq_true, Bool.and_eq_true, decide_eq_true_eq] at h h' ⊢
  rcases h with hlt | ⟨heq, hle⟩
  · rcases h' with hlt' | ⟨heq', -⟩
    · exact Or.inl (hlt.trans hlt')
    · exact Or.inl (heq' ▸ hlt)
  · rcases h' with hlt' | ⟨heq', hle'⟩
    · exact Or.inl (heq ▸ hlt')
    · exact Or.inr ⟨heq.trans heq', SqlDialect.le_trans _ _ _ hle hle'⟩

theorem select_sorted (s : SqlTicketStore) (cond : TicketRow → Bool) :
    ((s.select cond).map TicketRow.id).Pairwise s.older := by
  have : Std.Total fun r r' : TicketRow => orderedBefore r r' = true := ⟨orderedBefore_total⟩
  have : IsTrans TicketRow fun r r' => orderedBefore r r' = true := ⟨orderedBefore_trans⟩
  have hsorted : (s.select cond).Pairwise fun r r' => orderedBefore r r' = true :=
    List.pairwise_insertionSort _ _
  have hperm : (s.select cond).Perm (s.rows.filter cond) := List.perm_insertionSort _ _
  have hids : ((s.select cond).map TicketRow.id).Nodup :=
    (hperm.map TicketRow.id).nodup_iff.mpr
      (s.ids_nodup.sublist (List.filter_sublist.map TicketRow.id))
  have hrow : ∀ r ∈ s.select cond, s.row? r.id = some r := fun r hr =>
    row?_of_mem (List.mem_filter.mp (hperm.mem_iff.mp hr)).1
  rw [List.pairwise_map]
  refine ((hsorted.and (List.pairwise_map.mp hids)).imp_of_mem ?_)
  intro r r' hr hr' h
  exact ⟨r, r', hrow r hr, hrow r' hr', before_of_ordered h.1 h.2⟩

theorem mem_select_iff (s : SqlTicketStore) (cond : TicketRow → Bool) (t : TicketId) :
    t ∈ (s.select cond).map TicketRow.id ↔ ∃ r, s.row? t = some r ∧ cond r = true := by
  have hperm : (s.select cond).Perm (s.rows.filter cond) := List.perm_insertionSort _ _
  rw [List.mem_map]
  constructor
  · rintro ⟨r, hr, rfl⟩
    obtain ⟨hmem, hcond⟩ := List.mem_filter.mp (hperm.mem_iff.mp hr)
    exact ⟨r, row?_of_mem hmem, hcond⟩
  · rintro ⟨r, hr, hcond⟩
    exact ⟨r, hperm.mem_iff.mpr (List.mem_filter.mpr ⟨mem_of_row? hr, hcond⟩), row?_id hr⟩

theorem pending_isPage (s : SqlTicketStore) (q : PageQuery) (hc : ∀ c ∈ q.after, s.known c) :
    Keyset.IsPage s.older (s.waiting q.filter) q.limit q.after ((s.pending q).map Prod.fst) := by
  have hpage : ∀ cond, (((s.select cond).take q.limit).map listedTicket).map Prod.fst
      = ((s.select cond).map TicketRow.id).take q.limit := fun cond => by
    rw [List.map_map, ← List.map_take]
    rfl
  cases hafter : q.after with
  | none =>
      have hpending : s.pending q
          = ((s.select (wanted q.filter)).take q.limit).map listedTicket := by
        rw [pending, hafter]
      rw [hpending, hpage]
      refine Keyset.IsPage.take q.limit (s.select_sorted _) fun t => ?_
      rw [mem_select_iff]
      simp [waiting, Keyset.Past]
  | some c =>
      obtain ⟨cursor, hcursor⟩ := Option.isSome_iff_exists.mp (hc c hafter)
      have hpending : s.pending q = ((s.select fun r =>
          wanted q.filter r && pastCursor cursor.createdAt c r).take q.limit).map listedTicket := by
        rw [pending, hafter]
        simp only [hcursor]
      rw [hpending, hpage]
      refine Keyset.IsPage.take q.limit (s.select_sorted _) fun t => ?_
      rw [mem_select_iff, ← row?_id hcursor]
      simp only [Bool.and_eq_true, pastCursor_iff]
      constructor
      · rintro ⟨r, hr, hwanted, hpast⟩
        refine ⟨⟨r, hr, hwanted⟩, fun d hd => ?_⟩
        rw [← Option.some.inj hd, row?_id hcursor]
        exact ⟨cursor, r, hcursor, hr, hpast⟩
      · rintro ⟨⟨r, hr, hwanted⟩, hpast⟩
        obtain ⟨r₁, r₂, hr₁, hr₂, hbefore⟩ := hpast cursor.id rfl
        rw [row?_id hcursor, hcursor] at hr₁
        rw [hr] at hr₂
        exact ⟨r, hr, hwanted, Option.some.inj hr₁ ▸ Option.some.inj hr₂ ▸ hbefore⟩

instance : OrderedQueue SqlTicketStore where
  known := known
  older := older
  waiting := waiting
  older_known s t t' h := by
    obtain ⟨r, r', hr, hr', -⟩ := h
    exact ⟨Option.isSome_of_eq_some hr, Option.isSome_of_eq_some hr'⟩
  older_irrefl s t h := by
    obtain ⟨r, r', hr, hr', hbefore⟩ := h
    rw [hr] at hr'
    exact before_irrefl r (Option.some.inj hr' ▸ hbefore)
  older_trans s a b c h h' := by
    obtain ⟨r₁, r₂, hr₁, hr₂, hbefore⟩ := h
    obtain ⟨r₂', r₃, hr₂', hr₃, hbefore'⟩ := h'
    rw [hr₂] at hr₂'
    exact ⟨r₁, r₃, hr₁, hr₃, before_trans hbefore (Option.some.inj hr₂' ▸ hbefore')⟩
  waiting_known s filter t h := by
    obtain ⟨r, hr, -⟩ := h
    exact Option.isSome_of_eq_some hr
  pending_isPage s q _ hc := s.pending_isPage q hc
  perform_known s now op t h := by
    obtain ⟨r, hr⟩ := Option.isSome_iff_exists.mp h
    obtain ⟨r', hr', -⟩ := s.row?_perform now op hr
    exact Option.isSome_of_eq_some hr'
  perform_older s now op t t' h h' := by
    obtain ⟨r, hr⟩ := Option.isSome_iff_exists.mp h
    obtain ⟨r', hr'⟩ := Option.isSome_iff_exists.mp h'
    obtain ⟨u, hu, hcreated⟩ := s.row?_perform now op hr
    obtain ⟨u', hu', hcreated'⟩ := s.row?_perform now op hr'
    have hsame : before u u' ↔ before r r' := by
      simp only [before, hcreated, hcreated', row?_id hu, row?_id hu', row?_id hr, row?_id hr']
    simp [older, hr, hr', hu, hu', hsame]

end

end SqlTicketStore

-- ============================================================================
-- Following the cursor
-- ============================================================================

section
variable {σ : Type} [TicketStore σ] [TicketQueue σ]

/-- The requests of an operator who follows `next`, each with the store it finds
    and the page it gets; between two of them the store goes through other
    operations. -/
def browse (s : σ) (limit : ℤ) (filter : QueueFilter) (after : Option TicketId) :
    List (List (Time × TicketOp)) → List (σ × QueuePage)
  | [] => [(s, TicketController.pending s limit after filter)]
  | ops :: churn =>
      let page := TicketController.pending s limit after filter
      match page.next with
      | none => [(s, page)]
      | some c => (s, page) :: browse (performAll s ops) limit filter (some c) churn

/-- The last page has no `next`. -/
def ended (requests : List (σ × QueuePage)) : Bool :=
  requests.getLast?.any fun r => r.2.next.isNone

/-- The tickets on the pages. -/
def QueuePage.ids (page : QueuePage) : List TicketId := page.items.map QueueItem.ticketId

/-- All ids that were listed. -/
def collected (requests : List (σ × QueuePage)) : List TicketId :=
  requests.flatMap fun r => r.2.ids

/-- Paging without loss or repetition. -/
structure PagesOnce [OrderedQueue σ] (filter : QueueFilter) (requests : List (σ × QueuePage)) :
    Prop where
  nodup : (collected requests).Nodup
  /-- as the store has them at the last request -/
  oldestFirst : ∀ r ∈ requests.getLast?, (collected requests).Pairwise (OrderedQueue.older r.1)
  complete : ended requests = true → ∀ t,
    (∀ r ∈ requests, OrderedQueue.waiting r.1 filter t) → t ∈ collected requests

theorem browse_last {s : σ} {limit : ℤ} {filter : QueueFilter} {after : Option TicketId}
    (h : (TicketController.pending s limit after filter).next = none)
    (churn : List (List (Time × TicketOp))) :
    browse s limit filter after churn = [(s, TicketController.pending s limit after filter)] := by
  cases churn with
  | nil => rfl
  | cons ops churn => simp only [browse, h]

theorem browse_next {s : σ} {limit : ℤ} {filter : QueueFilter} {after : Option TicketId}
    {c : TicketId} (h : (TicketController.pending s limit after filter).next = some c)
    (ops : List (Time × TicketOp)) (churn : List (List (Time × TicketOp))) :
    browse s limit filter after (ops :: churn)
      = (s, TicketController.pending s limit after filter)
        :: browse (performAll s ops) limit filter (some c) churn := by
  simp only [browse, h]

theorem browse_ne_nil (s : σ) (limit : ℤ) (filter : QueueFilter) (after : Option TicketId)
    (churn : List (List (Time × TicketOp))) : browse s limit filter after churn ≠ [] := by
  cases churn with
  | nil => exact List.cons_ne_nil _ _
  | cons ops churn =>
      cases h : (TicketController.pending s limit after filter).next with
      | none =>
          rw [browse_last h]
          exact List.cons_ne_nil _ _
      | some c =>
          rw [browse_next h]
          exact List.cons_ne_nil _ _

variable [OrderedQueue σ]

/-- A later store: it has the tickets of the earlier one, in the same order. -/
structure Extends (s s' : σ) : Prop where
  known : ∀ t, OrderedQueue.known s t → OrderedQueue.known s' t
  older : ∀ t t', OrderedQueue.known s t → OrderedQueue.known s t' →
    (OrderedQueue.older s t t' ↔ OrderedQueue.older s' t t')

theorem Extends.refl (s : σ) : Extends s s := ⟨fun _ h => h, fun _ _ _ _ => Iff.rfl⟩

theorem Extends.trans {s₁ s₂ s₃ : σ} (h : Extends s₁ s₂) (h' : Extends s₂ s₃) : Extends s₁ s₃ where
  known t ht := h'.known t (h.known t ht)
  older t t' ht ht' := (h.older t t' ht ht').trans (h'.older t t' (h.known t ht) (h.known t' ht'))

theorem performAll_extends (s : σ) (ops : List (Time × TicketOp)) : Extends s (performAll s ops) := by
  induction ops generalizing s with
  | nil => exact Extends.refl s
  | cons op ops ih =>
      have hstep : Extends s (op.2.perform s op.1).2 :=
        ⟨OrderedQueue.perform_known s op.1 op.2,
          fun t t' ht ht' => (OrderedQueue.perform_older s op.1 op.2 t t' ht ht').symm⟩
      exact hstep.trans (ih _)

theorem browse_extends (s : σ) (limit : ℤ) (filter : QueueFilter) (after : Option TicketId)
    (churn : List (List (Time × TicketOp))) : ∀ r ∈ browse s limit filter after churn, Extends s r.1 := by
  induction churn generalizing s after with
  | nil =>
      intro r hr
      rw [List.mem_singleton.mp hr]
      exact Extends.refl s
  | cons ops churn ih =>
      intro r hr
      cases hnext : (TicketController.pending s limit after filter).next with
      | none =>
          rw [browse_last hnext] at hr
          rw [List.mem_singleton.mp hr]
          exact Extends.refl s
      | some c =>
          rw [browse_next hnext] at hr
          rcases List.mem_cons.mp hr with rfl | hmore
          · exact Extends.refl s
          · exact (performAll_extends s ops).trans (ih _ _ r hmore)

omit [TicketStore σ] [OrderedQueue σ] in
theorem pending_ids (s : σ) (limit : ℤ) (after : Option TicketId) (filter : QueueFilter) :
    (TicketController.pending s limit after filter).ids
      = (TicketQueue.pending s ⟨pageLimit limit, after, filter⟩).map Prod.fst := by
  simp only [TicketController.pending, QueuePage.ids, List.map_map]
  rfl

theorem one_le_pageLimit (limit : ℤ) : 1 ≤ pageLimit limit := by
  unfold pageLimit
  omega

omit [TicketStore σ] [OrderedQueue σ] in
/-- A page that is not full has no `next`. -/
theorem short_of_next {s : σ} {limit : ℤ} {after : Option TicketId} {filter : QueueFilter}
    (h : (TicketController.pending s limit after filter).next = none) :
    (TicketController.pending s limit after filter).ids.length ≠ pageLimit limit := by
  intro hlen
  have hpos := one_le_pageLimit limit
  rw [QueuePage.ids, List.length_map] at hlen
  have hlast : (TicketController.pending s limit after filter).items.getLast? = none := by
    have hnext : (TicketController.pending s limit after filter).next
        = (TicketController.pending s limit after filter).items.getLast?.map QueueItem.ticketId :=
      if_pos hlen
    rw [hnext] at h
    exact Option.map_eq_none_iff.mp h
  rw [List.getLast?_eq_none_iff.mp hlast] at hlen
  simp only [List.length_nil] at hlen
  omega

omit [TicketStore σ] [OrderedQueue σ] in
/-- `next` is the last ticket of a full page. -/
theorem full_of_next {s : σ} {limit : ℤ} {after : Option TicketId} {filter : QueueFilter}
    {c : TicketId} (h : (TicketController.pending s limit after filter).next = some c) :
    (TicketController.pending s limit after filter).ids.length = pageLimit limit ∧
      (TicketController.pending s limit after filter).ids.getLast? = some c := by
  by_cases hlen : (TicketController.pending s limit after filter).items.length = pageLimit limit
  · have hnext : (TicketController.pending s limit after filter).next
        = (TicketController.pending s limit after filter).items.getLast?.map QueueItem.ticketId :=
      if_pos hlen
    rw [QueuePage.ids, List.length_map, List.getLast?_map, ← hnext]
    exact ⟨hlen, h⟩
  · have hnext : (TicketController.pending s limit after filter).next = none := if_neg hlen
    rw [hnext] at h
    cases h

/-- One request gets a page in the order of any later store. -/
theorem pending_isPage {s s' : σ} (hext : Extends s s') (limit : ℤ) {after : Option TicketId}
    (filter : QueueFilter) (hafter : ∀ c ∈ after, OrderedQueue.known s c) :
    Keyset.IsPage (OrderedQueue.older s') (OrderedQueue.waiting s filter) (pageLimit limit) after
      (TicketController.pending s limit after filter).ids := by
  rw [pending_ids]
  have hpage := OrderedQueue.pending_isPage s ⟨pageLimit limit, after, filter⟩
    (one_le_pageLimit limit) hafter
  exact hpage.congr (OrderedQueue.waiting_known s filter) hafter hext.older

theorem browse_follows (s : σ) (limit : ℤ) (filter : QueueFilter) (after : Option TicketId)
    (churn : List (List (Time × TicketOp))) (hafter : ∀ c ∈ after, OrderedQueue.known s c) (s' : σ)
    (hlast : ∀ r ∈ (browse s limit filter after churn).getLast?, Extends r.1 s') :
    Keyset.Follows (OrderedQueue.older s') (pageLimit limit) after
      ((browse s limit filter after churn).map fun r => (OrderedQueue.waiting r.1 filter, r.2.ids))
      (ended (browse s limit filter after churn)) := by
  have hext : Extends s s' := by
    have hne := browse_ne_nil s limit filter after churn
    exact (browse_extends s limit filter after churn _ (List.getLast_mem hne)).trans
      (hlast _ (List.getLast?_eq_some_getLast hne))
  have hpage := pending_isPage hext limit filter hafter
  induction churn generalizing s after with
  | nil =>
      cases hnext : (TicketController.pending s limit after filter).next with
      | none =>
          have hended : ended (browse s limit filter after []) = true := by
            simp [ended, browse, hnext]
          rw [hended]
          exact .last hpage (short_of_next hnext)
      | some c =>
          have hended : ended (browse s limit filter after []) = false := by
            simp [ended, browse, hnext]
          rw [hended]
          exact .stopped hpage
  | cons ops churn ih =>
      cases hnext : (TicketController.pending s limit after filter).next with
      | none =>
          have hended : ended (browse s limit filter after (ops :: churn)) = true := by
            rw [browse_last hnext]
            simp [ended, hnext]
          rw [hended, browse_last hnext]
          exact .last hpage (short_of_next hnext)
      | some c =>
          obtain ⟨hfull, hc⟩ := full_of_next hnext
          have hne := browse_ne_nil (performAll s ops) limit filter (some c) churn
          rw [browse_next hnext, List.getLast?_cons_of_ne_nil hne] at hlast
          have hended : ended (browse s limit filter after (ops :: churn))
              = ended (browse (performAll s ops) limit filter (some c) churn) := by
            rw [browse_next hnext, ended, List.getLast?_cons_of_ne_nil hne, ended]
          rw [hended, browse_next hnext, List.map_cons]
          have hknown : ∀ d ∈ some c, OrderedQueue.known (performAll s ops) d := by
            intro d hd
            have hview := hpage.inView c (List.mem_of_getLast? hc)
            rw [← Option.some.inj hd]
            exact (performAll_extends s ops).known c (OrderedQueue.waiting_known s filter c hview)
          have hmore := browse_extends (performAll s ops) limit filter (some c) churn _
            (List.getLast_mem hne)
          have hext' := hmore.trans (hlast _ (List.getLast?_eq_some_getLast hne))
          exact .next hpage hfull hc (ih _ _ hknown hlast hext'
            (pending_isPage hext' limit filter hknown))

/-- The requests of an operator who starts at the head of the queue list no ticket
    twice, oldest first, and each that waits all along. -/
theorem browse_pagesOnce (s : σ) (limit : ℤ) (filter : QueueFilter)
    (churn : List (List (Time × TicketOp))) : PagesOnce filter (browse s limit filter none churn) := by
  have hne := browse_ne_nil s limit filter none churn
  have hcollected : ∀ requests : List (σ × QueuePage), collected requests
      = (requests.map fun r => (OrderedQueue.waiting r.1 filter, r.2.ids)).flatMap Prod.snd :=
    fun requests => by
      rw [collected, List.flatMap_map]
  have hsorted : ∀ r ∈ (browse s limit filter none churn).getLast?,
      (collected (browse s limit filter none churn)).Pairwise (OrderedQueue.older r.1) := by
    intro r hr
    have hfollows := browse_follows s limit filter none churn (by simp) r.1 fun r' hr' => by
      rw [Option.some.inj (hr'.symm.trans hr)]
      exact Extends.refl r.1
    rw [hcollected]
    exact (hfollows.sorted (OrderedQueue.older_trans r.1)).1
  refine ⟨?_, hsorted, fun hended t hwaiting => ?_⟩
  · have hpairs := hsorted _ (List.getLast?_eq_some_getLast hne)
    refine hpairs.imp fun {a b} hab heq => ?_
    rw [heq] at hab
    exact OrderedQueue.older_irrefl _ b hab
  · have hfollows := browse_follows s limit filter none churn (by simp)
      ((browse s limit filter none churn).getLast hne).1 fun r' hr' => by
        rw [← Option.some.inj ((List.getLast?_eq_some_getLast hne).symm.trans hr')]
        exact Extends.refl _
    rw [hcollected]
    refine hfollows.complete hended (fun r hr => ?_) (by simp [Keyset.Past])
    obtain ⟨r', hr', rfl⟩ := List.mem_map.mp hr
    exact hwaiting r' hr'

end

end ToolGateway
