import PoolKlines.Proofs.Sync.Inversion
import PoolKlines.Proofs.Sync.Ledger
import PoolKlines.Proofs.Sync.Link

/-!
# Draining a source

A store that serves the rows of a pool in the order of their ids, and to which rows are only added
at the end, is drained by a cycle: whatever fails, the rows that were applied and those that are
due make up the rows above the cursor at which the cycle began.

* `Indexer.Feeds` is what such a store promises;
* `Indexer.Drains` is the invariant of a cycle: it is under way, and what it has not applied is due;
* `Drains.applyRow`, `Drains.applyRows` and `Drains.applyPage` say that rows move from what is due
  to what is done;
* `Indexer.Drained` is what remains at the end, as `Drains.applyPages` and
  `Indexer.drained_runCycle` say. No row is ever out of order, and a cycle without an error leaves
  nothing.

Rows may be added at every commit, so that nothing is said of how many there are.
-/

namespace PoolKlines

/-! ### Rows above an id -/

section

variable {all done due : List StoredTransaction} {start : UInt64}

/-- The rows above an id ascend from it. -/
theorem ascends_filter (h : all.Pairwise fun t u => t.id < u.id) (start : UInt64) :
    Ascends start (all.filter (start < ·.id)) := by
  refine List.pairwise_cons.2 ⟨fun id hid => ?_, List.pairwise_map.2 (h.filter _)⟩
  obtain ⟨t, ht, rfl⟩ := List.mem_map.1 hid
  exact of_decide_eq_true (List.mem_filter.1 ht).2

/-- The rows above the last one of a first part are the second part. -/
theorem Ascends.filter_append (h : Ascends start (done ++ due)) :
    (done ++ due).filter (lastId start done < ·.id) = due := by
  have hdone : done.filter (lastId start done < ·.id) = [] :=
    List.filter_eq_nil_iff.2 fun t ht =>
      decide_eq_true_iff.not.2 (not_lt.2 (h.of_append.le_lastId ht))
  have hdue : due.filter (lastId start done < ·.id) = due :=
    List.filter_eq_self.2 fun t ht => decide_eq_true (h.lastId_lt ht)
  rw [List.filter_append, hdone, hdue, List.nil_append]

/-- If all rows above a number are some that come first and others, the others are those above the
last of the former. -/
theorem filter_above_lastId (h : all.Pairwise fun t u => t.id < u.id)
    (hsplit : all.filter (start < ·.id) = done ++ due) :
    all.filter (lastId start done < ·.id) = due := by
  have hascends : Ascends start (done ++ due) := hsplit ▸ ascends_filter h start
  have hle := hascends.of_append.start_le_lastId
  have hnarrow : all.filter (lastId start done < ·.id) =
      (all.filter (start < ·.id)).filter (lastId start done < ·.id) := by
    rw [List.filter_filter]
    refine List.filter_congr fun t _ => ?_
    rw [← Bool.decide_and, decide_eq_decide]
    exact ⟨fun hlt => ⟨hlt, hle.trans_lt hlt⟩, And.left⟩
  rw [hnarrow, hsplit, hascends.filter_append]

end

namespace Indexer

variable {σ β : Type} [Store σ β]

section

variable (indexer : Indexer) (pools : PoolSnapshot) (pool : PoolConfig) (name : String)
  (feed : σ → List StoredTransaction → Prop)

/-- What a store promises that holds some rows of a pool: their ids ascend below half of the range
of 64 bits, requests are answered by the first rows above an id, and a commit adds rows at the end
alone. -/
structure Feeds : Prop where
  ids {s : σ} {all : List StoredTransaction} (h : feed s all) :
    all.Pairwise fun t u => t.id < u.id
  id_lt {s : σ} {all : List StoredTransaction} (h : feed s all) :
    ∀ t ∈ all, t.id.toNat < 2 ^ 63
  serves {s : σ} {all : List StoredTransaction} (h : feed s all) {after : UInt64}
    (hafter : after.toNat < 2 ^ 63) : Store.fetchAfter s name after indexer.pageSize =
      .ok ((all.filter (after < ·.id)).take indexer.pageSize)
  grows {s s' : σ} {all : List StoredTransaction} {t : StoredTransaction} (h : feed s all)
    (hcommits : indexer.Commits pools pool s t s') : ∃ more, feed s' (all ++ more)

/-- A cycle under way has applied some of the rows above the cursor at which it began, and the
others are due. -/
structure Drains (initial : σ) (start : UInt64) (s : CycleState σ)
    (done due : List StoredTransaction) : Prop
    extends indexer.Underway pools pool initial start s done where
  asks : s.link.AsksStore
  rows : ∃ all, feed s.link.store all ∧ all.filter (start < ·.id) = done ++ due

/-- What a cycle leaves: it has applied some of the rows above the cursor at which it began, and
others are due unless it ended without an error. -/
structure Drained (initial : σ) (start : UInt64) (ending : CycleEnd) (final : σ)
    (done due : List StoredTransaction) : Prop where
  ledger : indexer.Ledger pools pool initial done final
  rows : ∃ all, feed final all ∧ all.filter (start < ·.id) = done ++ due
  ends : ending ≠ .endless
  in_order {report : CycleReport} (h : ending = .report report) : report.outOfOrder = false
  drained {report : CycleReport} (h : ending = .report report) (hnone : report.error = none) :
    due = []

/-- An error of a page without an inversion is not about the order. -/
theorem isOutOfOrder_of_applyPage {page : List StoredTransaction} {s u : CycleState σ}
    {e : IndexerError} (hpage : findInversion? page = none)
    (h : indexer.applyPage pools pool page s = .error (.error e) u) : e.isOutOfOrder = false := by
  rcases indexer.applyPage_error_cases pools pool h with ⟨hinversion, -⟩ | ⟨_, _, _, hprocess⟩
  · exact absurd hpage hinversion
  · rcases indexer.process_error_cases pools pool hprocess with
      ⟨_, rfl⟩ | ⟨_, rfl⟩ | ⟨_, _, _, _, _, _, rfl⟩ <;> rfl

end

variable {indexer : Indexer} {pools : PoolSnapshot} {pool : PoolConfig} {name : String}
  {feed : σ → List StoredTransaction → Prop} {initial : σ} {start : UInt64} {s : CycleState σ}
  {done due page : List StoredTransaction}

namespace Drains

/-- A call that did not commit leaves the cycle where it is. -/
theorem of_undone (h : indexer.Drains pools pool feed initial start s done due) {link : Link σ}
    (hundone : s.link.Undone link) :
    indexer.Drains pools pool feed initial start ⟨link, s.report⟩ done due :=
  ⟨h.toUnderway.of_store_eq hundone.store_eq, h.asks.of_suffix hundone.fetches_suffix,
    hundone.store_eq ▸ h.rows⟩

theorem addPage (h : indexer.Drains pools pool feed initial start s done due) :
    indexer.Drains pools pool feed initial start ⟨s.link, s.report.addPage⟩ done due :=
  ⟨h.toUnderway.addPage, h.asks, h.rows⟩

/-- What is due ascends from the cursor. -/
theorem ascends_due (hfeeds : indexer.Feeds pools pool name feed)
    (h : indexer.Drains pools pool feed initial start s done due) :
    Ascends s.report.cursor due := by
  obtain ⟨all, hall, hsplit⟩ := h.rows
  rw [h.cursor_eq, ← filter_above_lastId (hfeeds.ids hall) hsplit]
  exact ascends_filter (hfeeds.ids hall) _

/-- What is due is what the store holds above the cursor, so a request is answered by the first
rows that are due. -/
theorem fetchAfter (hfeeds : indexer.Feeds pools pool name feed) (hstart : start.toNat < 2 ^ 63)
    (h : indexer.Drains pools pool feed initial start s done due) :
    Store.fetchAfter s.link.store name s.report.cursor indexer.pageSize =
      .ok (due.take indexer.pageSize) := by
  obtain ⟨all, hall, hsplit⟩ := h.rows
  have hcursor : (lastId start done).toNat < 2 ^ 63 := by
    unfold lastId
    cases hlast : done.getLast? with
    | none => exact hstart
    | some t =>
      have ht : t ∈ all.filter (start < ·.id) :=
        hsplit ▸ List.mem_append_left _ (List.mem_of_getLast? hlast)
      exact hfeeds.id_lt hall t (List.mem_filter.1 ht).1
  rw [h.cursor_eq, hfeeds.serves hall hcursor, filter_above_lastId (hfeeds.ids hall) hsplit]

/-- The next row that is due is done, unless something fails. -/
theorem applyRow (hfeeds : indexer.Feeds pools pool name feed) {t : StoredTransaction}
    (h : indexer.Drains pools pool feed initial start s done (t :: due)) :
    ∃ u : CycleState σ, u.link.fetches = s.link.fetches ∧
      ((∃ stop, indexer.applyRow pools pool none t s = .error stop u ∧
          indexer.Drains pools pool feed initial start u done (t :: due)) ∨
        indexer.applyRow pools pool none t s = .ok () u ∧ ∃ more,
          indexer.Drains pools pool feed initial start u (done ++ [t]) (due ++ more)) := by
  have habove : s.report.cursor < t.id := (h.ascends_due hfeeds).lt_of_mem List.mem_cons_self
  rcases indexer.applyRow_cases pools pool none t s with
    ⟨hle, -⟩ | ⟨-, link, hfetches, ⟨stop, hrow, hstore⟩ | ⟨hrow, hcommits⟩⟩
  · exact absurd habove (not_lt.2 hle)
  · refine ⟨_, hfetches, .inl ⟨stop, hrow, h.of_undone ⟨hstore, ?_⟩⟩⟩
    exact hfetches ▸ List.suffix_rfl
  · refine ⟨_, hfetches, .inr ⟨hrow, ?_⟩⟩
    obtain ⟨all, hall, hsplit⟩ := h.rows
    obtain ⟨more, hmore⟩ := hfeeds.grows hall hcommits
    refine ⟨more.filter (start < ·.id), h.toUnderway.commit habove hcommits,
      h.asks.of_suffix (hfetches ▸ List.suffix_rfl), all ++ more, hmore, ?_⟩
    rw [List.filter_append, hsplit]
    simp only [List.append_assoc, List.cons_append, List.nil_append]

/-- The next rows that are due are done in turn, unless something fails. -/
theorem applyRows (hfeeds : indexer.Feeds pools pool name feed)
    (h : indexer.Drains pools pool feed initial start s done (page ++ due)) :
    ∃ u : CycleState σ, u.link.fetches = s.link.fetches ∧
      ((∃ stop, page.forM (indexer.applyRow pools pool none) s = .error stop u ∧
          ∃ done' due', indexer.Drains pools pool feed initial start u done' due') ∨
        page.forM (indexer.applyRow pools pool none) s = .ok () u ∧ ∃ more,
          indexer.Drains pools pool feed initial start u (done ++ page) (due ++ more)) := by
  induction page generalizing s done due with
  | nil =>
    refine ⟨s, rfl, .inr ⟨rfl, [], ?_⟩⟩
    rwa [List.append_nil, List.append_nil]
  | cons t page ih =>
    obtain ⟨mid, hmid, ⟨stop, hrow, hdrains⟩ | ⟨hrow, more, hdrains⟩⟩ := h.applyRow hfeeds
    · exact ⟨mid, hmid, .inl ⟨stop, bind_of_error hrow _, _, _, hdrains⟩⟩
    · have hdrains : indexer.Drains pools pool feed initial start mid (done ++ [t])
          (page ++ (due ++ more)) := List.append_assoc page due more ▸ hdrains
      obtain ⟨u, hu, hrest⟩ := ih hdrains
      refine ⟨u, hu.trans hmid, ?_⟩
      rcases hrest with ⟨stop, hrest, hdue⟩ | ⟨hrest, more', hdue⟩
      · exact .inl ⟨stop, (bind_of_ok hrow _).trans hrest, hdue⟩
      · refine .inr ⟨(bind_of_ok hrow _).trans hrest, more ++ more', ?_⟩
        rwa [List.append_assoc, List.append_assoc, List.singleton_append] at hdue

/-- A page that was fetched holds the first rows that are due. -/
theorem of_fetchPage (hfeeds : indexer.Feeds pools pool name feed) (hstart : start.toNat < 2 ^ 63)
    (h : indexer.Drains pools pool feed initial start s done due) {link : Link σ}
    (hfetch : Link.fetchPage name s.report.cursor indexer.pageSize indexer.fetchRetries s.link =
      .ok page link) :
    s.link.Undone link ∧ page = due.take indexer.pageSize ∧ findInversion? page = none := by
  obtain ⟨hundone, hrows⟩ := Link.of_fetchPage_ok h.asks hfetch
  rw [h.fetchAfter hfeeds hstart] at hrows
  obtain rfl : due.take indexer.pageSize = page := Except.ok.inj hrows
  refine ⟨hundone, rfl, findInversion?_eq_none_iff.2 ?_⟩
  exact ((h.ascends_due hfeeds).pairwise.imp le_of_lt).sublist (List.take_sublist _ _)

/-- The rows of a page that was fetched are done in turn, unless something fails. -/
theorem applyPage (hfeeds : indexer.Feeds pools pool name feed) (hstart : start.toNat < 2 ^ 63)
    (h : indexer.Drains pools pool feed initial start s done due) {link : Link σ}
    (hfetch : Link.fetchPage name s.report.cursor indexer.pageSize indexer.fetchRetries s.link =
      .ok page link) :
    ∃ u : CycleState σ, u.link.fetches <:+ s.link.fetches ∧
      ((∃ stop, indexer.applyPage pools pool page ⟨link, s.report.addPage⟩ = .error stop u ∧
          ∃ done' due', indexer.Drains pools pool feed initial start u done' due') ∨
        indexer.applyPage pools pool page ⟨link, s.report.addPage⟩ = .ok () u ∧ ∃ due',
          indexer.Drains pools pool feed initial start u (done ++ page) due') := by
  obtain ⟨hundone, hpage, hinversion⟩ := h.of_fetchPage hfeeds hstart hfetch
  have hbegun : indexer.Drains pools pool feed initial start ⟨link, s.report.addPage⟩ done
      (page ++ due.drop indexer.pageSize) := by
    rw [hpage, List.take_append_drop]
    exact (h.of_undone hundone).addPage
  rw [indexer.applyPage_of_none pools pool hinversion]
  obtain ⟨u, hfetches, hrun⟩ := hbegun.applyRows hfeeds
  refine ⟨u, hfetches ▸ hundone.fetches_suffix, hrun.imp_right fun ⟨hrun, more, hu⟩ => ?_⟩
  exact ⟨hrun, _, hu⟩

/-- Rows that are done after others have moved the cursor. -/
theorem cursor_lt (h : indexer.Drains pools pool feed initial start s done due)
    {u : CycleState σ} {due' : List StoredTransaction} {t : StoredTransaction} (ht : t ∈ page)
    (hu : indexer.Drains pools pool feed initial start u (done ++ page) due') :
    s.report.cursor < u.report.cursor := by
  rw [h.cursor_eq, hu.cursor_eq]
  exact (hu.ascends.lastId_lt ht).trans_le (hu.ascends.le_lastId (List.mem_append_right _ ht))

/-- The pages of a cycle come to an end, no row is out of order, and if there is no error, none is
due. -/
theorem applyPages (hfeeds : indexer.Feeds pools pool name feed) (hsize : 1 ≤ indexer.pageSize)
    (hstart : start.toNat < 2 ^ 63)
    (h : indexer.Drains pools pool feed initial start s done due) :
    ∃ done' due', indexer.Drained pools pool feed initial start
      (indexer.applyPages pools name pool start s).1
      (indexer.applyPages pools name pool start s).2.store done' due' := by
  fun_induction Indexer.applyPages indexer pools name pool start s generalizing done due with
  | case1 s link hfetch =>
    have hlink := h.of_undone (Link.undone_of_fetchPage_error h.asks hfetch)
    exact ⟨done, due, hlink.ledger, hlink.rows, by simp, by simp, by simp⟩
  | case2 s e link hfetch =>
    have hlink := h.of_undone (Link.undone_of_fetchPage_error h.asks hfetch)
    refine ⟨done, due, hlink.ledger, hlink.rows, by simp, ?_, ?_⟩
    · rintro report ⟨⟩
      rfl
    · rintro report ⟨⟩ hnone
      cases hnone
  | case3 s link hfetch =>
    obtain ⟨hundone, hpage, -⟩ := h.of_fetchPage hfeeds hstart hfetch
    have hlink := h.of_undone hundone
    refine ⟨done, due, hlink.ledger, hlink.rows, by simp, ?_, fun _ _ => ?_⟩
    · rintro report ⟨⟩
      rw [CycleReport.outOfOrder, h.error_eq]
      rfl
    · -- an empty page means that nothing is due
      rw [eq_comm, List.take_eq_nil_iff] at hpage
      exact hpage.resolve_left (by omega)
  | case4 s first rest link hfetch t hrun =>
    obtain ⟨u, -, ⟨stop, herror, done', due', hu⟩ | ⟨hok, -⟩⟩ := h.applyPage hfeeds hstart hfetch
    · cases hrun.symm.trans herror
      exact ⟨done', due', hu.ledger, hu.rows, by simp, by simp, by simp⟩
    · cases hrun.symm.trans hok
  | case5 s first rest link hfetch e t hrun =>
    obtain ⟨u, -, ⟨stop, herror, done', due', hu⟩ | ⟨hok, -⟩⟩ := h.applyPage hfeeds hstart hfetch
    · cases hrun.symm.trans herror
      obtain ⟨-, -, hinversion⟩ := h.of_fetchPage hfeeds hstart hfetch
      refine ⟨done', due', hu.ledger, hu.rows, by simp, ?_, ?_⟩
      · rintro report ⟨⟩
        exact isOutOfOrder_of_applyPage indexer pools pool hinversion hrun
      · rintro report ⟨⟩ hnone
        cases hnone
    · cases hrun.symm.trans hok
  | case6 s first rest link hfetch u t hrun hadvances ih =>
    obtain ⟨v, -, ⟨stop, herror, -⟩ | ⟨hok, due', hv⟩⟩ := h.applyPage hfeeds hstart hfetch
    · cases hrun.symm.trans herror
    · cases hrun.symm.trans hok
      exact ih hv
  | case7 s first rest link hfetch u t hrun hadvances =>
    -- a page that was applied has moved the cursor, so this branch is dead
    obtain ⟨v, hfetches, ⟨stop, herror, -⟩ | ⟨hok, due', hv⟩⟩ := h.applyPage hfeeds hstart hfetch
    · cases hrun.symm.trans herror
    · cases hrun.symm.trans hok
      have hlt := h.cursor_lt List.mem_cons_self hv
      have hadvances' : s.Advances t := hfetches.length_le.lt_or_eq.imp_right fun heq => ⟨heq, hlt⟩
      exact absurd hadvances' hadvances

end Drains

/-- A cycle that begins at a cursor below half of the range drains the source: it ends, no row is
out of order, and if there is no error, none is due. -/
theorem drained_runCycle (hfeeds : indexer.Feeds pools pool name feed)
    (hsize : 1 ≤ indexer.pageSize) (hpool : pools.find? name = some pool) {link : Link σ}
    (hasks : link.AsksStore) {all : List StoredTransaction} (hall : feed link.store all)
    (hcursor : Store.cursor link.store pool.address pool.version = .ok start)
    (hstart : start.toNat < 2 ^ 63) :
    ∃ done due, indexer.Drained pools pool feed link.store start
      (indexer.runCycle pools name link).1 (indexer.runCycle pools name link).2.store done due := by
  unfold runCycle
  rw [hpool]
  obtain ⟨rest, hundone, hread⟩ := link.readCursor_cases pool.address pool.version
  rcases hread with ⟨fault, hread⟩ | ⟨cursor, hstored, hread⟩
  · -- the cursor could not be read, so nothing was done
    simp only [hread]
    have hledger : indexer.Ledger pools pool link.store [] rest.store := hundone.store_eq ▸ .nil
    have hrest : feed rest.store all := hundone.store_eq ▸ hall
    cases fault with
    | abort => exact ⟨[], _, hledger, ⟨all, hrest, rfl⟩, by simp, by simp, by simp⟩
    | refuse e =>
      refine ⟨[], _, hledger, ⟨all, hrest, rfl⟩, by simp, ?_, ?_⟩
      · rintro report ⟨⟩
        rfl
      · rintro report ⟨⟩ hnone
        cases hnone
  · obtain rfl : start = cursor := Except.ok.inj (hcursor.symm.trans hstored)
    simp only [hread]
    have hbegun : indexer.Drains pools pool feed link.store start
        ⟨rest, { CycleReport.empty with cursor := start }⟩ [] (all.filter (start < ·.id)) :=
      ⟨hundone.store_eq ▸ Underway.begin rest start, hasks.of_suffix hundone.fetches_suffix,
        all, hundone.store_eq ▸ hall, rfl⟩
    exact hbegun.applyPages hfeeds hsize hstart

end Indexer

end PoolKlines
