import PoolKlines.Proofs.Sync.Log
import PoolKlines.Proofs.Sync.PageBorder

/-!
# Cycles without faults

Where nothing goes wrong, a cycle is determined by the rows to come: it applies page after page up
to the first inversion that it sees.

* `Indexer.NextPage` cuts the rows to come into the next page and those beyond it;
* `Indexer.Running` is a cycle under way on which nothing went wrong;
* `Running.applyPage_of_none` and `Running.applyPage_of_some`: a page is applied up to its
  inversion;
* `Indexer.EndsAsSeen` says that a cycle leaves a row behind unless the first inversion of the rows
  to come is seen;
* `Running.endsAsSeen` goes page by page, and `Logs.endsAsSeen` is the statement about a cycle.
-/

namespace PoolKlines

namespace Indexer

/-- The rows above a cursor consist of the next page and those beyond it. -/
structure NextPage (name : String) (initial : MemoryStore) (size : Nat) (cursor : UInt64)
    (page beyond : List StoredTransaction) : Prop where
  rows_eq : initial.rowsAfter name cursor = page ++ beyond
  length_le : page.length ≤ size
  length_eq : beyond ≠ [] → page.length = size
  nodup : ((page ++ beyond).map (·.id)).Nodup

namespace NextPage

variable {name : String} {initial : MemoryStore} {size : Nat} {cursor : UInt64}
  {page beyond : List StoredTransaction} {t : StoredTransaction}

theorem above (h : NextPage name initial size cursor page beyond) (ht : t ∈ page ++ beyond) :
    cursor < t.id := by
  rw [← h.rows_eq] at ht
  exact (MemoryStore.mem_rowsAfter.1 ht).2.2

theorem above_page (h : NextPage name initial size cursor page beyond) (ht : t ∈ page) :
    cursor < t.id :=
  h.above (List.mem_append_left _ ht)

theorem mem_rows (h : NextPage name initial size cursor page beyond) (ht : t ∈ page) :
    t ∈ initial.rows name := by
  have hrows := List.mem_append_left beyond ht
  rw [← h.rows_eq] at hrows
  obtain ⟨hstored, hpool, -⟩ := MemoryStore.mem_rowsAfter.1 hrows
  exact MemoryStore.mem_rows.2 ⟨hstored, hpool⟩

theorem nodup_page (h : NextPage name initial size cursor page beyond) :
    (page.map (·.id)).Nodup :=
  h.nodup.sublist ((List.sublist_append_left _ _).map _)

theorem eq_nil (h : NextPage name initial size cursor [] beyond) (hsize : 1 ≤ size) :
    beyond = [] := by
  by_contra hne
  have hzero := h.length_eq hne
  rw [List.length_nil] at hzero
  omega

end NextPage

/-- The rows above a cursor begin with a page, and only the last page is short. -/
theorem exists_nextPage {name : String} {initial : MemoryStore}
    (hdistinct : initial.DistinctIds name) (size : Nat) (cursor : UInt64) :
    ∃ page beyond, NextPage name initial size cursor page beyond ∧
      (initial.rowsAfter name cursor).take size = page := by
  have hrows := (List.take_append_drop size (initial.rowsAfter name cursor)).symm
  refine ⟨_, _, ⟨hrows, List.length_take_le _ _, fun hne => ?_, ?_⟩, rfl⟩
  · have hpos := List.length_pos_iff.2 hne
    rw [List.length_drop] at hpos
    rw [List.length_take]
    omega
  · rw [← hrows]
    exact hdistinct.nodup_rowsAfter cursor

/-- A cycle under way on which nothing went wrong. -/
structure Running (indexer : Indexer) (pools : PoolSnapshot) (pool : PoolConfig) (name : String)
    (initial : MemoryStore) (s : CycleState (Journal MemoryStore)) (rows : List StoredTransaction) :
    Prop extends indexer.Logging pools pool name initial s rows where
  quiet : s.link.Quiet
  error_eq : s.report.error = none

variable {indexer : Indexer} {pools : PoolSnapshot} {pool : PoolConfig} {name : String}
  {initial : MemoryStore} {s u : CycleState (Journal MemoryStore)}
  {rows page beyond done after : List StoredTransaction} {t : StoredTransaction}
  {lower : UInt64} {size : Nat}

namespace Running

/-- The cursor stays below whatever is above it and above the applied rows. -/
theorem cursor_lt (h : indexer.Running pools pool name initial s rows)
    (hu : indexer.Running pools pool name initial u (rows ++ done)) {id : UInt64}
    (habove : s.report.cursor < id) (hdone : ∀ t ∈ done, t.id < id) : u.report.cursor < id := by
  rw [h.cursor_eq] at habove
  rw [hu.cursor_eq]
  refine hu.logs.cursor_lt (h.logs.initial_le_cursor.trans_lt habove) fun t ht => ?_
  rcases List.mem_append.1 ht with ht | ht
  · exact (h.logs.id_le_cursor ht).trans_lt habove
  · exact hdone t ht

theorem id_le_cursor (hu : indexer.Running pools pool name initial u (rows ++ done))
    {t : StoredTransaction} (ht : t ∈ done) : t.id ≤ u.report.cursor := by
  rw [hu.cursor_eq]
  exact hu.logs.id_le_cursor (List.mem_append_right _ ht)

/-- A row above the cursor is applied. -/
theorem applyRow (h : indexer.Running pools pool name initial s rows)
    (haccepts : initial.refusesCommits = false) {t : StoredTransaction}
    (ht : t ∈ initial.rows name) (habove : s.report.cursor < t.id) :
    ∃ u, indexer.applyRow pools pool none t s = .ok () u ∧
      indexer.Running pools pool name initial u (rows ++ [t]) ∧ u.report.cursor = t.id := by
  have haccepts' : s.link.store.store.refusesCommits = false :=
    h.logs.refusesCommits_eq.trans haccepts
  have hcommit : Store.commit s.link.store
      (⟨indexer.applied pools pool s.link.store.store.state t,
        s.link.store.store.refusesCommits⟩ : MemoryBatch) =
      .ok (indexer.enter pools pool s.link.store t) := by
    rw [haccepts']
    rfl
  obtain ⟨outcome, hprocess⟩ := indexer.process_of_quiet pools pool t h.quiet rfl
    (indexer.stage_memory pools pool _ _ t) hcommit
  -- the row has a higher id than the cursor, which therefore moves to it
  have hattuned : CycleState.Attuned pool
      ⟨{ s.link with store := indexer.enter pools pool s.link.store t },
        s.report.addOutcome t.id outcome⟩ := by
    refine ⟨?_, h.asks⟩
    show t.id = (indexer.enter pools pool s.link.store t).store.state.cursorOf pool
    rw [cursor_enter, ← h.cursor_eq, max_eq_right habove.le]
  refine ⟨_, ?_, ⟨⟨hattuned, ?_⟩, ?_, h.error_eq⟩, rfl⟩
  · unfold Indexer.applyRow
    rw [if_neg (not_le.2 habove)]
    simp only [hprocess]
  · exact h.logs.apply ht (h.cursor_eq ▸ habove) haccepts'
  · exact ⟨h.quiet.fetches_eq, h.quiet.reads_eq, h.quiet.begins_eq, h.quiet.commits_eq⟩

/-- Rows above the cursor are applied in turn, if they are in the strict order of their ids. -/
theorem applyRows (h : indexer.Running pools pool name initial s rows)
    (haccepts : initial.refusesCommits = false) (hmem : ∀ t ∈ page, t ∈ initial.rows name)
    (habove : ∀ t ∈ page, s.report.cursor < t.id)
    (hsorted : page.Pairwise fun t u => t.id < u.id) :
    ∃ u, page.forM (indexer.applyRow pools pool none) s = .ok () u ∧
      indexer.Running pools pool name initial u (rows ++ page) := by
  induction page generalizing s rows with
  | nil => exact ⟨s, rfl, by rwa [List.append_nil]⟩
  | cons t rest ih =>
    obtain ⟨ht, hsorted⟩ := List.pairwise_cons.1 hsorted
    obtain ⟨hmemt, hmem⟩ := List.forall_mem_cons.1 hmem
    obtain ⟨mid, hrow, hmid, hcursor⟩ := h.applyRow haccepts hmemt (habove t List.mem_cons_self)
    obtain ⟨u, hrest, hu⟩ := ih hmid hmem (fun v hv => hcursor ▸ ht v hv) hsorted
    rw [List.append_assoc] at hu
    exact ⟨u, (bind_of_ok hrow _).trans hrest, hu⟩

/-- A page without an inversion is applied as a whole. -/
theorem applyPage_of_none (h : indexer.Running pools pool name initial s rows)
    (haccepts : initial.refusesCommits = false)
    (hpage : NextPage name initial size s.report.cursor page beyond)
    (hnone : findInversion? page = none) :
    ∃ u, indexer.applyPage pools pool page s = .ok () u ∧
      indexer.Running pools pool name initial u (rows ++ page) := by
  have hsorted := pairwise_id_lt (findInversion?_eq_none_iff.1 hnone) hpage.nodup_page
  rw [indexer.applyPage_of_none pools pool hnone]
  exact h.applyRows haccepts (fun t ht => hpage.mem_rows ht) (fun t ht => hpage.above_page ht)
    hsorted

/-- A page is applied up to its inversion. -/
theorem applyPage_of_some (h : indexer.Running pools pool name initial s rows)
    (haccepts : initial.refusesCommits = false)
    (hpage : NextPage name initial size s.report.cursor (done ++ t :: after) beyond)
    (hsome : findInversion? (done ++ t :: after) = some (done.length, lower))
    (hsorted : done.Pairwise fun t u => t.id ≤ u.id) (hbelow : Below done (t :: after)) :
    ∃ u, indexer.applyPage pools pool (done ++ t :: after) s =
        .error (.error (.outOfOrder t.id t.slot lower)) u ∧
      indexer.Running pools pool name initial u (rows ++ done) := by
  have hdone : (done.map (·.id)).Nodup :=
    hpage.nodup_page.sublist ((List.sublist_append_left _ _).map _)
  obtain ⟨u, hrun, hu⟩ := h.applyRows haccepts
    (fun u hu => hpage.mem_rows (List.mem_append_left _ hu))
    (fun u hu => hpage.above_page (List.mem_append_left _ hu)) (pairwise_id_lt hsorted hdone)
  -- the row with the inversion is above all rows before it, and so it is not passed over
  have hlast : ¬ t.id ≤ u.report.cursor := by
    refine not_le.2 (h.cursor_lt hu (hpage.above_page (by simp)) fun v hv => ?_)
    exact lt_of_below hpage.nodup_page hbelow v hv t List.mem_cons_self
  have hrow : indexer.applyRow pools pool (some lower) t u =
      .error (.error (.outOfOrder t.id t.slot lower)) u := by
    unfold Indexer.applyRow
    rw [if_neg hlast]
  refine ⟨u, ?_, hu⟩
  rw [indexer.applyPage_of_some pools pool hsome]
  exact (bind_of_ok hrun _).trans (bind_of_error hrow _)

/-- After a page that is in order and below the rest, the rest is to come. -/
theorem rowsAfter_eq (h : indexer.Running pools pool name initial s rows)
    (hu : indexer.Running pools pool name initial u (rows ++ page))
    (hdistinct : initial.DistinctIds name)
    (hpage : NextPage name initial size s.report.cursor page beyond)
    (hmoved : s.report.cursor ≤ u.report.cursor) (hbelow : Below page beyond) :
    initial.rowsAfter name u.report.cursor = beyond := by
  refine hdistinct.rowsAfter_eq_right hpage.rows_eq hmoved (fun t ht => hu.id_le_cursor ht) ?_
  intro t ht
  refine h.cursor_lt hu (hpage.above (List.mem_append_right _ ht)) fun v hv => ?_
  exact lt_of_below hpage.nodup hbelow v hv t ht

/-- A row to come with a lower id than one that was applied is left behind. -/
theorem lost (h : indexer.Running pools pool name initial s rows) {left : List StoredTransaction}
    (hrest : initial.rowsAfter name s.report.cursor = done ++ left)
    (hdistinct : initial.DistinctIds name) {v : StoredTransaction} (ht : t ∈ done) (hv : v ∈ left)
    (hlt : v.id < t.id) : Lost (rows ++ done) v := by
  refine ⟨fun hmem => ?_, t, List.mem_append_right _ ht, hlt⟩
  rcases List.mem_append.1 hmem with hmem | hmem
  · have hle := h.logs.id_le_cursor hmem
    rw [← h.cursor_eq] at hle
    have htocome : v ∈ initial.rowsAfter name s.report.cursor :=
      hrest ▸ List.mem_append_right _ hv
    exact absurd (MemoryStore.mem_rowsAfter.1 htocome).2.2 (not_lt.2 hle)
  · have hids := hdistinct.nodup_rowsAfter s.report.cursor
    rw [hrest, List.map_append] at hids
    exact (List.disjoint_of_nodup_append hids) (List.mem_map_of_mem hmem) (List.mem_map_of_mem hv)

/-- The page that a cycle goes on with. -/
theorem fetchPage (h : indexer.Running pools pool name initial s rows) (limit retries : Nat) :
    ∃ link, Link.fetchPage name s.report.cursor limit retries s.link =
        .ok ((initial.rowsAfter name s.report.cursor).take limit) link ∧
      indexer.Running pools pool name initial ⟨link, s.report.addPage⟩ rows := by
  have hpage : Store.fetchAfter s.link.store name s.report.cursor limit =
      .ok ((initial.rowsAfter name s.report.cursor).take limit) := by
    rw [← MemoryStore.rowsAfter_congr h.logs.transactions_eq]
    rfl
  obtain ⟨link, hquiet, hstore, hfetch⟩ := h.quiet.fetchPage hpage retries
  exact ⟨link, hfetch, (h.of_fetchPage hfetch).1, hquiet, h.error_eq⟩

end Running

/-! ### Cycles -/

/-- Those of the rows to come that were applied are in order and below the others, whose first
inversion is seen. -/
def InOrder (indexer : Indexer) (pools : PoolSnapshot) (pool : PoolConfig) (name : String)
    (initial : MemoryStore) (rows rest : List StoredTransaction) (j : Journal MemoryStore) : Prop :=
  ∃ done left, rest = done ++ left ∧ Below done left ∧ SeenInPage indexer.pageSize left ∧
    indexer.Logs pools pool name initial j (rows ++ done)

/-- One of the rows to come was left behind. -/
def LeavesBehind (indexer : Indexer) (pools : PoolSnapshot) (pool : PoolConfig) (name : String)
    (initial : MemoryStore) (rows rest : List StoredTransaction) (j : Journal MemoryStore) : Prop :=
  ∃ more, indexer.Logs pools pool name initial j (rows ++ more) ∧ ∃ t ∈ rest, Lost (rows ++ more) t

/-- The cycle reports an inversion of the rows to come, and no error if they have none. -/
def Tells (ending : CycleEnd) (rest : List StoredTransaction) : Prop :=
  ∃ report, ending = .report report ∧ (findInversion? rest = none → report.error = none) ∧
    (findInversion? rest ≠ none → report.outOfOrder = true)

/-- If the first inversion of the rows to come is seen, the cycle stops before it, and otherwise it
leaves a row behind. -/
structure EndsAsSeen (indexer : Indexer) (pools : PoolSnapshot) (pool : PoolConfig) (name : String)
    (initial : MemoryStore) (rows rest : List StoredTransaction)
    (result : CycleEnd × Link (Journal MemoryStore)) : Prop where
  of_seen : SeenInPage indexer.pageSize rest →
    indexer.InOrder pools pool name initial rows rest result.2.store ∧ Tells result.1 rest
  of_not_seen : ¬ SeenInPage indexer.pageSize rest →
    indexer.LeavesBehind pools pool name initial rows rest result.2.store

/-- Rows that are in order and below the rest change nothing in what a cycle has to tell. -/
theorem tells_append_iff {ending : CycleEnd} {left : List StoredTransaction}
    (hsorted : done.Pairwise fun t u => t.id ≤ u.id) (hbelow : Below done left) :
    Tells ending (done ++ left) ↔ Tells ending left := by
  rw [Tells, findInversion?_append hsorted hbelow]
  simp only [Option.map_eq_none_iff, ne_eq, Tells]

theorem InOrder.append {j : Journal MemoryStore}
    (hbelow : Below page beyond)
    (h : indexer.InOrder pools pool name initial (rows ++ page) beyond j) :
    indexer.InOrder pools pool name initial rows (page ++ beyond) j := by
  obtain ⟨done, left, rfl, hdone, hleft, hlogs⟩ := h
  refine ⟨page ++ done, left, by rw [List.append_assoc], fun t ht u hu => ?_, hleft, ?_⟩
  · rcases List.mem_append.1 ht with ht | ht
    · exact hbelow t ht u (List.mem_append_right _ hu)
    · exact hdone t ht u hu
  · rw [← List.append_assoc]
    exact hlogs

/-- After a page that is in order and below the rest, the cycle ends as it does from there. -/
theorem EndsAsSeen.of_page {result : CycleEnd × Link (Journal MemoryStore)}
    (hsize : 1 ≤ indexer.pageSize)
    (hsorted : page.Pairwise fun t u => t.id ≤ u.id) (hbelow : Below page beyond)
    (hlength : beyond ≠ [] → page.length = indexer.pageSize)
    (h : indexer.EndsAsSeen pools pool name initial (rows ++ page) beyond result) :
    indexer.EndsAsSeen pools pool name initial rows (page ++ beyond) result := by
  have hiff : SeenInPage indexer.pageSize (page ++ beyond) ↔
      SeenInPage indexer.pageSize beyond := by
    by_cases hbeyond : beyond = []
    · subst hbeyond
      rw [List.append_nil]
      exact iff_of_true (seenInPage_of_none (findInversion?_eq_none_iff.2 hsorted))
        (seenInPage_of_none findInversion?_nil)
    · exact seenInPage_append_iff hsize hsorted hbelow (hlength hbeyond)
  refine ⟨fun hseen => ?_, fun hnot => ?_⟩
  · obtain ⟨hinOrder, htells⟩ := h.of_seen (hiff.1 hseen)
    exact ⟨hinOrder.append hbelow, (tells_append_iff hsorted hbelow).2 htells⟩
  · obtain ⟨more, hlogs, t, ht, hlost⟩ := h.of_not_seen (mt hiff.2 hnot)
    rw [List.append_assoc] at hlogs hlost
    exact ⟨page ++ more, hlogs, t, List.mem_append_right _ ht, hlost⟩

/-- A cycle that stops before an inversion of its page has left no row behind, unless one that it
applied has a higher id than one beyond the page. -/
theorem Running.endsAsSeen_of_some (h : indexer.Running pools pool name initial s rows)
    (hu : indexer.Running pools pool name initial u (rows ++ done))
    (hpage : NextPage name initial indexer.pageSize s.report.cursor (done ++ t :: after) beyond)
    (hdistinct : initial.DistinctIds name)
    (hsorted : done.Pairwise fun t u => t.id ≤ u.id) (hbelow : Below done (t :: after))
    {v : StoredTransaction} (hv : v ∈ after) (hlt : v.id < t.id) :
    indexer.EndsAsSeen pools pool name initial rows (done ++ t :: after ++ beyond)
      (.report { u.report with error := some (.outOfOrder t.id t.slot lower) }, u.link) := by
  have hlength := hpage.length_le
  rw [List.append_assoc]
  by_cases hbeyond : Below done beyond
  · -- no row is left behind, and the next cycle begins with the inversion
    have hall : Below done (t :: after ++ beyond) := hbelow.append hbeyond
    have hinversion : findInversion? (t :: after ++ beyond) ≠ none := by
      rw [List.cons_append, findInversion?_cons, if_pos ⟨v, List.mem_append_left _ hv, hlt⟩]
      simp
    have hleft : SeenInPage indexer.pageSize ([] ++ (t :: after ++ beyond)) := by
      refine seenInPage_of_inversion .nil below_nil_left hv hlt ?_
      rw [List.length_append] at hlength
      rw [List.nil_append]
      omega
    refine ⟨fun _ => ⟨⟨done, _, rfl, hall, hleft, hu.logs⟩, ?_⟩, fun hnot => ?_⟩
    · rw [tells_append_iff hsorted hall]
      exact ⟨_, rfl, fun hnone => absurd hnone hinversion, fun _ => rfl⟩
    · exact absurd (seenInPage_of_inversion hsorted hall hv hlt hlength) hnot
  · obtain ⟨w, hw, x, hx, hxw⟩ := not_below_iff.1 hbeyond
    have hlost := h.lost (hpage.rows_eq.trans (List.append_assoc _ _ _)) hdistinct hw
      (List.mem_append_right (t :: after) hx) hxw
    refine ⟨fun hseen => ?_, fun _ => ?_⟩
    · have hfull := hpage.length_eq (List.ne_nil_of_mem hx)
      have hnot := not_seenInPage_of_lower hsorted hbelow hfull hw hx hxw
      rw [List.append_assoc] at hnot
      exact absurd hseen hnot
    · exact ⟨done, hu.logs, x, by simp [hx], hlost⟩

/-- A cycle with no rows to come has nothing to tell. -/
theorem Running.endsAsSeen_of_nil {link : Link (Journal MemoryStore)}
    (h : indexer.Running pools pool name initial ⟨link, s.report.addPage⟩ rows) :
    indexer.EndsAsSeen pools pool name initial rows [] (.report s.report, link) := by
  have hseen : SeenInPage indexer.pageSize [] := seenInPage_of_none findInversion?_nil
  refine ⟨fun _ => ⟨⟨[], [], rfl, below_nil_left, hseen, ?_⟩, ?_⟩, fun hnot => absurd hseen hnot⟩
  · rw [List.append_nil]
    exact h.logs
  · exact ⟨_, rfl, fun _ => h.error_eq, fun hne => absurd findInversion?_nil hne⟩

/-- A cycle that applied a page without an inversion has left no row behind if it leaves none behind
from there, unless one that it applied has a higher id than one beyond the page. -/
theorem Running.endsAsSeen_of_none (h : indexer.Running pools pool name initial s rows)
    (hu : indexer.Running pools pool name initial u (rows ++ page))
    {start : UInt64} (hsize : 1 ≤ indexer.pageSize)
    (hpage : NextPage name initial indexer.pageSize s.report.cursor page beyond)
    (hdistinct : initial.DistinctIds name) (hsorted : page.Pairwise fun t u => t.id ≤ u.id)
    (hrest : Below page beyond → indexer.EndsAsSeen pools pool name initial (rows ++ page) beyond
      (indexer.applyPages pools name pool start u)) :
    indexer.EndsAsSeen pools pool name initial rows (page ++ beyond)
      (indexer.applyPages pools name pool start u) := by
  by_cases hbelow : Below page beyond
  · exact (hrest hbelow).of_page hsize hsorted hbelow hpage.length_eq
  · obtain ⟨w, hw, x, hx, hxw⟩ := not_below_iff.1 hbelow
    refine ⟨fun hseen => ?_, fun _ => ?_⟩
    · have hlength : (page ++ []).length = indexer.pageSize := by
        rw [List.append_nil]
        exact hpage.length_eq (List.ne_nil_of_mem hx)
      have hnot := not_seenInPage_of_lower hsorted below_nil_right hlength hw hx hxw
      rw [List.append_nil] at hnot
      exact absurd hseen hnot
    · -- whatever the cycle goes on to do, the cursor is past the row
      have hlost := h.lost hpage.rows_eq hdistinct hw hx hxw
      obtain ⟨more, hlogs⟩ := hu.applyPages start
      refine ⟨page ++ more, ?_, x, List.mem_append_right _ hx, ?_⟩
      · rw [← List.append_assoc]
        exact hlogs
      · rw [← List.append_assoc]
        exact hlogs.lost_append hlost

/-- Whether a cycle leaves a row behind depends on whether the first inversion of the rows to come
is seen. -/
theorem Running.endsAsSeen (h : indexer.Running pools pool name initial s rows)
    (hsize : 1 ≤ indexer.pageSize) (haccepts : initial.refusesCommits = false)
    (hdistinct : initial.DistinctIds name) (start : UInt64) {rest : List StoredTransaction}
    (hrest : initial.rowsAfter name s.report.cursor = rest) :
    indexer.EndsAsSeen pools pool name initial rows rest
      (indexer.applyPages pools name pool start s) := by
  induction hlength : rest.length using Nat.strong_induction_on generalizing s rows rest with
  | _ length ih =>
    obtain ⟨link, hfetch, hbegun⟩ := h.fetchPage indexer.pageSize indexer.fetchRetries
    obtain ⟨page, beyond, hpage, htake⟩ :=
      exists_nextPage hdistinct indexer.pageSize s.report.cursor
    obtain rfl := hrest.symm.trans hpage.rows_eq
    rw [htake] at hfetch
    by_cases hempty : page = []
    · -- no row is left
      subst hempty
      obtain rfl := hpage.eq_nil hsize
      rw [applyPages_of_nil start hfetch]
      exact hbegun.endsAsSeen_of_nil
    · cases hinversion : findInversion? page with
      | none =>
        have hsorted := findInversion?_eq_none_iff.1 hinversion
        obtain ⟨u, hrun, hu⟩ := hbegun.applyPage_of_none haccepts hpage hinversion
        obtain ⟨first, hfirst⟩ := List.exists_mem_of_ne_nil _ hempty
        have hmoved : s.report.cursor < u.report.cursor :=
          (hpage.above_page hfirst).trans_le (hu.id_le_cursor hfirst)
        have hadvances : s.Advances u :=
          .inr ⟨by rw [hu.quiet.fetches_eq, h.quiet.fetches_eq], hmoved⟩
        rw [applyPages_of_ok start hempty hfetch hrun hadvances]
        refine h.endsAsSeen_of_none hu hsize hpage hdistinct hsorted fun hbelow => ?_
        have hnext := h.rowsAfter_eq hu hdistinct hpage hmoved.le hbelow
        have hshorter : beyond.length < length := by
          have hpos := List.length_pos_iff.2 hempty
          rw [List.length_append] at hlength
          omega
        exact ih _ hshorter hu hnext rfl
      | some inversion =>
        obtain ⟨position, lower⟩ := inversion
        obtain ⟨before, t, after, rfl, rfl, hsorted, hbelow, ⟨v, hv, hlt⟩, -⟩ :=
          findInversion?_eq_some_iff.1 hinversion
        obtain ⟨u, hrun, hu⟩ := hbegun.applyPage_of_some haccepts hpage hinversion hsorted hbelow
        rw [applyPages_of_error start hempty hfetch hrun]
        exact h.endsAsSeen_of_some hu hpage hdistinct hsorted hbelow hv hlt

/-- Over a link without faults, whether a cycle leaves a row behind depends on whether the first
inversion of the rows to come is seen. -/
theorem Logs.endsAsSeen {j : Journal MemoryStore}
    (h : indexer.Logs pools pool name initial j rows) (hpool : pools.find? name = some pool)
    (hsize : 1 ≤ indexer.pageSize) (haccepts : initial.refusesCommits = false)
    (hdistinct : initial.DistinctIds name) {rest : List StoredTransaction}
    (hrest : initial.rowsAfter name (j.store.state.cursorOf pool) = rest) :
    indexer.EndsAsSeen pools pool name initial rows rest
      (indexer.runCycle pools name (.ofStore j)) := by
  have hcursor : Store.cursor (Link.ofStore j).store pool.address pool.version =
      .ok (j.store.state.cursorOf pool) := rfl
  obtain ⟨link, hquiet, hstore, hread⟩ := (Link.quiet_ofStore j).readCursor hcursor
  unfold Indexer.runCycle
  simp only [hpool, hread]
  have hrunning : indexer.Running pools pool name initial
      ⟨link, { CycleReport.empty with cursor := j.store.state.cursorOf pool }⟩ rows := by
    refine ⟨⟨⟨?_, hquiet.asksStore⟩, ?_⟩, hquiet, rfl⟩
    · show j.store.state.cursorOf pool = link.store.store.state.cursorOf pool
      rw [hstore]
      rfl
    · show indexer.Logs pools pool name initial link.store rows
      rw [hstore]
      exact h
  exact hrunning.endsAsSeen hsize haccepts hdistinct _ hrest

end Indexer

end PoolKlines
