import PoolKlines.Proofs.Sync.Attuned
import PoolKlines.Proofs.Sync.Inversion
import PoolKlines.Proofs.Sync.Source

/-!
# Progress through the pending rows

While the source keeps its contract, a store in memory has always applied a prefix of the pending
rows, and its cursor is the id of the last of them. Whatever fails, a cycle only extends the prefix.

* `Indexer.Synced` says that a store has applied so many of its pending rows;
* `Synced.next` is the step: the least pending row above the cursor is applied;
* `Journal.Tracks` says that all states of a journal stand in a relation to counts that never
  decrease;
* `Indexer.Follows` is the invariant of a cycle, and `Follows.applyRow`, `Follows.applyRows`,
  `Follows.applyPages` and `Follows.runCycle` say how far the parts of a cycle come.
-/

namespace PoolKlines

/-- All states of a journal stand in a relation to counts that never decrease, the current one to
the given count. -/
structure Journal.Tracks {σ : Type} (P : σ → Nat → Prop) (j : Journal σ) (k : Nat) : Prop where
  now : P j.store k
  past : ∃ counts : List Nat, counts.Pairwise (· ≤ ·) ∧ (∀ c ∈ counts, c ≤ k) ∧
    List.Forall₂ P j.past counts

namespace Journal.Tracks

variable {σ : Type} {P : σ → Nat → Prop}

theorem ofStore {s : σ} {k : Nat} (h : P s k) : (Journal.ofStore s).Tracks P k :=
  ⟨h, [k], List.pairwise_singleton _ _, fun _ hc => (List.mem_singleton.1 hc).le, .cons h .nil⟩

theorem mono {Q : σ → Nat → Prop} {j : Journal σ} {k : Nat} (h : j.Tracks P k)
    (hPQ : ∀ s k, P s k → Q s k) : j.Tracks Q k := by
  obtain ⟨counts, hsorted, hbound, hpast⟩ := h.past
  exact ⟨hPQ _ _ h.now, counts, hsorted, hbound, hpast.imp hPQ⟩

theorem record {j : Journal σ} {s : σ} {k k' : Nat} (h : j.Tracks P k) (hs : P s k')
    (hle : k ≤ k') : (j.record s).Tracks P k' := by
  obtain ⟨counts, hsorted, hbound, hpast⟩ := h.past
  refine ⟨hs, counts ++ [k'], ?_, ?_, ?_⟩
  · rw [List.pairwise_append]
    refine ⟨hsorted, List.pairwise_singleton _ _, fun c hc c' hc' => ?_⟩
    rw [List.mem_singleton.1 hc']
    exact (hbound c hc).trans hle
  · intro c hc
    rcases List.mem_append.1 hc with hc | hc
    · exact (hbound c hc).trans hle
    · exact (List.mem_singleton.1 hc).le
  · exact List.rel_append hpast (.cons hs .nil)

end Journal.Tracks

namespace Indexer

/-- A store has applied the first `k` of its pending rows to an initial state, each once and in
turn, and its cursor is the id of the last of them. -/
structure Synced (indexer : Indexer) (pools : PoolSnapshot) (pool : PoolConfig) (name : String)
    (initial : MemoryState) (s : MemoryStore) (k : Nat) : Prop where
  le_length : k ≤ (s.pending name (initial.cursorOf pool)).length
  applies : indexer.Applies pools pool initial ((s.pending name (initial.cursorOf pool)).take k)
    s.state
  cursor_eq : s.state.cursorOf pool =
    (((s.pending name (initial.cursorOf pool)).take k).getLast?.map (·.id)).getD
      (initial.cursorOf pool)

variable {indexer : Indexer} {pools : PoolSnapshot} {pool : PoolConfig} {name : String}
  {initial : MemoryState}

namespace Synced

variable {s : MemoryStore} {k : Nat}

/-- Nothing is applied yet. -/
theorem zero (hs : s.state = initial) : indexer.Synced pools pool name initial s 0 := by
  refine ⟨Nat.zero_le _, ?_, ?_⟩
  · rw [applies_iff, List.take_zero]
    exact hs.symm
  · rw [hs, List.take_zero]
    rfl

/-- Rows that are added at the end do not matter. -/
theorem extend (h : indexer.Synced pools pool name initial s k) {t : MemoryStore}
    (hstate : t.state = s.state)
    (hextends : s.pending name (initial.cursorOf pool) <+: t.pending name (initial.cursorOf pool)) :
    indexer.Synced pools pool name initial t k := by
  have htake : (t.pending name (initial.cursorOf pool)).take k =
      (s.pending name (initial.cursorOf pool)).take k := by
    obtain ⟨more, hmore⟩ := hextends
    rw [← hmore, List.take_append_of_le_length h.le_length]
  refine ⟨h.le_length.trans hextends.length_le, ?_, ?_⟩
  · rw [htake, hstate]
    exact h.applies
  · rw [htake, hstate]
    exact h.cursor_eq

/-- The applied rows are those up to the cursor. -/
theorem id_le_cursor_iff (h : indexer.Synced pools pool name initial s k)
    (hs : s.KeepsOrder name) (i : Nat) (t : StoredTransaction)
    (ht : (s.pending name (initial.cursorOf pool))[i]? = some t) :
    t.id ≤ s.state.cursorOf pool ↔ i < k := by
  have hsorted := hs.pairwise_pending (initial.cursorOf pool)
  have hcursor := h.cursor_eq
  have hlength := h.le_length
  have hmem := MemoryStore.mem_pending.1 (List.mem_of_getElem? ht)
  generalize s.pending name (initial.cursorOf pool) = rows at *
  cases k with
  | zero =>
    rw [List.take_zero, List.getLast?_nil, Option.map_none, Option.getD_none] at hcursor
    rw [hcursor]
    exact iff_of_false (not_le.2 hmem.2.2) (Nat.not_lt_zero i)
  | succ k =>
    have hk : k < rows.length := hlength
    have hlast : (rows.take (k + 1)).getLast? = some rows[k] := by
      rw [List.take_succ_eq_append_getElem hk, List.getLast?_concat]
    rw [hlast, Option.map_some, Option.getD_some] at hcursor
    obtain ⟨hi, rfl⟩ := List.getElem?_eq_some_iff.1 ht
    rw [hcursor, Nat.lt_succ_iff]
    constructor
    · intro hle
      by_contra hlt
      have hlt := List.pairwise_iff_getElem.1 hsorted k i hk hi (by omega)
      exact absurd hlt (not_lt.2 hle)
    · intro hle
      rcases hle.lt_or_eq with hlt | rfl
      · exact (List.pairwise_iff_getElem.1 hsorted i k hi hk hlt).le
      · exact le_rfl

theorem initial_le_cursor (h : indexer.Synced pools pool name initial s k) :
    initial.cursorOf pool ≤ s.state.cursorOf pool := by
  rw [h.cursor_eq]
  cases hlast : ((s.pending name (initial.cursorOf pool)).take k).getLast? with
  | none => exact le_rfl
  | some t =>
    have hmem := List.mem_of_mem_take (List.mem_of_getLast? hlast)
    exact (MemoryStore.mem_pending.1 hmem).2.2.le

/-- The least pending row above the cursor is the next one. -/
theorem next (h : indexer.Synced pools pool name initial s k) (hs : s.KeepsOrder name)
    {t : StoredTransaction} (ht : t ∈ s.pending name (initial.cursorOf pool))
    (habove : s.state.cursorOf pool < t.id)
    (hleast : ∀ u ∈ s.pending name (initial.cursorOf pool),
      s.state.cursorOf pool < u.id → t.id ≤ u.id) :
    indexer.Synced pools pool name initial
      { s with state := indexer.applied pools pool s.state t } (k + 1) := by
  have hnext : (s.pending name (initial.cursorOf pool))[k]? = some t :=
    getElem?_eq_of_least (hs.pairwise_pending _) (h.id_le_cursor_iff hs) ht habove hleast
  obtain ⟨hk, hget⟩ := List.getElem?_eq_some_iff.1 hnext
  have htake : (s.pending name (initial.cursorOf pool)).take (k + 1) =
      (s.pending name (initial.cursorOf pool)).take k ++ [t] := by
    rw [List.take_succ_eq_append_getElem hk, hget]
  refine ⟨hk, ?_, ?_⟩
  · show indexer.Applies pools pool initial
      ((s.pending name (initial.cursorOf pool)).take (k + 1)) _
    rw [applies_iff, htake, List.foldl_append, (applies_iff ..).1 h.applies]
    rfl
  · show _ = (((s.pending name (initial.cursorOf pool)).take
      (k + 1)).getLast?.map (·.id)).getD _
    rw [htake, List.getLast?_concat, cursor_applied]
    exact max_eq_right habove.le

/-- When no row is left above the cursor, all rows are applied. -/
theorem eq_length (h : indexer.Synced pools pool name initial s k) (hs : s.KeepsOrder name)
    (hnone : s.rowsAfter name (s.state.cursorOf pool) = []) :
    k = (s.pending name (initial.cursorOf pool)).length := by
  by_contra hne
  have hk : k < (s.pending name (initial.cursorOf pool)).length :=
    lt_of_le_of_ne h.le_length hne
  have hget := List.getElem?_eq_getElem hk
  have habove := mt (h.id_le_cursor_iff hs k _ hget).1 (lt_irrefl k)
  obtain ⟨hstored, hpool, -⟩ := MemoryStore.mem_pending.1 (List.mem_of_getElem? hget)
  have hmem := MemoryStore.mem_rowsAfter.2 ⟨hstored, hpool, not_le.1 habove⟩
  rw [hnone] at hmem
  exact List.not_mem_nil hmem

end Synced

/-- All states of a journal have applied their first pending rows, and never fewer than before. -/
structure KeepsUp (indexer : Indexer) (pools : PoolSnapshot) (pool : PoolConfig) (name : String)
    (initial : MemoryState) (j : Journal MemoryStore) (k : Nat) : Prop where
  tracks : j.Tracks (indexer.Synced pools pool name initial) k
  order : j.store.KeepsOrder name

/-- How pages are requested does not matter. -/
theorem KeepsUp.congr {indexer' : Indexer} {j : Journal MemoryStore} {k : Nat}
    (h : indexer.KeepsUp pools pool name initial j k)
    (happlied : indexer.applied pools pool = indexer'.applied pools pool) :
    indexer'.KeepsUp pools pool name initial j k where
  tracks := h.tracks.mono fun _ _ hs =>
    ⟨hs.le_length, (applies_iff ..).2 (happlied ▸ (applies_iff ..).1 hs.applies), hs.cursor_eq⟩
  order := h.order

/-- To apply the least pending row above the cursor is to go on by one. -/
theorem KeepsUp.commit {j : Journal MemoryStore} {k : Nat}
    (h : indexer.KeepsUp pools pool name initial j k) {t : StoredTransaction}
    (ht : t ∈ j.store.pending name (initial.cursorOf pool))
    (habove : j.store.state.cursorOf pool < t.id)
    (hleast : ∀ u ∈ j.store.pending name (initial.cursorOf pool),
      j.store.state.cursorOf pool < u.id → t.id ≤ u.id) :
    indexer.KeepsUp pools pool name initial (indexer.enter pools pool j t) (k + 1) where
  tracks := h.tracks.record (h.tracks.now.next h.order ht habove hleast) (Nat.le_succ k)
  order := h.order.congr rfl

/-- A cycle under way on a journal that keeps up with the source. -/
structure Follows (indexer : Indexer) (pools : PoolSnapshot) (pool : PoolConfig) (name : String)
    (initial : MemoryState) (s : CycleState (Journal MemoryStore)) (k : Nat) : Prop
    extends CycleState.Attuned pool s where
  keepsUp : indexer.KeepsUp pools pool name initial s.link.store k

namespace Follows

variable {s : CycleState (Journal MemoryStore)} {k : Nat}

/-- A call that did not commit leaves the cycle where it is. -/
theorem of_undone (h : indexer.Follows pools pool name initial s k)
    {link : Link (Journal MemoryStore)} (hundone : s.link.Undone link) {report : CycleReport}
    (hcursor : report.cursor = s.report.cursor) :
    indexer.Follows pools pool name initial ⟨link, report⟩ k := by
  refine ⟨h.toAttuned.of_undone hundone hcursor, ?_⟩
  show indexer.KeepsUp pools pool name initial link.store k
  rw [hundone.store_eq]
  exact h.keepsUp

/-- A row that is not above the cursor is passed over, and the least pending one above it is applied
unless something fails. -/
theorem applyRow (h : indexer.Follows pools pool name initial s k) {t : StoredTransaction}
    (ht : t ∈ s.link.store.store.pending name (initial.cursorOf pool))
    (hleast : ∀ u ∈ s.link.store.store.pending name (initial.cursorOf pool),
      s.report.cursor < u.id → s.report.cursor < t.id → t.id ≤ u.id) :
    ∃ u k', k ≤ k' ∧ indexer.Follows pools pool name initial u k' ∧
      u.link.fetches = s.link.fetches ∧
      u.link.store.store.transactions = s.link.store.store.transactions ∧
      ((∃ stop, indexer.applyRow pools pool none t s = .error stop u) ∨
        indexer.applyRow pools pool none t s = .ok () u ∧
          u.report.cursor = max s.report.cursor t.id) := by
  obtain ⟨u, hu, hfetches, hrow⟩ := h.applyRow_cases indexer pools none t
  rcases hrow with ⟨hle, rfl, hrun⟩ | ⟨hstore, stop, hrun⟩ | ⟨habove, -, hstore, hcursor, hrun⟩
  · exact ⟨u, k, le_rfl, h, rfl, rfl, .inr ⟨hrun, (max_eq_left hle).symm⟩⟩
  · refine ⟨u, k, le_rfl, ⟨hu, hstore ▸ h.keepsUp⟩, hfetches, ?_, .inl ⟨stop, hrun⟩⟩
    exact congrArg (·.store.transactions) hstore
  · have hleast : ∀ u ∈ s.link.store.store.pending name (initial.cursorOf pool),
        s.link.store.store.state.cursorOf pool < u.id → t.id ≤ u.id := fun u hu hlt =>
      hleast u hu (h.cursor_eq ▸ hlt) habove
    have hcommit := h.keepsUp.commit ht (h.cursor_eq ▸ habove) hleast
    refine ⟨u, k + 1, Nat.le_succ k, ⟨hu, hstore ▸ hcommit⟩, hfetches, ?_, .inr ⟨hrun, ?_⟩⟩
    · exact congrArg (·.store.transactions) hstore
    · exact hcursor.trans (max_eq_right habove.le).symm

/-- Rows in the order of their ids, with which the pending rows above the cursor begin, are applied
in turn unless something fails. -/
theorem applyRows (h : indexer.Follows pools pool name initial s k) {page : List StoredTransaction}
    (hsorted : page.Pairwise fun t u => t.id ≤ u.id)
    (hpage : ∀ t ∈ page, t ∈ s.link.store.store.pending name (initial.cursorOf pool))
    (hfirst : ∀ u ∈ s.link.store.store.pending name (initial.cursorOf pool),
      s.report.cursor < u.id → u ∈ page ∨ ∀ t ∈ page, t.id ≤ u.id) :
    ∃ u k', k ≤ k' ∧ indexer.Follows pools pool name initial u k' ∧
      u.link.fetches = s.link.fetches ∧
      u.link.store.store.transactions = s.link.store.store.transactions ∧
      ((∃ stop, page.forM (indexer.applyRow pools pool none) s = .error stop u) ∨
        page.forM (indexer.applyRow pools pool none) s = .ok () u ∧
          s.report.cursor ≤ u.report.cursor ∧ ∀ t ∈ page, t.id ≤ u.report.cursor) := by
  induction page generalizing s k with
  | nil => exact ⟨s, k, le_rfl, h, rfl, rfl, .inr ⟨rfl, le_rfl, by simp⟩⟩
  | cons t rest ih =>
    obtain ⟨ht, hrest⟩ := List.pairwise_cons.1 hsorted
    have hleast : ∀ u ∈ s.link.store.store.pending name (initial.cursorOf pool),
        s.report.cursor < u.id → s.report.cursor < t.id → t.id ≤ u.id := by
      intro u hu habove _
      rcases hfirst u hu habove with hmem | hall
      · rcases List.mem_cons.1 hmem with rfl | hmem
        · exact le_rfl
        · exact ht u hmem
      · exact hall t List.mem_cons_self
    obtain ⟨mid, kmid, hkmid, hmid, hfetches, hrows, hrow⟩ :=
      h.applyRow (hpage t List.mem_cons_self) hleast
    rcases hrow with ⟨stop, hrow⟩ | ⟨hrow, hcursor⟩
    · exact ⟨mid, kmid, hkmid, hmid, hfetches, hrows, .inl ⟨stop, bind_of_error hrow _⟩⟩
    · have hpending := MemoryStore.pending_congr hrows name (initial.cursorOf pool)
      -- what is above the new cursor was above the old one, and is not the row just applied
      have hfirst' : ∀ u ∈ mid.link.store.store.pending name (initial.cursorOf pool),
          mid.report.cursor < u.id → u ∈ rest ∨ ∀ t ∈ rest, t.id ≤ u.id := by
        intro u hu habove
        rw [hpending] at hu
        rw [hcursor] at habove
        rcases hfirst u hu ((le_max_left _ _).trans_lt habove) with hmem | hall
        · rcases List.mem_cons.1 hmem with rfl | hmem
          · exact absurd habove (not_lt.2 (le_max_right _ _))
          · exact .inl hmem
        · exact .inr fun v hv => hall v (List.mem_cons_of_mem _ hv)
      obtain ⟨u, k', hk', hu, hfetches', hrows', hrun⟩ := ih hmid hrest
        (fun v hv => hpending ▸ hpage v (List.mem_cons_of_mem _ hv)) hfirst'
      refine ⟨u, k', hkmid.trans hk', hu, hfetches'.trans hfetches, hrows'.trans hrows, ?_⟩
      rcases hrun with ⟨stop, hrun⟩ | ⟨hrun, hle, hall⟩
      · exact .inl ⟨stop, (bind_of_ok hrow _).trans hrun⟩
      · refine .inr ⟨(bind_of_ok hrow _).trans hrun, ?_, fun v hv => ?_⟩
        · exact ((le_max_left _ _).trans hcursor.ge).trans hle
        · rcases List.mem_cons.1 hv with rfl | hv
          · exact ((le_max_right _ _).trans hcursor.ge).trans hle
          · exact hall v hv

/-- A page of rows after the cursor is applied in turn unless something fails. -/
theorem applyPage (h : indexer.Follows pools pool name initial s k) (limit : Nat) :
    ∃ u k', k ≤ k' ∧ indexer.Follows pools pool name initial u k' ∧
      u.link.fetches = s.link.fetches ∧
      u.link.store.store.transactions = s.link.store.store.transactions ∧
      ((∃ stop, indexer.applyPage pools pool
          ((s.link.store.store.rowsAfter name s.report.cursor).take limit) s = .error stop u) ∨
        indexer.applyPage pools pool
            ((s.link.store.store.rowsAfter name s.report.cursor).take limit) s = .ok () u ∧
          s.report.cursor ≤ u.report.cursor ∧
          ∀ t ∈ (s.link.store.store.rowsAfter name s.report.cursor).take limit,
            t.id ≤ u.report.cursor) := by
  have hrows := h.keepsUp.order.pairwise_rowsAfter s.report.cursor
  have hsorted := hrows.sublist (List.take_sublist limit _)
  rw [indexer.applyPage_of_none pools pool (findInversion?_eq_none_iff.2 hsorted)]
  refine h.applyRows hsorted (fun t ht => ?_) fun u hu habove => ?_
  · obtain ⟨hstored, hpool, hid⟩ := MemoryStore.mem_rowsAfter.1 (List.mem_of_mem_take ht)
    refine MemoryStore.mem_pending.2 ⟨hstored, hpool, ?_⟩
    rw [h.cursor_eq] at hid
    exact h.keepsUp.tracks.now.initial_le_cursor.trans_lt hid
  · -- what is not on the page comes after it
    obtain ⟨hstored, hpool, -⟩ := MemoryStore.mem_pending.1 hu
    have hmem := MemoryStore.mem_rowsAfter.2 ⟨hstored, hpool, habove⟩
    rw [← List.take_append_drop limit (s.link.store.store.rowsAfter name s.report.cursor)]
      at hmem hrows
    rcases List.mem_append.1 hmem with hmem | hmem
    · exact .inl hmem
    · exact .inr fun t ht => (List.pairwise_append.1 hrows).2.2 t ht u hmem

/-- A page that was fetched is applied in turn unless something fails, and all its rows are above
the old cursor. -/
theorem applyPage_fetched (h : indexer.Follows pools pool name initial s k)
    {page : List StoredTransaction} {link : Link (Journal MemoryStore)}
    (hfetch : Link.fetchPage name s.report.cursor indexer.pageSize indexer.fetchRetries s.link =
      .ok page link) :
    ∃ u k', k ≤ k' ∧ indexer.Follows pools pool name initial u k' ∧
      u.link.fetches <:+ s.link.fetches ∧
      u.link.store.store.transactions = s.link.store.store.transactions ∧
      ((∃ stop, indexer.applyPage pools pool page ⟨link, s.report.addPage⟩ = .error stop u) ∨
        indexer.applyPage pools pool page ⟨link, s.report.addPage⟩ = .ok () u ∧
          ∀ t ∈ page, s.report.cursor < t.id ∧ t.id ≤ u.report.cursor) := by
  obtain ⟨hundone, hpage⟩ := h.of_fetchPage_ok hfetch
  have hstore : link.store.store = s.link.store.store := congrArg (·.store) hundone.store_eq
  have hbegun : indexer.Follows pools pool name initial ⟨link, s.report.addPage⟩ k :=
    h.of_undone hundone rfl
  obtain ⟨u, k', hk', hu, hfetches, hrows, hrun⟩ := hbegun.applyPage indexer.pageSize
  have hpage' : (link.store.store.rowsAfter name s.report.addPage.cursor).take indexer.pageSize =
      page := by
    rw [hstore]
    exact hpage
  simp only [hpage'] at hrun
  refine ⟨u, k', hk', hu, ?_, hrows.trans (congrArg _ hstore), ?_⟩
  · rw [hfetches]
    exact hundone.fetches_suffix
  · refine hrun.imp_right fun ⟨hrun, _, hall⟩ => ⟨hrun, fun t ht => ⟨?_, hall t ht⟩⟩
    rw [← hpage] at ht
    exact (MemoryStore.mem_rowsAfter.1 (List.mem_of_mem_take ht)).2.2

/-- A page on which something fails is applied in part. -/
theorem applyPage_error (h : indexer.Follows pools pool name initial s k)
    {page : List StoredTransaction} {link : Link (Journal MemoryStore)} {stop : Stop}
    {u : CycleState (Journal MemoryStore)}
    (hfetch : Link.fetchPage name s.report.cursor indexer.pageSize indexer.fetchRetries s.link =
      .ok page link)
    (hrun : indexer.applyPage pools pool page ⟨link, s.report.addPage⟩ = .error stop u) :
    ∃ k', k ≤ k' ∧ indexer.Follows pools pool name initial u k' ∧
      u.link.store.store.transactions = s.link.store.store.transactions := by
  obtain ⟨u, k', hk', hu, -, hrows, ⟨stop, herror⟩ | ⟨hok, -⟩⟩ := h.applyPage_fetched hfetch
  · rw [hrun] at herror
    cases herror
    exact ⟨k', hk', hu, hrows⟩
  · rw [hrun] at hok
    cases hok

/-- A page on which nothing fails is applied as a whole, and its first row has moved the cursor. -/
theorem applyPage_ok (h : indexer.Follows pools pool name initial s k)
    {first : StoredTransaction} {rest : List StoredTransaction}
    {link : Link (Journal MemoryStore)} {u : CycleState (Journal MemoryStore)}
    (hfetch : Link.fetchPage name s.report.cursor indexer.pageSize indexer.fetchRetries s.link =
      .ok (first :: rest) link)
    (hrun : indexer.applyPage pools pool (first :: rest) ⟨link, s.report.addPage⟩ = .ok () u) :
    ∃ k', k ≤ k' ∧ indexer.Follows pools pool name initial u k' ∧
      u.link.store.store.transactions = s.link.store.store.transactions ∧ s.Advances u := by
  obtain ⟨u, k', hk', hu, hsuffix, hrows, ⟨stop, herror⟩ | ⟨hok, hall⟩⟩ :=
    h.applyPage_fetched hfetch
  · rw [hrun] at herror
    cases herror
  · rw [hrun] at hok
    cases hok
    obtain ⟨habove, hle⟩ := hall first List.mem_cons_self
    refine ⟨k', hk', hu, hrows, ?_⟩
    rcases hsuffix.length_le.lt_or_eq with hlt | heq
    · exact .inl hlt
    · exact .inr ⟨heq, habove.trans_le hle⟩

/-- The pages of a cycle come to an end, and when the cycle reports no error, no row is left. -/
theorem applyPages (h : indexer.Follows pools pool name initial s k)
    (hsize : 1 ≤ indexer.pageSize) (start : UInt64) :
    ∃ k', k ≤ k' ∧
      indexer.KeepsUp pools pool name initial
        (indexer.applyPages pools name pool start s).2.store k' ∧
      (indexer.applyPages pools name pool start s).2.store.store.transactions =
        s.link.store.store.transactions ∧
      (indexer.applyPages pools name pool start s).1 ≠ .endless ∧
      ∀ report, (indexer.applyPages pools name pool start s).1 = .report report →
        report.error = none →
        k' = (s.link.store.store.pending name (initial.cursorOf pool)).length := by
  fun_induction Indexer.applyPages indexer pools name pool start s generalizing k with
  | case1 s link hfetch =>
    have hundone := Link.undone_of_fetchPage_error h.asks hfetch
    refine ⟨k, le_rfl, (h.of_undone hundone rfl).keepsUp, ?_, by simp, by simp⟩
    exact congrArg (·.store.transactions) hundone.store_eq
  | case2 s e link hfetch =>
    have hundone := Link.undone_of_fetchPage_error h.asks hfetch
    refine ⟨k, le_rfl, (h.of_undone hundone rfl).keepsUp, ?_, by simp, ?_⟩
    · exact congrArg (·.store.transactions) hundone.store_eq
    · rintro report ⟨⟩ herror
      cases herror
  | case3 s link hfetch =>
    obtain ⟨hundone, hpage⟩ := h.of_fetchPage_ok hfetch
    refine ⟨k, le_rfl, (h.of_undone hundone rfl).keepsUp, ?_, by simp, fun _ _ _ => ?_⟩
    · exact congrArg (·.store.transactions) hundone.store_eq
    · -- an empty page means that no row is left above the cursor
      rw [List.take_eq_nil_iff, or_iff_right (by omega), h.cursor_eq] at hpage
      exact h.keepsUp.tracks.now.eq_length h.keepsUp.order hpage
  | case4 s first rest link hfetch t hrun =>
    obtain ⟨k', hk', ht, hrows⟩ := h.applyPage_error hfetch hrun
    exact ⟨k', hk', ht.keepsUp, hrows, by simp, by simp⟩
  | case5 s first rest link hfetch e t hrun =>
    obtain ⟨k', hk', ht, hrows⟩ := h.applyPage_error hfetch hrun
    refine ⟨k', hk', ht.keepsUp, hrows, by simp, ?_⟩
    rintro report ⟨⟩ hnone
    cases hnone
  | case6 s first rest link hfetch u t hrun hadvances ih =>
    obtain ⟨k', hk', hu, hrows, -⟩ := h.applyPage_ok hfetch hrun
    obtain ⟨k'', hk'', hkeeps, hrows', hends, hall⟩ := ih hu
    rw [MemoryStore.pending_congr hrows] at hall
    exact ⟨k'', hk'.trans hk'', hkeeps, hrows'.trans hrows, hends, hall⟩
  | case7 s first rest link hfetch u t hrun hadvances =>
    -- a page that was applied always advances the cycle, so this branch is dead
    obtain ⟨-, -, -, -, hadvances'⟩ := h.applyPage_ok hfetch hrun
    exact absurd hadvances' hadvances

end Follows

/-- Whatever fails, a cycle ends, and the store has applied its first pending rows at all times. If
the cycle reports no error, it has applied all of them. -/
theorem KeepsUp.runCycle {j : Link (Journal MemoryStore)} {k : Nat}
    (h : indexer.KeepsUp pools pool name initial j.store k) (hpool : pools.find? name = some pool)
    (hsize : 1 ≤ indexer.pageSize) (hasks : j.AsksStore) :
    ∃ k', k ≤ k' ∧
      indexer.KeepsUp pools pool name initial (indexer.runCycle pools name j).2.store k' ∧
      (indexer.runCycle pools name j).2.store.store.transactions = j.store.store.transactions ∧
      (indexer.runCycle pools name j).1 ≠ .endless ∧
      ∀ report, (indexer.runCycle pools name j).1 = .report report → report.error = none →
        k' = (j.store.store.pending name (initial.cursorOf pool)).length := by
  obtain ⟨s, hs, hundone, hcases⟩ := indexer.runCycle_cases hpool hasks
  have hfollows : indexer.Follows pools pool name initial s k := ⟨hs, hundone.store_eq ▸ h⟩
  have hrows : s.link.store.store.transactions = j.store.store.transactions :=
    congrArg (·.store.transactions) hundone.store_eq
  rcases hcases with ⟨ending, hrun, hends, herror⟩ | ⟨start, hrun⟩
  · rw [hrun]
    refine ⟨k, le_rfl, hfollows.keepsUp, hrows, hends, fun report hreport hnone => ?_⟩
    exact absurd hnone (herror report hreport)
  · rw [hrun]
    obtain ⟨k', hk', hkeeps, hrows', hends, hall⟩ := hfollows.applyPages hsize start
    refine ⟨k', hk', hkeeps, hrows'.trans hrows, hends, fun report hreport hnone => ?_⟩
    rw [hall report hreport hnone]
    exact congrArg List.length (MemoryStore.pending_congr hrows name _)

end Indexer

end PoolKlines
