import PoolKlines.Proofs.Store.Archive
import PoolKlines.Proofs.Sync.Drain
import PoolKlines.Proofs.Sync.Durable

/-!
# A durable store in use

A worker is not alone with its store. Transactions are stored while its cycle runs, pools are given
shards, another connection takes the lock, and the workers of other pools commit.

* `Interference` is what may happen to the store between the calls of a worker, and
  `Interference.perform` carries it out;
* `Database.Grows` says that rows were added at the end of the table, and `Interference.grows` and
  `Interference.hasCursor` say what interference leaves of the table and of the worker's cursor;
* `SharedStore` is a durable store on which such events follow every commit, and `GoesOn` is what
  they and the commits of the worker keep up;
* `SharedStore.feeds`: for the worker, a shared store serves its rows in the order of their ids.

A batch holds the only connection, so nothing comes between its beginning and its commit. What comes
between a request and the next batch neither changes the page nor what the batch writes, and is the
same after the commit; a lock taken there is a fault of the batch, and the worker's pool has its
shard before the store is shared.
-/

namespace PoolKlines

/-- Rows were added at the end of the table, under ids above all that were given before. -/
structure Database.Grows (d d' : Database) (rows more : List StoredTransaction) : Prop where
  archives : d'.Archives (rows ++ more)
  lastId_le : d.lastId.toUInt64 ≤ d'.lastId.toUInt64
  above : ∀ t ∈ more, d.lastId.toUInt64 < t.id

namespace Database.Grows

variable {d d' d'' : Database} {rows more more' : List StoredTransaction}

theorem of_eq (h : d.Archives rows) (htransactions : d'.transactions = d.transactions)
    (hlast : d'.lastId = d.lastId) : d.Grows d' rows [] := by
  refine ⟨?_, hlast ▸ le_rfl, by simp⟩
  rw [List.append_nil]
  exact h.congr htransactions hlast

theorem trans (h : d.Grows d' rows more) (h' : d'.Grows d'' (rows ++ more) more') :
    d.Grows d'' rows (more ++ more') := by
  refine ⟨List.append_assoc rows more more' ▸ h'.archives, h.lastId_le.trans h'.lastId_le, ?_⟩
  intro t ht
  rcases List.mem_append.1 ht with ht | ht
  · exact h.above t ht
  · exact h.lastId_le.trans_lt (h'.above t ht)

end Database.Grows

/-! ### Interference -/

/-- What may happen to a store apart from the calls of the worker of a pool at a version. -/
inductive Interference (address : String) (version : ProtocolVersion)
  /-- A transaction is to be stored for some pool. -/
  | insert (pool : String) (t : Transaction) (hslot : t.slot.toNat < 2 ^ 63)
  /-- Pools are to be given shards. -/
  | assign (pools : List String)
  /-- Another connection takes or releases the lock for writing. -/
  | lock (held : Bool)
  /-- The worker of another pool applies a transaction. -/
  | apply (indexer : Indexer) (pools : PoolSnapshot) (pool : PoolConfig) (t : StoredTransaction)
      (hother : ¬ (pool.address = address ∧ pool.version = version))

variable {address : String} {version : ProtocolVersion}

namespace Interference

/-- What an event leaves of a store, whether it fails or not. -/
def perform (s : DurableStore) : Interference address version → DurableStore
  | insert pool t _ =>
    match s.insert pool t with
    | .ok (_, s) => s
    | .error _ => s
  | assign pools => (s.assignPools pools).2
  | lock held => { s with locked := held }
  | apply indexer pools pool t _ =>
    (lastState (indexer.process pools pool t (Link.ofStore s))).store

variable {s : DurableStore} {rows : List StoredTransaction}

theorem assignPools_database (s : DurableStore) (pools : List String) :
    (s.assignPools pools).2.database.transactions = s.database.transactions ∧
      (s.assignPools pools).2.database.lastId = s.database.lastId ∧
      (s.assignPools pools).2.database.cursors = s.database.cursors := by
  unfold DurableStore.assignPools
  simp only
  split
  · exact ⟨rfl, rfl, rfl⟩
  · split
    · exact ⟨rfl, rfl, rfl⟩
    · exact ⟨rfl, rfl, rfl⟩

/-- A transaction leaves the store as it was, or a row is added. -/
theorem perform_insert_cases (h : s.database.Archives rows) (pool : String) (t : Transaction)
    (hslot : t.slot.toNat < 2 ^ 63) :
    perform s (insert pool t hslot : Interference address version) = s ∨
      ∃ row, s.database.Grows
          (perform s (insert pool t hslot : Interference address version)).database rows [row] ∧
        (perform s (insert pool t hslot : Interference address version)).database.cursors =
          s.database.cursors := by
  have houtcome := h.insert pool hslot
  cases hresult : s.insert pool t with
  | error e =>
    simp only [perform, hresult]
    exact .inl trivial
  | ok answer =>
    simp only [perform, hresult]
    rw [hresult] at houtcome
    cases houtcome with
    | known => exact .inl rfl
    | stored hnew hslots hid harchives hrest =>
      refine .inr ⟨_, ⟨harchives, ?_, List.forall_mem_singleton.2 hid⟩, ?_⟩
      · exact hid.le.trans (harchives.le_last _ (List.mem_append_right _ List.mem_cons_self))
      · exact (congrArg Database.cursors hrest :)

/-- Another worker leaves the store as it was, or commits to it. -/
theorem perform_apply_cases (indexer : Indexer) (pools : PoolSnapshot) (pool : PoolConfig)
    (t : StoredTransaction) (hother : ¬ (pool.address = address ∧ pool.version = version))
    (s : DurableStore) :
    perform s (apply indexer pools pool t hother) = s ∨
      indexer.Commits pools pool s t (perform s (apply indexer pools pool t hother)) := by
  simp only [perform]
  obtain ⟨rest, -, ⟨stop, hprocess, hstore⟩ | ⟨hprocess, hcommits⟩⟩ :=
    indexer.process_commits pools pool t (Link.ofStore s)
  · rw [hprocess]
    exact .inl hstore
  · rw [hprocess]
    exact .inr hcommits

/-- Rows are only added at the end. -/
theorem grows (h : s.database.Archives rows) (e : Interference address version) :
    ∃ more, s.database.Grows (perform s e).database rows more := by
  cases e with
  | insert pool t hslot =>
    rcases perform_insert_cases h pool t hslot with hstore | ⟨row, hrow, -⟩
    · exact ⟨[], hstore.symm ▸ .of_eq h rfl rfl⟩
    · exact ⟨[row], hrow⟩
  | assign pools =>
    obtain ⟨htransactions, hlast, -⟩ := assignPools_database s pools
    exact ⟨[], .of_eq h htransactions hlast⟩
  | lock held => exact ⟨[], .of_eq h rfl rfl⟩
  | apply indexer pools pool t hother =>
    rcases perform_apply_cases indexer pools pool t hother s with hstore | hcommits
    · exact ⟨[], hstore.symm ▸ .of_eq h rfl rfl⟩
    · have hsource := hcommits.durable.1
      exact ⟨[], .of_eq h hsource.transactions_eq hsource.lastId_eq⟩

/-- The cursor of the worker stays. -/
theorem hasCursor (h : s.database.Archives rows) (e : Interference address version)
    {cursor : UInt64} (hcursor : s.database.HasCursor address version cursor) :
    (perform s e).database.HasCursor address version cursor := by
  cases e with
  | insert pool t hslot =>
    rcases perform_insert_cases h pool t hslot with hstore | ⟨row, -, hcursors⟩
    · rwa [hstore]
    · exact hcursor.congr hcursors
  | assign pools => exact hcursor.congr (assignPools_database s pools).2.2
  | lock held => exact hcursor
  | apply indexer pools pool t hother =>
    rcases perform_apply_cases indexer pools pool t hother s with hstore | hcommits
    · rwa [hstore]
    · exact (hcursor.advance_of_ne hother t.id).congr hcommits.durable.2

/-- Several events in turn. -/
theorem performAll (h : s.database.Archives rows) (events : List (Interference address version)) :
    (∃ more, s.database.Grows (events.foldl perform s).database rows more) ∧
      ∀ {cursor}, s.database.HasCursor address version cursor →
        (events.foldl perform s).database.HasCursor address version cursor := by
  induction events generalizing s rows with
  | nil => exact ⟨⟨[], .of_eq h rfl rfl⟩, id⟩
  | cons e events ih =>
    obtain ⟨more, hmore⟩ := grows h e
    obtain ⟨⟨more', hmore'⟩, hcursor⟩ := ih hmore.archives
    exact ⟨⟨more ++ more', hmore.trans hmore'⟩, fun hbefore => hcursor (hasCursor h e hbefore)⟩

end Interference

/-! ### Shared stores -/

/-- A durable store, and what will happen to it after each of the next commits. -/
structure SharedStore (address : String) (version : ProtocolVersion) where
  store : DurableStore
  meanwhile : List (List (Interference address version))

namespace SharedStore

/-- What happens after a commit that leaves a store. -/
def goOn (s : SharedStore address version) (store : DurableStore) : SharedStore address version :=
  ⟨(s.meanwhile.headD []).foldl Interference.perform store, s.meanwhile.tail⟩

instance : Store (SharedStore address version) DurableBatch where
  toBatch := inferInstance
  cursor s := Store.cursor s.store
  begin s := Store.begin s.store
  commit s batch := (Store.commit s.store batch).map s.goOn
  fetchAfter s := Store.fetchAfter s.store

end SharedStore

namespace Indexer

variable {indexer : Indexer} {pools : PoolSnapshot} {pool : PoolConfig} {t : StoredTransaction}

/-- A commit to a shared store is one to the store that is shared, and what happens after it. -/
theorem commits_shared {s s' : SharedStore address version} :
    indexer.Commits pools pool s t s' ↔
      ∃ d, indexer.Commits pools pool s.store t d ∧ s' = s.goOn d := by
  constructor
  · rintro ⟨batch, staged, hbegin, hstage, hcommit⟩
    obtain ⟨d, hstore, rfl⟩ := map_eq_ok.1 hcommit
    exact ⟨d, ⟨batch, staged, hbegin, hstage, hstore⟩, rfl⟩
  · rintro ⟨d, ⟨batch, staged, hbegin, hstage, hstore⟩, rfl⟩
    exact ⟨batch, staged, hbegin, hstage, map_eq_ok.2 ⟨d, hstore, rfl⟩⟩

end Indexer

namespace SharedStore

/-- Since a database held some rows, rows were only added at the end, the worker's cursor has moved
to a number, and the table was in order at all times. -/
structure GoesOn (d : Database) (rows : List StoredTransaction)
    (j : Journal (SharedStore address version)) (cursor : UInt64) : Prop where
  grows : ∃ more, d.Grows j.store.store.database rows more
  hasCursor : j.store.store.database.HasCursor address version cursor
  always : ∀ s ∈ j.past, ∃ rows, s.store.database.Archives rows

variable {d : Database} {rows : List StoredTransaction}
  {j j' : Journal (SharedStore address version)} {cursor : UInt64}

/-- A commit to a shared store and what happens after it. -/
theorem goOn_commits {indexer : Indexer} {pools : PoolSnapshot} {pool : PoolConfig}
    {t : StoredTransaction} {s s' : SharedStore address version}
    (h : s.store.database.Archives rows) (hcommits : indexer.Commits pools pool s t s') :
    (∃ more, s.store.database.Grows s'.store.database rows more) ∧
      (pool.address = address → pool.version = version → ∀ cursor,
        s.store.database.HasCursor address version cursor → cursor < t.id →
        t.id.toNat < 2 ^ 63 → s'.store.database.HasCursor address version t.id) := by
  obtain ⟨d, hstore, rfl⟩ := Indexer.commits_shared.1 hcommits
  obtain ⟨hsource, hcursors⟩ := hstore.durable
  have hcommitted := Database.Grows.of_eq h hsource.transactions_eq hsource.lastId_eq
  obtain ⟨⟨more, hmore⟩, hcursor⟩ :=
    Interference.performAll hcommitted.archives (s.meanwhile.headD [])
  refine ⟨⟨[] ++ more, hcommitted.trans hmore⟩, ?_⟩
  rintro rfl rfl cursor hbefore habove hid
  exact hcursor ((hbefore.advance habove hid).congr hcursors)

theorem GoesOn.commit {indexer : Indexer} {pools : PoolSnapshot} {pool : PoolConfig}
    (hpool : pool.address = address ∧ pool.version = version) (h : GoesOn d rows j cursor)
    {t : StoredTransaction} (habove : cursor < t.id) (hid : t.id.toNat < 2 ^ 63)
    (hcommits : indexer.Commits pools pool j t j') : GoesOn d rows j' t.id := by
  obtain ⟨s', hshared, rfl⟩ := Indexer.commits_journal.1 hcommits
  obtain ⟨more, hmore⟩ := h.grows
  obtain ⟨⟨more', hmore'⟩, hcursor⟩ := goOn_commits hmore.archives hshared
  refine ⟨⟨more ++ more', hmore.trans hmore'⟩,
    hcursor hpool.1 hpool.2 cursor h.hasCursor habove hid, fun s hs => ?_⟩
  rcases List.mem_append.1 hs with hs | hs
  · exact h.always s hs
  · obtain rfl := List.mem_singleton.1 hs
    exact ⟨_, hmore'.archives⟩

/-- The rows of the worker's pool in the table. -/
def RowsOf (address : String) (j : Journal (SharedStore address version))
    (all : List StoredTransaction) : Prop :=
  ∃ rows, j.store.store.database.Archives rows ∧ all = rows.filter (·.pool = address)

/-- A shared store serves the rows of the worker's pool in the order of their ids. -/
theorem feeds (indexer : Indexer) (hlimit : indexer.pageSize < 2 ^ 64) (pools : PoolSnapshot)
    (pool : PoolConfig) :
    indexer.Feeds (σ := Journal (SharedStore address version)) pools pool address
      (RowsOf address) where
  ids := by
    rintro j all ⟨rows, hrows, rfl⟩
    exact hrows.ids.filter _
  id_lt := by
    rintro j all ⟨rows, hrows, rfl⟩ t ht
    exact hrows.id_lt (List.mem_filter.1 ht).1
  serves := by
    rintro j all ⟨rows, hrows, rfl⟩ after hafter
    refine (hrows.fetchAfter address after hlimit).trans ?_
    have habove : ¬ 2 ^ 63 ≤ after.toNat := not_le.2 hafter
    rw [List.filter_filter]
    simp only [habove, decide_false, Bool.false_or, Bool.and_comm]
  grows := by
    rintro j j' all t ⟨rows, hrows, rfl⟩ hcommits
    obtain ⟨s', hshared, rfl⟩ := Indexer.commits_journal.1 hcommits
    obtain ⟨⟨more, hmore⟩, -⟩ := goOn_commits hrows hshared
    exact ⟨more.filter (·.pool = address), rows ++ more, hmore.archives, by
      rw [List.filter_append]⟩

end SharedStore

end PoolKlines
