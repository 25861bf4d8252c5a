import PoolKlines.Sync.Link

/-!
# Requests over a link

* `Link.AsksStore` says that every request which does not fail is answered by the store;
* `Link.Undone` says that a call which did not commit has left the store as it was;
* `fetchPage_cases`: a request fails, or brings the page of the store, and changes nothing;
* `Link.Quiet` says that nothing goes wrong, and then calls bring what the store answers.
-/

namespace PoolKlines.Link

variable {σ β : Type} [Store σ β]

/-- No request is answered by a page that is not the store's. -/
def AsksStore (link : Link σ) : Prop := ∀ rows, FetchAction.page rows ∉ link.fetches

/-- The link after calls that did not commit. -/
structure Undone (link rest : Link σ) : Prop where
  store_eq : rest.store = link.store
  fetches_suffix : rest.fetches <:+ link.fetches

theorem Undone.trans {link mid rest : Link σ} (h : link.Undone mid) (h' : mid.Undone rest) :
    link.Undone rest :=
  ⟨h'.store_eq.trans h.store_eq, h'.fetches_suffix.trans h.fetches_suffix⟩

theorem AsksStore.of_suffix {link rest : Link σ} (h : link.AsksStore)
    (hsuffix : rest.fetches <:+ link.fetches) : rest.AsksStore :=
  fun rows hmem => h rows (hsuffix.subset hmem)

/-- A request fails or brings the page of the store. -/
theorem fetch_cases {link : Link σ} (h : link.AsksStore) (pool : String) (after : UInt64)
    (limit : Nat) :
    ∃ rest, link.Undone rest ∧
      ((∃ fault, fetch pool after limit link = .error fault rest) ∨
        ∃ rows, Store.fetchAfter link.store pool after limit = .ok rows ∧
          fetch pool after limit link = .ok rows rest) := by
  refine ⟨{ link with
    fetches := link.fetches.tail
    requests := link.requests ++ [⟨after, limit⟩] }, ⟨rfl, List.tail_suffix _⟩, ?_⟩
  cases hfetches : link.fetches with
  | nil =>
    simp only [fetch, hfetches, List.head?_nil, Option.getD_none, answer, finish]
    cases Store.fetchAfter link.store pool after limit with
    | error e => exact .inl ⟨_, rfl⟩
    | ok rows => exact .inr ⟨rows, rfl, rfl⟩
  | cons action rest =>
    simp only [fetch, hfetches, List.head?_cons, Option.getD_some, answer, finish]
    cases action with
    | ask =>
      cases Store.fetchAfter link.store pool after limit with
      | error e => exact .inl ⟨_, rfl⟩
      | ok rows => exact .inr ⟨rows, rfl, rfl⟩
    | page rows => exact absurd (hfetches ▸ List.mem_cons_self) (h rows)
    | fault fault => exact .inl ⟨fault, rfl⟩

/-- A request with retries fails or brings the page of the store. -/
theorem fetchPage_cases {link : Link σ} (h : link.AsksStore) (pool : String) (after : UInt64)
    (limit retries : Nat) :
    ∃ rest, link.Undone rest ∧
      ((∃ fault, fetchPage pool after limit retries link = .error fault rest) ∨
        ∃ rows, Store.fetchAfter link.store pool after limit = .ok rows ∧
          fetchPage pool after limit retries link = .ok rows rest) := by
  induction retries generalizing link with
  | zero => exact fetch_cases h pool after limit
  | succ retries ih =>
    obtain ⟨rest, hundone, hfetch⟩ := fetch_cases h pool after limit
    unfold fetchPage
    rcases hfetch with ⟨fault, hfetch⟩ | ⟨rows, hrows, hfetch⟩
    · rw [hfetch]
      cases fault with
      | abort => exact ⟨rest, hundone, .inl ⟨_, rfl⟩⟩
      | refuse e =>
        obtain ⟨last, hlast, hpage⟩ := ih (h.of_suffix hundone.fetches_suffix)
        rw [hundone.store_eq] at hpage
        exact ⟨last, hundone.trans hlast, hpage⟩
    · rw [hfetch]
      exact ⟨rest, hundone, .inr ⟨rows, hrows, rfl⟩⟩

theorem undone_of_fetchPage_error {link rest : Link σ} (h : link.AsksStore) {pool : String}
    {after : UInt64} {limit retries : Nat} {fault : Fault}
    (hpage : fetchPage pool after limit retries link = .error fault rest) : link.Undone rest := by
  obtain ⟨last, hundone, ⟨_, hlast⟩ | ⟨_, _, hlast⟩⟩ := fetchPage_cases h pool after limit retries
  · rw [hpage] at hlast
    cases hlast
    exact hundone
  · rw [hpage] at hlast
    cases hlast

theorem of_fetchPage_ok {link rest : Link σ} (h : link.AsksStore) {pool : String}
    {after : UInt64} {limit retries : Nat} {rows : List StoredTransaction}
    (hpage : fetchPage pool after limit retries link = .ok rows rest) :
    link.Undone rest ∧ Store.fetchAfter link.store pool after limit = .ok rows := by
  obtain ⟨last, hundone, ⟨_, hlast⟩ | ⟨_, hrows, hlast⟩⟩ :=
    fetchPage_cases h pool after limit retries
  · rw [hpage] at hlast
    cases hlast
  · rw [hpage] at hlast
    cases hlast
    exact ⟨hundone, hrows⟩

/-- Reading the cursor fails or brings the cursor of the store. -/
theorem readCursor_cases (link : Link σ) (pool : String) (version : ProtocolVersion) :
    ∃ rest, link.Undone rest ∧
      ((∃ fault, readCursor pool version link = .error fault rest) ∨
        ∃ cursor, Store.cursor link.store pool version = .ok cursor ∧
          readCursor pool version link = .ok cursor rest) := by
  refine ⟨{ link with reads := link.reads.tail }, ⟨rfl, List.suffix_refl _⟩, ?_⟩
  unfold readCursor answer finish
  cases link.reads.head?.join with
  | some fault => exact .inl ⟨fault, rfl⟩
  | none =>
    cases Store.cursor link.store pool version with
    | error e => exact .inl ⟨_, rfl⟩
    | ok cursor => exact .inr ⟨cursor, rfl, rfl⟩

/-- Beginning a batch fails or brings a batch of the store. -/
theorem begin_cases (link : Link σ) :
    ∃ rest, link.Undone rest ∧ rest.fetches = link.fetches ∧
      ((∃ fault, begin link = .error fault rest) ∨
        ∃ batch, Store.begin link.store = .ok batch ∧ begin link = .ok batch rest) := by
  refine ⟨{ link with begins := link.begins.tail }, ⟨rfl, List.suffix_refl _⟩, rfl, ?_⟩
  unfold begin answer finish
  cases link.begins.head?.join with
  | some fault => exact .inl ⟨fault, rfl⟩
  | none =>
    cases Store.begin link.store with
    | error e => exact .inl ⟨_, rfl⟩
    | ok batch => exact .inr ⟨batch, rfl, rfl⟩

/-- Committing a batch fails and leaves the store alone, or brings the store to the batch. -/
theorem commit_cases (link : Link σ) (batch : β) :
    ∃ rest, rest.fetches = link.fetches ∧
      ((∃ fault, commit batch link = .error fault rest ∧ rest.store = link.store) ∨
        ∃ store, Store.commit link.store batch = .ok store ∧ commit batch link = .ok () rest ∧
          rest.store = store) := by
  unfold commit answer
  cases link.commits.head?.join with
  | some fault => exact ⟨{ link with commits := link.commits.tail }, rfl, .inl ⟨fault, rfl, rfl⟩⟩
  | none =>
    cases Store.commit link.store batch with
    | error e => exact ⟨{ link with commits := link.commits.tail }, rfl, .inl ⟨_, rfl, rfl⟩⟩
    | ok store =>
      exact ⟨{ link with commits := link.commits.tail, store }, rfl, .inr ⟨store, rfl, rfl, rfl⟩⟩

/-! ### Links without faults -/

/-- Nothing goes wrong with any call. -/
structure Quiet (link : Link σ) : Prop where
  fetches_eq : link.fetches = []
  reads_eq : link.reads = []
  begins_eq : link.begins = []
  commits_eq : link.commits = []

theorem quiet_ofStore (store : σ) : (ofStore store).Quiet := ⟨rfl, rfl, rfl, rfl⟩

namespace Quiet

variable {link : Link σ}

theorem asksStore (h : link.Quiet) : link.AsksStore := by
  intro rows hmem
  rw [h.fetches_eq] at hmem
  exact List.not_mem_nil hmem

/-- A request that the store answers brings the answer. -/
theorem fetchPage (h : link.Quiet) {pool : String} {after : UInt64} {limit : Nat}
    {rows : List StoredTransaction}
    (hrows : Store.fetchAfter link.store pool after limit = .ok rows) (retries : Nat) :
    ∃ rest, rest.Quiet ∧ rest.store = link.store ∧
      Link.fetchPage pool after limit retries link = .ok rows rest := by
  have hfetch : fetch pool after limit link = .ok rows { link with
      fetches := link.fetches.tail
      requests := link.requests ++ [⟨after, limit⟩] } := by
    simp only [fetch, h.fetches_eq, List.head?_nil, Option.getD_none, answer, finish, hrows]
    rfl
  refine ⟨{ link with
      fetches := link.fetches.tail
      requests := link.requests ++ [⟨after, limit⟩] },
    ⟨congrArg List.tail h.fetches_eq, h.reads_eq, h.begins_eq, h.commits_eq⟩, rfl, ?_⟩
  cases retries with
  | zero => exact hfetch
  | succ retries =>
    unfold Link.fetchPage
    rw [hfetch]

/-- Reading a cursor brings the cursor. -/
theorem readCursor (h : link.Quiet) {pool : String} {version : ProtocolVersion} {cursor : UInt64}
    (hcursor : Store.cursor link.store pool version = .ok cursor) :
    ∃ rest, rest.Quiet ∧ rest.store = link.store ∧
      Link.readCursor pool version link = .ok cursor rest := by
  refine ⟨{ link with reads := link.reads.tail },
    ⟨h.fetches_eq, congrArg List.tail h.reads_eq, h.begins_eq, h.commits_eq⟩, rfl, ?_⟩
  simp only [Link.readCursor, answer, finish, h.reads_eq, List.head?_nil, Option.join_none, hcursor]
  rfl

end Quiet

end PoolKlines.Link
