import PoolKlines.Proofs.Sync.Carry
import PoolKlines.Proofs.Sync.Cycle

/-!
# Journals

A journal is a store that also remembers everything that was committed to it, so that one can say
what a store holds at all times and not only between cycles.

* `Journal` is a store in its own right;
* `Indexer.runCycle_journal`: a cycle on a journal is the cycle on the store that it keeps;
* `Indexer.enter` is what applying a transaction does to a journal of a store in memory, and
  `Indexer.process_journal` says that it does this or nothing.
-/

namespace PoolKlines

/-- A store and all its states so far, the current one last. -/
structure Journal (σ : Type) where
  store : σ
  past : List σ

namespace Journal

variable {σ β : Type}

/-- A journal that begins with a store. -/
def ofStore (store : σ) : Journal σ := ⟨store, [store]⟩

/-- Enter a new state. -/
def record (j : Journal σ) (store : σ) : Journal σ := ⟨store, j.past ++ [store]⟩

instance [Store σ β] : Store (Journal σ) β where
  toBatch := Store.toBatch σ
  cursor j := Store.cursor j.store
  begin j := Store.begin j.store
  commit j batch := (Store.commit j.store batch).map j.record
  fetchAfter j := Store.fetchAfter j.store

end Journal

/-! ### A journal does not disturb -/

namespace Link

variable {σ β : Type} [Store σ β]

/-- The link to the store that a journal keeps. -/
def erase (link : Link (Journal σ)) : Link σ := { link with store := link.store.store }

theorem finish_erase {α : Type} (link : Link (Journal σ)) (answer : Except Fault α) :
    link.erase.finish answer = mapState erase (link.finish answer) := by
  cases answer <;> rfl

theorem readCursor_erase (link : Link (Journal σ)) (pool : String) (version : ProtocolVersion) :
    readCursor pool version link.erase = mapState erase (readCursor pool version link) :=
  finish_erase { link with reads := link.reads.tail } _

theorem begin_erase (link : Link (Journal σ)) :
    begin link.erase = mapState erase (begin link) :=
  finish_erase { link with begins := link.begins.tail } _

theorem commit_erase (link : Link (Journal σ)) (batch : β) :
    commit batch link.erase = mapState erase (commit batch link) := by
  have hcommit : Store.commit link.store batch =
      (Store.commit link.store.store batch).map link.store.record := rfl
  simp only [commit, erase, hcommit]
  cases link.commits.head?.join with
  | some fault => rfl
  | none => cases Store.commit link.store.store batch <;> rfl

theorem fetch_erase (link : Link (Journal σ)) (pool : String) (after : UInt64) (limit : Nat) :
    fetch pool after limit link.erase = mapState erase (fetch pool after limit link) := by
  simp only [fetch, erase]
  cases link.fetches.head?.getD .ask with
  | ask => exact finish_erase { link with
      fetches := link.fetches.tail
      requests := link.requests ++ [⟨after, limit⟩] } _
  | page rows => rfl
  | fault fault => rfl

theorem fetchPage_erase (link : Link (Journal σ)) (pool : String) (after : UInt64)
    (limit retries : Nat) :
    fetchPage pool after limit retries link.erase =
      mapState erase (fetchPage pool after limit retries link) := by
  induction retries generalizing link with
  | zero => exact fetch_erase link pool after limit
  | succ retries ih =>
    unfold fetchPage
    rw [fetch_erase]
    cases fetch pool after limit link with
    | ok rows rest => rfl
    | error fault rest =>
      cases fault with
      | abort => rfl
      | refuse e => exact ih rest

end Link

/-- The cycle on the store that a journal keeps. -/
def CycleState.erase {σ : Type} (s : CycleState (Journal σ)) : CycleState σ :=
  ⟨s.link.erase, s.report⟩

namespace Indexer

variable {σ β : Type} [Store σ β]
variable (indexer : Indexer) (pools : PoolSnapshot) (pool : PoolConfig)

theorem process_erase (stored : StoredTransaction) (link : Link (Journal σ)) :
    indexer.process pools pool stored link.erase =
      mapState Link.erase (indexer.process pools pool stored link) := by
  rw [process_eq, process_eq, Link.begin_erase]
  cases Link.begin link with
  | error fault rest => rfl
  | ok batch begun =>
    simp only [mapState]
    cases hstage : indexer.stage pool stored.id (indexer.decode pools pool stored).1 batch with
    | error e rest => rfl
    | ok u staged =>
      simp only [Link.commit_erase]
      cases Link.commit staged begun <;> rfl

theorem turn_erase (name : String) (start : UInt64) (s : CycleState (Journal σ)) :
    indexer.turn pools name pool start s.erase =
      (indexer.turn pools name pool start s).carry Link.erase :=
  Carries.turn indexer.process_erase start rfl (Link.fetchPage_erase ..) fun _ _ _ _ _ => Iff.rfl

theorem applyPages_erase (name : String) (start : UInt64) (s : CycleState (Journal σ)) :
    indexer.applyPages pools name pool start s.erase =
      ((indexer.applyPages pools name pool start s).1,
        (indexer.applyPages pools name pool start s).2.erase) := by
  refine turns_induction indexer pools name pool start ?_ ?_ s
  · intro s ending link hturn
    have herased := indexer.turn_erase pools pool name start s
    rw [hturn] at herased
    rw [applyPages_of_ended hturn]
    exact applyPages_of_ended herased
  · intro s t hturn ih
    have herased := indexer.turn_erase pools pool name start s
    rw [hturn] at herased
    rw [applyPages_of_next hturn, ← ih]
    exact applyPages_of_next herased

/-- A cycle on a journal is the cycle on the store that it keeps. -/
theorem runCycle_journal (name : String) (link : Link (Journal σ)) :
    indexer.runCycle pools name link.erase =
      ((indexer.runCycle pools name link).1, (indexer.runCycle pools name link).2.erase) := by
  unfold runCycle
  cases pools.find? name with
  | none => rfl
  | some pool =>
    simp only
    rw [Link.readCursor_erase]
    cases Link.readCursor pool.address pool.version link with
    | error fault rest => cases fault <;> rfl
    | ok cursor rest => exact indexer.applyPages_erase pools pool name cursor ⟨rest, _⟩

/-! ### Entries -/

/-- The journal of a store in memory after a transaction was applied. -/
def enter (j : Journal MemoryStore) (t : StoredTransaction) : Journal MemoryStore :=
  j.record { j.store with state := indexer.applied pools pool j.store.state t }

theorem cursor_enter (j : Journal MemoryStore) (t : StoredTransaction) :
    (indexer.enter pools pool j t).store.state.cursorOf pool =
      max (j.store.state.cursorOf pool) t.id :=
  indexer.cursor_applied pools pool _ t

/-- To apply a transaction to a store in memory either fails and leaves the journal alone, or enters
the state that the transaction leaves. -/
theorem process_journal (t : StoredTransaction) (link : Link (Journal MemoryStore)) :
    ∃ rest, rest.fetches = link.fetches ∧
      ((∃ stop, indexer.process pools pool t link = .error stop rest ∧ rest.store = link.store) ∨
        ∃ outcome, indexer.process pools pool t link = .ok outcome rest ∧
          link.store.store.refusesCommits = false ∧
          rest.store = indexer.enter pools pool link.store t) := by
  obtain ⟨rest, hfetches, hprocess⟩ := indexer.process_cases pools pool t link
  refine ⟨rest, hfetches, ?_⟩
  rcases hprocess with herror | ⟨batch, staged, outcome, hbegin, hstage, hcommit, hprocess⟩
  · exact .inl herror
  · have hbegin : (⟨link.store.store.state, link.store.store.refusesCommits⟩ : MemoryBatch) =
        batch := Except.ok.inj hbegin
    subst hbegin
    have hstaged := hstage.symm.trans (indexer.stage_memory pools pool _ _ t)
    cases hstaged
    cases hrefuses : link.store.store.refusesCommits with
    | true =>
      rw [hrefuses] at hcommit
      cases hcommit
    | false =>
      rw [hrefuses] at hcommit
      exact .inr ⟨outcome, hprocess, rfl, (Except.ok.inj hcommit).symm⟩

end Indexer

end PoolKlines
