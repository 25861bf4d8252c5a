import PoolKlines.Event.Basic
import PoolKlines.Proofs.Kline.Projection
import PoolKlines.Proofs.Sync.Progress

/-!
# Every row is applied once

A worker runs cycle after cycle while rows are added to the source. Requests for pages, reads of the
cursor, batches and commits may fail, and a cycle may be cut off at any of these calls.

* `CycleSetup` is what a cycle meets, and `SyncEvent` is a row or a cycle;
* `KeepsContract` is what the source promises for a whole run;
* `Indexer.runEvents` carries out a run on a journal;
* `rows_applied_exactly_once`: after each event and after each commit, the store is what the first
  so many pending rows leave of the initial state, and there is no way back.
-/

namespace PoolKlines

/-- What a cycle meets: the length of pages, the number of retries, whether the store refuses
commits, and what goes wrong with the calls of each kind. -/
structure CycleSetup where
  pageSize : Nat
  fetchRetries : Nat
  refusesCommits : Bool
  fetches : List (Option Fault)
  reads : List (Option Fault)
  begins : List (Option Fault)
  commits : List (Option Fault)

namespace CycleSetup

/-- A request that does not fail is answered by the store. -/
def fetchAction : Option Fault → FetchAction
  | none => .ask
  | some fault => .fault fault

/-- Requests that fail or are answered by the store bring no other pages. -/
theorem asksStore {σ : Type} {link : Link σ} {faults : List (Option Fault)}
    (h : link.fetches = faults.map fetchAction) : link.AsksStore := by
  intro rows hmem
  rw [h] at hmem
  obtain ⟨fault, -, hfault⟩ := List.mem_map.1 hmem
  cases fault <;> cases hfault

/-- The link that a cycle runs over. -/
def link (setup : CycleSetup) (j : Journal MemoryStore) : Link (Journal MemoryStore) where
  store := j.record { j.store with refusesCommits := setup.refusesCommits }
  fetches := setup.fetches.map fetchAction
  reads := setup.reads
  begins := setup.begins
  commits := setup.commits
  requests := []

end CycleSetup

/-- What may happen: a row is added to the source, or a cycle runs. -/
inductive SyncEvent
  | row (t : StoredTransaction)
  | cycle (setup : CycleSetup)

/-- What the source of a pool promises for a run: its rows are always in the order of their ids, and
a row that is added is a copy of an earlier one or has an id above all earlier ones. Pages are not
empty. -/
def KeepsContract (name : String) (s : MemoryStore) : List SyncEvent → Prop
  | [] => s.KeepsOrder name
  | .row t :: events => s.KeepsOrder name ∧
      (t.pool = name → t ∈ s.transactions ∨ ∀ u ∈ s.transactions, u.pool = name → u.id < t.id) ∧
      KeepsContract name (s.push t) events
  | .cycle setup :: events => 1 ≤ setup.pageSize ∧ KeepsContract name s events

instance decidableKeepsContract (name : String) :
    (s : MemoryStore) → (events : List SyncEvent) → Decidable (KeepsContract name s events)
  | s, [] => inferInstanceAs (Decidable (s.KeepsOrder name))
  | s, .row t :: events =>
    have := decidableKeepsContract name (s.push t) events
    inferInstanceAs (Decidable (_ ∧ _ ∧ _))
  | s, .cycle _ :: events =>
    have := decidableKeepsContract name s events
    inferInstanceAs (Decidable (_ ∧ _))

theorem KeepsContract.order {name : String} {s : MemoryStore} {events : List SyncEvent}
    (h : KeepsContract name s events) : s.KeepsOrder name := by
  induction events with
  | nil => exact h
  | cons event events ih =>
    cases event with
    | row t => exact h.1
    | cycle setup => exact ih h.2

/-- The promise is about the rows alone. -/
theorem KeepsContract.congr {name : String} {s t : MemoryStore} {events : List SyncEvent}
    (h : KeepsContract name s events) (hrows : s.transactions = t.transactions) :
    KeepsContract name t events := by
  induction events generalizing s t with
  | nil => exact MemoryStore.KeepsOrder.congr h hrows
  | cons event events ih =>
    cases event with
    | row u =>
      refine ⟨h.1.congr hrows, hrows ▸ h.2.1, ih h.2.2 ?_⟩
      rw [MemoryStore.push, MemoryStore.push, hrows]
    | cycle setup => exact ⟨h.1, ih h.2 hrows⟩

namespace Indexer

/-- Carry out a run on a journal: how the cycles ended, what the store was then, and the journal at
the end. -/
def runEvents (indexer : Indexer) (pools : PoolSnapshot) (name : String) :
    List SyncEvent → Journal MemoryStore → List (CycleEnd × MemoryStore) × Journal MemoryStore
  | [], j => ([], j)
  | .row t :: events, j => indexer.runEvents pools name events (j.record (j.store.push t))
  | .cycle setup :: events, j =>
    let (ending, link) :=
      { indexer with pageSize := setup.pageSize, fetchRetries := setup.fetchRetries }.runCycle
        pools name (setup.link j)
    let (ends, last) := indexer.runEvents pools name events link.store
    ((ending, link.store.store) :: ends, last)

/-- How a cycle may end: at some time, and unless it reports an error with all rows applied. -/
def EndsWell (indexer : Indexer) (pools : PoolSnapshot) (pool : PoolConfig) (name : String)
    (initial : MemoryState) (ending : CycleEnd) (s : MemoryStore) : Prop :=
  ending ≠ .endless ∧ ∀ report, ending = .report report → report.error = none →
    indexer.Synced pools pool name initial s (s.pending name (initial.cursorOf pool)).length

variable {indexer : Indexer} {pools : PoolSnapshot} {pool : PoolConfig} {name : String}
  {initial : MemoryState}

/-- A run keeps up with the source, and all its cycles end well. -/
theorem KeepsUp.runEvents {j : Journal MemoryStore} {k : Nat}
    (h : indexer.KeepsUp pools pool name initial j k) (hpool : pools.find? name = some pool)
    {events : List SyncEvent} (hcontract : KeepsContract name j.store events) :
    (∀ e ∈ (indexer.runEvents pools name events j).1,
      indexer.EndsWell pools pool name initial e.1 e.2) ∧
    ∃ k', indexer.KeepsUp pools pool name initial (indexer.runEvents pools name events j).2 k' := by
  induction events generalizing j k with
  | nil => exact ⟨by simp [Indexer.runEvents], k, h⟩
  | cons event events ih =>
    cases event with
    | row t =>
      obtain ⟨horder, hnew, hrest⟩ := hcontract
      have hextends :=
        MemoryStore.pending_prefix_push horder hrest.order hnew (initial.cursorOf pool)
      exact ih ⟨h.tracks.record (h.tracks.now.extend rfl hextends) le_rfl, hrest.order⟩ hrest
    | cycle setup =>
      obtain ⟨hsize, hrest⟩ := hcontract
      have hbegun : indexer.KeepsUp pools pool name initial (setup.link j).store k :=
        ⟨h.tracks.record (h.tracks.now.extend rfl List.prefix_rfl) le_rfl, h.order.congr rfl⟩
      -- the settings of a cycle do not change what applying a row does
      have happlied : indexer.applied pools pool =
          { indexer with
            pageSize := setup.pageSize
            fetchRetries := setup.fetchRetries }.applied pools pool := rfl
      obtain ⟨k', -, hkeeps, hrows, hends, hall⟩ :=
        (hbegun.congr happlied).runCycle hpool hsize (CycleSetup.asksStore rfl)
      have hkeeps := hkeeps.congr happlied.symm
      obtain ⟨hrestEnds, hlast⟩ := ih hkeeps (hrest.congr hrows.symm)
      refine ⟨fun e he => ?_, hlast⟩
      rcases List.mem_cons.1 he with rfl | he
      · refine ⟨hends, fun report hreport hnone => ?_⟩
        have hlength := hall report hreport hnone
        rw [← MemoryStore.pending_congr hrows] at hlength
        exact hlength ▸ hkeeps.tracks.now
      · exact hrestEnds e he

end Indexer

/-- **Every row is applied exactly once.** Let rows be added to a source that keeps its contract,
and let cycles run in between, whatever fails in them. Every cycle ends, and one that reports no
error has applied all rows. At all times, which is to say after each event and each commit, the
store is exactly what the first so many of the distinct rows above the initial cursor leave of the
initial state, each applied once and in turn, with the cursor at the last of them, and their number
never decreases. -/
theorem rows_applied_exactly_once (indexer : Indexer) (pools : PoolSnapshot) (name : String)
    (pool : PoolConfig) (hpool : pools.find? name = some pool) (initial : MemoryStore)
    (events : List SyncEvent) (hcontract : KeepsContract name initial events) :
    (∀ e ∈ (indexer.runEvents pools name events (.ofStore initial)).1,
      indexer.EndsWell pools pool name initial.state e.1 e.2) ∧
    ∃ counts : List Nat, counts.Pairwise (· ≤ ·) ∧
      List.Forall₂ (indexer.Synced pools pool name initial.state)
        (indexer.runEvents pools name events (.ofStore initial)).2.past counts := by
  have hstart : indexer.KeepsUp pools pool name initial.state (.ofStore initial) 0 :=
    ⟨.ofStore (.zero rfl), hcontract.order⟩
  obtain ⟨hends, k, hkeeps⟩ := hstart.runEvents hpool hcontract
  obtain ⟨counts, hsorted, -, hpast⟩ := hkeeps.tracks.past
  exact ⟨hends, counts, hsorted, hpast⟩

/-! ### An instance -/

/-- An indexer that knows no events, and serves pages of one row. -/
def plainIndexer : Indexer where
  programId := "program"
  events := PoolEvent.registry
  prices _ := none
  pageSize := 1
  fetchRetries := 0

/-- A row of `plainPool` without instructions. -/
def plainRow (id slot : UInt64) : StoredTransaction where
  id
  pool := "pool"
  slot
  signature := "signature"
  blockTime := 0
  tx := ⟨"signature", slot, 0, [], [], [], [], [], [], false⟩

/-- A cycle that meets no fault. -/
def plainSetup : CycleSetup := ⟨1, 0, false, [], [], [], []⟩

/-- Two rows, one of them twice: the first cycle is cut off at its second commit, and the second one
applies the rest. -/
theorem rows_applied_exactly_once_after_abort :
    let events : List SyncEvent := [.row (plainRow 1 10), .row (plainRow 2 20),
      .cycle { plainSetup with commits := [none, some .abort] }, .row (plainRow 1 10),
      .cycle plainSetup]
    let run := plainIndexer.runEvents (.ofPools [plainPool]) "pool" events (.ofStore .empty)
    (PoolSnapshot.ofPools [plainPool]).find? "pool" = some plainPool ∧
    KeepsContract "pool" .empty events ∧
    (∀ e ∈ run.1,
      plainIndexer.EndsWell (.ofPools [plainPool]) plainPool "pool" .empty e.1 e.2) ∧
    ∃ counts : List Nat, counts.Pairwise (· ≤ ·) ∧
      List.Forall₂ (plainIndexer.Synced (.ofPools [plainPool]) plainPool "pool" .empty)
        run.2.past counts := by
  intro events run
  have hpool : (PoolSnapshot.ofPools [plainPool]).find? "pool" = some plainPool := by decide
  have hcontract : KeepsContract "pool" .empty events := by decide
  exact ⟨hpool, hcontract,
    rows_applied_exactly_once plainIndexer _ "pool" plainPool hpool .empty events hcontract⟩

end PoolKlines
