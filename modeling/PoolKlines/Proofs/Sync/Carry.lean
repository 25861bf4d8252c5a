import PoolKlines.Proofs.Sync.Cycle
import PoolKlines.Proofs.Sync.Process

/-!
# Links on which transactions are applied alike

To apply a transaction is to begin and to commit a batch, and nothing else of a link matters.

* `Indexer.Carries` says of a map of links, possibly to those of another store, that transactions
  are applied alike before and after it; then so are rows and pages, as `Indexer.Carries.applyPage`
  says;
* `Indexer.Carries.turn`: if requests are answered alike as well, the turns of a cycle are alike;
* `Link.facing` gives a link another script for its requests, and `Indexer.carries_facing` says that
  transactions are applied alike on it;
* `Indexer.applyPage_keeps`: pages leave the script and the requests alone.
-/

namespace PoolKlines

/-- The cycle that goes on over another link. -/
def CycleState.carry {σ τ : Type} (e : Link σ → Link τ) (s : CycleState σ) : CycleState τ :=
  ⟨e s.link, s.report⟩

/-- The turn over another link. -/
def Turn.carry {σ τ : Type} (e : Link σ → Link τ) : Turn σ → Turn τ
  | ended ending link => ended ending (e link)
  | next s => next (s.carry e)

namespace Indexer

section

variable {σ τ β γ : Type} [Store σ β] [Store τ γ] {indexer : Indexer} {e : Link σ → Link τ}

/-- Transactions are applied alike on a link and on the one that is made of it. -/
def Carries (indexer : Indexer) (e : Link σ → Link τ) : Prop :=
  ∀ (pools : PoolSnapshot) (pool : PoolConfig) (stored : StoredTransaction) (link : Link σ),
    indexer.process pools pool stored (e link) = mapState e (indexer.process pools pool stored link)

theorem Carries.applyRow (h : indexer.Carries e) (pools : PoolSnapshot) (pool : PoolConfig)
    (lower : Option UInt64) (stored : StoredTransaction) (s : CycleState σ) :
    indexer.applyRow pools pool lower stored (s.carry e) =
      mapState (CycleState.carry e) (indexer.applyRow pools pool lower stored s) := by
  unfold Indexer.applyRow
  by_cases hle : stored.id ≤ s.report.cursor
  · rw [if_pos hle, if_pos (show stored.id ≤ (s.carry e).report.cursor from hle)]
    rfl
  · rw [if_neg hle, if_neg (show ¬ stored.id ≤ (s.carry e).report.cursor from hle)]
    cases lower with
    | some lower => rfl
    | none =>
      have hprocess := h pools pool stored s.link
      simp only [CycleState.carry, hprocess]
      cases indexer.process pools pool stored s.link <;> rfl

/-- Pages are applied alike. -/
theorem Carries.applyPage (h : indexer.Carries e) (pools : PoolSnapshot) (pool : PoolConfig)
    (page : List StoredTransaction) (s : CycleState σ) :
    indexer.applyPage pools pool page (s.carry e) =
      mapState (CycleState.carry e) (indexer.applyPage pools pool page s) :=
  forM_mapState (fun _ => h.applyRow pools pool _ _) s

/-- If requests are answered alike, so that a page brings both cycles on or neither, the turns are
alike. -/
theorem Carries.turn (h : indexer.Carries e) {pools : PoolSnapshot} {name : String}
    {pool : PoolConfig} (start : UInt64) {s : CycleState σ} {s' : CycleState τ}
    (hreport : s'.report = s.report)
    (hfetch :
      Link.fetchPage name s.report.cursor indexer.pageSize indexer.fetchRetries s'.link = mapState e
        (Link.fetchPage name s.report.cursor indexer.pageSize indexer.fetchRetries s.link))
    (hadvances : ∀ page link t,
      Link.fetchPage name s.report.cursor indexer.pageSize indexer.fetchRetries s.link =
        .ok page link →
      indexer.applyPage pools pool page ⟨link, s.report.addPage⟩ = .ok () t →
      (s'.Advances (t.carry e) ↔ s.Advances t)) :
    indexer.turn pools name pool start s' = (indexer.turn pools name pool start s).carry e := by
  unfold Indexer.turn
  rw [hreport, hfetch]
  cases hresult :
      Link.fetchPage name s.report.cursor indexer.pageSize indexer.fetchRetries s.link with
  | error fault link => cases fault <;> rfl
  | ok page link =>
    cases page with
    | nil => rfl
    | cons first rest =>
      have hpage : indexer.applyPage pools pool (first :: rest) ⟨e link, s.report.addPage⟩ =
          mapState (CycleState.carry e)
            (indexer.applyPage pools pool (first :: rest) ⟨link, s.report.addPage⟩) :=
        h.applyPage pools pool (first :: rest) ⟨link, s.report.addPage⟩
      simp only [mapState, hpage]
      cases happly : indexer.applyPage pools pool (first :: rest) ⟨link, s.report.addPage⟩ with
      | error stop t => cases stop <;> rfl
      | ok u t =>
        have hboth := hadvances _ link t hresult happly
        simp only [hboth]
        by_cases hs : s.Advances t
        · simp only [if_pos hs, Turn.carry]
        · simp only [if_neg hs, Turn.carry, CycleState.carry]

end

end Indexer

/-! ### Another script -/

/-- The link with other actions for its requests, after other requests. -/
def Link.facing {σ : Type} (link : Link σ) (fetches : List FetchAction)
    (requests : List PageRequest) : Link σ :=
  { link with fetches, requests }

variable {σ β : Type} [Store σ β]

namespace Link

theorem readCursor_facing (link : Link σ) (fetches : List FetchAction)
    (requests : List PageRequest) (pool : String) (version : ProtocolVersion) :
    readCursor pool version (link.facing fetches requests) =
      mapState (facing · fetches requests) (readCursor pool version link) := by
  simp only [readCursor, facing]
  cases answer link.reads.head?.join (Store.cursor link.store pool version) <;> rfl

theorem begin_facing (link : Link σ) (fetches : List FetchAction) (requests : List PageRequest) :
    begin (link.facing fetches requests) = mapState (facing · fetches requests) (begin link) := by
  simp only [begin, facing]
  cases answer link.begins.head?.join (Store.begin link.store) <;> rfl

theorem commit_facing (link : Link σ) (fetches : List FetchAction) (requests : List PageRequest)
    (batch : β) :
    commit batch (link.facing fetches requests) =
      mapState (facing · fetches requests) (commit batch link) := by
  simp only [commit, facing]
  cases answer link.commits.head?.join (Store.commit link.store batch) <;> rfl

end Link

namespace Indexer

/-- Transactions are applied alike whatever requests will meet. -/
theorem carries_facing (indexer : Indexer) (fetches : List FetchAction)
    (requests : List PageRequest) :
    indexer.Carries fun link : Link σ => link.facing fetches requests := by
  intro pools pool stored link
  rw [process_eq, process_eq, Link.begin_facing]
  cases Link.begin link with
  | error fault rest => rfl
  | ok batch begun =>
    simp only [mapState]
    cases indexer.stage pool stored.id (indexer.decode pools pool stored).1 batch with
    | error e rest => rfl
    | ok u staged =>
      simp only [Link.commit_facing]
      cases Link.commit staged begun <;> rfl

/-- Pages leave the script and the requests alone. -/
theorem applyPage_keeps (indexer : Indexer) (pools : PoolSnapshot) (pool : PoolConfig)
    (page : List StoredTransaction) (s : CycleState σ) :
    (lastState (indexer.applyPage pools pool page s)).link.fetches = s.link.fetches ∧
      (lastState (indexer.applyPage pools pool page s)).link.requests = s.link.requests := by
  have happly := (indexer.carries_facing s.link.fetches s.link.requests).applyPage pools pool page s
  have hsame : s.carry (Link.facing · s.link.fetches s.link.requests) = s := rfl
  rw [hsame] at happly
  rw [happly]
  cases indexer.applyPage pools pool page s <;> exact ⟨rfl, rfl⟩

end Indexer

end PoolKlines
