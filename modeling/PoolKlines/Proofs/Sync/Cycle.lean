import PoolKlines.Sync.Cycle

/-!
# How a cycle goes on

`Indexer.applyPages` ends if the request fails, if the page is empty or if it cannot be applied to
its end, and otherwise goes on.

* `Indexer.applyPages_of_refuse`, `Indexer.applyPages_of_nil`, `Indexer.applyPages_of_error` and
  `Indexer.applyPages_of_ok` are the equations for a page of which it is known what becomes of it;
* `Turn` is what may become of a page, and `Indexer.turn` is what does become of it;
* `Indexer.applyPages_of_ended` and `Indexer.applyPages_of_next`: pages are applied turn by turn;
* `Indexer.turns_induction` is the induction over the turns of a cycle.
-/

namespace PoolKlines.Indexer

variable {σ β : Type} [Store σ β] {indexer : Indexer} {pools : PoolSnapshot} {name : String}
  {pool : PoolConfig} {s t : CycleState σ} {page : List StoredTransaction} {link : Link σ}
  (start : UInt64)

theorem applyPages_of_refuse {e : StoreError}
    (hfetch : Link.fetchPage name s.report.cursor indexer.pageSize indexer.fetchRetries s.link =
      .error (.refuse e) link) :
    indexer.applyPages pools name pool start s =
      (.report { s.report with cursor := start, error := some (.fetch e) }, link) := by
  rw [applyPages]
  simp only [hfetch]

theorem applyPages_of_nil
    (hfetch : Link.fetchPage name s.report.cursor indexer.pageSize indexer.fetchRetries s.link =
      .ok [] link) :
    indexer.applyPages pools name pool start s = (.report s.report, link) := by
  rw [applyPages]
  simp only [hfetch]

section

variable (hpage : page ≠ [])
  (hfetch : Link.fetchPage name s.report.cursor indexer.pageSize indexer.fetchRetries s.link =
    .ok page link)

include hpage hfetch

theorem applyPages_of_error {e : IndexerError}
    (hrun : indexer.applyPage pools pool page ⟨link, s.report.addPage⟩ = .error (.error e) t) :
    indexer.applyPages pools name pool start s =
      (.report { t.report with error := some e }, t.link) := by
  obtain ⟨first, rest, rfl⟩ := List.exists_cons_of_ne_nil hpage
  rw [applyPages]
  simp only [hfetch, hrun]

theorem applyPages_of_ok
    (hrun : indexer.applyPage pools pool page ⟨link, s.report.addPage⟩ = .ok () t)
    (hadvances : s.Advances t) :
    indexer.applyPages pools name pool start s = indexer.applyPages pools name pool start t := by
  obtain ⟨first, rest, rfl⟩ := List.exists_cons_of_ne_nil hpage
  rw [applyPages]
  simp only [hfetch, hrun]
  rw [dif_pos hadvances]

end

end PoolKlines.Indexer

namespace PoolKlines

/-! ### Turns -/

/-- What may become of a page: the cycle ends, or it goes on. -/
inductive Turn (σ : Type)
  | ended (ending : CycleEnd) (link : Link σ)
  | next (s : CycleState σ)

namespace Indexer

variable {σ β : Type} [Store σ β]

section

variable (indexer : Indexer) (pools : PoolSnapshot) (name : String) (pool : PoolConfig)
  (start : UInt64)

/-- Request a page and apply it. -/
def turn (s : CycleState σ) : Turn σ :=
  match Link.fetchPage name s.report.cursor indexer.pageSize indexer.fetchRetries s.link with
  | .error .abort link => .ended .aborted link
  | .error (.refuse e) link =>
    .ended (.report { s.report with cursor := start, error := some (.fetch e) }) link
  | .ok [] link => .ended (.report s.report) link
  | .ok (first :: rest) link =>
    match indexer.applyPage pools pool (first :: rest) ⟨link, s.report.addPage⟩ with
    | .error .aborted t => .ended .aborted t.link
    | .error (.error e) t => .ended (.report { t.report with error := some e }) t.link
    | .ok _ t => if s.Advances t then .next t else .ended .endless t.link

theorem applyPages_eq_turn (s : CycleState σ) :
    indexer.applyPages pools name pool start s =
      match indexer.turn pools name pool start s with
      | .ended ending link => (ending, link)
      | .next t => indexer.applyPages pools name pool start t := by
  rw [applyPages, turn]
  cases Link.fetchPage name s.report.cursor indexer.pageSize indexer.fetchRetries s.link with
  | error fault link => cases fault <;> rfl
  | ok page link =>
    cases page with
    | nil => rfl
    | cons first rest =>
      simp only
      cases indexer.applyPage pools pool (first :: rest) ⟨link, s.report.addPage⟩ with
      | error stop t => cases stop <;> rfl
      | ok u t => by_cases hadvances : s.Advances t <;> simp [hadvances]

end

variable {indexer : Indexer} {pools : PoolSnapshot} {name : String} {pool : PoolConfig}
  {start : UInt64} {s t : CycleState σ}

theorem applyPages_of_ended {ending : CycleEnd} {link : Link σ}
    (h : indexer.turn pools name pool start s = .ended ending link) :
    indexer.applyPages pools name pool start s = (ending, link) := by
  rw [applyPages_eq_turn, h]

theorem applyPages_of_next (h : indexer.turn pools name pool start s = .next t) :
    indexer.applyPages pools name pool start s = indexer.applyPages pools name pool start t := by
  rw [applyPages_eq_turn, h]

/-- A turn after which the cycle goes on has applied a page to its end. -/
theorem of_turn_next (h : indexer.turn pools name pool start s = .next t) :
    s.Advances t ∧ ∃ page link, page ≠ [] ∧
      Link.fetchPage name s.report.cursor indexer.pageSize indexer.fetchRetries s.link =
        .ok page link ∧
      indexer.applyPage pools pool page ⟨link, s.report.addPage⟩ = .ok () t := by
  unfold turn at h
  split at h
  · cases h
  · cases h
  · cases h
  next first rest link hfetch =>
    split at h
    · cases h
    · cases h
    next u v hpage =>
      split at h
      next hadvances =>
        cases h
        exact ⟨hadvances, _, link, List.cons_ne_nil _ _, hfetch, hpage⟩
      · cases h

/-- What holds where a cycle ends, and at every turn if it holds after the turn, holds of every
cycle. -/
@[elab_as_elim]
theorem turns_induction (indexer : Indexer) (pools : PoolSnapshot) (name : String)
    (pool : PoolConfig) (start : UInt64) {motive : CycleState σ → Prop}
    (ended : ∀ s ending link, indexer.turn pools name pool start s = .ended ending link → motive s)
    (next : ∀ s t, indexer.turn pools name pool start s = .next t → motive t → motive s)
    (s : CycleState σ) : motive s := by
  cases hturn : indexer.turn pools name pool start s with
  | ended ending link => exact ended s ending link hturn
  | next t =>
    have hadvances : s.Advances t := (of_turn_next hturn).1
    exact next s t hturn (turns_induction indexer pools name pool start ended next t)
termination_by (s.link.fetches.length, s.room)
decreasing_by exact hadvances.lex

end Indexer

end PoolKlines
