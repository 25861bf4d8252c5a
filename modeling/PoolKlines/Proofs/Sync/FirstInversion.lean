import Mathlib.Order.Bounds.Basic
import PoolKlines.Proofs.Sync.PageBorder

/-!
# The first inversion of a page

* `foldr_passStep`: the lowest ids after the rows come out of one pass from the last row to the
  first;
* `isLeast_lowestId`: behind a row that has others after it, the id that stands for no id is not
  seen;
* `Overtaken` says of a position of a page that a lower id comes after it, and
  `findInversion?_eq_some_iff_first` finds the first such position;
* `Indexer.cursor_le_of_forM` bounds the cursor behind some rows, whether all of them were applied
  or not;
* `findInversion?_exact` puts these together.
-/

namespace PoolKlines

/-! ### The lowest ids -/

/-- A step of the pass from the last id to the first: what was lowest so far is lowest after this
id. -/
def passStep (id : UInt64) (s : List UInt64 × UInt64) : List UInt64 × UInt64 :=
  (s.2 :: s.1, min id s.2)

theorem foldr_passStep (ids : List UInt64) :
    ids.foldr passStep ([], largestId) = (lowestAfter ids, lowestId ids) := by
  induction ids with
  | nil => rfl
  | cons id rest ih =>
    rw [List.foldr_cons, ih]
    rfl

/-- The lowest of some ids is one of them, even where it is the largest id. -/
theorem isLeast_lowestId {ids : List UInt64} (h : ids ≠ []) :
    IsLeast {id | id ∈ ids} (lowestId ids) := by
  induction ids with
  | nil => exact absurd rfl h
  | cons id rest ih =>
    have hmin : lowestId (id :: rest) = min id (lowestId rest) := rfl
    by_cases hrest : rest = []
    · subst hrest
      rw [hmin, show lowestId [] = largestId from rfl, min_eq_left (le_largestId id)]
      simp [IsLeast, lowerBounds]
    · rw [hmin]
      have hset : {x | x ∈ id :: rest} = insert id {x | x ∈ rest} := by
        ext x
        simp
      rw [hset]
      exact (ih hrest).insert id

/-! ### Positions -/

/-- A lower id comes after the row at a position. -/
def Overtaken (page : List StoredTransaction) (i : Nat) : Prop :=
  ∃ t ∈ page[i]?, ∃ u ∈ page.drop (i + 1), u.id < t.id

variable {page : List StoredTransaction} {t : StoredTransaction} {i : Nat}

theorem overtaken_cons_zero : Overtaken (t :: page) 0 ↔ ∃ u ∈ page, u.id < t.id := by
  simp [Overtaken]

theorem overtaken_cons_succ : Overtaken (t :: page) (i + 1) ↔ Overtaken page i := by
  simp [Overtaken]

/-- The inversion is at the first position that is overtaken, with the lowest of the ids after
it. -/
theorem findInversion?_eq_some_iff_first {lower : UInt64} :
    findInversion? page = some (i, lower) ↔
      Overtaken page i ∧ (∀ j < i, ¬ Overtaken page j) ∧
        IsLeast {id | id ∈ (page.drop (i + 1)).map (·.id)} lower := by
  induction page generalizing i with
  | nil => simp [Overtaken]
  | cons t rest ih =>
    rw [findInversion?_cons]
    by_cases h : ∃ u ∈ rest, u.id < t.id
    · have hleast : IsLeast {id | id ∈ rest.map (·.id)} (lowestId (rest.map (·.id))) := by
        obtain ⟨u, hu, -⟩ := h
        exact isLeast_lowestId (by simpa using List.ne_nil_of_mem hu)
      rw [if_pos h, Option.some_inj, Prod.mk.injEq]
      cases i with
      | zero =>
        rw [overtaken_cons_zero]
        simp only [h, true_and, Nat.not_lt_zero, false_implies, implies_true]
        exact ⟨fun heq => heq ▸ hleast, fun hleast' => hleast.unique hleast'⟩
      | succ i =>
        refine iff_of_false (by simp) fun hfirst => ?_
        exact hfirst.2.1 0 (Nat.succ_pos i) (overtaken_cons_zero.2 h)
    · rw [if_neg h]
      cases i with
      | zero =>
        refine iff_of_false (by simp) fun hfirst => ?_
        exact h (overtaken_cons_zero.1 hfirst.1)
      | succ i =>
        rw [Nat.forall_lt_succ_left]
        simp only [overtaken_cons_zero, overtaken_cons_succ, h, not_false_eq_true, true_and,
          List.drop_succ_cons, ← ih]
        simp

/-- Rows none of which is overtaken are below the rest of the page. -/
theorem below_of_not_overtaken (h : ∀ j < i, ¬ Overtaken page j) :
    Below (page.take i) (page.drop i) := by
  intro t ht u hu
  obtain ⟨j, hj, rfl⟩ := List.mem_iff_getElem.1 ht
  rw [List.length_take] at hj
  have hu' : u ∈ page.drop (j + 1) := (List.drop_sublist_drop_left page (by omega)).subset hu
  refine not_lt.1 fun hlt => h j (by omega) ⟨page[j], ?_, u, hu', ?_⟩
  · simp [List.getElem?_eq_getElem (show j < page.length by omega)]
  · rwa [List.getElem_take] at hlt

namespace Indexer

variable {σ β : Type} [Store σ β] (indexer : Indexer) (pools : PoolSnapshot) (pool : PoolConfig)

/-- A row moves the cursor at most to its own id. -/
theorem cursor_le_of_applyRow {t : StoredTransaction} {bound : UInt64} (ht : t.id ≤ bound)
    (lower : Option UInt64) {s : CycleState σ} (hs : s.report.cursor ≤ bound) :
    (lastState (indexer.applyRow pools pool lower t s)).report.cursor ≤ bound := by
  unfold applyRow
  split
  · exact hs
  · split
    · exact hs
    · split
      · exact ht
      · exact hs

/-- Rows move the cursor at most to the largest of their ids. -/
theorem cursor_le_of_forM {rows : List StoredTransaction} {bound : UInt64}
    (hrows : ∀ t ∈ rows, t.id ≤ bound) {s : CycleState σ} (hs : s.report.cursor ≤ bound) :
    (lastState (rows.forM (indexer.applyRow pools pool none) s)).report.cursor ≤ bound :=
  forM_preserves (P := fun s : CycleState σ => s.report.cursor ≤ bound)
    (fun t ht _ hs => indexer.cursor_le_of_applyRow pools pool (hrows t ht) none hs) hs

/-- A page whose rows are all beyond the cursor is applied up to the inversion at most, so that the
cursor comes to no row from there on. -/
theorem cursor_le_of_applyPage {lower : UInt64} (h : findInversion? page = some (i, lower))
    {s : CycleState σ} (hs : ∀ t ∈ page, s.report.cursor ≤ t.id) :
    ∀ u ∈ page.drop i,
      (lastState (indexer.applyPage pools pool page s)).report.cursor ≤ u.id := by
  obtain ⟨before, t, after, rfl, rfl, -, hbelow, ⟨v, hv, hlt⟩, -⟩ := findInversion?_eq_some_iff.1 h
  have hbound : ∀ u ∈ t :: after,
      (lastState (before.forM (indexer.applyRow pools pool none) s)).report.cursor ≤ u.id :=
    fun u hu => indexer.cursor_le_of_forM pools pool (fun w hw => hbelow w hw u hu)
      (hs u (List.mem_append_right _ hu))
  rw [List.drop_left, applyPage_of_some indexer pools pool h]
  cases hbefore : before.forM (indexer.applyRow (σ := σ) pools pool none) s with
  | error stop s' =>
    rw [hbefore] at hbound
    rwa [bind_of_error hbefore]
  | ok _ s' =>
    rw [hbefore] at hbound
    -- the row with the inversion is beyond the cursor, so that it is refused
    have hbeyond : ¬ t.id ≤ s'.report.cursor :=
      not_le.2 ((hbound v (List.mem_cons_of_mem _ hv)).trans_lt hlt)
    have hrefused : indexer.applyRow pools pool (some lower) t s' =
        .error (.error (.outOfOrder t.id t.slot lower)) s' := by
      rw [applyRow, if_neg hbeyond]
    rw [bind_of_ok hbefore, bind_of_error hrefused]
    exact hbound

end Indexer

/-- **The search for an inversion is exact.** One pass from the last row to the first yields the
lowest ids that the search goes by. A page without an inversion has ids that do not decrease. An
inversion is at the first position that a lower id comes after, with the lowest of the ids after it.
No row before it has a higher id than one after that row, and no number of these rows, applied in
any state, moves the cursor past a row behind them that it had not passed. -/
theorem findInversion?_exact (page : List StoredTransaction) :
    (page.map (·.id)).foldr passStep ([], largestId) =
      (lowestAfter (page.map (·.id)), lowestId (page.map (·.id))) ∧
    (findInversion? page = none ↔ page.Pairwise fun t u => t.id ≤ u.id) ∧
    ∀ (i : Nat) (lower : UInt64),
      (findInversion? page = some (i, lower) ↔
        Overtaken page i ∧ (∀ j < i, ¬ Overtaken page j) ∧
          IsLeast {id | id ∈ (page.drop (i + 1)).map (·.id)} lower) ∧
      (findInversion? page = some (i, lower) →
        (∀ j < i, ∀ t ∈ page[j]?, ∀ u ∈ page.drop (j + 1), t.id ≤ u.id) ∧
        ∀ {σ β : Type} [Store σ β] (indexer : Indexer) (pools : PoolSnapshot) (pool : PoolConfig)
          (s : CycleState σ),
          (∀ n ≤ i, ∀ u ∈ page.drop n, s.report.cursor ≤ u.id →
            (lastState ((page.take n).forM (indexer.applyRow pools pool none) s)).report.cursor ≤
              u.id) ∧
          ((∀ t ∈ page, s.report.cursor ≤ t.id) → ∀ u ∈ page.drop i,
            (lastState (indexer.applyPage pools pool page s)).report.cursor ≤ u.id)) := by
  refine ⟨foldr_passStep _, findInversion?_eq_none_iff,
    fun i lower => ⟨findInversion?_eq_some_iff_first, fun h => ?_⟩⟩
  obtain ⟨-, hfirst, -⟩ := findInversion?_eq_some_iff_first.1 h
  refine ⟨fun j hj t ht u hu => not_lt.1 fun hlt => hfirst j hj ⟨t, ht, u, hu, hlt⟩, ?_⟩
  intro σ β _ indexer pools pool s
  refine ⟨fun n hn u hu hs => ?_, fun hs => indexer.cursor_le_of_applyPage pools pool h hs⟩
  have hbelow := below_of_not_overtaken fun j hj => hfirst j (Nat.lt_of_lt_of_le hj hn)
  exact indexer.cursor_le_of_forM pools pool (fun t ht => hbelow t ht u hu) hs

theorem findInversion?_exact_repeated :
    let page : List StoredTransaction := [3, 3, largestId, 7, 7, largestId].map fun id =>
      ⟨id, "pool", 0, "signature", 0, ⟨"signature", 0, 0, [], [], [], [], [], [], false⟩⟩
    findInversion? page = some (2, 7) ∧ Overtaken page 2 ∧ (∀ j < 2, ¬ Overtaken page j) ∧
      ∀ j < 2, ∀ t ∈ page[j]?, ∀ u ∈ page.drop (j + 1), t.id ≤ u.id := by
  intro page
  have h : findInversion? page = some (2, 7) := by decide
  obtain ⟨-, -, hexact⟩ := findInversion?_exact page
  obtain ⟨hovertaken, hfirst, -⟩ := (hexact 2 7).1.1 h
  exact ⟨h, hovertaken, hfirst, ((hexact 2 7).2 h).1⟩

end PoolKlines
