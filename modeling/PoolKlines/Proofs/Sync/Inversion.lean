import PoolKlines.Proofs.Computation
import PoolKlines.Proofs.Sorted
import PoolKlines.Sync.Cycle

/-!
# Pages with and without an inversion

* `findInversion?_cons`: a page has its inversion at its first row, or where the rest has it;
* `findInversion?_eq_none_iff` and `findInversion?_eq_some_iff`: what it means that a page has no
  inversion, and that it has one at some row;
* `Indexer.applyPage_of_none` and `Indexer.applyPage_of_some`: a page without an inversion is
  applied row by row, and a page with one up to it.
-/

namespace PoolKlines

theorem le_largestId (id : UInt64) : id ≤ largestId := by
  have := id.toNat_lt
  rw [UInt64.le_iff_toNat_le, show largestId.toNat = 2 ^ 64 - 1 from rfl]
  omega

theorem lowestId_lt_iff {ids : List UInt64} {id : UInt64} :
    lowestId ids < id ↔ ∃ lower ∈ ids, lower < id := by
  induction ids with
  | nil => simpa [lowestId] using le_largestId id
  | cons lower ids ih =>
    have hmin : lowestId (lower :: ids) = min lower (lowestId ids) := rfl
    rw [hmin, List.exists_mem_cons_iff, ← ih]
    constructor
    · intro h
      rcases le_total lower (lowestId ids) with hle | hle
      · exact .inl (by rwa [min_eq_left hle] at h)
      · exact .inr (by rwa [min_eq_right hle] at h)
    · rintro (h | h)
      · exact (min_le_left _ _).trans_lt h
      · exact (min_le_right _ _).trans_lt h

/-- A page has its inversion at its first row, if a lower id comes after it, or where the rest has
it. -/
theorem findInversion?_cons (t : StoredTransaction) (rest : List StoredTransaction) :
    findInversion? (t :: rest) =
      if ∃ u ∈ rest, u.id < t.id then some (0, lowestId (rest.map (·.id)))
      else (findInversion? rest).map fun (position, lower) => (position + 1, lower) := by
  have hfirst : lowestId (rest.map (·.id)) < t.id ↔ ∃ u ∈ rest, u.id < t.id := by
    rw [lowestId_lt_iff]
    simp only [List.mem_map, exists_exists_and_eq_and]
  simp only [findInversion?, List.map_cons, lowestAfter, List.zip_cons_cons, List.zipIdx_cons,
    List.find?_cons, hfirst]
  by_cases h : ∃ u ∈ rest, u.id < t.id
  · rw [if_pos h, decide_eq_true h]
    rfl
  · rw [if_neg h, decide_eq_false h, List.zipIdx_succ, List.find?_map]
    show Option.map _ (Option.map _ (List.find? _ _)) = Option.map _ (Option.map _ (List.find? _ _))
    rw [Option.map_map, Option.map_map]
    rfl

/-- A page without an inversion has ids that do not decrease. -/
theorem findInversion?_eq_none_iff {page : List StoredTransaction} :
    findInversion? page = none ↔ page.Pairwise fun t u => t.id ≤ u.id := by
  induction page with
  | nil => exact iff_of_true rfl List.Pairwise.nil
  | cons t rest ih =>
    rw [findInversion?_cons, List.pairwise_cons, ← ih]
    by_cases h : ∃ u ∈ rest, u.id < t.id
    · rw [if_pos h]
      obtain ⟨u, hu, hlt⟩ := h
      exact iff_of_false (by simp) fun hall => absurd hlt (not_lt.2 (hall.1 u hu))
    · rw [if_neg h, Option.map_eq_none_iff]
      refine (and_iff_right fun u hu => ?_).symm
      by_contra hlt
      exact h ⟨u, hu, not_le.1 hlt⟩

/-- The inversion of a page is at the first row that has a lower id after it. -/
theorem findInversion?_eq_some_iff {page : List StoredTransaction} {position : Nat}
    {lower : UInt64} :
    findInversion? page = some (position, lower) ↔
      ∃ before t after, page = before ++ t :: after ∧ before.length = position ∧
        before.Pairwise (fun u v => u.id ≤ v.id) ∧ (∀ u ∈ before, ∀ v ∈ t :: after, u.id ≤ v.id) ∧
        (∃ u ∈ after, u.id < t.id) ∧ lowestId (after.map (·.id)) = lower := by
  induction page generalizing position with
  | nil =>
    refine iff_of_false (by simp) ?_
    rintro ⟨before, t, after, hpage, -⟩
    exact absurd hpage (by simp)
  | cons first rest ih =>
    rw [findInversion?_cons]
    by_cases h : ∃ u ∈ rest, u.id < first.id
    · rw [if_pos h, Option.some_inj, Prod.mk.injEq]
      constructor
      · rintro ⟨rfl, rfl⟩
        exact ⟨[], first, rest, rfl, rfl, .nil, by simp, h, rfl⟩
      · rintro ⟨before, t, after, hpage, hlength, hsorted, hbefore, -, hlower⟩
        cases before with
        | nil =>
          obtain ⟨rfl, rfl⟩ := List.cons.inj hpage
          exact ⟨hlength, hlower⟩
        | cons u before =>
          -- the first row would be no higher than all others
          obtain ⟨rfl, rfl⟩ := List.cons.inj hpage
          obtain ⟨v, hv, hlt⟩ := h
          have hle : first.id ≤ v.id := by
            rcases List.mem_append.1 hv with hv | hv
            · exact (List.pairwise_cons.1 hsorted).1 v hv
            · exact hbefore first List.mem_cons_self v hv
          exact absurd hlt (not_lt.2 hle)
    · rw [if_neg h]
      have hfirst : ∀ v ∈ rest, first.id ≤ v.id := fun v hv =>
        not_lt.1 fun hlt => h ⟨v, hv, hlt⟩
      constructor
      · intro hsome
        obtain ⟨⟨p, lower'⟩, hrest, hpair⟩ := Option.map_eq_some_iff.1 hsome
        obtain ⟨rfl, rfl⟩ := Prod.mk.inj hpair
        obtain ⟨before, t, after, rfl, rfl, hsorted, hbefore, hlower⟩ := ih.1 hrest
        refine ⟨first :: before, t, after, rfl, rfl, ?_, ?_, hlower⟩
        · exact List.pairwise_cons.2 ⟨fun v hv => hfirst v (List.mem_append_left _ hv), hsorted⟩
        · intro u hu v hv
          rcases List.mem_cons.1 hu with rfl | hu
          · exact hfirst v (List.mem_append_right _ hv)
          · exact hbefore u hu v hv
      · rintro ⟨before, t, after, hpage, rfl, hsorted, hbefore, hlower⟩
        cases before with
        | nil =>
          obtain ⟨rfl, rfl⟩ := List.cons.inj hpage
          exact absurd hlower.1 h
        | cons u before =>
          obtain ⟨rfl, rfl⟩ := List.cons.inj hpage
          have hrest := ih.2 ⟨before, t, after, rfl, rfl, (List.pairwise_cons.1 hsorted).2,
            fun u hu => hbefore u (List.mem_cons_of_mem _ hu), hlower⟩
          rw [hrest]
          rfl

namespace Indexer

variable {σ β : Type} [Store σ β] (indexer : Indexer) (pools : PoolSnapshot) (pool : PoolConfig)

/-- Rows apart from the one with the inversion are applied without regard to it. -/
theorem forM_zipIdx_of_ne (inversion : Option (Nat × UInt64)) (rows : List StoredTransaction)
    (start : Nat)
    (h : ∀ i, start ≤ i → i < start + rows.length → inversion.filter (·.1 = i) = none) :
    (rows.zipIdx start).forM (fun (stored, position) =>
        indexer.applyRow (σ := σ) pools pool
          ((inversion.filter (·.1 = position)).map Prod.snd) stored) =
      rows.forM (indexer.applyRow pools pool none) := by
  induction rows generalizing start with
  | nil => rfl
  | cons t rows ih =>
    have hfirst := h start le_rfl (by rw [List.length_cons]; omega)
    have hrest := ih (start + 1) fun i hle hlt =>
      h i (by omega) (by rw [List.length_cons]; omega)
    show (indexer.applyRow pools pool ((inversion.filter (·.1 = start)).map Prod.snd) t >>=
      fun _ => (rows.zipIdx (start + 1)).forM _) = _
    rw [hfirst, hrest]
    rfl

/-- A page without an inversion is applied row by row. -/
theorem applyPage_of_none {page : List StoredTransaction} (h : findInversion? page = none) :
    indexer.applyPage (σ := σ) pools pool page = page.forM (indexer.applyRow pools pool none) := by
  unfold applyPage
  rw [h]
  exact forM_zipIdx_of_ne indexer pools pool none page 0 fun _ _ _ => rfl

/-- A page with an inversion is applied row by row up to the inversion. -/
theorem applyPage_of_some {before after : List StoredTransaction} {t : StoredTransaction}
    {lower : UInt64}
    (h : findInversion? (before ++ t :: after) = some (before.length, lower)) :
    indexer.applyPage (σ := σ) pools pool (before ++ t :: after) =
      before.forM (indexer.applyRow pools pool none) >>= fun _ =>
        indexer.applyRow pools pool (some lower) t >>= fun _ =>
          after.forM (indexer.applyRow pools pool none) := by
  have hinversion : ∀ i, i ≠ before.length →
      (some (before.length, lower)).filter (fun p : Nat × UInt64 => p.1 = i) = none := by
    intro i hi
    simp [hi.symm]
  have hbefore := forM_zipIdx_of_ne (σ := σ) indexer pools pool (some (before.length, lower))
    before 0 fun i _ hlt => hinversion i (by omega)
  have hafter := forM_zipIdx_of_ne (σ := σ) indexer pools pool (some (before.length, lower))
    after (before.length + 1) fun i hle _ => hinversion i (by omega)
  have hrow : (some (before.length, lower)).filter (fun p : Nat × UInt64 => p.1 = before.length) =
      some (before.length, lower) := by simp
  unfold applyPage
  simp only [h, List.zipIdx_append, List.zipIdx_cons, Nat.zero_add, List.forM_eq_forM,
    List.forM_append, List.forM_cons]
  simp only [List.forM_eq_forM] at hbefore hafter
  rw [hbefore, hafter, hrow]
  rfl

end Indexer

end PoolKlines
