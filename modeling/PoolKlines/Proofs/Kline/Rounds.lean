import PoolKlines.Proofs.Kline.Resolution
import PoolKlines.Proofs.Kline.Rollup

/-!
# What an observation leaves

An observation is folded into one bucket at every resolution, in rounds from the finest to the
coarsest.

* `MemoryState.KeptByRollUp` is a property that a round and the change of the totals keep, and
  `KeptByRollUp.rollUp` and `KeptByRollUp.foldl_rollUp` that an observation and a history keep it;
* `Keyed.getElem?_rollAt` is what one round leaves under each key;
* `BucketKey.DependsOn` says which other buckets the average of a bucket is computed from, and
  `Keyed.average_congr` is the frame rule for it;
* `Keyed.getElem?_rollUp` is what all rounds leave under each key. A touched bucket has the average
  that is computed from the state after the last round, because no round changes a bucket that the
  average of an earlier one depends on.
-/

namespace PoolKlines

/-- The time after the bucket with a key. -/
def BucketKey.finish (k : BucketKey) : Int := k.start + k.resolution.seconds

/-- The average of the bucket with one key is computed from the bucket with the other: at the finest
resolution from the buckets before it, and at a coarser one from the parent buckets up to its
end. -/
def BucketKey.DependsOn (k l : BucketKey) : Prop :=
  l.pool = k.pool ∧
    match k.resolution.parent? with
    | none => l.resolution = k.resolution ∧ l.start < k.start
    | some parent => l.resolution = parent ∧ l.start < k.finish

theorem BucketKey.dependsOn_iff_of_none {k l : BucketKey} (h : k.resolution.parent? = none) :
    k.DependsOn l ↔ l.pool = k.pool ∧ l.resolution = k.resolution ∧ l.start < k.start := by
  rw [DependsOn, h]

theorem BucketKey.dependsOn_iff_of_some {k l : BucketKey} {parent : Resolution}
    (h : k.resolution.parent? = some parent) :
    k.DependsOn l ↔ l.pool = k.pool ∧ l.resolution = parent ∧ l.start < k.finish := by
  rw [DependsOn, h]

/-- A round comes after that of the parent resolution. -/
theorem Resolution.parent_not_mem {before after : List Resolution} {r parent : Resolution}
    (hall : Resolution.all = before ++ r :: after) (hp : r.parent? = some parent) :
    parent ∉ r :: after := by
  have horder : (before ++ r :: after).Pairwise fun p q => p.parent? ≠ some q := hall ▸ by decide
  have hafter := (List.pairwise_cons.1 (List.pairwise_append.1 horder).2.1).1
  intro hmem
  rcases List.mem_cons.1 hmem with rfl | hmem
  · exact parent_ne hp rfl
  · exact hafter parent hmem hp

namespace MemoryState

/-! ### What is kept -/

/-- Whatever is observed of a pool, each round and the change of its totals keep a property. -/
structure KeptByRollUp (pool : String) (P : MemoryState → Prop) : Prop where
  rollAt {s : MemoryState} (hs : P s) (o : Observation) (r : Resolution) : P (s.rollAt pool o r)
  rollTotals {s : MemoryState} (hs : P s) (o : Observation) : P (s.rollTotals pool o)

namespace KeptByRollUp

variable {pool : String} {P : MemoryState → Prop} {s : MemoryState}

theorem foldl_rollAt (hP : KeptByRollUp pool P) (hs : P s) (o : Observation)
    (rs : List Resolution) : P (rs.foldl (MemoryState.rollAt pool o) s) :=
  List.foldlRecOn rs _ hs fun _ hs r _ => hP.rollAt hs o r

theorem rollUp (hP : KeptByRollUp pool P) (hs : P s) (o : Observation) : P (s.rollUp pool o) :=
  hP.rollTotals (hP.foldl_rollAt hs o Resolution.all) o

theorem foldl_rollUp (hP : KeptByRollUp pool P) (hs : P s) (os : List Observation) :
    P (os.foldl (MemoryState.rollUp pool) s) :=
  List.foldlRecOn os _ hs fun _ hs o _ => hP.rollUp hs o

end KeptByRollUp

/-! ### One round -/

theorem Keyed.key_merged {s : MemoryState} (hs : s.Keyed) (pool : String) (o : Observation)
    (r : Resolution) : (s.merged pool o r).key = .containing pool r o.blockTime := by
  rw [merged, Bucket.key_merge]
  cases h : s.buckets[BucketKey.containing pool r o.blockTime]? with
  | none => rfl
  | some b => exact hs _ b h

@[simp] theorem key_rolled (s : MemoryState) (pool : String) (o : Observation) (r : Resolution) :
    (s.rolled pool o r).key = (s.merged pool o r).key :=
  Bucket.key_refresh ..

theorem Keyed.key_rolled {s : MemoryState} (hs : s.Keyed) (pool : String) (o : Observation)
    (r : Resolution) : (s.rolled pool o r).key = .containing pool r o.blockTime := by
  rw [MemoryState.key_rolled, hs.key_merged]

theorem Keyed.rollAt {s : MemoryState} (hs : s.Keyed) (pool : String) (o : Observation)
    (r : Resolution) : (s.rollAt pool o r).Keyed :=
  hs.putBucket _

theorem keptByRollUp_keyed (pool : String) : KeptByRollUp pool Keyed where
  rollAt hs := hs.rollAt pool
  rollTotals hs _ := hs

theorem Keyed.foldl_rollAt {s : MemoryState} (hs : s.Keyed) (pool : String) (o : Observation)
    (rs : List Resolution) : (rs.foldl (MemoryState.rollAt pool o) s).Keyed :=
  (keptByRollUp_keyed pool).foldl_rollAt hs o rs

theorem Keyed.rollUp {s : MemoryState} (hs : s.Keyed) (pool : String) (o : Observation) :
    (s.rollUp pool o).Keyed :=
  (keptByRollUp_keyed pool).rollUp hs o

theorem Keyed.foldl_rollUp {s : MemoryState} (hs : s.Keyed) (pool : String)
    (os : List Observation) : (os.foldl (MemoryState.rollUp pool) s).Keyed :=
  (keptByRollUp_keyed pool).foldl_rollUp hs os

/-- A round touches only the bucket of the observation's time. -/
theorem Keyed.getElem?_rollAt {s : MemoryState} (hs : s.Keyed) (pool : String) (o : Observation)
    (r : Resolution) (k : BucketKey) :
    (s.rollAt pool o r).buckets[k]? =
      if k = .containing pool r o.blockTime then some (s.rolled pool o r) else s.buckets[k]? := by
  rw [MemoryState.rollAt, getElem?_putBucket, hs.key_rolled]
  simp only [eq_comm]

/-- Rounds leave a bucket alone, unless one of them is at its resolution and it is the bucket of the
observation's time. -/
theorem Keyed.getElem?_foldl_rollAt_of_ne {s : MemoryState} (hs : s.Keyed) (pool : String)
    (o : Observation) {rs : List Resolution} {k : BucketKey}
    (h : k.resolution ∈ rs → k ≠ .containing pool k.resolution o.blockTime) :
    (rs.foldl (MemoryState.rollAt pool o) s).buckets[k]? = s.buckets[k]? := by
  refine (List.foldlRecOn
    (motive := fun t : MemoryState => t.Keyed ∧ t.buckets[k]? = s.buckets[k]?) rs _ ⟨hs, rfl⟩ ?_).2
  rintro t ⟨ht, hsame⟩ r hr
  refine ⟨ht.rollAt pool o r, ?_⟩
  rw [ht.getElem?_rollAt, if_neg, hsame]
  rintro rfl
  exact h hr rfl

@[simp] theorem totals_foldl_rollAt (s : MemoryState) (pool : String) (o : Observation)
    (rs : List Resolution) : (rs.foldl (rollAt pool o) s).totals = s.totals :=
  List.foldlRecOn (motive := fun t : MemoryState => t.totals = s.totals) rs _ rfl
    fun _ ht _ _ => ht

/-- Observations move no cursor. -/
theorem keptByRollUp_cursors (pool : String) (s : MemoryState) :
    KeptByRollUp pool fun t => t.cursors = s.cursors where
  rollAt ht _ _ := ht
  rollTotals ht _ := ht

@[simp] theorem cursors_foldl_rollUp (s : MemoryState) (pool : String) (os : List Observation) :
    (os.foldl (rollUp pool) s).cursors = s.cursors :=
  (keptByRollUp_cursors pool s).foldl_rollUp rfl os

/-! ### What all rounds leave -/

/-- The buckets before a bucket of the finest resolution are among those that it depends on. -/
theorem bucketsWhere_before_congr {s t : MemoryState} (hs : s.Keyed) (ht : t.Keyed)
    {k : BucketKey} (hp : k.resolution.parent? = none)
    (h : ∀ l, k.DependsOn l → s.buckets[l]? = t.buckets[l]?) :
    s.bucketsWhere k.pool k.resolution (· < k.start) =
      t.bucketsWhere k.pool k.resolution (· < k.start) :=
  bucketsWhere_eq_of_getElem?_eq hs ht fun _ hlt =>
    h _ ((BucketKey.dependsOn_iff_of_none hp).2 ⟨rfl, rfl, of_decide_eq_true hlt⟩)

/-- The averages over the slots of a bucket come from the parent buckets that it depends on. -/
theorem carriedAverages_congr {s t : MemoryState} (hs : s.Keyed) (ht : t.Keyed) {b : Bucket}
    {parent : Resolution} (hp : b.key.resolution.parent? = some parent)
    (h : ∀ l, b.key.DependsOn l → s.buckets[l]? = t.buckets[l]?) :
    s.carriedAverages b parent = t.carriedAverages b parent := by
  have hquery : ∀ p : Int → Bool, (∀ start, p start = true → start < b.key.finish) →
      s.bucketsWhere b.key.pool parent p = t.bucketsWhere b.key.pool parent p := fun p hrange =>
    bucketsWhere_eq_of_getElem?_eq hs ht fun start hstart =>
      h _ ((BucketKey.dependsOn_iff_of_some hp).2 ⟨rfl, rfl, hrange start hstart⟩)
  have hspan := hquery (fun start => b.key.start ≤ start && start < b.finish) fun start hstart =>
    of_decide_eq_true (Bool.and_eq_true_iff.1 hstart).2
  have hbefore := hquery (· < b.key.start) fun start hlt => by
    have hlt : start < b.key.start := of_decide_eq_true hlt
    have := b.key.resolution.seconds_pos
    unfold BucketKey.finish
    omega
  simp only [carriedAverages, hspan, hbefore]

/-- The average of a bucket is computed from the buckets that it depends on. -/
theorem Keyed.average_congr {s t : MemoryState} (hs : s.Keyed) (ht : t.Keyed) {b : Bucket}
    (h : ∀ l, b.key.DependsOn l → s.buckets[l]? = t.buckets[l]?) : s.average b = t.average b := by
  unfold MemoryState.average
  cases hp : b.key.resolution.parent? with
  | none => simp only [bucketsWhere_before_congr hs ht hp h]
  | some parent => simp only [carriedAverages_congr hs ht hp h]

/-- What an observation of a pool does to each bucket. The average that it leaves is the one that
is computed from the state it leaves. -/
theorem Keyed.getElem?_rollUp {s : MemoryState} (hs : s.Keyed) (pool : String) (o : Observation)
    (k : BucketKey) :
    (s.rollUp pool o).buckets[k]? =
      if k = .containing pool k.resolution o.blockTime then
        let merged := (s.buckets[k]?.getD (.empty k)).merge o
        some (merged.refresh ((s.rollUp pool o).average merged))
      else s.buckets[k]? := by
  by_cases hk : k = .containing pool k.resolution o.blockTime
  · -- only the round at the resolution of the key touches the bucket
    obtain ⟨before, after, hall⟩ := List.append_of_mem (Resolution.mem_all k.resolution)
    have hnodup : (before ++ k.resolution :: after).Nodup := hall ▸ by decide
    have hbefore : k.resolution ∉ before := fun hmem =>
      (List.nodup_append.1 hnodup).2.2 _ hmem _ List.mem_cons_self rfl
    have hafter : k.resolution ∉ after :=
      (List.nodup_cons.1 (List.nodup_append.1 hnodup).2.1).1
    have hmid := hs.foldl_rollAt pool o before
    have hfinal : (s.rollUp pool o).buckets = ((k.resolution :: after).foldl
        (MemoryState.rollAt pool o) (before.foldl (MemoryState.rollAt pool o) s)).buckets := by
      rw [← List.foldl_append, ← hall]
      rfl
    have hmerged : (before.foldl (MemoryState.rollAt pool o) s).merged pool o k.resolution =
        (s.buckets[k]?.getD (.empty k)).merge o := by
      rw [merged, ← hk, hs.getElem?_foldl_rollAt_of_ne pool o fun hmem => absurd hmem hbefore]
    have hkey : ((s.buckets[k]?.getD (.empty k)).merge o).key = k := by
      rw [← hmerged, hmid.key_merged, ← hk]
    rw [if_pos hk, hfinal, List.foldl_cons,
      (hmid.rollAt pool o k.resolution).getElem?_foldl_rollAt_of_ne pool o
        fun hmem => absurd hmem hafter,
      hmid.getElem?_rollAt, if_pos hk, rolled, hmerged]
    refine congrArg (fun average => some (Bucket.refresh _ average)) ?_
    -- this round and the later ones change no bucket that the average depends on
    refine (hmid.putBucket _).average_congr (hs.rollUp pool o) fun l hl => ?_
    rw [hkey] at hl
    have hle : l ≠ k ∧ (l.resolution ∈ k.resolution :: after →
        l ≠ .containing pool l.resolution o.blockTime) := by
      cases hp : k.resolution.parent? with
      | none =>
        obtain ⟨-, hr, hlt⟩ := (BucketKey.dependsOn_iff_of_none hp).1 hl
        have hne : l ≠ k := by
          rintro rfl
          exact lt_irrefl _ hlt
        exact ⟨hne, fun _ => by rwa [hr, ← hk]⟩
      | some parent =>
        obtain ⟨-, hr, -⟩ := (BucketKey.dependsOn_iff_of_some hp).1 hl
        refine ⟨?_, fun hmem => absurd (hr ▸ hmem) (Resolution.parent_not_mem hall hp)⟩
        rintro rfl
        exact Resolution.parent_ne hp hr.symm
    rw [getElem?_putBucket_of_ne _ (by rw [hkey]; exact hle.1.symm), hfinal,
      hmid.getElem?_foldl_rollAt_of_ne pool o hle.2]
  · rw [if_neg hk]
    exact hs.getElem?_foldl_rollAt_of_ne pool o fun _ => hk

end MemoryState

end PoolKlines
