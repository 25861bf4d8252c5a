import Mathlib.Data.List.Induction
import PoolKlines.Proofs.Sorted
import PoolKlines.Store.Memory

/-!
# Buckets of the store in memory

* `MemoryState.putBucket` writes a bucket under its key;
* `MemoryState.Keyed` says that every bucket stands under its own key;
* `mem_bucketsWhere` and `sorted_bucketsWhere` determine the answer to a query: which buckets are
  in it, and that they are in the order of their starts;
* `bucketsWhere_eq_of_getElem?_eq` is the frame rule: a query sees only the buckets in its range;
* `find?_bucketsWhere`: searching an answer for a start is looking up the bucket;
* `lastAverage?` is the average of the last bucket of a list that has one;
* `MemoryStore.state_of_commit` is what a commit leaves.
-/

namespace PoolKlines

/-- The average of the last of some buckets that has one. -/
def lastAverage? (buckets : List Bucket) : Option Decimal :=
  (buckets.filterMap Bucket.average).getLast?

theorem lastAverage?_concat (buckets : List Bucket) (b : Bucket) :
    lastAverage? (buckets ++ [b]) = b.average.or (lastAverage? buckets) := by
  cases h : b.average <;> simp [lastAverage?, List.filterMap_append, h]

/-- Searching backwards for a bucket with an average finds the last average. -/
theorem bind_find?_reverse_average (buckets : List Bucket) :
    (buckets.reverse.find? (·.average.isSome)).bind Bucket.average = lastAverage? buckets := by
  induction buckets using List.reverseRecOn with
  | nil => rfl
  | append_singleton buckets b ih =>
    rw [lastAverage?_concat, ← ih, List.reverse_append, List.reverse_singleton,
      List.singleton_append, List.find?_cons]
    cases h : b.average <;> simp [h]

theorem isSome_lastAverage? {buckets : List Bucket} :
    (lastAverage? buckets).isSome ↔ ∃ b ∈ buckets, b.average.isSome := by
  rw [lastAverage?, List.getLast?_isSome, ne_eq, List.filterMap_eq_nil_iff]
  simp [Option.isSome_iff_ne_none]

namespace MemoryState

/-- Write a bucket under its key. -/
def putBucket (s : MemoryState) (b : Bucket) : MemoryState :=
  { s with buckets := s.buckets.insert b.key b }

theorem getElem?_putBucket (s : MemoryState) (b : Bucket) (k : BucketKey) :
    (s.putBucket b).buckets[k]? = if b.key = k then some b else s.buckets[k]? := by
  simp [putBucket, Std.ExtTreeMap.getElem?_insert]

theorem getElem?_putBucket_of_ne (s : MemoryState) {b : Bucket} {k : BucketKey} (h : b.key ≠ k) :
    (s.putBucket b).buckets[k]? = s.buckets[k]? := by
  simp [getElem?_putBucket, h]

/-- The second of two buckets with one key replaces the first. -/
theorem putBucket_putBucket (s : MemoryState) {b c : Bucket} (h : c.key = b.key) :
    (s.putBucket b).putBucket c = s.putBucket c := by
  have : (s.buckets.insert b.key b).insert c.key c = s.buckets.insert c.key c := by
    apply Std.ExtTreeMap.ext_getElem?
    intro k
    simp only [Std.ExtTreeMap.getElem?_insert, h]
    split <;> rfl
  simp only [putBucket, this]

/-- Every bucket stands under its own key. -/
def Keyed (s : MemoryState) : Prop :=
  ∀ (k : BucketKey) (b : Bucket), s.buckets[k]? = some b → b.key = k

theorem keyed_empty : empty.Keyed := by
  intro k b h
  simp [empty] at h

theorem Keyed.putBucket {s : MemoryState} (h : s.Keyed) (b : Bucket) : (s.putBucket b).Keyed := by
  intro k c hc
  rw [getElem?_putBucket] at hc
  split at hc
  · cases hc; assumption
  · exact h k c hc

/-! ### Queries -/

variable {s : MemoryState} {pool : String} {r : Resolution} {p q : Int → Bool}

theorem mem_bucketsWhere {b : Bucket} :
    b ∈ s.bucketsWhere pool r p ↔ ∃ start, s.buckets[BucketKey.mk pool r start]? = some b ∧
      p start = true := by
  simp only [bucketsWhere, List.mem_map, List.mem_filter, Prod.exists, exists_eq_right,
    Std.ExtTreeMap.mem_toList_iff_getElem?_eq_some, Bool.and_eq_true, decide_eq_true_eq]
  constructor
  · rintro ⟨⟨pool', r', start⟩, hk, ⟨rfl, rfl⟩, hp⟩
    exact ⟨start, hk, hp⟩
  · rintro ⟨start, hk, hp⟩
    exact ⟨_, hk, ⟨rfl, rfl⟩, hp⟩

theorem Keyed.start_of_mem (hs : s.Keyed) {b : Bucket} (h : b ∈ s.bucketsWhere pool r p) :
    s.buckets[BucketKey.mk pool r b.key.start]? = some b ∧ p b.key.start = true := by
  obtain ⟨start, hb, hp⟩ := mem_bucketsWhere.1 h
  rw [hs _ b hb]
  exact ⟨hb, hp⟩

private theorem start_lt_of_compare {pool : String} {r : Resolution} {t u : Int}
    (h : compare (BucketKey.mk pool r t) (BucketKey.mk pool r u) = .lt) : t < u := by
  have h : (compare pool pool).then ((compare r r).then (compare t u)) = .lt := h
  simpa [Std.ReflCmp.compare_self, compare_lt_iff_lt] using h

theorem sorted_bucketsWhere (hs : s.Keyed) (pool : String) (r : Resolution) (p : Int → Bool) :
    (s.bucketsWhere pool r p).Pairwise fun b c => b.key.start < c.key.start := by
  rw [bucketsWhere, List.pairwise_map]
  refine List.Pairwise.imp_of_mem (fun {x y} hx hy hxy => ?_)
    (s.buckets.ordered_keys_toList.sublist List.filter_sublist)
  obtain ⟨⟨pool₁, r₁, t⟩, b⟩ := x
  obtain ⟨⟨pool₂, r₂, u⟩, c⟩ := y
  simp only [List.mem_filter, Std.ExtTreeMap.mem_toList_iff_getElem?_eq_some, Bool.and_eq_true,
    decide_eq_true_eq] at hx hy
  obtain ⟨hb, ⟨rfl, rfl⟩, -⟩ := hx
  obtain ⟨hc, ⟨rfl, rfl⟩, -⟩ := hy
  rw [hs _ b hb, hs _ c hc]
  exact start_lt_of_compare hxy

/-- The answer to a query depends only on the buckets in its range. -/
theorem bucketsWhere_eq_of_getElem?_eq {t : MemoryState} (hs : s.Keyed) (ht : t.Keyed)
    (h : ∀ start, p start = true →
      s.buckets[BucketKey.mk pool r start]? = t.buckets[BucketKey.mk pool r start]?) :
    s.bucketsWhere pool r p = t.bucketsWhere pool r p := by
  refine eq_of_sorted (sorted_bucketsWhere hs ..) (sorted_bucketsWhere ht ..) ?_
  intro c
  simp only [mem_bucketsWhere]
  exact exists_congr fun start => and_congr_left fun hp => by rw [h start hp]

/-- Searching the answer to a query for a start within its range is looking up the bucket. -/
theorem find?_bucketsWhere (hs : s.Keyed) {start : Int} (hp : p start = true) :
    (s.bucketsWhere pool r p).find? (·.key.start = start) =
      s.buckets[BucketKey.mk pool r start]? := by
  cases hb : s.buckets[BucketKey.mk pool r start]? with
  | none =>
    rw [List.find?_eq_none]
    intro c hc hstart
    have hstored := (hs.start_of_mem hc).1
    rw [of_decide_eq_true hstart, hb] at hstored
    exact absurd hstored (by simp)
  | some b =>
    have hmem : b ∈ s.bucketsWhere pool r p := mem_bucketsWhere.2 ⟨start, hb, hp⟩
    have hkey : b.key = ⟨pool, r, start⟩ := hs _ b hb
    cases hfound : (s.bucketsWhere pool r p).find? (·.key.start = start) with
    | none =>
      have habsent := List.find?_eq_none.1 hfound b hmem
      exact absurd (decide_eq_true (congrArg BucketKey.start hkey)) habsent
    | some c =>
      have hstart := List.find?_some hfound
      have hstored := (hs.start_of_mem (List.mem_of_find?_eq_some hfound)).1
      rw [of_decide_eq_true hstart, hb] at hstored
      exact hstored.symm

theorem bucketsWhere_congr (h : ∀ start b, s.buckets[BucketKey.mk pool r start]? = some b →
    p start = q start) : s.bucketsWhere pool r p = s.bucketsWhere pool r q := by
  rw [bucketsWhere, bucketsWhere]
  congr 1
  apply List.filter_congr
  rintro ⟨⟨pool', r', start⟩, b⟩ hb
  rw [Std.ExtTreeMap.mem_toList_iff_getElem?_eq_some] at hb
  by_cases hk : pool' = pool ∧ r' = r
  · obtain ⟨rfl, rfl⟩ := hk
    simp [h start b hb]
  · rcases not_and_or.1 hk with hk | hk <;> simp [hk]

end MemoryState

/-- A commit that is not refused leaves the staged state. -/
theorem MemoryStore.state_of_commit {m m' : MemoryStore} {b : MemoryBatch}
    (h : Store.commit m b = .ok m') : m'.state = b.staged := by
  simp only [Store.commit] at h
  split at h
  · cases h
  · cases h
    rfl

end PoolKlines
