import PoolKlines.Proofs.Decimal.Quotient
import PoolKlines.Proofs.Kline.Rounds

/-!
# Averages over slots

What the average of a coarser bucket is the mean of, read off the buckets of a state: the slots of
the parent resolution from the start of the bucket up to its latest parent bucket, each with the
latest average known at its time.

* `MemoryState.averageAt?` is the latest average up to a time;
* `MemoryState.slotStarts` and `MemoryState.slotValues` are the slots of a bucket and their values;
* `MemoryState.Aligned` says that every bucket starts at a multiple of its length;
* `carriedAverages_eq_slotValues`: these are the values that rolling up computes with;
* `slotValues_eq_nil_iff`: when no slot has a value.
-/

namespace PoolKlines

open Decimal (SameOption)

/-- A mean of at least one decimal exists, and a mean of none does not. -/
theorem isSome_meanOf? {values : List Decimal} (hlength : values.length < UInt64.size) :
    (meanOf? values).isSome ↔ values ≠ [] := by
  constructor
  · rintro h rfl
    simp at h
  · intro h
    apply Decimal.isSome_div?_ofCount
    intro hzero
    have hcount := congrArg UInt64.toNat hzero
    rw [UInt64.toNat_ofNat_of_lt' hlength] at hcount
    exact h (List.eq_nil_of_length_eq_zero hcount)

/-- Carrying forward follows every quantity that takes up each value as it comes. -/
theorem carryForward_map_range {α : Type} {value carried : Nat → Option α}
    (h : ∀ i, carried (i + 1) = (value i).or (carried i)) (n : Nat) :
    carryForward (carried 0) ((List.range n).map value) =
      (List.range n).map fun i => carried (i + 1) := by
  induction n generalizing value carried with
  | zero => rfl
  | succ n ih =>
    rw [List.range_succ_eq_map, List.map_cons, List.map_map, List.map_cons, List.map_map,
      carryForward, ← h 0]
    have hrest : ∀ i, (carried ∘ Nat.succ) (i + 1) =
        ((value ∘ Nat.succ) i).or ((carried ∘ Nat.succ) i) := fun i => h (i + 1)
    exact congrArg _ (ih hrest)

namespace MemoryState

/-- The latest average among the buckets of a pool at a resolution that start up to a time. -/
def averageAt? (s : MemoryState) (pool : String) (r : Resolution) (time : Int) : Option Decimal :=
  lastAverage? (s.bucketsWhere pool r (· ≤ time))

/-- The buckets of the parent resolution in the span of a bucket. -/
def children (s : MemoryState) (key : BucketKey) (parent : Resolution) : List Bucket :=
  s.bucketsWhere key.pool parent fun start => key.start ≤ start && start < key.finish

/-- The starts of the slots of the parent resolution from the start of a bucket up to its latest
parent bucket. -/
def slotStarts (s : MemoryState) (key : BucketKey) (parent : Resolution) : List Int :=
  match (s.children key parent).getLast? with
  | none => []
  | some latest =>
    (List.range ((latest.key.start - key.start) / parent.seconds + 1).toNat).map
      fun (slot : Nat) => key.start + slot * parent.seconds

/-- The values of these slots, those without a value left out. -/
def slotValues (s : MemoryState) (key : BucketKey) (parent : Resolution) : List Decimal :=
  (s.slotStarts key parent).filterMap (s.averageAt? key.pool parent)

/-- Every bucket starts at a multiple of its length. -/
def Aligned (s : MemoryState) : Prop :=
  ∀ (k : BucketKey) (b : Bucket), s.buckets[k]? = some b → k.resolution.seconds ∣ k.start

variable {s : MemoryState} {pool : String} {r parent : Resolution}

/-- The latest average up to a time is that of the bucket at the time or else the latest one up to
an earlier time, when no bucket starts in between. -/
theorem averageAt?_eq_or (hs : s.Keyed) {time earlier : Int} (hlt : earlier < time)
    (hbetween : ∀ start b, s.buckets[BucketKey.mk pool r start]? = some b → start < time →
      start ≤ earlier) :
    s.averageAt? pool r time =
      (s.buckets[BucketKey.mk pool r time]?.bind Bucket.average).or
        (s.averageAt? pool r earlier) := by
  cases hb : s.buckets[BucketKey.mk pool r time]? with
  | none =>
    rw [Option.bind_none, Option.none_or, averageAt?, averageAt?]
    refine congrArg lastAverage? (bucketsWhere_congr fun start c hc => ?_)
    have hne : start ≠ time := by
      rintro rfl
      rw [hb] at hc
      cases hc
    have := hbetween start c hc
    rw [decide_eq_decide]
    omega
  | some b =>
    have hkey : b.key = ⟨pool, r, time⟩ := hs _ b hb
    -- the bucket at the time comes last, after those up to the earlier time
    have hconcat : s.bucketsWhere pool r (· ≤ time) =
        s.bucketsWhere pool r (· ≤ earlier) ++ [b] := by
      refine eq_of_sorted (sorted_bucketsWhere hs ..) ?_ ?_
      · rw [List.pairwise_append]
        refine ⟨sorted_bucketsWhere hs .., List.pairwise_singleton _ _, ?_⟩
        intro c hc d hd
        have hle : c.key.start ≤ earlier := of_decide_eq_true (hs.start_of_mem hc).2
        rw [List.mem_singleton.1 hd, hkey]
        exact lt_of_le_of_lt hle hlt
      · intro c
        rw [List.mem_append, List.mem_singleton, mem_bucketsWhere, mem_bucketsWhere]
        constructor
        · rintro ⟨start, hc, hle⟩
          have hle : start ≤ time := of_decide_eq_true hle
          rcases hle.lt_or_eq with h | rfl
          · exact .inl ⟨start, hc, decide_eq_true (hbetween start c hc h)⟩
          · exact .inr (Option.some.inj (hc.symm.trans hb))
        · rintro (⟨start, hc, hle⟩ | rfl)
          · have hle : start ≤ earlier := of_decide_eq_true hle
            exact ⟨start, hc, decide_eq_true (by omega)⟩
          · exact ⟨time, hb, decide_eq_true (le_refl time)⟩
    rw [averageAt?, averageAt?, hconcat, lastAverage?_concat, Option.bind_some]

/-- From one slot to the next, the bucket of the slot brings its average. -/
theorem averageAt?_slot (hs : s.Keyed) (ha : s.Aligned) {time : Int} (hd : r.seconds ∣ time) :
    s.averageAt? pool r time =
      (s.buckets[BucketKey.mk pool r time]?.bind Bucket.average).or
        (s.averageAt? pool r (time - r.seconds)) := by
  refine averageAt?_eq_or hs (by have := r.seconds_pos; omega) fun start b hb hlt => ?_
  have hstart : r.seconds ∣ start := ha _ b hb
  have := Resolution.add_le_of_dvd hstart hd hlt
  omega

/-- What is known before a slot is what is known at the slot before it. -/
theorem lastAverage?_before (ha : s.Aligned) {time : Int} (hd : r.seconds ∣ time) :
    lastAverage? (s.bucketsWhere pool r (· < time)) = s.averageAt? pool r (time - r.seconds) := by
  refine congrArg lastAverage? (bucketsWhere_congr fun start b hb => ?_)
  have hpos := r.seconds_pos
  have hstart : r.seconds ∣ start := ha _ b hb
  have hstep := Resolution.add_le_of_dvd hstart hd
  rw [decide_eq_decide]
  constructor
  · intro h
    have := hstep h
    omega
  · intro h
    omega

/-! ### The slots of a bucket -/

theorem foldl_max_start_le {children : List Bucket} {first last : Int} (hfirst : first ≤ last)
    (h : ∀ c ∈ children, c.key.start ≤ last) :
    children.foldl (fun latest child => max latest child.key.start) first ≤ last := by
  induction children generalizing first with
  | nil => exact hfirst
  | cons c children ih =>
    obtain ⟨hc, hrest⟩ := List.forall_mem_cons.1 h
    exact ih (max_le hfirst hc) hrest

/-- The largest start in a sorted list is that of its last bucket. -/
theorem foldl_max_start_eq {children : List Bucket} {latest : Bucket} {first : Int}
    (hsorted : children.Pairwise fun b c => b.key.start < c.key.start)
    (hlatest : children.getLast? = some latest) (hfirst : first ≤ latest.key.start) :
    children.foldl (fun latest child => max latest child.key.start) first = latest.key.start := by
  obtain ⟨before, rfl⟩ := List.getLast?_eq_some_iff.1 hlatest
  have hbefore := (List.pairwise_append.1 hsorted).2.2
  rw [List.foldl_append, List.foldl_cons, List.foldl_nil]
  refine max_eq_right (foldl_max_start_le hfirst fun c hc => ?_)
  exact (hbefore c hc latest (List.mem_singleton_self latest)).le

/-- The parent buckets in the span of a bucket lie on its slots, of which there are as many as the
window of its resolution has. -/
theorem slot_of_mem_children (hs : s.Keyed) (ha : s.Aligned) {key : BucketKey} {child : Bucket}
    (hp : key.resolution.parent? = some parent) (hd : key.resolution.seconds ∣ key.start)
    (hc : child ∈ s.children key parent) :
    ∃ slot : Nat, slot < key.resolution.window ∧
      child.key.start = key.start + slot * parent.seconds := by
  obtain ⟨hstored, hspan⟩ := hs.start_of_mem hc
  rw [Bool.and_eq_true, decide_eq_true_eq, decide_eq_true_eq] at hspan
  obtain ⟨hle, hlt⟩ := hspan
  have hchild : parent.seconds ∣ child.key.start := ha _ _ hstored
  have hfirst : parent.seconds ∣ key.start :=
    Int.dvd_trans (Resolution.parent_seconds_dvd hp) hd
  obtain ⟨q, hq⟩ := Int.dvd_sub hchild hfirst
  have hpos := parent.seconds_pos
  have hwindow := Resolution.window_mul_parent_seconds hp
  have hq0 : 0 ≤ q := by
    by_contra hneg
    have : parent.seconds * q < 0 := Int.mul_neg_of_pos_of_neg hpos (by omega)
    omega
  refine ⟨q.toNat, ?_, by rw [Int.toNat_of_nonneg hq0, Int.mul_comm]; omega⟩
  rw [Int.toNat_of_nonneg hq0]
  refine Int.lt_of_mul_lt_mul_right ?_ hpos.le
  rw [hwindow, Int.mul_comm, ← hq]
  unfold BucketKey.finish at hlt
  omega

/-- The slots run from the start of the bucket to its latest parent bucket. -/
theorem exists_slotStarts (hs : s.Keyed) (ha : s.Aligned) {key : BucketKey}
    (hp : key.resolution.parent? = some parent) (hd : key.resolution.seconds ∣ key.start)
    {latest : Bucket} (hlatest : (s.children key parent).getLast? = some latest) :
    ∃ last : Nat, last < key.resolution.window ∧
      latest.key.start = key.start + last * parent.seconds ∧
      (latest.key.start - key.start) / parent.seconds = last ∧
      s.slotStarts key parent =
        (List.range (last + 1)).map fun (slot : Nat) => key.start + slot * parent.seconds := by
  obtain ⟨last, hlast, hstart⟩ :=
    slot_of_mem_children hs ha hp hd (List.mem_of_getLast? hlatest)
  have hcount : (latest.key.start - key.start) / parent.seconds = last := by
    rw [hstart, show key.start + last * parent.seconds - key.start = last * parent.seconds by omega,
      Int.mul_ediv_cancel _ parent.seconds_pos.ne']
  refine ⟨last, hlast, hstart, hcount, ?_⟩
  simp only [slotStarts, hlatest, hcount]
  rfl

theorem slotStarts_eq_nil {key : BucketKey} (h : s.children key parent = []) :
    s.slotStarts key parent = [] := by
  simp only [slotStarts, h, List.getLast?_nil]

/-- The averages found in the slots are those of the buckets that start there. -/
theorem slotAverages_children (hs : s.Keyed) (ha : s.Aligned) {key : BucketKey}
    (hp : key.resolution.parent? = some parent) (hd : key.resolution.seconds ∣ key.start)
    (hne : s.children key parent ≠ []) :
    Rollup.slotAverages (s.children key parent) key.start parent.seconds key.resolution.window =
      (s.slotStarts key parent).map fun start =>
        s.buckets[BucketKey.mk key.pool parent start]?.bind Bucket.average := by
  have hsorted : (s.children key parent).Pairwise fun b c => b.key.start < c.key.start :=
    sorted_bucketsWhere hs ..
  have hlatest := List.getLast?_eq_some_getLast hne
  obtain ⟨last, hlast, hstart, hcount, hslots⟩ := exists_slotStarts hs ha hp hd hlatest
  have hspan := (hs.start_of_mem (List.mem_of_getLast? hlatest)).2
  rw [Bool.and_eq_true, decide_eq_true_eq, decide_eq_true_eq] at hspan
  have hmin : (min ((last : Int) + 1) key.resolution.window).toNat = last + 1 := by omega
  simp only [Rollup.slotAverages, foldl_max_start_eq hsorted hlatest hspan.1, hcount, hmin, hslots,
    List.map_map]
  refine List.map_congr_left fun slot hslot => ?_
  have hpos := parent.seconds_pos
  have hle : (slot : Int) * parent.seconds ≤ last * parent.seconds :=
    Int.mul_le_mul_of_nonneg_right (by have := List.mem_range.1 hslot; omega) hpos.le
  have hnonneg : 0 ≤ (slot : Int) * parent.seconds := Int.mul_nonneg (by omega) hpos.le
  rw [children, find?_bucketsWhere hs]
  · rfl
  · rw [Bool.and_eq_true, decide_eq_true_eq, decide_eq_true_eq]
    omega

/-- Rolling up computes with the values of the slots. -/
theorem carriedAverages_eq_slotValues (hs : s.Keyed) (ha : s.Aligned) {b : Bucket}
    (hp : b.key.resolution.parent? = some parent)
    (hd : b.key.resolution.seconds ∣ b.key.start) :
    s.carriedAverages b parent = s.slotValues b.key parent := by
  have hchildren : s.bucketsWhere b.key.pool parent (fun start =>
      b.key.start ≤ start && start < b.finish) = s.children b.key parent := rfl
  simp only [carriedAverages, hchildren]
  by_cases hne : s.children b.key parent = []
  · rw [slotValues, slotStarts_eq_nil hne, hne]
    rfl
  · obtain ⟨last, -, -, -, hslots⟩ :=
      exists_slotStarts hs ha hp hd (List.getLast?_eq_some_getLast hne)
    have hfirst : parent.seconds ∣ b.key.start :=
      Int.dvd_trans (Resolution.parent_seconds_dvd hp) hd
    -- what is known before a slot: after it, the bucket of the slot has brought its average
    let known (slot : Nat) : Option Decimal :=
      s.averageAt? b.key.pool parent (b.key.start + slot * parent.seconds - parent.seconds)
    have hknown : ∀ slot : Nat, known (slot + 1) =
        s.averageAt? b.key.pool parent (b.key.start + slot * parent.seconds) := by
      intro slot
      show s.averageAt? b.key.pool parent _ = _
      congr 1
      rw [Int.natCast_succ, Int.add_mul]
      omega
    have hstep : ∀ slot : Nat, known (slot + 1) =
        (s.buckets[BucketKey.mk b.key.pool parent (b.key.start + slot * parent.seconds)]?.bind
          Bucket.average).or (known slot) := by
      intro slot
      rw [hknown, averageAt?_slot hs ha (Int.dvd_add hfirst (Int.dvd_mul_left _ _))]
    have hseed : lastAverage? (s.bucketsWhere b.key.pool parent (· < b.key.start)) = known 0 := by
      rw [lastAverage?_before ha hfirst]
      show _ = s.averageAt? b.key.pool parent _
      congr 1
      omega
    have hcarried : carryForward (known 0) ((s.slotStarts b.key parent).map fun start =>
        s.buckets[BucketKey.mk b.key.pool parent start]?.bind Bucket.average) =
          (s.slotStarts b.key parent).map (s.averageAt? b.key.pool parent) := by
      rw [hslots, List.map_map, List.map_map]
      refine (carryForward_map_range hstep _).trans ?_
      exact List.map_congr_left fun slot _ => hknown slot
    rw [List.isEmpty_eq_false_iff.2 hne, if_neg Bool.false_ne_true, hseed,
      slotAverages_children hs ha hp hd hne, hcarried, slotValues, List.filterMap_map]
    rfl

/-- Some slot has a value just if there is a slot and some parent bucket up to the end of the span
has an average. -/
theorem slotValues_ne_nil_iff (hs : s.Keyed) (ha : s.Aligned) {key : BucketKey}
    (hp : key.resolution.parent? = some parent) (hd : key.resolution.seconds ∣ key.start) :
    s.slotValues key parent ≠ [] ↔ s.children key parent ≠ [] ∧
      ∃ start b, s.buckets[BucketKey.mk key.pool parent start]? = some b ∧ start < key.finish ∧
        b.average.isSome := by
  constructor
  · intro hvalues
    have hne : s.children key parent ≠ [] := fun h => hvalues (by
      rw [slotValues, slotStarts_eq_nil h, List.filterMap_nil])
    refine ⟨hne, ?_⟩
    have hlatest := List.getLast?_eq_some_getLast hne
    obtain ⟨last, -, hstart, -, hslots⟩ := exists_slotStarts hs ha hp hd hlatest
    have hspan := (hs.start_of_mem (List.mem_of_getLast? hlatest)).2
    rw [Bool.and_eq_true, decide_eq_true_eq, decide_eq_true_eq] at hspan
    obtain ⟨value, hvalue⟩ := List.exists_mem_of_ne_nil _ hvalues
    obtain ⟨time, htime, hvalue⟩ := List.mem_filterMap.1 hvalue
    rw [hslots, List.mem_map] at htime
    obtain ⟨slot, hslot, rfl⟩ := htime
    obtain ⟨b, hb, haverage⟩ := isSome_lastAverage?.1 (Option.isSome_of_eq_some hvalue)
    obtain ⟨start, hstored, hle⟩ := mem_bucketsWhere.1 hb
    have hle : start ≤ key.start + slot * parent.seconds := of_decide_eq_true hle
    have hslot : (slot : Int) * parent.seconds ≤ last * parent.seconds :=
      Int.mul_le_mul_of_nonneg_right (by have := List.mem_range.1 hslot; omega)
        parent.seconds_pos.le
    exact ⟨start, b, hstored, by omega, haverage⟩
  · rintro ⟨hne, start, b, hstored, hlt, haverage⟩
    have hlatest := List.getLast?_eq_some_getLast hne
    obtain ⟨last, -, hstart, -, hslots⟩ := exists_slotStarts hs ha hp hd hlatest
    have hspan := (hs.start_of_mem (List.mem_of_getLast? hlatest)).2
    rw [Bool.and_eq_true, decide_eq_true_eq, decide_eq_true_eq] at hspan
    -- the bucket is before the span, or in it and so no later than the latest one
    have hle : start ≤ ((s.children key parent).getLast hne).key.start := by
      by_cases hbefore : start < key.start
      · omega
      · have hb : b ∈ s.children key parent := by
          refine mem_bucketsWhere.2 ⟨start, hstored, ?_⟩
          rw [Bool.and_eq_true, decide_eq_true_eq, decide_eq_true_eq]
          omega
        have hkey : b.key.start = start := congrArg BucketKey.start (hs _ b hstored)
        rw [← hkey]
        exact le_getLast_of_sorted (sorted_bucketsWhere hs ..) hb
    have hvalue : (s.averageAt? key.pool parent (key.start + last * parent.seconds)).isSome := by
      refine isSome_lastAverage?.2 ⟨b, mem_bucketsWhere.2 ⟨start, hstored, ?_⟩, haverage⟩
      rw [decide_eq_true_eq]
      omega
    obtain ⟨value, hvalue⟩ := Option.isSome_iff_exists.1 hvalue
    refine List.ne_nil_of_mem (List.mem_filterMap.2 ⟨_, ?_, hvalue⟩)
    rw [hslots]
    exact List.mem_map.2 ⟨last, List.mem_range.2 (Nat.lt_succ_self last), rfl⟩

/-- The mean over the slots exists just if some slot has a value. -/
theorem isSome_meanOf?_slotValues (hs : s.Keyed) (ha : s.Aligned) {key : BucketKey}
    (hp : key.resolution.parent? = some parent) (hd : key.resolution.seconds ∣ key.start) :
    (meanOf? (s.slotValues key parent)).isSome ↔ s.slotValues key parent ≠ [] := by
  refine isSome_meanOf? (Nat.lt_of_le_of_lt (List.length_filterMap_le _ _) ?_)
  by_cases hne : s.children key parent = []
  · rw [slotStarts_eq_nil hne]
    decide
  · obtain ⟨last, hlast, -, -, hslots⟩ :=
      exists_slotStarts hs ha hp hd (List.getLast?_eq_some_getLast hne)
    have hwindow := key.resolution.window_le
    rw [hslots, List.length_map, List.length_range, UInt64.size]
    omega

end MemoryState

end PoolKlines
