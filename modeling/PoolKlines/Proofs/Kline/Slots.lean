import PoolKlines.Proofs.Kline.Average
import PoolKlines.Proofs.Store.Table

/-!
# Loaded buckets and their slots

A coarser average is computed over slots, at each of which at most one of the loaded buckets is
read. A bucket between two slots would be loaded and not be read.

* `Rollup.slotCount` and `Rollup.childAt?` are the slots up to the latest loaded bucket and what is
  read at each of them;
* `Rollup.OnSlots` says that every loaded bucket is read at exactly one slot;
* `MemoryState.Gridded` says that buckets stand under their keys and start at multiples of their
  lengths, and `MemoryState.Gridded.rollUp` that rolling up keeps this;
* `MemoryState.Gridded.onSlots_children`: so the parent buckets in the span of a bucket are on its
  slots.
-/

namespace PoolKlines

namespace Rollup

/-- The number of slots from the start of a span up to its latest bucket. -/
def slotCount (children : List Bucket) (first step : Int) : Int :=
  (children.foldl (fun latest child => max latest child.key.start) first - first) / step + 1

/-- The bucket that is read at a slot. -/
def childAt? (children : List Bucket) (first step : Int) (slot : Nat) : Option Bucket :=
  children.find? (·.key.start = first + slot * step)

/-- What the loop over the slots reads. -/
theorem slotAverages_eq (children : List Bucket) (first step window : Int) :
    slotAverages children first step window =
      (List.range (min (slotCount children first step) window).toNat).map fun slot =>
        (childAt? children first step slot).bind Bucket.average :=
  rfl

/-- Every loaded bucket is read at exactly one slot. -/
structure OnSlots (children : List Bucket) (first step window : Int) : Prop where
  sorted : children.Pairwise fun b c => b.key.start < c.key.start
  /-- Buckets start at slots. -/
  on_slot : ∀ c ∈ children, ∃ slot : Nat, slot < window ∧ c.key.start = first + slot * step
  /-- The cap removes no slot. -/
  slotCount_le : slotCount children first step ≤ window
  /-- The loop goes through the slots and takes the average of what is read at each. -/
  averages_eq : slotAverages children first step window =
    (List.range (min (slotCount children first step) window).toNat).map fun slot =>
      (childAt? children first step slot).bind Bucket.average
  /-- A bucket is read at exactly one of the slots that the loop goes through. -/
  read_once : ∀ c ∈ children, ∃! slot,
    slot ∈ List.range (min (slotCount children first step) window).toNat ∧
      childAt? children first step slot = some c

theorem find?_start_of_mem {children : List Bucket} {c : Bucket}
    (hsorted : children.Pairwise fun b c => b.key.start < c.key.start) (hc : c ∈ children) :
    children.find? (·.key.start = c.key.start) = some c := by
  have hnodup : (children.map fun b => b.key.start).Nodup :=
    List.pairwise_map.2 (hsorted.imp ne_of_lt)
  exact (find?_key_eq_some hnodup).2 ⟨hc, rfl⟩

/-- If buckets start at slots of the window, the latest of them does. -/
theorem slotCount_le_window {children : List Bucket} {first step window : Int} (hstep : 0 < step)
    (hwindow : 0 < window)
    (hslots : ∀ c ∈ children, ∃ slot : Nat, slot < window ∧ c.key.start = first + slot * step) :
    slotCount children first step ≤ window := by
  have hstart : ∀ c ∈ children, c.key.start ≤ first + (window - 1) * step := by
    intro c hc
    obtain ⟨slot, hslot, hstart⟩ := hslots c hc
    rw [hstart]
    exact Int.add_le_add_left (Int.mul_le_mul_of_nonneg_right (by omega) hstep.le) _
  have hlatest := MemoryState.foldl_max_start_le
    (Int.le_add_of_nonneg_right (Int.mul_nonneg (by omega) hstep.le)) hstart
  have hquotient := Int.ediv_le_of_le_mul hstep (Int.sub_left_le_of_le_add hlatest)
  rw [slotCount]
  omega

/-- The slot of a bucket is no later than that of the latest one. -/
theorem lt_slotCount {children : List Bucket} {first step : Int} (hstep : 0 < step)
    (hsorted : children.Pairwise fun b c => b.key.start < c.key.start) {c : Bucket}
    (hc : c ∈ children) {slot : Nat} (hstart : c.key.start = first + slot * step) :
    slot < slotCount children first step := by
  have hne := List.ne_nil_of_mem hc
  have hle := le_getLast_of_sorted (f := fun b : Bucket => b.key.start) hsorted hc
  have hoffset : 0 ≤ slot * step := Int.mul_nonneg (Int.natCast_nonneg slot) hstep.le
  have hfirst : first ≤ (children.getLast hne).key.start := by omega
  have hlatest := MemoryState.foldl_max_start_eq hsorted (List.getLast?_eq_some_getLast hne) hfirst
  have hspan : slot * step ≤ (children.getLast hne).key.start - first := by omega
  have hquotient := Int.le_ediv_of_mul_le hstep hspan
  rw [slotCount, hlatest]
  omega

/-- Sorted buckets that start at slots are on the slots. -/
theorem onSlots {children : List Bucket} {first step window : Int} (hstep : 0 < step)
    (hwindow : 0 < window)
    (hsorted : children.Pairwise fun b c => b.key.start < c.key.start)
    (hslots : ∀ c ∈ children, ∃ slot : Nat, slot < window ∧ c.key.start = first + slot * step) :
    OnSlots children first step window := by
  have hcount := slotCount_le_window hstep hwindow hslots
  refine ⟨hsorted, hslots, hcount, slotAverages_eq children first step window, fun c hc => ?_⟩
  obtain ⟨slot, -, hstart⟩ := hslots c hc
  refine ⟨slot, ⟨List.mem_range.2 ?_, ?_⟩, ?_⟩
  · have hlt := lt_slotCount hstep hsorted hc hstart
    rw [min_eq_left hcount]
    omega
  · rw [childAt?, ← hstart]
    exact find?_start_of_mem hsorted hc
  · rintro other ⟨-, hread⟩
    have hother : c.key.start = first + other * step := by simpa using List.find?_some hread
    rw [hstart] at hother
    have hsame := Int.eq_of_mul_eq_mul_right hstep.ne' (Int.add_left_cancel hother)
    exact_mod_cast hsame.symm

/-- Slots do not depend on the sign of zeros. -/
theorem OnSlots.map_plain {children : List Bucket} {first step window : Int}
    (h : OnSlots children first step window) (hstep : 0 < step) (hwindow : 0 < window) :
    OnSlots (children.map Bucket.plain) first step window := by
  refine onSlots hstep hwindow (List.pairwise_map.2 h.sorted) fun c' hc' => ?_
  obtain ⟨c, hc, rfl⟩ := List.mem_map.1 hc'
  exact h.on_slot c hc

end Rollup

namespace MemoryState

/-- Every bucket stands under its own key and starts at a multiple of its length. -/
structure Gridded (s : MemoryState) : Prop where
  keyed : s.Keyed
  aligned : s.Aligned

theorem gridded_empty : empty.Gridded := ⟨keyed_empty, fun k b h => by simp [empty] at h⟩

variable {s : MemoryState}

namespace Gridded

theorem putBucket (h : s.Gridded) {b : Bucket} (hb : b.key.resolution.seconds ∣ b.key.start) :
    (s.putBucket b).Gridded := by
  refine ⟨h.keyed.putBucket b, fun k c hc => ?_⟩
  rw [getElem?_putBucket] at hc
  split at hc
  next hk => exact hk ▸ hb
  next => exact h.aligned k c hc

theorem putBucket_merged (h : s.Gridded) (pool : String) (o : Observation) (r : Resolution) :
    (s.putBucket (s.merged pool o r)).Gridded :=
  h.putBucket (by
    rw [h.keyed.key_merged]
    exact r.seconds_dvd_start o.blockTime)

theorem rollAt (h : s.Gridded) (pool : String) (o : Observation) (r : Resolution) :
    (s.rollAt pool o r).Gridded :=
  h.putBucket (by
    rw [h.keyed.key_rolled]
    exact r.seconds_dvd_start o.blockTime)

end Gridded

theorem keptByRollUp_gridded (pool : String) : KeptByRollUp pool Gridded where
  rollAt hs := hs.rollAt pool
  rollTotals hs _ := ⟨hs.keyed, hs.aligned⟩

namespace Gridded

theorem foldl_rollAt (h : s.Gridded) (pool : String) (o : Observation) (rs : List Resolution) :
    (rs.foldl (MemoryState.rollAt pool o) s).Gridded :=
  (keptByRollUp_gridded pool).foldl_rollAt h o rs

theorem rollUp (h : s.Gridded) (pool : String) (o : Observation) : (s.rollUp pool o).Gridded :=
  (keptByRollUp_gridded pool).rollUp h o

/-- The parent buckets in the span of a bucket are on its slots. -/
theorem onSlots_children (h : s.Gridded) {key : BucketKey} {parent : Resolution}
    (hp : key.resolution.parent? = some parent) (hd : key.resolution.seconds ∣ key.start) :
    Rollup.OnSlots (s.children key parent) key.start parent.seconds key.resolution.window := by
  refine Rollup.onSlots parent.seconds_pos (Resolution.window_pos _)
    (sorted_bucketsWhere h.keyed ..) fun c hc => ?_
  exact slot_of_mem_children h.keyed h.aligned hp hd hc

end Gridded

/-- A round touches the bucket of its resolution, and the rounds after it remove none. -/
theorem isSome_foldl_rollAt (hs : s.Keyed) (pool : String) (o : Observation) {r : Resolution}
    {rs : List Resolution} (hr : r ∈ rs) :
    ((rs.foldl (rollAt pool o) s).buckets[BucketKey.containing pool r o.blockTime]?).isSome := by
  induction rs using List.reverseRecOn with
  | nil => cases hr
  | append_singleton rs q ih =>
    rw [List.foldl_append, List.foldl_cons, List.foldl_nil,
      (hs.foldl_rollAt pool o rs).getElem?_rollAt]
    split
    · rfl
    next hne =>
      refine ih ((List.mem_append.1 hr).resolve_right fun hq => hne ?_)
      rw [List.mem_singleton.1 hq]

/-- The parent bucket of a timestamp is among those in the span of its bucket. -/
theorem mem_children_containing {pool : String} {r parent : Resolution} {t : Int} {b : Bucket}
    (hp : r.parent? = some parent)
    (hb : s.buckets[BucketKey.containing pool parent t]? = some b) :
    b ∈ s.children (.containing pool r t) parent := by
  refine mem_bucketsWhere.2 ⟨parent.start t, hb, ?_⟩
  rw [Bool.and_eq_true, decide_eq_true_eq, decide_eq_true_eq]
  exact ⟨Resolution.start_le_start_of_parent hp t, Resolution.start_lt_finish_of_parent parent r t⟩

end MemoryState

end PoolKlines
