import PoolKlines.Kline.Rollup
import PoolKlines.Proofs.Computation

/-!
# What rolling up leaves alone

To roll up a record is to read a batch and to write buckets and totals into it. Whatever these
writes leave alone is left alone by rolling up, and also by a roll-up that fails halfway.

* `Keeps P x` says that a computation that begins in a state with a property ends in one, whether it
  fails or not; it is closed under sequencing and repetition;
* `Batch.LeavesAlone P` says that neither buckets nor totals matter to a property;
* `Rollup.keeps_apply`: rolling up a record keeps such a property.
-/

namespace PoolKlines

section Keeps

variable {ε ε' σ α β ι : Type} {P : σ → Prop}

/-- A computation that begins in a state with a property ends in one. -/
def Keeps (P : σ → Prop) (x : EStateM ε σ α) : Prop := ∀ s, P s → P (lastState (x s))

theorem Keeps.pure (a : α) : Keeps P (Pure.pure a : EStateM ε σ α) := fun _ hs => hs

theorem Keeps.throw (e : ε) : Keeps P (MonadExcept.throw e : EStateM ε σ α) := fun _ hs => hs

theorem Keeps.bind {x : EStateM ε σ α} {f : α → EStateM ε σ β} (hx : Keeps P x)
    (hf : ∀ a, Keeps P (f a)) : Keeps P (x >>= f) := by
  intro s hs
  have hstep := hx s hs
  cases hxs : x s with
  | error e t =>
    rw [hxs] at hstep
    rw [bind_of_error hxs]
    exact hstep
  | ok a t =>
    rw [hxs] at hstep
    rw [bind_of_ok hxs]
    exact hf a t hstep

theorem Keeps.adaptExcept {x : EStateM ε σ α} (hx : Keeps P x) (f : ε → ε') :
    Keeps P (EStateM.adaptExcept f x) := by
  intro s hs
  have hstep := hx s hs
  cases hxs : x s with
  | error e t =>
    rw [hxs] at hstep
    rw [adaptExcept_of_error hxs]
    exact hstep
  | ok a t =>
    rw [hxs] at hstep
    rw [adaptExcept_of_ok hxs]
    exact hstep

theorem Keeps.forM {as : List ι} {f : ι → EStateM ε σ Unit} (h : ∀ a ∈ as, Keeps P (f a)) :
    Keeps P (as.forM f) := fun _ hs => forM_preserves h hs

theorem Keeps.read (ask : σ → Except ε α) : Keeps P (Staged.read ask) := by
  intro s hs
  unfold Staged.read
  cases ask s <;> exact hs

theorem Keeps.write {change : σ → Except ε σ} (h : ∀ s t, P s → change s = .ok t → P t) :
    Keeps P (Staged.write change) := by
  intro s hs
  unfold Staged.write
  cases hchange : change s with
  | error e => exact hs
  | ok t => exact h s t hs hchange

end Keeps

/-- Neither a write of a bucket nor one of totals takes a property away. -/
structure Batch.LeavesAlone {β : Type} [Batch β] (P : β → Prop) : Prop where
  putBucket : ∀ b b' bucket, P b → Batch.putBucket b bucket = .ok b' → P b'
  putTotals : ∀ b b' totals, P b → Batch.putTotals b totals = .ok b' → P b'

namespace Rollup

variable {β : Type} [Batch β] {P : β → Prop}

theorem keeps_average (bucket : Bucket) : Keeps P (average bucket : Staged StoreError β _) := by
  unfold average
  cases bucket.key.resolution.parent? with
  | none =>
    show Keeps P (finestAverage bucket)
    unfold finestAverage
    split
    · exact Keeps.pure _
    · exact (Keeps.read _).bind fun _ => Keeps.pure _
  | some parent =>
    refine (Keeps.read _).bind fun children => ?_
    split
    · exact Keeps.pure _
    · refine (Keeps.read _).bind fun earlier => ?_
      dsimp only
      split <;> exact Keeps.pure _

theorem keeps_applyAt (hP : Batch.LeavesAlone P) (pool : String) (o : Observation)
    (r : Resolution) : Keeps P (applyAt pool o r : Staged StoreError β Unit) := by
  have hput (bucket : Bucket) : Keeps P (Staged.putBucket bucket : Staged StoreError β Unit) :=
    Keeps.write fun b b' => hP.putBucket b b' bucket
  have hupsert (key : BucketKey) (change : Bucket → Bucket) :
      Keeps P (Staged.upsert key change : Staged StoreError β Bucket) :=
    (Keeps.read _).bind fun _ => (hput _).bind fun _ => Keeps.pure _
  refine (hupsert _ _).bind fun bucket => (keeps_average bucket).bind fun average => ?_
  split
  · exact hput _
  · exact Keeps.pure _

/-- Rolling up a record touches nothing but buckets and totals. -/
theorem keeps_apply (hP : Batch.LeavesAlone P) (prices : PriceSource) (pool : PoolConfig)
    (record : Record) : Keeps P (apply prices pool record : Staged RollupError β Unit) := by
  unfold apply
  split
  · exact Keeps.throw _
  · refine Keeps.adaptExcept (Keeps.bind ?_ fun _ => ?_) _
    · exact Keeps.forM fun r _ => keeps_applyAt hP _ _ r
    · exact (Keeps.read _).bind fun _ => Keeps.write fun b b' => hP.putTotals b b' _

end Rollup

end PoolKlines
