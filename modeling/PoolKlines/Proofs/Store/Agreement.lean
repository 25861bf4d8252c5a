import PoolKlines.Kline.Rollup
import PoolKlines.Proofs.Computation
import PoolKlines.Proofs.Store.Mirror

/-!
# Computations on both stores

* `Agree I R x y` says that two computations, from states related by `I`, both succeed with answers
  related by `R` and in states related by `I`; it is closed under sequencing and repetition;
* `Paired shards` relates a batch in memory to a batch on tables with the same contents;
* `agree_bucket?`, `agree_putBucket` and so on: every read and every write of a batch agrees;
* `Rollup.agree_apply`: rolling up a record agrees, as it is made of these reads and writes.
-/

namespace PoolKlines

open Decimal (unsignedZero)

section Agree

variable {ε ε' ε'' σ τ α β γ δ ι : Type} {I : σ → τ → Prop} {R : α → β → Prop} {S : γ → δ → Prop}

/-- From related states both computations succeed, with related answers and in related states. -/
def Agree (I : σ → τ → Prop) (R : α → β → Prop) (x : EStateM ε σ α) (y : EStateM ε' τ β) : Prop :=
  ∀ s t, I s t → ∃ a s' b t', x s = .ok a s' ∧ y t = .ok b t' ∧ R a b ∧ I s' t'

theorem Agree.pure {a : α} {b : β} (h : R a b) :
    Agree I R (Pure.pure a : EStateM ε σ α) (Pure.pure b : EStateM ε' τ β) :=
  fun s t hst => ⟨a, s, b, t, rfl, rfl, h, hst⟩

theorem Agree.bind {x : EStateM ε σ α} {y : EStateM ε' τ β} {f : α → EStateM ε σ γ}
    {g : β → EStateM ε' τ δ} (hx : Agree I R x y) (hf : ∀ a b, R a b → Agree I S (f a) (g b)) :
    Agree I S (x >>= f) (y >>= g) := by
  intro s t hst
  obtain ⟨a, s', b, t', hxs, hyt, hab, hst'⟩ := hx s t hst
  rw [bind_of_ok hxs, bind_of_ok hyt]
  exact hf a b hab s' t' hst'

theorem Agree.mono {I' : σ → τ → Prop} {R' : α → β → Prop} {x : EStateM ε σ α}
    {y : EStateM ε' τ β} (h : Agree I R x y) (hI : ∀ s t, I' s t ↔ I s t)
    (hR : ∀ a b, R a b → R' a b) : Agree I' R' x y := by
  intro s t hst
  obtain ⟨a, s', b, t', hxs, hyt, hab, hst'⟩ := h s t ((hI s t).1 hst)
  exact ⟨a, s', b, t', hxs, hyt, hR a b hab, (hI s' t').2 hst'⟩

/-- Steps that agree one by one agree in turn. -/
theorem Agree.forM {as : List ι} {f : ι → EStateM ε σ Unit} {g : ι → EStateM ε' τ Unit}
    (h : ∀ a ∈ as, Agree I (fun _ _ => True) (f a) (g a)) :
    Agree I (fun _ _ => True) (as.forM f) (as.forM g) := by
  induction as with
  | nil => exact Agree.pure trivial
  | cons a as ih =>
    obtain ⟨ha, hrest⟩ := List.forall_mem_cons.1 h
    exact ha.bind fun _ _ _ => ih hrest

theorem Agree.adaptExcept {x : EStateM ε σ α} {y : EStateM ε' τ β} (h : Agree I R x y)
    (f : ε → ε'') (g : ε' → ε'') :
    Agree I R (EStateM.adaptExcept f x) (EStateM.adaptExcept g y) := by
  intro s t hst
  obtain ⟨a, s', b, t', hxs, hyt, hab, hst'⟩ := h s t hst
  exact ⟨a, s', b, t', adaptExcept_of_ok hxs f, adaptExcept_of_ok hyt g, hab, hst'⟩

theorem Agree.read {ask : σ → Except ε α} {ask' : τ → Except ε' β}
    (h : ∀ s t, I s t → ∃ a b, ask s = .ok a ∧ ask' t = .ok b ∧ R a b) :
    Agree I R (Staged.read ask) (Staged.read ask') := by
  intro s t hst
  obtain ⟨a, b, ha, hb, hab⟩ := h s t hst
  exact ⟨a, s, b, t, by simp only [Staged.read, ha], by simp only [Staged.read, hb], hab, hst⟩

theorem Agree.write {change : σ → Except ε σ} {change' : τ → Except ε' τ}
    (h : ∀ s t, I s t → ∃ s' t', change s = .ok s' ∧ change' t = .ok t' ∧ I s' t') :
    Agree I (fun _ _ => True) (Staged.write change) (Staged.write change') := by
  intro s t hst
  obtain ⟨s', t', hs, ht, hst'⟩ := h s t hst
  exact ⟨(), s', (), t', by simp only [Staged.write, hs], by simp only [Staged.write, ht], trivial,
    hst'⟩

end Agree

/-! ### States without minus zeros -/

namespace MemoryState

/-- No stored bucket and no stored totals have a minus zero. -/
structure Plain (s : MemoryState) : Prop where
  buckets : ∀ (k : BucketKey) (b : Bucket), s.buckets[k]? = some b → b.plain = b
  totals : ∀ (pool : String) (t : PoolTotals), s.totals[pool]? = some t → t.plain = t

variable {s : MemoryState}

theorem plain_empty : empty.Plain :=
  ⟨fun k b h => by simp [empty] at h, fun pool t h => by simp [empty] at h⟩

theorem Plain.putBucket (h : s.Plain) {b : Bucket} (hb : b.plain = b) : (s.putBucket b).Plain where
  buckets k c hc := by
    rw [getElem?_putBucket] at hc
    split at hc
    · cases hc
      exact hb
    · exact h.buckets k c hc
  totals := h.totals

theorem Plain.putTotals (h : s.Plain) {t : PoolTotals} (ht : t.plain = t) :
    Plain { s with totals := s.totals.insert t.pool t } where
  buckets := h.buckets
  totals pool u hu := by
    rw [Std.ExtTreeMap.getElem?_insert] at hu
    split at hu
    · cases hu
      exact ht
    · exact h.totals pool u hu

/-- Nothing that is stored is changed by taking the sign from zeros. -/
theorem Plain.map_getElem? (h : s.Plain) (k : BucketKey) :
    s.buckets[k]?.map Bucket.plain = s.buckets[k]? := by
  cases hb : s.buckets[k]? with
  | none => rfl
  | some b => rw [Option.map_some, h.buckets k b hb]

theorem Plain.map_totals (h : s.Plain) (pool : String) :
    s.totals[pool]?.map PoolTotals.plain = s.totals[pool]? := by
  cases ht : s.totals[pool]? with
  | none => rfl
  | some t => rw [Option.map_some, h.totals pool t ht]

theorem Plain.plain_of_mem (h : s.Plain) {pool : String} {r : Resolution} {p : Int → Bool}
    {b : Bucket} (hb : b ∈ s.bucketsWhere pool r p) : b.plain = b := by
  obtain ⟨start, hstored, -⟩ := mem_bucketsWhere.1 hb
  exact h.buckets _ b hstored

theorem Plain.map_bucketsWhere (h : s.Plain) (pool : String) (r : Resolution) (p : Int → Bool) :
    (s.bucketsWhere pool r p).map Bucket.plain = s.bucketsWhere pool r p := by
  exact (List.map_congr_left fun b hb => h.plain_of_mem hb).trans (List.map_id _)

theorem Plain.map_find? (h : s.Plain) (pool : String) (r : Resolution) (p : Int → Bool)
    (q : Bucket → Bool) : ((s.bucketsWhere pool r p).reverse.find? q).map Bucket.plain =
      (s.bucketsWhere pool r p).reverse.find? q := by
  cases hb : (s.bucketsWhere pool r p).reverse.find? q with
  | none => rfl
  | some b =>
    have hmem := List.mem_reverse.1 (List.mem_of_find?_eq_some hb)
    rw [Option.map_some, h.plain_of_mem hmem]

end MemoryState

/-! ### Reads and writes -/

/-- The pool has a shard. -/
def ShardMap.Assigned (shards : ShardMap) (pool : String) : Prop :=
  ∃ shard, shards.find? pool = some shard

/-- A batch in memory whose commit will be accepted, and a batch with the same contents on tables
with the given shards. -/
structure Paired (shards : ShardMap) (m : MemoryBatch) (d : DurableBatch) : Prop where
  accepted : m.refused = false
  shards_eq : d.shards = shards
  mirrors : Mirrors shards m.staged d.staged

/-- Such batches, where the state in memory has a further property. -/
structure PairedWith (shards : ShardMap) (P : MemoryState → Prop) (m : MemoryBatch)
    (d : DurableBatch) : Prop extends Paired shards m d where
  kept : P m.staged

variable {shards : ShardMap} {pool : String}

/-- What the computation in memory keeps and answers can be added to an agreement. -/
theorem Agree.keeping {ε ε' α β : Type} {R : α → β → Prop} {x : EStateM ε MemoryBatch α}
    {y : EStateM ε' DurableBatch β} (h : Agree (Paired shards) R x y) {P : MemoryState → Prop}
    {Q : α → Prop}
    (hx : ∀ m, P m.staged → ∃ a m', x m = .ok a m' ∧ Q a ∧ P m'.staged) :
    Agree (PairedWith shards P) (fun a b => R a b ∧ Q a) x y := by
  intro m d hmd
  obtain ⟨a, m', b, d', hm, hd, hab, hmd'⟩ := h m d hmd.toPaired
  obtain ⟨a₂, m₂, hm₂, hQ, hP⟩ := hx m hmd.kept
  obtain ⟨rfl, rfl⟩ : a = a₂ ∧ m' = m₂ := by
    rw [hm, EStateM.Result.ok.injEq] at hm₂
    exact hm₂
  exact ⟨a, m', b, d', hm, hd, ⟨hab, hQ⟩, hmd', hP⟩

theorem Paired.bind_shard {m : MemoryBatch} {d : DurableBatch} (h : Paired shards m d)
    {shard : UInt16} (hpool : shards.find? pool = some shard) {α : Type}
    (f : UInt16 → Except StoreError α) : (d.shard pool >>= f) = f shard := by
  rw [DurableBatch.shard, h.shards_eq, hpool]
  rfl

theorem map_plain_of_eq {x y : Option Bucket} (h : y = x.map Bucket.plain) :
    x.map Bucket.plain = y.map Bucket.plain := by
  rw [h, Option.map_map]
  simp [Function.comp_def]

theorem map_plain_of_eq_map {x y : List Bucket} (h : y = x.map Bucket.plain) :
    x.map Bucket.plain = y.map Bucket.plain := by
  rw [h, List.map_map]
  simp [Function.comp_def]

theorem map_plain_of_eq_totals {x y : Option PoolTotals} (h : y = x.map PoolTotals.plain) :
    x.map PoolTotals.plain = y.map PoolTotals.plain := by
  rw [h, Option.map_map]
  simp [Function.comp_def]

theorem agree_bucket? {key : BucketKey} (hkey : shards.Assigned key.pool) :
    Agree (Paired shards)
      (fun a b => b = a.map Bucket.plain ∧ (a.getD (.empty key)).key = key)
      (Staged.bucket? (β := MemoryBatch) key) (Staged.bucket? (β := DurableBatch) key) := by
  obtain ⟨shard, hshard⟩ := hkey
  refine Agree.read fun m d h =>
    ⟨_, _, rfl, (h.bind_shard hshard _).trans (h.mirrors.bucket? hshard), rfl, ?_⟩
  cases hb : m.staged.buckets[key]? with
  | none => rfl
  | some b => exact h.mirrors.keyed key b hb

theorem agree_bucketsBetween (hpool : shards.Assigned pool) (r : Resolution) (first last : Int) :
    Agree (Paired shards) (fun a b => b = a.map Bucket.plain)
      (Staged.bucketsBetween (β := MemoryBatch) pool r first last)
      (Staged.bucketsBetween (β := DurableBatch) pool r first last) := by
  obtain ⟨shard, hshard⟩ := hpool
  exact Agree.read fun m d h => ⟨_, _, rfl,
    (h.bind_shard hshard _).trans (h.mirrors.bucketsBetween hshard r first last), rfl⟩

theorem agree_latestBefore? (hpool : shards.Assigned pool) (r : Resolution) (time : Int) :
    Agree (Paired shards) (fun a b => b = a.map Bucket.plain)
      (Staged.latestBefore? (β := MemoryBatch) pool r time)
      (Staged.latestBefore? (β := DurableBatch) pool r time) := by
  obtain ⟨shard, hshard⟩ := hpool
  exact Agree.read fun m d h => ⟨_, _, rfl,
    (h.bind_shard hshard _).trans (h.mirrors.latestBefore? hshard r time), rfl⟩

theorem agree_putBucket {b c : Bucket} (hplain : b.plain = c.plain)
    (hpool : shards.Assigned b.key.pool) :
    Agree (Paired shards) (fun _ _ => True) (Staged.putBucket (β := MemoryBatch) b)
      (Staged.putBucket (β := DurableBatch) c) := by
  obtain ⟨shard, hshard⟩ := hpool
  rw [Bucket.key_eq_of_plain_eq hplain] at hshard
  exact Agree.write fun _ _ h => ⟨_, _, rfl, h.bind_shard hshard _, h.accepted, h.shards_eq,
    h.mirrors.putBucket hplain hshard⟩

theorem agree_totals? (pool : String) :
    Agree (Paired shards) (fun a b => b = a.map PoolTotals.plain)
      (Staged.totals? (β := MemoryBatch) pool) (Staged.totals? (β := DurableBatch) pool) :=
  Agree.read fun _ _ h => ⟨_, _, rfl, h.mirrors.totals pool, rfl⟩

theorem agree_putTotals {t u : PoolTotals} (hplain : t.plain = u.plain) :
    Agree (Paired shards) (fun _ _ => True) (Staged.putTotals (β := MemoryBatch) t)
      (Staged.putTotals (β := DurableBatch) u) :=
  Agree.write fun _ _ h =>
    ⟨_, _, rfl, rfl, h.accepted, h.shards_eq, h.mirrors.putTotals hplain⟩

theorem agree_advanceCursor (pool : String) (version : ProtocolVersion) {id : UInt64}
    (hid : id.toNat < 2 ^ 63) :
    Agree (Paired shards) (fun _ _ => True)
      (Staged.advanceCursor (β := MemoryBatch) pool version id)
      (Staged.advanceCursor (β := DurableBatch) pool version id) :=
  Agree.write fun _ _ h =>
    ⟨_, _, rfl, rfl, h.accepted, h.shards_eq, h.mirrors.advanceCursor pool version hid⟩

/-- A change that does not tell zeros apart by their sign agrees, if it leaves the bucket in a pool
with a shard. -/
theorem agree_upsert {key : BucketKey} (hkey : shards.Assigned key.pool) {change : Bucket → Bucket}
    (hassigned : ∀ b, b.key = key → shards.Assigned (change b).key.pool)
    (hchange : ∀ b c, b.key = key → b.plain = c.plain → (change b).plain = (change c).plain) :
    Agree (Paired shards) (fun b c => b.plain = c.plain ∧ ∃ old, old.key = key ∧ b = change old)
      (Staged.upsert (β := MemoryBatch) key change)
      (Staged.upsert (β := DurableBatch) key change) := by
  refine (agree_bucket? hkey).bind fun a b hab => ?_
  have hplain : (a.getD (.empty key)).plain = (b.getD (.empty key)).plain := by
    rw [← Option.getD_map Bucket.plain, map_plain_of_eq hab.1, Option.getD_map]
  have hchanged := hchange _ _ hab.2 hplain
  exact (agree_putBucket hchanged (hassigned _ hab.2)).bind fun _ _ _ =>
    Agree.pure ⟨hchanged, _, hab.2, rfl⟩

/-- Any change agrees where there is no minus zero, if it brings in none. -/
theorem agree_upsert_of_plain {key : BucketKey} (hkey : shards.Assigned key.pool)
    {change : Bucket → Bucket}
    (hassigned : ∀ b, b.key = key → shards.Assigned (change b).key.pool)
    (hchange : ∀ b, b.key = key → b.plain = b → (change b).plain = change b) :
    Agree (PairedWith shards MemoryState.Plain) Eq (Staged.upsert (β := MemoryBatch) key change)
      (Staged.upsert (β := DurableBatch) key change) := by
  refine ((agree_bucket? hkey).keeping (Q := fun a => a.map Bucket.plain = a) fun m hm =>
    ⟨_, _, rfl, hm.map_getElem? key, hm⟩).bind fun a b hab => ?_
  obtain ⟨⟨rfl, hold⟩, ha⟩ := hab
  rw [ha]
  have hplain : (a.getD (.empty key)).plain = a.getD (.empty key) := by
    rw [← Option.getD_map Bucket.plain, ha]
    rfl
  have hchanged := hchange _ hold hplain
  exact ((agree_putBucket rfl (hassigned _ hold)).keeping (Q := fun _ => True) fun m hm =>
    ⟨_, _, rfl, trivial, hm.putBucket hchanged⟩).bind fun _ _ _ => Agree.pure rfl

/-! ### Rolling up -/

namespace Rollup

theorem agree_finestAverage {b c : Bucket} (hplain : b.plain = c.plain)
    (hpool : shards.Assigned b.key.pool) :
    Agree (Paired shards) (fun x y => x.map unsignedZero = y.map unsignedZero)
      (finestAverage (β := MemoryBatch) b) (finestAverage (β := DurableBatch) c) := by
  have haverage := Bucket.average_eq_of_plain_eq hplain
  unfold finestAverage
  rw [← Bucket.priceCount_eq_of_plain_eq hplain, ← Bucket.key_eq_of_plain_eq hplain]
  by_cases hcount : 0 < b.priceCount
  · rw [if_pos hcount, if_pos hcount]
    exact Agree.pure haverage
  · rw [if_neg hcount, if_neg hcount]
    refine (agree_latestBefore? hpool _ _).bind fun x y hxy => Agree.pure ?_
    rw [Option.map_or, Option.map_or, haverage, ← bind_average_plain, map_plain_of_eq hxy,
      bind_average_plain]

theorem agree_backfilledAverage {b c : Bucket} (hplain : b.plain = c.plain)
    (hpool : shards.Assigned b.key.pool) (parent : Resolution) :
    Agree (Paired shards) (fun x y => x.map unsignedZero = y.map unsignedZero)
      (backfilledAverage (β := MemoryBatch) b parent)
      (backfilledAverage (β := DurableBatch) c parent) := by
  have haverage := Bucket.average_eq_of_plain_eq hplain
  have hkey := Bucket.key_eq_of_plain_eq hplain
  have hfinish : b.finish = c.finish := by rw [Bucket.finish, hkey, Bucket.finish]
  unfold backfilledAverage
  rw [← hkey, ← hfinish]
  refine (agree_bucketsBetween hpool _ _ _).bind fun children children' hchildren => ?_
  have hempty : children.isEmpty = children'.isEmpty := by
    rw [hchildren, List.isEmpty_map]
  rw [hempty]
  by_cases h : children'.isEmpty
  · rw [if_pos h, if_pos h]
    exact Agree.pure haverage
  · rw [if_neg h, if_neg h]
    refine (agree_latestBefore? hpool _ _).bind fun earlier earlier' hearlier => ?_
    have hvalues := carriedValues_congr (map_plain_of_eq_map hchildren)
      (map_plain_of_eq hearlier) b.key.start parent.seconds b.key.resolution.window
    -- from here on only the values to be averaged matter, of which there are equally many
    unfold carriedValues at hvalues
    dsimp only
    generalize (carryForward (earlier.bind Bucket.average) _).filterMap id = values at hvalues ⊢
    generalize (carryForward (earlier'.bind Bucket.average) _).filterMap id = values' at hvalues ⊢
    have hmean := meanOf?_congr hvalues
    have hlength := congrArg List.length hvalues
    rw [List.length_map, List.length_map] at hlength
    cases values with
    | nil =>
      cases List.eq_nil_of_length_eq_zero hlength.symm
      exact Agree.pure haverage
    | cons v values =>
      obtain ⟨v', values', rfl⟩ := List.exists_cons_of_length_eq_add_one hlength.symm
      refine Agree.pure ?_
      rw [Option.map_or, Option.map_or, hmean, haverage]

theorem agree_average {b c : Bucket} (hplain : b.plain = c.plain)
    (hpool : shards.Assigned b.key.pool) :
    Agree (Paired shards) (fun x y => x.map unsignedZero = y.map unsignedZero)
      (average (β := MemoryBatch) b) (average (β := DurableBatch) c) := by
  unfold average
  rw [← Bucket.key_eq_of_plain_eq hplain]
  cases b.key.resolution.parent? with
  | none => exact agree_finestAverage hplain hpool
  | some parent => exact agree_backfilledAverage hplain hpool parent

theorem agree_applyAt (hpool : shards.Assigned pool) (o : Observation) (r : Resolution) :
    Agree (Paired shards) (fun _ _ => True) (applyAt (β := MemoryBatch) pool o r)
      (applyAt (β := DurableBatch) pool o r) := by
  have hkey (b : Bucket) (hb : b.key = .containing pool r o.blockTime) :
      shards.Assigned (b.merge o).key.pool := by
    rw [Bucket.key_merge, hb]
    exact hpool
  refine (agree_upsert hpool hkey fun b c _ h => Bucket.merge_congr h o).bind ?_
  rintro b c ⟨hplain, old, hold, rfl⟩
  have hassigned := hkey old hold
  refine (agree_average hplain hassigned).bind fun x y hxy => ?_
  have hsame : Decimal.SameOption x (old.merge o).average ↔ Decimal.SameOption y c.average := by
    rw [← Decimal.sameOption_map_unsignedZero, hxy, Bucket.average_eq_of_plain_eq hplain,
      Decimal.sameOption_map_unsignedZero]
  by_cases h : Decimal.SameOption y c.average
  · rw [if_neg (not_not.2 h), if_neg (not_not.2 (hsame.2 h))]
    exact Agree.pure trivial
  · rw [if_pos h, if_pos (mt hsame.1 h)]
    exact agree_putBucket (Bucket.withAverage_congr hplain hxy) hassigned

theorem agree_applyTotals (pool : String) (o : Observation) :
    Agree (Paired shards) (fun _ _ => True) (applyTotals (β := MemoryBatch) pool o)
      (applyTotals (β := DurableBatch) pool o) := by
  refine (agree_totals? pool).bind fun t u htu => agree_putTotals ?_
  apply PoolTotals.merge_congr
  rw [← Option.getD_map PoolTotals.plain, map_plain_of_eq_totals htu, Option.getD_map]

theorem agree_applyObservation (hpool : shards.Assigned pool) (o : Observation) :
    Agree (Paired shards) (fun _ _ => True) (applyObservation (β := MemoryBatch) pool o)
      (applyObservation (β := DurableBatch) pool o) :=
  (Agree.forM fun r _ => agree_applyAt hpool o r).bind fun _ _ _ => agree_applyTotals pool o

/-- Rolling up a record of a pool with a shard succeeds on both. -/
theorem agree_apply (prices : PriceSource) {pool : PoolConfig} {record : Record}
    (hpool : shards.Assigned pool.address) (hrecord : record.pool = pool.address) :
    Agree (Paired shards) (fun _ _ => True) (apply (β := MemoryBatch) prices pool record)
      (apply (β := DurableBatch) prices pool record) := by
  unfold apply
  rw [if_neg (not_not.2 hrecord), if_neg (not_not.2 hrecord)]
  exact (agree_applyObservation hpool _).adaptExcept _ _

end Rollup

end PoolKlines
