import PoolKlines.Proofs.Kline.Slots
import PoolKlines.Proofs.Store.Refinement

/-!
# Loads of parent buckets

When a record is rolled up, the parent buckets in the span of the touched bucket are loaded at every
resolution but the finest. Whatever was rolled up before, in either store, they lie on the slots.

* `Rollup.touch`, `Rollup.averageOver` and `Rollup.endRound` are what is done before, with and after
  the loaded buckets, and `Rollup.applyObservation_eq` says so;
* `Rollup.LoadsOnSlots` says of a batch that all loads are on the slots;
* `Store.RolledUp` are the stores and open batches that rolling up, committing and dropping lead to,
  and `Store.Bucketless` the stores to begin with;
* `Store.RolledUp.gridded_memory` and `Store.RolledUp.gridded_durable` are the invariants of both
  stores, from `MemoryState.Gridded.apply` and `DurableBatch.Gridded.apply` for one record;
* `loads_lie_on_slots` is the statement about tiles, nests and loads.
-/

namespace PoolKlines

namespace Rollup

/-! ### A round up to its load -/

section

variable {β : Type} [Batch β]

/-- Go through some rounds, and touch the bucket of the next one. -/
def touch (pool : String) (o : Observation) (before : List Resolution) (r : Resolution) :
    Staged StoreError β Bucket := do
  before.forM (applyAt pool o)
  Staged.upsert (.containing pool r o.blockTime) (·.merge o)

/-- The average of a bucket over the parent buckets that were loaded. -/
def averageOver (bucket : Bucket) (parent : Resolution) (children : List Bucket) :
    Staged StoreError β (Option Decimal) := do
  let first := bucket.key.start
  if children.isEmpty then return bucket.average
  let earlier ← Staged.latestBefore? bucket.key.pool parent first
  let slots := slotAverages children first parent.seconds bucket.key.resolution.window
  match (carryForward (earlier.bind Bucket.average) slots).filterMap id with
  | [] => return bucket.average
  | values => return (meanOf? values).or bucket.average

/-- Write a bucket with its average, if it has another value than before. -/
def putAverage (bucket : Bucket) (average : Option Decimal) : Staged StoreError β Unit := do
  if ¬Decimal.SameOption average bucket.average then
    Staged.putBucket { bucket with average }

/-- End a round with the average of its bucket, and go through the rounds after it. -/
def endRound (pool : String) (o : Observation) (after : List Resolution) (bucket : Bucket)
    (average : Option Decimal) : Staged StoreError β Unit := do
  putAverage bucket average
  after.forM (applyAt pool o)
  applyTotals pool o

theorem backfilledAverage_eq (bucket : Bucket) (parent : Resolution) :
    backfilledAverage (β := β) bucket parent =
      Staged.bucketsBetween bucket.key.pool parent bucket.key.start bucket.finish >>=
        averageOver bucket parent :=
  rfl

/-- Rolling up an observation, seen from one of its rounds. -/
theorem applyObservation_eq {before after : List Resolution} {r : Resolution}
    (hall : Resolution.all = before ++ r :: after) (pool : String) (o : Observation) :
    applyObservation (β := β) pool o = touch pool o before r >>= fun bucket =>
      average bucket >>= endRound pool o after bucket := by
  unfold applyObservation touch
  rw [hall]
  simp only [List.forM_eq_forM, List.forM_append, List.forM_cons, bind_assoc, applyAt]
  rfl

/-- A load of parent buckets while an observation is rolled up: at a resolution with a parent, after
the rounds before it, and before those after it. -/
structure Load (b : β) (pool : String) (o : Observation) (before : List Resolution)
    (r : Resolution) (after : List Resolution) (parent : Resolution) (bucket : Bucket) (touched : β)
    (children : List Bucket) : Prop where
  touch_eq : touch pool o before r b = .ok bucket touched
  key_eq : bucket.key = .containing pool r o.blockTime
  load_eq : Staged.bucketsBetween pool parent bucket.key.start bucket.finish touched =
    .ok children touched
  /-- What is done from there on is done with the loaded buckets. -/
  goes_on : applyObservation pool o b =
    (averageOver bucket parent children >>= endRound pool o after bucket) touched
  on_slots : OnSlots children bucket.key.start parent.seconds r.window
  /-- The bucket that the observation touched at the parent resolution is among them. -/
  own_mem : ∃ own ∈ children, own.key = .containing pool parent o.blockTime

/-- At every resolution with a parent, the parent buckets that are loaded while an observation is
rolled up lie on the slots. -/
def LoadsOnSlots (b : β) (pool : String) (o : Observation) : Prop :=
  ∀ (before : List Resolution) (r : Resolution) (after : List Resolution) (parent : Resolution),
    Resolution.all = before ++ r :: after → r.parent? = some parent →
    ∃ bucket touched children, Load b pool o before r after parent bucket touched children

theorem applyObservation_of_load {b touched : β} {pool : String} {o : Observation}
    {before after : List Resolution} {r parent : Resolution} {bucket : Bucket}
    {children : List Bucket} (hall : Resolution.all = before ++ r :: after)
    (hp : r.parent? = some parent) (htouch : touch pool o before r b = .ok bucket touched)
    (hkey : bucket.key = .containing pool r o.blockTime)
    (hload : Staged.bucketsBetween pool parent bucket.key.start bucket.finish touched =
      .ok children touched) :
    applyObservation pool o b =
      (averageOver bucket parent children >>= endRound pool o after bucket) touched := by
  have hpool : bucket.key.pool = pool := by rw [hkey]; rfl
  have hresolution : bucket.key.resolution.parent? = some parent := by rw [hkey]; exact hp
  have haverage : average (β := β) bucket = backfilledAverage bucket parent := by
    simp only [average, hresolution]
  rw [applyObservation_eq hall, bind_of_ok htouch, haverage, backfilledAverage_eq, bind_assoc,
    hpool, bind_of_ok hload]

/-- To load buckets changes nothing. -/
theorem state_of_bucketsBetween {b b' : β} {pool : String} {r : Resolution} {first last : Int}
    {children : List Bucket}
    (h : Staged.bucketsBetween pool r first last b = .ok children b') : b = b' := by
  simp only [Staged.bucketsBetween, Staged.read] at h
  split at h <;> cases h
  rfl

end

/-! ### Both stores -/

variable {pool : String}

theorem touch_memory (s : MemoryState) (refused : Bool) (pool : String) (o : Observation)
    (before : List Resolution) (r : Resolution) :
    touch pool o before r (⟨s, refused⟩ : MemoryBatch) =
      let rolled := before.foldl (MemoryState.rollAt pool o) s
      .ok (rolled.merged pool o r) ⟨rolled.putBucket (rolled.merged pool o r), refused⟩ := by
  have hrounds : before.forM (applyAt pool o) (⟨s, refused⟩ : MemoryBatch) =
      .ok () ⟨before.foldl (MemoryState.rollAt pool o) s, refused⟩ :=
    forM_eq_foldl (g := fun s => (⟨s, refused⟩ : MemoryBatch))
      (fun r _ s => applyAt_memory s refused pool o r) s
  exact bind_of_ok hrounds _

theorem loadsOnSlots_memory {s : MemoryState} (hs : s.Gridded) (refused : Bool) (pool : String)
    (o : Observation) : LoadsOnSlots (⟨s, refused⟩ : MemoryBatch) pool o := by
  intro before r after parent hall hp
  have htouch := touch_memory s refused pool o before r
  have hrolled := hs.foldl_rollAt pool o before
  -- the round of the parent resolution comes before, and left a bucket
  have hbefore : parent ∈ before :=
    (List.mem_append.1 (hall ▸ Resolution.mem_all parent)).resolve_right
      (Resolution.parent_not_mem hall hp)
  obtain ⟨own, hown⟩ := Option.isSome_iff_exists.1
    (MemoryState.isSome_foldl_rollAt hs.keyed pool o hbefore)
  simp only at htouch
  generalize before.foldl (MemoryState.rollAt pool o) s = rolled at htouch hrolled hown
  have hkey := hrolled.keyed.key_merged pool o r
  have hgridded := hrolled.putBucket_merged pool o r
  have hne : (rolled.merged pool o r).key ≠ .containing pool parent o.blockTime := by
    rw [hkey]
    exact fun heq => Resolution.parent_ne hp (congrArg BucketKey.resolution heq).symm
  rw [← rolled.getElem?_putBucket_of_ne hne] at hown
  generalize rolled.merged pool o r = bucket at htouch hkey hgridded hown
  generalize rolled.putBucket bucket = touched at htouch hgridded hown
  have hload : Staged.bucketsBetween pool parent bucket.key.start bucket.finish
      (⟨touched, refused⟩ : MemoryBatch) =
      .ok (touched.children (.containing pool r o.blockTime) parent) ⟨touched, refused⟩ := by
    rw [Bucket.finish, hkey]
    rfl
  refine ⟨bucket, _, _, htouch, hkey, hload,
    applyObservation_of_load hall hp htouch hkey hload, ?_, own,
    MemoryState.mem_children_containing hp hown, hgridded.keyed _ own hown⟩
  rw [hkey]
  exact hgridded.onSlots_children hp (r.seconds_dvd_start o.blockTime)

theorem agree_touch {shards : ShardMap} (hpool : shards.Assigned pool) (o : Observation)
    (before : List Resolution) (r : Resolution) :
    Agree (Paired shards) (fun b c => b.plain = c.plain)
      (touch (β := MemoryBatch) pool o before r) (touch (β := DurableBatch) pool o before r) := by
  have hkey : shards.Assigned (BucketKey.containing pool r o.blockTime).pool := hpool
  refine (Agree.forM fun q _ => agree_applyAt hpool o q).bind fun _ _ _ => ?_
  refine (agree_upsert hkey (fun b hb => ?_)
    fun b c _ h => Bucket.merge_congr h o).mono (fun _ _ => Iff.rfl) fun b c hbc => hbc.1
  rw [Bucket.key_merge, hb]
  exact hpool

/-- What is loaded from tables is what is loaded in memory, up to the sign of zeros. -/
theorem loadsOnSlots_durable {shards : ShardMap} {s : MemoryState} {d : DurableBatch}
    (h : Paired shards ⟨s, false⟩ d) (hs : s.Gridded) (hpool : shards.Assigned pool)
    (o : Observation) : LoadsOnSlots d pool o := by
  intro before r after parent hall hp
  obtain ⟨bucket, touched, children, load⟩ := loadsOnSlots_memory hs false pool o before r after
    parent hall hp
  obtain ⟨_, _, bucket', touched', htouch, htouch', hplain, hpaired⟩ :=
    agree_touch hpool o before r _ d h
  cases load.touch_eq.symm.trans htouch
  obtain ⟨_, _, _, _, hload, hload', rfl, -⟩ := agree_bucketsBetween hpool parent
    bucket.key.start bucket.finish touched touched' hpaired
  cases load.load_eq.symm.trans hload
  obtain rfl := state_of_bucketsBetween hload'
  have hsame : bucket'.key = bucket.key := (Bucket.key_eq_of_plain_eq hplain).symm
  have hkey : bucket'.key = .containing pool r o.blockTime := hsame.trans load.key_eq
  have hspan : Staged.bucketsBetween pool parent bucket'.key.start bucket'.finish touched' =
      .ok (children.map Bucket.plain) touched' := by
    rw [Bucket.finish, hsame]
    exact hload'
  obtain ⟨own, hown, hownkey⟩ := load.own_mem
  refine ⟨bucket', touched', _, htouch', hkey, hspan,
    applyObservation_of_load hall hp htouch' hkey hspan, ?_,
    own.plain, List.mem_map_of_mem hown, hownkey⟩
  rw [hsame]
  exact load.on_slots.map_plain parent.seconds_pos (Resolution.window_pos r)

/-- A pool without a shard is refused before anything is loaded. -/
theorem applyObservation_of_not_assigned {d : DurableBatch} (h : ¬ d.shards.Assigned pool)
    (o : Observation) :
    ∃ e, Staged.bucket? (.containing pool .min1 o.blockTime) d = .error e d ∧
      applyObservation pool o d = .error e d := by
  have hshard : d.shard pool = .error (.unassignedPool pool) := by
    rw [DurableBatch.shard]
    split
    next shard hshard => exact absurd ⟨shard, hshard⟩ h
    next => rfl
  have hread : Staged.bucket? (.containing pool .min1 o.blockTime) d =
      .error (.unassignedPool pool) d := by
    have hbucket : Batch.bucket? d (.containing pool .min1 o.blockTime) =
        .error (.unassignedPool pool) := by
      change (d.shard pool >>= fun _ => _) = _
      rw [hshard]
      rfl
    simp only [Staged.bucket?, Staged.read, hbucket]
  have htouch : touch pool o [] .min1 d = .error (.unassignedPool pool) d := bind_of_error hread _
  have hall : Resolution.all = [] ++ .min1 :: Resolution.all.tail := rfl
  refine ⟨_, hread, ?_⟩
  rw [applyObservation_eq hall, bind_of_error htouch]

end Rollup

/-! ### What rolling up leads to -/

/-- A store with an open batch, after records were rolled up in batches that were committed or
dropped. -/
inductive Store.RolledUp {σ β : Type} [Store σ β] (start : σ) : σ → β → Prop
  | begin {b : β} (hbegin : Store.begin start = .ok b) : RolledUp start start b
  | apply {s : σ} {b : β} (h : RolledUp start s b) (prices : PriceSource) (pool : PoolConfig)
    (record : Record) : RolledUp start s (lastState (Rollup.apply prices pool record b))
  | commit {s s' : σ} {b b' : β} (h : RolledUp start s b) (hcommit : Store.commit s b = .ok s')
    (hbegin : Store.begin s' = .ok b') : RolledUp start s' b'
  | drop {s : σ} {b b' : β} (h : RolledUp start s b) (hbegin : Store.begin s = .ok b') :
    RolledUp start s b'

/-- A store in memory without contents, or a durable store to which nothing was written. -/
inductive Store.Bucketless : {σ β : Type} → [Store σ β] → σ → Prop
  | memory (transactions : List StoredTransaction) (refuses : Bool) :
    Bucketless (⟨.empty, transactions, refuses⟩ : MemoryStore)
  | durable {store : DurableStore} (blank : store.Blank) : Bucketless store

/-- Rolling up keeps the buckets in memory at multiples of their lengths. -/
theorem MemoryState.Gridded.apply {b : MemoryBatch} (h : b.staged.Gridded) (prices : PriceSource)
    (pool : PoolConfig) (record : Record) :
    (lastState (Rollup.apply prices pool record b)).staged.Gridded := by
  by_cases hrecord : record.pool = pool.address
  · rw [show b = ⟨b.staged, b.refused⟩ from rfl, Rollup.apply_memory _ _ _ hrecord]
    exact h.rollUp _ _
  · rw [Rollup.apply, if_pos hrecord]
    exact h

/-- The tables of a batch mirror a state in memory in which every bucket starts at a multiple of its
length. -/
structure DurableBatch.Gridded (shards : ShardMap) (b : DurableBatch) : Prop where
  shards_eq : b.shards = shards
  mirrors : ∃ m : MemoryState, m.Gridded ∧ Mirrors shards m b.staged

theorem DurableStore.Blank.gridded {s : DurableStore} (h : s.Blank) :
    s.view.Gridded s.shards where
  shards_eq := rfl
  mirrors := ⟨_, MemoryState.gridded_empty, mirrors_empty s.shards h.buckets h.totals h.cursors⟩

/-- Rolling up keeps the buckets in tables at multiples of their lengths, also if the pool has no
shard. -/
theorem DurableBatch.Gridded.apply {shards : ShardMap} {b : DurableBatch} (h : b.Gridded shards)
    (prices : PriceSource) (pool : PoolConfig) (record : Record) :
    (lastState (Rollup.apply prices pool record b)).Gridded shards := by
  by_cases hrecord : record.pool = pool.address
  · by_cases hpool : shards.Assigned pool.address
    · obtain ⟨m, hm, hmirrors⟩ := h.mirrors
      obtain ⟨_, _, _, _, happly, hb, -, hpaired⟩ :=
        Rollup.agree_apply prices hpool hrecord ⟨m, false⟩ b ⟨rfl, h.shards_eq, hmirrors⟩
      rw [Rollup.apply_memory _ _ _ hrecord] at happly
      cases happly
      rw [hb]
      exact ⟨hpaired.shards_eq, _, hm.rollUp _ _, hpaired.mirrors⟩
    · obtain ⟨e, -, hrefused⟩ := Rollup.applyObservation_of_not_assigned (h.shards_eq ▸ hpool)
        (.ofRecord record pool prices)
      rw [Rollup.apply, if_neg (not_not.2 hrecord), adaptExcept_of_error hrefused]
      exact h
  · rw [Rollup.apply, if_pos hrecord]
    exact h

namespace Store.RolledUp

theorem gridded_memory {start s : MemoryStore} {b : MemoryBatch} (h : RolledUp start s b)
    (hstart : start.state.Gridded) : s.state.Gridded ∧ b.staged.Gridded := by
  induction h with
  | begin hbegin =>
    cases hbegin
    exact ⟨hstart, hstart⟩
  | apply h prices pool record ih => exact ⟨ih.1, ih.2.apply prices pool record⟩
  | commit h hcommit hbegin ih =>
    cases hbegin
    rw [MemoryStore.state_of_commit hcommit]
    exact ⟨ih.2, ih.2⟩
  | drop h hbegin ih =>
    cases hbegin
    exact ⟨ih.1, ih.1⟩

theorem gridded_durable {shards : ShardMap} {start s : DurableStore} {b : DurableBatch}
    (h : RolledUp start s b) (hstart : start.view.Gridded shards) :
    s.view.Gridded shards ∧ b.Gridded shards := by
  induction h with
  | begin hbegin =>
    obtain rfl := DurableStore.view_of_begin hbegin
    exact ⟨hstart, hstart⟩
  | apply h prices pool record ih => exact ⟨ih.1, ih.2.apply prices pool record⟩
  | commit h hcommit hbegin ih =>
    obtain rfl := DurableStore.view_of_begin hbegin
    cases hcommit
    exact ⟨⟨ih.1.shards_eq, ih.2.mirrors⟩, ih.1.shards_eq, ih.2.mirrors⟩
  | drop h hbegin ih =>
    obtain rfl := DurableStore.view_of_begin hbegin
    exact ⟨ih.1, ih.1⟩

end Store.RolledUp

/-- **Buckets tile time and nest, so that no loaded bucket is left out of an average.** The bucket
of a timestamp starts at a multiple of its length and is the only one with the timestamp in its
span, and the parent bucket of the timestamp lies in it. In every batch that rolling up records of
any pools in any order leads to, in batches that were committed or dropped, an observation either is
refused at its first read, or at each resolution with a parent all buckets that it loads are read at
exactly one slot, without the cap, and the parent bucket that it touched is among them. -/
theorem loads_lie_on_slots :
    (∀ (r : Resolution) (t : Int), r.Tiles t) ∧
    ∀ {σ β : Type} [Store σ β] {start s : σ} {b : β}, Store.Bucketless start →
      Store.RolledUp start s b → ∀ (pool : String) (o : Observation),
        (∃ e, Staged.bucket? (.containing pool .min1 o.blockTime) b = .error e b ∧
          Rollup.applyObservation pool o b = .error e b) ∨
        Rollup.LoadsOnSlots b pool o := by
  refine ⟨Resolution.tiles, fun {σ β} _ {start s b} hstart h pool o => ?_⟩
  cases hstart with
  | memory transactions refuses =>
    have hgridded := (h.gridded_memory MemoryState.gridded_empty).2
    exact .inr (Rollup.loadsOnSlots_memory hgridded b.refused pool o)
  | @durable start blank =>
    obtain ⟨hshards, m, hm, hmirrors⟩ := (h.gridded_durable blank.gridded).2
    by_cases hpool : start.shards.Assigned pool
    · exact .inr (Rollup.loadsOnSlots_durable (s := m) ⟨rfl, hshards, hmirrors⟩ hm hpool o)
    · exact .inl (Rollup.applyObservation_of_not_assigned (hshards ▸ hpool) o)

/-- A swap before the epoch was rolled up, and one half a minute later comes to the same buckets at
all resolutions but the finest. -/
theorem loads_lie_on_slots_before_epoch :
    let b : MemoryBatch := lastState (Rollup.apply (fun _ => none) plainPool
      (plainSwap 1 (-70) (some (.ofCount 2))) (⟨.empty, false⟩ : MemoryBatch))
    Resolution.min5.Tiles (-40) ∧
      Rollup.LoadsOnSlots b "pool"
        (.ofRecord (plainSwap 2 (-40) none) plainPool fun _ => none) := by
  intro b
  have hb : Store.RolledUp MemoryStore.empty MemoryStore.empty b :=
    .apply (.begin rfl) (fun _ => none) plainPool (plainSwap 1 (-70) (some (.ofCount 2)))
  refine ⟨loads_lie_on_slots.1 .min5 (-40), ?_⟩
  refine (loads_lie_on_slots.2 (.memory [] false) hb "pool" _).resolve_left ?_
  rintro ⟨e, hread, -⟩
  cases hread

end PoolKlines
