import Mathlib.Data.List.Forall2
import PoolKlines.Proofs.Kline.Projection
import PoolKlines.Proofs.Store.Agreement

/-!
# The durable store refines the store in memory

* `StoreOp` is one thing that a client does to a batch, and `StoreAnswer` what it is answered;
* `StoreOp.Admitted` says that the pool of every bucket involved has a shard, and that numbers of
  transactions are below half of the range of 64 bits;
* `StoreOp.WritesPlain` says that no minus zero is written, and `StoreOp.SignBlind` that the client
  does not look at the sign of zeros;
* `BatchScript` is a batch from its begin to its commit or its end without one, and `playScripts`
  plays several batches one after the other, on any store;
* `SameContents` compares cursors, buckets and totals of the two stores, and `PlayAlike` the answers
  and the contents after each batch;
* `durable_store_refines_memory`: the same batches, played on both from empty, get the same answers
  and leave the same contents each time.

The sign of a zero does not survive being written as text. Where there may be a minus zero, decimals
are compared by value and scale (`Decimal.unsignedZero_eq_iff`).
-/

namespace PoolKlines

/-! ### Clients -/

/-- What a client does to a batch. -/
inductive StoreOp
  | bucket? (key : BucketKey)
  | bucketsBetween (pool : String) (resolution : Resolution) (first last : Int)
  | latestBefore? (pool : String) (resolution : Resolution) (time : Int)
  | putBucket (bucket : Bucket)
  | totals? (pool : String)
  | putTotals (totals : PoolTotals)
  | advanceCursor (pool : String) (version : ProtocolVersion) (id : UInt64)
  | upsert (key : BucketKey) (change : Bucket → Bucket)
  | rollUp (prices : PriceSource) (pool : PoolConfig) (record : Record)

/-- What a client is answered. -/
inductive StoreAnswer
  | bucket (bucket : Option Bucket)
  | buckets (buckets : List Bucket)
  | totals (totals : Option PoolTotals)
  | done
  /-- Whether a record was rolled up, and why not. -/
  | rolledUp (error : Option RollupError)

/-- The answer with its buckets and totals replaced. -/
def StoreAnswer.map (f : Bucket → Bucket) (g : PoolTotals → PoolTotals) :
    StoreAnswer → StoreAnswer
  | bucket b => bucket (b.map f)
  | buckets l => buckets (l.map f)
  | totals t => totals (t.map g)
  | done => done
  | rolledUp e => rolledUp e

/-- Roll up a record, and answer the error if it is refused. -/
def Rollup.attempt {β : Type} [Batch β] (prices : PriceSource) (pool : PoolConfig)
    (record : Record) : Staged StoreError β (Option RollupError) := fun s =>
  match Rollup.apply prices pool record s with
  | .ok () s => .ok none s
  | .error e s => .ok (some e) s

namespace StoreOp

/-- Carry out an operation on a batch of either store. -/
def run {β : Type} [Batch β] : StoreOp → Staged StoreError β StoreAnswer
  | bucket? key => return .bucket (← Staged.bucket? key)
  | bucketsBetween pool r first last => return .buckets (← Staged.bucketsBetween pool r first last)
  | latestBefore? pool r time => return .bucket (← Staged.latestBefore? pool r time)
  | putBucket b => do
    Staged.putBucket b
    return .done
  | totals? pool => return .totals (← Staged.totals? pool)
  | putTotals t => do
    Staged.putTotals t
    return .done
  | advanceCursor pool version id => do
    Staged.advanceCursor pool version id
    return .done
  | upsert key change => return .bucket (some (← Staged.upsert key change))
  | rollUp prices pool record => return .rolledUp (← Rollup.attempt prices pool record)

/-- Carry out operations in turn. -/
def runAll {β : Type} [Batch β] : List StoreOp → Staged StoreError β (List StoreAnswer)
  | [] => return []
  | op :: ops => do
    let answer ← op.run
    let answers ← runAll ops
    return answer :: answers

/-- Every pool whose buckets are involved has a shard, and numbers of transactions are positive as
signed numbers. -/
def Admitted (shards : ShardMap) : StoreOp → Prop
  | bucket? key => shards.Assigned key.pool
  | bucketsBetween pool _ _ _ => shards.Assigned pool
  | latestBefore? pool _ _ => shards.Assigned pool
  | putBucket b => shards.Assigned b.key.pool
  | totals? _ => True
  | putTotals _ => True
  | advanceCursor _ _ id => id.toNat < 2 ^ 63
  | upsert key change => shards.Assigned key.pool ∧
    ∀ b, b.key = key → shards.Assigned (change b).key.pool
  | rollUp _ pool _ => shards.Assigned pool.address

/-- A change does not tell zeros apart by their sign. Nothing else depends on what was loaded. -/
def SignBlind : StoreOp → Prop
  | upsert key change =>
    ∀ b c, b.key = key → b.plain = c.plain → (change b).plain = (change c).plain
  | _ => True

/-- Nothing is written that has a minus zero. Rolling up a record computes what it writes, and is
not counted here. -/
def WritesPlain : StoreOp → Prop
  | putBucket b => b.plain = b
  | putTotals t => t.plain = t
  | upsert key change => ∀ b, b.key = key → b.plain = b → (change b).plain = change b
  | rollUp _ _ _ => False
  | _ => True

end StoreOp

/-- What a client does to a batch, and whether it commits the batch in the end or drops it. -/
structure BatchScript where
  ops : List StoreOp
  commits : Bool

/-- Play a batch on a store. -/
def BatchScript.play {σ β : Type} [Store σ β] (script : BatchScript) (s : σ) :
    Except StoreError (List StoreAnswer × σ) := do
  match StoreOp.runAll script.ops (← Store.begin s) with
  | .error e _ => throw e
  | .ok answers b =>
    if script.commits then
      return (answers, ← Store.commit s b)
    else return (answers, s)

/-- Play batches one after the other. For each of them the answers and the store after it are
listed. -/
def playScripts {σ β : Type} [Store σ β] (s : σ) :
    List BatchScript → Except StoreError (List (List StoreAnswer × σ))
  | [] => return []
  | script :: scripts => do
    let played ← script.play s
    return played :: (← playScripts played.2 scripts)

/-! ### One operation -/

variable {shards : ShardMap}

theorem Rollup.agree_attempt (prices : PriceSource) {pool : PoolConfig}
    (hpool : shards.Assigned pool.address) (record : Record) :
    Agree (Paired shards) Eq (Rollup.attempt (β := MemoryBatch) prices pool record)
      (Rollup.attempt (β := DurableBatch) prices pool record) := by
  intro m d h
  by_cases hrecord : record.pool = pool.address
  · obtain ⟨_, m', _, d', hm, hd, -, h'⟩ := agree_apply prices hpool hrecord m d h
    exact ⟨none, m', none, d', by simp only [attempt, hm], by simp only [attempt, hd], rfl, h'⟩
  · -- a record of another pool is refused before the first read
    have hrefused {β : Type} [Batch β] (s : β) : Rollup.attempt prices pool record s =
        .ok (some (.poolMismatch record.pool pool.address)) s := by
      rw [attempt, Rollup.apply, if_pos hrecord]
      rfl
    exact ⟨_, m, _, d, hrefused m, hrefused d, rfl, h⟩

/-- An operation that does not look at the sign of zeros is answered alike by both batches, and
leaves them with the same contents. -/
theorem StoreOp.agree_run {op : StoreOp} (h : op.Admitted shards) (hblind : op.SignBlind) :
    Agree (Paired shards)
      (fun a b => a.map Bucket.plain PoolTotals.plain = b.map Bucket.plain PoolTotals.plain)
      (op.run (β := MemoryBatch)) (op.run (β := DurableBatch)) := by
  cases op with
  | bucket? key =>
    exact (agree_bucket? h).bind fun _ _ hab =>
      Agree.pure (congrArg StoreAnswer.bucket (map_plain_of_eq hab.1))
  | bucketsBetween pool r first last =>
    exact (agree_bucketsBetween h r first last).bind fun _ _ hab =>
      Agree.pure (congrArg StoreAnswer.buckets (map_plain_of_eq_map hab))
  | latestBefore? pool r time =>
    exact (agree_latestBefore? h r time).bind fun _ _ hab =>
      Agree.pure (congrArg StoreAnswer.bucket (map_plain_of_eq hab))
  | putBucket b => exact (agree_putBucket rfl h).bind fun _ _ _ => Agree.pure rfl
  | totals? pool =>
    exact (agree_totals? pool).bind fun _ _ hab =>
      Agree.pure (congrArg StoreAnswer.totals (map_plain_of_eq_totals hab))
  | putTotals t => exact (agree_putTotals rfl).bind fun _ _ _ => Agree.pure rfl
  | advanceCursor pool version id =>
    exact (agree_advanceCursor pool version h).bind fun _ _ _ => Agree.pure rfl
  | upsert key change =>
    obtain ⟨hkey, hassigned⟩ := h
    refine (agree_upsert hkey hassigned hblind).bind fun b c hbc => Agree.pure ?_
    exact congrArg (fun b => StoreAnswer.bucket (some b)) hbc.1
  | rollUp prices pool record =>
    exact (Rollup.agree_attempt prices h record).bind fun _ _ hab => Agree.pure (by rw [hab])

/-- An operation that writes no minus zero is answered in the same way by both batches, if there is
none before, and then there is none afterwards. -/
theorem StoreOp.agree_run_of_writesPlain {op : StoreOp} (h : op.Admitted shards)
    (hwrites : op.WritesPlain) :
    Agree (PairedWith shards MemoryState.Plain) Eq (op.run (β := MemoryBatch))
      (op.run (β := DurableBatch)) := by
  cases op with
  | bucket? key =>
    refine ((agree_bucket? h).keeping (Q := fun a => a.map Bucket.plain = a) fun m hm =>
      ⟨_, _, rfl, hm.map_getElem? key, hm⟩).bind fun a b hab => Agree.pure ?_
    rw [hab.1.1, hab.2]
  | bucketsBetween pool r first last =>
    refine ((agree_bucketsBetween h r first last).keeping (Q := fun a => a.map Bucket.plain = a)
      fun m hm => ⟨_, _, rfl, hm.map_bucketsWhere .., hm⟩).bind fun a b hab => Agree.pure ?_
    rw [hab.1, hab.2]
  | latestBefore? pool r time =>
    refine ((agree_latestBefore? h r time).keeping (Q := fun a => a.map Bucket.plain = a)
      fun m hm => ⟨_, _, rfl, hm.map_find? .., hm⟩).bind fun a b hab => Agree.pure ?_
    rw [hab.1, hab.2]
  | putBucket b =>
    exact ((agree_putBucket rfl h).keeping (Q := fun _ => True) fun m hm =>
      ⟨_, _, rfl, trivial, hm.putBucket hwrites⟩).bind fun _ _ _ => Agree.pure rfl
  | totals? pool =>
    refine ((agree_totals? pool).keeping (Q := fun a => a.map PoolTotals.plain = a) fun m hm =>
      ⟨_, _, rfl, hm.map_totals pool, hm⟩).bind fun a b hab => Agree.pure ?_
    rw [hab.1, hab.2]
  | putTotals t =>
    exact ((agree_putTotals rfl).keeping (Q := fun _ => True) fun m hm =>
      ⟨_, _, rfl, trivial, hm.putTotals hwrites⟩).bind fun _ _ _ => Agree.pure rfl
  | advanceCursor pool version id =>
    exact ((agree_advanceCursor pool version h).keeping (Q := fun _ => True) fun m hm =>
      ⟨_, _, rfl, trivial, hm.buckets, hm.totals⟩).bind fun _ _ _ => Agree.pure rfl
  | upsert key change =>
    exact (agree_upsert_of_plain h.1 h.2 hwrites).bind fun b c hbc => Agree.pure (by rw [hbc])
  | rollUp prices pool record => exact hwrites.elim

/-- Operations that are answered alike one by one are answered alike in turn. -/
theorem StoreOp.agree_runAll {I : MemoryBatch → DurableBatch → Prop}
    {f : StoreAnswer → StoreAnswer} {ops : List StoreOp}
    (h : ∀ op ∈ ops, Agree I (fun a b => f a = f b) (op.run (β := MemoryBatch))
      (op.run (β := DurableBatch))) :
    Agree I (fun a b => a.map f = b.map f) (StoreOp.runAll (β := MemoryBatch) ops)
      (StoreOp.runAll (β := DurableBatch) ops) := by
  induction ops with
  | nil => exact Agree.pure rfl
  | cons op ops ih =>
    obtain ⟨hop, hops⟩ := List.forall_mem_cons.1 h
    refine hop.bind fun a b hab => (ih hops).bind fun as bs hrest => Agree.pure ?_
    rw [List.map_cons, List.map_cons, hab, hrest]

/-! ### One batch -/

/-- A batch whose operations all succeed is committed or dropped in the end. -/
theorem BatchScript.play_of_ok {σ β : Type} [Store σ β] {script : BatchScript} {s : σ} {b b' : β}
    {answers : List StoreAnswer} (hbegin : Store.begin s = .ok b)
    (hrun : StoreOp.runAll script.ops b = .ok answers b') :
    script.play s =
      if script.commits then (Store.commit s b').map fun s' => (answers, s')
      else .ok (answers, s) := by
  rw [play, hbegin]
  change (match StoreOp.runAll script.ops b with
    | .error e _ => throw e
    | .ok answers b => if script.commits = true then do return (answers, ← Store.commit s b)
      else return (answers, s)) = _
  rw [hrun]
  rfl

/-- Two stores that accept every commit, with the same contents, where the state in memory has a
further property. -/
structure Replicated (shards : ShardMap) (P : MemoryState → Prop) (m : MemoryStore)
    (d : DurableStore) : Prop where
  accepts : m.refusesCommits = false
  unlocked : d.locked = false
  shards_eq : d.shards = shards
  mirrors : Mirrors shards m.state d.database
  kept : P m.state

variable {P : MemoryState → Prop} {f : Bucket → Bucket} {g : PoolTotals → PoolTotals}
  {m : MemoryStore} {d : DurableStore}

theorem Replicated.paired (h : Replicated shards P m d) :
    PairedWith shards P ⟨m.state, m.refusesCommits⟩ d.view where
  accepted := h.accepts
  shards_eq := h.shards_eq
  mirrors := h.mirrors
  kept := h.kept

/-- Both stores play a batch to its end, with the same answers and with the same contents after
it. -/
theorem Replicated.play (h : Replicated shards P m d) {script : BatchScript}
    (hops : ∀ op ∈ script.ops, Agree (PairedWith shards P) (fun a b => a.map f g = b.map f g)
      (op.run (β := MemoryBatch)) (op.run (β := DurableBatch))) :
    ∃ answers m' answers' d', script.play m = .ok (answers, m') ∧
      script.play d = .ok (answers', d') ∧
      answers.map (·.map f g) = answers'.map (·.map f g) ∧ Replicated shards P m' d' := by
  have hopened : Store.begin d = .ok d.view := by
    simp only [Store.begin, h.unlocked]
    rfl
  obtain ⟨answers, b, answers', b', hm, hd, hanswers, hpaired⟩ :=
    StoreOp.agree_runAll hops _ _ h.paired
  have hcommit : Store.commit m b = .ok { m with state := b.staged } := by
    simp only [Store.commit, hpaired.accepted]
    rfl
  rw [BatchScript.play_of_ok rfl hm, BatchScript.play_of_ok hopened hd, hcommit]
  cases script.commits with
  | true =>
    exact ⟨answers, { m with state := b.staged }, answers', { d with database := b'.staged }, rfl,
      rfl, hanswers, h.accepts, h.unlocked, h.shards_eq, hpaired.mirrors, hpaired.kept⟩
  | false => exact ⟨answers, m, answers', d, rfl, rfl, hanswers, h⟩

/-! ### Several batches -/

/-- The stores have the same cursors, and up to `f` and `g` the same buckets of pools with a shard
and the same totals. -/
structure SameContents (shards : ShardMap) (f : Bucket → Bucket) (g : PoolTotals → PoolTotals)
    (m : MemoryStore) (d : DurableStore) : Prop where
  cursor : ∀ pool version, Store.cursor d pool version = Store.cursor m pool version
  bucket : ∀ key, shards.Assigned key.pool →
    ∃ found, Batch.bucket? d.view key = .ok found ∧ m.state.buckets[key]?.map f = found.map f
  totals : ∀ pool,
    ∃ found, Batch.totals? d.view pool = .ok found ∧ m.state.totals[pool]?.map g = found.map g

theorem Replicated.cursor_eq (h : Replicated shards P m d) (pool : String)
    (version : ProtocolVersion) : Store.cursor d pool version = Store.cursor m pool version := by
  have hrow := h.mirrors.cursors pool version
  simp only [Store.cursor, hrow, MemoryState.cursor]
  cases m.state.cursors[CursorKey.mk pool version]? with
  | none => rfl
  | some id =>
    simp only [Option.map_some, CursorRow.cursor, NumberCell.count_ofUInt64]
    rfl

theorem Replicated.bucket_eq (h : Replicated shards P m d) {key : BucketKey}
    (hkey : shards.Assigned key.pool) :
    Batch.bucket? d.view key = .ok (m.state.buckets[key]?.map Bucket.plain) := by
  obtain ⟨shard, hshard⟩ := hkey
  exact (h.paired.bind_shard hshard _).trans (h.mirrors.bucket? hshard)

theorem Replicated.sameContents_plain (h : Replicated shards P m d) :
    SameContents shards Bucket.plain PoolTotals.plain m d where
  cursor := h.cursor_eq
  bucket _ hkey := ⟨_, h.bucket_eq hkey, map_plain_of_eq rfl⟩
  totals pool := ⟨_, h.mirrors.totals pool, map_plain_of_eq_totals rfl⟩

theorem Replicated.sameContents (h : Replicated shards MemoryState.Plain m d) :
    SameContents shards id id m d where
  cursor := h.cursor_eq
  bucket key hkey := ⟨_, h.bucket_eq hkey, by rw [h.kept.map_getElem? key]⟩
  totals pool := ⟨_, h.mirrors.totals pool, by rw [h.kept.map_totals pool]⟩

/-- Played from two stores, the same batches never fail, get the same answers up to `f` and `g`, and
leave the same contents up to these after each of them. With `id` nothing differs at all. -/
def PlayAlike (f : Bucket → Bucket) (g : PoolTotals → PoolTotals) (m : MemoryStore)
    (d : DurableStore) (scripts : List BatchScript) : Prop :=
  ∃ inMemory onDisk, playScripts m scripts = .ok inMemory ∧ playScripts d scripts = .ok onDisk ∧
    List.Forall₂ (fun x y => x.1.map (·.map f g) = y.1.map (·.map f g) ∧
      SameContents d.shards f g x.2 y.2) inMemory onDisk

theorem Replicated.playAlike {scripts : List BatchScript}
    (hops : ∀ script ∈ scripts, ∀ op ∈ script.ops,
      Agree (PairedWith shards P) (fun a b => a.map f g = b.map f g)
        (op.run (β := MemoryBatch)) (op.run (β := DurableBatch)))
    (hcontents : ∀ m d, Replicated shards P m d → SameContents shards f g m d)
    (h : Replicated shards P m d) : PlayAlike f g m d scripts := by
  induction scripts generalizing m d with
  | nil => exact ⟨[], [], rfl, rfl, .nil⟩
  | cons script scripts ih =>
    obtain ⟨hscript, hscripts⟩ := List.forall_mem_cons.1 hops
    obtain ⟨answers, m', answers', d', hm, hd, hanswers, h'⟩ := h.play hscript
    obtain ⟨inMemory, onDisk, hms, hds, hrest⟩ := ih hscripts h'
    rw [h'.shards_eq, ← h.shards_eq] at hrest
    refine ⟨(answers, m') :: inMemory, (answers', d') :: onDisk, ?_, ?_,
      .cons ⟨hanswers, h.shards_eq ▸ hcontents m' d' h'⟩ hrest⟩
    · rw [playScripts, hm]
      simp only [bind, Except.bind, hms]
      rfl
    · rw [playScripts, hd]
      simp only [bind, Except.bind, hds]
      rfl

/-! ### Empty stores -/

/-- Nothing was written to the store, and nobody else holds its lock. -/
structure DurableStore.Blank (s : DurableStore) : Prop where
  buckets : s.database.buckets = []
  totals : s.database.totals = []
  cursors : s.database.cursors = []
  unlocked : s.locked = false

theorem DurableStore.blank_empty (shardCount : UInt16) : (empty shardCount).Blank :=
  ⟨rfl, rfl, rfl, rfl⟩

/-- Giving pools a shard writes no bucket, no totals and no cursor. -/
theorem DurableStore.Blank.assignPools {s : DurableStore} (h : s.Blank) (pools : List String) :
    (s.assignPools pools).2.Blank := by
  unfold DurableStore.assignPools
  dsimp only
  split
  · exact ⟨h.buckets, h.totals, h.cursors, h.unlocked⟩
  split
  · exact ⟨h.buckets, h.totals, h.cursors, h.unlocked⟩
  · exact ⟨h.buckets, h.totals, h.cursors, h.unlocked⟩

theorem ShardMap.Assigned.assign {shards : ShardMap} {pool : String} (h : shards.Assigned pool)
    (other : String) (shard : UInt16) : (shards.assign other shard).Assigned pool := by
  obtain ⟨old, hold⟩ := h
  rw [ShardMap.find?] at hold
  rw [Assigned, ShardMap.assign, ShardMap.find?]
  by_cases hpool : other = pool
  · exact ⟨shard, by simp [hpool]⟩
  · exact ⟨old, by simpa [Std.ExtTreeMap.getElem?_insert, hpool] using hold⟩

theorem ShardMap.Assigned.assignMissing {shards : ShardMap} {pool : String}
    (h : shards.Assigned pool) (pools : List String) :
    (shards.assignMissing pools).1.Assigned pool := by
  induction pools generalizing shards with
  | nil => exact h
  | cons other pools ih =>
    rw [ShardMap.assignMissing]
    split
    · exact ih h
    · exact ih (h.assign other _)

/-- Every pool of the list has a shard afterwards. -/
theorem ShardMap.assigned_assignMissing (shards : ShardMap) {pools : List String} {pool : String}
    (h : pool ∈ pools) : (shards.assignMissing pools).1.Assigned pool := by
  induction pools generalizing shards with
  | nil => cases h
  | cons other pools ih =>
    rw [ShardMap.assignMissing]
    split
    next shard hshard =>
      rcases List.mem_cons.1 h with rfl | h
      · exact Assigned.assignMissing ⟨shard, hshard⟩ pools
      · exact ih shards h
    next =>
      rcases List.mem_cons.1 h with rfl | h
      · exact Assigned.assignMissing ⟨_, find?_assign_self _ _ _⟩ pools
      · exact ih _ h

theorem DurableStore.assigned_assignPools (s : DurableStore) {pools : List String} {pool : String}
    (h : pool ∈ pools) : (s.assignPools pools).2.shards.Assigned pool := by
  have hassigned := s.shards.assigned_assignMissing h
  unfold assignPools
  dsimp only
  split
  · exact hassigned
  split
  · exact hassigned
  · exact hassigned

/-! ### The refinement -/

theorem DurableStore.Blank.replicated {durable : DurableStore} (h : durable.Blank)
    (hP : P MemoryState.empty) : Replicated durable.shards P MemoryStore.empty durable where
  accepts := rfl
  unlocked := h.unlocked
  shards_eq := rfl
  mirrors := mirrors_empty durable.shards h.buckets h.totals h.cursors
  kept := hP

/-- **The durable store refines the store in memory.** The same batches, played from empty on a
store in memory and on a durable store, never fail if all pools have a shard. They get the same
answers in the same order, and after each of them, committed or dropped, the cursors, buckets and
totals are the same. Nothing at all differs if no minus zero is written; and if clients do not look
at the sign of zeros, decimals have the same value and the same scale, also where records are rolled
up. -/
theorem durable_store_refines_memory {durable : DurableStore} (hblank : durable.Blank)
    {scripts : List BatchScript}
    (hadmitted : ∀ script ∈ scripts, ∀ op ∈ script.ops, op.Admitted durable.shards) :
    ((∀ script ∈ scripts, ∀ op ∈ script.ops, op.WritesPlain) →
      PlayAlike id id MemoryStore.empty durable scripts) ∧
    ((∀ script ∈ scripts, ∀ op ∈ script.ops, op.SignBlind) →
      PlayAlike Bucket.plain PoolTotals.plain MemoryStore.empty durable scripts) := by
  constructor
  · intro hwrites
    refine Replicated.playAlike (fun script hscript op hop => ?_)
      (fun _ _ h => h.sameContents) (hblank.replicated MemoryState.plain_empty)
    exact (StoreOp.agree_run_of_writesPlain (hadmitted script hscript op hop)
      (hwrites script hscript op hop)).mono (fun _ _ => Iff.rfl) fun a b hab => by rw [hab]
  · intro hblind
    have hpaired (m : MemoryBatch) (d : DurableBatch) :
        PairedWith durable.shards (fun _ => True) m d ↔ Paired durable.shards m d :=
      ⟨PairedWith.toPaired, fun h => ⟨h, trivial⟩⟩
    refine Replicated.playAlike (fun script hscript op hop => ?_)
      (fun _ _ h => h.sameContents_plain) (hblank.replicated (P := fun _ => True) trivial)
    exact (StoreOp.agree_run (hadmitted script hscript op hop)
      (hblind script hscript op hop)).mono hpaired fun _ _ hab => hab

/-- A batch that is committed and one that is dropped, on a store with two shards, and the same two
with a batch between them in which records are rolled up. -/
theorem durable_store_refines_memory_two_batches :
    let durable := ((DurableStore.empty 2).assignPools ["pool", "other"]).2
    let written : BatchScript := ⟨[.putBucket (.empty ⟨"other", .hour1, 3600⟩),
      .latestBefore? "pool" .min1 120, .advanceCursor "pool" .v2 1], true⟩
    let dropped : BatchScript := ⟨[.upsert ⟨"pool", .min1, 60⟩ fun b => { b with txCount := 7 },
      .bucketsBetween "pool" .min1 0 300, .totals? "pool"], false⟩
    let rolledUp : BatchScript := ⟨[
      .rollUp (fun _ => none) plainPool (plainSwap 1 70 (some (.ofCount 2))),
      .rollUp (fun _ => none) plainPool (plainSwap 2 400 none)], true⟩
    PlayAlike id id MemoryStore.empty durable [written, dropped] ∧
    PlayAlike Bucket.plain PoolTotals.plain MemoryStore.empty durable
      [written, rolledUp, dropped] := by
  intro durable written dropped rolledUp
  have hblank : durable.Blank := (DurableStore.blank_empty 2).assignPools _
  have hpool : durable.shards.Assigned "pool" := DurableStore.assigned_assignPools _ (by decide)
  have hother : durable.shards.Assigned "other" := DurableStore.assigned_assignPools _ (by decide)
  have hid : (1 : UInt64).toNat < 2 ^ 63 := by decide
  have hkey (b : Bucket) (hb : b.key = ⟨"pool", .min1, 60⟩) :
      durable.shards.Assigned b.key.pool := by
    rw [hb]
    exact hpool
  have hadmitted : ∀ script ∈ [written, rolledUp, dropped], ∀ op ∈ script.ops,
      op.Admitted durable.shards := by
    simp only [written, rolledUp, dropped, List.forall_mem_cons, List.not_mem_nil, false_imp_iff,
      implies_true, and_true]
    exact ⟨⟨hother, hpool, hid⟩, ⟨hpool, hpool⟩, ⟨hpool, hkey⟩, hpool, trivial⟩
  have hcount {b c : Bucket} (h : b.plain = c.plain) : ({ b with txCount := 7 } : Bucket).plain =
      ({ c with txCount := 7 } : Bucket).plain :=
    congrArg (fun b : Bucket => ({ b with txCount := 7 } : Bucket)) h
  constructor
  · have hsublist : [written, dropped].Sublist [written, rolledUp, dropped] :=
      ((List.Sublist.refl [dropped]).cons rolledUp).cons_cons written
    refine (durable_store_refines_memory hblank fun script hscript =>
      hadmitted script (hsublist.subset hscript)).1 ?_
    simp only [written, dropped, List.forall_mem_cons, List.not_mem_nil, false_imp_iff,
      implies_true, and_true]
    refine ⟨⟨rfl, trivial, trivial⟩, fun b _ hb => ?_, trivial, trivial⟩
    exact congrArg (fun b : Bucket => ({ b with txCount := 7 } : Bucket)) hb
  · refine (durable_store_refines_memory hblank hadmitted).2 ?_
    simp only [written, rolledUp, dropped, List.forall_mem_cons, List.not_mem_nil, false_imp_iff,
      implies_true, and_true]
    exact ⟨⟨trivial, trivial, trivial⟩, ⟨trivial, trivial⟩, fun _ _ _ h => hcount h, trivial,
      trivial⟩

end PoolKlines
