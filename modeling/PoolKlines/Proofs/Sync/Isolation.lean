import PoolKlines.Proofs.Kline.Frame
import PoolKlines.Proofs.Operation.Decode
import PoolKlines.Proofs.Store.Refinement
import PoolKlines.Proofs.Sync.Report

/-!
# Pools do not disturb each other

All pools share the maps of the store in memory, and averages are looked up by ranges over them.

* `MemoryState.Reachable` are the states that clients can bring about, batch by batch;
  `MemoryState.InPlace` says that buckets and totals stand where their own keys put them, and
  `MemoryState.Reachable.inPlace` that they do in every such state;
* `MemoryState.SamePart` compares two states on what belongs to one pool;
* `keptByRollUp_samePart_of_ne` and `SamePart.rollUp`: rolling up leaves the part of every other
  pool alone, and what it makes of the part of its own pool depends on this part only;
* `ApplyCall` is a call that applies a transaction for a pool, and `Indexer.Succeeds` says that some
  calls succeed one after the other;
* `pools_isolated`: what such calls leave of a pool is what the calls for this pool alone leave, so
  that calls for different pools may change places.
-/

namespace PoolKlines

/-! ### States that clients bring about -/

/-- To try to roll up a record touches nothing but buckets and totals. -/
theorem Rollup.keeps_attempt {β : Type} [Batch β] {P : β → Prop} (hP : Batch.LeavesAlone P)
    (prices : PriceSource) (pool : PoolConfig) (record : Record) :
    Keeps P (attempt prices pool record) := by
  intro s hs
  have hstep := keeps_apply hP prices pool record s hs
  unfold attempt
  cases happly : apply prices pool record s with
  | ok u t =>
    rw [happly] at hstep
    exact hstep
  | error e t =>
    rw [happly] at hstep
    exact hstep

/-- What writes of buckets, totals and cursors leave alone is left alone by every operation. -/
theorem StoreOp.keeps_run {β : Type} [Batch β] {P : β → Prop} (hP : Batch.LeavesAlone P)
    (hcursor : ∀ b b' pool version id, P b → Batch.advanceCursor b pool version id = .ok b' → P b')
    (op : StoreOp) : Keeps P (op.run (β := β)) := by
  have hput (bucket : Bucket) : Keeps P (Staged.putBucket bucket : Staged StoreError β Unit) :=
    Keeps.write fun b b' => hP.putBucket b b' bucket
  cases op with
  | bucket? key => exact (Keeps.read _).bind fun _ => Keeps.pure _
  | bucketsBetween pool r first last => exact (Keeps.read _).bind fun _ => Keeps.pure _
  | latestBefore? pool r time => exact (Keeps.read _).bind fun _ => Keeps.pure _
  | putBucket b => exact (hput b).bind fun _ => Keeps.pure _
  | totals? pool => exact (Keeps.read _).bind fun _ => Keeps.pure _
  | putTotals t => exact (Keeps.write fun b b' => hP.putTotals b b' t).bind fun _ => Keeps.pure _
  | advanceCursor pool version id =>
    exact (Keeps.write fun b b' => hcursor b b' pool version id).bind fun _ => Keeps.pure _
  | upsert key change =>
    have hupsert : Keeps P (Staged.upsert key change : Staged StoreError β Bucket) :=
      (Keeps.read _).bind fun _ => (hput _).bind fun _ => Keeps.pure _
    exact hupsert.bind fun _ => Keeps.pure _
  | rollUp prices pool record =>
    exact (Rollup.keeps_attempt hP prices pool record).bind fun _ => Keeps.pure _

theorem StoreOp.keeps_runAll {β : Type} [Batch β] {P : β → Prop}
    (h : ∀ op : StoreOp, Keeps P (op.run (β := β))) (ops : List StoreOp) :
    Keeps P (StoreOp.runAll (β := β) ops) := by
  induction ops with
  | nil => exact Keeps.pure _
  | cons op ops ih => exact (h op).bind fun _ => ih.bind fun _ => Keeps.pure _

/-- A batch that was played to its end was begun, all its operations succeeded, and it was committed
if it changed the store. -/
theorem BatchScript.exists_of_play_ok {σ β : Type} [Store σ β] {script : BatchScript} {s s' : σ}
    {answers : List StoreAnswer} (h : script.play s = .ok (answers, s')) :
    ∃ b b', Store.begin s = .ok b ∧ StoreOp.runAll script.ops b = .ok answers b' ∧
      (s' = s ∨ Store.commit s b' = .ok s') := by
  obtain ⟨b, hbegin, h⟩ := bind_eq_ok.1 h
  cases hrun : StoreOp.runAll script.ops b with
  | error e b' =>
    rw [hrun] at h
    cases h
  | ok found b' =>
    rw [hrun] at h
    dsimp only at h
    split at h
    · obtain ⟨t, hcommit, h⟩ := bind_eq_ok.1 h
      cases h
      exact ⟨b, b', hbegin, hrun, .inr hcommit⟩
    · cases h
      exact ⟨b, b', hbegin, hrun, .inl rfl⟩

namespace MemoryState

/-- Buckets and totals stand where their own keys put them. -/
structure InPlace (s : MemoryState) : Prop where
  buckets : s.Keyed
  totals : ∀ (pool : String) (t : PoolTotals), s.totals[pool]? = some t → t.pool = pool

theorem inPlace_empty : empty.InPlace where
  buckets := keyed_empty
  totals pool t h := by simp [empty] at h

theorem InPlace.putBucket {s : MemoryState} (h : s.InPlace) (b : Bucket) :
    (s.putBucket b).InPlace where
  buckets := h.buckets.putBucket b
  totals := h.totals

theorem InPlace.putTotals {s : MemoryState} (h : s.InPlace) (t : PoolTotals) :
    InPlace { s with totals := s.totals.insert t.pool t } where
  buckets := h.buckets
  totals pool u hu := by
    simp only [Std.ExtTreeMap.getElem?_insert, Std.LawfulEqOrd.compare_eq_iff_eq] at hu
    split at hu
    next hpool =>
      cases hu
      exact hpool
    next => exact h.totals pool u hu

theorem InPlace.advanceCursor {s : MemoryState} (h : s.InPlace) (pool : String)
    (version : ProtocolVersion) (id : UInt64) : (s.advanceCursor pool version id).InPlace where
  buckets := h.buckets
  totals := h.totals

/-- The states of a store in memory: it begins empty, and clients play batches on it, which are
committed or dropped. -/
inductive Reachable : MemoryState → Prop
  | empty : Reachable .empty
  | play {m m' : MemoryStore} {script : BatchScript} {answers : List StoreAnswer}
      (before : Reachable m.state) (played : script.play m = .ok (answers, m')) :
      Reachable m'.state

/-- In every state of a store, buckets and totals stand where their own keys put them. -/
theorem Reachable.inPlace {s : MemoryState} (h : s.Reachable) : s.InPlace := by
  induction h with
  | empty => exact inPlace_empty
  | @play m m' script answers before played ih =>
    have hkeeps : Keeps (fun b : MemoryBatch => b.staged.InPlace) (StoreOp.runAll script.ops) := by
      refine StoreOp.keeps_runAll (StoreOp.keeps_run ⟨?_, ?_⟩ ?_) _
      · rintro b b' bucket hb ⟨⟩
        exact hb.putBucket bucket
      · rintro b b' totals hb ⟨⟩
        exact hb.putTotals totals
      · rintro b b' pool version id hb ⟨⟩
        exact hb.advanceCursor pool version id
    obtain ⟨b, b', hbegin, hrun, rfl | hcommit⟩ := BatchScript.exists_of_play_ok played
    · exact ih
    · obtain rfl : (⟨m.state, m.refusesCommits⟩ : MemoryBatch) = b := Except.ok.inj hbegin
      have hstaged := hkeeps ⟨m.state, m.refusesCommits⟩ ih
      rw [hrun] at hstaged
      rw [MemoryStore.state_of_commit hcommit]
      exact hstaged

/-! ### What belongs to a pool -/

/-- Two states hold the same of a pool: its buckets at all resolutions, its totals and its
cursors. -/
structure SamePart (pool : String) (s t : MemoryState) : Prop where
  buckets : ∀ k : BucketKey, k.pool = pool → s.buckets[k]? = t.buckets[k]?
  totals : s.totals[pool]? = t.totals[pool]?
  cursors : ∀ version,
    s.cursors[CursorKey.mk pool version]? = t.cursors[CursorKey.mk pool version]?

namespace SamePart

variable {pool : String} {s t u : MemoryState}

theorem refl (pool : String) (s : MemoryState) : SamePart pool s s :=
  ⟨fun _ _ => rfl, rfl, fun _ => rfl⟩

theorem symm (h : SamePart pool s t) : SamePart pool t s :=
  ⟨fun k hk => (h.buckets k hk).symm, h.totals.symm, fun version => (h.cursors version).symm⟩

theorem trans (h : SamePart pool s t) (h' : SamePart pool t u) : SamePart pool s u :=
  ⟨fun k hk => (h.buckets k hk).trans (h'.buckets k hk), h.totals.trans h'.totals,
    fun version => (h.cursors version).trans (h'.cursors version)⟩

/-- States that hold the same of every pool are the same. -/
theorem eq (h : ∀ pool, SamePart pool s t) : s = t := by
  obtain ⟨buckets, totals, cursors⟩ := s
  obtain ⟨buckets', totals', cursors'⟩ := t
  have hbuckets : buckets = buckets' :=
    Std.ExtTreeMap.ext_getElem? fun _ => (h _).buckets _ rfl
  have htotals : totals = totals' := Std.ExtTreeMap.ext_getElem? fun pool => (h pool).totals
  have hcursors : cursors = cursors' :=
    Std.ExtTreeMap.ext_getElem? fun _ => (h _).cursors _
  rw [hbuckets, htotals, hcursors]

theorem putBucket (h : SamePart pool s t) (b : Bucket) :
    SamePart pool (s.putBucket b) (t.putBucket b) where
  buckets k hk := by rw [getElem?_putBucket, getElem?_putBucket, h.buckets k hk]
  totals := h.totals
  cursors := h.cursors

theorem merged (h : SamePart pool s t) (o : Observation) (r : Resolution) :
    s.merged pool o r = t.merged pool o r := by
  rw [MemoryState.merged, MemoryState.merged, h.buckets _ rfl]

/-- An average is computed from buckets of the same pool. -/
theorem average (h : SamePart pool s t) (hs : s.Keyed) (ht : t.Keyed) {b : Bucket}
    (hb : b.key.pool = pool) : s.average b = t.average b :=
  hs.average_congr ht fun l hl => h.buckets l (hl.1.trans hb)

theorem rollAt (h : SamePart pool s t) (hs : s.Keyed) (ht : t.Keyed) (o : Observation)
    (r : Resolution) : SamePart pool (s.rollAt pool o r) (t.rollAt pool o r) := by
  have hkey : (t.merged pool o r).key.pool = pool := by rw [ht.key_merged]; rfl
  have hrolled : s.rolled pool o r = t.rolled pool o r := by
    rw [rolled, rolled, h.merged o r,
      (h.putBucket (t.merged pool o r)).average (hs.putBucket _) (ht.putBucket _) hkey]
  rw [MemoryState.rollAt, MemoryState.rollAt, hrolled]
  exact h.putBucket _

theorem foldl_rollAt (h : SamePart pool s t) (hs : s.Keyed) (ht : t.Keyed) (o : Observation)
    (rs : List Resolution) :
    SamePart pool (rs.foldl (MemoryState.rollAt pool o) s)
      (rs.foldl (MemoryState.rollAt pool o) t) := by
  -- both runs keep their buckets under their keys, which the next round needs
  refine (List.foldl_rel (r := fun s t => s.Keyed ∧ t.Keyed ∧ SamePart pool s t)
    ⟨hs, ht, h⟩ ?_).2.2
  rintro r - s t ⟨hs, ht, h⟩
  exact ⟨hs.rollAt pool o r, ht.rollAt pool o r, h.rollAt hs ht o r⟩

theorem rollTotals (h : SamePart pool s t) (o : Observation) :
    SamePart pool (s.rollTotals pool o) (t.rollTotals pool o) where
  buckets := h.buckets
  totals := by
    simp only [MemoryState.rollTotals, Std.ExtTreeMap.getElem?_insert, h.totals]
  cursors := h.cursors

/-- What rolling up makes of the part of its pool depends on this part only. -/
theorem rollUp (h : SamePart pool s t) (hs : s.Keyed) (ht : t.Keyed) (o : Observation) :
    SamePart pool (s.rollUp pool o) (t.rollUp pool o) :=
  (h.foldl_rollAt hs ht o Resolution.all).rollTotals o

theorem foldl_rollUp (h : SamePart pool s t) (hs : s.Keyed) (ht : t.Keyed)
    (os : List Observation) :
    SamePart pool (os.foldl (MemoryState.rollUp pool) s)
      (os.foldl (MemoryState.rollUp pool) t) := by
  refine (List.foldl_rel (r := fun s t => s.Keyed ∧ t.Keyed ∧ SamePart pool s t)
    ⟨hs, ht, h⟩ ?_).2.2
  rintro o - s t ⟨hs, ht, h⟩
  exact ⟨hs.rollUp pool o, ht.rollUp pool o, h.rollUp hs ht o⟩

theorem advanceCursor (h : SamePart pool s t) (version : ProtocolVersion) (id : UInt64) :
    SamePart pool (s.advanceCursor pool version id) (t.advanceCursor pool version id) where
  buckets := h.buckets
  totals := h.totals
  cursors other := by
    simp only [MemoryState.advanceCursor, cursor, Std.ExtTreeMap.getElem?_insert, h.cursors]

end SamePart

/-! ### What belongs to another pool -/

variable {s : MemoryState} {pool other : String}

theorem samePart_putBucket_of_ne {b : Bucket} (h : b.key.pool ≠ pool) :
    SamePart pool (s.putBucket b) s where
  buckets _ hk := s.getElem?_putBucket_of_ne fun hkey => h (hkey ▸ hk)
  totals := rfl
  cursors _ := rfl

/-- The totals that an observation leaves belong to its pool. -/
theorem InPlace.pool_totals (hs : s.InPlace) (pool : String) :
    (s.totals[pool]?.getD (.empty pool)).pool = pool := by
  cases h : s.totals[pool]? with
  | none => rfl
  | some t => exact hs.totals pool t h

theorem InPlace.samePart_rollTotals_of_ne (hs : s.InPlace) (h : other ≠ pool) (o : Observation) :
    SamePart pool (s.rollTotals other o) s where
  buckets _ _ := rfl
  totals := by
    rw [rollTotals, PoolTotals.pool_merge, hs.pool_totals]
    simp [Std.ExtTreeMap.getElem?_insert, h]
  cursors _ := rfl

theorem keptByRollUp_inPlace (pool : String) : KeptByRollUp pool InPlace where
  rollAt hs _ _ := hs.putBucket _
  rollTotals hs _ := hs.putTotals _

theorem InPlace.foldl_rollUp (hs : s.InPlace) (pool : String) (os : List Observation) :
    (os.foldl (MemoryState.rollUp pool) s).InPlace :=
  (keptByRollUp_inPlace pool).foldl_rollUp hs os

/-- Rolling up leaves the part of every other pool alone. -/
theorem keptByRollUp_samePart_of_ne (h : other ≠ pool) (s : MemoryState) :
    KeptByRollUp other fun t => t.InPlace ∧ SamePart pool t s where
  rollAt := fun ⟨ht, hsame⟩ o r =>
    ⟨ht.putBucket _, (samePart_putBucket_of_ne (by rw [ht.buckets.key_rolled]; exact h)).trans
      hsame⟩
  rollTotals := fun ⟨ht, hsame⟩ o =>
    ⟨ht.putTotals _, (ht.samePart_rollTotals_of_ne h o).trans hsame⟩

theorem InPlace.samePart_foldl_rollUp_of_ne (hs : s.InPlace) (h : other ≠ pool)
    (os : List Observation) : SamePart pool (os.foldl (MemoryState.rollUp other) s) s :=
  ((keptByRollUp_samePart_of_ne h s).foldl_rollUp ⟨hs, .refl pool s⟩ os).2

theorem samePart_advanceCursor_of_ne (h : other ≠ pool) (version : ProtocolVersion)
    (id : UInt64) : SamePart pool (s.advanceCursor other version id) s where
  buckets _ _ := rfl
  totals := rfl
  cursors v := by
    have hkey : CursorKey.mk other version ≠ ⟨pool, v⟩ := fun hkey =>
      h (congrArg CursorKey.pool hkey)
    simp [MemoryState.advanceCursor, Std.ExtTreeMap.getElem?_insert, hkey]

end MemoryState

/-! ### Calls -/

/-- A call that applies a transaction for a pool, with the pools that are known at that time. -/
structure ApplyCall where
  pools : PoolSnapshot
  pool : PoolConfig
  row : StoredTransaction

/-- The calls for the pool with an address, in their own order. -/
def callsFor (address : String) (calls : List ApplyCall) : List ApplyCall :=
  calls.filter (·.pool.address = address)

theorem callsFor_cons (address : String) (call : ApplyCall) (calls : List ApplyCall) :
    callsFor address (call :: calls) =
      if call.pool.address = address then call :: callsFor address calls
      else callsFor address calls := by
  simp [callsFor, List.filter_cons]

/-- Two neighbouring calls for different pools are in no order for any pool. -/
theorem callsFor_swap {address : String} {before after : List ApplyCall} {first second : ApplyCall}
    (h : first.pool.address ≠ second.pool.address) :
    callsFor address (before ++ second :: first :: after) =
      callsFor address (before ++ first :: second :: after) := by
  simp only [callsFor, List.filter_append, List.filter_cons, decide_eq_true_eq]
  by_cases hfirst : first.pool.address = address
  · have hsecond : second.pool.address ≠ address := fun hsecond => h (hfirst.trans hsecond.symm)
    simp only [hfirst, hsecond, if_true, if_false]
  · simp only [hfirst, if_false]

namespace Indexer

variable (indexer : Indexer)

/-- Some calls succeed one after the other on the store in memory, and lead from one state to
another. Each is made over a link of its own, whatever else may happen on it. -/
inductive Succeeds : MemoryState → List ApplyCall → MemoryState → Prop
  | nil (s : MemoryState) : Succeeds s [] s
  | cons {call : ApplyCall} {calls : List ApplyCall} {link rest : Link MemoryStore}
      {outcome : Outcome} {t : MemoryState}
      (head : indexer.process call.pools call.pool call.row link = .ok outcome rest)
      (tail : Succeeds rest.store.state calls t) : Succeeds link.store.state (call :: calls) t

/-- The state that a call leaves. -/
def after (s : MemoryState) (call : ApplyCall) : MemoryState :=
  indexer.applied call.pools call.pool s call.row

variable {indexer : Indexer} {s t : MemoryState} {calls : List ApplyCall}

theorem state_of_process {call : ApplyCall} {link rest : Link MemoryStore} {outcome : Outcome}
    (h : indexer.process call.pools call.pool call.row link = .ok outcome rest) :
    rest.store.state = indexer.after link.store.state call := by
  obtain ⟨rest', -, hcases⟩ := indexer.process_commits call.pools call.pool call.row link
  rcases hcases with ⟨stop, hfailed, -⟩ | ⟨hprocess, hcommits⟩
  · rw [h] at hfailed
    cases hfailed
  · rw [h] at hprocess
    cases hprocess
    rw [(commits_memory.1 hcommits).2]
    rfl

/-- Calls can always succeed, and to make them is a fold. -/
theorem succeeds_iff : indexer.Succeeds s calls t ↔ calls.foldl indexer.after s = t := by
  constructor
  · intro h
    induction h with
    | nil s => rfl
    | cons head tail ih => rw [List.foldl_cons, ← state_of_process head, ih]
  · rintro rfl
    induction calls generalizing s with
    | nil => exact .nil s
    | cons call calls ih =>
      obtain ⟨outcome, hprocess⟩ := indexer.process_ofStore call.pools call.pool s call.row
      exact .cons hprocess ih

theorem inPlace_after (hs : s.InPlace) (call : ApplyCall) : (indexer.after s call).InPlace :=
  (hs.foldl_rollUp _ _).advanceCursor _ _ _

/-- What a call makes of the part of its pool depends on this part only. -/
theorem samePart_after {call : ApplyCall} (h : s.SamePart call.pool.address t) (hs : s.Keyed)
    (ht : t.Keyed) :
    (indexer.after s call).SamePart call.pool.address (indexer.after t call) :=
  (h.foldl_rollUp hs ht _).advanceCursor _ _

/-- A call leaves the part of every other pool alone. -/
theorem samePart_after_of_ne {address : String} {call : ApplyCall} (hs : s.InPlace)
    (h : call.pool.address ≠ address) : (indexer.after s call).SamePart address s :=
  (MemoryState.samePart_advanceCursor_of_ne h _ _).trans (hs.samePart_foldl_rollUp_of_ne h _)

/-- The part of a pool goes through the calls for the pool only. -/
theorem samePart_foldl_callsFor {address : String} (h : s.SamePart address t) (hs : s.InPlace)
    (ht : t.InPlace) (calls : List ApplyCall) :
    (calls.foldl indexer.after s).SamePart address
      ((callsFor address calls).foldl indexer.after t) := by
  induction calls generalizing s t with
  | nil => exact h
  | cons call calls ih =>
    rw [callsFor_cons]
    by_cases hcall : call.pool.address = address
    · rw [if_pos hcall]
      subst hcall
      exact ih (samePart_after h hs.buckets ht.buckets) (inPlace_after hs call)
        (inPlace_after ht call)
    · rw [if_neg hcall]
      exact ih ((samePart_after_of_ne hs hcall).trans h) (inPlace_after hs call) ht

/-- The state after some calls is determined by the calls for each pool in their own order. -/
theorem foldl_after_congr {others : List ApplyCall} (hs : s.InPlace)
    (h : ∀ address, callsFor address others = callsFor address calls) :
    others.foldl indexer.after s = calls.foldl indexer.after s := by
  refine MemoryState.SamePart.eq fun address => ?_
  have hcalls (calls : List ApplyCall) : (calls.foldl indexer.after s).SamePart address
      ((callsFor address calls).foldl indexer.after s) :=
    samePart_foldl_callsFor (.refl address s) hs hs calls
  have hothers := hcalls others
  rw [h address] at hothers
  exact hothers.trans (hcalls calls).symm

end Indexer

/-- **Pools do not disturb each other.** Whenever calls that apply transactions succeed, in any
order and from any state of the store in memory, the buckets, totals and cursors of a pool are
afterwards those to which the calls for this pool alone lead from the same state. Any other order of
the calls in which those for each pool keep their order leads to the same state; so two neighbouring
calls for different pools may change places. -/
theorem pools_isolated (indexer : Indexer) {s t : MemoryState} (hs : s.Reachable)
    {calls : List ApplyCall} (h : indexer.Succeeds s calls t) :
    (∀ address, ∃ u, (∀ v, indexer.Succeeds s (callsFor address calls) v ↔ v = u) ∧
      t.SamePart address u) ∧
    (∀ others, (∀ address, callsFor address others = callsFor address calls) →
      ∀ v, indexer.Succeeds s others v ↔ v = t) ∧
    ∀ before first second after, calls = before ++ first :: second :: after →
      first.pool.address ≠ second.pool.address →
      ∀ v, indexer.Succeeds s (before ++ second :: first :: after) v ↔ v = t := by
  have hplace := hs.inPlace
  obtain rfl := Indexer.succeeds_iff.1 h
  have hothers (others : List ApplyCall)
      (hsame : ∀ address, callsFor address others = callsFor address calls) (v : MemoryState) :
      indexer.Succeeds s others v ↔ v = calls.foldl indexer.after s := by
    rw [Indexer.succeeds_iff, Indexer.foldl_after_congr hplace hsame, eq_comm]
  refine ⟨fun address => ⟨_, fun v => Indexer.succeeds_iff.trans eq_comm,
    Indexer.samePart_foldl_callsFor (.refl address s) hplace hplace calls⟩, hothers, ?_⟩
  rintro before first second after rfl hne
  exact hothers _ fun address => callsFor_swap hne

/-- A transaction that swaps in two pools is applied for either of them, in both orders. -/
theorem pools_isolated_two_swaps :
    let first := poolAt "first" "a1" "b1" 6
    let second := poolAt "second" "a2" "b2" 6
    let row : StoredTransaction := { plainRow 1 1 with tx := twoSwaps }
    let calls : List ApplyCall :=
      [⟨.ofPools [first, second], first, row⟩, ⟨.ofPools [first, second], second, row⟩]
    let t := calls.foldl plainIndexer.after .empty
    MemoryState.empty.Reachable ∧ plainIndexer.Succeeds .empty calls t ∧
      (∀ call ∈ calls, ((plainIndexer.decode call.pools call.pool call.row).1.map Record.pool) =
        [call.pool.address]) ∧
      (∃ u, (∀ v, plainIndexer.Succeeds .empty (callsFor "second" calls) v ↔ v = u) ∧
        t.SamePart "second" u) ∧
      ∀ v, plainIndexer.Succeeds .empty calls.reverse v ↔ v = t := by
  intro first second row calls t
  have hsucceeds : plainIndexer.Succeeds .empty calls t := Indexer.succeeds_iff.2 rfl
  obtain ⟨hparts, -, hswap⟩ := pools_isolated plainIndexer .empty hsucceeds
  refine ⟨.empty, hsucceeds, by decide +kernel, hparts "second", ?_⟩
  exact hswap [] _ _ [] rfl (by decide)

end PoolKlines
