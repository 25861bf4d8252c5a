import PoolKlines.Proofs.Store.ShardTable

/-!
# Shards across stores on one database

Stores are opened on one database, with any numbers of shards, and give pools shards, whether or not
these can be written. The table never changes the shard of a pool that it lists. A store may though
have a pool on a shard that the table does not list for it.

* `SharedDatabase` is a database with the shard maps of its stores, and `ShardEvent` what happens;
* `SharedDatabase.loses` says that an event gives a pool a shard that the table does not take over:
  the write fails, or the table lists the pool already;
* `SharedDatabase.Tracked` is the invariant of a history: what a store knows of a pool is listed in
  the table or was lost;
* `assignment_kept_iff_listed`: the shard of a pool is the one that later stores load exactly if the
  table lists it, which is so unless it was lost;
* `assignment_lost_on_fewer_shards`: with fewer shards than before, a pool may be lost.
-/

namespace PoolKlines

namespace DurableStore

variable (s : DurableStore) (pools : List String)

theorem shards_assignPools : (s.assignPools pools).2.shards = (s.shards.assignMissing pools).1 := by
  unfold assignPools
  dsimp only
  split
  · rfl
  split <;> rfl

/-- The new shards are written unless the write fails. -/
theorem database_assignPools : (s.assignPools pools).2.database =
    if s.locked then s.database else s.database.addShards (s.shards.assignMissing pools).2 := by
  unfold assignPools
  dsimp only
  split
  next hempty =>
    rw [List.isEmpty_iff.1 hempty]
    split <;> rfl
  next => split <;> rfl

end DurableStore

/-! ### Histories -/

/-- A database, and the shards that the stores opened on it know. -/
structure SharedDatabase where
  database : Database
  stores : List ShardMap

/-- What may happen on a database: a store is opened with a number of shards, or a store gives pools
shards, and the write may fail. -/
inductive ShardEvent
  | openStore (count : UInt16)
  | assign (store : Nat) (pools : List String) (fails : Bool)

namespace SharedDatabase

/-- A store as it stands before a call, whose write may fail. -/
def store? (s : SharedDatabase) (i : Nat) (fails : Bool) : Option DurableStore :=
  s.stores[i]?.map (⟨s.database, ·, fails⟩)

/-- Carry out an event. -/
def step (s : SharedDatabase) : ShardEvent → SharedDatabase
  | .openStore count =>
    match DurableStore.ofDatabase s.database count with
    | .error _ => s
    | .ok store => { s with stores := s.stores ++ [store.shards] }
  | .assign i pools fails =>
    match s.store? i fails with
    | none => s
    | some store =>
      let after := (store.assignPools pools).2
      ⟨after.database, s.stores.set i after.shards⟩

/-- Carry out several events. -/
def run (s : SharedDatabase) (events : List ShardEvent) : SharedDatabase := events.foldl step s

/-- An event gives a pool a shard that the table does not take over. -/
def loses (s : SharedDatabase) (i : Nat) (pool : String) : ShardEvent → Bool
  | .openStore _ => false
  | .assign j pools fails =>
    decide (j = i) && pools.contains pool && s.stores[i]?.any (fun m => (m.find? pool).isNone) &&
      (fails || (s.database.shardOf? pool).isSome)

/-- One of several events gives a pool a shard that the table does not take over. -/
def losesIn (s : SharedDatabase) (i : Nat) (pool : String) : List ShardEvent → Bool
  | [] => false
  | event :: events => s.loses i pool event || (s.step event).losesIn i pool events

/-- The table lists what every store knows, unless it was lost. -/
structure Tracked (s : SharedDatabase) (lost : Nat → String → Prop) : Prop where
  holds : ∃ table, s.database.HoldsShards table
  inRange : ∀ (i : Nat) (m : ShardMap), s.stores[i]? = some m → m.InRange
  listed : ∀ (i : Nat) (m : ShardMap), s.stores[i]? = some m → ∀ pool shard,
    m.find? pool = some shard → s.database.shardOf? pool = some shard ∨ lost i pool

variable {s : SharedDatabase}

theorem step_assign {i : Nat} {m : ShardMap} (hm : s.stores[i]? = some m) (pools : List String)
    (fails : Bool) : s.step (.assign i pools fails) =
      ⟨if fails then s.database else s.database.addShards (m.assignMissing pools).2,
        s.stores.set i (m.assignMissing pools).1⟩ := by
  have hstore : s.store? i fails = some ⟨s.database, m, fails⟩ := by rw [store?, hm]; rfl
  rw [step, hstore]
  dsimp only
  rw [DurableStore.database_assignPools, DurableStore.shards_assignPools]

theorem step_assign_of_none {i : Nat} (hm : s.stores[i]? = none) (pools : List String)
    (fails : Bool) : s.step (.assign i pools fails) = s := by
  have hstore : s.store? i fails = none := by rw [store?, hm]; rfl
  rw [step, hstore]

theorem step_openStore {table : List (String × UInt16)} (h : s.database.HoldsShards table)
    (count : UInt16) :
    s.step (.openStore count) = ⟨s.database, s.stores ++ [.ofList count table]⟩ := by
  rw [step, h.ofDatabase]

theorem run_concat (s : SharedDatabase) (events : List ShardEvent) (event : ShardEvent) :
    s.run (events ++ [event]) = (s.run events).step event :=
  List.foldl_concat step s event events

namespace Tracked

variable {lost : Nat → String → Prop}

theorem mono (h : s.Tracked lost) {lost' : Nat → String → Prop}
    (hlost : ∀ i pool, lost i pool → lost' i pool) : s.Tracked lost' :=
  ⟨h.holds, h.inRange, fun i m hm pool shard hfind =>
    (h.listed i m hm pool shard hfind).imp_right (hlost i pool)⟩

/-- Before the first store is opened. -/
theorem start {database : Database} (hempty : database.shards = []) :
    Tracked ⟨database, []⟩ lost where
  holds := ⟨[], .empty hempty⟩
  inRange i m h := by cases h
  listed i m h := by cases h

/-- The table keeps what it lists. -/
theorem shardOf?_step (h : s.Tracked lost) (event : ShardEvent) {pool : String} {shard : UInt16}
    (hshard : s.database.shardOf? pool = some shard) :
    (s.step event).database.shardOf? pool = some shard := by
  obtain ⟨table, htable⟩ := h.holds
  cases event with
  | openStore count =>
    rw [step_openStore htable]
    exact hshard
  | assign i pools fails =>
    cases hm : s.stores[i]? with
    | none =>
      rw [step_assign_of_none hm]
      exact hshard
    | some m =>
      rw [step_assign hm]
      cases fails with
      | true => exact hshard
      | false =>
        obtain ⟨table', htable', hlookup⟩ := htable.addShards (m.assignMissing pools).2
        rw [htable.shardOf?] at hshard
        exact (htable'.shardOf? pool).trans (by rw [hlookup, hshard, Option.some_or])

/-- A store that is opened knows only what the table lists. -/
theorem of_openStore (h : s.Tracked lost) (count : UInt16) :
    (s.step (.openStore count)).Tracked lost := by
  obtain ⟨table, htable⟩ := h.holds
  rw [step_openStore htable]
  have hstores (i : Nat) (m : ShardMap) (hm : (s.stores ++ [ShardMap.ofList count table])[i]? =
      some m) : s.stores[i]? = some m ∨ m = .ofList count table := by
    rw [List.getElem?_append] at hm
    split at hm
    · exact .inl hm
    · exact .inr (List.mem_singleton.1 (List.mem_of_getElem? hm))
  refine ⟨⟨table, htable⟩, fun i m hm => ?_, fun i m hm pool shard hfind => ?_⟩
  · rcases hstores i m hm with hm | rfl
    · exact h.inRange i m hm
    · exact ShardMap.inRange_ofList count table
  · rcases hstores i m hm with hm | rfl
    · exact h.listed i m hm pool shard hfind
    · rw [ShardMap.find?_ofList htable.nodup] at hfind
      exact .inl ((htable.shardOf? pool).trans (Option.filter_eq_some_iff.1 hfind).1)

/-- A pool that is new to a store is listed with its shard, unless it is lost. -/
theorem of_assign (h : s.Tracked lost) {i : Nat} {m : ShardMap} (hm : s.stores[i]? = some m)
    (pools : List String) (fails : Bool) :
    (s.step (.assign i pools fails)).Tracked fun j pool =>
      lost j pool ∨ s.loses j pool (.assign i pools fails) = true := by
  obtain ⟨table, htable⟩ := h.holds
  have hkeep {pool : String} {shard : UInt16} (hshard : s.database.shardOf? pool = some shard) :=
    h.shardOf?_step (.assign i pools fails) hshard
  rw [step_assign hm] at hkeep ⊢
  have hstores (j : Nat) (m' : ShardMap)
      (hm' : (s.stores.set i (m.assignMissing pools).1)[j]? = some m') :
      s.stores[j]? = some m' ∨ j = i ∧ m' = (m.assignMissing pools).1 := by
    rw [List.getElem?_set] at hm'
    split at hm'
    next hij =>
      split at hm'
      · exact .inr ⟨hij.symm, (Option.some.inj hm').symm⟩
      · cases hm'
    next => exact .inl hm'
  refine ⟨?_, fun j m' hm' => ?_, fun j m' hm' pool shard hfind => ?_⟩
  · cases fails with
    | true => exact ⟨table, htable⟩
    | false =>
      obtain ⟨table', htable', -⟩ := htable.addShards (m.assignMissing pools).2
      exact ⟨table', htable'⟩
  · rcases hstores j m' hm' with hm' | ⟨-, rfl⟩
    · exact h.inRange j m' hm'
    · exact (h.inRange i m hm).assignMissing pools
  · rcases hstores j m' hm' with hm' | ⟨rfl, rfl⟩
    · exact (h.listed j m' hm' pool shard hfind).imp hkeep .inl
    · rw [ShardMap.find?_assignMissing] at hfind
      cases hknown : m.find? pool with
      | some known =>
        rw [hknown, Option.some_or] at hfind
        exact (h.listed j m hm pool shard (hknown.trans hfind)).imp hkeep .inl
      | none =>
        rw [hknown, Option.none_or] at hfind
        have hloses : s.loses j pool (.assign j pools fails) =
            (fails || (s.database.shardOf? pool).isSome) := by
          simp [loses, hm, hknown, (ShardMap.of_lookup_assignMissing hfind).1]
        rw [hloses]
        cases fails with
        | true => exact .inr (.inr rfl)
        | false =>
          obtain ⟨table', htable', hlookup⟩ := htable.addShards (m.assignMissing pools).2
          cases hlisted : table.lookup pool with
          | some other => exact .inr (.inr (by rw [htable.shardOf?, hlisted]; rfl))
          | none =>
            refine .inl ((htable'.shardOf? pool).trans ?_)
            rw [hlookup, hlisted, Option.none_or, hfind]

theorem of_step (h : s.Tracked lost) (event : ShardEvent) :
    (s.step event).Tracked fun i pool => lost i pool ∨ s.loses i pool event = true := by
  cases event with
  | openStore count => exact (h.of_openStore count).mono fun _ _ => .inl
  | assign i pools fails =>
    cases hm : s.stores[i]? with
    | none =>
      rw [step_assign_of_none hm]
      exact h.mono fun _ _ => .inl
    | some m => exact h.of_assign hm pools fails

theorem of_run (h : s.Tracked lost) (events : List ShardEvent) :
    (s.run events).Tracked fun i pool => lost i pool ∨ s.losesIn i pool events = true := by
  induction events generalizing s lost with
  | nil => exact h.mono fun _ _ => .inl
  | cons event events ih =>
    refine (ih (h.of_step event)).mono fun i pool hlost => ?_
    rw [losesIn, Bool.or_eq_true, ← or_assoc]
    exact hlost

theorem shardOf?_run (h : s.Tracked lost) (events : List ShardEvent) {pool : String}
    {shard : UInt16} (hshard : s.database.shardOf? pool = some shard) :
    (s.run events).database.shardOf? pool = some shard := by
  induction events generalizing s lost with
  | nil => exact hshard
  | cons event events ih => exact ih (h.of_step event) (h.shardOf?_step event hshard)

/-- A shard that exists is the one that a store with as many shards loads exactly if the table lists
it. -/
theorem listed_iff (h : s.Tracked lost) {pool : String} {shard count : UInt16}
    (hlt : shard < count) : s.database.shardOf? pool = some shard ↔
      ∀ (later : List ShardEvent) (count' : UInt16), max count' 1 = count →
        ∃ store, DurableStore.ofDatabase (s.run later).database count' = .ok store ∧
          store.shards.find? pool = some shard := by
  constructor
  · intro hshard later count' hcount
    obtain ⟨table, htable⟩ := (h.of_run later).holds
    refine ⟨_, htable.ofDatabase count', ?_⟩
    have hlisted := h.shardOf?_run later hshard
    rw [htable.shardOf?] at hlisted
    show (ShardMap.ofList count' table).find? pool = some shard
    rw [ShardMap.find?_ofList htable.nodup, hlisted, hcount]
    simp [Option.filter, hlt]
  · intro hload
    obtain ⟨table, htable⟩ := h.holds
    have hcount : max count 1 = count := by
      have hmax : max count 1 = if count ≤ 1 then 1 else count := rfl
      grind
    obtain ⟨store, hstore, hfind⟩ := hload [] count hcount
    obtain rfl := Except.ok.inj (hstore.symm.trans (htable.ofDatabase count))
    have hfound : (ShardMap.ofList count table).find? pool = some shard := hfind
    rw [ShardMap.find?_ofList htable.nodup] at hfound
    exact (htable.shardOf? pool).trans (Option.filter_eq_some_iff.1 hfound).1

end Tracked

/-! ### Calls that answer -/

theorem losesIn_concat (s : SharedDatabase) (i : Nat) (pool : String) (events : List ShardEvent)
    (event : ShardEvent) : s.losesIn i pool (events ++ [event]) =
      (s.losesIn i pool events || (s.run events).loses i pool event) := by
  induction events generalizing s with
  | nil => simp [losesIn, run]
  | cons first events ih => rw [List.cons_append, losesIn, losesIn, ih, Bool.or_assoc]; rfl

/-- A call that answers loses only a pool that is new to the store and that the table lists. -/
theorem loses_eq_false {i : Nat} {pools : List String} {fails : Bool} {store : DurableStore}
    {added : List (String × UInt16)} (pool : String) (hstore : s.store? i fails = some store)
    (hok : (store.assignPools pools).1 = .ok added)
    (hnew : store.shards.find? pool = none → s.database.shardOf? pool = none) :
    s.loses i pool (.assign i pools fails) = false := by
  obtain ⟨m, hm, rfl⟩ := Option.map_eq_some_iff.1 hstore
  rw [loses, hm]
  cases hknown : m.find? pool with
  | some shard => simp [hknown]
  | none =>
    cases hmem : pools.contains pool with
    | false => simp
    | true =>
      have hadded : (m.assignMissing pools).2 ≠ [] := by
        intro hempty
        obtain ⟨shard, hshard⟩ := m.assigned_assignMissing (List.contains_iff_mem.1 hmem)
        rw [ShardMap.find?_assignMissing, hknown, hempty] at hshard
        cases hshard
      cases fails with
      | true =>
        rw [DurableStore.assignPools] at hok
        simp [hadded] at hok
      | false => simp [hnew hknown]

end SharedDatabase

/-- After a call that answers, a pool of the call has a shard. Stores that are opened later with as
many shards load it exactly if the table lists it. The table lists it if neither an earlier event
lost it nor the table listed the pool when it was new to the store. -/
theorem assignment_kept_iff_listed {database : Database} (hempty : database.shards = [])
    {events : List ShardEvent} {i : Nat} {fails : Bool} {store : DurableStore}
    {pools : List String} {added : List (String × UInt16)} {pool : String}
    (hstore : (SharedDatabase.run ⟨database, []⟩ events).store? i fails = some store)
    (hok : (store.assignPools pools).1 = .ok added) (hpool : pool ∈ pools) :
    let after := SharedDatabase.run ⟨database, []⟩ (events ++ [.assign i pools fails])
    ∃ shard, (store.assignPools pools).2.shards.find? pool = some shard ∧
      (after.database.shardOf? pool = some shard ↔
        ∀ (later : List ShardEvent) (count : UInt16), max count 1 = store.shards.count →
          ∃ reopened, DurableStore.ofDatabase (after.run later).database count = .ok reopened ∧
            reopened.shards.find? pool = some shard) ∧
      (SharedDatabase.losesIn ⟨database, []⟩ i pool events = false →
        (store.shards.find? pool = none → store.database.shardOf? pool = none) →
          after.database.shardOf? pool = some shard) := by
  intro after
  have hinit : SharedDatabase.Tracked ⟨database, []⟩ fun _ _ => False := .start hempty
  have hbefore := hinit.of_run events
  have hafter := hinit.of_run (events ++ [.assign i pools fails])
  have hcalled := SharedDatabase.loses_eq_false pool hstore hok
  obtain ⟨m, hm, rfl⟩ := Option.map_eq_some_iff.1 hstore
  have hstep : after = SharedDatabase.step (.run ⟨database, []⟩ events) (.assign i pools fails) :=
    SharedDatabase.run_concat _ events _
  obtain ⟨shard, hshard⟩ := m.assigned_assignMissing hpool
  have hstores : after.stores[i]? = some (m.assignMissing pools).1 := by
    rw [hstep, SharedDatabase.step_assign hm]
    exact List.getElem?_set_self (List.getElem?_eq_some_iff.1 hm).1
  have hlt : shard < m.count := by
    have hlt := ((hbefore.inRange i m hm).assignMissing pools).lt pool shard hshard
    rwa [ShardMap.count_assignMissing] at hlt
  refine ⟨shard, ?_, hafter.listed_iff hlt, fun hearlier hnew => ?_⟩
  · rw [DurableStore.shards_assignPools]
    exact hshard
  · refine (hafter.listed i _ hstores pool shard hshard).resolve_right ?_
    rw [SharedDatabase.losesIn_concat, hearlier, hcalled hnew]
    simp

/-- A pool of the first call on an empty database keeps its shard. -/
theorem assignment_kept_first :
    (SharedDatabase.run ⟨.empty, []⟩ [.openStore 3]).store? 0 false =
      some ⟨.empty, .ofList 3 [], false⟩ ∧
    (DurableStore.assignPools ⟨.empty, .ofList 3 [], false⟩ ["a"]).1 = .ok [("a", 0)] ∧
    (DurableStore.assignPools ⟨.empty, .ofList 3 [], false⟩ ["a"]).2.shards.find? "a" = some 0 ∧
    ∀ (later : List ShardEvent) (count : UInt16), max count 1 = 3 →
      ∃ store, DurableStore.ofDatabase (SharedDatabase.run
        (.run ⟨.empty, []⟩ [.openStore 3, .assign 0 ["a"] false]) later).database count =
          .ok store ∧ store.shards.find? "a" = some 0 := by
  have hstore : (SharedDatabase.run ⟨.empty, []⟩ [.openStore 3]).store? 0 false =
      some ⟨.empty, .ofList 3 [], false⟩ := rfl
  have hok : (DurableStore.assignPools ⟨.empty, .ofList 3 [], false⟩ ["a"]).1 =
      .ok [("a", 0)] := rfl
  have hpool : "a" ∈ ["a"] := List.mem_singleton_self "a"
  obtain ⟨shard, hshard, hiff, hlisted⟩ := assignment_kept_iff_listed rfl hstore hok hpool
  have hzero : (DurableStore.assignPools ⟨.empty, .ofList 3 [], false⟩ ["a"]).2.shards.find? "a" =
      some 0 := by decide +kernel
  obtain rfl := Option.some.inj (hzero.symm.trans hshard)
  exact ⟨hstore, hok, hzero, hiff.1 (hlisted (by decide +kernel) fun _ => rfl)⟩

/-- With fewer shards than before, a call answers and gives a pool a shard that the table does not
list, so that a store opened next with as many shards does not know the pool. -/
theorem assignment_lost_on_fewer_shards :
    ∃ store reopened : DurableStore,
      (SharedDatabase.run ⟨.empty, []⟩
        [.openStore 3, .assign 0 ["a", "b", "c"] false, .openStore 2]).store? 1 false = some store ∧
      (store.assignPools ["c"]).1 = .ok [("c", 0)] ∧
      (store.assignPools ["c"]).2.shards.find? "c" = some 0 ∧
      DurableStore.ofDatabase (store.assignPools ["c"]).2.database 2 = .ok reopened ∧
      reopened.shards.find? "c" = none := by
  refine ⟨_, _, rfl, ?_, ?_, rfl, ?_⟩
  · rfl
  · decide +kernel
  · decide +kernel

end PoolKlines
