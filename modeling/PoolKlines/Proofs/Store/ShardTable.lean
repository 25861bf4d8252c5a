import PoolKlines.Proofs.Store.Refinement

/-!
# Shards in memory and in the table

* `ShardMap.InRange` says that the shards of all pools exist; new pools keep it so;
* `ShardMap.find?_assignMissing`: a pool keeps its shard, and one without a shard is given one;
* `Database.HoldsShards` says which pools and shards the table lists, with distinct pools;
* `HoldsShards.addShards`: the table keeps the shard of a pool that it lists already;
* `HoldsShards.ofDatabase`: a store that is opened loads what the table lists, as far as the shards
  exist.
-/

namespace PoolKlines

/-! ### Shard maps -/

namespace ShardMap

variable {m : ShardMap} {pools : List String}

theorem find?_assign (m : ShardMap) (other pool : String) (shard : UInt16) :
    (m.assign other shard).find? pool = if other = pool then some shard else m.find? pool := by
  simp only [find?, assign, Std.ExtTreeMap.getElem?_insert, Std.LawfulEqOrd.compare_eq_iff_eq]

/-- A pool keeps its shard, and one without a shard has the one that it was given. -/
theorem find?_assignMissing (m : ShardMap) (pools : List String) (pool : String) :
    (m.assignMissing pools).1.find? pool =
      (m.find? pool).or ((m.assignMissing pools).2.lookup pool) := by
  induction pools generalizing m with
  | nil => simp
  | cons other pools ih =>
    rw [assignMissing]
    split
    next => exact ih m
    next hnone =>
      simp only [ih, find?_assign, List.lookup_cons]
      by_cases hpool : other = pool
      · subst hpool
        simp [hnone]
      · have hne : (pool == other) = false := by simpa using Ne.symm hpool
        rw [if_neg hpool, hne]

/-- Only pools of the list without a shard are given one. -/
theorem of_lookup_assignMissing {pool : String} {shard : UInt16}
    (h : (m.assignMissing pools).2.lookup pool = some shard) :
    pool ∈ pools ∧ m.find? pool = none := by
  induction pools generalizing m with
  | nil => cases h
  | cons other pools ih =>
    rw [assignMissing] at h
    split at h
    next =>
      obtain ⟨hmem, hnone⟩ := ih h
      exact ⟨List.mem_cons_of_mem _ hmem, hnone⟩
    next hnone =>
      by_cases hpool : pool = other
      · subst hpool
        exact ⟨List.mem_cons_self, hnone⟩
      · have hne : (pool == other) = false := by simpa using hpool
        rw [List.lookup_cons, hne] at h
        obtain ⟨hmem, hnone'⟩ := ih h
        rw [find?_assign, if_neg (Ne.symm hpool)] at hnone'
        exact ⟨List.mem_cons_of_mem _ hmem, hnone'⟩

@[simp] theorem count_assignMissing (m : ShardMap) (pools : List String) :
    (m.assignMissing pools).1.count = m.count := by
  induction pools generalizing m with
  | nil => rfl
  | cons other pools ih =>
    rw [assignMissing]
    split
    · exact ih m
    · exact ih _

/-! ### Shards that exist -/

/-- There is a shard, and the shards of all pools exist. -/
structure InRange (m : ShardMap) : Prop where
  pos : 0 < m.count
  lt : ∀ pool shard, m.find? pool = some shard → shard < m.count

theorem firstLeast_lt (position best : Nat) {next bound : Nat} {loads : List Nat}
    (hposition : position < bound) (hbound : next + loads.length ≤ bound) :
    firstLeast position best next loads < bound := by
  induction loads generalizing position best next with
  | nil => exact hposition
  | cons load loads ih =>
    rw [List.length_cons] at hbound
    unfold firstLeast
    split
    · exact ih next load (by omega) (by omega)
    · exact ih position best hposition (by omega)

/-- The least loaded shard exists. -/
theorem leastLoaded_lt (hpos : 0 < m.count) : m.leastLoaded < m.count := by
  have hcount : 0 < m.count.toNat := UInt16.lt_iff_toNat_lt.1 hpos
  have hlength : ((List.range m.count.toNat).map m.load).length = m.count.toNat := by simp
  unfold leastLoaded
  split
  next => exact hpos
  next first rest hloads =>
    rw [hloads, List.length_cons] at hlength
    have hlt : firstLeast 0 first 1 rest < m.count.toNat :=
      firstLeast_lt 0 first hcount (by omega)
    have hsize := m.count.toNat_lt
    rw [UInt16.lt_iff_toNat_lt, UInt16.toNat_ofNat_of_lt' (by simp only [UInt16.size]; omega)]
    exact hlt

theorem InRange.assignMissing (h : m.InRange) (pools : List String) :
    (m.assignMissing pools).1.InRange := by
  induction pools generalizing m with
  | nil => exact h
  | cons other pools ih =>
    rw [ShardMap.assignMissing]
    split
    · exact ih h
    · refine ih ⟨h.pos, fun pool shard hfind => ?_⟩
      rw [find?_assign] at hfind
      split at hfind
      · cases hfind
        exact leastLoaded_lt h.pos
      · exact h.lt pool shard hfind

/-! ### Shards from a list -/

theorem lookup_eq_none_of_not_mem {table : List (String × UInt16)} {pool : String}
    (h : pool ∉ table.map Prod.fst) : table.lookup pool = none := by
  rw [List.lookup_eq_none_iff]
  rintro ⟨other, shard⟩ hrow
  have hne : pool ≠ other := fun heq => h (heq ▸ List.mem_map_of_mem hrow)
  simpa using hne

theorem not_mem_of_lookup_eq_none {table : List (String × UInt16)} {pool : String}
    (h : table.lookup pool = none) : pool ∉ table.map Prod.fst := by
  rw [List.lookup_eq_none_iff] at h
  rintro hmem
  obtain ⟨row, hrow, rfl⟩ := List.mem_map.1 hmem
  simpa using h row hrow

theorem getElem?_foldl_insert {table : List (String × UInt16)} (hnodup : (table.map Prod.fst).Nodup)
    (map : Std.ExtTreeMap String UInt16) (pool : String) :
    (table.foldl (fun map (pool, shard) => map.insert pool shard) map)[pool]? =
      (table.lookup pool).or map[pool]? := by
  induction table generalizing map with
  | nil => rfl
  | cons row table ih =>
    obtain ⟨other, shard⟩ := row
    obtain ⟨hother, hrest⟩ := List.nodup_cons.1 hnodup
    rw [List.foldl_cons, ih hrest, Std.ExtTreeMap.getElem?_insert, List.lookup_cons]
    by_cases hpool : other = pool
    · subst hpool
      simp [lookup_eq_none_of_not_mem hother]
    · have hne : (pool == other) = false := by simpa using Ne.symm hpool
      rw [hne, if_neg (by simpa using hpool)]

theorem lookup_filter {table : List (String × UInt16)} (hnodup : (table.map Prod.fst).Nodup)
    (p : UInt16 → Bool) (pool : String) :
    (table.filter fun (_, shard) => p shard).lookup pool = (table.lookup pool).filter p := by
  induction table with
  | nil => rfl
  | cons row table ih =>
    obtain ⟨other, shard⟩ := row
    obtain ⟨hother, hrest⟩ := List.nodup_cons.1 hnodup
    rw [List.filter_cons, List.lookup_cons]
    by_cases hpool : pool = other
    · subst hpool
      have hnone := lookup_eq_none_of_not_mem hother
      cases hp : p shard <;> simp [hp, ih hrest, hnone, Option.filter]
    · have hne : (pool == other) = false := by simpa using hpool
      cases hp : p shard <;> simp [hp, ih hrest, List.lookup_cons, hne]

/-- A list with distinct pools gives each of them its shard, if the shard exists. -/
theorem find?_ofList {table : List (String × UInt16)} (hnodup : (table.map Prod.fst).Nodup)
    (count : UInt16) (pool : String) :
    (ofList count table).find? pool = (table.lookup pool).filter (· < max count 1) := by
  have hknown : ((table.filter fun (_, shard) => decide (shard < max count 1)).map
      Prod.fst).Nodup := hnodup.sublist (List.filter_sublist.map _)
  have hempty : (∅ : Std.ExtTreeMap String UInt16)[pool]? = none := by simp
  have hfold := getElem?_foldl_insert hknown ∅ pool
  rw [hempty, Option.or_none] at hfold
  exact hfold.trans (lookup_filter hnodup (fun shard => decide (shard < max count 1)) pool)

/-- Pools get their shards from the list. -/
theorem mem_of_getElem?_foldl_insert {table : List (String × UInt16)}
    {map : Std.ExtTreeMap String UInt16} {pool : String} {shard : UInt16}
    (h : (table.foldl (fun map (pool, shard) => map.insert pool shard) map)[pool]? = some shard) :
    (pool, shard) ∈ table ∨ map[pool]? = some shard := by
  induction table generalizing map with
  | nil => exact .inr h
  | cons row table ih =>
    rcases ih h with hmem | hmap
    · exact .inl (List.mem_cons_of_mem _ hmem)
    · rw [Std.ExtTreeMap.getElem?_insert] at hmap
      split at hmap
      next hpool =>
        refine .inl (List.mem_cons.2 (.inl ?_))
        rw [← Option.some.inj hmap, ← Std.LawfulEqOrd.compare_eq_iff_eq.1 hpool]
      next => exact .inr hmap

/-- A list gives pools only shards that exist. -/
theorem inRange_ofList (count : UInt16) (table : List (String × UInt16)) :
    (ofList count table).InRange where
  pos := by
    have hmax : max count 1 = if count ≤ 1 then 1 else count := rfl
    show 0 < max count 1
    rw [hmax]
    split
    next => decide
    next hlt => grind
  lt pool shard h := by
    rcases mem_of_getElem?_foldl_insert h with hmem | hempty
    · exact of_decide_eq_true (List.mem_filter.1 hmem).2
    · simp at hempty

end ShardMap

/-! ### The table -/

/-- The row of a pool with a shard. -/
def ShardRow.ofAssignment (row : String × UInt16) : ShardRow := ⟨some row.1, .integer row.2.toNat⟩

theorem ShardRow.assignment_ofAssignment (row : String × UInt16) :
    (ofAssignment row).assignment = .ok row := by
  have hlt := row.2.toNat_lt
  have hnat : ((row.2.toNat : Int) % 65536).toNat = row.2.toNat := by omega
  show Except.ok (row.1, UInt16.ofNat ((row.2.toNat : Int) % 65536).toNat) = _
  rw [hnat, UInt16.ofNat_toNat]

namespace Database

/-- The table lists the shards of some pools, each pool once. -/
structure HoldsShards (d : Database) (table : List (String × UInt16)) : Prop where
  rows_eq : d.shards = table.map ShardRow.ofAssignment
  nodup : (table.map Prod.fst).Nodup

/-- The shard that the table lists for a pool. -/
def shardOf? (d : Database) (pool : String) : Option UInt16 :=
  (d.shards.find? (·.pool = some pool)).bind fun row => row.assignment.toOption.map Prod.snd

namespace HoldsShards

variable {d : Database} {table : List (String × UInt16)}

theorem empty {d : Database} (h : d.shards = []) : d.HoldsShards [] := ⟨h, List.nodup_nil⟩

theorem shardOf? (h : d.HoldsShards table) (pool : String) :
    d.shardOf? pool = table.lookup pool := by
  rw [Database.shardOf?, h.rows_eq]
  clear h
  induction table with
  | nil => rfl
  | cons row table ih =>
    have hrow : (ShardRow.ofAssignment row).pool = some row.1 := rfl
    rw [List.map_cons, List.find?_cons, List.lookup_cons, hrow]
    by_cases hpool : pool = row.1
    · subst hpool
      simp [ShardRow.assignment_ofAssignment, Except.toOption]
    · have hne : (pool == row.1) = false := by simpa using hpool
      simpa [hne, Ne.symm hpool] using ih

theorem any_pool (h : d.HoldsShards table) (pool : String) :
    (d.shards.any (·.pool = some pool)) = true ↔ pool ∈ table.map Prod.fst := by
  rw [h.rows_eq]
  simp [ShardRow.ofAssignment]

/-- A new pool is listed last. -/
theorem concat (h : d.HoldsShards table) {row : String × UInt16}
    (hnew : row.1 ∉ table.map Prod.fst) :
    { d with shards := d.shards ++ [ShardRow.ofAssignment row] }.HoldsShards (table ++ [row]) where
  rows_eq := by
    rw [List.map_append, ← h.rows_eq]
    rfl
  nodup := by
    rw [List.map_append, List.nodup_append]
    refine ⟨h.nodup, List.nodup_singleton _, fun other hother pool hpool => ?_⟩
    rw [List.mem_singleton.1 hpool]
    rintro rfl
    exact hnew hother

/-- The table keeps what it lists, and lists the new shards of other pools. -/
theorem addShards (h : d.HoldsShards table) (added : List (String × UInt16)) :
    ∃ table', (d.addShards added).HoldsShards table' ∧
      ∀ pool, table'.lookup pool = (table.lookup pool).or (added.lookup pool) := by
  induction added generalizing d table with
  | nil => exact ⟨table, h, fun pool => by simp⟩
  | cons row added ih =>
    by_cases hmem : row.1 ∈ table.map Prod.fst
    · have hrows : d.addShards (row :: added) = d.addShards added := by
        simp only [Database.addShards, List.foldl_cons, if_pos ((h.any_pool row.1).2 hmem)]
      obtain ⟨table', htable', hlookup⟩ := ih h
      refine ⟨table', hrows ▸ htable', fun pool => ?_⟩
      rw [hlookup, List.lookup_cons]
      cases hold : table.lookup pool with
      | some shard => rfl
      | none =>
        have hne : (pool == row.1) = false := by
          rw [beq_eq_false_iff_ne]
          rintro rfl
          exact ShardMap.not_mem_of_lookup_eq_none hold hmem
        rw [hne]
    · have hrows : d.addShards (row :: added) =
          { d with shards := d.shards ++ [ShardRow.ofAssignment row] }.addShards added := by
        simp only [Database.addShards, List.foldl_cons, if_neg (mt (h.any_pool row.1).1 hmem)]
        rfl
      obtain ⟨table', htable', hlookup⟩ := ih (h.concat hmem)
      refine ⟨table', hrows ▸ htable', fun pool => ?_⟩
      rw [hlookup, List.lookup_append, Option.or_assoc, List.lookup_cons, List.lookup_cons]
      cases pool == row.1 <;> rfl

/-- A store that is opened loads the shards that the table lists, as far as they exist. -/
theorem ofDatabase (h : d.HoldsShards table) (count : UInt16) :
    DurableStore.ofDatabase d count = .ok ⟨d, .ofList count table, false⟩ := by
  have hrows : d.shards.mapM ShardRow.assignment = .ok table := by
    rw [h.rows_eq, List.mapM_map]
    exact (mapM_of_ok fun row _ => ShardRow.assignment_ofAssignment row).trans
      (congrArg Except.ok (List.map_id' table))
  rw [DurableStore.ofDatabase, hrows]
  rfl

end HoldsShards

end Database

end PoolKlines
