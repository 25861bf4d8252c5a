import PoolKlines.Proofs.Store.ShardTable

/-!
# Balanced shards

* `ShardMap.loads` are the numbers of pools of the shards, `ShardMap.spread` is how far the largest
  of them is from the smallest;
* `load_assign`, `loads_assign`: a pool without a shard adds one to the load of its shard;
* `load_leastLoaded_le`: no shard has fewer pools than the least loaded one;
* `spread_assignMissing_le`: a batch of pools leaves a spread of one, or none larger than before;
* `assignCounting` keeps the loads along a batch instead of counting them again for every pool;
  `assignCounting_eq` says that it does the same;
* `map_fst_assignMissing`, `find?_of_mem_assignMissing`: the answer lists the pools of the batch
  that had no shard, each where it stands first, with the shard that it has now;
* `batches_complete_stable_balanced`: all of it after any batches over any known shards.
-/

namespace PoolKlines

namespace ShardMap

variable {m : ShardMap} {pool : String} {shard : UInt16}

/-! ### Loads -/

/-- The numbers of pools of the shards. -/
def loads (m : ShardMap) : List Nat := (List.range m.count.toNat).map m.load

/-- How far the largest of some loads is from the smallest. -/
def spreadOf (loads : List Nat) : Nat := loads.max?.getD 0 - loads.min?.getD 0

/-- How far the largest load of a shard is from the smallest. -/
def spread (m : ShardMap) : Nat := spreadOf m.loads

@[simp] theorem length_loads (m : ShardMap) : m.loads.length = m.count.toNat := by
  simp [loads]

theorem getElem?_loads (m : ShardMap) (s : Nat) :
    m.loads[s]? = if s < m.count.toNat then some (m.load s) else none := by
  split
  next hs => simp [loads, hs]
  next hs => simpa [loads] using Nat.not_lt.1 hs

theorem spreadOf_le_iff {loads : List Nat} {k : Nat} :
    spreadOf loads ≤ k ↔ ∀ a ∈ loads, ∀ b ∈ loads, a ≤ b + k := by
  cases hmax : loads.max? with
  | none =>
    rw [List.max?_eq_none_iff] at hmax
    subst hmax
    simp [spreadOf]
  | some largest =>
    cases hmin : loads.min? with
    | none =>
      rw [List.min?_eq_none_iff] at hmin
      subst hmin
      simp [spreadOf]
    | some smallest =>
      obtain ⟨hlargest, hle⟩ := List.max?_eq_some_iff.1 hmax
      obtain ⟨hsmallest, hge⟩ := List.min?_eq_some_iff.1 hmin
      simp only [spreadOf, hmax, hmin, Option.getD_some]
      constructor
      · intro h a ha b hb
        have hupper := hle a ha
        have hlower := hge b hb
        omega
      · intro h
        have hfar := h largest hlargest smallest hsmallest
        omega

theorem spread_le_iff {k : Nat} :
    m.spread ≤ k ↔
      ∀ s < m.count.toNat, ∀ t < m.count.toNat, m.load s ≤ m.load t + k := by
  simp [spread, spreadOf_le_iff, loads]

/-- The entries of a map with a new key are those of the map and the new one. -/
theorem toList_insert_perm {map : Std.ExtTreeMap String UInt16} (hnone : map[pool]? = none) :
    (map.insert pool shard).toList.Perm ((pool, shard) :: map.toList) := by
  have hnodup (map : Std.ExtTreeMap String UInt16) : map.toList.Nodup :=
    map.distinct_keys_toList.imp fun hne heq =>
      hne (Std.LawfulEqOrd.compare_eq_iff_eq.2 (congrArg Prod.fst heq))
  have hnew : (pool, shard) ∉ map.toList := by
    rw [Std.ExtTreeMap.mem_toList_iff_getElem?_eq_some, hnone]
    exact nofun
  rw [List.perm_ext_iff_of_nodup (hnodup _) (List.nodup_cons.2 ⟨hnew, hnodup map⟩)]
  rintro ⟨other, s⟩
  rw [List.mem_cons, Std.ExtTreeMap.mem_toList_iff_getElem?_eq_some,
    Std.ExtTreeMap.mem_toList_iff_getElem?_eq_some, Std.ExtTreeMap.getElem?_insert]
  by_cases hpool : pool = other
  · subst hpool
    simp [hnone, eq_comm]
  · simp [hpool, Ne.symm hpool]

/-- A pool without a shard adds one to the load of the shard that it is given. -/
theorem load_assign (hnone : m.find? pool = none) (shard : UInt16) (s : Nat) :
    (m.assign pool shard).load s = m.load s + if shard.toNat = s then 1 else 0 := by
  rw [load, assign, (toList_insert_perm hnone).countP_eq, List.countP_cons]
  simp [load]

theorem loads_assign (hnone : m.find? pool = none) (shard : UInt16) :
    (m.assign pool shard).loads = m.loads.modify shard.toNat (· + 1) := by
  refine List.ext_getElem? fun s => ?_
  rw [List.getElem?_modify, getElem?_loads, getElem?_loads, count_assign, load_assign hnone]
  split
  · by_cases hs : shard.toNat = s <;> simp [hs]
  · rfl

/-! ### The least load -/

/-- The search ends at a position of the least number, if it has come to a position of the least
number so far. -/
theorem getElem?_firstLeast (front : List Nat) {numbers rest : List Nat} {position best : Nat}
    (hsplit : numbers = front ++ rest) (hbest : numbers[position]? = some best)
    (hfront : ∀ n ∈ front, best ≤ n) :
    ∃ least, numbers[firstLeast position best front.length rest]? = some least ∧
      ∀ n ∈ numbers, least ≤ n := by
  induction rest generalizing front position best with
  | nil => exact ⟨best, hbest, by simpa [hsplit] using hfront⟩
  | cons n rest ih =>
    have hsplit' : numbers = (front ++ [n]) ++ rest := by simpa using hsplit
    have hlength : (front ++ [n]).length = front.length + 1 := by simp
    rw [firstLeast, ← hlength]
    split
    next hlt =>
      refine ih (front ++ [n]) hsplit' (by simp [hsplit]) fun k hk => ?_
      rcases List.mem_append.1 hk with hk | hk
      · exact Nat.le_of_lt (Nat.lt_of_lt_of_le hlt (hfront k hk))
      · exact Nat.le_of_eq (List.mem_singleton.1 hk).symm
    next hge =>
      refine ih (front ++ [n]) hsplit' hbest fun k hk => ?_
      rcases List.mem_append.1 hk with hk | hk
      · exact hfront k hk
      · rw [List.mem_singleton.1 hk]
        exact Nat.not_lt.1 hge

/-- The first shard with the least of some loads. -/
def leastOf : List Nat → UInt16
  | [] => 0
  | first :: rest => UInt16.ofNat (firstLeast 0 first 1 rest)

theorem leastLoaded_eq (m : ShardMap) : m.leastLoaded = leastOf m.loads := rfl

/-- No shard has fewer pools than the least loaded one. -/
theorem load_leastLoaded_le (hpos : 0 < m.count) {s : Nat} (hs : s < m.count.toNat) :
    m.load m.leastLoaded.toNat ≤ m.load s := by
  have hleast := UInt16.lt_iff_toNat_lt.1 (leastLoaded_lt hpos)
  have hlength := m.length_loads
  cases hloads : m.loads with
  | nil =>
    rw [hloads, List.length_nil] at hlength
    omega
  | cons first rest =>
    rw [hloads, List.length_cons] at hlength
    have hfirst : firstLeast 0 first 1 rest < m.count.toNat :=
      firstLeast_lt 0 first (by omega) (by omega)
    have hposition : m.leastLoaded.toNat = firstLeast 0 first 1 rest := by
      have hsize := m.count.toNat_lt
      rw [leastLoaded_eq, hloads, leastOf,
        UInt16.toNat_ofNat_of_lt' (by simp only [UInt16.size]; omega)]
    obtain ⟨least, hat, hle⟩ : ∃ least, (first :: rest)[firstLeast 0 first 1 rest]? = some least ∧
        ∀ n ∈ first :: rest, least ≤ n :=
      getElem?_firstLeast [first] rfl rfl (by simp)
    rw [← hposition, ← hloads, getElem?_loads, if_pos hleast] at hat
    rw [Option.some.inj hat]
    refine hle _ ?_
    rw [← hloads]
    exact List.mem_map_of_mem (List.mem_range.2 hs)

/-! ### Batches -/

theorem assignMissing_cons_of_some (h : m.find? pool = some shard) (pools : List String) :
    m.assignMissing (pool :: pools) = m.assignMissing pools := by
  rw [assignMissing, h]

theorem assignMissing_cons_of_none (h : m.find? pool = none) (pools : List String) :
    m.assignMissing (pool :: pools) =
      (((m.assign pool m.leastLoaded).assignMissing pools).1,
        (pool, m.leastLoaded) :: ((m.assign pool m.leastLoaded).assignMissing pools).2) := by
  rw [assignMissing, h]

theorem spread_assign_leastLoaded_le (hpos : 0 < m.count) (hnone : m.find? pool = none) :
    (m.assign pool m.leastLoaded).spread ≤ max 1 m.spread := by
  rw [spread_le_iff, count_assign]
  intro s hs t ht
  have hold : m.load s ≤ m.load t + m.spread := spread_le_iff.1 (Nat.le_refl _) s hs t ht
  -- the shard that grows was no larger than `t`, so it comes out one above it at most
  have hleast := load_leastLoaded_le hpos ht
  rw [load_assign hnone, load_assign hnone]
  by_cases heq : m.leastLoaded.toNat = s
  · rw [heq] at hleast
    rw [if_pos heq]
    omega
  · rw [if_neg heq]
    omega

/-- A batch leaves a spread of one, or none larger than before. -/
theorem spread_assignMissing_le (hpos : 0 < m.count) (pools : List String) :
    (m.assignMissing pools).1.spread ≤ max 1 m.spread := by
  induction pools generalizing m with
  | nil => exact Nat.le_max_right _ _
  | cons pool pools ih =>
    cases hpool : m.find? pool with
    | some shard =>
      rw [assignMissing_cons_of_some hpool]
      exact ih hpos
    | none =>
      rw [assignMissing_cons_of_none hpool]
      have hstep := spread_assign_leastLoaded_le hpos hpool
      calc ((m.assign pool m.leastLoaded).assignMissing pools).1.spread
          ≤ max 1 (m.assign pool m.leastLoaded).spread := ih hpos
        _ ≤ max 1 m.spread := by omega

/-- The shards of a batch, where the loads are kept along it. -/
def assignCounting (m : ShardMap) (loads : List Nat) : List String →
    ShardMap × List (String × UInt16)
  | [] => (m, [])
  | pool :: pools =>
    match m.find? pool with
    | some _ => m.assignCounting loads pools
    | none =>
      let shard := leastOf loads
      let (m, added) :=
        (m.assign pool shard).assignCounting (loads.modify shard.toNat (· + 1)) pools
      (m, (pool, shard) :: added)

/-- Loads that are kept along a batch are the ones that would be counted. -/
theorem assignCounting_eq (m : ShardMap) (pools : List String) :
    m.assignCounting m.loads pools = m.assignMissing pools := by
  induction pools generalizing m with
  | nil => rfl
  | cons pool pools ih =>
    cases hpool : m.find? pool with
    | some shard => rw [assignCounting, hpool, assignMissing_cons_of_some hpool, ih]
    | none =>
      have hrest := ih (m.assign pool m.leastLoaded)
      rw [loads_assign hpool] at hrest
      rw [assignCounting, hpool, assignMissing_cons_of_none hpool, ← hrest]
      rfl

/-- The pools of the answer are those of the batch that had no shard, each where it stands first. -/
theorem map_fst_assignMissing (m : ShardMap) (pools : List String) :
    (m.assignMissing pools).2.map Prod.fst =
      (pools.filter fun pool => (m.find? pool).isNone).eraseDups := by
  induction pools generalizing m with
  | nil => rfl
  | cons pool pools ih =>
    cases hpool : m.find? pool with
    | some shard =>
      rw [assignMissing_cons_of_some hpool, ih, List.filter_cons_of_neg (by simp [hpool])]
    | none =>
      -- What is new to the rest of the batch is what was new before, without this pool.
      have hnew (other : String) : ((m.assign pool m.leastLoaded).find? other).isNone =
          (!other == pool && (m.find? other).isNone) := by
        rw [find?_assign]
        by_cases heq : pool = other
        · subst heq
          simp
        · simp [heq, Ne.symm heq]
      rw [assignMissing_cons_of_none hpool, List.map_cons, ih,
        List.filter_cons_of_pos (by simp [hpool]), List.eraseDups_cons, List.filter_filter]
      simp only [hnew]

/-- A pool keeps its shard. -/
theorem find?_assignMissing_of_eq_some (h : m.find? pool = some shard) (pools : List String) :
    (m.assignMissing pools).1.find? pool = some shard := by
  rw [find?_assignMissing, h, Option.some_or]

/-- The answer lists the shards that the pools have now. -/
theorem find?_of_mem_assignMissing {pools : List String}
    (h : (pool, shard) ∈ (m.assignMissing pools).2) :
    (m.assignMissing pools).1.find? pool = some shard := by
  induction pools generalizing m with
  | nil => cases h
  | cons other pools ih =>
    cases hother : m.find? other with
    | some shard =>
      rw [assignMissing_cons_of_some hother] at h ⊢
      exact ih h
    | none =>
      rw [assignMissing_cons_of_none hother] at h ⊢
      rcases List.mem_cons.1 h with heq | hmem
      · cases heq
        exact find?_assignMissing_of_eq_some (find?_assign_self ..) pools
      · exact ih hmem

/-- Exactly the pools of the batch have come to those with a shard. -/
theorem assigned_assignMissing_iff (m : ShardMap) (pools : List String) (pool : String) :
    (m.assignMissing pools).1.Assigned pool ↔ m.Assigned pool ∨ pool ∈ pools := by
  constructor
  · rintro ⟨shard, hshard⟩
    rw [find?_assignMissing, Option.or_eq_some_iff] at hshard
    rcases hshard with hold | ⟨-, hnew⟩
    · exact .inl ⟨shard, hold⟩
    · exact .inr (of_lookup_assignMissing hnew).1
  · rintro (⟨shard, hold⟩ | hmem)
    · exact ⟨shard, find?_assignMissing_of_eq_some hold pools⟩
    · exact m.assigned_assignMissing hmem

/-- What a batch of pools makes of the shards of pools, with the answer. -/
structure BatchAssigned (m : ShardMap) (batch : List String) (m' : ShardMap)
    (added : List (String × UInt16)) : Prop where
  count_eq : m'.count = m.count
  inRange : m'.InRange
  kept : ∀ pool shard, m.find? pool = some shard → m'.find? pool = some shard
  assigned_iff : ∀ pool, m'.Assigned pool ↔ m.Assigned pool ∨ pool ∈ batch
  pools_eq : added.map Prod.fst = (batch.filter fun pool => (m.find? pool).isNone).eraseDups
  shards : ∀ pool shard, (pool, shard) ∈ added → m'.find? pool = some shard
  spread_le : m'.spread ≤ max 1 m.spread

theorem InRange.batchAssigned (h : m.InRange) (batch : List String) :
    m.BatchAssigned batch (m.assignMissing batch).1 (m.assignMissing batch).2 where
  count_eq := m.count_assignMissing batch
  inRange := h.assignMissing batch
  kept _ _ hshard := find?_assignMissing_of_eq_some hshard batch
  assigned_iff := m.assigned_assignMissing_iff batch
  pools_eq := m.map_fst_assignMissing batch
  shards _ _ := find?_of_mem_assignMissing
  spread_le := spread_assignMissing_le h.pos batch

/-- The shards after some batches of pools. -/
def assignBatches (m : ShardMap) (batches : List (List String)) : ShardMap :=
  batches.foldl (fun m pools => (m.assignMissing pools).1) m

theorem InRange.assignBatches (h : m.InRange) (batches : List (List String)) :
    (m.assignBatches batches).InRange := by
  induction batches generalizing m with
  | nil => exact h
  | cons pools batches ih => exact ih (h.assignMissing pools)

@[simp] theorem count_assignBatches (m : ShardMap) (batches : List (List String)) :
    (m.assignBatches batches).count = m.count := by
  induction batches generalizing m with
  | nil => rfl
  | cons pools batches ih => exact (ih _).trans (m.count_assignMissing pools)

/-- Over any known shards and after any batches, all shards of pools exist, and a further batch
gives every pool of it a shard, changes no shard and assigns nothing else. It answers the pools
that are new, each once, in the order in which they stand first and with their shards. The loads
end up no further apart than they were, or by one, whether they are counted for each pool or kept
along the batch. -/
theorem batches_complete_stable_balanced (count : UInt16) (known : List (String × UInt16))
    (earlier : List (List String)) (batch : List String) :
    let m := (ofList count known).assignBatches earlier
    m.count = max count 1 ∧ m.InRange ∧
      m.BatchAssigned batch (m.assignMissing batch).1 (m.assignMissing batch).2 ∧
      m.assignCounting m.loads batch = m.assignMissing batch := by
  intro m
  have hrange : m.InRange := (inRange_ofList count known).assignBatches earlier
  exact ⟨count_assignBatches _ earlier, hrange, hrange.batchAssigned batch,
    m.assignCounting_eq batch⟩

example :
    let m := ofList 3 [("existing", 0)]
    (m.assignMissing ["a", "b", "existing", "c", "a"]).2 = [("a", 1), ("b", 2), ("c", 0)] := by
  decide +kernel

end ShardMap

end PoolKlines
