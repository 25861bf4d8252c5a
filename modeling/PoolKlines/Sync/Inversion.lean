import PoolKlines.Transaction.Basic

/-!
# Inversions

A page holds an inversion where a transaction comes before one with a lower id. To apply the former
would move the cursor past the latter.

* `lowestAfter` lists, for every row of a page, the lowest id after it;
* `findInversion?` finds the first row that has a lower id after it.
-/

namespace PoolKlines

/-- The largest id. -/
def largestId : UInt64 := UInt64.ofNat (UInt64.size - 1)

/-- The lowest of some ids, the largest id if there are none. -/
def lowestId (ids : List UInt64) : UInt64 := ids.foldr min largestId

/-- For every id, the lowest of the ids after it. -/
def lowestAfter : List UInt64 → List UInt64
  | [] => []
  | _ :: rest => lowestId rest :: lowestAfter rest

/-- The first row whose id exceeds an id after it: its position, and the lowest id after it. -/
def findInversion? (page : List StoredTransaction) : Option (Nat × UInt64) :=
  let ids := page.map (·.id)
  ((ids.zip (lowestAfter ids)).zipIdx.find? fun ((id, lower), _) => lower < id).map
    fun ((_, lower), position) => (position, lower)

@[simp] theorem length_lowestAfter (ids : List UInt64) :
    (lowestAfter ids).length = ids.length := by
  induction ids with
  | nil => rfl
  | cons id rest ih => simp [lowestAfter, ih]

@[simp] theorem findInversion?_nil : findInversion? [] = none := rfl

end PoolKlines
