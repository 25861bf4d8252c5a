import PoolKlines.Json.Decode

/-!
# Resolutions

Time is divided into buckets at eight resolutions, each made of whole buckets of its parent.
Timestamps are seconds since the Unix epoch, and weeks are counted from the epoch.

* `Resolution.seconds`, `Resolution.parent?` and `Resolution.window`, the number of parent buckets
  in one bucket;
* `Resolution.start` is the start of the bucket that contains a timestamp.
-/

namespace PoolKlines

/-- The granularities of buckets. -/
inductive Resolution
  | min1
  | min5
  | min15
  | min30
  | hour1
  | hour4
  | day1
  | week1
  deriving DecidableEq

namespace Resolution

/-- All resolutions, finest first. -/
def all : List Resolution := [min1, min5, min15, min30, hour1, hour4, day1, week1]

/-- The name of a resolution. -/
def name : Resolution → String
  | min1 => "1m"
  | min5 => "5m"
  | min15 => "15m"
  | min30 => "30m"
  | hour1 => "1h"
  | hour4 => "4h"
  | day1 => "1d"
  | week1 => "1w"

/-- The resolution with a name. -/
def ofName? (name : String) : Option Resolution := all.find? (·.name = name)

/-- The length of a bucket. -/
def seconds : Resolution → Int
  | min1 => 60
  | min5 => 300
  | min15 => 900
  | min30 => 1800
  | hour1 => 3600
  | hour4 => 14400
  | day1 => 86400
  | week1 => 604800

/-- The resolution whose buckets make up one of this resolution. -/
def parent? : Resolution → Option Resolution
  | min1 => none
  | min5 => some min1
  | min15 => some min5
  | min30 => some min15
  | hour1 => some min30
  | hour4 => some hour1
  | day1 => some hour4
  | week1 => some day1

/-- The number of parent buckets in one bucket. -/
def window (r : Resolution) : Int :=
  match r.parent? with
  | some parent => r.seconds / parent.seconds
  | none => 1

/-- The start of the bucket that contains a timestamp. -/
def start (r : Resolution) (timestamp : Int) : Int := timestamp - timestamp % r.seconds

@[simp] theorem ofName?_name (r : Resolution) : ofName? r.name = some r := by
  cases r <;> rfl

@[simp] theorem mem_all (r : Resolution) : r ∈ all := by
  cases r <;> decide

theorem seconds_pos (r : Resolution) : 0 < r.seconds := by
  cases r <;> decide

theorem start_le (r : Resolution) (t : Int) : r.start t ≤ t := by
  have := Int.emod_nonneg t (Int.ne_of_gt r.seconds_pos)
  unfold start
  omega

theorem lt_start_add (r : Resolution) (t : Int) : t < r.start t + r.seconds := by
  have := Int.emod_lt_of_pos t r.seconds_pos
  unfold start
  omega

/-- Read a resolution, which is written as its name. -/
def ofJson? (j : Json) : Option Resolution := j.case?.bind ofName?

instance : Ord Resolution := ⟨compareOn Resolution.ctorIdx⟩

instance : Std.TransOrd Resolution := inferInstanceAs (Std.TransCmp (compareOn _))

instance : Std.LawfulEqOrd Resolution where
  compare_self {r} := by cases r <;> rfl
  eq_of_compare {r s} h := by revert h; cases r <;> cases s <;> decide

end Resolution

end PoolKlines
