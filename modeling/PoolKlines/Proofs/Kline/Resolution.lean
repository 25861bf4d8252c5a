import Mathlib.Algebra.Order.Group.Int
import PoolKlines.Kline.Resolution

/-!
# Starts of buckets

The buckets of a resolution tile time: their starts are the multiples of its length, and each
timestamp lies in one of them. The buckets of the parent resolution tile each bucket.

* `IsTime` says that a time fits into 64 bits;
* `seconds_dvd_start` and `le_start_of_dvd`: the start is the last multiple of the length before a
  time;
* `start_mono`: starts follow the order of timestamps;
* `parent_seconds_dvd`, `start_le_start_of_parent` and `start_lt_finish_of_parent`: the parent
  bucket of a timestamp lies in the bucket of the timestamp;
* `start_eq_of_mem`: the span of a bucket determines it;
* `Tiles` says all of this of the bucket of a timestamp and of its parent bucket, and `tiles` that
  it holds of every timestamp;
* `parent_induction`: what goes from each parent to the coarser resolution holds of all.
-/

namespace PoolKlines

/-- A time that fits into 64 bits. -/
def IsTime (time : Int) : Prop := ∃ n : Int64, n.toInt = time

/-- What lies between two times that fit into 64 bits fits as well. -/
theorem IsTime.between {first time last : Int} (hfirst : IsTime first) (hlast : IsTime last)
    (hle : first ≤ time) (hle' : time ≤ last) : IsTime time := by
  obtain ⟨m, rfl⟩ := hfirst
  obtain ⟨n, rfl⟩ := hlast
  have hm := m.le_toInt
  have hn := n.toInt_lt
  exact ⟨Int64.ofInt time, Int64.toInt_ofInt_of_le (by omega) (by omega)⟩

end PoolKlines

namespace PoolKlines.Resolution

variable {r p : Resolution}

theorem seconds_dvd_start (r : Resolution) (t : Int) : r.seconds ∣ r.start t :=
  Int.dvd_self_sub_emod

/-- Multiples of a number lie at least that number apart. -/
theorem add_le_of_dvd {a b s : Int} (ha : s ∣ a) (hb : s ∣ b) (h : a < b) : a + s ≤ b := by
  have hle := Int.le_of_dvd (by omega) (Int.dvd_sub hb ha)
  omega

theorem le_start_of_dvd {t a : Int} (ha : r.seconds ∣ a) (hle : a ≤ t) : a ≤ r.start t := by
  by_contra h
  have := add_le_of_dvd (r.seconds_dvd_start t) ha (by omega)
  have := r.lt_start_add t
  omega

theorem start_mono (r : Resolution) {t u : Int} (h : t ≤ u) : r.start t ≤ r.start u :=
  le_start_of_dvd (r.seconds_dvd_start t) ((r.start_le t).trans h)

theorem parent_seconds_dvd (h : r.parent? = some p) : p.seconds ∣ r.seconds := by
  cases r <;> cases h <;> decide

theorem window_mul_parent_seconds (h : r.parent? = some p) :
    r.window * p.seconds = r.seconds := by
  cases r <;> cases h <;> decide

theorem window_pos (r : Resolution) : 0 < r.window := by
  cases r <;> decide

theorem window_le (r : Resolution) : r.window ≤ 7 := by
  cases r <;> decide

theorem start_le_start_of_parent (h : r.parent? = some p) (t : Int) : r.start t ≤ p.start t :=
  le_start_of_dvd (Int.dvd_trans (parent_seconds_dvd h) (r.seconds_dvd_start t)) (r.start_le t)

theorem start_lt_finish_of_parent (p r : Resolution) (t : Int) :
    p.start t < r.start t + r.seconds :=
  (p.start_le t).trans_lt (r.lt_start_add t)

theorem parent_ne (h : r.parent? = some p) : p ≠ r := by
  cases r <;> cases h <;> decide

theorem parent_seconds_lt (h : r.parent? = some p) : p.seconds < r.seconds := by
  cases r <;> cases h <;> decide

theorem start_eq_of_mem {t a : Int} (ha : r.seconds ∣ a) (hle : a ≤ t) (hlt : t < a + r.seconds) :
    r.start t = a := by
  refine le_antisymm ?_ (le_start_of_dvd ha hle)
  by_contra h
  have := add_le_of_dvd ha (r.seconds_dvd_start t) (by omega)
  have := r.start_le t
  omega

/-- A resolution with shorter buckets divides the buckets of one with longer ones. -/
theorem seconds_dvd_of_lt {q : Resolution} (h : q.seconds < r.seconds) : q.seconds ∣ r.seconds := by
  revert h
  cases q <;> cases r <;> decide

theorem min1_seconds_lt (h : r.parent? = some p) : min1.seconds < r.seconds := by
  cases r <;> cases h <;> decide

/-- A bucket of a finer resolution that starts in the span of a bucket lies in it. -/
theorem start_eq_of_finer {q : Resolution} (hq : q.seconds ∣ r.seconds) {t a : Int}
    (ha : r.seconds ∣ a) (hle : a ≤ q.start t) (hlt : q.start t < a + r.seconds) :
    r.start t = a := by
  have hfinish := add_le_of_dvd (q.seconds_dvd_start t)
    (Int.dvd_add (Int.dvd_trans hq ha) hq) hlt
  exact start_eq_of_mem ha (hle.trans (q.start_le t)) ((q.lt_start_add t).trans_le hfinish)

/-- What holds of the finest resolution, and of each resolution if of its parent, holds of all. -/
theorem parent_induction {P : Resolution → Prop} (finest : P min1)
    (coarser : ∀ r p : Resolution, r.parent? = some p → P p → P r) (r : Resolution) : P r := by
  have h5 := coarser min5 min1 rfl finest
  have h15 := coarser min15 min5 rfl h5
  have h30 := coarser min30 min15 rfl h15
  have hour := coarser hour1 min30 rfl h30
  have hours := coarser hour4 hour1 rfl hour
  have day := coarser day1 hour4 rfl hours
  cases r
  case week1 => exact coarser week1 day1 rfl day
  all_goals assumption

theorem seconds_le_week1 (r : Resolution) : r.seconds ≤ week1.seconds := by
  cases r <;> decide

/-- The buckets of a resolution tile time around a timestamp, and the parent bucket of the timestamp
lies in its bucket. -/
structure Tiles (r : Resolution) (t : Int) : Prop where
  seconds_dvd_start : r.seconds ∣ r.start t
  start_le : r.start t ≤ t
  lt_finish : t < r.start t + r.seconds
  /-- No other bucket has the timestamp in its span. -/
  eq_start : ∀ a, r.seconds ∣ a → a ≤ t → t < a + r.seconds → a = r.start t
  start_parent : ∀ p, r.parent? = some p → r.start (p.start t) = r.start t
  parent_inside : ∀ p, r.parent? = some p →
    r.start t ≤ p.start t ∧ p.start t + p.seconds ≤ r.start t + r.seconds
  /-- A week away from the limits of 64 bits, both ends of the bucket are within these. -/
  isTime : IsTime (t - week1.seconds) → IsTime (t + week1.seconds) →
    IsTime (r.start t) ∧ IsTime (r.start t + r.seconds)

theorem tiles (r : Resolution) (t : Int) : r.Tiles t where
  seconds_dvd_start := r.seconds_dvd_start t
  start_le := r.start_le t
  lt_finish := r.lt_start_add t
  eq_start _ ha hle hlt := (start_eq_of_mem ha hle hlt).symm
  start_parent p hp :=
    start_eq_of_mem (r.seconds_dvd_start t) (start_le_start_of_parent hp t)
      (start_lt_finish_of_parent p r t)
  parent_inside p hp := by
    have hfinish : p.seconds ∣ r.start t + r.seconds :=
      Int.dvd_add (Int.dvd_trans (parent_seconds_dvd hp) (r.seconds_dvd_start t))
        (parent_seconds_dvd hp)
    exact ⟨start_le_start_of_parent hp t,
      add_le_of_dvd (p.seconds_dvd_start t) hfinish (start_lt_finish_of_parent p r t)⟩
  isTime hfirst hlast := by
    have hstart := r.start_le t
    have hfinish := r.lt_start_add t
    have hseconds := r.seconds_le_week1
    have hpos := r.seconds_pos
    exact ⟨hfirst.between hlast (by omega) (by omega), hfirst.between hlast (by omega) (by omega)⟩

end PoolKlines.Resolution
