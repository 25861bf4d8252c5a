import Mathlib.Data.List.Nodup
import Mathlib.Data.List.Pairwise
import Mathlib.Data.List.Sort

/-!
# Lists in order

* `UInt64` is linearly ordered;
* `eq_of_sorted`: a list in the strict order of a key is determined by its members;
* `le_getLast_of_sorted`: no member has a larger key than the last one;
* `getElem?_eq_of_least`: the least member above a bound stands behind the members up to the bound;
* `pairwise_zipIdx`: the numbers of the members ascend;
* `find?_reverse_eq_some_iff`: a search from the end finds the last member.
-/

namespace PoolKlines

instance linearOrderUInt64 : LinearOrder UInt64 where
  le_refl := UInt64.le_refl
  le_trans _ _ _ := UInt64.le_trans
  le_antisymm _ _ := UInt64.le_antisymm
  le_total := UInt64.le_total
  lt_iff_le_not_ge a b := by
    simp only [UInt64.lt_iff_toNat_lt, UInt64.le_iff_toNat_le]
    omega
  toDecidableLE := inferInstance

variable {α ι : Type} {f : α → ι} {l m : List α}

/-- A list in the strict order of a key is determined by its members. -/
theorem eq_of_sorted [Preorder ι] (hl : l.Pairwise fun a b => f a < f b)
    (hm : m.Pairwise fun a b => f a < f b) (h : ∀ a, a ∈ l ↔ a ∈ m) : l = m := by
  have nodup : ∀ {k : List α}, k.Pairwise (fun a b => f a < f b) → k.Nodup := fun hk =>
    hk.imp fun {a b} hab he => by
      subst he
      exact lt_irrefl _ hab
  have hperm : l.Perm m := (List.perm_ext_iff_of_nodup (nodup hl) (nodup hm)).2 h
  exact hperm.eq_of_pairwise (fun _ _ _ _ h₁ h₂ => absurd h₁ (lt_asymm h₂)) hl hm

/-- No member has a larger key than the last one. -/
theorem le_getLast_of_sorted [Preorder ι] (hl : l.Pairwise fun a b => f a < f b) {a : α}
    (ha : a ∈ l) : f a ≤ f (l.getLast (List.ne_nil_of_mem ha)) := by
  have hle : l.Pairwise fun a b => f a ≤ f b := hl.imp le_of_lt
  exact hle.rel_getLast_of_rel_getLast_getLast ha le_rfl

/-- The least member above a bound stands behind the members up to the bound. -/
theorem getElem?_eq_of_least [LinearOrder ι] (hl : l.Pairwise fun a b => f a < f b) {bound : ι}
    {k : Nat} (hk : ∀ i b, l[i]? = some b → (f b ≤ bound ↔ i < k)) {a : α} (ha : a ∈ l)
    (habove : bound < f a) (hleast : ∀ b ∈ l, bound < f b → f a ≤ f b) : l[k]? = some a := by
  obtain ⟨i, hi, rfl⟩ := List.mem_iff_getElem.1 ha
  have hki : k ≤ i := by
    by_contra hlt
    exact absurd ((hk i _ (List.getElem?_eq_getElem hi)).2 (by omega)) (not_le.2 habove)
  rcases hki.lt_or_eq with hlt | rfl
  · -- the member at `k` would be above the bound and yet smaller
    have hkl : k < l.length := by omega
    have hsmaller := List.pairwise_iff_getElem.1 hl k i hkl hi hlt
    have hkabove : bound < f l[k] := by
      rw [← not_le, hk k _ (List.getElem?_eq_getElem hkl)]
      exact lt_irrefl k
    exact absurd hsmaller (not_lt.2 (hleast _ (List.getElem_mem hkl) hkabove))
  · exact List.getElem?_eq_getElem hi

/-- The numbers of the members ascend. -/
theorem pairwise_zipIdx (l : List α) : l.zipIdx.Pairwise fun x y => x.2 < y.2 := by
  rw [← List.pairwise_map, List.zipIdx_map_snd]
  exact List.pairwise_lt_range'

/-- A search from the end finds the last member with a property. -/
theorem find?_reverse_eq_some_iff {p : α → Bool} {a : α} :
    l.reverse.find? p = some a ↔
      ∃ before after, l = before ++ a :: after ∧ p a ∧ ∀ later ∈ after, ¬ p later := by
  rw [List.find?_eq_some_iff_append]
  constructor
  · rintro ⟨ha, after, before, hl, hafter⟩
    refine ⟨before.reverse, after.reverse, ?_, ha, by simpa using hafter⟩
    rw [← List.reverse_reverse l, hl]
    simp
  · rintro ⟨before, after, rfl, ha, hafter⟩
    exact ⟨ha, after.reverse, before.reverse, by simp, by simpa using hafter⟩

end PoolKlines
