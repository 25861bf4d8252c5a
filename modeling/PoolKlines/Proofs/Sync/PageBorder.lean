import PoolKlines.Proofs.Sync.Inversion

/-!
# Inversions across page borders

The rows of a pool are looked at page by page, and an inversion is seen only if both of its rows lie
on one page.

* `SeenInPage` says that the first inversion of some rows is seen when they are cut into pages;
* `seenInPage_append_iff`: a page that is in order and below the rest can be taken away;
* `seenInPage_of_inversion` and `not_seenInPage_of_lower`: what an inversion on the first page says,
  and what a lower row beyond it.
-/

namespace PoolKlines

/-- The first row that has a lower id after it has one on its own page, when rows are cut into pages
of some size. -/
def SeenInPage (size : Nat) (rows : List StoredTransaction) : Prop :=
  ∀ i lower, findInversion? rows = some (i, lower) →
    ∃ j, i < j ∧ j / size = i / size ∧ ∃ t ∈ rows[i]?, ∃ u ∈ rows[j]?, u.id < t.id

/-- No row of the first list has a higher id than one of the second. -/
def Below (before after : List StoredTransaction) : Prop :=
  ∀ t ∈ before, ∀ u ∈ after, t.id ≤ u.id

variable {size : Nat} {before after beyond : List StoredTransaction} {t u : StoredTransaction}

/-- Ids that do not decrease increase if they are distinct. -/
theorem pairwise_id_lt (hsorted : before.Pairwise fun t u => t.id ≤ u.id)
    (hids : (before.map (·.id)).Nodup) : before.Pairwise fun t u => t.id < u.id :=
  hsorted.imp₂ (fun _ _ => lt_of_le_of_ne) (List.pairwise_map.1 hids)

theorem lt_of_below (hids : ((before ++ after).map (·.id)).Nodup) (hbelow : Below before after) :
    ∀ t ∈ before, ∀ u ∈ after, t.id < u.id := by
  intro t ht u hu
  have hne := (List.pairwise_append.1 (List.pairwise_map.1 hids)).2.2 t ht u hu
  exact lt_of_le_of_ne (hbelow t ht u hu) hne

theorem below_nil_left : Below [] after := fun _ ht => absurd ht List.not_mem_nil

theorem below_nil_right : Below before [] := fun _ _ _ hu => absurd hu List.not_mem_nil

theorem Below.append (h : Below before after) (h' : Below before beyond) :
    Below before (after ++ beyond) := by
  intro t ht u hu
  rcases List.mem_append.1 hu with hu | hu
  · exact h t ht u hu
  · exact h' t ht u hu

theorem not_below_iff : ¬ Below before after ↔ ∃ t ∈ before, ∃ u ∈ after, u.id < t.id := by
  unfold Below
  push Not
  rfl

theorem seenInPage_of_none (h : findInversion? before = none) : SeenInPage size before := by
  intro i lower hsome
  rw [h] at hsome
  cases hsome

/-- Rows that are in order and below the rest have no lower id after them. -/
theorem id_le_of_below (hsorted : before.Pairwise fun t u => t.id ≤ u.id)
    (hbelow : Below before after) {i j : Nat} (hi : i < before.length) (hij : i < j)
    (ht : (before ++ after)[i]? = some t) (hu : (before ++ after)[j]? = some u) : t.id ≤ u.id := by
  rw [List.getElem?_append_left hi] at ht
  by_cases hj : j < before.length
  · rw [List.getElem?_append_left hj] at hu
    obtain ⟨-, rfl⟩ := List.getElem?_eq_some_iff.1 ht
    obtain ⟨-, rfl⟩ := List.getElem?_eq_some_iff.1 hu
    exact List.pairwise_iff_getElem.1 hsorted i j hi hj hij
  · rw [List.getElem?_append_right (not_lt.1 hj)] at hu
    exact hbelow t (List.mem_of_getElem? ht) u (List.mem_of_getElem? hu)

/-- Rows that are in order and below the rest only shift the first inversion. -/
theorem findInversion?_append (hsorted : before.Pairwise fun t u => t.id ≤ u.id)
    (hbelow : Below before after) :
    findInversion? (before ++ after) =
      (findInversion? after).map fun (position, lower) => (before.length + position, lower) := by
  induction before with
  | nil =>
    rw [List.nil_append]
    cases findInversion? after with
    | none => rfl
    | some inversion => simp only [Option.map_some, List.length_nil, Nat.zero_add]
  | cons t before ih =>
    obtain ⟨ht, hsorted⟩ := List.pairwise_cons.1 hsorted
    have hfirst : ¬ ∃ u ∈ before ++ after, u.id < t.id := by
      rintro ⟨u, hu, hlt⟩
      rcases List.mem_append.1 hu with hu | hu
      · exact absurd hlt (not_lt.2 (ht u hu))
      · exact absurd hlt (not_lt.2 (hbelow t List.mem_cons_self u hu))
    rw [List.cons_append, findInversion?_cons, if_neg hfirst,
      ih hsorted fun u hu => hbelow u (List.mem_cons_of_mem _ hu), Option.map_map]
    congr 1
    funext ⟨position, lower⟩
    simp only [Function.comp_apply, List.length_cons, Nat.add_right_comm]

/-- A page that is in order and below the rest can be taken away. -/
theorem seenInPage_append_iff (hsize : 1 ≤ size)
    (hsorted : before.Pairwise fun t u => t.id ≤ u.id) (hbelow : Below before after)
    (hlength : before.length = size) :
    SeenInPage size (before ++ after) ↔ SeenInPage size after := by
  have hshift (i : Nat) : (before ++ after)[size + i]? = after[i]? := by
    rw [List.getElem?_append_right (by omega), hlength, Nat.add_sub_cancel_left]
  have hpage (i : Nat) : (size + i) / size = i / size + 1 := Nat.add_div_left i hsize
  unfold SeenInPage
  rw [findInversion?_append hsorted hbelow, hlength]
  constructor
  · intro h i lower hi
    obtain ⟨j, hij, hsame, hlower⟩ := h (size + i) lower (by rw [hi]; rfl)
    obtain ⟨j, rfl⟩ := Nat.exists_eq_add_of_le (show size ≤ j by omega)
    rw [hpage, hpage] at hsame
    rw [hshift, hshift] at hlower
    exact ⟨j, by omega, by omega, hlower⟩
  · intro h i lower hi
    obtain ⟨⟨i, lower⟩, hafter, hpair⟩ := Option.map_eq_some_iff.1 hi
    obtain ⟨rfl, rfl⟩ := Prod.mk.inj hpair
    obtain ⟨j, hij, hsame, hlower⟩ := h i lower hafter
    refine ⟨size + j, by omega, ?_, ?_⟩
    · rw [hpage, hpage, hsame]
    · rw [hshift, hshift]
      exact hlower

/-- An inversion on the first page is seen, if no earlier row has a lower id beyond the page. -/
theorem seenInPage_of_inversion (hsorted : before.Pairwise fun t u => t.id ≤ u.id)
    (hbelow : Below before (t :: after ++ beyond)) (hu : u ∈ after) (hlt : u.id < t.id)
    (hlength : (before ++ t :: after).length ≤ size) :
    SeenInPage size (before ++ (t :: after ++ beyond)) := by
  intro i lower hsome
  rw [findInversion?_append hsorted hbelow, List.cons_append, findInversion?_cons,
    if_pos ⟨u, List.mem_append_left _ hu, hlt⟩] at hsome
  obtain ⟨rfl, -⟩ := Prod.mk.inj (Option.some.inj hsome)
  obtain ⟨k, hk⟩ := List.mem_iff_getElem?.1 hu
  have hkafter : k < after.length := (List.getElem?_eq_some_iff.1 hk).1
  rw [List.length_append, List.length_cons] at hlength
  refine ⟨before.length + (k + 1), by omega, ?_, t, ?_, u, ?_, hlt⟩
  · rw [Nat.div_eq_of_lt (by omega), Nat.div_eq_of_lt (by omega)]
  · rw [List.getElem?_append_right (by omega), Nat.add_sub_cancel_left]
    rfl
  · rw [List.getElem?_append_right (by omega), Nat.add_sub_cancel_left, List.cons_append,
      List.getElem?_cons_succ, List.getElem?_append_left hkafter]
    exact hk

/-- An inversion that reaches beyond the first page is not seen, if it begins where the page is
still in order. -/
theorem not_seenInPage_of_lower (hsorted : before.Pairwise fun t u => t.id ≤ u.id)
    (hbelow : Below before after) (hlength : (before ++ after).length = size) (ht : t ∈ before)
    (hu : u ∈ beyond) (hlt : u.id < t.id) : ¬ SeenInPage size (before ++ after ++ beyond) := by
  intro hseen
  obtain ⟨p, hp⟩ := List.mem_iff_getElem?.1 ht
  obtain ⟨q, hq⟩ := List.mem_iff_getElem?.1 hu
  have hpbefore : p < before.length := (List.getElem?_eq_some_iff.1 hp).1
  have hptotal : (before ++ after ++ beyond)[p]? = some t := by
    rw [List.append_assoc, List.getElem?_append_left hpbefore]
    exact hp
  have hqtotal : (before ++ after ++ beyond)[size + q]? = some u := by
    rw [List.getElem?_append_right (by omega), hlength, Nat.add_sub_cancel_left]
    exact hq
  rw [List.length_append] at hlength
  cases hinversion : findInversion? (before ++ after ++ beyond) with
  | none =>
    have hall := findInversion?_eq_none_iff.1 hinversion
    have hle := (List.pairwise_append.1 hall).2.2 t (List.mem_append_left _ ht) u hu
    exact absurd hlt (not_lt.2 hle)
  | some inversion =>
    obtain ⟨i, lower⟩ := inversion
    -- the first inversion is not after `t`, and so where the page is still in order
    have hip : i ≤ p := by
      by_contra hpi
      obtain ⟨first, v, rest, hrows, hfirst, hfirstSorted, hfirstBelow, -⟩ :=
        findInversion?_eq_some_iff.1 hinversion
      rw [hrows] at hptotal hqtotal
      have hle := id_le_of_below hfirstSorted hfirstBelow (by omega) (by omega) hptotal hqtotal
      exact absurd hlt (not_lt.2 hle)
    obtain ⟨j, hij, hsame, v, hv, w, hw, hlower⟩ := hseen i lower hinversion
    rw [Nat.div_eq_of_lt (show i < size by omega)] at hsame
    have hj : j < size := by
      rcases Nat.div_eq_zero_iff.1 hsame with hzero | hj
      · omega
      · exact hj
    rw [List.getElem?_append_left (by rw [List.length_append]; omega)] at hv hw
    have hle := id_le_of_below hsorted hbelow (by omega) hij hv hw
    exact absurd hlower (not_lt.2 hle)

end PoolKlines
