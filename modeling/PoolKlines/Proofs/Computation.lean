/-!
# Computations that may fail

* Equations for computations on a state: what a sequence of two does when it is known how the first
  one ends.
* `Correspond` relates two computations that end alike. It is carried through both step by step, so
  that two runs of a program are compared along its text.
-/

namespace PoolKlines

variable {ε ε' σ τ α α' β β' : Type}

theorem bind_of_ok {x : EStateM ε σ α} {s t : σ} {a : α} (h : x s = .ok a t)
    (f : α → EStateM ε σ β) : (x >>= f) s = f a t := by
  simp only [bind, EStateM.bind, h]

theorem bind_of_error {x : EStateM ε σ α} {s t : σ} {e : ε} (h : x s = .error e t)
    (f : α → EStateM ε σ β) : (x >>= f) s = .error e t := by
  simp only [bind, EStateM.bind, h]

theorem adaptExcept_of_ok {x : EStateM ε σ α} {s t : σ} {a : α} (h : x s = .ok a t)
    (f : ε → ε') : EStateM.adaptExcept f x s = .ok a t := by
  simp only [EStateM.adaptExcept, h]

theorem adaptExcept_of_error {x : EStateM ε σ α} {s t : σ} {e : ε} (h : x s = .error e t)
    (f : ε → ε') : EStateM.adaptExcept f x s = .error (f e) t := by
  simp only [EStateM.adaptExcept, h]

theorem exists_of_adaptExcept_error {x : EStateM ε σ α} {s t : σ} {f : ε → ε'} {e : ε'}
    (h : EStateM.adaptExcept f x s = .error e t) : ∃ cause, x s = .error cause t ∧ e = f cause := by
  cases hx : x s with
  | error cause u =>
    rw [adaptExcept_of_error hx] at h
    cases h
    exact ⟨cause, rfl, rfl⟩
  | ok a u =>
    rw [adaptExcept_of_ok hx] at h
    cases h

theorem map_eq_ok {x : Except ε α} {f : α → β} {b : β} :
    x.map f = .ok b ↔ ∃ a, x = .ok a ∧ f a = b := by
  cases x <;> simp [Except.map]

theorem mapError_eq_ok {x : Except ε α} {f : ε → ε'} {a : α} :
    x.mapError f = .ok a ↔ x = .ok a := by
  cases x with
  | error e => exact iff_of_false nofun nofun
  | ok b =>
    constructor
    · rintro ⟨⟩
      rfl
    · rintro ⟨⟩
      rfl

theorem bind_eq_ok {x : Except ε α} {f : α → Except ε β} {b : β} :
    (x >>= f) = .ok b ↔ ∃ a, x = .ok a ∧ f a = .ok b := by
  cases x <;> simp [bind, Except.bind]

/-- A computation behind a check succeeds only if the check lets it. -/
theorem check_eq_ok {c : Prop} [Decidable c] {e : ε} {f : PUnit → Except ε α} {x : Except ε α}
    {a : α} :
    (if c then (throw e : Except ε PUnit) >>= f else x) = .ok a ↔ ¬c ∧ x = .ok a := by
  split
  next hc =>
    simp only [hc, not_true_eq_false, false_and, iff_false]
    rintro ⟨⟩
  next hc => simp only [hc, not_false_eq_true, true_and]

/-- Two computations either both succeed or both fail, with values or errors that correspond. -/
inductive Correspond (E : ε → ε' → Prop) (R : α → α' → Prop) : Except ε α → Except ε' α' → Prop
  | ok {a : α} {a' : α'} (h : R a a') : Correspond E R (.ok a) (.ok a')
  | error {e : ε} {e' : ε'} (h : E e e') : Correspond E R (.error e) (.error e')

namespace Correspond

section Bind

variable {E : ε → ε' → Prop} {R : α → α' → Prop} {S : β → β' → Prop}

theorem bind {x : Except ε α} {y : Except ε' α'} {f : α → Except ε β} {g : α' → Except ε' β'}
    (hxy : Correspond E R x y) (hfg : ∀ a a', R a a' → Correspond E S (f a) (g a')) :
    Correspond E S (x >>= f) (y >>= g) := by
  cases hxy with
  | ok h => exact hfg _ _ h
  | error h => exact .error h

end Bind

variable {E : ε → ε → Prop} {R : α → α' → Prop}

theorem refl (hE : ∀ e, E e e) (x : Except ε α) : Correspond E (· = ·) x x := by
  cases x with
  | ok a => exact .ok rfl
  | error e => exact .error (hE e)

/-- A first step in common makes no difference. -/
theorem bind_same (hE : ∀ e, E e e) {x : Except ε β} {f : β → Except ε α} {g : β → Except ε α'}
    (h : ∀ b, Correspond E R (f b) (g b)) : Correspond E R (x >>= f) (x >>= g) :=
  (refl hE x).bind fun b _ hb => hb ▸ h b

/-- A check in common makes no difference. -/
theorem check (hE : ∀ e, E e e) {c : Prop} [Decidable c] {e : ε} {f : PUnit → Except ε α}
    {g : PUnit → Except ε α'} {x : Except ε α} {y : Except ε α'} (h : ¬c → Correspond E R x y) :
    Correspond E R (if c then (throw e : Except ε PUnit) >>= f else x)
      (if c then (throw e : Except ε PUnit) >>= g else y) := by
  by_cases hc : c
  · rw [if_pos hc, if_pos hc]
    exact .error (hE e)
  · rw [if_neg hc, if_neg hc]
    exact h hc

/-- Computations with the same errors correspond by a function if it maps one to the other. -/
theorem eq_map {f : α → α'} {x : Except ε α} {y : Except ε α'}
    (h : Correspond (· = ·) (fun a a' => f a = a') x y) : x.map f = y := by
  cases h with
  | ok h => exact congrArg Except.ok h
  | error h => exact congrArg Except.error h

end Correspond

/-- Steps all of which succeed yield all their values. -/
theorem mapM_of_ok {as : List α} {f : α → Except ε β} {g : α → β}
    (h : ∀ a ∈ as, f a = .ok (g a)) : as.mapM f = .ok (as.map g) := by
  induction as with
  | nil => rfl
  | cons a as ih =>
    obtain ⟨ha, hrest⟩ := List.forall_mem_cons.1 h
    rw [List.mapM_cons, ha, ih hrest]
    rfl

/-- Steps that succeed are those whose outcomes are all values. -/
theorem mapM_eq_ok {as : List α} {f : α → Except ε β} {bs : List β} :
    as.mapM f = .ok bs ↔ as.map f = bs.map .ok := by
  induction as generalizing bs with
  | nil =>
    cases bs with
    | nil => exact iff_of_true rfl rfl
    | cons b bs => exact iff_of_false (by rintro ⟨⟩) (by simp)
  | cons a as ih =>
    rw [List.mapM_cons, bind_eq_ok]
    constructor
    · rintro ⟨b, hb, h⟩
      obtain ⟨rest, hrest, h⟩ := bind_eq_ok.1 h
      cases h
      rw [List.map_cons, List.map_cons, hb, ih.1 hrest]
    · intro h
      cases bs with
      | nil => simp at h
      | cons b bs =>
        obtain ⟨hb, hrest⟩ := List.cons.inj h
        exact ⟨b, hb, bind_eq_ok.2 ⟨bs, ih.2 hrest, rfl⟩⟩

theorem toOption_eq_some {x : Except ε α} {a : α} : x.toOption = some a ↔ x = .ok a := by
  cases x <;> simp [Except.toOption]

theorem toOption_join_eq_some {x : Except ε (Option α)} {a : α} :
    x.toOption.join = some a ↔ x = .ok (some a) := by
  rw [Option.join_eq_some_iff, toOption_eq_some]

/-- The error of a computation that failed. -/
def errorOf? : Except ε α → Option ε
  | .error e => some e
  | .ok _ => none

theorem errorOf?_eq_some {x : Except ε α} {e : ε} : errorOf? x = some e ↔ x = .error e := by
  cases x <;> simp [errorOf?]

/-- Steps that all succeed leave out nothing where failing steps would be left out. -/
theorem filterMap_toOption_of_mapM {as : List α} {f : α → Except ε β} {bs : List β}
    (h : as.mapM f = .ok bs) : as.filterMap (fun a => (f a).toOption) = bs := by
  calc
    as.filterMap (fun a => (f a).toOption) = (as.map f).filterMap Except.toOption := by
      rw [List.filterMap_map]
      rfl
    _ = (bs.map (Except.ok : β → Except ε β)).filterMap Except.toOption := by rw [mapM_eq_ok.1 h]
    _ = bs := by
      rw [List.filterMap_map]
      exact List.filterMap_some

theorem throw_ne_ok (e : ε) (a : α) : (throw e : Except ε α) ≠ .ok a := by
  rintro ⟨⟩

/-- Steps none of which fails carry out a fold. -/
theorem forM_eq_foldl {as : List α} {f : α → EStateM ε σ Unit} {step : β → α → β} {g : β → σ}
    (h : ∀ a ∈ as, ∀ b, f a (g b) = .ok () (g (step b a))) (b : β) :
    as.forM f (g b) = .ok () (g (as.foldl step b)) := by
  induction as generalizing b with
  | nil => rfl
  | cons a as ih =>
    obtain ⟨ha, hrest⟩ := List.forall_mem_cons.1 h
    exact (bind_of_ok (ha b) _).trans (ih hrest (step b a))

/-- A step at which a sequence of steps fails is one of the steps. -/
theorem exists_of_forM_error {as : List α} {f : α → EStateM ε σ Unit} {s t : σ} {e : ε}
    (h : as.forM f s = .error e t) : ∃ a ∈ as, ∃ u, f a u = .error e t := by
  induction as generalizing s with
  | nil => cases h
  | cons a as ih =>
    cases hstep : f a s with
    | error e' t' =>
      have hall : (a :: as).forM f s = .error e' t' := bind_of_error hstep _
      rw [h] at hall
      cases hall
      exact ⟨a, List.mem_cons_self, s, hstep⟩
    | ok u t' =>
      have hall : (a :: as).forM f s = as.forM f t' := bind_of_ok hstep _
      rw [h] at hall
      obtain ⟨b, hb, v, hv⟩ := ih hall.symm
      exact ⟨b, List.mem_cons_of_mem _ hb, v, hv⟩

/-- The state in which a computation ends, whether it fails or not. -/
def lastState : EStateM.Result ε σ α → σ
  | .ok _ s => s
  | .error _ s => s

/-- What every step preserves is preserved by all of them in turn. -/
theorem forM_preserves {as : List α} {f : α → EStateM ε σ Unit} {P : σ → Prop}
    (h : ∀ a ∈ as, ∀ s, P s → P (lastState (f a s))) {s : σ} (hs : P s) :
    P (lastState (as.forM f s)) := by
  induction as generalizing s with
  | nil => exact hs
  | cons a as ih =>
    obtain ⟨ha, hrest⟩ := List.forall_mem_cons.1 h
    have hstep := ha s hs
    cases hf : f a s with
    | error e t =>
      rw [hf] at hstep
      have hall : (a :: as).forM f s = .error e t := bind_of_error hf _
      rw [hall]
      exact hstep
    | ok u t =>
      rw [hf] at hstep
      have hall : (a :: as).forM f s = as.forM f t := bind_of_ok hf _
      rw [hall]
      exact ih hrest hstep

/-- The same result on another state. -/
def mapState (e : σ → τ) : EStateM.Result ε σ α → EStateM.Result ε τ α
  | .ok a s => .ok a (e s)
  | .error fault s => .error fault (e s)

/-- If every step does the same on the image of a state, then so do all of them in turn. -/
theorem forM_mapState {as : List α} {f : α → EStateM ε σ Unit} {g : α → EStateM ε τ Unit}
    {e : σ → τ} (h : ∀ a s, g a (e s) = mapState e (f a s)) (s : σ) :
    as.forM g (e s) = mapState e (as.forM f s) := by
  induction as generalizing s with
  | nil => rfl
  | cons a as ih =>
    have hstep := h a s
    cases hf : f a s with
    | error fault t =>
      rw [hf] at hstep
      exact (bind_of_error hstep _).trans (congrArg (mapState e) (bind_of_error hf _)).symm
    | ok u t =>
      rw [hf] at hstep
      have hrest : (a :: as).forM f s = as.forM f t := bind_of_ok hf _
      rw [hrest]
      exact (bind_of_ok hstep _).trans (ih t)

end PoolKlines
