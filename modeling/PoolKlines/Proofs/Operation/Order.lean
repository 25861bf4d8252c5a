import PoolKlines.Operation.Decode
import PoolKlines.Proofs.Sorted

/-!
# The order of execution

The instructions of a transaction are executed one after the other, each top-level one in front of
its inner ones.

* `InstructionLocation.Before` is this order of places, and `Transaction.instructionAt?` what stands
  at a place;
* `Transaction.mem_located` and `Transaction.pairwise_located`: `Transaction.located` lists all
  instructions in this order;
* `InstructionLocation.seq_lt_seq`, `Transaction.pairwise_seq_located`: the numbers of places whose
  positions fit into 16 bits are in this order too.
-/

namespace PoolKlines

namespace InstructionLocation

/-- The instruction at a place is executed before the one at another. -/
def Before (l m : InstructionLocation) : Prop :=
  l.outer < m.outer ∨ l.outer = m.outer ∧ l.nextInner < m.nextInner

/-- The number of a place, if neither of its positions is too long. -/
theorem toNat_seq {l : InstructionLocation} (houter : l.outer < 65536)
    (hinner : l.nextInner < 65536) : l.seq.toNat = l.outer * 65536 + l.nextInner := by
  have hshift : (UInt32.ofNat l.outer <<< 16).toNat = l.outer * 65536 := by
    have hword : (UInt32.ofNat l.outer).toNat = l.outer :=
      UInt32.toNat_ofNat_of_lt' (Nat.lt_trans houter (by decide))
    rw [UInt32.toNat_shiftLeft, hword, Nat.shiftLeft_eq]
    exact Nat.mod_eq_of_lt (Nat.mul_lt_mul_of_pos_right houter (by decide))
  obtain ⟨outer, inner⟩ := l
  cases inner with
  | none => simpa only [seq, nextInner, Nat.add_zero] using hshift
  | some position =>
    have hword : (UInt32.ofNat (position + 1)).toNat = position + 1 :=
      UInt32.toNat_ofNat_of_lt' (Nat.lt_trans hinner (by decide))
    have hor := Nat.shiftLeft_add_eq_or_of_lt (i := 16) hinner outer
    rw [Nat.shiftLeft_eq] at hor
    calc
      (seq ⟨outer, some position⟩).toNat = outer * 65536 ||| (position + 1) := by
        simp only [seq, UInt32.toNat_or, hshift, hword]
      _ = outer * 65536 + (position + 1) := hor.symm

/-- An instruction that is executed earlier has a smaller number. -/
theorem seq_lt_seq {l m : InstructionLocation} (hlm : l.Before m) (hl : l.nextInner < 65536)
    (houter : m.outer < 65536) (hm : m.nextInner < 65536) : l.seq < m.seq := by
  have hle : l.outer ≤ m.outer := by
    obtain h | ⟨h, -⟩ := hlm <;> omega
  rw [UInt32.lt_iff_toNat_lt, toNat_seq (Nat.lt_of_le_of_lt hle houter) hl, toNat_seq houter hm]
  obtain h | ⟨h, h'⟩ := hlm <;> omega

end InstructionLocation

namespace Transaction

/-- The inner instructions of the top-level instruction at a position. -/
def innerInstructions (t : Transaction) (outer : Nat) : List Instruction :=
  match t.innerGroup? outer with
  | none => []
  | some group => group.instructions

/-- The instruction at a place. Inner instructions without a top-level one have none. -/
def instructionAt? (t : Transaction) (l : InstructionLocation) : Option Instruction :=
  match l.inner with
  | none => t.instructions[l.outer]?
  | some position =>
    if l.outer < t.instructions.length then (t.innerInstructions l.outer)[position]? else none

variable (t : Transaction)

/-- All instructions, the inner ones behind their top-level one. -/
theorem located_eq : t.located = t.instructions.zipIdx.flatMap fun x =>
    (⟨x.2, none⟩, x.1) ::
      (t.innerInstructions x.2).zipIdx.map fun y => (⟨x.2, some y.2⟩, y.1) := by
  unfold located innerInstructions
  congr 1
  funext ⟨instruction, outer⟩
  dsimp only
  cases t.innerGroup? outer <;> rfl

/-- Just the instructions are listed, each at its place. -/
theorem mem_located {l : InstructionLocation} {i : Instruction} :
    (l, i) ∈ t.located ↔ t.instructionAt? l = some i := by
  obtain ⟨outer, inner⟩ := l
  simp only [located_eq, List.mem_flatMap, List.mem_cons, List.mem_map, Prod.exists,
    List.mk_mem_zipIdx_iff_getElem?, Prod.mk.injEq, InstructionLocation.mk.injEq]
  cases inner with
  | none =>
    constructor
    · rintro ⟨j, _, hj, ⟨⟨rfl, -⟩, rfl⟩ | ⟨_, _, -, ⟨-, ⟨⟩⟩, -⟩⟩
      exact hj
    · intro h
      exact ⟨i, outer, h, .inl ⟨⟨rfl, rfl⟩, rfl⟩⟩
  | some position =>
    rw [instructionAt?, Option.ite_none_right_eq_some]
    constructor
    · rintro ⟨j, _, hj, ⟨⟨-, ⟨⟩⟩, -⟩ | ⟨_, _, hi, ⟨rfl, ⟨⟩⟩, rfl⟩⟩
      exact ⟨(List.getElem?_eq_some_iff.1 hj).1, hi⟩
    · rintro ⟨houter, hi⟩
      exact ⟨_, outer, List.getElem?_eq_getElem houter, .inr ⟨i, position, hi, ⟨rfl, rfl⟩, rfl⟩⟩

/-- The instructions are listed in the order of execution. -/
theorem pairwise_located : t.located.Pairwise fun x y => x.1.Before y.1 := by
  rw [located_eq, List.pairwise_flatMap]
  constructor
  · -- among the instructions of one top-level one the inner positions ascend
    rintro ⟨i, outer⟩ -
    rw [List.pairwise_cons, List.forall_mem_map, List.pairwise_map]
    exact ⟨fun y _ => .inr ⟨rfl, Nat.succ_pos y.2⟩,
      (pairwise_zipIdx _).imp fun h => .inr ⟨rfl, Nat.succ_lt_succ h⟩⟩
  · have houter : ∀ (x : Instruction × Nat) y, y ∈ (⟨x.2, none⟩, x.1) ::
        (t.innerInstructions x.2).zipIdx.map (fun z => (⟨x.2, some z.2⟩, z.1)) →
        (y : InstructionLocation × Instruction).1.outer = x.2 := by
      intro x
      rw [List.forall_mem_cons, List.forall_mem_map]
      exact ⟨rfl, fun _ _ => rfl⟩
    refine (pairwise_zipIdx t.instructions).imp fun {x y} hxy a ha b hb => .inl ?_
    rw [houter x a ha, houter y b hb]
    exact hxy

variable {t}

/-- An instruction belongs to one of the top-level ones. -/
theorem outer_lt_of_mem_located {x : InstructionLocation × Instruction} (h : x ∈ t.located) :
    x.1.outer < t.instructions.length := by
  obtain ⟨⟨outer, inner⟩, i⟩ := x
  rw [mem_located] at h
  cases inner with
  | none => exact (List.getElem?_eq_some_iff.1 h).1
  | some position =>
    rw [instructionAt?, Option.ite_none_right_eq_some] at h
    exact h.1

/-- An inner instruction is one of its group. -/
theorem nextInner_le_of_mem_located {x : InstructionLocation × Instruction} (h : x ∈ t.located) :
    x.1.nextInner ≤ (t.innerInstructions x.1.outer).length := by
  obtain ⟨⟨outer, inner⟩, i⟩ := x
  rw [mem_located] at h
  cases inner with
  | none => exact Nat.zero_le _
  | some position =>
    rw [instructionAt?, Option.ite_none_right_eq_some] at h
    exact (List.getElem?_eq_some_iff.1 h.2).1

/-- Inner instructions are those of a group. -/
theorem length_innerInstructions_le {bound : Nat}
    (h : ∀ group ∈ t.innerGroups, group.instructions.length ≤ bound) (outer : Nat) :
    (t.innerInstructions outer).length ≤ bound := by
  unfold innerInstructions
  cases hgroup : t.innerGroup? outer with
  | none => exact Nat.zero_le bound
  | some group => exact h group (List.mem_of_find?_eq_some hgroup)

/-- If all positions fit into 16 bits, the numbers of the instructions are in the order of
execution. -/
theorem pairwise_seq_located (houter : t.instructions.length ≤ 65536)
    (hinner : ∀ group ∈ t.innerGroups, group.instructions.length ≤ 65535) :
    t.located.Pairwise fun x y => x.1.seq < y.1.seq := by
  have hnext : ∀ x ∈ t.located, x.1.nextInner < 65536 := fun x hx =>
    Nat.lt_succ_of_le ((nextInner_le_of_mem_located hx).trans
      (length_innerInstructions_le hinner x.1.outer))
  refine t.pairwise_located.imp_of_mem fun {x y} hx hy hxy => ?_
  exact InstructionLocation.seq_lt_seq hxy (hnext x hx)
    (Nat.lt_of_lt_of_le (outer_lt_of_mem_located hy) houter) (hnext y hy)

end Transaction

end PoolKlines
