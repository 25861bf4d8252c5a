import Mathlib.Data.List.Nodup
import PoolKlines.Proofs.Json.Parser
import PoolKlines.Transaction.Json

/-!
# Transactions read back from their text

* `Json.record?_object`: a record whose fields are all written, in any order, has the values of its
  fields;
* `Transaction.ofJson?_toJson`: a transaction is read back from its JSON;
* `Transaction.parse_render`: a transaction is read back from its text.
-/

namespace PoolKlines

namespace Json

/-! ### Values of fields -/

theorem uint8?_toNat (n : UInt8) : uint8? (.integer n.toNat) = some n := by
  have hlt : n.toNat < 256 := n.toNat_lt
  have hbound : (0 : Int) ≤ n.toNat ∧ (n.toNat : Int) < (UInt8.size : Nat) :=
    ⟨Int.natCast_nonneg _, Int.ofNat_lt.2 hlt⟩
  rw [uint8?, natBelow?, if_pos hbound]
  simp

theorem uint64?_ofUInt64 (n : UInt64) : uint64? (ofUInt64 n) = some n := by
  have hbound : (0 : Int) ≤ n.toNat ∧ (n.toNat : Int) < (UInt64.size : Nat) :=
    ⟨Int.natCast_nonneg _, Int.ofNat_lt.2 n.toNat_lt⟩
  rw [uint64?, ofUInt64, natBelow?, if_pos hbound]
  simp

theorem int64?_toInt (n : Int64) : int64? (.integer n.toInt) = some n := by
  simp [int64?]

/-- A list is read back if its items are. -/
theorem list?_array {α : Type} {item? : Json → Option α} {toJson : α → Json}
    (h : ∀ a, item? (toJson a) = some a) (items : List α) :
    list? item? (.array (items.map toJson)) = some items := by
  rw [list?]
  induction items with
  | nil => rfl
  | cons a items ih => simp [h, ih]

theorem list?_ofStrings (texts : List String) : list? string? (ofStrings texts) = some texts :=
  have hstring : ∀ text, string? (string text) = some text := fun _ => rfl
  list?_array hstring texts

theorem countP_fst_eq {fields : List (String × Json)} (hnodup : (fields.map Prod.fst).Nodup)
    (name : String) : fields.countP (·.1 = name) ≤ 1 := by
  have hcount := List.nodup_iff_count_le_one.1 hnodup name
  rwa [List.count, List.countP_map] at hcount

theorem lookup_of_mem {fields : List (String × Json)} (hnodup : (fields.map Prod.fst).Nodup)
    {field : String × Json} (h : field ∈ fields) : fields.lookup field.1 = some field.2 := by
  induction fields with
  | nil => cases h
  | cons first fields ih =>
    obtain ⟨hfirst, hnodup⟩ := List.nodup_cons.1 hnodup
    rw [List.lookup_cons]
    rcases List.mem_cons.1 h with rfl | h
    · simp
    · have hne : (field.1 == first.1) = false := by
        rw [beq_eq_false_iff_ne]
        exact fun heq => hfirst (heq ▸ List.mem_map_of_mem h)
      rw [hne]
      exact ih hnodup h

/-- A record that writes all of its fields in their order has their values. -/
theorem record?_object {names : List String} {fields : List (String × Json)}
    (hnames : fields.map Prod.fst = names) (hnodup : names.Nodup) :
    record? names (.object fields) = some (fields.map fun field => some field.2) := by
  subst hnames
  have hall : ((fields.map Prod.fst).all fun name => fields.countP (·.1 = name) ≤ 1) = true :=
    List.all_eq_true.2 fun name _ => decide_eq_true (countP_fst_eq hnodup name)
  rw [record?, if_pos hall, List.map_map]
  exact congrArg some (List.map_congr_left fun field hfield => lookup_of_mem hnodup hfield)

theorem required_of {α : Type} {value? : Json → Option α} {j : Json} {a : α}
    (h : value? j = some a) : required value? (some j) = some a := by
  rw [required, Option.bind_some, h]

theorem orElse_of {α : Type} {value? : Json → Option α} {j : Json} {a : α}
    (h : value? j = some a) (absent : α) : orElse value? absent (some j) = some a := by
  rw [orElse, h]

theorem Plain.array_map {α : Type} {toJson : α → Json} (h : ∀ a, (toJson a).Plain)
    (items : List α) : (Json.array (items.map toJson)).Plain :=
  .array fun _ hitem => by
    obtain ⟨a, -, rfl⟩ := List.mem_map.1 hitem
    exact h a

theorem Plain.ofStrings (texts : List String) : (ofStrings texts).Plain :=
  .array_map .string texts

end Json

/-! ### The parts of a transaction -/

theorem TokenBalance.ofJson?_toJson (b : TokenBalance) : ofJson? b.toJson = some b := by
  obtain ⟨accountIndex, mint, owner, amount, decimals⟩ := b
  cases owner with
  | some owner =>
    have hfields : toJson ⟨accountIndex, mint, some owner, amount, decimals⟩ = .object
        [("accountIndex", .integer accountIndex.toNat), ("mint", .string mint),
          ("owner", .string owner), ("amount", .string amount),
          ("decimals", .integer decimals.toNat)] := rfl
    rw [hfields, ofJson?, Json.record?_object]
    · simp [Json.required, Json.optional, Json.string?, Json.uint8?_toNat]
    · rfl
    · decide
  | none =>
    simp [ofJson?, toJson, Json.record?, List.lookup_cons, Json.required, Json.optional,
      Json.string?, Json.uint8?_toNat]

theorem Instruction.ofJson?_toJson (i : Instruction) : ofJson? i.toJson = some i := by
  have haccounts := Json.list?_array Json.uint8?_toNat i.accounts
  rw [ofJson?, toJson, Json.record?_object]
  · simp [Json.required, Json.orElse, Json.string?, Json.uint8?_toNat, haccounts]
  · rfl
  · decide

theorem InnerGroup.ofJson?_toJson (g : InnerGroup) : ofJson? g.toJson = some g := by
  have hinstructions := Json.list?_array Instruction.ofJson?_toJson g.instructions
  rw [ofJson?, toJson, Json.record?_object]
  · simp [Json.required, Json.orElse, Json.uint8?_toNat, hinstructions]
  · rfl
  · decide

theorem TokenBalance.plain_toJson (b : TokenBalance) : b.toJson.Plain := by
  refine .object fun field hfield => ?_
  obtain ⟨accountIndex, mint, owner, amount, decimals⟩ := b
  cases owner <;> simp at hfield <;> rcases hfield with rfl | rfl | rfl | rfl | rfl <;> constructor

theorem Instruction.plain_toJson (i : Instruction) : i.toJson.Plain := by
  refine .object ?_
  simp only [List.forall_mem_cons]
  exact ⟨.integer _, .array_map (fun _ => .integer _) _, .string _, by simp⟩

theorem InnerGroup.plain_toJson (g : InnerGroup) : g.toJson.Plain := by
  refine .object ?_
  simp only [List.forall_mem_cons]
  exact ⟨.integer _, .array_map Instruction.plain_toJson _, by simp⟩

namespace Transaction

/-- A transaction is read back from its JSON. -/
theorem ofJson?_toJson (t : Transaction) : ofJson? t.toJson = some t := by
  have hslot := Json.required_of (Json.uint64?_ofUInt64 t.slot)
  have htime := Json.required_of (Json.int64?_toInt t.blockTime)
  have hstrings (texts : List String) := Json.orElse_of (Json.list?_ofStrings texts) []
  have hinstructions := Json.orElse_of
    (Json.list?_array Instruction.ofJson?_toJson t.instructions) []
  have hgroups := Json.orElse_of (Json.list?_array InnerGroup.ofJson?_toJson t.innerGroups) []
  have hbalances (balances : List TokenBalance) := Json.orElse_of
    (Json.list?_array TokenBalance.ofJson?_toJson balances) []
  rw [ofJson?, toJson, Json.record?_object]
  · simp only [List.map_cons, List.map_nil]
    rw [Option.bind_eq_bind, Option.bind_some]
    dsimp only
    simp only [hslot, htime, hstrings, hinstructions, hgroups, hbalances]
    rfl
  · rfl
  · simp [fieldNames]

theorem plain_toJson (t : Transaction) : t.toJson.Plain := by
  refine .object ?_
  simp only [List.forall_mem_cons]
  exact ⟨.string _, .integer _, .integer _, .ofStrings _, .array_map Instruction.plain_toJson _,
    .array_map InnerGroup.plain_toJson _, .array_map TokenBalance.plain_toJson _,
    .array_map TokenBalance.plain_toJson _, .ofStrings _, .bool _, by simp⟩

/-- A transaction is read back from its text. -/
theorem parse_render (t : Transaction) : parse t.render = some t := by
  rw [parse, render, t.plain_toJson.parse_render, Option.bind_some, ofJson?_toJson]

end Transaction

end PoolKlines
