import PoolKlines.Decimal.Text
import PoolKlines.Json.Basic

/-!
# Values of records in JSON

* `Json.string?`, `Json.natBelow?`, `Json.uint64?` and the like read one value of a type;
* `Json.record?` finds the declared fields of a record, which is an object or an array of the
  fields in their order;
* `Json.required`, `Json.orElse` and `Json.optional` say what an absent field means.

An object may hold undeclared fields, but no declared one twice. An array may end early, except for
`Json.fullRecord?`.
-/

namespace PoolKlines.Json

/-- A string. -/
def string? : Json → Option String
  | string text => some text
  | _ => none

/-- A truth value. -/
def bool? : Json → Option Bool
  | bool value => some value
  | _ => none

/-- A whole number. -/
def int? : Json → Option Int
  | integer n => some n
  | _ => none

/-- A natural number below `limit`. -/
def natBelow? (limit : Nat) (j : Json) : Option Nat :=
  match j with
  | integer n => if 0 ≤ n ∧ n < limit then some n.toNat else none
  | _ => none

/-- An unsigned 8-bit number. -/
def uint8? (j : Json) : Option UInt8 := (j.natBelow? UInt8.size).map UInt8.ofNat

/-- An unsigned 16-bit number. -/
def uint16? (j : Json) : Option UInt16 := (j.natBelow? UInt16.size).map UInt16.ofNat

/-- An unsigned 32-bit number. -/
def uint32? (j : Json) : Option UInt32 := (j.natBelow? UInt32.size).map UInt32.ofNat

/-- An unsigned 64-bit number. -/
def uint64? (j : Json) : Option UInt64 := (j.natBelow? UInt64.size).map UInt64.ofNat

/-- An unsigned 128-bit number. -/
def uint128? (j : Json) : Option (BitVec 128) :=
  (j.natBelow? 340282366920938463463374607431768211456).map (BitVec.ofNat 128)

/-- A signed 32-bit number. -/
def int32? (j : Json) : Option Int32 :=
  match j with
  | integer n => if (Int32.ofInt n).toInt = n then some (Int32.ofInt n) else none
  | _ => none

/-- A signed 64-bit number. -/
def int64? (j : Json) : Option Int64 :=
  match j with
  | integer n => if (Int64.ofInt n).toInt = n then some (Int64.ofInt n) else none
  | _ => none

/-- A decimal, written as a string. -/
def decimal? (j : Json) : Option Decimal := do
  match Decimal.parse (← j.string?) with
  | .ok d => some d
  | .error _ => none

/-- A list of values. -/
def list? {α : Type} (item? : Json → Option α) : Json → Option (List α)
  | array items => items.mapM item?
  | _ => none

/-- An object whose field names are free. -/
def entries? {α : Type} (value? : Json → Option α) : Json → Option (List (String × α))
  | object fields => fields.mapM fun (name, j) => (value? j).map (name, ·)
  | _ => none

/-- The value is `null`. -/
def isNull : Json → Bool
  | null => true
  | _ => false

/-- The value is `null` or an object without fields. -/
def isVoid : Json → Bool
  | null => true
  | object [] => true
  | _ => false

/-- The name of a case without fields: the name itself, or an object that gives it nothing. -/
def caseWith? (isNothing : Json → Bool) : Json → Option String
  | string name => some name
  | object [(name, j)] => if isNothing j then some name else none
  | _ => none

/-- The name of a case, to which an object can only give `null`. -/
def case? : Json → Option String := caseWith? isNull

/-- The name of a case, to which an object can also give an empty object. -/
def voidCase? : Json → Option String := caseWith? isVoid

/-! ### Records -/

/-- The values found for the declared fields, in the order of their declaration. -/
def record? (names : List String) : Json → Option (List (Option Json))
  | object fields =>
    if names.all fun name => fields.countP (·.1 = name) ≤ 1 then
      some (names.map fun name => fields.lookup name)
    else none
  | array items =>
    if items.length ≤ names.length then
      some ((List.range names.length).map (items[·]?))
    else none
  | _ => none

/-- The values found for the declared fields of a record whose array has to hold all of them. -/
def fullRecord? (names : List String) (j : Json) : Option (List (Option Json)) :=
  match j with
  | array items => if items.length = names.length then some (items.map some) else none
  | j => j.record? names

/-- A field that has to be there. -/
def required {α : Type} (value? : Json → Option α) (field : Option Json) : Option α :=
  field.bind value?

/-- A field that has a value when absent. -/
def orElse {α : Type} (value? : Json → Option α) (absent : α) : Option Json → Option α
  | none => some absent
  | some j => value? j

/-- A field that may be absent or `null`. -/
def optional {α : Type} (value? : Json → Option α) : Option Json → Option (Option α)
  | none => some none
  | some null => some none
  | some j => (value? j).map some

end PoolKlines.Json
