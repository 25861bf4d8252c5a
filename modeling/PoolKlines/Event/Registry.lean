import PoolKlines.Bytes.Base64
import PoolKlines.Bytes.Reader
import PoolKlines.Bytes.Sha256
import Std.Data.ExtTreeMap

/-!
# Tagged layouts

The data of an event begin with a tag, the first eight bytes of a hash of the event's name.

* `eventTag` derives the tag, and `tagKey` is its text;
* `Registry` finds the name by the tag, and the reader of the layout by the name;
* `Registry.register` adds a layout, `Registry.decode?` reads data by their tag.
-/

namespace PoolKlines

/-- The number of bytes in a tag. -/
def tagLength : Nat := 8

/-- The tag of a name within a name space. -/
def eventTag (space name : String) : List UInt8 :=
  (Sha256.hash (space ++ ":" ++ name).toUTF8.toList).take tagLength

/-- The text a tag is registered under. -/
def tagKey (tag : List UInt8) : String := Base64.encode tag

/-- Known layouts of values of `α`. -/
structure Registry (α : Type) where
  space : String
  names : Std.ExtTreeMap String String
  layouts : Std.ExtTreeMap String (Read α)

namespace Registry

variable {α : Type}

/-- No layouts. -/
def empty (space : String) : Registry α := ⟨space, ∅, ∅⟩

/-- Register a layout; an earlier one of the name is replaced. -/
def register (r : Registry α) (name : String) (layout : Read α) : Registry α where
  space := r.space
  names := r.names.insert (tagKey (eventTag r.space name)) name
  layouts := r.layouts.insert name layout

/-- The name registered under a key. -/
def name? (r : Registry α) (key : String) : Option String := r.names[key]?

/-- The layout of a name. -/
def layout? (r : Registry α) (name : String) : Option (Read α) := r.layouts[name]?

/-- Read data by their tag: the name and what its layout makes of the data. -/
def decode? (r : Registry α) (tag body : List UInt8) : Option (String × Except ReadError α) := do
  let name ← r.name? (tagKey tag)
  let layout ← r.layout? name
  return (name, layout.run? body)

/-- The number of registered names. -/
def size (r : Registry α) : Nat := r.layouts.size

/-- Nothing is registered. -/
def isEmpty (r : Registry α) : Bool := r.layouts.isEmpty

@[simp] theorem length_eventTag (space name : String) : (eventTag space name).length = 8 := by
  simp [eventTag, tagLength]

@[simp] theorem space_register (r : Registry α) (name : String) (layout : Read α) :
    (r.register name layout).space = r.space := rfl

end Registry

end PoolKlines
