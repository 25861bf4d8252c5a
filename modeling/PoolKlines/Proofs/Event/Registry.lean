import Mathlib.Data.Finset.Card
import Mathlib.Data.Finset.Lattice.Lemmas
import Mathlib.Data.List.Induction
import PoolKlines.Event.Registry
import PoolKlines.Proofs.Bytes.Base64
import PoolKlines.Proofs.Sorted

/-!
# Which layout reads tagged data

The name is found by the tag, and the layout by the name. Both maps are written together, so that
data are read by the layout that was registered last with their tag.

* `Registry.KeyedByTag`: every name stands under the key of its own tag;
* `Registry.KeyedByTag.decode?_register` says what one more registration changes;
* `Registry.ofList` is the registry after some registrations, `Registry.decode?_ofList` says which
  of them reads data with a tag, and `Registry.size_ofList` how many names there are;
* `Registry.decode?_ofList_of_nodup` for lists that repeat no tag;
* `tags_lead_to_last_layout` is the statement about names with different tags.
-/

namespace PoolKlines

variable {α : Type}

theorem tagKey_inj {s t : List UInt8} : tagKey s = tagKey t ↔ s = t :=
  ⟨Base64.encode_injective, congrArg tagKey⟩

/-- A name to be registered, with its layout. -/
structure Registration (α : Type) where
  name : String
  layout : Read α

namespace Registry

/-! ### One registration -/

section Register

variable (r : Registry α)

theorem name?_register (name : String) (layout : Read α) (key : String) :
    (r.register name layout).name? key =
      if tagKey (eventTag r.space name) = key then some name else r.name? key := by
  simp [name?, register, Std.ExtTreeMap.getElem?_insert]

theorem layout?_register (name : String) (layout : Read α) (other : String) :
    (r.register name layout).layout? other =
      if name = other then some layout else r.layout? other := by
  simp [layout?, register, Std.ExtTreeMap.getElem?_insert]

theorem mem_layouts_register {name : String} {layout : Read α} {other : String} :
    other ∈ (r.register name layout).layouts ↔ name = other ∨ other ∈ r.layouts := by
  simp [register]

theorem size_register (name : String) (layout : Read α) :
    (r.register name layout).size = if name ∈ r.layouts then r.size else r.size + 1 := by
  simp [size, register, Std.ExtTreeMap.size_insert]

theorem name?_empty (space key : String) : (empty space : Registry α).name? key = none := by
  simp [name?, empty]

/-- Every name stands under the key of its own tag. -/
def KeyedByTag (r : Registry α) : Prop :=
  ∀ key name, r.name? key = some name → tagKey (eventTag r.space name) = key

theorem keyedByTag_empty (space : String) : KeyedByTag (empty space : Registry α) := by
  intro key name h
  rw [name?_empty] at h
  cases h

variable {r}

theorem KeyedByTag.register (h : r.KeyedByTag) (name : String) (layout : Read α) :
    (r.register name layout).KeyedByTag := by
  intro key other hother
  rw [name?_register] at hother
  rw [space_register]
  split_ifs at hother with hkey
  · obtain rfl := Option.some.inj hother
    exact hkey
  · exact h key other hother

/-- A registration is found by its tag, and nothing else changes. -/
theorem KeyedByTag.decode?_register (h : r.KeyedByTag) (name : String) (layout : Read α)
    (tag body : List UInt8) :
    (r.register name layout).decode? tag body =
      if eventTag r.space name = tag then some (name, layout.run? body)
      else r.decode? tag body := by
  simp only [decode?, name?_register, tagKey_inj]
  split_ifs with htag
  · simp [layout?_register]
  · cases hname : r.name? (tagKey tag) with
    | none => rfl
    | some other =>
      -- the replaced layout cannot be that of `other`, which has another tag
      have hne : name ≠ other := by
        rintro rfl
        exact htag (tagKey_inj.1 (h _ name hname))
      simp [layout?_register, hne]

end Register

/-! ### Any number of registrations -/

/-- The registry after some registrations, in their order. -/
def ofList (space : String) (entries : List (Registration α)) : Registry α :=
  entries.foldl (fun r entry => r.register entry.name entry.layout) (empty space)

variable {space : String} {entries : List (Registration α)}

theorem ofList_concat (space : String) (entries : List (Registration α)) (entry : Registration α) :
    ofList space (entries ++ [entry]) =
      (ofList space entries).register entry.name entry.layout :=
  List.foldl_concat ..

@[simp] theorem space_ofList : (ofList space entries).space = space := by
  induction entries using List.reverseRecOn with
  | nil => rfl
  | append_singleton entries entry ih => rw [ofList_concat, space_register, ih]

theorem keyedByTag_ofList (space : String) (entries : List (Registration α)) :
    (ofList space entries).KeyedByTag := by
  induction entries using List.reverseRecOn with
  | nil => exact keyedByTag_empty space
  | append_singleton entries entry ih =>
    rw [ofList_concat]
    exact ih.register entry.name entry.layout

/-- Data are read by the last registration with their tag, whether or not names share a tag. -/
theorem decode?_ofList (space : String) (entries : List (Registration α))
    (tag body : List UInt8) :
    (ofList space entries).decode? tag body =
      (entries.reverse.find? (eventTag space ·.name = tag)).map fun entry =>
        (entry.name, entry.layout.run? body) := by
  induction entries using List.reverseRecOn with
  | nil => simp [ofList, decode?, name?_empty]
  | append_singleton entries entry ih =>
    rw [ofList_concat, (keyedByTag_ofList space entries).decode?_register, ih, space_ofList,
      List.reverse_concat, List.find?_cons]
    by_cases htag : eventTag space entry.name = tag <;> simp [htag]

/-- A tag is known just if it is that of a registered name. -/
theorem isSome_decode?_ofList {tag body : List UInt8} :
    ((ofList space entries).decode? tag body).isSome ↔
      ∃ entry ∈ entries, eventTag space entry.name = tag := by
  simp [decode?_ofList]

/-- After the registration that reads the data, none has their tag. -/
theorem decode?_ofList_eq_some {tag body : List UInt8} {name : String}
    {result : Except ReadError α} :
    (ofList space entries).decode? tag body = some (name, result) ↔
      ∃ before layout after, entries = before ++ ⟨name, layout⟩ :: after ∧
        eventTag space name = tag ∧ (∀ later ∈ after, eventTag space later.name ≠ tag) ∧
        layout.run? body = result := by
  simp only [decode?_ofList, Option.map_eq_some_iff, find?_reverse_eq_some_iff, decide_eq_true_eq,
    Prod.mk.injEq]
  constructor
  · rintro ⟨⟨name, layout⟩, ⟨before, after, hentries, htag, hafter⟩, rfl, hresult⟩
    exact ⟨before, layout, after, hentries, htag, hafter, hresult⟩
  · rintro ⟨before, layout, after, hentries, htag, hafter, hresult⟩
    exact ⟨⟨name, layout⟩, ⟨before, after, hentries, htag, hafter⟩, rfl, hresult⟩

/-- Where no two registrations have the same tag, each is found by its own. -/
theorem decode?_ofList_of_nodup (h : (entries.map (eventTag space ·.name)).Nodup)
    {tag body : List UInt8} {name : String} {result : Except ReadError α} :
    (ofList space entries).decode? tag body = some (name, result) ↔
      eventTag space name = tag ∧ ∃ layout, ⟨name, layout⟩ ∈ entries ∧
        layout.run? body = result := by
  rw [decode?_ofList_eq_some]
  constructor
  · rintro ⟨before, layout, after, rfl, htag, -, hresult⟩
    exact ⟨htag, layout, by simp, hresult⟩
  · rintro ⟨rfl, layout, hmem, hresult⟩
    obtain ⟨before, after, rfl⟩ := List.append_of_mem hmem
    refine ⟨before, layout, after, rfl, rfl, fun later hlater htag => ?_, hresult⟩
    rw [List.map_append, List.map_cons] at h
    exact (List.nodup_cons.1 h.of_append_right).1 (List.mem_map.2 ⟨later, hlater, htag⟩)

theorem mem_layouts_ofList {name : String} :
    name ∈ (ofList space entries).layouts ↔ name ∈ entries.map Registration.name := by
  induction entries using List.reverseRecOn with
  | nil => simp [ofList, empty]
  | append_singleton entries entry ih =>
    rw [ofList_concat, mem_layouts_register, ih]
    simp [or_comm, eq_comm]

/-- A name that is registered again does not count again. -/
theorem size_ofList (space : String) (entries : List (Registration α)) :
    (ofList space entries).size = (entries.map Registration.name).toFinset.card := by
  induction entries using List.reverseRecOn with
  | nil => simp [ofList, empty, size]
  | append_singleton entries entry ih =>
    have hnames : ((entries ++ [entry]).map Registration.name).toFinset =
        insert entry.name (entries.map Registration.name).toFinset := by
      ext name
      simp
    rw [ofList_concat, size_register, hnames, Finset.card_insert_eq_ite, ih]
    simp only [mem_layouts_ofList, List.mem_toFinset]

end Registry

/-- **Tags lead to the layout that was registered last.** Register any names with any layouts, also
repeatedly, where different names have different tags. Then data of any tag are read just if it is
the tag of a registered name; they are read under this name, by the layout that it was registered
with last; and the registry counts every name once. -/
theorem tags_lead_to_last_layout (space : String) (entries : List (Registration α))
    (hdistinct : ∀ entry ∈ entries, ∀ other ∈ entries,
      eventTag space entry.name = eventTag space other.name → entry.name = other.name) :
    (∀ tag body, ((Registry.ofList space entries).decode? tag body).isSome ↔
      ∃ entry ∈ entries, eventTag space entry.name = tag) ∧
    (∀ tag body name result,
      (Registry.ofList space entries).decode? tag body = some (name, result) ↔
        eventTag space name = tag ∧ ∃ before layout after,
          entries = before ++ ⟨name, layout⟩ :: after ∧ (∀ later ∈ after, later.name ≠ name) ∧
            layout.run? body = result) ∧
    (Registry.ofList space entries).size = (entries.map Registration.name).toFinset.card := by
  refine ⟨fun tag body => Registry.isSome_decode?_ofList, fun tag body name result => ?_,
    Registry.size_ofList space entries⟩
  rw [Registry.decode?_ofList_eq_some]
  constructor
  · rintro ⟨before, layout, after, hentries, htag, hafter, hresult⟩
    refine ⟨htag, before, layout, after, hentries, fun later hlater hname => ?_, hresult⟩
    exact hafter later hlater (hname ▸ htag)
  · rintro ⟨rfl, before, layout, after, rfl, hafter, hresult⟩
    refine ⟨before, layout, after, rfl, rfl, fun later hlater htag => ?_, hresult⟩
    exact hafter later hlater (hdistinct later (by simp [hlater]) ⟨name, layout⟩ (by simp) htag)

/-- A name is registered again with another layout, which fits where the first one does not. -/
theorem tags_lead_to_last_layout_of_repeated :
    let entries : List (Registration UInt64) := [⟨"SwapEvent", Reader.uint64⟩,
      ⟨"CollectFeeEvent", Reader.uint64⟩, ⟨"SwapEvent", UInt8.toUInt64 <$> Reader.uint8⟩]
    let r := Registry.ofList "event" entries
    (∀ entry ∈ entries, ∀ other ∈ entries,
      eventTag "event" entry.name = eventTag "event" other.name → entry.name = other.name) ∧
    r.decode? (eventTag "event" "SwapEvent") [9, 1] = some ("SwapEvent", .ok 9) ∧
    r.decode? (eventTag "event" "CollectFeeEvent") [9, 1] =
      some ("CollectFeeEvent", .error (.overflow 8 0 2)) ∧
    (r.decode? [] [9, 1]).isSome = false ∧ r.size = 2 := by
  intro entries r
  have htags : eventTag "event" "SwapEvent" ≠ eventTag "event" "CollectFeeEvent" := by
    decide +kernel
  have hdistinct : ∀ entry ∈ entries, ∀ other ∈ entries,
      eventTag "event" entry.name = eventTag "event" other.name → entry.name = other.name := by
    simp [entries, htags, htags.symm]
  obtain ⟨hknown, hread, hsize⟩ := tags_lead_to_last_layout "event" entries hdistinct
  refine ⟨hdistinct, (hread ..).2 ⟨rfl, entries.take 2, _, [], rfl, by simp, rfl⟩,
    (hread ..).2 ⟨rfl, entries.take 1, _, entries.drop 2, rfl, by simp [entries], rfl⟩, ?_, ?_⟩
  · rw [Bool.eq_false_iff, ne_eq, hknown]
    rintro ⟨entry, -, htag⟩
    simpa using congrArg List.length htag
  · rw [hsize]
    decide

end PoolKlines
