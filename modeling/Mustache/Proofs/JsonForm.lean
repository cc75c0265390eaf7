import Mustache.Proofs.JsonText
import Mustache.Value.Json

namespace Mustache

namespace Json

@[elab_as_elim]
theorem parts_induction {motive : Json → Prop} (null : motive .null)
    (bool : ∀ value, motive (.bool value)) (number : ∀ value, motive (.number value))
    (string : ∀ value, motive (.string value))
    (array : ∀ items, (∀ item ∈ items, motive item) → motive (.array items))
    (object : ∀ entries, (∀ entry ∈ entries, motive entry.2) → motive (.object entries))
    (json : Json) : motive json := by
  match json with
  | .null => exact null
  | .bool value => exact bool value
  | .number value => exact number value
  | .string value => exact string value
  | .array items =>
    exact array items fun item _ => parts_induction null bool number string array object item
  | .object entries =>
    exact object entries fun entry _ => parts_induction null bool number string array object entry.2
termination_by json
decreasing_by
  · have smaller := List.sizeOf_lt_of_mem ‹item ∈ items›
    simp only [Json.array.sizeOf_spec]
    omega
  · have smaller := List.sizeOf_lt_of_mem ‹entry ∈ entries›
    obtain ⟨key, value⟩ := entry
    simp only [Json.object.sizeOf_spec, Prod.mk.sizeOf_spec] at smaller ⊢
    omega

mutual
-- The objects, at every depth, as finite maps: their entries in the order of their keys, and of those
-- with one key the last.
def settled : Json → Json
  | .array items => .array (settledItems items)
  | .object entries => .object (Entries.ofPairs (settledEntries entries))
  | json => json
def settledItems : List Json → List Json
  | [] => []
  | item :: rest => settled item :: settledItems rest
def settledEntries : List (String × Json) → List (String × Json)
  | [] => []
  | (key, value) :: rest => (key, settled value) :: settledEntries rest
end

theorem settledItems_eq (items : List Json) : settledItems items = items.map settled := by
  induction items with
  | nil => rfl
  | cons item rest ih => rw [settledItems, List.map_cons, ih]

theorem settledEntries_eq (entries : List (String × Json)) :
    settledEntries entries = Entries.mapValues settled entries := by
  induction entries with
  | nil => rfl
  | cons entry rest ih =>
    rw [settledEntries, ih]
    rfl

-- JSON in which each object, at every depth, has its entries in the order of their keys, with each key
-- once. So each finite map is given in one way only.
inductive Orderly : Json → Prop where
  | null : Orderly .null
  | bool : Orderly (.bool value)
  | number : Orderly (.number value)
  | string : Orderly (.string value)
  | array (parts : ∀ item ∈ items, Orderly item) : Orderly (.array items)
  | object (sorted : Entries.Sorted entries) (parts : ∀ entry ∈ entries, Orderly entry.2) :
      Orderly (.object entries)

theorem settled_of_orderly {json : Json} (orderly : json.Orderly) : json.settled = json := by
  induction orderly with
  | null | bool | number | string => rfl
  | @array items parts ih =>
    rw [settled, settledItems_eq]
    exact congrArg Json.array ((List.map_congr_left ih).trans (List.map_id items))
  | @object entries sorted parts ih =>
    rw [settled, settledEntries_eq, Entries.mapValues_self ih, Entries.ofPairs_of_sorted sorted]

end Json

namespace Value

@[elab_as_elim]
theorem parts_induction {motive : Value → Prop} (null : motive .null)
    (bool : ∀ value, motive (.bool value)) (number : ∀ value, motive (.number value))
    (text : ∀ value, motive (.text value))
    (list : ∀ items, (∀ item ∈ items, motive item) → motive (.list items))
    (map : ∀ entries, (∀ entry ∈ entries, motive entry.2) → motive (.map entries))
    (record : ∀ own, motive (.record own)) (lambda : ∀ own, motive (.lambda own))
    (value : Value) : motive value := by
  match value with
  | .null => exact null
  | .bool value => exact bool value
  | .number value => exact number value
  | .text value => exact text value
  | .list items =>
    exact list items fun item _ => parts_induction null bool number text list map record lambda item
  | .map entries =>
    exact map entries fun entry _ =>
      parts_induction null bool number text list map record lambda entry.2
  | .record own => exact record own
  | .lambda own => exact lambda own
termination_by value
decreasing_by
  · have smaller := List.sizeOf_lt_of_mem ‹item ∈ items›
    simp only [Value.list.sizeOf_spec]
    omega
  · have smaller := List.sizeOf_lt_of_mem ‹entry ∈ entries›
    obtain ⟨key, value⟩ := entry
    simp only [Value.map.sizeOf_spec, Prod.mk.sizeOf_spec] at smaller ⊢
    omega

inductive Orderly : Value → Prop where
  | null : Orderly .null
  | bool : Orderly (.bool value)
  | number : Orderly (.number value)
  | text : Orderly (.text value)
  | list (parts : ∀ item ∈ items, Orderly item) : Orderly (.list items)
  | map (sorted : Entries.Sorted entries) (parts : ∀ entry ∈ entries, Orderly entry.2) :
      Orderly (.map entries)
  | record : Orderly (.record own)
  | lambda : Orderly (.lambda own)

inductive Detached : Value → Prop where
  | null : Detached .null
  | bool : Detached (.bool value)
  | number : Detached (.number value)
  | text : Detached (.text value)
  | list (parts : ∀ item ∈ items, Detached item) : Detached (.list items)
  | map (parts : ∀ entry ∈ entries, Detached entry.2) : Detached (.map entries)

mutual
def detach : Value → Value
  | .list items => .list (detachItems items)
  | .map entries => .map (detachEntries entries)
  | .record own => .text own.text
  | .lambda _ => .null
  | value => value
def detachItems : List Value → List Value
  | [] => []
  | item :: rest => detach item :: detachItems rest
def detachEntries : List (String × Value) → List (String × Value)
  | [] => []
  | (key, value) :: rest => (key, detach value) :: detachEntries rest
end

theorem ofItems_eq (items : List Json) : ofItems items = items.map ofJson := by
  induction items with
  | nil => rfl
  | cons item rest ih => rw [ofItems, List.map_cons, ih]

theorem ofEntries_eq (entries : List (String × Json)) :
    ofEntries entries = Entries.mapValues ofJson entries := by
  induction entries with
  | nil => rfl
  | cons entry rest ih =>
    rw [ofEntries, ih]
    rfl

theorem toItems_eq (items : List Value) : toItems items = items.map toJson := by
  induction items with
  | nil => rfl
  | cons item rest ih => rw [toItems, List.map_cons, ih]

theorem toEntries_eq (entries : List (String × Value)) :
    toEntries entries = Entries.mapValues toJson entries := by
  induction entries with
  | nil => rfl
  | cons entry rest ih =>
    rw [toEntries, ih]
    rfl

theorem detachItems_eq (items : List Value) : detachItems items = items.map detach := by
  induction items with
  | nil => rfl
  | cons item rest ih => rw [detachItems, List.map_cons, ih]

theorem detachEntries_eq (entries : List (String × Value)) :
    detachEntries entries = Entries.mapValues detach entries := by
  induction entries with
  | nil => rfl
  | cons entry rest ih =>
    rw [detachEntries, ih]
    rfl

theorem ofJson_built (json : Json) : (ofJson json).Orderly ∧ (ofJson json).Detached := by
  induction json using Json.parts_induction with
  | null => exact ⟨.null, .null⟩
  | bool value => exact ⟨.bool, .bool⟩
  | number value => exact ⟨.number, .number⟩
  | string value => exact ⟨.text, .text⟩
  | array items ih =>
    rw [ofJson, ofItems_eq]
    exact ⟨.list (List.forall_mem_map.mpr fun item member => (ih item member).1),
      .list (List.forall_mem_map.mpr fun item member => (ih item member).2)⟩
  | object entries ih =>
    have parts : ∀ entry ∈ Entries.ofPairs (ofEntries entries),
        entry.2.Orderly ∧ entry.2.Detached := by
      intro entry member
      have given := Entries.mem_ofPairs member
      rw [ofEntries_eq] at given
      exact Entries.forall_mem_mapValues (p := fun value => value.Orderly ∧ value.Detached) ih entry given
    rw [ofJson, ofPairs]
    exact ⟨.map (Entries.sorted_ofPairs _) fun entry member => (parts entry member).1,
      .map fun entry member => (parts entry member).2⟩

theorem orderly_toJson {value : Value} (orderly : value.Orderly) : (toJson value).Orderly := by
  induction orderly with
  | null | lambda => exact .null
  | bool => exact .bool
  | number => exact .number
  | text | record => exact .string
  | list parts ih =>
    rw [toJson, toItems_eq]
    exact .array (List.forall_mem_map.mpr ih)
  | map sorted parts ih =>
    rw [toJson, toEntries_eq]
    exact .object ((Entries.sorted_mapValues toJson).mpr sorted) (Entries.forall_mem_mapValues ih)

theorem toJson_ofJson (json : Json) : toJson (ofJson json) = json.settled := by
  induction json using Json.parts_induction with
  | null | bool | number | string => rfl
  | array items ih =>
    rw [ofJson, ofItems_eq, toJson, toItems_eq, List.map_map, Json.settled, Json.settledItems_eq]
    exact congrArg Json.array (List.map_congr_left ih)
  | object entries ih =>
    rw [ofJson, ofPairs, ofEntries_eq, toJson, toEntries_eq, ← Entries.ofPairs_mapValues,
      Entries.mapValues_mapValues, Entries.mapValues_congr ih, Json.settled, Json.settledEntries_eq]

theorem toJson_detach (value : Value) : toJson (detach value) = toJson value := by
  induction value using parts_induction with
  | null | bool | number | text | record | lambda => rfl
  | list items ih =>
    rw [detach, detachItems_eq, toJson, toJson, toItems_eq, toItems_eq, List.map_map]
    exact congrArg Json.array (List.map_congr_left ih)
  | map entries ih =>
    rw [detach, detachEntries_eq, toJson, toJson, toEntries_eq, toEntries_eq,
      Entries.mapValues_mapValues, Entries.mapValues_congr ih]

theorem detached_detach (value : Value) : (detach value).Detached := by
  induction value using parts_induction with
  | null | lambda => exact .null
  | bool => exact .bool
  | number => exact .number
  | text | record => exact .text
  | list items ih =>
    rw [detach, detachItems_eq]
    exact .list (List.forall_mem_map.mpr ih)
  | map entries ih =>
    rw [detach, detachEntries_eq]
    exact .map (Entries.forall_mem_mapValues ih)

theorem detach_of_detached {value : Value} (detached : value.Detached) : detach value = value := by
  induction detached with
  | null | bool | number | text => rfl
  | @list items parts ih =>
    rw [detach, detachItems_eq]
    exact congrArg Value.list ((List.map_congr_left ih).trans (List.map_id items))
  | @map entries parts ih =>
    rw [detach, detachEntries_eq, Entries.mapValues_self ih]

theorem ofJson_toJson {value : Value} (orderly : value.Orderly) :
    ofJson (toJson value) = detach value := by
  induction orderly with
  | null | bool | number | text | record | lambda => rfl
  | list parts ih =>
    rw [toJson, toItems_eq, ofJson, ofItems_eq, List.map_map, detach, detachItems_eq]
    exact congrArg Value.list (List.map_congr_left ih)
  | @map entries sorted parts ih =>
    have kept := (Entries.sorted_mapValues detach).mpr sorted
    rw [toJson, toEntries_eq, ofJson, ofPairs, ofEntries_eq, Entries.mapValues_mapValues,
      Entries.mapValues_congr ih, Entries.ofPairs_of_sorted kept, detach, detachEntries_eq]

theorem toJson_ofJson_iff {json : Json} : toJson (ofJson json) = json ↔ json.Orderly := by
  constructor
  · intro same
    rw [← same]
    exact orderly_toJson (ofJson_built json).1
  · intro orderly
    rw [toJson_ofJson, Json.settled_of_orderly orderly]

theorem ofJson_toJson_iff {value : Value} :
    ofJson (toJson value) = value ↔ value.Orderly ∧ value.Detached := by
  constructor
  · intro same
    rw [← same]
    exact ofJson_built (toJson value)
  · intro built
    rw [ofJson_toJson built.1, detach_of_detached built.2]

def IsCollection : Value → Prop
  | .list _ => True
  | .map _ => True
  | _ => False

theorem toText_collection {value : Value} (collection : value.IsCollection) :
    value.toText = (toJson value).write := by
  cases value with
  | list | map => rfl
  | null | bool | number | text | record | lambda => cases collection

theorem toText_list (items : List Value) : (Value.list items).toText =
    "[" ++ String.intercalate "," (items.map fun item => (toJson item).write) ++ "]" := by
  have collection : (Value.list items).IsCollection := trivial
  rw [toText_collection collection, toJson, toItems_eq, Json.write, Json.writeItems_eq_map,
    List.map_map]
  rfl

theorem toText_map (entries : List (String × Value)) : (Value.map entries).toText =
    "\x7b" ++ String.intercalate "," (entries.map fun entry =>
      Json.quoted entry.1 ++ ":" ++ (toJson entry.2).write) ++ "\x7d" := by
  have collection : (Value.map entries).IsCollection := trivial
  rw [toText_collection collection, toJson, toEntries_eq, Json.write, Json.writeEntries_eq_map,
    Entries.mapValues, List.map_map]
  rfl

-- JSON and data become each other, and nothing is lost but what records and lambdas are beyond their
-- JSON. Since an object is a finite map, its entries come back in order, and JSON that gives them so is
-- unchanged. The text of a list or of a map is its JSON without blanks, and that JSON is what it is read
-- as, up to floats that are not read as they are written.
theorem json_lossless (json : Json) (value : Value) :
    toJson (ofJson json) = json.settled ∧ (toJson (ofJson json) = json ↔ json.Orderly) ∧
    (ofJson json).Orderly ∧ (ofJson json).Detached ∧
    value.detach.Detached ∧ toJson value = toJson value.detach ∧
    (value.Orderly → ofJson (toJson value) = value.detach) ∧
    (ofJson (toJson value) = value ↔ value.Orderly ∧ value.Detached) ∧
    (value.IsCollection → value.toText = (toJson value).write) ∧
    (∀ items, (Value.list items).toText =
      "[" ++ String.intercalate "," (items.map fun item => (toJson item).write) ++ "]") ∧
    (∀ entries, (Value.map entries).toText =
      "\x7b" ++ String.intercalate "," (entries.map fun entry =>
        Json.quoted entry.1 ++ ":" ++ (toJson entry.2).write) ++ "\x7d") ∧
    (value.IsCollection → (toJson value).Readable → Json.parse? value.toText = some (toJson value)) := by
  obtain ⟨orderly, detached⟩ := ofJson_built json
  refine ⟨toJson_ofJson json, toJson_ofJson_iff, orderly, detached, detached_detach value, (toJson_detach value).symm,
    ofJson_toJson, ofJson_toJson_iff, toText_collection, toText_list, toText_map, ?_⟩
  intro collection readable
  rw [toText_collection collection]
  exact Json.parse_write readable

namespace Parcel

def weight : Number := .float ⟨false, 6755399441055744, -52⟩

def parcel : Value := .map [("by", .lambda ⟨2, true⟩),
  ("pens", .list [.record ⟨1, "red"⟩, .number (.int (-3)), .number weight])]

def contents : Json := .object [("pens", .array [.object [("a", .number weight), ("b", .null)]])]

theorem weight_faithful : weight.Faithful := ⟨⟨false, [1], some [5], none⟩, rfl, by decide +kernel⟩

theorem parcel_orderly : parcel.Orderly := by
  refine .map (by decide) ?_
  simp only [List.forall_mem_cons]
  refine ⟨.lambda, .list ?_, nofun⟩
  simp only [List.forall_mem_cons]
  exact ⟨.record, .number, .number, nofun⟩

theorem parcel_readable : (toJson parcel).Readable := by
  refine .object ?_
  simp only [toEntries, toJson, toItems, List.forall_mem_cons]
  refine ⟨.null, .array ?_, nofun⟩
  simp only [List.forall_mem_cons]
  exact ⟨.string, .number (Number.faithful_int rfl), .number weight_faithful, nofun⟩

theorem contents_orderly : contents.Orderly := by
  refine .object (by decide) ?_
  simp only [List.forall_mem_cons]
  refine ⟨.array ?_, nofun⟩
  simp only [List.forall_mem_cons]
  refine ⟨.object (by decide) ?_, nofun⟩
  simp only [List.forall_mem_cons]
  exact ⟨.number, .null, nofun⟩

end Parcel

open Parcel in
theorem json_lossless_parcel :
    toJson (ofJson contents) = contents ∧ ofJson (toJson (ofJson contents)) = ofJson contents ∧
    ofJson (toJson parcel) =
      .map [("by", .null), ("pens", .list [.text "red", .number (.int (-3)), .number weight])] ∧
    parcel.toText = "\x7b\"by\":null,\"pens\":[\"red\",-3,1.5]\x7d" ∧
    Json.parse? parcel.toText = some (toJson parcel) := by
  obtain ⟨-, kept, orderly, detached, -, -, -, built, -⟩ := json_lossless contents (ofJson contents)
  obtain ⟨-, -, -, -, -, -, parted, -, shown, -, -, read⟩ := json_lossless contents parcel
  have written : (toJson parcel).write = "\x7b\"by\":null,\"pens\":[\"red\",-3,1.5]\x7d" := by
    decide +kernel
  exact ⟨kept.mpr contents_orderly, built.mpr ⟨orderly, detached⟩, parted parcel_orderly,
    (shown trivial).trans written, read trivial parcel_readable⟩

end Value
end Mustache
