import ObjectQuery.Catalog.Basic
import ObjectQuery.Serial.Value

/-! Serialized catalogs. An attribute holds the members of its table beside its name. -/
namespace ObjectQuery

namespace AttributeTable

def members (t : AttributeTable) : Members :=
  [("table_name", .str t.name), ("collection_depth", .int t.depth.toNat),
    ("parent_join_column", .str t.parentColumn), ("child_join_column", .str t.childColumn)]

def toJson (t : AttributeTable) : Json := .obj t.members

def ofMembers? (m : Members) : Option AttributeTable := do
  let name ← match m.lookup "table_name", m.lookup "table" with
    | some j, none | none, some j => j.str?
    | _, _ => none
  some ⟨name, ← m.defaulted Json.uint32? 0 "collection_depth",
    ← m.defaulted Json.str? defaultParentColumn "parent_join_column",
    ← m.defaulted Json.str? defaultChildColumn "child_join_column"⟩

def ofJson? (j : Json) : Option AttributeTable := do
  ofMembers? (← j.record? ["table_name"] ["collection_depth", "parent_join_column", "child_join_column"])

end AttributeTable

namespace AttributeDeclaration

def toJson (a : AttributeDeclaration) : Json :=
  .obj (("declaring_type", .str a.name.declaringType) :: ("name", .str a.name.name) :: a.table.members)

def ofJson? (j : Json) : Option AttributeDeclaration := do
  let m ← j.obj?
  some ⟨⟨← m.required Json.str? "declaring_type", ← m.required Json.str? "name"⟩,
    ← AttributeTable.ofMembers? m⟩

end AttributeDeclaration

namespace TypeDeclaration

def toJson (t : TypeDeclaration) : Json :=
  .obj [("name", .str t.name), ("type_id", .ofOption (fun n => .int n.toInt) t.typeId),
    ("super_types", .ofList .str t.superTypes)]

def ofJson? (j : Json) : Option TypeDeclaration := do
  let m ← j.record? ["name"] ["type_id", "super_types"]
  some ⟨← m.required Json.str? "name", ← m.optional Json.int32? "type_id",
    ← m.defaulted (Json.list? Json.str?) [] "super_types"⟩

end TypeDeclaration

namespace KeyTable

def toJson {α : Type} (encode : α → Json) (t : KeyTable α) : Json :=
  .obj (t.entries.map fun (key, value) => (key, encode value))

def ofJson? {α : Type} (decode : Json → Option α) (j : Json) : Option (KeyTable α) := do
  let entries ← (← j.obj?).mapM fun (key, value) => (decode value).map (key, ·)
  some (ofList entries)

end KeyTable

namespace Catalog

def toJson (c : Catalog) : Json :=
  .obj [("entity_types", .ofList TypeDeclaration.toJson c.types),
    ("attributes", .ofList AttributeDeclaration.toJson c.attributes),
    ("enums", c.enums.toJson (KeyTable.toJson fun n => .int n.toInt))]

def ofJson? (j : Json) : Option Catalog := do
  let m ← j.record? [] ["entity_types", "attributes", "enums"]
  some ⟨← m.defaulted (Json.list? TypeDeclaration.ofJson?) [] "entity_types",
    ← m.defaulted (Json.list? AttributeDeclaration.ofJson?) [] "attributes",
    ← m.defaulted (KeyTable.ofJson? (KeyTable.ofJson? Json.int64?)) .empty "enums"⟩

end Catalog
end ObjectQuery
