import ObjectQuery.Json.Basic
import ObjectQuery.Layout

/-! Serialized layouts. A missing member keeps its default. -/
namespace ObjectQuery.Layout

def toJson (l : Layout) : Json :=
  .obj [("schema_name", .str l.schemaName), ("entity_table", .str l.entityTable),
    ("entity_pk_column", .str l.entityKey), ("entity_identity_column", .str l.entityIdentity),
    ("entity_type_id_column", .str l.entityTypeId),
    ("attribute_entity_pk_column", .str l.attributeEntityKey),
    ("attribute_value_column", .str l.attributeValue),
    ("collection_path_column", .str l.collectionPath),
    ("collection_path_top_label", .str l.collectionRoot), ("max_path_depth", .int l.maxDepth.toNat)]

def ofJson? (j : Json) : Option Layout := do
  let m ← j.record? [] fieldNames
  let text (name fallback : String) := m.defaulted Json.str? fallback name
  some {
    schemaName := ← text "schema_name" default.schemaName
    entityTable := ← text "entity_table" default.entityTable
    entityKey := ← text "entity_pk_column" default.entityKey
    entityIdentity := ← text "entity_identity_column" default.entityIdentity
    entityTypeId := ← text "entity_type_id_column" default.entityTypeId
    attributeEntityKey := ← text "attribute_entity_pk_column" default.attributeEntityKey
    attributeValue := ← text "attribute_value_column" default.attributeValue
    collectionPath := ← text "collection_path_column" default.collectionPath
    collectionRoot := ← text "collection_path_top_label" default.collectionRoot
    maxDepth := ← m.defaulted Json.uint32? default.maxDepth "max_path_depth" }

end ObjectQuery.Layout
