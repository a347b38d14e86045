import ObjectQuery.Identifier

/-! The layout of a store: one entity table, and for every attribute a table whose rows carry
the key of their entity, a value, and within collections a path. -/
namespace ObjectQuery

structure Layout where
  schemaName : String
  entityTable : String
  entityKey : String
  entityIdentity : String
  entityTypeId : String
  attributeEntityKey : String
  attributeValue : String
  collectionPath : String
  collectionRoot : String
  maxDepth : UInt32
  deriving DecidableEq, Repr

namespace Layout

def default : Layout where
  schemaName := ""
  entityTable := "entities"
  entityKey := "entity_pk"
  entityIdentity := "entity_identity"
  entityTypeId := "entity_type_id"
  attributeEntityKey := "entity_pk"
  attributeValue := "qname_value"
  collectionPath := "collection_path"
  collectionRoot := "top"
  maxDepth := 16

def fieldNames : List String :=
  ["schema_name", "entity_table", "entity_pk_column", "entity_identity_column",
    "entity_type_id_column", "attribute_entity_pk_column", "attribute_value_column",
    "collection_path_column", "collection_path_top_label", "max_path_depth"]

def qualified (l : Layout) (table : String) : String :=
  if l.schemaName = "" then table else l.schemaName ++ "." ++ table

def belowRoot (l : Layout) : String := l.collectionRoot ++ ".*\x7b1,\x7d"

inductive Fault where
  | notIdentifier (field : String)
  | depthOutOfRange
  deriving DecidableEq, Repr

namespace Fault

def field : Fault → String
  | .notIdentifier f => f
  | .depthOutOfRange => "max_path_depth"

def code : Fault → String
  | .notIdentifier _ => "sql_identifier"
  | .depthOutOfRange => "range"

def message : Fault → Option String
  | .notIdentifier _ => none
  | .depthOutOfRange => some "Max path depth must be between 1 and 64"

end Fault

def checkName (field name : String) : List Fault :=
  if isIdentifier name then [] else [.notIdentifier field]

def faults (l : Layout) : List Fault :=
  checkName "attribute_entity_pk_column" l.attributeEntityKey ++
  checkName "attribute_value_column" l.attributeValue ++
  checkName "collection_path_column" l.collectionPath ++
  checkName "collection_path_top_label" l.collectionRoot ++
  checkName "entity_identity_column" l.entityIdentity ++
  checkName "entity_pk_column" l.entityKey ++
  checkName "entity_table" l.entityTable ++
  checkName "entity_type_id_column" l.entityTypeId ++
  (if 1 ≤ l.maxDepth ∧ l.maxDepth ≤ 64 then [] else [.depthOutOfRange]) ++
  (if l.schemaName = "" then [] else checkName "schema_name" l.schemaName)

end Layout
end ObjectQuery
