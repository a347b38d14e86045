import ObjectQuery.Layout
import ObjectQuery.Text.Numeral
import ObjectQuery.Text.Stored
import ObjectQuery.Yaml.Fields

/-! Layouts from a YAML text or from environment variables. What is not given keeps its
default, and every layout is checked. -/
namespace ObjectQuery.Layout

inductive LoadError where
  | unreadable (failure : Text.ReadFailure)
  | unparsable
  | badDepth (text : String) (fault : Text.NumeralFault)
  | invalid (faults : List Fault)
  deriving DecidableEq, Repr

def depthVariable : String := "ENTITY_SQL_MAX_PATH_DEPTH"

namespace LoadError

def field : LoadError → Option String
  | .unreadable _ => some "yaml_file"
  | .unparsable => some "yaml_content"
  | .badDepth _ _ => some depthVariable
  | .invalid _ => none

def value : LoadError → Option String
  | .unreadable _ => some "file read failed"
  | .badDepth text _ => some text
  | _ => none

def cause : LoadError → Option String
  | .unreadable failure => some failure.message
  | .badDepth _ fault => some fault.message
  | _ => none

def message (e : LoadError) : Option String := do
  some ("Parse error for " ++ (← e.field) ++ ": " ++ (← e.value) ++ " - " ++ (← e.cause))

end LoadError

def checked (l : Layout) : Except LoadError Layout :=
  if l.faults.isEmpty then .ok l else .error (.invalid l.faults)

def ofNode? (n : Yaml.Node) : Option Layout := do
  let fields ← n.record? fieldNames
  let text (name fallback : String) := fields.defaulted Yaml.Node.text? fallback name
  some {
    schemaName := ← text "schema_name" default.schemaName
    entityTable := ← text "entity_table" default.entityTable
    entityKey := ← text "entity_pk_column" default.entityKey
    entityIdentity := ← text "entity_identity_column" default.entityIdentity
    entityTypeId := ← text "entity_type_id_column" default.entityTypeId
    attributeEntityKey := ← text "attribute_entity_pk_column" default.attributeEntityKey
    attributeValue := ← text "attribute_value_column" default.attributeValue
    collectionPath := ← text "collection_path_column" default.collectionPath
    collectionRoot := ← text "collection_path_top_label" default.collectionRoot
    maxDepth := ← fields.defaulted Yaml.Node.uint32? default.maxDepth "max_path_depth" }

def ofYaml (text : String) : Except LoadError Layout :=
  match (Yaml.Node.ofText? text).bind ofNode? with
  | none => .error .unparsable
  | some l => l.checked

def ofStored (content : Option ByteArray) : Except LoadError Layout := do
  ofYaml (← (Text.ofStored content).mapError .unreadable)

def depthOf : Option String → Except LoadError UInt32
  | none => .ok default.maxDepth
  | some text =>
    match Text.natural UInt32.size text.toList with
    | .ok n => .ok (UInt32.ofNat n)
    | .error fault => .error (.badDepth text fault)

def ofEnvironment (read : String → Option String) : Except LoadError Layout := do
  let name (suffix fallback : String) := (read ("ENTITY_SQL_" ++ suffix)).getD fallback
  let depth ← depthOf (read depthVariable)
  checked {
    schemaName := name "SCHEMA" default.schemaName
    entityTable := name "ENTITY_TABLE" default.entityTable
    entityKey := name "ENTITY_PK_COLUMN" default.entityKey
    entityIdentity := name "ENTITY_IDENTITY_COLUMN" default.entityIdentity
    entityTypeId := name "ENTITY_TYPE_ID_COLUMN" default.entityTypeId
    attributeEntityKey := name "ATTRIBUTE_ENTITY_PK_COLUMN" default.attributeEntityKey
    attributeValue := name "ATTRIBUTE_VALUE_COLUMN" default.attributeValue
    collectionPath := name "COLLECTION_PATH_COLUMN" default.collectionPath
    collectionRoot := name "COLLECTION_TOP_LABEL" default.collectionRoot
    maxDepth := depth }

end ObjectQuery.Layout
