import ObjectQuery.Catalog.Subtypes
import ObjectQuery.Text.Stored
import ObjectQuery.Yaml.Fields

/-! Catalogs written in YAML. Table and columns of an attribute have to be text where no type
is asked for, so that `12` or `true` names no table. -/
namespace ObjectQuery

namespace AttributeTable

def column? (default name : String) (fields : Yaml.Fields) : Option String :=
  fields.defaulted Yaml.Node.resolvedText? default name

def depth? (n : Yaml.Node) : Option UInt32 := do
  let depth ← n.resolvedInt?
  if 0 ≤ depth ∧ depth < UInt32.size then some (UInt32.ofNat depth.toNat) else none

def ofFields? (fields : Yaml.Fields) : Option AttributeTable := do
  let name ← match fields.lookup "table_name", fields.lookup "table" with
    | some n, none | none, some n => n.resolvedText?
    | _, _ => none
  some ⟨name, ← fields.defaulted depth? 0 "collection_depth",
    ← column? defaultParentColumn "parent_join_column" fields,
    ← column? defaultChildColumn "child_join_column" fields⟩

end AttributeTable

namespace AttributeDeclaration

def fieldNames : List String :=
  ["declaring_type", "name", "table_name", "table", "collection_depth", "parent_join_column",
    "child_join_column"]

/-- How deep the values of other fields may be. A document is at most 128 deep; it, the list of
attributes and the attribute are three levels of it. -/
def greatestDepth : Nat := 125

def ofNode? (n : Yaml.Node) : Option AttributeDeclaration := do
  let fields ← n.record? fieldNames
  let declaringType ← fields.required Yaml.Node.text? "declaring_type"
  let name ← fields.required Yaml.Node.text? "name"
  let others := fields.filter fun f => f.1 != "declaring_type" && f.1 != "name"
  if others.all fun (_, value) => value.isResolvable && value.depth ≤ greatestDepth then some ⟨⟨declaringType, name⟩, ← AttributeTable.ofFields? others⟩
  else none

end AttributeDeclaration

namespace TypeDeclaration

def ofNode? (n : Yaml.Node) : Option TypeDeclaration := do
  let fields ← n.record? ["name", "type_id", "super_types"]
  some ⟨← fields.required Yaml.Node.text? "name",
    ← fields.defaulted (Yaml.Node.nullable? Yaml.Node.int32?) none "type_id",
    ← fields.defaulted (Yaml.Node.list? Yaml.Node.text?) [] "super_types"⟩

end TypeDeclaration

namespace KeyTable

def ofNode? {α : Type} (decode : Yaml.Node → Option α) (n : Yaml.Node) : Option (KeyTable α) := do
  let entries ← (← n.fields?).mapM fun (key, value) => (decode value).map (key, ·)
  some (ofList entries)

end KeyTable

namespace Catalog

def ofNode? (n : Yaml.Node) : Option Catalog := do
  let fields ← n.record? ["entity_types", "attributes", "enums"]
  some ⟨← fields.defaulted (Yaml.Node.list? TypeDeclaration.ofNode?) [] "entity_types",
    ← fields.defaulted (Yaml.Node.list? AttributeDeclaration.ofNode?) [] "attributes",
    ← fields.defaulted (KeyTable.ofNode? (KeyTable.ofNode? Yaml.Node.int64?)) .empty "enums"⟩

inductive LoadError where
  | unreadable (failure : Text.ReadFailure)
  | unparsable
  | invalid (fault : Fault)
  deriving DecidableEq, Repr

namespace LoadError

def message : LoadError → Option String
  | .unreadable f => some ("Failed to read catalog file: " ++ f.message)
  | .unparsable => none
  | .invalid f => some f.message

end LoadError

def ofYaml (text : String) : Except LoadError Catalog :=
  match (Yaml.Node.ofText? text).bind ofNode? with
  | none => .error .unparsable
  | some c => .ok c

def ofStored (content : Option ByteArray) : Except LoadError Catalog := do
  ofYaml (← (Text.ofStored content).mapError .unreadable)

end Catalog

namespace Schema

def ofYaml (text : String) : Except Catalog.LoadError Schema := do
  (← Catalog.ofYaml text).toSchema.mapError .invalid

end Schema
end ObjectQuery
