import ObjectQuery.Identifier
import ObjectQuery.KeyTable
import ObjectQuery.Schema

/-! Catalogs: declared entity types, attributes with their tables, and the stored keys of
enumeration constants. A catalog is well formed if types and attributes are declared once, every
super type is declared, and every name that goes into SQL is an identifier. -/
namespace ObjectQuery

structure TypeDeclaration where
  name : String
  typeId : Option Int32
  superTypes : List String
  deriving DecidableEq, Repr

structure AttributeDeclaration where
  name : QualifiedName
  table : AttributeTable
  deriving DecidableEq, Repr

structure Catalog where
  types : List TypeDeclaration
  attributes : List AttributeDeclaration
  enums : KeyTable (KeyTable Int64)
  deriving DecidableEq, Repr

namespace Catalog

inductive Fault where
  | duplicateType
  | undeclaredSuperType (superType : String) (type : String)
  | tableNotIdentifier (table : String)
  | columnNotIdentifier (column : String)
  | duplicateAttribute (name : QualifiedName)
  deriving DecidableEq, Repr

def Fault.message : Fault → String
  | .duplicateType => "Invalid catalog: Duplicate entity type name"
  | .undeclaredSuperType s t =>
    "Invalid catalog: super type `" ++ s ++ "` is not declared\n  Context: While resolving entity type `" ++
      t ++ "`"
  | .tableNotIdentifier t => "Invalid table mapping: `" ++ t ++ "` is not a valid SQL identifier"
  | .columnNotIdentifier c => "Invalid column mapping: `" ++ c ++ "` is not a valid SQL identifier"
  | .duplicateAttribute n => "Duplicate attribute `" ++ n.text ++ "`"

def declared (c : Catalog) : List String := c.types.map (·.name)

def checkSuperTypes (declared : List String) (t : TypeDeclaration) : Except Fault Unit :=
  match t.superTypes.find? fun s => !declared.contains s with
  | none => .ok ()
  | some s => .error (.undeclaredSuperType s t.name)

def checkColumn (column : String) : Except Fault Unit :=
  if isIdentifier column then .ok () else .error (.columnNotIdentifier column)

def checkTable (t : AttributeTable) : Except Fault Unit := do
  if isIdentifier t.name then pure () else throw (.tableNotIdentifier t.name)
  checkColumn t.parentColumn
  checkColumn t.childColumn

def checkAttributes (seen : List QualifiedName) : List AttributeDeclaration → Except Fault Unit
  | [] => .ok ()
  | a :: rest => do
    checkTable a.table
    if a.name ∈ seen then throw (.duplicateAttribute a.name)
    checkAttributes (a.name :: seen) rest

def check (c : Catalog) : Except Fault Unit := do
  if c.declared.Nodup then pure () else throw .duplicateType
  c.types.forM (checkSuperTypes c.declared)
  checkAttributes [] c.attributes

end Catalog
end ObjectQuery
