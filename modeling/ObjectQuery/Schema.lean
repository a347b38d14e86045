import ObjectQuery.Value

/-! What a compilation may ask about the stored model: the table of an attribute, the type
ids behind a logical type, the stored key of an enumeration constant and the SQL type of a
value. -/
namespace ObjectQuery

structure AttributeTable where
  name : String
  /-- Zero for a plain attribute, `n` for a collection nested `n` levels deep. -/
  depth : UInt32
  parentColumn : String
  childColumn : String
  deriving DecidableEq, Repr

namespace AttributeTable

def defaultParentColumn : String := "parent_qname"

def defaultChildColumn : String := "qname_id"

def of (name : String) (depth : UInt32) : AttributeTable :=
  ⟨name, depth, defaultParentColumn, defaultChildColumn⟩

def isCollection (t : AttributeTable) : Bool := decide (0 < t.depth)

end AttributeTable

structure Schema where
  tableOf : QualifiedName → Option AttributeTable
  typeIds : String → Option (List Int32)
  enumKey : String → String → Option Int64
  sqlType : Value → Option SqlType

namespace Schema

def empty : Schema := ⟨fun _ => none, fun _ => none, fun _ _ => none, Value.sqlType⟩

def withAttribute (s : Schema) (name : QualifiedName) (table : AttributeTable) : Schema :=
  { s with tableOf := fun n => if n = name then some table else s.tableOf n }

def withTypeIds (s : Schema) (logicalType : String) (ids : List Int32) : Schema :=
  { s with typeIds := fun t => if t = logicalType then some ids else s.typeIds t }

def withEnumKey (s : Schema) (enumType variant : String) (key : Int64) : Schema :=
  { s with enumKey := fun t v => if t = enumType ∧ v = variant then some key else s.enumKey t v }

def withSqlType (s : Schema) (kind : ValueKind) (type : Option SqlType) : Schema :=
  { s with sqlType := fun v => if v.kind = kind then type else s.sqlType v }

end Schema
end ObjectQuery
