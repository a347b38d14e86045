import ObjectQuery.Value

/-! SQL conditions: text with a `?` for every parameter, and the parameters in the order of
their placeholders. Values never enter the text. -/
namespace ObjectQuery

structure BoundParameter where
  value : Value
  sqlType : SqlType
  deriving Repr

structure Condition where
  sql : String
  parameters : List BoundParameter
  deriving Repr

namespace Sql

def column (table name : String) : String := table ++ "." ++ name

end Sql

namespace Condition

def raw (sql : String) : Condition := ⟨sql, []⟩

def isNull (column : String) : Condition := raw (column ++ " IS NULL")

def binary (left operator : String) (parameter : BoundParameter) : Condition :=
  ⟨left ++ " " ++ operator ++ " ?", [parameter]⟩

def group (separator : String) : List Condition → Condition
  | [part] => part
  | parts => ⟨"(" ++ separator.intercalate (parts.map (·.sql)) ++ ")", parts.flatMap (·.parameters)⟩

def all (parts : List Condition) : Condition := group " AND " parts

def any (parts : List Condition) : Condition := group " OR " parts

end Condition
end ObjectQuery
