import ObjectQuery.Sql.Select

/-! Table aliases, and columns of aliased tables. -/
namespace ObjectQuery

inductive Alias where
  | numbered (index : Nat)
  | named (name : String)
  deriving DecidableEq, Repr

def Alias.text : Alias → String
  | .numbered n => "t" ++ toString n
  | .named s => s

structure Column where
  table : Alias
  name : String
  deriving DecidableEq, Repr

def Column.text (c : Column) : String := Sql.column c.table.text c.name

structure Equation where
  left : Column
  right : Column
  deriving DecidableEq, Repr

def Equation.text (e : Equation) : String := e.left.text ++ " = " ++ e.right.text

structure Join where
  table : String
  tableAlias : Alias
  kind : JoinKind
  on : List Equation
  deriving DecidableEq, Repr

def Join.toSql (j : Join) : Sql.Join := ⟨j.table, j.tableAlias.text, j.kind, j.on.map Equation.text⟩

end ObjectQuery
