import ObjectQuery.Sql.Select

/-! Queries for sets of rows: single statements, and set operations over two queries. A
compound writes both operands in parentheses. -/
namespace ObjectQuery

inductive SetOperator where
  | intersect
  | union
  | except
  deriving DecidableEq, Repr

def SetOperator.keyword : SetOperator → String
  | .intersect => "INTERSECT"
  | .union => "UNION"
  | .except => "EXCEPT"

inductive SetQuery (Statement : Type) where
  | select (statement : Statement)
  | compound (operator : SetOperator) (left right : SetQuery Statement)
  deriving DecidableEq, Repr

namespace SetQuery

def map {α β : Type} (f : α → β) : SetQuery α → SetQuery β
  | .select s => .select (f s)
  | .compound o l r => .compound o (l.map f) (r.map f)

def statements {α : Type} : SetQuery α → List α
  | .select s => [s]
  | .compound _ l r => l.statements ++ r.statements

theorem statementsMap {α β : Type} (f : α → β) (q : SetQuery α) :
    (q.map f).statements = q.statements.map f := by
  induction q with
  | select s => rfl
  | compound o l r left right => simp only [map, statements, left, right, List.map_append]

def sql : SetQuery Sql.Select → String
  | .select s => s.sql
  | .compound o l r => "(" ++ l.sql ++ ") " ++ o.keyword ++ " (" ++ r.sql ++ ")"

def parameters : SetQuery Sql.Select → List BoundParameter
  | .select s => s.parameters
  | .compound _ l r => l.parameters ++ r.parameters

end SetQuery
end ObjectQuery
