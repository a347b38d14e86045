import ObjectQuery.Plan.Test
import ObjectQuery.Layout
import ObjectQuery.Sql.SetQuery

/-! A selection: the entities of a type, one row each, whose joined attribute rows pass every
test. A division keeps an entity only if its rows together match enough elements. -/
namespace ObjectQuery

inductive Tally where
  | values (column : Column)
  | matches (tests : List Test)
  deriving Repr

structure Division where
  tally : Tally
  required : Nat
  deriving Repr

structure Selection where
  root : Alias
  typeIds : List Int32
  joins : List Join
  tests : List Test
  division : Option Division
  deriving Repr

abbrev SetPlan := SetQuery Selection

namespace Layout

def keyOf (l : Layout) (a : Alias) : Column := ⟨a, l.entityKey⟩

def identityOf (l : Layout) (a : Alias) : Column := ⟨a, l.entityIdentity⟩

def typeTest (l : Layout) (typeIds : List Int32) (a : Alias) : Test :=
  if typeIds.isEmpty then .never else .typeAmong ⟨a, l.entityTypeId⟩ typeIds

end Layout

namespace Division

def whenClauses : Nat → List Condition → List String
  | _, [] => []
  | n, c :: rest => ("WHEN " ++ c.sql ++ " THEN " ++ toString n) :: whenClauses (n + 1) rest

def toCondition (d : Division) : Condition :=
  match d.tally with
  | .values c => .raw ("COUNT(DISTINCT " ++ c.text ++ ") >= " ++ toString d.required)
  | .matches tests =>
    let conditions := Test.toConditions tests
    ⟨"COUNT(DISTINCT CASE " ++ " ".intercalate (whenClauses 1 conditions) ++ " END) >= " ++
      toString d.required, conditions.flatMap (·.parameters)⟩

end Division

namespace Selection

def columns (l : Layout) (s : Selection) : List String :=
  [(l.keyOf s.root).text, (l.identityOf s.root).text]

def toSelect (l : Layout) (s : Selection) : Sql.Select where
  distinct := true
  select := s.columns l
  table := l.qualified l.entityTable
  tableAlias := s.root.text
  joins := s.joins.map Join.toSql
  filters := Test.toConditions (l.typeTest s.typeIds s.root :: s.tests)
  groupBy := if s.division.isSome then s.columns l else []
  having := s.division.map Division.toCondition
  orderBy := []
  limit := none
  offset := none

end Selection

def SetQuery.toSql (l : Layout) (q : SetPlan) : SetQuery Sql.Select := q.map (·.toSelect l)

end ObjectQuery
