import ObjectQuery.Sql.Condition

/-! The `SELECT` statement and its text. -/
namespace ObjectQuery

inductive JoinKind where
  | inner
  | left
  deriving DecidableEq, Repr

def JoinKind.keyword : JoinKind → String
  | .inner => "JOIN"
  | .left => "LEFT JOIN"

namespace Sql

structure Join where
  table : String
  tableAlias : String
  kind : JoinKind
  on : List String
  deriving DecidableEq, Repr

def Join.sql (j : Join) : String :=
  j.kind.keyword ++ " " ++ j.table ++ " " ++ j.tableAlias ++ " ON " ++ " AND ".intercalate j.on

inductive Order where
  | asc
  | desc
  deriving DecidableEq, Repr

def Order.keyword : Order → String
  | .asc => "ASC"
  | .desc => "DESC"

structure OrderItem where
  expression : String
  order : Order
  deriving DecidableEq, Repr

def OrderItem.sql (i : OrderItem) : String := i.expression ++ " " ++ i.order.keyword

structure Select where
  distinct : Bool
  select : List String
  table : String
  tableAlias : String
  joins : List Join
  filters : List Condition
  groupBy : List String
  having : Option Condition
  orderBy : List OrderItem
  limit : Option UInt64
  offset : Option UInt64
  deriving Repr

namespace Select

def of (table tableAlias : String) : Select :=
  ⟨false, [], table, tableAlias, [], [], [], none, [], none, none⟩

def clause (keyword separator : String) (parts : List String) : String :=
  if parts.isEmpty then "" else keyword ++ separator.intercalate parts

def option (keyword : String) : Option String → String
  | none => ""
  | some part => keyword ++ part

def sql (s : Select) : String :=
  "SELECT " ++ (if s.distinct then "DISTINCT " else "") ++ ", ".intercalate s.select ++
  " FROM " ++ s.table ++ " " ++ s.tableAlias ++
  String.join (s.joins.map fun j => " " ++ j.sql) ++
  clause " WHERE " " AND " (s.filters.map (·.sql)) ++
  clause " GROUP BY " ", " s.groupBy ++
  option " HAVING " (s.having.map (·.sql)) ++
  clause " ORDER BY " ", " (s.orderBy.map (·.sql)) ++
  option " LIMIT " (s.limit.map (toString ·.toNat)) ++
  option " OFFSET " (s.offset.map (toString ·.toNat))

def parameters (s : Select) : List BoundParameter :=
  s.filters.flatMap (·.parameters) ++ s.having.elim [] (·.parameters)

end Select
end Sql
end ObjectQuery
