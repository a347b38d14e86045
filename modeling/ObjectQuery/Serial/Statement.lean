import ObjectQuery.Serial.Value
import ObjectQuery.Sql.SetQuery

/-! Serialized SQL statements and set queries. -/
namespace ObjectQuery

namespace BoundParameter

def toJson (p : BoundParameter) : Json :=
  .obj [("value", p.value.toJson), ("sql_type", p.sqlType.toJson)]

def ofJson? (j : Json) : Option BoundParameter := do
  let m ← j.record? ["value", "sql_type"] []
  some ⟨← m.required Value.ofJson? "value", ← m.required SqlType.ofJson? "sql_type"⟩

end BoundParameter

namespace Condition

def toJson (c : Condition) : Json :=
  .obj [("sql", .str c.sql), ("parameters", .ofList BoundParameter.toJson c.parameters)]

def ofJson? (j : Json) : Option Condition := do
  let m ← j.record? ["sql", "parameters"] []
  some ⟨← m.required Json.str? "sql", ← m.required (Json.list? BoundParameter.ofJson?) "parameters"⟩

end Condition

namespace JoinKind

def toJson : JoinKind → Json
  | .inner => .str "Inner"
  | .left => .str "Left"

def ofJson? : Json → Option JoinKind := Json.constant? [("Inner", .inner), ("Left", .left)]

end JoinKind

namespace Sql

def strings (items : List String) : Json := .ofList .str items

def strings? : Json → Option (List String) := Json.list? Json.str?

namespace Join

def toJson (j : Join) : Json :=
  .obj [("table_name", .str j.table), ("table_alias", .str j.tableAlias), ("join_type", j.kind.toJson),
    ("joining_on", strings j.on)]

def ofJson? (j : Json) : Option Join := do
  let m ← j.record? ["table_name", "table_alias", "join_type", "joining_on"] []
  some ⟨← m.required Json.str? "table_name", ← m.required Json.str? "table_alias",
    ← m.required JoinKind.ofJson? "join_type", ← m.required strings? "joining_on"⟩

end Join

namespace Order

def toJson : Order → Json
  | .asc => .str "Asc"
  | .desc => .str "Desc"

def ofJson? : Json → Option Order := Json.constant? [("Asc", .asc), ("Desc", .desc)]

end Order

namespace OrderItem

def toJson (i : OrderItem) : Json :=
  .obj [("expression", .str i.expression), ("order", i.order.toJson)]

def ofJson? (j : Json) : Option OrderItem := do
  let m ← j.record? ["expression", "order"] []
  some ⟨← m.required Json.str? "expression", ← m.required Order.ofJson? "order"⟩

end OrderItem

namespace Select

def toJson (s : Select) : Json :=
  .obj [("distinct", .bool s.distinct), ("select", strings s.select), ("from_table", .str s.table),
    ("from_alias", .str s.tableAlias), ("joins", .ofList Join.toJson s.joins),
    ("filters", .ofList Condition.toJson s.filters), ("group_by", strings s.groupBy),
    ("having", .ofOption Condition.toJson s.having),
    ("order_by", .ofList OrderItem.toJson s.orderBy),
    ("limit", .ofOption (fun n => .int n.toNat) s.limit),
    ("offset", .ofOption (fun n => .int n.toNat) s.offset)]

def fieldNames : List String :=
  ["distinct", "select", "from_table", "from_alias", "joins", "filters", "group_by", "having", "order_by",
    "limit", "offset"]

def ofJson? (j : Json) : Option Select := do
  let m ← j.record? fieldNames []
  some {
    distinct := ← m.required Json.bool? "distinct"
    select := ← m.required strings? "select"
    table := ← m.required Json.str? "from_table"
    tableAlias := ← m.required Json.str? "from_alias"
    joins := ← m.required (Json.list? Join.ofJson?) "joins"
    filters := ← m.required (Json.list? Condition.ofJson?) "filters"
    groupBy := ← m.required strings? "group_by"
    having := ← m.optional Condition.ofJson? "having"
    orderBy := ← m.required (Json.list? OrderItem.ofJson?) "order_by"
    limit := ← m.optional Json.uint64? "limit"
    offset := ← m.optional Json.uint64? "offset" }

end Select
end Sql

namespace SetOperator

def toJson : SetOperator → Json
  | .intersect => .str "Intersect"
  | .union => .str "Union"
  | .except => .str "Except"

def ofJson? : Json → Option SetOperator :=
  Json.constant? [("Intersect", .intersect), ("Union", .union), ("Except", .except)]

end SetOperator

namespace SetQuery

def toJson : SetQuery Sql.Select → Json
  | .select s => .obj [("Select", s.toJson)]
  | .compound o l r =>
    .obj [("Compound", .obj [("operator", o.toJson), ("left", l.toJson), ("right", r.toJson)])]

mutual
def ofJson? : Json → Option (SetQuery Sql.Select)
  | .obj [(tag, j)] =>
    if tag = "Select" then (Sql.Select.ofJson? j).map .select
    else if tag = "Compound" then
      match j with
      | .obj members => do
        let operator ← Members.required SetOperator.ofJson? "operator" members
        some (.compound operator (← operand? "left" members) (← operand? "right" members))
      | _ => none
    else none
  | _ => none
def operand? (side : String) : List (String × Json) → Option (SetQuery Sql.Select)
  | [] => none
  | (name, j) :: rest => if name = side then ofJson? j else operand? side rest
end

end SetQuery
end ObjectQuery
