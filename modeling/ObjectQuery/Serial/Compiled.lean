import ObjectQuery.Compile.Request
import ObjectQuery.Json.Printer
import ObjectQuery.Serial.Value

/-! The diagnostic text of a compiled query. -/
namespace ObjectQuery.CompiledQuery

def toJson (q : CompiledQuery) : Json :=
  .obj [("sql", .str q.sql), ("parameters", .ofList Value.toJson q.parameters),
    ("parameter_types", .ofList SqlType.toJson q.parameterTypes)]

def diagnostic (q : CompiledQuery) : String := q.toJson.pretty 0

end ObjectQuery.CompiledQuery
