import ObjectQuery.Compile.Error
import ObjectQuery.Plan.Selection
import ObjectQuery.Schema

/-! What every compilation reads, and what it counts: the aliases given out so far, which stay
given out when the compilation fails. -/
namespace ObjectQuery

structure Context where
  schema : Schema
  layout : Layout

abbrev Compile := EStateM CompileError Nat

namespace Compile

def newAlias : Compile Alias := modifyGet fun n => (.numbered n, n + 1)

end Compile

namespace Context

def lookup (ctx : Context) (name : QualifiedName) : Except CompileError AttributeTable :=
  match ctx.schema.tableOf name with
  | some t => .ok t
  | none => .error (.inconsistent (.unmapped name))

def literal : Operand → Except CompileError Value
  | .literal v => .ok v
  | .variable x => .error (.unresolved x)

def bind (ctx : Context) (v : Value) : Except CompileError BoundParameter := do
  if v.isScalar then
    match ctx.schema.sqlType v with
    | none => throw (.inconsistent (.noSqlType v.kind))
    | some type =>
      match v with
      | .enum t variant =>
        match ctx.schema.enumKey t variant with
        | none => throw (.inconsistent (.noEnumKey t variant))
        | some key => pure ⟨.int key, type⟩
      | v => pure ⟨v, type⟩
  else throw (.unsupported (.unbindable v.kind))

end Context
end ObjectQuery
