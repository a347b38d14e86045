import ObjectQuery.Compile.Connective
import ObjectQuery.Compile.SortOrder

/-! Requests for entities of a type, compiled to one statement: distinct rows of key and
identity, sorted and paged, or their number. Both share one restriction. -/
namespace ObjectQuery

structure Request where
  resultType : String
  predicate : Option Predicate
  orderBy : List SortKey
  first : Option UInt64
  max : Option UInt64
  deriving Repr

structure Restriction where
  root : Alias
  typeIds : List Int32
  members : Option SetPlan
  deriving Repr

structure RowPlan where
  restriction : Restriction
  joins : List Join
  sortColumns : List SortColumn
  limit : Option UInt64
  offset : Option UInt64
  deriving Repr

namespace Request

def offset (r : Request) : Option UInt64 := r.first.filter (0 < ·)

def paginated (r : Request) : Bool := r.offset.isSome || r.max.isSome

end Request

namespace Restriction

def membership (l : Layout) (root : Alias) (members : SetQuery Sql.Select) : Condition :=
  ⟨"(" ++ (l.keyOf root).text ++ ", " ++ (l.identityOf root).text ++ ") IN (" ++ members.sql ++ ")",
    members.parameters⟩

def filters (l : Layout) (r : Restriction) : List Condition :=
  (l.typeTest r.typeIds r.root).toCondition ::
    match r.members with
    | none => []
    | some q => [membership l r.root (q.toSql l)]

def statement (l : Layout) (r : Restriction) (distinct : Bool) (columns : List String) : Sql.Select :=
  { Sql.Select.of (l.qualified l.entityTable) r.root.text with
    distinct := distinct, select := columns, filters := r.filters l }

def countStatement (l : Layout) (r : Restriction) : Sql.Select :=
  r.statement l false ["COUNT(DISTINCT " ++ (l.keyOf r.root).text ++ ")"]

end Restriction

namespace RowPlan

def toSelect (l : Layout) (p : RowPlan) : Sql.Select :=
  let root := p.restriction.root
  let rows := p.restriction.statement l true [(l.keyOf root).text, (l.identityOf root).text]
  { rows.sorted p.joins p.sortColumns with limit := p.limit, offset := p.offset }

end RowPlan

structure CompiledQuery where
  sql : String
  parameters : List Value
  parameterTypes : List SqlType
  deriving Repr

namespace CompiledQuery

def ofSelect (s : Sql.Select) : CompiledQuery :=
  ⟨s.sql, s.parameters.map (·.value), s.parameters.map (·.sqlType)⟩

def typeCodes (q : CompiledQuery) : List Int := q.parameterTypes.map SqlType.code

end CompiledQuery

def Compile.result {α : Type} (m : Compile α) : Except CompileError α :=
  match m 0 with
  | .ok a _ => .ok a
  | .error e _ => .error e

namespace Context

def restrict (ctx : Context) (r : Request) : Compile Restriction :=
  match ctx.schema.typeIds r.resultType with
  | none => throw (.inconsistent (.unknownType r.resultType))
  | some ids => do
    let root ← Compile.newAlias
    match r.predicate with
    | none => pure ⟨root, ids, none⟩
    | some p => do pure ⟨root, ids, ← (Scope.mk ctx ids).compile p false⟩

def rowPlan (ctx : Context) (r : Request) : Compile RowPlan := do
  let restriction ← ctx.restrict r
  let sorting : Compile SortPlan := fun issued =>
    match ctx.sort restriction.root r.paginated r.orderBy ⟨⟨issued, []⟩, []⟩ with
    | .ok _ plan => .ok plan plan.route.issued
    | .error e plan => .error e plan.route.issued
  let plan ← sorting
  pure ⟨restriction, plan.route.joins, plan.columns, r.max, r.offset⟩

def compileRows (ctx : Context) (r : Request) : Except CompileError CompiledQuery := do
  let plan ← (ctx.rowPlan r).result
  pure (.ofSelect (plan.toSelect ctx.layout))

def compileCount (ctx : Context) (r : Request) : Except CompileError CompiledQuery := do
  let restriction ← (ctx.restrict r).result
  pure (.ofSelect (restriction.countStatement ctx.layout))

end Context
end ObjectQuery
