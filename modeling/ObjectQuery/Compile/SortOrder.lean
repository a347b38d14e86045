import ObjectQuery.Compile.Route
import ObjectQuery.Sql.SetQuery

/-! Sorting. Each key is a property with one value for every entity, joined from the left; only
the first key on a property counts. A page of an unordered query is sorted by identity, so that
pages do not overlap. -/
namespace ObjectQuery

structure SortColumn where
  column : Column
  direction : Direction
  deriving DecidableEq, Repr

/-- Joins laid and sort columns found so far; both stay when a later key fails. -/
structure SortPlan where
  route : Route
  columns : List SortColumn
  deriving DecidableEq, Repr

abbrev Sorting := EStateM CompileError SortPlan

namespace Sorting

def lay {α : Type} (lay : Lay α) : Sorting α := fun s =>
  match lay s.route with
  | .ok a r => .ok a { s with route := r }
  | .error e r => .error e { s with route := r }

def push (c : SortColumn) : Sorting Unit := modify fun s => { s with columns := s.columns ++ [c] }

end Sorting

def Direction.toSql : Direction → Sql.Order
  | .ascending => .asc
  | .descending => .desc

namespace Context

def laySortColumn (ctx : Context) (p : PropertyPath) (root : Alias) : Lay Column := do
  if ← ofExcept (ctx.fansOut p) then throw (.unsupported (.orderMultiValued p))
  let target ← ctx.layPath p root .left
  if target.isCollection then throw (.unsupported (.orderCollection p))
  pure target.value

def sortBy (ctx : Context) (root : Alias) : List PropertyPath → List SortKey → Sorting Unit
  | _, [] => pure ()
  | seen, k :: rest =>
    if k.property ∈ seen then sortBy ctx root seen rest
    else do
      let column ← Sorting.lay (ctx.laySortColumn k.property root)
      Sorting.push ⟨column, k.direction⟩
      sortBy ctx root (k.property :: seen) rest

def sort (ctx : Context) (root : Alias) (byIdentity : Bool) (keys : List SortKey) : Sorting Unit := do
  ctx.sortBy root [] keys
  if byIdentity && (← get).columns.isEmpty then
    Sorting.push ⟨ctx.layout.identityOf root, .ascending⟩

end Context

namespace Sql.Select

def showing (columns : List String) (column : String) : List String :=
  -- distinct rows can be sorted only by what they show
  if columns.contains column then columns else columns ++ [column]

def sorted (s : Select) (joins : List ObjectQuery.Join) (columns : List SortColumn) : Select :=
  { s with
    joins := s.joins ++ joins.map Join.toSql
    select := (columns.map (·.column.text)).foldl showing s.select
    orderBy := s.orderBy ++ columns.map fun c => ⟨c.column.text, c.direction.toSql⟩ }

end Sql.Select

structure Draft where
  issued : Nat
  statement : Sql.Select
  deriving Repr

def Context.sortStatement (ctx : Context) (keys : List SortKey) (root : Alias) (paginated : Bool) :
    EStateM CompileError Draft Unit := fun d =>
  let extended (plan : SortPlan) : Draft :=
    ⟨plan.route.issued, d.statement.sorted plan.route.joins plan.columns⟩
  match ctx.sort root (paginated && d.statement.orderBy.isEmpty) keys ⟨⟨d.issued, []⟩, []⟩ with
  | .ok _ plan => .ok () (extended plan)
  | .error e plan => .error e (extended plan)

end ObjectQuery
