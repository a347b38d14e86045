import ObjectQuery.Compile.Route

/-! Elements of collections. A collection has one row an element, placed below the root of its
path. A value object keeps its fields in tables of their own, which hang off the element's row;
a field is joined once for each pair of parent and field name. Two elements are one if they
match the same rows once bound. -/
namespace ObjectQuery

abbrev Children := List ((QualifiedName × QualifiedName) × Alias)

structure ElementSource where
  tableAlias : Alias
  name : QualifiedName
  table : AttributeTable
  deriving DecidableEq, Repr

namespace Context

def sameBound : Value → Value → Bool
  -- an integer equals a float that has the integer's rounded value
  | .int i, .float x => Float.ofInt i.toInt == x
  | .float x, .int i => Float.ofInt i.toInt == x
  | a, b => a.equals b

mutual
def boundEqual (ctx : Context) : Value → Value → Except CompileError Bool
  | .null, b => .ok b.isNull
  | .composite _ left, .composite _ right =>
    if left.length = right.length then fieldsEqual ctx left right else .ok false
  | .composite _ _, _ => .ok false
  | _, .null => .ok false
  | _, .composite _ _ => .ok false
  | a, b => do
    let x ← ctx.bind a
    let y ← ctx.bind b
    pure (sameBound x.value y.value)
def fieldsEqual (ctx : Context) :
    List (QualifiedName × Value) → List (QualifiedName × Value) → Except CompileError Bool
  | [], _ => .ok true
  | (name, v) :: rest, right =>
    match right.lookup name with
    | none => .ok false
    | some w => do
      if ← boundEqual ctx v w then fieldsEqual ctx rest right else pure false
end

def isKept (ctx : Context) (v : Value) : List Value → Except CompileError Bool
  | [] => .ok false
  | k :: kept => do if ← ctx.boundEqual k v then pure true else isKept ctx v kept

def keepDistinct (ctx : Context) : List Value → List Value → Except CompileError (List Value)
  | kept, [] => .ok kept
  | kept, v :: rest => do
    if ← ctx.isKept v kept then keepDistinct ctx kept rest else keepDistinct ctx (kept ++ [v]) rest

def scalarTest (ctx : Context) (column : Column) (v : Value) : Except CompileError Test :=
  if v.isNull then .ok (.isNull column)
  else do pure (.compare column .eq (← ctx.bind v))

def childAlias (ctx : Context) (parent : ElementSource) (field : QualifiedName)
    (table : AttributeTable) (children : Children) : Lay (Alias × Children) :=
  match children.lookup (parent.name, field) with
  | some joined => pure (joined, children)
  | none => do
    let joined ← Lay.newAlias
    Lay.join ⟨ctx.layout.qualified table.name, joined, .left,
      ctx.ownedBy (.object parent.tableAlias parent.table) joined table⟩
    pure (joined, children ++ [((parent.name, field), joined)])

def conjunction (tests : List Test) : List Test :=
  if tests.isEmpty then [] else [.all tests]

mutual
def valueTests (ctx : Context) (source : ElementSource) : Value → Children → Lay (List Test × Children)
  | .composite _ fields, children => do
    let (tests, children) ← fieldTests ctx source fields children
    pure (conjunction tests, children)
  | v, children => do
    let test ← ofExcept (ctx.scalarTest ⟨source.tableAlias, ctx.layout.attributeValue⟩ v)
    pure ([test], children)
def fieldTests (ctx : Context) (parent : ElementSource) :
    List (QualifiedName × Value) → Children → Lay (List Test × Children)
  | [], children => pure ([], children)
  | (field, v) :: rest, children => do
    let table ← ofExcept (ctx.lookup field)
    if table.isCollection || v.isCollection then
      throw (.unsupported (.collectionField field parent.name))
    let (joined, children) ← ctx.childAlias parent field table children
    let (tests, children) ← valueTests ctx ⟨joined, field, table⟩ v children
    let (more, children) ← fieldTests ctx parent rest children
    pure (tests ++ more, children)
end

def elementTest (ctx : Context) (source : ElementSource) (v : Value) (children : Children) :
    Lay (Test × Children) := do
  let below := Test.pathMatches ⟨source.tableAlias, ctx.layout.collectionPath⟩ ctx.layout.belowRoot
  let (tests, children) ← ctx.valueTests source v children
  pure (.all (below :: tests), children)

def elementTests (ctx : Context) (source : ElementSource) :
    List Value → Children → Lay (List Test × Children)
  | [], children => pure ([], children)
  | v :: rest, children => do
    let (test, children) ← ctx.elementTest source v children
    let (more, children) ← elementTests ctx source rest children
    pure (test :: more, children)

def layCollection (ctx : Context) (p : PropertyPath) (root : Alias) (kind : JoinKind) :
    Lay (PropertyTarget × ElementSource) := do
  let target ← ctx.layPath p root kind
  -- the table is looked up by name, also that of the identity
  let table ← ofExcept (ctx.lookup target.name)
  if table.isCollection then pure (target, ⟨target.tableAlias, target.name, table⟩)
  else throw (.unsupported (.notCollection p))

def countsItself (v : Value) : Bool := v.isScalar && !v.isNull

end Context
end ObjectQuery
