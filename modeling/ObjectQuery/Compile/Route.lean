import ObjectQuery.Compile.Context

/-! Routes from an entity to the tables of a path. Every hop joins one table:
an association hop on the key of the entity that it starts from, a first property on the key
of its entity, and a further property on the value object before it. The joins laid and the
aliases given out stay when a hop fails. -/
namespace ObjectQuery

structure Route where
  issued : Nat
  joins : List Join
  deriving DecidableEq, Repr

abbrev Lay := EStateM CompileError Route

namespace Lay

def newAlias : Lay Alias := modifyGet fun r => (.numbered r.issued, { r with issued := r.issued + 1 })

def join (j : Join) : Lay Unit := modify fun r => { r with joins := r.joins ++ [j] }

def fresh {α : Type} (lay : Lay α) : Compile (α × List Join) := fun issued =>
  match lay ⟨issued, []⟩ with
  | .ok a r => .ok (a, r.joins) r.issued
  | .error e r => .error e r.issued

end Lay

structure AssociationTarget where
  tableAlias : Alias
  reference : Column
  deriving DecidableEq, Repr

structure PropertyTarget where
  tableAlias : Alias
  value : Column
  table : Option AttributeTable
  name : QualifiedName
  deriving DecidableEq, Repr

def PropertyTarget.isCollection (t : PropertyTarget) : Bool := t.table.any (·.isCollection)

inductive Owner where
  | entity (key : Column)
  | object (tableAlias : Alias) (table : AttributeTable)
  deriving DecidableEq, Repr

namespace Context

def checkDepth (ctx : Context) (hops : Nat) (path : String) : Except CompileError Unit :=
  if ctx.layout.maxDepth.toNat < hops then
    .error (.inconsistent (.tooDeep path hops ctx.layout.maxDepth))
  else .ok ()

def fansOut (ctx : Context) (p : PropertyPath) : Except CompileError Bool :=
  if p.associationHops.any (·.kind == .many) then .ok true else someCollection p.before
where
  someCollection : List QualifiedName → Except CompileError Bool
    | [] => .ok false
    | n :: rest => do
      if n.isIdentity then someCollection rest
      else if (← ctx.lookup n).isCollection then .ok true
      else someCollection rest

def layHops (ctx : Context) (kind : JoinKind) :
    List AssociationHop → AssociationTarget → Lay AssociationTarget
  | [], reached => pure reached
  | hop :: rest, reached => do
    let table ← ofExcept (ctx.lookup hop.name)
    let joined ← Lay.newAlias
    Lay.join ⟨ctx.layout.qualified table.name, joined, kind,
      [⟨⟨joined, ctx.layout.attributeEntityKey⟩, reached.reference⟩]⟩
    layHops ctx kind rest ⟨joined, ⟨joined, ctx.layout.attributeValue⟩⟩

def layAssociations (ctx : Context) (hops : List AssociationHop) (root : Alias) (kind : JoinKind) :
    Lay AssociationTarget :=
  ctx.layHops kind hops ⟨root, ctx.layout.keyOf root⟩

def layAssociation (ctx : Context) (a : AssociationPath) (root : Alias) (kind : JoinKind) :
    Lay AssociationTarget := do
  ofExcept (ctx.checkDepth a.hops.length a.text)
  ctx.layAssociations a.hops root kind

def layEntity (ctx : Context) (reference : Column) (kind : JoinKind) : Lay Alias := do
  let joined ← Lay.newAlias
  Lay.join ⟨ctx.layout.qualified ctx.layout.entityTable, joined, kind,
    [⟨ctx.layout.keyOf joined, reference⟩]⟩
  pure joined

def ownedBy (ctx : Context) (owner : Owner) (joined : Alias) (table : AttributeTable) : List Equation :=
  match owner with
  | .entity key => [⟨⟨joined, ctx.layout.attributeEntityKey⟩, key⟩]
  | .object parent parentTable =>
    [⟨⟨joined, ctx.layout.attributeEntityKey⟩, ⟨parent, ctx.layout.attributeEntityKey⟩⟩,
      ⟨⟨joined, table.parentColumn⟩, ⟨parent, parentTable.childColumn⟩⟩]

def layProperty (ctx : Context) (kind : JoinKind) (owner : Owner) (name : QualifiedName) :
    Lay (Alias × AttributeTable) := do
  let table ← ofExcept (ctx.lookup name)
  let joined ← Lay.newAlias
  Lay.join ⟨ctx.layout.qualified table.name, joined, kind, ctx.ownedBy owner joined table⟩
  pure (joined, table)

def layProperties (ctx : Context) (kind : JoinKind) : List QualifiedName → Owner → Lay Owner
  | [], owner => pure owner
  | name :: rest, owner => do
    let (joined, table) ← ctx.layProperty kind owner name
    layProperties ctx kind rest (.object joined table)

def layIdentity (ctx : Context) (p : PropertyPath) (root : Alias) (kind : JoinKind) :
    Lay PropertyTarget := do
  let entity ← match p.association with
    | none => pure root
    | some a => do
      let reached ← ctx.layAssociations a.hops root kind
      ctx.layEntity reached.reference kind
  pure ⟨entity, ctx.layout.identityOf entity, none, p.last⟩

def layAttribute (ctx : Context) (p : PropertyPath) (root : Alias) (kind : JoinKind) :
    Lay PropertyTarget := do
  let reached ← ctx.layAssociations p.associationHops root kind
  let owner ← ctx.layProperties kind p.before (.entity reached.reference)
  let (joined, table) ← ctx.layProperty kind owner p.last
  pure ⟨joined, ⟨joined, ctx.layout.attributeValue⟩, some table, p.last⟩

def layPath (ctx : Context) (p : PropertyPath) (root : Alias) (kind : JoinKind) :
    Lay PropertyTarget := do
  ofExcept (ctx.checkDepth p.length p.text)
  if p.hops.any (·.isIdentity) then
    -- the identity can only stand alone, after the associations
    if p.before.isEmpty then ctx.layIdentity p root kind
    else throw (.unsupported (.identityInside p))
  else ctx.layAttribute p root kind

end Context
end ObjectQuery
