import ObjectQuery.Compile.Elements

/-! Conditions on single paths, compiled to selections of entities. Under negation a condition
is tested on the joined row itself, where a missing value passes; if the path fans out, or the
condition is on a whole collection, the selection is taken away from all entities of the type. -/
namespace ObjectQuery

structure Scope extends Context where
  typeIds : List Int32

namespace Scope

def everything (sc : Scope) : Compile Selection := do
  pure ⟨← Compile.newAlias, sc.typeIds, [], [], none⟩

def nothing (sc : Scope) : Compile SetPlan := do
  pure (.select { ← sc.everything with tests := [.never] })

def complement (sc : Scope) (positive : SetPlan) : Compile SetPlan := do
  pure (.compound .except (.select (← sc.everything)) positive)

def complementIf (sc : Scope) (negated : Bool) (positive : SetPlan) : Compile SetPlan :=
  if negated then sc.complement positive else pure positive

def selecting (sc : Scope) (lay : Alias → Lay (List Test × Option Division)) : Compile SetPlan := do
  let s ← sc.everything
  let ((tests, division), joins) ← Lay.fresh (lay s.root)
  pure (.select { s with joins := joins, tests := tests, division := division })

def onRow (sc : Scope) (fansOut : Except CompileError Bool) (compileUnder : Bool → Compile SetPlan)
    (negated : Bool) : Compile SetPlan := do
  if negated then
    if ← ofExcept fansOut then sc.complement (← compileUnder false) else compileUnder true
  else compileUnder false

def comparisonTest (column : Column) (operator : Operator) (parameter : BoundParameter)
    (negated : Bool) : Test :=
  if negated then .any [.isNull column, .compare column operator parameter]
  else .compare column operator parameter

def scalarSelection (sc : Scope) (kind : LeafKind) (p : PropertyPath) (operator : Operator)
    (parameter : BoundParameter) (negated : Bool) : Compile SetPlan :=
  sc.selecting fun root => do
    let target ← sc.layPath p root (kind.join negated)
    if target.isCollection then throw (.unsupported (.onCollection kind p))
    pure ([comparisonTest target.value operator parameter negated], none)

def compare (sc : Scope) (p : PropertyPath) (c : Comparison) (operand : Operand) (negated : Bool) :
    Compile SetPlan := do
  let v ← ofExcept (Context.literal operand)
  if v.isNull then throw (.unsupported (.comparisonWithNull p))
  let parameter ← ofExcept (sc.bind v)
  sc.scalarSelection c.kind p (c.operatorUnder negated) parameter negated

def textParameter (sc : Scope) (operand : Operand) (fault : ValueKind → Unsupported) :
    Except CompileError BoundParameter := do
  let v ← Context.literal operand
  match v with
  | .text _ => sc.bind v
  | _ => throw (.unsupported (fault v.kind))

def matchPattern (sc : Scope) (p : PropertyPath) (pattern : Operand) (negated : Bool) :
    Compile SetPlan := do
  let parameter ← ofExcept (sc.textParameter pattern (.patternNotText p))
  sc.scalarSelection .matches p (if negated then .notMatches else .matches) parameter negated

def nullTests (column : Column) (isNull negated : Bool) : List Test :=
  -- needed only where rows without a value are joined
  if isNull != negated then [.isNull column] else []

def propertyNull (sc : Scope) (p : PropertyPath) (isNull negated : Bool) : Compile SetPlan :=
  sc.selecting fun root => do
    let target ← sc.layPath p root ((LeafKind.ofNull true isNull).join negated)
    pure (nullTests target.value isNull negated, none)

def associationNull (sc : Scope) (a : AssociationPath) (isNull negated : Bool) : Compile SetPlan :=
  sc.selecting fun root => do
    let target ← sc.layAssociation a root ((LeafKind.ofNull false isNull).join negated)
    pure (nullTests target.reference isNull negated, none)

def reaches (sc : Scope) (a : AssociationPath) (operand : Operand) : Compile SetPlan := do
  let parameter ← ofExcept (sc.textParameter operand (.entityNotText a))
  sc.selecting fun root => do
    let target ← sc.layAssociation a root .inner
    let entity ← sc.layEntity target.reference .inner
    pure ([.compare (sc.layout.identityOf entity) .eq parameter], none)

def contains (sc : Scope) (p : PropertyPath) (operand : Operand) : Compile SetPlan := do
  let v ← ofExcept (Context.literal operand)
  if v.isCollection then throw (.unsupported (.nestedElement p))
  sc.selecting fun root => do
    let (_, source) ← sc.layCollection p root .inner
    let (test, _) ← sc.elementTest source v []
    pure ([test], none)

def distinctElements (sc : Scope) (p : PropertyPath) (operand : Operand) :
    Except CompileError (List Value) := do
  let v ← Context.literal operand
  match v with
  | .collection items => sc.keepDistinct [] (Value.flattenAll items)
  | v => throw (.unsupported (.elementsNotCollection p v.kind))

def dividing (sc : Scope) (p : PropertyPath) (elements : List Value) : Compile SetPlan :=
  sc.selecting fun root => do
    let (target, source) ← sc.layCollection p root .inner
    let (tests, _) ← sc.elementTests source elements []
    let tally := if elements.all Context.countsItself then Tally.values target.value else .matches tests
    pure ([.any tests], some ⟨tally, elements.length⟩)

def containsAll (sc : Scope) (p : PropertyPath) (operand : Operand) (negated : Bool) :
    Compile (Option SetPlan) := do
  let elements ← ofExcept (sc.distinctElements p operand)
  if elements.isEmpty then
    if negated then some <$> sc.nothing else pure none
  else some <$> do sc.complementIf negated (← sc.dividing p elements)

def leaf (sc : Scope) (l : Leaf) (negated : Bool) : Compile (Option SetPlan) :=
  match l with
  | .compare p c v => some <$> sc.onRow (sc.fansOut p) (sc.compare p c v) negated
  | .matches p v => some <$> sc.onRow (sc.fansOut p) (sc.matchPattern p v) negated
  | .propertyNull p n => some <$> sc.onRow (sc.fansOut p) (sc.propertyNull p n) negated
  | .associationNull a n => some <$> sc.onRow (pure a.fansOut) (sc.associationNull a n) negated
  | .reaches a v => some <$> do sc.complementIf negated (← sc.reaches a v)
  | .contains p v => some <$> do sc.complementIf negated (← sc.contains p v)
  | .containsAll p v => sc.containsAll p v negated

end Scope
end ObjectQuery
