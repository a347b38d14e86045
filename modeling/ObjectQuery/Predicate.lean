import ObjectQuery.Path
import ObjectQuery.Value

/-! Predicates over entities: conditions on single paths, joined by conjunction, disjunction
and negation. An operand may be a variable, which is bound to a value before compilation. -/
namespace ObjectQuery

inductive Comparison where
  | eq
  | ne
  | gt
  | ge
  | lt
  | le
  deriving DecidableEq, Repr

inductive Operand where
  | literal (value : Value)
  | variable (name : String)
  deriving Repr

inductive Leaf where
  | compare (property : PropertyPath) (comparison : Comparison) (operand : Operand)
  | matches (property : PropertyPath) (pattern : Operand)
  | propertyNull (property : PropertyPath) (isNull : Bool)
  | associationNull (association : AssociationPath) (isNull : Bool)
  | reaches (association : AssociationPath) (entity : Operand)
  | contains (property : PropertyPath) (element : Operand)
  | containsAll (property : PropertyPath) (elements : Operand)
  deriving Repr

inductive Predicate where
  | leaf (leaf : Leaf)
  | all (operands : List Predicate)
  | any (operands : List Predicate)
  | not (operand : Predicate)
  deriving Repr

inductive Direction where
  | ascending
  | descending
  deriving DecidableEq, Repr

structure SortKey where
  property : PropertyPath
  direction : Direction
  deriving DecidableEq, Repr

abbrev Bindings := String → Option Value

namespace Operand

def bind (bindings : Bindings) : Operand → Operand
  | .literal v => .literal v
  | .variable x =>
    match bindings x with
    | some v => .literal v
    | none => .variable x

def equals : Operand → Operand → Bool
  | .literal a, .literal b => a.equals b
  | .variable x, .variable y => x == y
  | _, _ => false

end Operand

namespace Leaf

def bind (bindings : Bindings) : Leaf → Leaf
  | .compare p c v => .compare p c (v.bind bindings)
  | .matches p v => .matches p (v.bind bindings)
  | .propertyNull p n => .propertyNull p n
  | .associationNull a n => .associationNull a n
  | .reaches a v => .reaches a (v.bind bindings)
  | .contains p v => .contains p (v.bind bindings)
  | .containsAll p v => .containsAll p (v.bind bindings)

def equals : Leaf → Leaf → Bool
  | .compare p c v, .compare q d w => p == q && c == d && v.equals w
  | .matches p v, .matches q w => p == q && v.equals w
  | .propertyNull p n, .propertyNull q m => p == q && n == m
  | .associationNull a n, .associationNull b m => a == b && n == m
  | .reaches a v, .reaches b w => a == b && v.equals w
  | .contains p v, .contains q w => p == q && v.equals w
  | .containsAll p v, .containsAll q w => p == q && v.equals w
  | _, _ => false

end Leaf

namespace Predicate

mutual
def bind (bindings : Bindings) : Predicate → Predicate
  | .leaf l => .leaf (l.bind bindings)
  | .all ps => .all (bindEach bindings ps)
  | .any ps => .any (bindEach bindings ps)
  | .not p => .not (bind bindings p)
def bindEach (bindings : Bindings) : List Predicate → List Predicate
  | [] => []
  | p :: ps => bind bindings p :: bindEach bindings ps
end

mutual
def equals : Predicate → Predicate → Bool
  | .leaf l, .leaf m => l.equals m
  | .all ps, .all qs => eachEqual ps qs
  | .any ps, .any qs => eachEqual ps qs
  | .not p, .not q => equals p q
  | _, _ => false
def eachEqual : List Predicate → List Predicate → Bool
  | [], [] => true
  | p :: ps, q :: qs => equals p q && eachEqual ps qs
  | _, _ => false
end

end Predicate
end ObjectQuery
