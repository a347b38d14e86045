import ObjectQuery.Compile.Leaf

/-! Predicates compiled to set queries: a conjunction is an intersection, a disjunction a
union, and under negation the other way round. A vacuous operand, which stands for all entities
of the type, adds nothing to an intersection and makes a union vacuous. -/
namespace ObjectQuery.Scope

def chain (operator : SetOperator) : List SetPlan → Option SetPlan
  | [] => none
  | q :: rest => some (rest.foldl (.compound operator) q)

def intersection (parts : List (Option SetPlan)) : Option SetPlan :=
  chain .intersect (parts.filterMap id)

def union (sc : Scope) (parts : List (Option SetPlan)) : Compile (Option SetPlan) :=
  if parts.any Option.isNone then pure none
  else match chain .union (parts.filterMap id) with
    | some q => pure (some q)
    | none => some <$> sc.nothing

def connect (sc : Scope) (isIntersection : Bool) (parts : List (Option SetPlan)) :
    Compile (Option SetPlan) :=
  if isIntersection then pure (intersection parts) else sc.union parts

mutual
def compile (sc : Scope) : Predicate → Bool → Compile (Option SetPlan)
  | .leaf l, negated => sc.leaf l negated
  | .all ps, negated => do sc.connect (!negated) (← compileEach sc ps negated)
  | .any ps, negated => do sc.connect negated (← compileEach sc ps negated)
  | .not p, negated => compile sc p (!negated)
def compileEach (sc : Scope) : List Predicate → Bool → Compile (List (Option SetPlan))
  | [], _ => pure []
  | p :: ps, negated => do
    let part ← compile sc p negated
    let parts ← compileEach sc ps negated
    pure (part :: parts)
end

end ObjectQuery.Scope
