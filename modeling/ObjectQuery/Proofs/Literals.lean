import Mathlib.Data.List.Forall2
import ObjectQuery.Compile.Request
import ObjectQuery.Proofs.BoundValue
import ObjectQuery.Proofs.ElementScope

/-! Literals of a predicate in the order in which they are bound, read off the predicate alone, and the
parameters of a plan in the order of its text. -/
namespace ObjectQuery

namespace Value

mutual
def scalars : Value → List Value
  | .composite _ fields => fieldScalars fields
  | v => if Context.countsItself v then [v] else []
def fieldScalars : List (QualifiedName × Value) → List Value
  | [] => []
  | (_, v) :: rest => scalars v ++ fieldScalars rest
end

end Value

def Operand.literals : Operand → List Value
  | .literal v => [v]
  | .variable _ => []

namespace Leaf

def isVacuous : Leaf → Bool
  | .containsAll _ operand => (operand.literals.flatMap Value.flatten).isEmpty
  | _ => false

def literals (ctx : Context) : Leaf → List Value
  | .compare _ _ operand => operand.literals
  | .matches _ operand => operand.literals
  | .propertyNull _ _ => []
  | .associationNull _ _ => []
  | .reaches _ operand => operand.literals
  | .contains _ operand => operand.literals.flatMap Value.scalars
  | .containsAll _ operand =>
    let kept := ctx.distinct (operand.literals.flatMap Value.flatten)
    let scalars := kept.flatMap Value.scalars
    -- once to find an element, and once more to count the elements that are found
    if kept.all Context.countsItself then scalars else scalars ++ scalars

end Leaf

namespace Predicate

def connectVacuous (isIntersection : Bool) (parts : List Bool) : Bool :=
  if isIntersection then parts.all id else parts.any id

mutual
def isVacuous : Predicate → Bool → Bool
  | .leaf l, negated => l.isVacuous && !negated
  | .all ps, negated => connectVacuous (!negated) (vacuousEach ps negated)
  | .any ps, negated => connectVacuous negated (vacuousEach ps negated)
  | .not p, negated => isVacuous p (!negated)
def vacuousEach : List Predicate → Bool → List Bool
  | [], _ => []
  | p :: ps, negated => isVacuous p negated :: vacuousEach ps negated
end

mutual
def literals (ctx : Context) : Predicate → Bool → List Value
  | .leaf l, _ => l.literals ctx
  | .all ps, negated => if isVacuous (.all ps) negated then [] else literalsOfEach ctx ps negated
  | .any ps, negated => if isVacuous (.any ps) negated then [] else literalsOfEach ctx ps negated
  | .not p, negated => literals ctx p (!negated)
def literalsOfEach (ctx : Context) : List Predicate → Bool → List Value
  | [], _ => []
  | p :: ps, negated => literals ctx p negated ++ literalsOfEach ctx ps negated
end

end Predicate

def Request.literals (ctx : Context) (r : Request) : List Value := r.predicate.elim [] (·.literals ctx false)

namespace Test

def parameter? : Test → Option BoundParameter
  | .compare _ _ parameter => some parameter
  | _ => none

def parameters (t : Test) : List BoundParameter := t.atoms.filterMap parameter?

def parametersOf (ts : List Test) : List BoundParameter := (atomsEach ts).filterMap parameter?

theorem parametersOfCons (t : Test) (ts : List Test) : parametersOf (t :: ts) = t.parameters ++ parametersOf ts := by
  rw [parametersOf, atomsEach, List.filterMap_append]
  rfl

theorem parametersOfSingle (t : Test) : parametersOf [t] = t.parameters :=
  (parametersOfCons t []).trans (List.append_nil _)

theorem parametersOfAppend (ts us : List Test) : parametersOf (ts ++ us) = parametersOf ts ++ parametersOf us := by
  induction ts with
  | nil => rfl
  | cons t ts ih => rw [List.cons_append, parametersOfCons, parametersOfCons, ih, List.append_assoc]

end Test

theorem Condition.groupParameters (separator : String) (cs : List Condition) :
    (group separator cs).parameters = cs.flatMap (·.parameters) := by
  match cs with
  | [] => rfl
  | [c] => simp [group]
  | c :: d :: rest => rfl

namespace Test

mutual
theorem toConditionParameters : ∀ t : Test, t.toCondition.parameters = t.parameters
  | .never | .typeAmong _ _ | .isNull _ | .compare _ _ _ | .pathMatches _ _ => rfl
  | .all ts | .any ts => (Condition.groupParameters _ _).trans (toConditionsParameters ts)
theorem toConditionsParameters : ∀ ts : List Test, (toConditions ts).flatMap (·.parameters) = parametersOf ts
  | [] => rfl
  | t :: ts => by
    rw [toConditions, List.flatMap_cons, toConditionParameters, toConditionsParameters, parametersOfCons]
end

end Test

def Division.parameters (d : Division) : List BoundParameter :=
  match d.tally with
  | .values _ => []
  | .matches tests => Test.parametersOf tests

def Selection.parameters (s : Selection) : List BoundParameter :=
  Test.parametersOf s.tests ++ s.division.elim [] Division.parameters

def SetPlan.parameters (q : SetPlan) : List BoundParameter := q.statements.flatMap Selection.parameters

theorem Division.toConditionParameters (d : Division) : d.toCondition.parameters = d.parameters := by
  obtain ⟨tally, required⟩ := d
  cases tally with
  | values c => rfl
  | «matches» tests => exact Test.toConditionsParameters tests

theorem Layout.typeTestParameters (l : Layout) (ids : List Int32) (a : Alias) :
    (l.typeTest ids a).parameters = [] := by
  unfold typeTest
  split <;> rfl

theorem Selection.toSelectParameters (l : Layout) (s : Selection) : (s.toSelect l).parameters = s.parameters := by
  have filters : (s.toSelect l).filters.flatMap (·.parameters) = Test.parametersOf s.tests := by
    refine (Test.toConditionsParameters _).trans ?_
    rw [Test.parametersOfCons, Layout.typeTestParameters, List.nil_append]
  have having : (s.toSelect l).having.elim [] (·.parameters) = s.division.elim [] Division.parameters := by
    cases division : s.division with
    | none => simp [toSelect, division]
    | some d => simpa [toSelect, division] using d.toConditionParameters
  rw [Sql.Select.parameters, filters, having, parameters]

theorem SetPlan.toSqlParameters (l : Layout) (q : SetPlan) : (q.toSql l).parameters = SetPlan.parameters q := by
  induction q with
  | select s =>
    refine (Selection.toSelectParameters l s).trans ?_
    simp [SetPlan.parameters, SetQuery.statements]
  | compound o left right first second =>
    rw [SetPlan.parameters, SetQuery.statements, List.flatMap_append]
    exact congrArg₂ (· ++ ·) first second

end ObjectQuery
