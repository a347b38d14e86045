import ObjectQuery.Compile.Request

/-! Statements without their values: every parameter is replaced by the same blank one. The text of a
statement does not change, and rendering a plan without values gives the statement without values. -/
namespace ObjectQuery

def BoundParameter.blank : BoundParameter := ⟨.null, .null⟩

def Condition.erased (c : Condition) : Condition := ⟨c.sql, c.parameters.map fun _ => .blank⟩

def Sql.Select.erased (s : Sql.Select) : Sql.Select :=
  { s with filters := s.filters.map Condition.erased, having := s.having.map Condition.erased }

namespace Test

mutual
def erased : Test → Test
  | .compare c o _ => .compare c o .blank
  | .all ts => .all (erasedEach ts)
  | .any ts => .any (erasedEach ts)
  | t => t
def erasedEach : List Test → List Test
  | [] => []
  | t :: ts => erased t :: erasedEach ts
end

theorem erasedEachMap (ts : List Test) : erasedEach ts = ts.map erased := by
  induction ts with
  | nil => rfl
  | cons t ts ih => rw [erasedEach, ih, List.map_cons]

end Test

def Tally.erased : Tally → Tally
  | .values c => .values c
  | .matches ts => .matches (ts.map Test.erased)

def Division.erased (d : Division) : Division := ⟨d.tally.erased, d.required⟩

def Selection.erased (s : Selection) : Selection :=
  { s with tests := s.tests.map Test.erased, division := s.division.map Division.erased }

def SetPlan.erased (q : SetPlan) : SetPlan := q.map Selection.erased

namespace Condition

theorem erasedSql (cs : List Condition) : (cs.map erased).map (·.sql) = cs.map (·.sql) := by
  rw [List.map_map]
  rfl

theorem erasedParameters (cs : List Condition) :
    (cs.map erased).flatMap (·.parameters) = (cs.flatMap (·.parameters)).map fun _ => .blank := by
  rw [List.flatMap_map, List.map_flatMap]
  rfl

theorem groupErased (separator : String) (cs : List Condition) :
    (group separator cs).erased = group separator (cs.map erased) := by
  match cs with
  | [] => rfl
  | [c] => rfl
  | c :: d :: rest =>
    rw [List.map_cons, List.map_cons, group, group, ← List.map_cons, ← List.map_cons, erasedSql, erasedParameters]
    · rfl
    all_goals simp

end Condition

namespace Sql.Select

theorem erasedText (s : Select) : s.erased.sql = s.sql := by
  have having : (s.having.map Condition.erased).map (·.sql) = s.having.map (·.sql) := by
    rw [Option.map_map]
    rfl
  unfold Select.sql Select.erased
  dsimp only
  rw [Condition.erasedSql, having]

end Sql.Select

theorem SetQuery.erasedText (q : SetQuery Sql.Select) : (q.map Sql.Select.erased).sql = q.sql := by
  induction q with
  | select s => exact s.erasedText
  | compound o l r left right => rw [map, sql, sql, left, right]

theorem Sql.Select.erasedParameters (s : Select) : s.erased.parameters = s.parameters.map fun _ => .blank := by
  simp only [parameters, erased, Condition.erasedParameters, List.map_append]
  cases s.having <;> rfl

theorem SetQuery.erasedParameters (q : SetQuery Sql.Select) :
    (q.map Sql.Select.erased).parameters = q.parameters.map fun _ => .blank := by
  induction q with
  | select s => exact s.erasedParameters
  | compound o l r left right => rw [map, parameters, parameters, left, right, List.map_append]

namespace Test

mutual
theorem toConditionErased : ∀ t : Test, t.toCondition.erased = t.erased.toCondition
  | .never => rfl
  | .typeAmong _ _ => rfl
  | .isNull _ => rfl
  | .compare _ _ _ => rfl
  | .pathMatches _ _ => rfl
  | .all ts => by rw [toCondition, erased, toCondition, Condition.all, Condition.all, Condition.groupErased,
      toConditionsErased]
  | .any ts => by rw [toCondition, erased, toCondition, Condition.any, Condition.any, Condition.groupErased,
      toConditionsErased]
theorem toConditionsErased : ∀ ts : List Test,
    (toConditions ts).map Condition.erased = toConditions (erasedEach ts)
  | [] => rfl
  | t :: ts => by rw [toConditions, List.map_cons, toConditionErased, toConditionsErased, erasedEach, toConditions]
end

end Test

theorem Division.whenClausesErased (n : Nat) (cs : List Condition) :
    whenClauses n (cs.map Condition.erased) = whenClauses n cs := by
  induction cs generalizing n with
  | nil => rfl
  | cons c cs ih =>
    rw [List.map_cons, whenClauses, whenClauses, ih]
    rfl

theorem Division.toConditionErased (d : Division) : d.toCondition.erased = d.erased.toCondition := by
  obtain ⟨tally, required⟩ := d
  cases tally with
  | values c => rfl
  | «matches» tests =>
    simp only [toCondition, erased, Tally.erased, ← Test.erasedEachMap, ← Test.toConditionsErased,
      whenClausesErased, Condition.erasedParameters]
    rfl

theorem Layout.typeTestErased (l : Layout) (ids : List Int32) (a : Alias) :
    (l.typeTest ids a).erased = l.typeTest ids a := by
  unfold typeTest
  split <;> rfl

theorem Selection.toSelectErased (l : Layout) (s : Selection) :
    (s.toSelect l).erased = s.erased.toSelect l := by
  have filters : (Test.toConditions (l.typeTest s.typeIds s.root :: s.tests)).map Condition.erased =
      Test.toConditions (l.typeTest s.typeIds s.root :: s.erased.tests) := by
    rw [Test.toConditionsErased, Test.erasedEach, l.typeTestErased, Test.erasedEachMap]
    rfl
  have having : (s.division.map Division.toCondition).map Condition.erased =
      (s.division.map Division.erased).map Division.toCondition := by
    simp only [Option.map_map, Function.comp_def, Division.toConditionErased]
  have group : s.erased.division.isSome = s.division.isSome := Option.isSome_map
  simp only [toSelect, Sql.Select.erased, filters, having, group]
  rfl

theorem SetQuery.mapMap {α β γ : Type} (f : α → β) (g : β → γ) (q : SetQuery α) :
    (q.map f).map g = q.map (g ∘ f) := by
  induction q with
  | select s => rfl
  | compound o l r left right => simp only [map, left, right]

theorem SetPlan.toSqlErased (l : Layout) (q : SetPlan) :
    (SetQuery.toSql l q).map Sql.Select.erased = SetQuery.toSql l q.erased := by
  simp only [SetQuery.toSql, SetPlan.erased, SetQuery.mapMap]
  exact congrArg q.map (funext fun s => s.toSelectErased l)

namespace Restriction

def erased (r : Restriction) : Restriction := { r with members := r.members.map SetPlan.erased }

theorem membershipErased (l : Layout) (root : Alias) (q : SetPlan) :
    (membership l root (SetQuery.toSql l q)).erased = membership l root (SetQuery.toSql l q.erased) := by
  have text := SetQuery.erasedText (SetQuery.toSql l q)
  have parameters := SetQuery.erasedParameters (SetQuery.toSql l q)
  rw [SetPlan.toSqlErased] at text parameters
  rw [membership, membership, text, parameters, Condition.erased]

theorem filtersErased (l : Layout) (r : Restriction) : (r.filters l).map Condition.erased = r.erased.filters l := by
  obtain ⟨root, ids, members⟩ := r
  have type : (l.typeTest ids root).toCondition.erased = (l.typeTest ids root).toCondition := by
    rw [Test.toConditionErased, l.typeTestErased]
  cases members with
  | none => exact congrArg (· :: []) type
  | some q =>
    simp only [filters, List.map_cons, List.map_nil, type, membershipErased]
    rfl

theorem statementErased (l : Layout) (r : Restriction) (distinct : Bool) (columns : List String) :
    (r.statement l distinct columns).erased = r.erased.statement l distinct columns := by
  simp only [statement, Sql.Select.erased, ← filtersErased]
  rfl

end Restriction

def RowPlan.erased (p : RowPlan) : RowPlan := { p with restriction := p.restriction.erased }

theorem RowPlan.toSelectErased (l : Layout) (p : RowPlan) : (p.toSelect l).erased = p.erased.toSelect l := by
  have filters := p.restriction.filtersErased l
  simp only [toSelect, Sql.Select.erased, Sql.Select.sorted, Restriction.statement, filters]
  rfl

end ObjectQuery
