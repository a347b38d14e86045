import ObjectQuery.Proofs.Literals
import ObjectQuery.Proofs.Requested

/-! The parameters of a compiled request are the literals of its predicate, bound one by one. Complements,
type filters, orders and pages add none. -/
namespace ObjectQuery
open Outcome

abbrev Context.BindsAll (ctx : Context) : List Value → List BoundParameter → Prop := List.Forall₂ ctx.Binds

namespace Context

variable {ctx : Context}

theorem bindsAppend {vs ws : List Value} {bs cs : List BoundParameter} (first : ctx.BindsAll vs bs)
    (second : ctx.BindsAll ws cs) : ctx.BindsAll (vs ++ ws) (bs ++ cs) := List.rel_append first second

theorem bindsAllBound {vs : List Value} {bs : List BoundParameter} (binds : ctx.BindsAll vs bs) :
    vs.map ctx.bind = bs.map .ok := by
  induction binds with
  | nil => rfl
  | cons first rest ih => rw [List.map_cons, List.map_cons, first.bound, ih]

theorem scalarsPlain {v : Value} (plain : ∀ u fields, v ≠ .composite u fields) :
    v.scalars = if countsItself v then [v] else [] := by
  cases v with
  | composite u fields => exact absurd rfl (plain u fields)
  | _ => rfl

theorem scalarTestBinds {column : Column} {v : Value} {t : Test} (plain : ∀ u fields, v ≠ .composite u fields)
    (ok : ctx.scalarTest column v = .ok t) : ctx.BindsAll v.scalars t.parameters := by
  rw [scalarsPlain plain]
  unfold scalarTest at ok
  split at ok
  · next null =>
    cases ok
    rw [if_neg (by simp [countsItself, null])]
    exact .nil
  · next some =>
    obtain ⟨b, bound, ok⟩ := exceptBindOk.mp ok
    cases ok
    have binds : ctx.Binds v b := bindBinds (Bool.eq_false_iff.mpr some) bound
    rw [if_pos binds.counts]
    exact .cons binds .nil

theorem valueTestsPlainBinds {source : ElementSource} {v : Value} {children children' : Children} {r r' : Route}
    {tests : List Test} (plain : ∀ u fields, v ≠ .composite u fields)
    (ok : ctx.valueTests source v children r = .ok (tests, children') r') :
    ctx.BindsAll v.scalars (Test.parametersOf tests) := by
  obtain ⟨test, made, rfl, _, _⟩ := (plainTestsOk plain).mp ok
  rw [Test.parametersOfSingle]
  exact scalarTestBinds plain made

theorem conjunctionParameters (tests : List Test) :
    Test.parametersOf (conjunction tests) = Test.parametersOf tests := by
  unfold conjunction
  split
  · next empty => rw [List.isEmpty_iff.mp empty]
  · exact Test.parametersOfSingle (.all tests)

mutual
theorem valueTestsBinds : ∀ (v : Value) {source : ElementSource} {children children' : Children} {r r' : Route}
    {tests : List Test}, ctx.valueTests source v children r = .ok (tests, children') r' →
    ctx.BindsAll v.scalars (Test.parametersOf tests)
  | .composite _ fields, _, _, _, _, _, _, ok => by
    obtain ⟨inner, tested, rfl⟩ := compositeTestsOk ok
    rw [conjunctionParameters]
    exact fieldTestsBinds fields tested
  | .null, _, _, _, _, _, _, ok | .bool _, _, _, _, _, _, _, ok | .int _, _, _, _, _, _, _, ok
  | .float _, _, _, _, _, _, _, ok | .text _, _, _, _, _, _, _, ok | .date _, _, _, _, _, _, _, ok
  | .timestamp _, _, _, _, _, _, _, ok | .enum _ _, _, _, _, _, _, _, ok | .collection _, _, _, _, _, _, _, ok =>
    valueTestsPlainBinds (by simp) ok
theorem fieldTestsBinds : ∀ (fields : List (QualifiedName × Value)) {parent : ElementSource}
    {children children' : Children} {r r' : Route} {tests : List Test},
    ctx.fieldTests parent fields children r = .ok (tests, children') r' →
    ctx.BindsAll (Value.fieldScalars fields) (Test.parametersOf tests)
  | [], _, _, _, _, _, _, ok => by
    obtain ⟨same, _⟩ := pureOk.mp ok
    cases same
    exact .nil
  | (field, v) :: rest, _, _, _, _, _, _, ok => by
    obtain ⟨_, _, _, _, _, _, _, _, _, _, value, others, rfl⟩ := fieldTestsOk ok
    rw [Test.parametersOfAppend]
    exact bindsAppend (valueTestsBinds v value) (fieldTestsBinds rest others)
end

theorem elementTestBinds {source : ElementSource} {v : Value} {children children' : Children} {r r' : Route}
    {t : Test} (ok : ctx.elementTest source v children r = .ok (t, children') r') :
    ctx.BindsAll v.scalars t.parameters := by
  obtain ⟨tests, value, rfl⟩ := elementTestOk ok
  change ctx.BindsAll v.scalars (Test.parametersOf tests)
  exact valueTestsBinds v value

theorem elementTestsBinds {source : ElementSource} {elements : List Value} {children children' : Children}
    {r r' : Route} {tests : List Test}
    (ok : ctx.elementTests source elements children r = .ok (tests, children') r') :
    ctx.BindsAll (elements.flatMap Value.scalars) (Test.parametersOf tests) := by
  induction elements generalizing children children' tests r r' with
  | nil =>
    obtain ⟨same, _⟩ := pureOk.mp ok
    cases same
    exact .nil
  | cons v rest ih =>
    obtain ⟨_, _, _, _, first, others, rfl⟩ := elementTestsOk ok
    rw [List.flatMap_cons, Test.parametersOfCons]
    exact bindsAppend (elementTestBinds first) (ih others)

end Context

namespace Scope

variable {sc : Scope} {vs : List Value} {n m : Nat} {q : SetPlan}

theorem selectParameters (s : Selection) : SetPlan.parameters (.select s) = s.parameters := by
  simp [SetPlan.parameters, SetQuery.statements]

theorem compoundParameters (operator : SetOperator) (left right : SetPlan) :
    SetPlan.parameters (.compound operator left right) = SetPlan.parameters left ++ SetPlan.parameters right := by
  simp [SetPlan.parameters, SetQuery.statements]

theorem complementParameters (n : Nat) (positive : SetPlan) :
    SetPlan.parameters (.compound .except (.select (all sc n)) positive) = SetPlan.parameters positive := by
  rw [compoundParameters, selectParameters]
  rfl

theorem nothingParameters (ok : sc.nothing n = .ok q m) : SetPlan.parameters q = [] := by
  obtain ⟨rfl, _⟩ := nothingOk.mp ok
  exact selectParameters _

theorem complementIfParameters {negated : Bool} {positive : SetPlan}
    (ok : sc.complementIf negated positive n = .ok q m) : SetPlan.parameters q = SetPlan.parameters positive := by
  cases negated with
  | false =>
    obtain ⟨rfl, _⟩ := pureOk.mp ok
    rfl
  | true =>
    obtain ⟨rfl, _⟩ := complementOk.mp ok
    exact complementParameters n positive

theorem onRowBinds {fansOut : Except CompileError Bool} {f : Bool → Compile SetPlan} {negated : Bool}
    (each : ∀ negated n q m, f negated n = .ok q m → sc.BindsAll vs (SetPlan.parameters q))
    (ok : sc.onRow fansOut f negated n = .ok q m) : sc.BindsAll vs (SetPlan.parameters q) := by
  rcases onRowOk ok with ⟨_, row⟩ | ⟨_, _, row⟩ | ⟨_, _, positive, u, row, rfl⟩
  · exact each false n q m row
  · exact each true n q m row
  · rw [complementParameters]
    exact each false n positive u row

theorem comparisonTestParameters (column : Column) (operator : Operator) (b : BoundParameter) (negated : Bool) :
    (comparisonTest column operator b negated).parameters = [b] := by
  cases negated <;> rfl

theorem nullTestsParameters (column : Column) (isNull negated : Bool) :
    Test.parametersOf (nullTests column isNull negated) = [] := by
  cases isNull <;> cases negated <;> rfl

theorem selectingParameters {lay : Alias → Lay (List Test × Option Division)} (ok : sc.selecting lay n = .ok q m) :
    ∃ root r laid r', lay root r = .ok laid r' ∧
      SetPlan.parameters q = Test.parametersOf laid.1 ++ laid.2.elim [] Division.parameters := by
  obtain ⟨joins, tests, division, laid, rfl⟩ := selectingOk.mp ok
  exact ⟨_, _, _, _, laid, selectParameters _⟩

theorem scalarSelectionParameters {kind : LeafKind} {p : PropertyPath} {operator : Operator} {b : BoundParameter}
    {negated : Bool} (ok : sc.scalarSelection kind p operator b negated n = .ok q m) :
    SetPlan.parameters q = [b] := by
  obtain ⟨root, r, made, r', laid, parameters⟩ := selectingParameters ok
  obtain ⟨target, u, path, laid⟩ := bindOk.mp laid
  split at laid
  · exact (throwBindOk.mp laid).elim
  · obtain ⟨rfl, _⟩ := pureOk.mp laid
    rw [parameters, Test.parametersOfSingle, comparisonTestParameters]
    rfl

theorem compareBinds {p : PropertyPath} {c : Comparison} {operand : Operand} {negated : Bool}
    (ok : sc.compare p c operand negated n = .ok q m) : sc.BindsAll operand.literals (SetPlan.parameters q) := by
  obtain ⟨v, u, asked, ok⟩ := bindOk.mp ok
  obtain ⟨literal, rfl⟩ := ofExceptOk.mp asked
  rw [Context.literalOk.mp literal]
  split at ok
  · exact (throwBindOk.mp ok).elim
  · next some =>
    obtain ⟨b, w, bound, ok⟩ := bindOk.mp ok
    rw [scalarSelectionParameters ok]
    exact .cons (Context.bindBinds (Bool.eq_false_iff.mpr some) (ofExceptOk.mp bound).1) .nil

theorem textParameterBinds {operand : Operand} {fault : ValueKind → Unsupported} {b : BoundParameter}
    (ok : sc.textParameter operand fault = .ok b) : sc.BindsAll operand.literals [b] := by
  obtain ⟨v, literal, ok⟩ := exceptBindOk.mp ok
  rw [Context.literalOk.mp literal]
  cases v with
  | text s => exact .cons (Context.bindBinds rfl ok) .nil
  | _ => cases ok

theorem matchPatternBinds {p : PropertyPath} {operand : Operand} {negated : Bool}
    (ok : sc.matchPattern p operand negated n = .ok q m) : sc.BindsAll operand.literals (SetPlan.parameters q) := by
  obtain ⟨b, u, bound, ok⟩ := bindOk.mp ok
  rw [scalarSelectionParameters ok]
  exact textParameterBinds (ofExceptOk.mp bound).1

theorem propertyNullBinds {p : PropertyPath} {isNull negated : Bool}
    (ok : sc.propertyNull p isNull negated n = .ok q m) : sc.BindsAll [] (SetPlan.parameters q) := by
  obtain ⟨root, r, made, r', laid, parameters⟩ := selectingParameters ok
  obtain ⟨target, u, path, laid⟩ := bindOk.mp laid
  obtain ⟨rfl, _⟩ := pureOk.mp laid
  rw [parameters, nullTestsParameters]
  exact .nil

theorem associationNullBinds {a : AssociationPath} {isNull negated : Bool}
    (ok : sc.associationNull a isNull negated n = .ok q m) : sc.BindsAll [] (SetPlan.parameters q) := by
  obtain ⟨root, r, made, r', laid, parameters⟩ := selectingParameters ok
  obtain ⟨target, u, path, laid⟩ := bindOk.mp laid
  obtain ⟨rfl, _⟩ := pureOk.mp laid
  rw [parameters, nullTestsParameters]
  exact .nil

theorem reachesBinds {a : AssociationPath} {operand : Operand} (ok : sc.reaches a operand n = .ok q m) :
    sc.BindsAll operand.literals (SetPlan.parameters q) := by
  obtain ⟨b, u, bound, ok⟩ := bindOk.mp ok
  obtain ⟨root, r, made, r', laid, parameters⟩ := selectingParameters ok
  obtain ⟨target, w, path, laid⟩ := bindOk.mp laid
  obtain ⟨entity, x, reached, laid⟩ := bindOk.mp laid
  obtain ⟨rfl, _⟩ := pureOk.mp laid
  rw [parameters]
  exact textParameterBinds (ofExceptOk.mp bound).1

theorem containsBinds {p : PropertyPath} {operand : Operand} (ok : sc.contains p operand n = .ok q m) :
    sc.BindsAll (operand.literals.flatMap Value.scalars) (SetPlan.parameters q) := by
  obtain ⟨v, u, asked, ok⟩ := bindOk.mp ok
  obtain ⟨literal, rfl⟩ := ofExceptOk.mp asked
  rw [Context.literalOk.mp literal, Operand.literals, List.flatMap_singleton]
  split at ok
  · exact (throwBindOk.mp ok).elim
  · obtain ⟨root, r, made, r', laid, parameters⟩ := selectingParameters ok
    obtain ⟨⟨target, source⟩, w, path, laid⟩ := bindOk.mp laid
    obtain ⟨⟨test, _⟩, x, tested, laid⟩ := bindOk.mp laid
    obtain ⟨rfl, _⟩ := pureOk.mp laid
    rw [parameters, Test.parametersOfSingle, Option.elim_none, List.append_nil]
    exact Context.elementTestBinds tested

theorem dividingBinds {p : PropertyPath} {elements : List Value} (ok : sc.dividing p elements n = .ok q m) :
    sc.BindsAll (if elements.all Context.countsItself then elements.flatMap Value.scalars
      else elements.flatMap Value.scalars ++ elements.flatMap Value.scalars) (SetPlan.parameters q) := by
  obtain ⟨root, r, made, r', laid, parameters⟩ := selectingParameters ok
  obtain ⟨⟨target, source⟩, u, path, laid⟩ := bindOk.mp laid
  obtain ⟨⟨tests, _⟩, w, tested, laid⟩ := bindOk.mp laid
  obtain ⟨rfl, _⟩ := pureOk.mp laid
  have binds := Context.elementTestsBinds tested
  rw [parameters, Test.parametersOfSingle]
  change sc.BindsAll _ (Test.parametersOf tests ++ Division.parameters ⟨_, _⟩)
  split
  · exact (List.append_nil (elements.flatMap Value.scalars)) ▸ Context.bindsAppend binds .nil
  · exact Context.bindsAppend binds binds

structure Carries (ctx : Context) (vacuous : Bool) (vs : List Value) (part : Option SetPlan) : Prop where
  vacuous : part.isNone = vacuous
  parameters : ctx.BindsAll vs (part.elim [] SetPlan.parameters)

theorem presentCarries {ctx : Context} {x : Compile SetPlan} {part : Option SetPlan}
    (each : ∀ q, x n = .ok q m → ctx.BindsAll vs (SetPlan.parameters q)) (ok : (some <$> x) n = .ok part m) :
    Carries ctx false vs part := by
  obtain ⟨q, made, rfl⟩ := mapOk.mp ok
  exact ⟨rfl, each q made⟩

theorem containsAllCarries {p : PropertyPath} {operand : Operand} {negated : Bool} {part : Option SetPlan}
    (ok : sc.containsAll p operand negated n = .ok part m) :
    Carries sc.toContext ((Leaf.containsAll p operand).isVacuous && !negated)
      ((Leaf.containsAll p operand).literals sc.toContext) part := by
  obtain ⟨kept, u, asked, ok⟩ := bindOk.mp ok
  obtain ⟨elements, rfl⟩ := ofExceptOk.mp asked
  obtain ⟨items, rfl, keep⟩ := distinctElementsOk.mp elements
  have flat : (Operand.literal (.collection items)).literals.flatMap Value.flatten = Value.flattenAll items := by
    simp [Operand.literals, Value.flatten]
  have distinct : kept = sc.distinct (Value.flattenAll items) := Context.keepDistinctOk keep
  rw [Leaf.isVacuous, Leaf.literals, flat, ← distinct, ← Context.distinctIsEmpty, ← distinct]
  cases kept with
  | nil =>
    cases negated with
    | true => exact presentCarries (fun q made => nothingParameters made ▸ .nil) ok
    | false =>
      obtain ⟨rfl, _⟩ := pureOk.mp ok
      exact ⟨rfl, .nil⟩
  | cons v kept =>
    refine presentCarries (fun q made => ?_) ok
    obtain ⟨positive, w, divided, made⟩ := bindOk.mp made
    rw [complementIfParameters made]
    exact dividingBinds divided

theorem leafCarries {l : Leaf} {negated : Bool} {part : Option SetPlan} (ok : sc.leaf l negated n = .ok part m) :
    Carries sc.toContext (l.isVacuous && !negated) (l.literals sc.toContext) part := by
  cases l with
  | compare p c operand =>
    exact presentCarries (fun _ => onRowBinds fun _ _ _ _ => compareBinds) ok
  | «matches» p operand => exact presentCarries (fun _ => onRowBinds fun _ _ _ _ => matchPatternBinds) ok
  | propertyNull p isNull => exact presentCarries (fun _ => onRowBinds fun _ _ _ _ => propertyNullBinds) ok
  | associationNull a isNull => exact presentCarries (fun _ => onRowBinds fun _ _ _ _ => associationNullBinds) ok
  | reaches a operand =>
    refine presentCarries (fun q made => ?_) ok
    obtain ⟨positive, u, row, made⟩ := bindOk.mp made
    rw [complementIfParameters made]
    exact reachesBinds row
  | contains p operand =>
    refine presentCarries (fun q made => ?_) ok
    obtain ⟨positive, u, row, made⟩ := bindOk.mp made
    rw [complementIfParameters made]
    exact containsBinds row
  | containsAll p operand => exact containsAllCarries ok

theorem chainParameters (operator : SetOperator) (qs : List SetPlan) :
    (chain operator qs).elim [] SetPlan.parameters = qs.flatMap SetPlan.parameters := by
  have folded : ∀ (rest : List SetPlan) (q : SetPlan), SetPlan.parameters (rest.foldl (.compound operator) q) =
      SetPlan.parameters q ++ rest.flatMap SetPlan.parameters := by
    intro rest
    induction rest with
    | nil => simp
    | cons r rest ih =>
      intro q
      rw [List.foldl_cons, ih, compoundParameters, List.flatMap_cons, List.append_assoc]
  cases qs with
  | nil => rfl
  | cons q rest => exact folded rest q

theorem presentParameters (parts : List (Option SetPlan)) :
    (parts.filterMap id).flatMap SetPlan.parameters = parts.flatMap fun part => part.elim [] SetPlan.parameters := by
  induction parts with
  | nil => rfl
  | cons part parts ih =>
    cases part with
    | none => exact ih
    | some q => exact congrArg (SetPlan.parameters q ++ ·) ih

theorem chainIsNone (operator : SetOperator) (parts : List (Option SetPlan)) :
    (chain operator (parts.filterMap id)).isNone = parts.all Option.isNone := by
  induction parts with
  | nil => rfl
  | cons part parts ih =>
    cases part with
    | none => exact ih
    | some q => rfl

theorem connectCarries {ctx : Context} {isIntersection : Bool} {parts : List (Option SetPlan)} {part : Option SetPlan}
    {vacuities : List Bool} (each : parts.map Option.isNone = vacuities)
    (binds : ctx.BindsAll vs (parts.flatMap fun part => part.elim [] SetPlan.parameters))
    (ok : sc.connect isIntersection parts n = .ok part m) :
    Carries ctx (Predicate.connectVacuous isIntersection vacuities)
      (if Predicate.connectVacuous isIntersection vacuities then [] else vs) part := by
  have chained (operator : SetOperator) :
      ctx.BindsAll vs ((chain operator (parts.filterMap id)).elim [] SetPlan.parameters) := by
    rwa [chainParameters, presentParameters]
  subst each
  cases isIntersection with
  | true =>
    obtain ⟨rfl, _⟩ := pureOk.mp ok
    have vacuous : (intersection parts).isNone = (parts.map Option.isNone).all id := by
      simpa [intersection] using chainIsNone .intersect parts
    rw [Predicate.connectVacuous, if_pos rfl, ← vacuous]
    refine ⟨rfl, ?_⟩
    cases made : intersection parts with
    | none => exact .nil
    | some q =>
      have carried := chained .intersect
      rw [← intersection, made] at carried
      exact carried
  | false =>
    have any : (parts.map Option.isNone).any id = parts.any Option.isNone := by simp
    rw [Predicate.connectVacuous, if_neg Bool.false_ne_true, any]
    rcases unionOk ok with ⟨vacuous, rfl, _⟩ | ⟨present, rfl, some, _⟩ | ⟨present, missing, q, empty, rfl⟩
    · rw [vacuous]
      exact ⟨rfl, .nil⟩
    · rw [present]
      exact ⟨by simpa using some, chained .union⟩
    · -- an empty union selects nothing and binds nothing
      rw [present]
      have carried := chained .union
      rw [missing] at carried
      exact ⟨rfl, nothingParameters empty ▸ carried⟩

mutual
theorem compileCarries : ∀ (p : Predicate) {negated : Bool} {n m : Nat} {part : Option SetPlan},
    sc.compile p negated n = .ok part m →
    Carries sc.toContext (p.isVacuous negated) (p.literals sc.toContext negated) part
  | .leaf l, _, _, _, _, ok => leafCarries ok
  | .all ps, _, _, _, _, ok => by
    obtain ⟨parts, u, each, ok⟩ := bindOk.mp ok
    obtain ⟨vacuous, binds⟩ := compileEachCarries ps each
    exact connectCarries vacuous binds ok
  | .any ps, _, _, _, _, ok => by
    obtain ⟨parts, u, each, ok⟩ := bindOk.mp ok
    obtain ⟨vacuous, binds⟩ := compileEachCarries ps each
    exact connectCarries vacuous binds ok
  | .not p, _, _, _, _, ok => compileCarries p ok
theorem compileEachCarries : ∀ (ps : List Predicate) {negated : Bool} {n m : Nat} {parts : List (Option SetPlan)},
    sc.compileEach ps negated n = .ok parts m →
    parts.map Option.isNone = Predicate.vacuousEach ps negated ∧
      sc.BindsAll (Predicate.literalsOfEach sc.toContext ps negated)
        (parts.flatMap fun part => part.elim [] SetPlan.parameters)
  | [], _, _, _, _, ok => by
    obtain ⟨rfl, _⟩ := pureOk.mp ok
    exact ⟨rfl, .nil⟩
  | p :: ps, _, _, _, _, ok => by
    obtain ⟨part, u, first, ok⟩ := bindOk.mp ok
    obtain ⟨parts, w, each, ok⟩ := bindOk.mp ok
    obtain ⟨rfl, _⟩ := pureOk.mp ok
    have carried := compileCarries p first
    obtain ⟨vacuous, binds⟩ := compileEachCarries ps each
    rw [List.map_cons, carried.vacuous, vacuous]
    exact ⟨rfl, Context.bindsAppend carried.parameters binds⟩
end

end Scope

theorem Restriction.statementParameters (l : Layout) (r : Restriction) (distinct : Bool) (columns : List String) :
    (r.statement l distinct columns).parameters = r.members.elim [] SetPlan.parameters := by
  change (r.filters l).flatMap (·.parameters) ++ [] = _
  rw [List.append_nil, filters, List.flatMap_cons, Test.toConditionParameters, Layout.typeTestParameters,
    List.nil_append]
  cases r.members with
  | none => rfl
  | some q => simpa [membership] using SetPlan.toSqlParameters l q

theorem RowPlan.toSelectParameters (l : Layout) (p : RowPlan) :
    (p.toSelect l).parameters = p.restriction.members.elim [] SetPlan.parameters :=
  let root := p.restriction.root
  p.restriction.statementParameters l true [(l.keyOf root).text, (l.identityOf root).text]

namespace Context

variable {ctx : Context}

theorem restrictBinds {r : Request} {restriction : Restriction} {n m : Nat}
    (ok : ctx.restrict r n = .ok restriction m) :
    ctx.BindsAll (r.literals ctx) (restriction.members.elim [] SetPlan.parameters) := by
  obtain ⟨ids, _, _, ⟨none, empty, _⟩ | ⟨p, asked, compiled⟩⟩ := restrictOk ok
  · rw [Request.literals, none, empty]
    exact .nil
  · rw [Request.literals, asked]
    exact (Scope.compileCarries p compiled).parameters

theorem compiledBinds {r : Request} {q : CompiledQuery}
    (ok : ctx.compileRows r = .ok q ∨ ctx.compileCount r = .ok q) :
    ∃ bound, ctx.BindsAll (r.literals ctx) bound ∧
      q.parameters = bound.map (·.value) ∧ q.parameterTypes = bound.map (·.sqlType) := by
  rcases ok with rows | count
  · obtain ⟨plan, issued, planned, rfl⟩ := compileRowsOk.mp rows
    obtain ⟨k, restricted, _⟩ := rowPlanSorted planned
    refine ⟨(plan.toSelect ctx.layout).parameters, ?_, rfl, rfl⟩
    rw [RowPlan.toSelectParameters]
    exact restrictBinds restricted
  · obtain ⟨restriction, issued, restricted, rfl⟩ := compileCountOk.mp count
    refine ⟨(restriction.countStatement ctx.layout).parameters, ?_, rfl, rfl⟩
    rw [Restriction.countStatement, Restriction.statementParameters]
    exact restrictBinds restricted

theorem Binds.simple {v : Value} {b : BoundParameter} (binds : ctx.Binds v b) :
    b.value.kind ∉ [ValueKind.null, .enum, .collection, .composite] := by
  cases binds with
  | key stored typed => simp [Value.kind]
  | plain counts other typed =>
    cases v with
    | null => cases counts
    | enum t c => exact absurd rfl (other t c)
    | collection items => cases counts
    | composite t fields => cases counts
    | _ => simp [Value.kind]

theorem bindsAllSimple {vs : List Value} {bs : List BoundParameter} (binds : ctx.BindsAll vs bs) :
    ∀ b ∈ bs, b.value.kind ∉ [ValueKind.null, .enum, .collection, .composite] := by
  induction binds with
  | nil => exact List.forall_mem_nil _
  | cons first rest ih => exact List.forall_mem_cons.mpr ⟨first.simple, ih⟩

theorem parametersAreLiterals (ctx : Context) :
    (∀ ids p negated n part m, (Scope.mk ctx ids).compile p negated n = .ok part m →
      part.isNone = p.isVacuous negated) ∧
    ∀ r q, ctx.compileRows r = .ok q ∨ ctx.compileCount r = .ok q →
      (∃ bound, List.Forall₂ ctx.Binds (r.literals ctx) bound ∧
        q.parameters = bound.map (·.value) ∧ q.parameterTypes = bound.map (·.sqlType)) ∧
      ∀ v ∈ q.parameters, v.kind ∉ [ValueKind.null, .enum, .collection, .composite] := by
  refine ⟨fun ids p negated n part m compiled => (Scope.compileCarries p compiled).vacuous, fun r q ok => ?_⟩
  obtain ⟨bound, binds, values, types⟩ := compiledBinds ok
  refine ⟨⟨bound, binds, values, types⟩, ?_⟩
  rw [values, List.forall_mem_map]
  exact bindsAllSimple binds

end Context

namespace ParameterSample

def graded : Context where
  schema := (RequestSample.people.schema.withAttribute ⟨"Person", "grades"⟩ (.of "person_grades" 1)).withEnumKey
    "Grade" "top" 7
  layout := .default

def topNoneAndEight : Leaf := .containsAll (.of ⟨"Person", "grades"⟩)
  (.literal (.collection [.enum "Grade" "top", .int 7, .null, .collection [.int 8]]))

def anything : Leaf := .containsAll RequestSample.name (.literal (.collection []))

def request : Request where
  resultType := "Person"
  predicate := some (.all [
    .any [.leaf topNoneAndEight, .leaf anything],
    .not (.leaf (.compare RequestSample.friendsName .eq (.literal (.text "Bob")))),
    .leaf topNoneAndEight])
  orderBy := [⟨RequestSample.name, .ascending⟩]
  first := none
  max := some 10

theorem requestParameters : ∃ q, graded.compileRows request = .ok q ∧
    q.parameters = [.text "Bob", .int 7, .int 8, .int 7, .int 8] ∧
    q.parameterTypes = [.varchar, .integer, .bigInt, .integer, .bigInt] := by
  have ok : ∃ q, graded.compileRows request = .ok q := ⟨_, rfl⟩
  obtain ⟨q, ok⟩ := ok
  obtain ⟨⟨bound, binds, values, types⟩, _⟩ := (Context.parametersAreLiterals graded).2 request q (.inl ok)
  have literals : request.literals graded =
    [.text "Bob", .enum "Grade" "top", .int 8, .enum "Grade" "top", .int 8] := rfl
  have all := Context.bindsAllBound binds
  rw [literals] at all
  have same : bound = [⟨.text "Bob", .varchar⟩, ⟨.int 7, .integer⟩, ⟨.int 8, .bigInt⟩, ⟨.int 7, .integer⟩,
    ⟨.int 8, .bigInt⟩] := List.map_injective_iff.mpr (fun _ _ same => by cases same; rfl) all.symm
  exact ⟨q, ok, by rw [values, same]; rfl, by rw [types, same]; rfl⟩

end ParameterSample
end ObjectQuery
