import ObjectQuery.Proofs.Alike
import ObjectQuery.Proofs.Requested

/-! Values never reach the text of a query: requests whose predicates have alike literals compile to one
text, and to set queries that are one without their values. -/
namespace ObjectQuery
open Outcome

def SetPlan.Same (q q' : SetPlan) : Prop := q.erased = q'.erased

def SetPlan.SameOption (q q' : Option SetPlan) : Prop := q.map SetPlan.erased = q'.map SetPlan.erased

theorem Context.literalAgree {ctx : Context} {v w : Operand} (alike : v.Alike ctx w) :
    BothOk (Value.Alike ctx) (literal v) (literal w) := by
  intro a b left right
  cases alike with
  | literal alike =>
    cases left
    cases right
    exact alike
  | «variable» x => cases left

namespace Scope
open SetPlan

variable {sc : Scope}

theorem selectingAgree {lay lay' : Alias → Lay (List Test × Option Division)}
    (both : ∀ root, Agree (fun a b => a.1.map Test.erased = b.1.map Test.erased ∧
      a.2.map Division.erased = b.2.map Division.erased) (lay root) (lay' root)) :
    Agree Same (sc.selecting lay) (sc.selecting lay') := by
  refine .onward _ fun s => (both s.root).freshly.next fun a b same => .done ?_
  obtain ⟨⟨tests, division⟩, joins⟩ := same
  simp only [Same, SetPlan.erased, SetQuery.map, Selection.erased, tests, division, joins]

theorem complementAgree {q q' : SetPlan} (same : Same q q') : Agree Same (sc.complement q) (sc.complement q') := by
  refine .onward _ fun s => .done ?_
  exact congrArg (SetQuery.compound .except (.select s.erased)) same

theorem complementIfAgree {q q' : SetPlan} (negated : Bool) (same : Same q q') :
    Agree Same (sc.complementIf negated q) (sc.complementIf negated q') := by
  cases negated with
  | false => exact .done same
  | true => exact complementAgree same

theorem onRowAgree {fansOut : Except CompileError Bool} {f g : Bool → Compile SetPlan}
    (both : ∀ negated, Agree Same (f negated) (g negated)) (negated : Bool) :
    Agree Same (sc.onRow fansOut f negated) (sc.onRow fansOut g negated) := by
  cases negated with
  | false => exact both false
  | true =>
    refine .onward _ fun many => ?_
    cases many with
    | false => exact both true
    | true => exact (both false).next fun q q' same => complementAgree same

theorem comparisonTestErased (c : Column) (operator : Operator) (b b' : BoundParameter) (negated : Bool) :
    (comparisonTest c operator b negated).erased = (comparisonTest c operator b' negated).erased := by
  cases negated <;> rfl

theorem scalarSelectionAgree (kind : LeafKind) (p : PropertyPath) (operator : Operator) (b b' : BoundParameter)
    (negated : Bool) :
    Agree Same (sc.scalarSelection kind p operator b negated) (sc.scalarSelection kind p operator b' negated) := by
  refine selectingAgree fun root => .onward _ fun target => ?_
  dsimp only
  split
  · exact .failed
  · refine .done ⟨?_, rfl⟩
    rw [List.map_singleton, List.map_singleton, comparisonTestErased]

theorem compareAgree (p : PropertyPath) (c : Comparison) {v w : Operand} (alike : v.Alike sc.toContext w)
    (negated : Bool) : Agree Same (sc.compare p c v negated) (sc.compare p c w negated) := by
  refine (Agree.lifted (Context.literalAgree alike)).next fun a b same => ?_
  rw [same.isNull]
  split
  · exact .failed
  · exact .anyway fun _ _ => scalarSelectionAgree _ _ _ _ _ _

theorem matchPatternAgree (p : PropertyPath) (v w : Operand) (negated : Bool) :
    Agree Same (sc.matchPattern p v negated) (sc.matchPattern p w negated) :=
  .anyway fun _ _ => scalarSelectionAgree _ _ _ _ _ _

theorem reachesAgree (a : AssociationPath) (v w : Operand) : Agree Same (sc.reaches a v) (sc.reaches a w) := by
  refine .anyway fun b b' => selectingAgree fun root => ?_
  refine .onward _ fun target => .onward _ fun entity => .done ⟨rfl, rfl⟩

theorem containsAgree (p : PropertyPath) {v w : Operand} (alike : v.Alike sc.toContext w) :
    Agree Same (sc.contains p v) (sc.contains p w) := by
  refine (Agree.lifted (Context.literalAgree alike)).next fun a b same => ?_
  rw [same.isCollection]
  split
  · exact .failed
  · refine selectingAgree fun root => .onward _ fun found => ?_
    refine (Context.elementTestAgree same found.2 []).next fun t u tested => .done ⟨?_, rfl⟩
    rw [List.map_singleton, List.map_singleton, tested.1]

def ElementsAlike (sc : Scope) (xs ys : List Value) : Prop :=
  ∃ pairs : List (Value × Value), (∀ c ∈ pairs, c.1.Alike sc.toContext c.2) ∧
    xs = pairs.map Prod.fst ∧ ys = pairs.map Prod.snd

theorem distinctElementsAgree (p : PropertyPath) {v w : Operand} (alike : v.Alike sc.toContext w) :
    BothOk sc.ElementsAlike (sc.distinctElements p v) (sc.distinctElements p w) := by
  intro xs ys left right
  obtain ⟨a, known, left⟩ := exceptBindOk.mp left
  obtain ⟨b, known', right⟩ := exceptBindOk.mp right
  cases Context.literalAgree alike a b known known' with
  | collection pairs first second each outcome =>
    change sc.keepDistinct [] _ = _ at left
    change sc.keepDistinct [] _ = _ at right
    rw [first] at left
    rw [second] at right
    obtain ⟨both, inside, rfl, rfl⟩ := Context.keepDistinctAgree outcome [] pairs (by simp) (fun _ mem => mem)
      xs ys left right
    exact ⟨both, fun c mem => each c (inside c mem), rfl, rfl⟩
  | null => cases left
  | scalar counts _ => cases a <;> first | cases left | cases counts
  | composite => cases left

theorem dividingAgree (p : PropertyPath) {xs ys : List Value} (alike : sc.ElementsAlike xs ys) :
    Agree Same (sc.dividing p xs) (sc.dividing p ys) := by
  obtain ⟨pairs, each, rfl, rfl⟩ := alike
  refine selectingAgree fun root => .onward _ fun found => ?_
  refine (Context.elementTestsAgree found.2 pairs each []).next fun a b same => .done ⟨?_, ?_⟩
  · simp only [List.map_singleton, Test.erased, Test.erasedEachMap, same.1]
  · have counting :
        (pairs.map Prod.fst).all Context.countsItself = (pairs.map Prod.snd).all Context.countsItself := by
      rw [Bool.eq_iff_iff, List.all_eq_true, List.all_eq_true, List.forall_mem_map, List.forall_mem_map]
      exact forall₂_congr fun c mem => by rw [(each c mem).countsItself]
    simp only [Option.map_some, Division.erased, counting, List.length_map]
    split
    · rfl
    · simp only [Tally.erased, same.1]

theorem containsAllAgree (p : PropertyPath) {v w : Operand} (alike : v.Alike sc.toContext w) (negated : Bool) :
    Agree SameOption (sc.containsAll p v negated) (sc.containsAll p w negated) := by
  refine (Agree.lifted (distinctElementsAgree p alike)).next fun xs ys elements => ?_
  have empty : xs.isEmpty = ys.isEmpty := by
    obtain ⟨pairs, _, rfl, rfl⟩ := elements
    cases pairs <;> rfl
  rw [empty]
  split
  · exact (Agree.same _).weaken fun a b same => congrArg _ same
  · refine Agree.mapped (R := Same) ?_ fun q q' same => congrArg some same
    exact (dividingAgree p elements).next fun q q' same => complementIfAgree negated same

theorem leafAgree {l m : Leaf} (alike : l.Alike sc.toContext m) (negated : Bool) :
    Agree SameOption (sc.leaf l negated) (sc.leaf m negated) := by
  have wrapped : ∀ {x y : Compile SetPlan}, Agree Same x y → Agree SameOption (some <$> x) (some <$> y) :=
    fun both => both.mapped fun q q' same => congrArg some same
  cases alike with
  | compare p c alike => exact wrapped (onRowAgree (compareAgree p c alike) negated)
  | «matches» p _ => exact wrapped (onRowAgree (matchPatternAgree p _ _) negated)
  | propertyNull p n => exact (Agree.same _).weaken fun a b same => congrArg _ same
  | associationNull a n => exact (Agree.same _).weaken fun a b same => congrArg _ same
  | reaches a _ => exact wrapped ((reachesAgree a _ _).next fun q q' same => complementIfAgree negated same)
  | contains p alike => exact wrapped ((containsAgree p alike).next fun q q' same => complementIfAgree negated same)
  | containsAll p alike => exact containsAllAgree p alike negated

theorem chainErased (operator : SetOperator) (qs : List SetPlan) :
    (chain operator qs).map SetPlan.erased = chain operator (qs.map SetPlan.erased) := by
  have folded : ∀ (qs : List SetPlan) (q : SetPlan),
      SetPlan.erased (qs.foldl (.compound operator) q) =
        (qs.map SetPlan.erased).foldl (.compound operator) q.erased := by
    intro qs
    induction qs with
    | nil => exact fun _ => rfl
    | cons r rest ih => exact fun q => ih (.compound operator q r)
  cases qs with
  | nil => rfl
  | cons q rest => exact congrArg some (folded rest q)

theorem presentErased (parts : List (Option SetPlan)) :
    (parts.filterMap id).map SetPlan.erased = (parts.map (Option.map SetPlan.erased)).filterMap id := by
  rw [List.map_filterMap, List.filterMap_map]
  rfl

def SameParts (parts parts' : List (Option SetPlan)) : Prop :=
  parts.map (Option.map SetPlan.erased) = parts'.map (Option.map SetPlan.erased)

theorem connectAgree {parts parts' : List (Option SetPlan)} (same : SameParts parts parts')
    (isIntersection : Bool) :
    Agree SameOption (sc.connect isIntersection parts) (sc.connect isIntersection parts') := by
  have chained : ∀ operator,
      SameOption (chain operator (parts.filterMap id)) (chain operator (parts'.filterMap id)) := by
    intro operator
    rw [SameOption, chainErased, chainErased, presentErased, presentErased, same]
  cases isIntersection with
  | true => exact .done (chained .intersect)
  | false =>
    have vacuous : parts.any Option.isNone = parts'.any Option.isNone := by
      have erased : ∀ ps : List (Option SetPlan),
          (ps.map (Option.map SetPlan.erased)).any Option.isNone = ps.any Option.isNone := by
        intro ps
        simp only [List.any_map, Function.comp_def, Option.isNone_map]
      rw [← erased, same, erased]
    change Agree SameOption (sc.union parts) (sc.union parts')
    unfold union
    rw [vacuous]
    split
    · exact .done rfl
    · have union := chained .union
      cases left : chain .union (parts.filterMap id) with
      | none =>
        cases right : chain .union (parts'.filterMap id) with
        | none => exact (Agree.same _).weaken fun a b same => congrArg _ same
        | some q' => rw [left, right] at union; cases union
      | some q =>
        cases right : chain .union (parts'.filterMap id) with
        | none => rw [left, right] at union; cases union
        | some q' => rw [left, right] at union; exact .done union

theorem compileEachAgree (pairs : List (Predicate × Predicate)) (negated : Bool)
    (each : ∀ c ∈ pairs, Agree SameOption (sc.compile c.1 negated) (sc.compile c.2 negated)) :
    Agree SameParts (sc.compileEach (pairs.map Prod.fst) negated)
      (sc.compileEach (pairs.map Prod.snd) negated) := by
  induction pairs with
  | nil => exact .done rfl
  | cons c rest ih =>
    have ih := ih fun d mem => each d (List.mem_cons_of_mem _ mem)
    refine (each c List.mem_cons_self).next fun a b same => ih.next fun as bs others => .done ?_
    change _ :: _ = _ :: _
    rw [same, others]

theorem compileAgree {p p' : Predicate} (alike : p.Alike sc.toContext p') (negated : Bool) :
    Agree SameOption (sc.compile p negated) (sc.compile p' negated) := by
  induction alike generalizing negated with
  | leaf alike => exact leafAgree alike negated
  | all pairs each ih =>
    exact (compileEachAgree pairs negated fun c mem => ih c mem negated).next fun a b same => connectAgree same _
  | any pairs each ih =>
    exact (compileEachAgree pairs negated fun c mem => ih c mem negated).next fun a b same => connectAgree same _
  | not alike ih => exact ih (!negated)

end Scope

namespace Context
open SetPlan

variable {ctx : Context}

theorem erasedRoot {a b : Restriction} (same : a.erased = b.erased) : a.root = b.root := by
  change a.erased.root = b.erased.root
  rw [same]

theorem restrictAgree (r : Request) {p p' : Predicate} (alike : p.Alike ctx p') :
    Agree (fun a b => a.erased = b.erased) (ctx.restrict { r with predicate := some p })
      (ctx.restrict { r with predicate := some p' }) := by
  unfold restrict
  dsimp only
  split
  · exact .thrown
  · next ids _ =>
    have compiled : Agree SameOption ((Scope.mk ctx ids).compile p false) ((Scope.mk ctx ids).compile p' false) :=
      Scope.compileAgree alike false
    exact .onward _ fun root => compiled.next fun q q' same => .done (congrArg (Restriction.mk root ids) same)

theorem rowPlanAgree (r : Request) {p p' : Predicate} (alike : p.Alike ctx p') :
    Agree (fun a b => a.erased = b.erased) (ctx.rowPlan { r with predicate := some p })
      (ctx.rowPlan { r with predicate := some p' }) := by
  refine (restrictAgree r alike).next fun a b same => ?_
  dsimp only
  rw [erasedRoot same]
  refine .onward _ fun sorted => .done ?_
  simp only [RowPlan.erased, same]
  rfl

theorem ofSelectText {s t : Sql.Select} (same : s.erased = t.erased) :
    (CompiledQuery.ofSelect s).sql = (CompiledQuery.ofSelect t).sql := by
  change s.sql = t.sql
  rw [← s.erasedText, same, t.erasedText]

theorem valuesNeverReachText (ctx : Context) {p p' : Predicate} (alike : p.Alike ctx p') :
    (∀ (r : Request) (q q' : CompiledQuery), ctx.compileRows { r with predicate := some p } = .ok q →
      ctx.compileRows { r with predicate := some p' } = .ok q' → q.sql = q'.sql) ∧
    (∀ (r : Request) (q q' : CompiledQuery), ctx.compileCount { r with predicate := some p } = .ok q →
      ctx.compileCount { r with predicate := some p' } = .ok q' → q.sql = q'.sql) ∧
    ∀ ids negated n q m q' m', (Scope.mk ctx ids).compile p negated n = .ok q m →
      (Scope.mk ctx ids).compile p' negated n = .ok q' m' → m = m' ∧
        q.map (fun plan => (plan.toSql ctx.layout).map Sql.Select.erased) =
          q'.map (fun plan => (plan.toSql ctx.layout).map Sql.Select.erased) := by
  refine ⟨fun r q q' left right => ?_, fun r q q' left right => ?_, fun ids negated n q m q' m' left right => ?_⟩
  · obtain ⟨plan, n, planned, rfl⟩ := compileRowsOk.mp left
    obtain ⟨plan', n', planned', rfl⟩ := compileRowsOk.mp right
    have same := (rowPlanAgree r alike 0 _ _ _ _ planned planned').1
    exact ofSelectText (by rw [RowPlan.toSelectErased, same, RowPlan.toSelectErased])
  · obtain ⟨restriction, n, restricted, rfl⟩ := compileCountOk.mp left
    obtain ⟨restriction', n', restricted', rfl⟩ := compileCountOk.mp right
    have same := (restrictAgree r alike 0 _ _ _ _ restricted restricted').1
    refine ofSelectText ?_
    rw [Restriction.countStatement, Restriction.countStatement, Restriction.statementErased, same,
      erasedRoot same, Restriction.statementErased]
  · have compiled : Agree SameOption ((Scope.mk ctx ids).compile p negated)
        ((Scope.mk ctx ids).compile p' negated) := Scope.compileAgree alike negated
    obtain ⟨same, issued⟩ := compiled n q m q' m' left right
    refine ⟨issued, ?_⟩
    have rendered : ∀ q : Option SetPlan, q.map (fun plan => (plan.toSql ctx.layout).map Sql.Select.erased) =
        (q.map SetPlan.erased).map (SetQuery.toSql ctx.layout) := by
      intro q
      simp only [SetPlan.toSqlErased, Option.map_map, Function.comp_def]
    rw [rendered, rendered, same]

end Context

namespace ValueFreeSample
open RequestSample

def asking (friend place : Value) : Predicate :=
  .not (.any [.leaf (.compare friendsName .eq (.literal friend)),
    .leaf (.containsAll (.of ⟨"Person", "addresses"⟩) (.literal (.collection [place, .null])))])

def inFive : Value := .composite "Place" [(⟨"Address", "city"⟩, .int 5)]

theorem placesAlike : inRome.Alike people inFive := by
  refine .composite [(⟨"Address", "city"⟩, .text "Rome", .int 5)] fun f mem => ?_
  obtain rfl := List.mem_singleton.mp mem
  exact .scalar rfl rfl

theorem elementsAlike : Value.Alike people (.collection [inRome, .null]) (.collection [inFive, .null]) := by
  refine .collection [(inRome, inFive), (.null, .null)] rfl rfl ?_ ?_
  · simpa using ⟨placesAlike, .null⟩
  · intro c inside d inside'
    simp only [List.mem_cons, List.not_mem_nil, or_false] at inside inside'
    rcases inside with rfl | rfl <;> rcases inside' with rfl | rfl <;> rfl

theorem askingAlike : (asking (.text "Bob") inRome).Alike people (asking (.int 7) inFive) := by
  refine .not (.any [(_, _), (_, _)] ?_)
  simp only [List.mem_cons, List.not_mem_nil, or_false, forall_eq_or_imp, forall_eq]
  exact ⟨.leaf (.compare _ _ (.literal (.scalar rfl rfl))), .leaf (.containsAll _ (.literal elementsAlike))⟩

theorem askingCompilesToOneText : (asking (.text "Bob") inRome).Alike people (asking (.int 7) inFive) ∧
    ∃ q q', people.compileRows { request with predicate := some (asking (.text "Bob") inRome) } = .ok q ∧
      people.compileRows { request with predicate := some (asking (.int 7) inFive) } = .ok q' ∧
      q.typeCodes = [12, 12, 12] ∧ q'.typeCodes = [-5, -5, -5] ∧ q.sql = q'.sql := by
  have texts := (Context.valuesNeverReachText people askingAlike).1 request
  exact ⟨askingAlike, _, _, rfl, rfl, rfl, rfl, texts _ _ rfl rfl⟩

end ValueFreeSample
end ObjectQuery
