import ObjectQuery.Proofs.Emitted
import ObjectQuery.Proofs.Selected

/-! Comparisons over a store. The text of a compiled comparison yields the entities from which some chain of rows
along the path ends in a value that compares as asked; under negation, exactly the other entities of the type. -/
namespace ObjectQuery
open Outcome

variable {V : Type}

namespace Scope

def HasValue (sc : Scope) (I : Interpretation V) (db : Store sc.layout V) (p : PropertyPath)
    (operator : Operator) (operand : Operand) (r : Row V) : Prop :=
  ∃ parameter links t v, sc.parameter operand = .ok parameter ∧ sc.pathLinks p = .ok links ∧
    Chain db r links t ∧ t (sc.layout.valueColumn p) = some v ∧ I.compare v operator parameter = true

def Accepts (I : Interpretation V) (operator : Operator) (parameter : BoundParameter) (negated : Bool)
    (stored : Option V) : Prop :=
  (negated = true ∧ stored = none) ∨
    ∃ v, stored = some v ∧ I.compare v (operatorAt operator negated) parameter = true

theorem comparisonTestPasses {I : Interpretation V} {c : Column} {operator : Operator}
    {parameter : BoundParameter} {negated : Bool} {e : Joined V} (notNull : parameter.value.isNull = false) :
    (comparisonTest c (operatorAt operator negated) parameter negated).Passes I e ↔
      Accepts I operator parameter negated (c.read e) := by
  have compared : (Test.compare c (operatorAt operator negated) parameter).Passes I e ↔
      ∃ v, c.read e = some v ∧ I.compare v (operatorAt operator negated) parameter = true := by
    simp [Test.Passes, Test.truth, notNull]
  cases negated with
  | false => simpa [comparisonTest, Accepts] using compared
  | true =>
    simp only [comparisonTest, if_pos, Test.passesAny, List.mem_cons, List.not_mem_nil, or_false,
      exists_eq_or_imp, exists_eq_left, compared, Accepts, true_and]
    simp [Test.Passes, Test.truth]

section
variable [DecidableEq V] {sc : Scope} (db : Store sc.layout V) (I : Interpretation V) {p : PropertyPath}
  {operator : Operator} {operand : Operand} {negated : Bool} {n m : Nat} {q : SetPlan} {kind : LeafKind}
  {parameter : BoundParameter}

theorem comparedSelects (compared : Compared sc p operator operand negated n q m kind parameter) :
    ∃ links target r', sc.TargetLaid (kind.join negated) p (.numbered n) ⟨n + 1, []⟩ target links r' ∧
      target.isCollection = false ∧
      q.reading (Selection.selected I db) = db.select I sc.typeIds fun r =>
        ∃ t, JoinChain db (kind.join negated) r links t ∧
          Accepts I operator parameter negated (t (sc.layout.valueColumn p)) := by
  obtain ⟨joins, tests, division, laid, rfl⟩ := selectingOk.mp compared.selection
  obtain ⟨target, u, path, laid⟩ := bindOk.mp laid
  obtain ⟨links, there⟩ := Context.layPathLaid path
  split at laid
  · exact (throwBindOk.mp laid).elim
  · next scalar =>
    obtain ⟨tested, route⟩ := pureOk.mp laid
    obtain ⟨rfl, rfl⟩ := Prod.mk.inj tested
    obtain ⟨_, rfl⟩ := Route.mk.inj (there.laid.route.symm.trans route)
    refine ⟨links, target, u, there, by simpa using scalar, ?_⟩
    refine selectedAlong (P := fun t => Accepts I operator parameter negated (t (sc.layout.valueColumn p))) ?_
    intro e
    rw [List.forall_mem_singleton, comparisonTestPasses compared.notNull, there.value, there.laid.reached]
    rfl

theorem positiveSelects (compared : Compared sc p operator operand false n q m kind parameter) :
    q.reading (Selection.selected I db) = db.select I sc.typeIds (sc.HasValue I db p operator operand) := by
  obtain ⟨links, target, r', there, _, reads⟩ := comparedSelects db I compared
  rw [reads, compared.join]
  refine congrArg (db.select I sc.typeIds) (funext fun r => propext ?_)
  simp only [Bool.false_eq_true, if_false, joinChainInner, Accepts, operatorAt, false_and, false_or]
  constructor
  · intro found
    obtain ⟨t, chain, v, value, holds⟩ := found
    exact ⟨parameter, links, t, v, compared.bound, there.known, chain, value, holds⟩
  · intro found
    obtain ⟨parameter', links', t, v, bound, known, chain, value, holds⟩ := found
    cases compared.bound.symm.trans bound
    cases there.known.symm.trans known
    exact ⟨t, chain, v, value, holds⟩

theorem negativeSelects (compared : Compared sc p operator operand true n q m kind parameter)
    (complements : ∀ v, I.compare v operator.complement parameter = !I.compare v operator parameter)
    (single : ∀ links, sc.pathLinks p = .ok links → ∀ k ∈ links, k.single = true → k.OneRow db)
    (one : sc.fansOut p = .ok false) :
    q.reading (Selection.selected I db) =
      db.select I sc.typeIds fun r => ¬ sc.HasValue I db p operator operand r := by
  obtain ⟨links, target, r', there, scalar, reads⟩ := comparedSelects db I compared
  have keyed := Context.pathLinksKeyed there.known
  have oneRow : ∀ k ∈ links, k.OneRow db := fun k mem =>
    single links there.known k mem (Context.pathLinksSingle there one scalar k mem)
  rw [reads, compared.join]
  refine congrArg (db.select I sc.typeIds) (funext fun r => propext ?_)
  simp only [if_true, leftChainSingle keyed oneRow, Accepts, operatorAt, true_and, complements,
    Bool.not_eq_true']
  constructor
  · intro accepted has
    obtain ⟨t, reached, passes⟩ := accepted
    obtain ⟨parameter', links', t', v, bound, known, chain, value, holds⟩ := has
    cases compared.bound.symm.trans bound
    cases there.known.symm.trans known
    rcases reached with chain' | ⟨_, none⟩
    · obtain rfl := chainUnique oneRow chain chain'
      rw [value] at passes
      rcases passes with none | ⟨w, same, fails⟩
      · cases none
      · cases same
        rw [holds] at fails
        cases fails
    · exact none t' chain
  · intro hasNot
    -- where no chain goes through, the left joins lead to nulls, which the negated test accepts
    by_cases reached : ∃ t, Chain db r links t
    · obtain ⟨t, chain⟩ := reached
      refine ⟨t, .inl chain, ?_⟩
      cases value : t (sc.layout.valueColumn p) with
      | none => exact .inl rfl
      | some v =>
        refine .inr ⟨v, rfl, Bool.eq_false_iff.mpr fun holds => hasNot ?_⟩
        exact ⟨parameter, links, t, v, compared.bound, there.known, chain, value, holds⟩
    · exact ⟨Row.null, .inr ⟨rfl, fun s chain => reached ⟨s, chain⟩⟩, .inl rfl⟩

end

theorem negatedComparisonSelectsTheRest [DecidableEq V] (sc : Scope) (I : Interpretation V)
    (db : Store sc.layout V) {leaf : Leaf} {p : PropertyPath} {operator : Operator} {operand : Operand}
    (valid : sc.layout.faults = []) (named : sc.schema.Identified)
    (compares : leaf.comparison? = some (p, operator, operand))
    (complements : ∀ v (o : Operator) (b : BoundParameter), b.value.isNull = false →
      I.compare v o.complement b = !I.compare v o b)
    (single : ∀ links, sc.pathLinks p = .ok links → ∀ k ∈ links, k.single = true → k.OneRow db) :
    (∀ n q m, sc.compile (.leaf leaf) false n = .ok q m → ∃ plan, q = some plan ∧
      (plan.toSql sc.layout).Selects I db (db.select I sc.typeIds (sc.HasValue I db p operator operand))) ∧
    (∀ n q m, sc.compile (.leaf leaf) true n = .ok q m → ∃ plan, q = some plan ∧
      (plan.toSql sc.layout).Selects I db
        (db.select I sc.typeIds fun r => ¬ sc.HasValue I db p operator operand r)) := by
  obtain ⟨f, leafIs, compared⟩ := comparisonLeaf sc compares
  constructor
  · intro n q m ok
    obtain ⟨plan, row, rfl⟩ := mapOk.mp ((congrFun (leafIs false) n).symm.trans ok)
    obtain ⟨kind, parameter, laid⟩ := compared false n plan m row
    exact ⟨plan, rfl, positiveSelects db I laid ▸ compiledSelects valid named I db ok⟩
  · intro n q m ok
    obtain ⟨plan, row, rfl⟩ := mapOk.mp ((congrFun (leafIs true) n).symm.trans ok)
    suffices reads : plan.reading (Selection.selected I db) =
        db.select I sc.typeIds fun r => ¬ sc.HasValue I db p operator operand r from
      ⟨plan, rfl, reads ▸ compiledSelects valid named I db ok⟩
    -- negated on the row, or as a difference if the path fans out
    rcases onRowOk row with ⟨positive, _⟩ | ⟨_, one, row⟩ | ⟨_, _, positive, u, first, rfl⟩
    · cases positive
    · obtain ⟨kind, parameter, laid⟩ := compared true n plan m row
      exact negativeSelects db I laid (fun v => complements v operator parameter laid.notNull) single one
    · obtain ⟨kind, parameter, laid⟩ := compared false n positive u first
      rw [SetQuery.reading, SetQuery.reading, selectedAll, positiveSelects db I laid, Store.selectDiff]

end Scope

namespace ComplementSample

def persons : Scope where
  schema := (Schema.empty.withAttribute ⟨"Person", "employer"⟩ (.of "person_employer" 0)).withAttribute
    ⟨"Person", "age"⟩ (.of "person_age" 0)
  layout := .default
  typeIds := [1]

def employersAge : PropertyPath := ⟨some (.single ⟨"Person", "employer"⟩), [], ⟨"Person", "age"⟩⟩

def olderEmployer : Leaf := .compare employersAge .gt (.literal (.int 35))

def row (cells : List (String × Int)) : Row Int := fun column => cells.lookup column

def rows : String → List (Row Int)
  | "entities" =>
    [row [("entity_pk", 1), ("entity_identity", 101), ("entity_type_id", 1)],
      row [("entity_pk", 2), ("entity_identity", 102), ("entity_type_id", 1)],
      row [("entity_pk", 3), ("entity_identity", 103), ("entity_type_id", 1)]]
  | "person_employer" =>
    [row [("entity_pk", 1), ("qname_value", 2)], row [("entity_pk", 2), ("qname_value", 3)]]
  | "person_age" => [row [("entity_pk", 2), ("qname_value", 40)], row [("entity_pk", 3)]]
  | _ => []

def store : Store persons.layout Int where
  rows := rows
  distinctKeys := by
    change ∀ a ∈ rows "entities", ∀ b ∈ rows "entities", a "entity_pk" = b "entity_pk" → a = b
    simp [rows, row]

def order (v : Int) (b : BoundParameter) : Ordering :=
  match b.value with
  | .int n => compare v n.toInt
  | _ => .lt

def numbers : Interpretation Int where
  isType v id := v == id.toInt
  compare v o b := match o with
    | .eq => order v b == .eq
    | .ne => !(order v b == .eq)
    | .gt => order v b == .gt
    | .le => !(order v b == .gt)
    | .lt => order v b == .lt
    | .ge => !(order v b == .lt)
    | .matches => false
    | .notMatches => true
  pathMatches _ _ := false

theorem complements (v : Int) (o : Operator) (b : BoundParameter) (_ : b.value.isNull = false) :
    numbers.compare v o.complement b = !numbers.compare v o b := by
  cases o <;> simp [numbers, Operator.complement]

def hops : List Link :=
  [⟨"person_employer", [("entity_pk", "entity_pk")], true⟩,
    ⟨"person_age", [("entity_pk", "qname_value")], true⟩]

theorem hopsAreSingle (links) (known : persons.pathLinks employersAge = .ok links) :
    ∀ k ∈ links, k.single = true → k.OneRow store := by
  have keyed : ∀ name ∈ ["person_employer", "person_age"], ∀ s ∈ rows name, ∀ t ∈ rows name,
      s "entity_pk" = t "entity_pk" → s = t := by
    simp [rows, row]
  have onKey : ∀ k ∈ hops, k.table ∈ ["person_employer", "person_age"] ∧ "entity_pk" ∈ k.on.map Prod.fst := by
    decide
  cases known.symm.trans (rfl : persons.pathLinks employersAge = .ok hops)
  intro k mem _ s inside t inside' same
  obtain ⟨name, column⟩ := onKey k mem
  obtain ⟨c, on, key⟩ := List.mem_map.mp column
  obtain ⟨v, left, right⟩ := same c on
  exact keyed _ name s inside t inside' (key ▸ left.trans right.symm)

theorem personsIdentified : persons.schema.Identified := by
  refine Schema.withAttributeIdentified (Schema.withAttributeIdentified (fun _ _ none => nomatch none) ?_) ?_ <;>
    exact ⟨rfl, rfl, rfl⟩

theorem negatedComparisonSelectsYoungerAndNone :
    olderEmployer.comparison? = some (employersAge, .gt, .literal (.int 35)) ∧
    ∃ q m q' m', persons.compile (.leaf olderEmployer) false 0 = .ok (some q) m ∧
      persons.compile (.leaf olderEmployer) true 0 = .ok (some q') m' ∧
      (q.toSql persons.layout).Selects numbers store
        (store.select numbers [1] (persons.HasValue numbers store employersAge .gt (.literal (.int 35)))) ∧
      (q'.toSql persons.layout).Selects numbers store
        (store.select numbers [1] fun r =>
          ¬ persons.HasValue numbers store employersAge .gt (.literal (.int 35)) r) ∧
      (q.toSql persons.layout).Selects numbers store {x | x ∈ [(some 1, some 101)]} ∧
      (q'.toSql persons.layout).Selects numbers store {x | x ∈ [(some 2, some 102), (some 3, some 103)]} := by
  have compares : olderEmployer.comparison? = some (employersAge, .gt, .literal (.int 35)) := rfl
  have valid : persons.layout.faults = [] := by decide
  have rest := Scope.negatedComparisonSelectsTheRest persons numbers store valid personsIdentified compares
    complements hopsAreSingle
  have ok : persons.compile (.leaf olderEmployer) false 0 = .ok (some _) _ := rfl
  have ok' : persons.compile (.leaf olderEmployer) true 0 = .ok (some _) _ := rfl
  obtain ⟨q, same, positive⟩ := rest.1 0 _ _ ok
  obtain ⟨q', same', negative⟩ := rest.2 0 _ _ ok'
  cases same
  cases same'
  exact ⟨compares, _, _, _, _, ok, ok', positive, negative,
    Scope.compiledSelects valid personsIdentified numbers store ok,
    Scope.compiledSelects valid personsIdentified numbers store ok'⟩

end ComplementSample
end ObjectQuery
