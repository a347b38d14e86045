import ObjectQuery.Proofs.Built
import ObjectQuery.Proofs.ElementScope

/-! Selections of compiled predicates. All select from the type ids of the scope; every group of tests has
a member, and only the selection itself tests the type. -/
namespace ObjectQuery
open Outcome

namespace Test

mutual
def isGrouped : Test → Bool
  | .typeAmong _ _ => false
  | .all ts => !ts.isEmpty && eachGrouped ts
  | .any ts => !ts.isEmpty && eachGrouped ts
  | _ => true
def eachGrouped : List Test → Bool
  | [] => true
  | t :: ts => isGrouped t && eachGrouped ts
end

def Grouped (ts : List Test) : Prop := ∀ t ∈ ts, t.isGrouped = true

theorem eachGroupedIff {ts : List Test} : eachGrouped ts = true ↔ Grouped ts := by
  induction ts with
  | nil => simp [eachGrouped, Grouped]
  | cons t ts ih => simp [eachGrouped, ih, Grouped]

theorem groupedAll {ts : List Test} : (Test.all ts).isGrouped = true ↔ ts ≠ [] ∧ Grouped ts := by
  simp [isGrouped, eachGroupedIff]

theorem groupedAny {ts : List Test} : (Test.any ts).isGrouped = true ↔ ts ≠ [] ∧ Grouped ts := by
  simp [isGrouped, eachGroupedIff]

structure WrittenWith (column : Column → Prop) (pattern : String → Prop) (t : Test) : Prop where
  columns : ∀ c ∈ t.columns, column c
  patterns : ∀ c p, .pathMatches c p ∈ t.atoms → pattern p
  grouped : t.isGrouped = true

section
variable {column : Column → Prop} {pattern : String → Prop} {t : Test}

theorem WrittenWith.each {ts : List Test} (made : t.atoms = atomsEach ts)
    (grouped : t.isGrouped = true ↔ ts ≠ [] ∧ Grouped ts) (written : t.WrittenWith column pattern) :
    ts ≠ [] ∧ ∀ s ∈ ts, s.WrittenWith column pattern := by
  obtain ⟨some, each⟩ := grouped.mp written.grouped
  refine ⟨some, fun s mem => ?_⟩
  exact ⟨fun c read => written.columns c ((columnsMem made).mpr ⟨s, mem, read⟩),
    fun c p read => written.patterns c p ((atomsMem made).mpr ⟨s, mem, read⟩), each s mem⟩

theorem WrittenWith.on {c : Column} (written : t.WrittenWith column pattern) (read : t.columns = [c]) : column c :=
  written.columns c (read ▸ List.mem_singleton_self c)

end

end Test

open Test

def Division.Grouped (d : Division) : Prop :=
  match d.tally with
  | .values _ => True
  | .matches tests => Test.Grouped tests

structure Selection.Grouped (ids : List Int32) (s : Selection) : Prop where
  types : s.typeIds = ids
  tests : Test.Grouped s.tests
  division : ∀ d, s.division = some d → d.Grouped

namespace Context

variable {ctx : Context} {r r' : Route} {children children' : Children}

theorem scalarTestGrouped {c : Column} {v : Value} {t : Test} (ok : ctx.scalarTest c v = .ok t) :
    t.isGrouped = true := by
  unfold scalarTest at ok
  split at ok
  · cases ok
    rfl
  · obtain ⟨parameter, bound, ok⟩ := exceptBindOk.mp ok
    obtain rfl := exceptPureOk.mp ok
    rfl

theorem conjunctionGrouped {tests : List Test} (grouped : Grouped tests) : Grouped (conjunction tests) := by
  intro t mem
  unfold conjunction at mem
  split at mem
  · cases mem
  · next some =>
    obtain rfl := List.mem_singleton.mp mem
    exact groupedAll.mpr ⟨by simpa using some, grouped⟩

theorem plainGrouped {source : ElementSource} {v : Value} {tests : List Test}
    (plain : ∀ t fields, v ≠ .composite t fields)
    (ok : ctx.valueTests source v children r = .ok (tests, children') r') : Grouped tests := by
  obtain ⟨test, made, rfl, _, _⟩ := (plainTestsOk plain).mp ok
  exact List.forall_mem_singleton.mpr (scalarTestGrouped made)

mutual
theorem valueGrouped {source : ElementSource} {r r' : Route} {children children' : Children}
    {tests : List Test} : (v : Value) → ctx.valueTests source v children r = .ok (tests, children') r' →
      Grouped tests
  | .composite _ fields, ok => by
    obtain ⟨inner, tested, rfl⟩ := compositeTestsOk ok
    exact conjunctionGrouped (fieldGrouped fields tested)
  | .null, ok => plainGrouped (by simp) ok
  | .bool _, ok => plainGrouped (by simp) ok
  | .int _, ok => plainGrouped (by simp) ok
  | .float _, ok => plainGrouped (by simp) ok
  | .text _, ok => plainGrouped (by simp) ok
  | .date _, ok => plainGrouped (by simp) ok
  | .timestamp _, ok => plainGrouped (by simp) ok
  | .enum _ _, ok => plainGrouped (by simp) ok
  | .collection _, ok => plainGrouped (by simp) ok
theorem fieldGrouped {parent : ElementSource} {r r' : Route} {children children' : Children}
    {tests : List Test} : (fields : List (QualifiedName × Value)) →
      ctx.fieldTests parent fields children r = .ok (tests, children') r' → Grouped tests
  | [], ok => by
    obtain ⟨same, rfl⟩ := pureOk.mp ok
    cases same
    exact List.forall_mem_nil _
  | (field, v) :: rest, ok => by
    obtain ⟨_, _, _, _, _, _, _, _, _, _, value, others, rfl⟩ := fieldTestsOk ok
    exact List.forall_mem_append.mpr ⟨valueGrouped v value, fieldGrouped rest others⟩
end

theorem elementGrouped {source : ElementSource} {v : Value} {test : Test}
    (ok : ctx.elementTest source v children r = .ok (test, children') r') : test.isGrouped = true := by
  obtain ⟨tests, value, rfl⟩ := elementTestOk ok
  exact groupedAll.mpr ⟨List.cons_ne_nil _ _, List.forall_mem_cons.mpr ⟨rfl, valueGrouped v value⟩⟩

theorem elementsGrouped {source : ElementSource} {elements : List Value} {tests : List Test}
    (ok : ctx.elementTests source elements children r = .ok (tests, children') r') :
    tests.length = elements.length ∧ Grouped tests := by
  induction elements generalizing r children tests with
  | nil =>
    obtain ⟨same, rfl⟩ := pureOk.mp ok
    cases same
    exact ⟨rfl, List.forall_mem_nil _⟩
  | cons v rest ih =>
    obtain ⟨_, _, _, _, first, others, rfl⟩ := elementTestsOk ok
    obtain ⟨length, grouped⟩ := ih others
    exact ⟨congrArg (· + 1) length, List.forall_mem_cons.mpr ⟨elementGrouped first, grouped⟩⟩

end Context

def SetPlan.Holds (P : Selection → Prop) (q : SetPlan) : Prop := ∀ s ∈ q.statements, P s

def SetPlan.HoldsAny (P : Selection → Prop) (part : Option SetPlan) : Prop := ∀ q, part = some q → Holds P q

theorem SetPlan.HoldsAny.each {P : Selection → Prop} {part : Option SetPlan} (holds : HoldsAny P part) :
    ∀ s ∈ part.elim [] SetQuery.statements, P s := by
  cases part with
  | none => exact List.forall_mem_nil _
  | some q => exact holds q rfl

namespace Scope
open SetPlan

variable {sc : Scope} {P : Selection → Prop} {n m : Nat} {q : SetPlan}

structure Bare (sc : Scope) (P : Selection → Prop) : Prop where
  whole : ∀ n, P (all sc n)
  nothing : ∀ n, P { all sc n with tests := [.never] }

theorem holdsSelect {s : Selection} (holds : P s) : Holds P (.select s) := List.forall_mem_singleton.mpr holds

theorem holdsCompound {operator : SetOperator} {l r : SetPlan} (left : Holds P l) (right : Holds P r) :
    Holds P (.compound operator l r) := List.forall_mem_append.mpr ⟨left, right⟩

theorem Bare.closed (bare : sc.Bare P) : Closed sc (Holds P) where
  nothing n := holdsSelect (bare.nothing n)
  complement n _ holds := holdsCompound (holdsSelect (bare.whole n)) holds
  connect _ _ _ _ left right := holdsCompound left right

theorem bareGrouped (sc : Scope) : sc.Bare (Selection.Grouped sc.typeIds) where
  whole _ := ⟨rfl, List.forall_mem_nil _, nofun⟩
  nothing _ := ⟨rfl, List.forall_mem_singleton.mpr rfl, nofun⟩

theorem selectingGrouped {lay : Alias → Lay (List Test × Option Division)}
    (each : ∀ root r tests division r', lay root r = .ok (tests, division) r' →
      Test.Grouped tests ∧ ∀ d, division = some d → d.Grouped)
    (ok : sc.selecting lay n = .ok q m) : Holds (Selection.Grouped sc.typeIds) q := by
  obtain ⟨joins, tests, division, laid, rfl⟩ := selectingOk.mp ok
  obtain ⟨grouped, divided⟩ := each _ _ _ _ _ laid
  exact holdsSelect ⟨rfl, grouped, divided⟩

theorem scalarGrouped {kind : LeafKind} {p : PropertyPath} {operator : Operator} {parameter : BoundParameter}
    {negated : Bool} (ok : sc.scalarSelection kind p operator parameter negated n = .ok q m) :
    Holds (Selection.Grouped sc.typeIds) q := by
  refine selectingGrouped (fun root r tests division r' laid => ?_) ok
  obtain ⟨target, u, path, laid⟩ := bindOk.mp laid
  split at laid
  · exact (throwBindOk.mp laid).elim
  · obtain ⟨same, _⟩ := pureOk.mp laid
    cases same
    refine ⟨List.forall_mem_singleton.mpr ?_, nofun⟩
    cases negated <;> rfl

theorem nullTestsGrouped (c : Column) (isNull negated : Bool) : Test.Grouped (nullTests c isNull negated) := by
  unfold nullTests
  split
  · exact List.forall_mem_singleton.mpr rfl
  · exact List.forall_mem_nil _

theorem propertyNullGrouped {p : PropertyPath} {isNull negated : Bool}
    (ok : sc.propertyNull p isNull negated n = .ok q m) : Holds (Selection.Grouped sc.typeIds) q := by
  refine selectingGrouped (fun root r tests division r' laid => ?_) ok
  obtain ⟨target, u, path, laid⟩ := bindOk.mp laid
  obtain ⟨same, _⟩ := pureOk.mp laid
  cases same
  exact ⟨nullTestsGrouped _ _ _, nofun⟩

theorem associationNullGrouped {a : AssociationPath} {isNull negated : Bool}
    (ok : sc.associationNull a isNull negated n = .ok q m) : Holds (Selection.Grouped sc.typeIds) q := by
  refine selectingGrouped (fun root r tests division r' laid => ?_) ok
  obtain ⟨target, u, path, laid⟩ := bindOk.mp laid
  obtain ⟨same, _⟩ := pureOk.mp laid
  cases same
  exact ⟨nullTestsGrouped _ _ _, nofun⟩

theorem reachesGrouped {a : AssociationPath} {operand : Operand} (ok : sc.reaches a operand n = .ok q m) :
    Holds (Selection.Grouped sc.typeIds) q := by
  obtain ⟨parameter, u, text, ok⟩ := bindOk.mp ok
  refine selectingGrouped (fun root r tests division r' laid => ?_) ok
  obtain ⟨target, v, path, laid⟩ := bindOk.mp laid
  obtain ⟨entity, w, joined, laid⟩ := bindOk.mp laid
  obtain ⟨same, _⟩ := pureOk.mp laid
  cases same
  exact ⟨List.forall_mem_singleton.mpr rfl, nofun⟩

theorem containsGrouped {p : PropertyPath} {operand : Operand} (ok : sc.contains p operand n = .ok q m) :
    Holds (Selection.Grouped sc.typeIds) q := by
  obtain ⟨v, u, literal, ok⟩ := bindOk.mp ok
  split at ok
  · exact (throwBindOk.mp ok).elim
  · refine selectingGrouped (fun root r tests division r' laid => ?_) ok
    obtain ⟨⟨target, source⟩, w, collection, laid⟩ := bindOk.mp laid
    obtain ⟨⟨test, children⟩, x, element, laid⟩ := bindOk.mp laid
    obtain ⟨same, _⟩ := pureOk.mp laid
    cases same
    exact ⟨List.forall_mem_singleton.mpr (Context.elementGrouped element), nofun⟩

theorem dividingGrouped {p : PropertyPath} {elements : List Value} (some : elements ≠ [])
    (ok : sc.dividing p elements n = .ok q m) : Holds (Selection.Grouped sc.typeIds) q := by
  refine selectingGrouped (fun root r tests division r' laid => ?_) ok
  obtain ⟨⟨target, source⟩, w, collection, laid⟩ := bindOk.mp laid
  obtain ⟨⟨each, children⟩, x, listed, laid⟩ := bindOk.mp laid
  obtain ⟨same, _⟩ := pureOk.mp laid
  cases same
  obtain ⟨length, grouped⟩ := Context.elementsGrouped listed
  have nonempty : each ≠ [] := by
    rintro rfl
    exact some (List.eq_nil_of_length_eq_zero length.symm)
  refine ⟨List.forall_mem_singleton.mpr (groupedAny.mpr ⟨nonempty, grouped⟩), fun d same => ?_⟩
  cases same
  unfold Division.Grouped
  split
  · trivial
  · next ts counted =>
    dsimp only at counted
    split at counted
    · cases counted
    · cases counted
      exact grouped

theorem conditionsGrouped (sc : Scope) : OfConditions sc (Holds (Selection.Grouped sc.typeIds)) where
  scalar := scalarGrouped
  propertyNull := propertyNullGrouped
  associationNull := associationNullGrouped
  reaches := reachesGrouped
  contains := containsGrouped
  dividing := dividingGrouped

theorem compileGrouped {p : Predicate} {negated : Bool} {part : Option SetPlan}
    (ok : sc.compile p negated n = .ok part m) : HoldsAny (Selection.Grouped sc.typeIds) part :=
  compileBuilt sc.bareGrouped.closed sc.conditionsGrouped p ok

end Scope
end ObjectQuery
