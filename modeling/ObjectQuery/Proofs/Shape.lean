import ObjectQuery.Proofs.Grouped
import ObjectQuery.Proofs.Issued
import ObjectQuery.Proofs.Requested
import ObjectQuery.Proofs.Selected

/-! The shape of compiled predicates. Every statement shows the key and the identity of its own entities,
filtered by the type first; only whole selections of the type are subtracted from. -/
namespace ObjectQuery
open Outcome

namespace Layout

variable (l : Layout)

def shownColumns (tableAlias : String) : List String :=
  [Sql.column tableAlias l.entityKey, Sql.column tableAlias l.entityIdentity]

def typeFilter (ids : List Int32) (tableAlias : String) : Condition :=
  if ids.isEmpty then .raw "1 = 0"
  else .raw (Sql.column tableAlias l.entityTypeId ++ " IN (" ++ ", ".intercalate (ids.map (toString ·.toInt)) ++ ")")

def baseSelect (ids : List Int32) (tableAlias : String) : Sql.Select :=
  { Sql.Select.of (l.qualified l.entityTable) tableAlias with
    distinct := true, select := l.shownColumns tableAlias, filters := [l.typeFilter ids tableAlias] }

def IsBase (ids : List Int32) (s : Sql.Select) : Prop := ∃ a, s = l.baseSelect ids a

theorem typeTestFilter (ids : List Int32) (a : Alias) :
    (l.typeTest ids a).toCondition = l.typeFilter ids a.text := by
  unfold typeTest typeFilter
  split <;> rfl

end Layout

structure Sql.Select.Typed (ctx : Context) (ids : List Int32) (s : Sql.Select) : Prop where
  distinct : s.distinct = true
  table : s.table = ctx.layout.qualified ctx.layout.entityTable
  shown : s.select = ctx.layout.shownColumns s.tableAlias
  typed : s.filters.head? = some (ctx.layout.typeFilter ids s.tableAlias)
  grouped : s.groupBy ≠ [] ↔ s.having.isSome = true
  groups : s.groupBy ≠ [] → s.groupBy = s.select
  joined : ∀ j ∈ s.joins, ctx.IsTable j.table
  unordered : s.orderBy = []
  unlimited : s.limit = none ∧ s.offset = none

namespace SetQuery

variable {α β U : Type}

def ExceptsFrom (base : α → Prop) : SetQuery α → Prop
  | .select _ => True
  | .compound .intersect l r => l.ExceptsFrom base ∧ r.ExceptsFrom base
  | .compound .union l r => l.ExceptsFrom base ∧ r.ExceptsFrom base
  | .compound .except l r => (∃ s, l = .select s ∧ base s) ∧ r.ExceptsFrom base

theorem ExceptsFrom.map {base : α → Prop} {base' : β → Prop} {f : α → β} (each : ∀ s, base s → base' (f s))
    {q : SetQuery α} (excepts : q.ExceptsFrom base) : (q.map f).ExceptsFrom base' := by
  induction q with
  | select s => trivial
  | compound o l r left right =>
    cases o with
    | intersect => exact ⟨left excepts.1, right excepts.2⟩
    | union => exact ⟨left excepts.1, right excepts.2⟩
    | except =>
      obtain ⟨⟨s, rfl, whole⟩, others⟩ := excepts
      exact ⟨⟨f s, rfl, each s whole⟩, right others⟩

theorem readingWithin {R : α → Set U} {T : Set U} {q : SetQuery α} (each : ∀ s ∈ q.statements, R s ⊆ T) :
    q.reading R ⊆ T := by
  induction q with
  | select s => exact each s (List.mem_singleton_self s)
  | compound o l r left right =>
    have left := left fun s mem => each s (List.mem_append_left _ mem)
    have right := right fun s mem => each s (List.mem_append_right _ mem)
    cases o with
    | intersect => exact fun x both => left both.1
    | union => exact Set.union_subset left right
    | except => exact fun x kept => left kept.1

end SetQuery

variable {ctx : Context}

theorem joinsWithinTables {declared : List Alias} {joins : List Join} (within : JoinsWithin ctx declared joins) :
    ∀ j ∈ joins, ctx.IsTable j.table := by
  intro j mem
  obtain ⟨before, after, rfl⟩ := List.append_of_mem mem
  exact (joinWithinAt within).table

namespace Selection

variable {s : Selection} {n m : Nat}

theorem toSelectTyped {ids : List Int32} (types : s.typeIds = ids) (joins : ∀ j ∈ s.joins, ctx.IsTable j.table) :
    (s.toSelect ctx.layout).Typed ctx ids where
  distinct := rfl
  table := rfl
  shown := rfl
  typed := by
    rw [← types]
    exact congrArg some (ctx.layout.typeTestFilter s.typeIds s.root)
  grouped := by
    cases divided : s.division <;> simp [toSelect, columns, divided]
  groups := by
    cases divided : s.division <;> simp [toSelect, divided]
  joined := List.forall_mem_map.mpr joins
  unordered := rfl
  unlimited := ⟨rfl, rfl⟩

end Selection

namespace Scope
open SetPlan SetQuery

variable {sc : Scope} {n m : Nat} {q : SetPlan}

def IsWhole (sc : Scope) (s : Selection) : Prop := ∃ n, s = all sc n

theorem wholeSelect {s : Selection} (whole : sc.IsWhole s) :
    sc.layout.IsBase sc.typeIds (s.toSelect sc.layout) := by
  obtain ⟨n, rfl⟩ := whole
  have filters := sc.layout.typeTestFilter sc.typeIds (.numbered n)
  refine ⟨(Alias.numbered n).text, ?_⟩
  simp only [Selection.toSelect, Test.toConditions, all, filters]
  rfl

theorem selectingExcepts {base : Selection → Prop} {lay : Alias → Lay (List Test × Option Division)}
    (ok : sc.selecting lay n = .ok q m) : q.ExceptsFrom base := by
  obtain ⟨_, _, _, _, rfl⟩ := selectingOk.mp ok
  trivial

theorem exceptsClosed (sc : Scope) : Closed sc (ExceptsFrom sc.IsWhole) where
  nothing _ := trivial
  complement n _ holds := ⟨⟨all sc n, rfl, n, rfl⟩, holds⟩
  connect operator _ _ joins left right := by
    cases operator with
    | intersect => exact ⟨left, right⟩
    | union => exact ⟨left, right⟩
    | except => exact absurd rfl joins

theorem conditionsExcept (sc : Scope) : OfConditions sc (ExceptsFrom sc.IsWhole) where
  scalar ok := selectingExcepts ok
  propertyNull ok := selectingExcepts ok
  associationNull ok := selectingExcepts ok
  reaches ok := by
    obtain ⟨_, _, _, ok⟩ := bindOk.mp ok
    exact selectingExcepts ok
  contains ok := by
    obtain ⟨_, _, _, ok⟩ := bindOk.mp ok
    split at ok
    · exact (throwBindOk.mp ok).elim
    · exact selectingExcepts ok
  dividing _ ok := selectingExcepts ok

theorem compiledStatementsTyped {p : Predicate} {negated : Bool}
    (ok : sc.compile p negated n = .ok (some q) m) :
    (∀ s ∈ (q.toSql sc.layout).statements, s.Typed sc.toContext sc.typeIds) ∧
    (q.toSql sc.layout).ExceptsFrom (sc.layout.IsBase sc.typeIds) ∧
    (∀ (U : Type) (ofType : Set U) (R : Sql.Select → Set U),
      (∀ s, s.Typed sc.toContext sc.typeIds → R s ⊆ ofType) → (q.toSql sc.layout).reading R ⊆ ofType) ∧
    ∀ (V : Type) [DecidableEq V] (I : Interpretation V) (db : Store sc.layout V),
      q.reading (Selection.selected I db) ⊆ db.select I sc.typeIds fun _ => True := by
  have proper := (compileIssued p ok).plan q rfl
  have types : ∀ s ∈ q.statements, s.typeIds = sc.typeIds := fun s mem => (compileGrouped ok q rfl s mem).types
  have typed : ∀ s ∈ (q.toSql sc.layout).statements, s.Typed sc.toContext sc.typeIds := by
    rw [SetQuery.toSql, statementsMap]
    refine List.forall_mem_map.mpr fun s mem => ?_
    obtain ⟨_, _, _, _, own⟩ := proper.each s mem
    exact Selection.toSelectTyped (types s mem) (joinsWithinTables own.joins)
  have planned : q.ExceptsFrom sc.IsWhole := compileBuilt sc.exceptsClosed sc.conditionsExcept p ok q rfl
  have excepts : (q.toSql sc.layout).ExceptsFrom (sc.layout.IsBase sc.typeIds) :=
    planned.map fun _ whole => wholeSelect whole
  refine ⟨typed, excepts, fun U ofType R each => ?_, fun V _ I db => ?_⟩
  · exact readingWithin fun s mem => each s (typed s mem)
  · refine readingWithin fun s mem => ?_
    obtain ⟨_, _, _, _, own⟩ := proper.each s mem
    rw [← types s mem]
    exact selectedOfType own.rootOwn

end Scope

namespace ShapeSample
open RequestSample

def persons : Scope := ⟨people, [1]⟩

def strangers : Predicate := .not (.any [
  .leaf (.compare friendsName .eq (.literal (.text "Bob"))),
  .leaf (.containsAll (.of ⟨"Person", "addresses"⟩) (.literal (.collection [inRome, .null])))])

theorem strangersTyped : ∃ q m, persons.compile strangers false 0 = .ok (some q) m ∧
    (∀ s ∈ (q.toSql people.layout).statements, s.Typed people [1]) ∧
    (q.toSql people.layout).ExceptsFrom (people.layout.IsBase [1]) ∧
    (q.toSql people.layout).statements.length = 4 := by
  obtain ⟨q, m, ok, statements⟩ : ∃ q m, persons.compile strangers false 0 = .ok (some q) m ∧
    (q.toSql people.layout).statements.length = 4 := ⟨_, _, rfl, rfl⟩
  obtain ⟨typed, excepts, _⟩ := Scope.compiledStatementsTyped ok
  exact ⟨q, m, ok, typed, excepts, statements⟩

end ShapeSample
end ObjectQuery
