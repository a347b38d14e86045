import Mathlib.Data.List.Forall2
import ObjectQuery.Compile.Request
import ObjectQuery.Proofs.ElementScope
import ObjectQuery.Proofs.Fill

/-! Statements with texts in place of parameters, written where a condition is built. If nothing but
parameters leaves a placeholder, the statement with placeholders is filled to the same text. -/
namespace ObjectQuery

variable (token : BoundParameter → String)

namespace Test

mutual
def written : Test → Condition
  | .compare c o p => .raw (c.text ++ " " ++ o.symbol ++ " " ++ token p)
  | .all ts => .all (writtenEach ts)
  | .any ts => .any (writtenEach ts)
  | t => t.toCondition
def writtenEach : List Test → List Condition
  | [] => []
  | t :: ts => written t :: writtenEach ts
end

structure PlainTexts (t : Test) : Prop where
  columns : ∀ c ∈ t.columns, Plain c.text
  patterns : ∀ c pattern, .pathMatches c pattern ∈ t.atoms → Plain pattern

end Test

namespace Division

def written (d : Division) : Condition :=
  match d.tally with
  | .values _ => d.toCondition
  | .matches tests =>
    .raw ("COUNT(DISTINCT CASE " ++ " ".intercalate (whenClauses 1 (Test.writtenEach token tests)) ++
      " END) >= " ++ toString d.required)

def PlainTexts (d : Division) : Prop :=
  match d.tally with
  | .values c => Plain c.text
  | .matches tests => ∀ t ∈ tests, t.PlainTexts

end Division

def Selection.written (l : Layout) (s : Selection) : Sql.Select :=
  { s.toSelect l with
    filters := Test.writtenEach token (l.typeTest s.typeIds s.root :: s.tests)
    having := s.division.map (·.written token) }

namespace Restriction

def writtenFilters (l : Layout) (r : Restriction) : List Condition :=
  (l.typeTest r.typeIds r.root).written token ::
    match r.members with
    | none => []
    | some q => [membership l r.root (q.map (·.written token l))]

def writtenCount (l : Layout) (r : Restriction) : Sql.Select :=
  { r.countStatement l with filters := r.writtenFilters token l }

end Restriction

def RowPlan.written (l : Layout) (p : RowPlan) : Sql.Select :=
  { p.toSelect l with filters := p.restriction.writtenFilters token l }

def Condition.Filled (c d : Condition) : Prop := Fills c.sql (c.parameters.map token) d.sql

variable {token}

namespace Condition

theorem rawFilled {s : String} (plain : Plain s) : Filled token (.raw s) (.raw s) := Fills.plain plain

theorem textsFilled {cs ds : List Condition} (each : List.Forall₂ (Filled token) cs ds) :
    FillsEach (cs.map (·.sql)) ((cs.flatMap (·.parameters)).map token) (ds.map (·.sql)) := by
  induction each with
  | nil => exact .nil
  | cons first rest ih =>
    rw [List.flatMap_cons, List.map_append]
    exact .cons first ih

theorem groupFilled {separator : String} {cs ds : List Condition} (between : Plain separator)
    (each : List.Forall₂ (Filled token) cs ds) : Filled token (group separator cs) (group separator ds) := by
  have inside := (textsFilled each).intercalate between
  have grouped : Fills ("(" ++ separator.intercalate (cs.map (·.sql)) ++ ")")
      ((cs.flatMap (·.parameters)).map token) ("(" ++ separator.intercalate (ds.map (·.sql)) ++ ")") :=
    (inside.before (rfl : Plain "(")).after (rfl : Plain ")")
  cases each with
  | nil => exact grouped
  | cons first rest =>
    cases rest with
    | nil => exact first
    | cons second rest => exact grouped

end Condition

open Condition

namespace Test

theorem PlainTexts.each {t : Test} {ts : List Test} (made : t.atoms = atomsEach ts) (plain : t.PlainTexts) :
    ∀ s ∈ ts, s.PlainTexts := by
  intro s mem
  exact ⟨fun c read => plain.columns c ((columnsMem made).mpr ⟨s, mem, read⟩),
    fun c pattern read => plain.patterns c pattern ((atomsMem made).mpr ⟨s, mem, read⟩)⟩

theorem PlainTexts.column {t : Test} {c : Column} (plain : t.PlainTexts) (read : t.columns = [c]) :
    Plain c.text := plain.columns c (read ▸ List.mem_singleton_self c)

theorem compareFilled {c : Column} (o : Operator) (p : BoundParameter) (plain : Plain c.text) :
    Filled token (Test.compare c o p).toCondition ((Test.compare c o p).written token) := by
  have symbol : Plain o.symbol := by cases o <;> rfl
  have before : Plain (c.text ++ " " ++ o.symbol ++ " ") :=
    plainAppend.mpr ⟨plainAppend.mpr ⟨plainAppend.mpr ⟨plain, rfl⟩, symbol⟩, rfl⟩
  have filled := (Fills.hole (token p)).before before
  rwa [String.append_assoc] at filled

theorem typesFilled {c : Column} (ids : List Int32) (plain : Plain c.text) :
    Plain (c.text ++ " IN (" ++ ", ".intercalate (ids.map (toString ·.toInt)) ++ ")") := by
  have each : ∀ s ∈ ids.map (toString ·.toInt), Plain s := by
    intro s mem
    obtain ⟨id, _, rfl⟩ := List.mem_map.mp mem
    exact plainInt _
  have listed := plainKept.intercalate (rfl : Plain ", ") each
  exact plainAppend.mpr ⟨plainAppend.mpr ⟨plainAppend.mpr ⟨plain, rfl⟩, listed⟩, rfl⟩

mutual
theorem filled : (t : Test) → t.PlainTexts → Filled token t.toCondition (t.written token)
  | .never, _ => rawFilled rfl
  | .typeAmong c ids, plain => rawFilled (typesFilled ids (plain.column rfl))
  | .isNull c, plain => rawFilled (plainAppend.mpr ⟨plain.column rfl, rfl⟩)
  | .compare c o p, plain => compareFilled o p (plain.column rfl)
  | .pathMatches c pattern, plain => by
    have quoted := plain.patterns c pattern (List.mem_singleton_self _)
    exact rawFilled (plainAppend.mpr ⟨plainAppend.mpr
      ⟨plainAppend.mpr ⟨plain.column rfl, rfl⟩, quoted⟩, rfl⟩)
  | .all ts, plain => groupFilled rfl (filledEach ts (plain.each rfl))
  | .any ts, plain => groupFilled rfl (filledEach ts (plain.each rfl))
theorem filledEach : (ts : List Test) → (∀ t ∈ ts, t.PlainTexts) →
    List.Forall₂ (Filled token) (toConditions ts) (writtenEach token ts)
  | [], _ => .nil
  | t :: ts, plain => .cons (filled t (plain t List.mem_cons_self))
      (filledEach ts fun s mem => plain s (List.mem_cons_of_mem _ mem))
end

end Test

namespace Division

theorem clausesFilled {cs ds : List Condition} (n : Nat) (each : List.Forall₂ (Filled token) cs ds) :
    FillsEach (whenClauses n cs) ((cs.flatMap (·.parameters)).map token) (whenClauses n ds) := by
  induction each generalizing n with
  | nil => exact .nil
  | cons first rest ih =>
    rw [List.flatMap_cons, List.map_append]
    have position : Plain (toString n) := plainNat n
    have opened := first.before (rfl : Plain "WHEN ")
    exact .cons ((opened.after (rfl : Plain " THEN ")).after position) (ih (n + 1))

theorem filled {d : Division} (plain : d.PlainTexts) : Filled token d.toCondition (d.written token) := by
  obtain ⟨tally, required⟩ := d
  have number : Plain (toString required) := plainNat required
  cases tally with
  | values c =>
    have start : Plain ("COUNT(DISTINCT " ++ c.text) := plainAppend.mpr ⟨rfl, plain⟩
    exact rawFilled (plainAppend.mpr ⟨plainAppend.mpr ⟨start, rfl⟩, number⟩)
  | «matches» tests =>
    have each : List.Forall₂ (Filled token) _ _ := Test.filledEach tests plain
    have clauses := (clausesFilled 1 each).intercalate (rfl : Plain " ")
    have opened := clauses.before (rfl : Plain "COUNT(DISTINCT CASE ")
    exact (opened.after (rfl : Plain " END) >= ")).after number

end Division

structure Sql.Select.PlainTexts (s : Sql.Select) : Prop where
  select : ∀ x ∈ s.select, Plain x
  table : Plain s.table
  tableAlias : Plain s.tableAlias
  joins : ∀ j ∈ s.joins, Plain j.sql
  groupBy : ∀ x ∈ s.groupBy, Plain x
  orderBy : ∀ i ∈ s.orderBy, Plain i.sql

namespace Sql.Select

variable {s : Sql.Select}

theorem PlainTexts.head (plain : s.PlainTexts) :
    Plain ("SELECT " ++ (if s.distinct then "DISTINCT " else "") ++ ", ".intercalate s.select ++
      " FROM " ++ s.table ++ " " ++ s.tableAlias ++ String.join (s.joins.map fun j => " " ++ j.sql)) := by
  have start : Plain "SELECT " := rfl
  have distinct : Plain (if s.distinct then "DISTINCT " else "") := by cases s.distinct <;> rfl
  have selected : Plain (", ".intercalate s.select) := plainKept.intercalate rfl plain.select
  have source : Plain " FROM " := rfl
  have space : Plain " " := rfl
  have spaced : ∀ x ∈ s.joins.map (fun j => " " ++ j.sql), Plain x := by
    intro x mem
    obtain ⟨j, inside, rfl⟩ := List.mem_map.mp mem
    exact plainAppend.mpr ⟨space, plain.joins j inside⟩
  have joined := plainKept.join spaced
  simp only [plainAppend]
  exact ⟨⟨⟨⟨⟨⟨⟨start, distinct⟩, selected⟩, source⟩, plain.table⟩, space⟩, plain.tableAlias⟩, joined⟩

theorem PlainTexts.order (plain : s.PlainTexts) : Plain (clause " ORDER BY " ", " (s.orderBy.map (·.sql))) := by
  have each : ∀ x ∈ s.orderBy.map (·.sql), Plain x := by
    intro x mem
    obtain ⟨i, inside, rfl⟩ := List.mem_map.mp mem
    exact plain.orderBy i inside
  exact plainKept.clause rfl rfl each

theorem havingFilled {having given : Option Condition}
    (each : List.Forall₂ (Filled token) having.toList given.toList) :
    Fills (option " HAVING " (having.map (·.sql))) ((having.elim [] (·.parameters)).map token)
      (option " HAVING " (given.map (·.sql))) := by
  cases having with
  | none =>
    cases given with
    | none => exact .plain rfl
    | some d => cases each
  | some c =>
    cases given with
    | none => cases each
    | some d =>
      cases each with
      | cons first _ => exact first.before rfl

theorem filled {filters : List Condition} {having : Option Condition} (plain : s.PlainTexts)
    (tests : List.Forall₂ (Filled token) s.filters filters)
    (division : List.Forall₂ (Filled token) s.having.toList having.toList) :
    Fills s.sql (s.parameters.map token) { s with filters := filters, having := having }.sql := by
  have restricted := (textsFilled tests).clause (rfl : Plain " WHERE ") (rfl : Plain " AND ")
  have group : Plain (clause " GROUP BY " ", " s.groupBy) := plainKept.clause rfl rfl plain.groupBy
  have grouped := ((restricted.before plain.head).after group).append (havingFilled division)
  have limit := plainKept.number (rfl : Plain " LIMIT ") plainNat s.limit
  have offset := plainKept.number (rfl : Plain " OFFSET ") plainNat s.offset
  rw [parameters, List.map_append]
  exact ((grouped.after plain.order).after limit).after offset

end Sql.Select

structure Selection.PlainTexts (l : Layout) (s : Selection) : Prop where
  statement : (s.toSelect l).PlainTexts
  tests : ∀ t ∈ l.typeTest s.typeIds s.root :: s.tests, t.PlainTexts
  division : ∀ d, s.division = some d → d.PlainTexts

theorem Selection.filled {l : Layout} {s : Selection} (plain : s.PlainTexts l) :
    Fills (s.toSelect l).sql ((s.toSelect l).parameters.map token) (s.written token l).sql := by
  have division : List.Forall₂ (Filled token) (s.division.map Division.toCondition).toList
      (s.division.map (·.written token)).toList := by
    cases divided : s.division with
    | none => exact .nil
    | some d => exact .cons (Division.filled (plain.division d divided)) .nil
  exact Sql.Select.filled plain.statement (Test.filledEach _ plain.tests) division

theorem SetQuery.filled {l : Layout} {q : SetPlan} (plain : ∀ s ∈ q.statements, s.PlainTexts l) :
    Fills (q.toSql l).sql ((q.toSql l).parameters.map token) (SetQuery.map (·.written token l) q).sql := by
  induction q with
  | select s => exact Selection.filled (plain s (List.mem_singleton_self s))
  | compound operator left right ihLeft ihRight =>
    have first := ihLeft fun s mem => plain s (List.mem_append_left _ mem)
    have second := ihRight fun s mem => plain s (List.mem_append_right _ mem)
    have keyword : Plain operator.keyword := by cases operator <;> rfl
    have opened := ((first.before (rfl : Plain "(")).after (rfl : Plain ") ")).after keyword
    have both := ((opened.after (rfl : Plain " (")).append second).after (rfl : Plain ")")
    have parameters : ((SetQuery.compound operator left right).toSql l).parameters.map token =
        (left.toSql l).parameters.map token ++ (right.toSql l).parameters.map token := List.map_append
    rw [parameters]
    exact both

namespace Restriction

structure PlainTexts (l : Layout) (r : Restriction) : Prop where
  key : Plain (l.keyOf r.root).text
  identity : Plain (l.identityOf r.root).text
  type : (l.typeTest r.typeIds r.root).PlainTexts
  members : ∀ q, r.members = some q → ∀ s ∈ q.statements, s.PlainTexts l

theorem filtersFilled {l : Layout} {r : Restriction} (plain : r.PlainTexts l) :
    List.Forall₂ (Filled token) (r.filters l) (r.writtenFilters token l) := by
  have start : Plain ("(" ++ (l.keyOf r.root).text ++ ", " ++ (l.identityOf r.root).text ++ ") IN (") := by
    have opening : Plain "(" := rfl
    have comma : Plain ", " := rfl
    have among : Plain ") IN (" := rfl
    simp only [plainAppend]
    exact ⟨⟨⟨⟨opening, plain.key⟩, comma⟩, plain.identity⟩, among⟩
  refine .cons (Test.filled _ plain.type) ?_
  cases members : r.members with
  | none => exact .nil
  | some q =>
    have inside : Fills (q.toSql l).sql ((q.toSql l).parameters.map token) _ :=
      SetQuery.filled (plain.members q members)
    have whole := (inside.before start).after (rfl : Plain ")")
    exact .cons whole .nil

theorem countFilled {l : Layout} {r : Restriction} (plain : r.PlainTexts l)
    (statement : (r.countStatement l).PlainTexts) :
    Fills (r.countStatement l).sql ((r.countStatement l).parameters.map token) (r.writtenCount token l).sql :=
  Sql.Select.filled statement (filtersFilled plain) .nil

end Restriction

theorem RowPlan.filled {l : Layout} {p : RowPlan} (plain : p.restriction.PlainTexts l)
    (statement : (p.toSelect l).PlainTexts) :
    Fills (p.toSelect l).sql ((p.toSelect l).parameters.map token) (p.written token l).sql :=
  Sql.Select.filled statement (Restriction.filtersFilled plain) .nil

end ObjectQuery
