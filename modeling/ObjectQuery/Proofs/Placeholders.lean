import ObjectQuery.Proofs.Inlined
import ObjectQuery.Proofs.Ordinary

/-! Placeholders of compiled requests. Names of tables and columns are identifiers, so that only
parameters leave placeholders; filling these gives the statement with the parameters written in place. -/
namespace ObjectQuery
open Outcome

theorem Ordinary.plain {s : String} (ordinary : Ordinary s) : Plain s := plainIff.mpr (ordinary.free rfl)

theorem Sql.Select.OrdinaryFrame.plain {s : Sql.Select} (frame : s.OrdinaryFrame) (select : ∀ x ∈ s.select, Plain x) :
    s.PlainTexts :=
  ⟨select, frame.table.plain, frame.tableAlias.plain, fun j mem => (frame.joins j mem).plain,
    fun x mem => (frame.groupBy x mem).plain, fun i mem => (frame.orderBy i mem).plain⟩

section
variable {ctx : Context} {aliases : List Alias} (names : ctx.OrdinaryNames)
include names

theorem Test.Within.plain {t : Test} (within : t.Within ctx aliases) (numbered : Alias.AllNumbered aliases) :
    t.PlainTexts := by
  have patterns : ∀ c pattern, .pathMatches c pattern ∈ t.atoms → Plain pattern := by
    intro c pattern mem
    rw [within.patterns c pattern mem]
    exact plainAppend.mpr ⟨names.root.plain, rfl⟩
  exact ⟨fun c mem => ((within.columns c mem).ordinary names numbered).plain, patterns⟩

theorem Division.Within.plain {d : Division} (within : d.Within ctx aliases)
    (numbered : Alias.AllNumbered aliases) : d.PlainTexts := by
  obtain ⟨tally, required⟩ := d
  cases tally with
  | values c => exact (Column.Within.ordinary names within numbered).plain
  | «matches» tests => exact fun t mem => (within t mem).plain names numbered

theorem selectionPlain {n m : Nat} {s : Selection} (proper : s.Proper ctx n m) : s.PlainTexts ctx.layout := by
  have numbered : Alias.AllNumbered s.aliases := proper.block ▸ Alias.AllNumbered.block _ _
  obtain ⟨columns, frame⟩ := selectionOrdinary names proper
  have tests : ∀ t ∈ ctx.layout.typeTest s.typeIds s.root :: s.tests, t.PlainTexts := by
    intro t mem
    rcases List.mem_cons.mp mem with rfl | mem
    · exact (Layout.typeTestWithin s.typeIds List.mem_cons_self).plain names numbered
    · exact (proper.tests t mem).plain names numbered
  exact ⟨frame.plain fun x mem => (columns x mem).plain, tests,
    fun d divided => (proper.division d divided).plain names numbered⟩

theorem restrictionPlain {r : Restriction} {i k : Nat} (root : r.root = .numbered i)
    (issued : Scope.Issued ctx (i + 1) k r.members) : r.PlainTexts ctx.layout := by
  have shown := restrictionOrdinary names root
  have numbered := Restriction.rootNumbered root
  have type := (Layout.typeTestWithin r.typeIds List.mem_cons_self).plain names numbered
  have members : ∀ q, r.members = some q → ∀ s ∈ q.statements, s.PlainTexts ctx.layout := by
    intro q same s mem
    obtain ⟨_, _, _, _, proper⟩ := (issued.plan q same).each s mem
    exact selectionPlain names proper
  exact ⟨(shown _ (by simp)).plain, (shown _ (by simp)).plain, type, members⟩

theorem countPlain {r : Restriction} {i : Nat} (root : r.root = .numbered i) (plain : r.PlainTexts ctx.layout) :
    (r.countStatement ctx.layout).PlainTexts := by
  refine (countOrdinary names root).plain fun x mem => ?_
  obtain rfl := List.mem_singleton.mp mem
  exact plainAppend.mpr ⟨plainAppend.mpr ⟨rfl, plain.key⟩, rfl⟩

end

def CompiledQuery.tokens (token : BoundParameter → String) (q : CompiledQuery) : List String :=
  List.zipWith (fun v type => token ⟨v, type⟩) q.parameters q.parameterTypes

structure CompiledQuery.FilledTo (token : BoundParameter → String) (q : CompiledQuery) (text : String) : Prop where
  parameters : q.sql.toList.count '?' = q.parameters.length
  types : q.sql.toList.count '?' = q.parameterTypes.length
  filled : String.ofList (fill q.sql.toList (q.tokens token)) = text

theorem CompiledQuery.ofSelectFilled {token : BoundParameter → String} {s : Sql.Select} {text : String}
    (filled : Fills s.sql (s.parameters.map token) text) : (ofSelect s).FilledTo token text := by
  have tokens : (ofSelect s).tokens token = s.parameters.map token := by
    simp [tokens, ofSelect, List.zipWith_map]
  have count : s.sql.toList.count '?' = s.parameters.length := by simpa using filled.holes
  have whole : String.ofList (fill s.sql.toList ((ofSelect s).tokens token)) = text := by
    rw [tokens, filled.filled, String.ofList_toList]
  exact ⟨by simpa [ofSelect] using count, by simpa [ofSelect] using count, whole⟩

namespace Context

def writtenRows (ctx : Context) (token : BoundParameter → String) (r : Request) : Except CompileError String := do
  let plan ← (ctx.rowPlan r).result
  pure (plan.written token ctx.layout).sql

def writtenCount (ctx : Context) (token : BoundParameter → String) (r : Request) :
    Except CompileError String := do
  let restriction ← (ctx.restrict r).result
  pure (restriction.writtenCount token ctx.layout).sql

theorem placeholdersBound (ctx : Context) (valid : ctx.layout.faults = []) (named : ctx.schema.Identified)
    (token : BoundParameter → String) (r : Request) :
    (∀ q, ctx.compileRows r = .ok q → ∃ text, ctx.writtenRows token r = .ok text ∧ q.FilledTo token text) ∧
    (∀ q, ctx.compileCount r = .ok q → ∃ text, ctx.writtenCount token r = .ok text ∧ q.FilledTo token text) := by
  have names := ordinaryNames valid named
  constructor
  · intro q ok
    obtain ⟨plan, issued, rows, rfl⟩ := compileRowsOk.mp ok
    obtain ⟨k, planned⟩ := rowPlanOk rows
    obtain ⟨root, members⟩ := restrictIssued planned.restricted
    have plain := restrictionPlain names root members
    obtain ⟨select, frame⟩ := rowsOrdinary names planned root
    have written : ctx.writtenRows token r = .ok (plan.written token ctx.layout).sql :=
      exceptBindOk.mpr ⟨plan, resultOk.mpr ⟨issued, rows⟩, rfl⟩
    exact ⟨(plan.written token ctx.layout).sql, written,
      CompiledQuery.ofSelectFilled (RowPlan.filled plain (frame.plain fun x mem => (select x mem).plain))⟩
  · intro q ok
    obtain ⟨restriction, issued, restricted, rfl⟩ := compileCountOk.mp ok
    obtain ⟨root, members⟩ := restrictIssued restricted
    have plain := restrictionPlain names root members
    have written : ctx.writtenCount token r = .ok (restriction.writtenCount token ctx.layout).sql :=
      exceptBindOk.mpr ⟨restriction, resultOk.mpr ⟨issued, restricted⟩, rfl⟩
    exact ⟨(restriction.writtenCount token ctx.layout).sql, written,
      CompiledQuery.ofSelectFilled (Restriction.countFilled plain (countPlain names root plain))⟩

end Context

namespace PlaceholderSample
open RequestSample

def quoted (p : BoundParameter) : String :=
  match p.value with
  | .text s => "'" ++ s ++ "'"
  | _ => "NULL"

theorem peopleIdentified : people.schema.Identified := by
  refine Schema.withAttributeIdentified (Schema.withAttributeIdentified (Schema.withAttributeIdentified
    (Schema.withAttributeIdentified ?_ ?_) ?_) ?_) ?_
  · intro name t found
    cases found
  all_goals exact ⟨rfl, rfl, rfl⟩

theorem requestPlaceholdersBound :
    people.layout.faults = [] ∧ people.schema.Identified ∧
    (∃ q text, people.compileRows request = .ok q ∧ people.writtenRows quoted request = .ok text ∧
      q.FilledTo quoted text ∧ q.tokens quoted = ["'Bob'", "'Rome'", "'Rome'"]) ∧
    ∃ q text, people.compileCount request = .ok q ∧ people.writtenCount quoted request = .ok text ∧
      q.FilledTo quoted text := by
  have valid : people.layout.faults = [] := by decide
  obtain ⟨rows, count⟩ := Context.placeholdersBound people valid peopleIdentified quoted request
  obtain ⟨text, written, filled⟩ := rows _ rfl
  obtain ⟨counted, writtenCount, filledCount⟩ := count _ rfl
  exact ⟨valid, peopleIdentified, ⟨_, text, rfl, written, filled, rfl⟩, _, counted, rfl, writtenCount, filledCount⟩

end PlaceholderSample
end ObjectQuery
