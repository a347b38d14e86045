import ObjectQuery.Proofs.WellFormed
import ObjectQuery.Proofs.Written

/-! Texts of compiled requests are trusted: nothing that a request brings along stands in them, but the
numbers of its page and the type ids of its type. -/
namespace ObjectQuery
open Outcome

variable {label : String} {ids : List Int32}

namespace Trusted

theorem kept : KeptByAppend (Trusted label ids) := ⟨.ordinary rfl, .append⟩

theorem before {s t : String} (ordinary : Ordinary s) (next : Trusted label ids t) : Trusted label ids (s ++ t) :=
  (Trusted.ordinary ordinary).append next

theorem after {s t : String} (first : Trusted label ids s) (ordinary : Ordinary t) : Trusted label ids (s ++ t) :=
  first.append (.ordinary ordinary)

end Trusted

namespace Sql.Select

variable {s : Select}

theorem trusted (frame : s.OrdinaryFrame) (select : ∀ x ∈ s.select, Trusted label ids x)
    (filters : ∀ c ∈ s.filters, Trusted label ids c.sql)
    (having : ∀ c, s.having = some c → Trusted label ids c.sql) : Trusted label ids s.sql := by
  have distinct : Ordinary (if s.distinct then "DISTINCT " else "") := by cases s.distinct <;> rfl
  have shown : Trusted label ids (", ".intercalate s.select) := Trusted.kept.intercalate (.ordinary rfl) select
  have joins : Trusted label ids (String.join (s.joins.map fun j => " " ++ j.sql)) :=
    Trusted.kept.join (List.forall_mem_map.mpr fun j mem => .before rfl (.ordinary (frame.joins j mem)))
  have restricted : Trusted label ids (clause " WHERE " " AND " (s.filters.map (·.sql))) :=
    Trusted.kept.clause (.ordinary rfl) (.ordinary rfl) (List.forall_mem_map.mpr filters)
  have group : Trusted label ids (clause " GROUP BY " ", " s.groupBy) :=
    Trusted.kept.clause (.ordinary rfl) (.ordinary rfl) fun x mem => .ordinary (frame.groupBy x mem)
  have divided : Trusted label ids (option " HAVING " (s.having.map (·.sql))) := by
    refine Trusted.kept.option (.ordinary rfl) fun x same => ?_
    obtain ⟨c, here, rfl⟩ := Option.map_eq_some_iff.mp same
    exact having c here
  have order : Trusted label ids (clause " ORDER BY " ", " (s.orderBy.map (·.sql))) :=
    Trusted.kept.clause (.ordinary rfl) (.ordinary rfl)
      (List.forall_mem_map.mpr fun i mem => .ordinary (frame.orderBy i mem))
  have digits : ∀ n : Nat, Trusted label ids (toString n) := fun n => .ordinary (ordinaryNat n)
  have limit : Trusted label ids (option " LIMIT " (s.limit.map (toString ·.toNat))) :=
    Trusted.kept.number (.ordinary (rfl : Ordinary " LIMIT ")) digits s.limit
  have offset : Trusted label ids (option " OFFSET " (s.offset.map (toString ·.toNat))) :=
    Trusted.kept.number (.ordinary (rfl : Ordinary " OFFSET ")) digits s.offset
  have start : Trusted label ids "SELECT " := .ordinary rfl
  have head := ((start.after distinct).append shown).after (rfl : Ordinary " FROM ")
  have source := (((head.after frame.table).after (rfl : Ordinary " ")).after frame.tableAlias).append joins
  unfold Select.sql
  exact (((((source.append restricted).append group).append divided).append order).append limit).append offset

theorem sqlSome (s : Select) : s.sql ≠ "" := by
  intro empty
  unfold Select.sql at empty
  simp [String.append_eq_empty_iff] at empty

end Sql.Select

theorem SetQuery.sqlSome (q : SetQuery Sql.Select) : q.sql ≠ "" := by
  cases q with
  | select s => exact s.sqlSome
  | compound o l r =>
    intro empty
    simp [sql, String.append_eq_empty_iff] at empty

theorem SetQuery.trusted {q : SetQuery Sql.Select} (each : ∀ s ∈ q.statements, Trusted label ids s.sql) :
    Trusted label ids q.sql := by
  induction q with
  | select s => exact each s (List.mem_singleton_self s)
  | compound o l r left right =>
    have left := left fun s mem => each s (List.mem_append_left _ mem)
    have right := right fun s mem => each s (List.mem_append_right _ mem)
    have keyword : Ordinary o.keyword := by cases o <;> rfl
    have first : Trusted label ids ("(" ++ l.sql ++ ")") := .group left l.sqlSome
    have middle := ((first.after (rfl : Ordinary " ")).after keyword).after (rfl : Ordinary " ")
    rw [compoundParts]
    exact middle.append (.group right r.sqlSome)

section
variable {ctx : Context} (names : ctx.OrdinaryNames)
include names

theorem selectionTrusted {n m : Nat} {s : Selection} (proper : s.Proper ctx n m) (grouped : s.Grouped ids) :
    Trusted ctx.layout.collectionRoot ids (s.toSelect ctx.layout).sql := by
  have numbered : Alias.AllNumbered s.aliases := proper.block ▸ Alias.AllNumbered.block _ _
  have ordinary (c : Column) (within : c.Within ctx s.aliases) : Ordinary c.text := within.ordinary names numbered
  obtain ⟨columns, frame⟩ := selectionOrdinary names proper
  obtain ⟨filters, having⟩ := proper.written grouped
  exact Sql.Select.trusted frame (fun x mem => .ordinary (columns x mem)) (fun c mem => (filters c mem).trusted ordinary)
    fun c same => (having c same).trusted ordinary

theorem planTrusted {n m : Nat} {q : SetPlan} (proper : q.Proper ctx n m)
    (grouped : SetPlan.Holds (Selection.Grouped ids) q) :
    ∀ s ∈ (q.toSql ctx.layout).statements, Trusted ctx.layout.collectionRoot ids s.sql := by
  rw [SetQuery.toSql, SetQuery.statementsMap]
  refine List.forall_mem_map.mpr fun s mem => ?_
  obtain ⟨_, _, _, _, proper⟩ := proper.each s mem
  exact selectionTrusted names proper (grouped s mem)

theorem filtersTrusted {r : Restriction} {i k : Nat} (root : r.root = .numbered i)
    (issued : Scope.Issued ctx (i + 1) k r.members)
    (grouped : SetPlan.HoldsAny (Selection.Grouped r.typeIds) r.members) :
    ∀ c ∈ r.filters ctx.layout, Trusted ctx.layout.collectionRoot r.typeIds c.sql := by
  have numbered := Restriction.rootNumbered root
  have ordinary (c : Column) (within : c.Within ctx [r.root]) : Ordinary c.text := within.ordinary names numbered
  have type : Trusted ctx.layout.collectionRoot r.typeIds (ctx.layout.typeTest r.typeIds r.root).toCondition.sql :=
    (typeTestOwn List.mem_cons_self).trusted ordinary
  refine List.forall_mem_cons.mpr ⟨type, ?_⟩
  cases members : r.members with
  | none => exact List.forall_mem_nil _
  | some q =>
    have each := planTrusted names (issued.plan q members) (grouped q members)
    refine List.forall_mem_singleton.mpr ?_
    rw [Restriction.membershipText]
    exact ((membershipWritten List.mem_cons_self).trusted ordinary).append
      (.group (SetQuery.trusted each) (SetQuery.sqlSome _))

end

namespace Catalog

theorem Named.identified {t : AttributeTable} (named : Named t) : t.Identified :=
  ⟨isIdentifierIff.mpr named.table, isIdentifierIff.mpr named.parentColumn, isIdentifierIff.mpr named.childColumn⟩

theorem toSchemaIdentified {c : Catalog} {schema : Schema} (ok : c.toSchema = .ok schema) : schema.Identified := by
  obtain ⟨_, checked, ok⟩ := exceptBindOk.mp ok
  obtain rfl := exceptPureOk.mp ok
  have fine := c.checkChecks.passes.mp checked
  intro name t found
  obtain ⟨a, first, rfl⟩ := Option.map_eq_some_iff.mp found
  exact (fine.tables a (List.mem_of_find?_eq_some first)).identified

end Catalog

namespace Context

/-- Of all that a request brings along, only the ids of its type show in the text, as numbers. -/
theorem textUntainted (ctx : Context) (catalog : Catalog) (valid : ctx.layout.faults = [])
    (accepted : catalog.toSchema = .ok ctx.schema) (r : Request) :
    (∀ q, ctx.compileRows r = .ok q → ∃ ids, ctx.schema.typeIds r.resultType = some ids ∧
      Untainted ctx.layout.collectionRoot ids q.sql) ∧
    (∀ q, ctx.compileCount r = .ok q → ∃ ids, ctx.schema.typeIds r.resultType = some ids ∧
      Untainted ctx.layout.collectionRoot ids q.sql) := by
  have names := ordinaryNames valid (Catalog.toSchemaIdentified accepted)
  constructor
  · intro q ok
    obtain ⟨plan, issued, rows, rfl⟩ := compileRowsOk.mp ok
    obtain ⟨k, planned⟩ := rowPlanOk rows
    obtain ⟨root, members⟩ := restrictIssued planned.restricted
    obtain ⟨known, grouped⟩ := restrictGrouped planned.restricted
    obtain ⟨select, frame⟩ := rowsOrdinary names planned root
    have text : Trusted ctx.layout.collectionRoot plan.restriction.typeIds (plan.toSelect ctx.layout).sql :=
      Sql.Select.trusted frame (fun x mem => .ordinary (select x mem)) (filtersTrusted names root members grouped) nofun
    exact ⟨_, known, text.untainted names.root⟩
  · intro q ok
    obtain ⟨restriction, issued, restricted, rfl⟩ := compileCountOk.mp ok
    obtain ⟨root, members⟩ := restrictIssued restricted
    obtain ⟨known, grouped⟩ := restrictGrouped restricted
    have numbered := Restriction.rootNumbered root
    have counted : ∀ x ∈ (restriction.countStatement ctx.layout).select,
        Trusted ctx.layout.collectionRoot restriction.typeIds x :=
      List.forall_mem_singleton.mpr ((countedKeyWritten List.mem_cons_self).trusted fun c within =>
        within.ordinary names numbered)
    have text : Trusted ctx.layout.collectionRoot restriction.typeIds
        (restriction.countStatement ctx.layout).sql :=
      Sql.Select.trusted (countOrdinary names root) counted (filtersTrusted names root members grouped) nofun
    exact ⟨_, known, text.untainted names.root⟩

end Context

namespace UntaintedSample

def catalog : Catalog where
  types := [⟨"Person", some (-5), []⟩, ⟨"Employee", some 7, ["Person"]⟩]
  attributes := [⟨⟨"Person", "name"⟩, .of "person_name" 0⟩, ⟨⟨"Person", "nicknames"⟩, .of "person_nicknames" 1⟩]
  enums := .empty

def people : Context where
  schema := ⟨catalog.tableOf, catalog.typeIds, catalog.enumKey, Value.sqlType⟩
  layout := .default

def hostile : Operand := .literal (.text "'); DROP TABLE entities; --")

def request : Request where
  resultType := "Person"
  predicate := some (.not (.any [.leaf (.compare (.of ⟨"Person", "name"⟩) .eq hostile),
    .leaf (.contains (.of ⟨"Person", "nicknames"⟩) hostile)]))
  orderBy := []
  first := none
  max := some 10

theorem personIds : people.schema.typeIds request.resultType = some [-5, 7] := by
  have known : "Person" ∈ catalog.declared := by decide
  have person : catalog.ancestors "Person" = ["Person"] := by cbv
  have employee : catalog.ancestors "Employee" = ["Employee", "Person"] := by cbv
  have below : catalog.types.filterMap (catalog.idBelow "Person") = [-5, 7] := by
    change [⟨"Person", some (-5), []⟩, ⟨"Employee", some 7, ["Person"]⟩].filterMap (catalog.idBelow "Person") = _
    simp [Catalog.idBelow, person, employee]
  change catalog.typeIds "Person" = some [-5, 7]
  rw [Catalog.typeIds, below, if_pos known, List.mergeSort_of_pairwise (by decide)]
  rfl

theorem requestRestricted : ∃ restriction m, people.restrict request 0 = .ok restriction m := by
  unfold Context.restrict
  rw [personIds]
  exact ⟨_, _, rfl⟩

theorem requestUntainted :
    people.layout.faults = [] ∧ catalog.toSchema = .ok people.schema ∧
    (∃ q, people.compileRows request = .ok q ∧ Untainted "top" [-5, 7] q.sql) ∧
    ∃ q, people.compileCount request = .ok q ∧ Untainted "top" [-5, 7] q.sql := by
  have valid : people.layout.faults = [] := by decide
  have accepted : catalog.toSchema = .ok people.schema := rfl
  obtain ⟨rows, count⟩ := Context.textUntainted people catalog valid accepted request
  obtain ⟨restriction, m, restricted⟩ := requestRestricted
  have planned : people.rowPlan request 0 = .ok _ _ := bindOk.mpr ⟨_, _, restricted, rfl⟩
  have compiled := Context.compileRowsOk.mpr ⟨_, _, planned, rfl⟩
  have counted := Context.compileCountOk.mpr ⟨_, _, restricted, rfl⟩
  obtain ⟨ids, known, untainted⟩ := rows _ compiled
  obtain ⟨ids', known', untaintedCount⟩ := count _ counted
  cases known.symm.trans personIds
  cases known'.symm.trans personIds
  exact ⟨valid, accepted, ⟨_, compiled, untainted⟩, _, counted, untaintedCount⟩

end UntaintedSample
end ObjectQuery
