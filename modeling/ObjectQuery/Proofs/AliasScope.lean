import ObjectQuery.Proofs.Written

/-! Compiled requests: no two tables of a statement and of the queries nested in it share an alias, and every
statement reads columns of its own tables only. -/
namespace ObjectQuery
open Outcome SqlText

/-- Text whose only names are columns of these aliases, apart from these nested queries. No name touches the text
next to it. -/
inductive ReadsOnly (ctx : Context) (aliases nested : List String) : String → Prop where
  | keyword {s} (known : s ∈ keywords) : ReadsOnly ctx aliases nested s
  | number (i : Int) : ReadsOnly ctx aliases nested (toString i)
  | placeholder : ReadsOnly ctx aliases nested "?"
  | column {a name} (declared : a ∈ aliases) (known : ctx.IsColumn name) :
      ReadsOnly ctx aliases nested (Sql.column a name)
  | pattern : ReadsOnly ctx aliases nested (quotedPattern ctx.layout.collectionRoot)
  | nested {query} (mem : query ∈ nested) : ReadsOnly ctx aliases nested ("(" ++ query ++ ")")
  | group {s} (inside : ReadsOnly ctx aliases nested s) : ReadsOnly ctx aliases nested ("(" ++ s ++ ")")
  | append {s t} (first : ReadsOnly ctx aliases nested s) (next : ReadsOnly ctx aliases nested t)
      (apart : endsApart s = true ∨ startsApart t = true) : ReadsOnly ctx aliases nested (s ++ t)

namespace Sql.Select

def aliases (s : Select) : List String := s.tableAlias :: s.joins.map (·.tableAlias)

structure InScope (ctx : Context) (nested : List String) (s : Select) : Prop where
  joins : ∀ before j after, s.joins = before ++ j :: after → ∀ equation ∈ j.on, ∃ own a other,
    ctx.IsColumn own ∧ ctx.IsColumn other ∧ a ∈ s.tableAlias :: before.map (·.tableAlias) ∧
      equation = Sql.column j.tableAlias own ++ " = " ++ Sql.column a other
  select : ∀ x ∈ s.select, ReadsOnly ctx s.aliases [] x
  filters : ∀ c ∈ s.filters, ReadsOnly ctx s.aliases nested c.sql
  groupBy : ∀ x ∈ s.groupBy, ReadsOnly ctx s.aliases [] x
  having : ∀ c, s.having = some c → ReadsOnly ctx s.aliases [] c.sql
  orderBy : ∀ i ∈ s.orderBy, ReadsOnly ctx s.aliases [] i.expression

end Sql.Select

structure AliasesUnique (ctx : Context) (issued : Nat) (outer : Sql.Select) (members : Option (SetQuery Sql.Select)) :
    Prop where
  nested : ∀ q, members = some q → ∃ c ∈ outer.filters, ∃ before, c.sql = before ++ ("(" ++ q.sql ++ ")")
  numbered : ∀ s ∈ outer :: members.elim [] SetQuery.statements, ∀ a ∈ s.aliases, ∃ i < issued, a = "t" ++ toString i
  distinct : ((outer :: members.elim [] SetQuery.statements).flatMap Sql.Select.aliases).Nodup
  block : ∀ s ∈ members.elim [] SetQuery.statements, ∃ first,
    s.aliases = (Alias.block first s.aliases.length).map Alias.text
  order : ∃ first, outer.joins.map (·.tableAlias) = (Alias.block first outer.joins.length).map Alias.text ∧
    ∀ s ∈ members.elim [] SetQuery.statements, ∀ i, "t" ++ toString i ∈ s.aliases → i < first
  outerInScope : outer.InScope ctx (members.map (·.sql)).toList
  nestedInScope : ∀ s ∈ members.elim [] SetQuery.statements, s.InScope ctx []

theorem Alias.textInj {i j : Nat} (same : (Alias.numbered i).text = (Alias.numbered j).text) : i = j := by
  have digits : Nat.toDigits 10 i = Nat.toDigits 10 j := by
    simpa [Alias.text, Nat.toString_eq_ofList_toDigits] using congrArg String.toList same
  rw [← @Nat.ofDigitChars_ten_toDigits i, digits, Nat.ofDigitChars_ten_toDigits]

theorem Alias.textsNodup {aliases : List Alias} (distinct : aliases.Nodup) (numbered : Alias.AllNumbered aliases) :
    (aliases.map Alias.text).Nodup := by
  have differ : ∀ {a b}, a ∈ aliases → b ∈ aliases → a ≠ b → a.text ≠ b.text := by
    intro a b inA inB other same
    obtain ⟨i, rfl⟩ := numbered a inA
    obtain ⟨j, rfl⟩ := numbered b inB
    exact other (congrArg Alias.numbered (Alias.textInj same))
  exact List.pairwise_map.mpr (distinct.imp_of_mem differ)

section
variable {ctx : Context} {aliases : List Alias} {ids : List Int32} {nested : List String}

theorem Column.Within.readsOnly {c : Column} (within : c.Within ctx aliases) :
    ReadsOnly ctx (aliases.map Alias.text) nested c.text :=
  .column (List.mem_map_of_mem within.table) within.name

theorem typesReadOnly {tables : List String} (ids : List Int32) : ReadsOnly ctx tables nested (typeList ids) := by
  unfold typeList
  induction ids with
  | nil => exact .keyword (by decide : "" ∈ keywords)
  | cons i rest ih =>
    cases rest with
    | nil => simpa using ReadsOnly.number i.toInt
    | cons j rest =>
      have comma : ", " ∈ keywords := by decide
      rw [List.map_cons, List.map_cons, String.intercalate_cons_cons, String.append_assoc]
      exact .append (.number i.toInt) (.append (.keyword comma) ih (.inl rfl)) (.inr (startsApartAppend _ (by decide)))

theorem Written.readsOnly {s : String}
    (written : Written (·.Within ctx aliases) ctx.layout.collectionRoot ids s) :
    ReadsOnly ctx (aliases.map Alias.text) nested s := by
  induction written with
  | keyword known => exact .keyword known
  | number n => exact .number n
  | column read => exact read.readsOnly
  | placeholder => exact .placeholder
  | pattern => exact .pattern
  | types some => exact .group (typesReadOnly _)
  | group inside some ih => exact .group ih
  | append first next apart ihFirst ihNext => exact .append ihFirst ihNext apart

theorem equationsInScope {root : Alias} {joins : List Join} (within : JoinsWithin ctx [root] joins)
    (before : List Sql.Join) (j : Sql.Join) (after : List Sql.Join)
    (split : joins.map Join.toSql = before ++ j :: after) : ∀ equation ∈ j.on, ∃ own a other,
      ctx.IsColumn own ∧ ctx.IsColumn other ∧ a ∈ root.text :: before.map (·.tableAlias) ∧
        equation = Sql.column j.tableAlias own ++ " = " ++ Sql.column a other := by
  obtain ⟨first, rest, rfl, rfl, tail⟩ := List.map_eq_append_iff.mp split
  obtain ⟨join, later, rfl, rfl, _⟩ := List.map_eq_cons_iff.mp tail
  have here := joinWithinAt within
  intro equation mem
  obtain ⟨e, inside, rfl⟩ := List.mem_map.mp mem
  obtain ⟨table, own⟩ := here.left e inside
  obtain ⟨declared, other⟩ := here.right e inside
  refine ⟨e.left.name, e.right.table.text, e.right.name, own, other, ?_, ?_⟩
  · have mem := List.mem_map_of_mem (f := Alias.text) declared
    rw [List.map_append, List.map_map] at mem
    rw [List.map_map]
    exact mem
  · rw [Equation.text, Column.text, table]
    rfl

theorem Selection.aliasTexts (l : Layout) (s : Selection) : (s.toSelect l).aliases = s.aliases.map Alias.text := by
  simp [Sql.Select.aliases, Selection.aliases, Selection.toSelect, Join.toSql]

theorem shownReadsOnly {a : Alias} (mem : a ∈ aliases) :
    ∀ x ∈ [(ctx.layout.keyOf a).text, (ctx.layout.identityOf a).text],
      ReadsOnly ctx (aliases.map Alias.text) nested x :=
  List.forall_mem_cons.mpr ⟨(Layout.keyWithin mem).readsOnly,
    List.forall_mem_singleton.mpr (Layout.identityWithin mem).readsOnly⟩

theorem Selection.Proper.inScope {n m : Nat} {s : Selection} (proper : s.Proper ctx n m) (grouped : s.Grouped ids) :
    (s.toSelect ctx.layout).InScope ctx [] := by
  obtain ⟨filters, having⟩ := proper.written grouped
  have columns : ∀ x ∈ s.columns ctx.layout, ReadsOnly ctx (s.aliases.map Alias.text) [] x :=
    shownReadsOnly List.mem_cons_self
  have group : ∀ x ∈ (s.toSelect ctx.layout).groupBy, ReadsOnly ctx (s.aliases.map Alias.text) [] x := by
    intro x mem
    change x ∈ (if s.division.isSome then s.columns ctx.layout else []) at mem
    split at mem
    · exact columns x mem
    · cases mem
  rw [← s.aliasTexts ctx.layout] at columns group
  exact ⟨equationsInScope proper.joins, columns, fun c mem => s.aliasTexts ctx.layout ▸ (filters c mem).readsOnly, group,
    fun c same => s.aliasTexts ctx.layout ▸ (having c same).readsOnly, List.forall_mem_nil _⟩

theorem Restriction.filtersReadOnly {r : Restriction} (mem : r.root ∈ aliases) : ∀ c ∈ r.filters ctx.layout,
    ReadsOnly ctx (aliases.map Alias.text) ((r.members.map (·.toSql ctx.layout)).map (·.sql)).toList c.sql := by
  have type : Written (·.Within ctx aliases) ctx.layout.collectionRoot r.typeIds
      (ctx.layout.typeTest r.typeIds r.root).toCondition.sql := typeTestOwn mem
  refine List.forall_mem_cons.mpr ⟨type.readsOnly, ?_⟩
  cases r.members with
  | none => exact List.forall_mem_nil _
  | some q =>
    have pair : Written (·.Within ctx aliases) ctx.layout.collectionRoot r.typeIds
      ("(" ++ ((ctx.layout.keyOf r.root).text ++ ", " ++ (ctx.layout.identityOf r.root).text) ++ ")" ++ " IN ") :=
      membershipWritten mem
    refine List.forall_mem_singleton.mpr ?_
    rw [Restriction.membershipText]
    refine pair.readsOnly.append (.nested (List.mem_singleton_self _)) (.inr ?_)
    rw [String.append_assoc]
    exact startsApartAppend _ (by decide)

theorem Restriction.filtersNest {r : Restriction} (l : Layout) (q : SetQuery Sql.Select)
    (members : r.members.map (·.toSql l) = some q) :
    ∃ c ∈ r.filters l, ∃ before, c.sql = before ++ ("(" ++ q.sql ++ ")") := by
  obtain ⟨plan, some, rfl⟩ := Option.map_eq_some_iff.mp members
  refine ⟨membership l r.root (plan.toSql l), ?_, _, Restriction.membershipText l r.root (plan.toSql l)⟩
  simp [filters, some]

theorem Restriction.nestedStatements (l : Layout) (r : Restriction) :
    (r.members.map (·.toSql l)).elim [] SetQuery.statements =
      (r.members.elim [] SetQuery.statements).map (·.toSelect l) := by
  cases r.members with
  | none => rfl
  | some q => exact SetQuery.statementsMap _ q

theorem RowPlan.aliasTexts (l : Layout) (p : RowPlan) :
    (p.toSelect l).aliases = (p.restriction.root :: p.joins.map (·.tableAlias)).map Alias.text := by
  simp [Sql.Select.aliases, RowPlan.toSelect, Sql.Select.sorted, Restriction.statement, Sql.Select.of, Join.toSql]

theorem RowPlan.inScope {p : RowPlan} (within : JoinsWithin ctx [p.restriction.root] p.joins)
    (sorted : ∀ c ∈ p.sortColumns, c.column.Within ctx (p.restriction.root :: p.joins.map (·.tableAlias))) :
    (p.toSelect ctx.layout).InScope ctx ((p.restriction.members.map (·.toSql ctx.layout)).map (·.sql)).toList := by
  have root : p.restriction.root ∈ p.restriction.root :: p.joins.map (·.tableAlias) := List.mem_cons_self
  have select : ∀ x ∈ (p.toSelect ctx.layout).select, ReadsOnly ctx (p.toSelect ctx.layout).aliases [] x := by
    rw [p.aliasTexts]
    intro x mem
    rcases showingMem mem with mem | mem
    · exact shownReadsOnly root x mem
    · obtain ⟨c, inside, rfl⟩ := List.mem_map.mp mem
      exact (sorted c inside).readsOnly
  have order : ∀ i ∈ (p.toSelect ctx.layout).orderBy,
      ReadsOnly ctx (p.toSelect ctx.layout).aliases [] i.expression := by
    rw [p.aliasTexts]
    exact List.forall_mem_map.mpr fun c mem => (sorted c mem).readsOnly
  exact ⟨equationsInScope within, select, p.aliasTexts ctx.layout ▸ p.restriction.filtersReadOnly root,
    List.forall_mem_nil _, nofun, order⟩

theorem Restriction.countInScope (r : Restriction) : (r.countStatement ctx.layout).InScope ctx
    ((r.members.map (·.toSql ctx.layout)).map (·.sql)).toList := by
  have counted : Written (·.Within ctx [r.root]) ctx.layout.collectionRoot r.typeIds
      ("COUNT(DISTINCT " ++ (ctx.layout.keyOf r.root).text ++ ")") := countedKeyWritten List.mem_cons_self
  have filters : ∀ c ∈ r.filters ctx.layout, ReadsOnly ctx [r.root.text]
      ((r.members.map (·.toSql ctx.layout)).map (·.sql)).toList c.sql := @filtersReadOnly ctx [r.root] r (.head _)
  exact ⟨@equationsInScope ctx r.root [] trivial, List.forall_mem_singleton.mpr counted.readsOnly, filters,
    List.forall_mem_nil _, nofun, List.forall_mem_nil _⟩

end

namespace Context

variable {ctx : Context} {restriction : Restriction} {joins : List Join} {k m : Nat}

theorem outerNumbered (root : restriction.root = .numbered 0)
    (ordered : joins.map (·.tableAlias) = Alias.block k joins.length) (positive : 0 < k) {a : Alias}
    (mem : a ∈ restriction.root :: joins.map (·.tableAlias)) :
    ∃ i, (i = 0 ∨ k ≤ i) ∧ i < k + joins.length ∧ .numbered i = a := by
  rcases List.mem_cons.mp mem with rfl | mem
  · exact ⟨0, .inl rfl, by omega, root.symm⟩
  · rw [ordered] at mem
    obtain ⟨i, above, below, same⟩ := Alias.blockMem.mp mem
    exact ⟨i, .inr above, below, same⟩

theorem outerDistinct (root : restriction.root = .numbered 0)
    (ordered : joins.map (·.tableAlias) = Alias.block k joins.length) (positive : 0 < k) :
    (restriction.root :: joins.map (·.tableAlias)).Nodup := by
  have apart : restriction.root ∉ Alias.block k joins.length := by
    intro mem
    obtain ⟨i, above, _, same⟩ := Alias.blockMem.mp mem
    cases same.trans root
    omega
  rw [ordered]
  exact List.nodup_cons.mpr ⟨apart, Alias.blockNodup _ _⟩

theorem outerApart (root : restriction.root = .numbered 0)
    (ordered : joins.map (·.tableAlias) = Alias.block k joins.length)
    (members : Scope.Issued ctx 1 k restriction.members) :
    ∀ a ∈ restriction.root :: joins.map (·.tableAlias),
      ∀ b ∈ (restriction.members.elim [] SetQuery.statements).flatMap Selection.aliases, a ≠ b := by
  intro a inOuter b inNested same
  obtain ⟨i, place, _, rfl⟩ := outerNumbered root ordered members.le inOuter
  obtain ⟨j, above, below, rfl⟩ := nestedBetween members inNested
  cases same
  omega

theorem textsDistinct (root : restriction.root = .numbered 0)
    (ordered : joins.map (·.tableAlias) = Alias.block k joins.length)
    (members : Scope.Issued ctx 1 k restriction.members) :
    (((restriction.root :: joins.map (·.tableAlias)) ++
      (restriction.members.elim [] SetQuery.statements).flatMap Selection.aliases).map Alias.text).Nodup := by
  have unique := List.nodup_append.mpr
    ⟨outerDistinct root ordered members.le, (nestedProper members).2, outerApart root ordered members⟩
  refine Alias.textsNodup unique fun a mem => ?_
  rcases List.mem_append.mp mem with mem | mem
  · obtain ⟨i, _, _, same⟩ := outerNumbered root ordered members.le mem
    exact ⟨i, same⟩
  · obtain ⟨i, _, _, same⟩ := nestedBetween members mem
    exact ⟨i, same⟩

theorem aliasesUnique {outer : Sql.Select} (root : restriction.root = .numbered 0)
    (members : Scope.Issued ctx 1 k restriction.members)
    (grouped : SetPlan.HoldsAny (Selection.Grouped restriction.typeIds) restriction.members)
    (ordered : joins.map (·.tableAlias) = Alias.block k joins.length)
    (own : outer.aliases = (restriction.root :: joins.map (·.tableAlias)).map Alias.text)
    (filters : outer.filters = restriction.filters ctx.layout)
    (scope : outer.InScope ctx ((restriction.members.map (·.toSql ctx.layout)).map (·.sql)).toList) :
    AliasesUnique ctx (k + joins.length) outer (restriction.members.map (·.toSql ctx.layout)) := by
  have nested := restriction.nestedStatements ctx.layout
  have proper := (nestedProper members).1
  have joined : outer.joins.map (·.tableAlias) = (joins.map (·.tableAlias)).map Alias.text := (List.cons.inj own).2
  have length : outer.joins.length = joins.length := by simpa using congrArg List.length joined
  have below : ∀ s ∈ restriction.members.elim [] SetQuery.statements, ∀ a ∈ s.aliases, ∃ i < k, .numbered i = a := by
    intro s mem a inside
    obtain ⟨i, _, below, same⟩ := nestedBetween members (List.mem_flatMap.mpr ⟨s, mem, inside⟩)
    exact ⟨i, below, same⟩
  have outerNumbers : ∀ a ∈ outer.aliases, ∃ i < k + joins.length, a = "t" ++ toString i := by
    rw [own]
    refine List.forall_mem_map.mpr fun a mem => ?_
    obtain ⟨i, _, below, rfl⟩ := outerNumbered root ordered members.le mem
    exact ⟨i, below, rfl⟩
  constructor
  case nested => exact filters ▸ restriction.filtersNest ctx.layout
  case numbered =>
    rw [nested]
    refine List.forall_mem_cons.mpr ⟨outerNumbers, List.forall_mem_map.mpr fun s mem => ?_⟩
    rw [s.aliasTexts]
    refine List.forall_mem_map.mpr fun a inside => ?_
    obtain ⟨i, below, rfl⟩ := below s mem a inside
    exact ⟨i, by omega, rfl⟩
  case distinct =>
    have texts := textsDistinct root ordered members
    rw [List.map_append, ← own, List.map_flatMap] at texts
    rw [nested, List.flatMap_cons, List.flatMap_map]
    simpa only [Selection.aliasTexts] using texts
  case block =>
    rw [nested]
    refine List.forall_mem_map.mpr fun s mem => ?_
    obtain ⟨first, _, _, _, own⟩ := proper s mem
    refine ⟨first, ?_⟩
    rw [s.aliasTexts, List.length_map, ← own.block]
  case order =>
    refine ⟨k, by rw [joined, ordered, length], ?_⟩
    rw [nested]
    refine List.forall_mem_map.mpr fun s mem i inside => ?_
    rw [s.aliasTexts] at inside
    obtain ⟨a, inside, same⟩ := List.mem_map.mp inside
    obtain ⟨j, below, rfl⟩ := below s mem a inside
    exact Alias.textInj same ▸ below
  case outerInScope => exact scope
  case nestedInScope =>
    rw [nested]
    refine List.forall_mem_map.mpr fun s mem => ?_
    obtain ⟨_, _, _, _, own⟩ := proper s mem
    exact own.inScope (grouped.each s mem)

theorem compiledAliasesUnique (ctx : Context) (r : Request) :
    (∀ q, ctx.compileRows r = .ok q → ∃ plan issued,
      ctx.rowPlan r 0 = .ok plan issued ∧ q = .ofSelect (plan.toSelect ctx.layout) ∧
      AliasesUnique ctx issued (plan.toSelect ctx.layout) (plan.restriction.members.map (·.toSql ctx.layout))) ∧
    (∀ q, ctx.compileCount r = .ok q → ∃ restriction issued,
      ctx.restrict r 0 = .ok restriction issued ∧ q = .ofSelect (restriction.countStatement ctx.layout) ∧
      AliasesUnique ctx issued (restriction.countStatement ctx.layout)
        (restriction.members.map (·.toSql ctx.layout))) := by
  constructor
  · intro q ok
    obtain ⟨plan, issued, planned, rfl⟩ := compileRowsOk.mp ok
    obtain ⟨k, restricted, joins, columns⟩ := rowPlanOk planned
    obtain ⟨root, members⟩ := restrictIssued restricted
    obtain ⟨rfl, ordered, within⟩ := joins.fresh
    exact ⟨plan, _, planned, rfl, aliasesUnique root members (restrictGrouped restricted).2 ordered
      (plan.aliasTexts ctx.layout) rfl (RowPlan.inScope within columns)⟩
  · intro q ok
    obtain ⟨restriction, issued, restricted, rfl⟩ := compileCountOk.mp ok
    obtain ⟨root, members⟩ := restrictIssued restricted
    exact ⟨restriction, issued, restricted, rfl,
      @aliasesUnique ctx restriction [] issued _ root members (restrictGrouped restricted).2 rfl rfl rfl
        restriction.countInScope⟩

end Context

namespace AliasScopeSample

open RequestSample

theorem requestAliasesUnique :
    (∃ q plan issued members, people.compileRows request = .ok q ∧ people.rowPlan request 0 = .ok plan issued ∧
      issued = 10 ∧ (plan.toSelect people.layout).aliases = ["t0", "t9"] ∧
      plan.restriction.members.map (·.toSql people.layout) = some members ∧
      members.statements.map (·.aliases) = [["t4"], ["t1", "t2", "t3"], ["t8"], ["t5", "t6", "t7"]] ∧
      AliasesUnique people issued (plan.toSelect people.layout) (some members)) ∧
    ∃ q restriction issued, people.compileCount request = .ok q ∧
      people.restrict request 0 = .ok restriction issued ∧
      AliasesUnique people issued (restriction.countStatement people.layout)
        (restriction.members.map (·.toSql people.layout)) := by
  obtain ⟨rows, count⟩ := Context.compiledAliasesUnique people request
  obtain ⟨plan, issued, planned, _, unique⟩ := rows _ rfl
  obtain ⟨restriction, k, restricted, _, uniqueCount⟩ := count _ rfl
  have listed : people.rowPlan request 0 = .ok _ _ := rfl
  cases planned.symm.trans listed
  exact ⟨⟨_, _, _, _, rfl, listed, rfl, rfl, rfl, rfl, unique⟩, _, restriction, k, rfl, restricted, uniqueCount⟩

end AliasScopeSample
end ObjectQuery
