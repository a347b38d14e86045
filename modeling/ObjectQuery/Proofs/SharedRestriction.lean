import ObjectQuery.Proofs.Shape
import ObjectQuery.Proofs.Sorting

/-! The two statements of a request. Rows and their number are selected from one table under one restriction;
order and page only add to the statement for rows. -/
namespace ObjectQuery
open Outcome

namespace Sql.Select

theorem showingAdded (shown columns : List String) :
    ∃ added, columns.foldl showing shown = shown ++ added ∧ added.Nodup ∧
      ∀ x, x ∈ added ↔ x ∈ columns ∧ x ∉ shown := by
  induction columns generalizing shown with
  | nil => exact ⟨[], (List.append_nil _).symm, List.nodup_nil, by simp⟩
  | cons c rest ih =>
    by_cases before : c ∈ shown
    · obtain ⟨added, folded, distinct, members⟩ := ih shown
      refine ⟨added, ?_, distinct, fun x => ?_⟩
      · rw [List.foldl_cons, showing, if_pos (List.contains_iff_mem.mpr before), folded]
      · rw [members, List.mem_cons]
        constructor
        · exact fun ⟨mem, new⟩ => ⟨.inr mem, new⟩
        · rintro ⟨rfl | mem, new⟩
          · exact absurd before new
          · exact ⟨mem, new⟩
    · obtain ⟨added, folded, distinct, members⟩ := ih (shown ++ [c])
      have new : c ∉ added := fun mem => ((members c).mp mem).2 (List.mem_append_right _ (List.mem_singleton_self c))
      refine ⟨c :: added, ?_, List.nodup_cons.mpr ⟨new, distinct⟩, fun x => ?_⟩
      · rw [List.foldl_cons, showing, if_neg (mt List.contains_iff_mem.mp before), folded, List.append_assoc]
        rfl
      · simp only [List.mem_cons, members, List.mem_append, List.not_mem_nil, or_false, not_or]
        by_cases same : x = c
        · simp [same, before]
        · simp [same]

theorem ungroupedText {s : Sql.Select} (filtered : s.filters ≠ []) (ungrouped : s.groupBy = [])
    (undivided : s.having = none) :
    s.sql = "SELECT " ++ (if s.distinct then "DISTINCT " else "") ++ ", ".intercalate s.select ++
      " FROM " ++ s.table ++ " " ++ s.tableAlias ++ String.join (s.joins.map fun j => " " ++ j.sql) ++
      " WHERE " ++ " AND ".intercalate (s.filters.map (·.sql)) ++
      clause " ORDER BY " ", " (s.orderBy.map (·.sql)) ++ option " LIMIT " (s.limit.map (toString ·.toNat)) ++
      option " OFFSET " (s.offset.map (toString ·.toNat)) := by
  have group : clause " GROUP BY " ", " s.groupBy = "" := by rw [ungrouped]; rfl
  have division : option " HAVING " (s.having.map (·.sql)) = "" := by rw [undivided]; rfl
  have restricted : clause " WHERE " " AND " (s.filters.map (·.sql)) =
      " WHERE " ++ " AND ".intercalate (s.filters.map (·.sql)) := if_neg (by simpa using filtered)
  unfold sql
  rw [group, division, restricted]
  simp only [String.append_assoc, String.append_empty]

end Sql.Select

namespace Layout

variable (l : Layout)

def entities : String := l.qualified l.entityTable ++ " t0"

def countText (restriction : String) : String :=
  "SELECT COUNT(DISTINCT " ++ Sql.column "t0" l.entityKey ++ ") FROM " ++ l.entities ++ " WHERE " ++ restriction

def rowsText (sorts : List String) (joins : List Sql.Join) (restriction : String) (order : List Sql.OrderItem)
    (limit offset : Option UInt64) : String :=
  "SELECT DISTINCT " ++ ", ".intercalate (l.shownColumns "t0" ++ sorts) ++
  " FROM " ++ l.entities ++ String.join (joins.map fun j => " " ++ j.sql) ++ " WHERE " ++ restriction ++
  Sql.Select.clause " ORDER BY " ", " (order.map (·.sql)) ++
  Sql.Select.option " LIMIT " (limit.map (toString ·.toNat)) ++
  Sql.Select.option " OFFSET " (offset.map (toString ·.toNat))

end Layout

theorem mergedBefore {a b c : String} (merged : a ++ b = c) (rest : String) : a ++ (b ++ rest) = c ++ rest := by
  rw [← merged, String.append_assoc]

variable {l : Layout}

def Restriction.text (l : Layout) (r : Restriction) : String := " AND ".intercalate ((r.filters l).map (·.sql))

theorem Restriction.rootText {r : Restriction} (root : r.root = .numbered 0) : r.root.text = "t0" := by
  rw [root]
  decide

theorem Restriction.countStatementText {r : Restriction} (root : r.root = .numbered 0) :
    (r.countStatement l).sql = l.countText (r.text l) := by
  have named := rootText root
  have key : (l.keyOf r.root).text = Sql.column "t0" l.entityKey := congrArg (Sql.column · l.entityKey) named
  have start := mergedBefore (by decide : "SELECT " ++ "COUNT(DISTINCT " = "SELECT COUNT(DISTINCT ")
  have source := mergedBefore (by decide : ")" ++ " FROM " = ") FROM ")
  have table := mergedBefore (by decide : " " ++ "t0" = " t0")
  have text : (r.countStatement l).sql = "SELECT " ++ "" ++ ("COUNT(DISTINCT " ++ (l.keyOf r.root).text ++ ")") ++
      " FROM " ++ l.qualified l.entityTable ++ " " ++ r.root.text ++ "" ++ " WHERE " ++ r.text l ++ "" ++ "" ++ "" :=
    Sql.Select.ungroupedText (List.cons_ne_nil _ _) rfl rfl
  rw [text, named, key]
  unfold Layout.countText Layout.entities
  simp only [String.append_assoc, String.append_empty, start, source, table]

def RowPlan.order (p : RowPlan) : List Sql.OrderItem :=
  p.sortColumns.map fun c => ⟨c.column.text, c.direction.toSql⟩

theorem RowPlan.toSelectText {p : RowPlan} (root : p.restriction.root = .numbered 0) {sorts : List String}
    (shown : (p.toSelect l).select = l.shownColumns "t0" ++ sorts) :
    (p.toSelect l).sql =
      l.rowsText sorts (p.joins.map Join.toSql) (p.restriction.text l) p.order p.limit p.offset := by
  have named := Restriction.rootText root
  have start := mergedBefore (by decide : "SELECT " ++ "DISTINCT " = "SELECT DISTINCT ")
  have table := mergedBefore (by decide : " " ++ "t0" = " t0")
  have text : (p.toSelect l).sql = "SELECT " ++ "DISTINCT " ++ ", ".intercalate (p.toSelect l).select ++ " FROM " ++
      l.qualified l.entityTable ++ " " ++ p.restriction.root.text ++
      String.join ((p.joins.map Join.toSql).map fun j => " " ++ j.sql) ++ " WHERE " ++ p.restriction.text l ++
      Sql.Select.clause " ORDER BY " ", " (p.order.map (·.sql)) ++
      Sql.Select.option " LIMIT " (p.limit.map (toString ·.toNat)) ++
      Sql.Select.option " OFFSET " (p.offset.map (toString ·.toNat)) :=
    Sql.Select.ungroupedText (List.cons_ne_nil _ _) rfl rfl
  rw [text, named, shown]
  unfold Layout.rowsText Layout.entities
  simp only [String.append_assoc, start, table]

namespace Context

variable {ctx : Context} {r : Request}

theorem resultError {α : Type} {x : Compile α} {e : CompileError} : x.result = .error e ↔ ∃ n, x 0 = .error e n := by
  unfold Compile.result
  split
  · next b n done => simp [done]
  · next e n failed => simp [failed]

theorem countFails {e : CompileError} (failed : ctx.compileCount r = .error e) : ctx.compileRows r = .error e := by
  rcases exceptBindError.mp failed with failed | ⟨_, _, done⟩
  · obtain ⟨n, refused⟩ := resultError.mp failed
    have unplanned : ctx.rowPlan r 0 = .error e n := bindError.mpr (.inl refused)
    exact exceptBindError.mpr (.inl (resultError.mpr ⟨n, unplanned⟩))
  · cases done

structure SharesRestriction (ctx : Context) (r : Request) (rows count : CompiledQuery) (restriction : String)
    (sorts : List String) (joins : List Sql.Join) (order : List Sql.OrderItem) : Prop where
  parameters : rows.parameters = count.parameters
  parameterTypes : rows.parameterTypes = count.parameterTypes
  count : count.sql = ctx.layout.countText restriction
  rows : rows.sql = ctx.layout.rowsText sorts joins restriction order r.max (r.first.filter (0 < ·))
  left : ∀ j ∈ joins, j.kind = .left
  sorted : order = [] ↔ r.orderBy = [] ∧ r.max = none ∧ r.first.filter (0 < ·) = none
  distinct : sorts.Nodup
  sorts : ∀ x, x ∈ sorts ↔ x ∈ order.map (·.expression) ∧ x ∉ ctx.layout.shownColumns "t0"

theorem bothShare {plan : RowPlan} {restriction : Restriction} {n m : Nat}
    (planned : ctx.rowPlan r 0 = .ok plan n) (restricted : ctx.restrict r 0 = .ok restriction m) :
    ∃ text sorts joins order, SharesRestriction ctx r (.ofSelect (plan.toSelect ctx.layout))
      (.ofSelect (restriction.countStatement ctx.layout)) text sorts joins order := by
  obtain ⟨kept, columns, k, sorted⟩ := rowPlanLaid planned
  cases sorted.restricted.symm.trans restricted
  obtain ⟨_, root, _⟩ := restrictOk restricted
  have named := Restriction.rootText root
  have first : [(ctx.layout.keyOf plan.restriction.root).text, (ctx.layout.identityOf plan.restriction.root).text] =
      ctx.layout.shownColumns "t0" := by
    rw [← named]
    rfl
  obtain ⟨sorts, shown, distinct, members⟩ :=
    Sql.Select.showingAdded (ctx.layout.shownColumns "t0") (plan.sortColumns.map (·.column.text))
  have select : (plan.toSelect ctx.layout).select = ctx.layout.shownColumns "t0" ++ sorts := by
    rw [← shown, ← first]
    rfl
  have text := RowPlan.toSelectText root select
  rw [sorted.limit, sorted.offset] at text
  have left : ∀ j ∈ plan.joins.map Join.toSql, j.kind = .left :=
    List.forall_mem_map.mpr (sorted.laid.leftJoins (List.forall_mem_nil _))
  have expressions : plan.order.map (·.expression) = plan.sortColumns.map (·.column.text) := by
    simp [RowPlan.order]
  have ordered : plan.order = [] ↔ r.orderBy = [] ∧ r.max = none ∧ r.first.filter (0 < ·) = none := by
    have unpaged : r.paginated = false ↔ r.max = none ∧ r.first.filter (0 < ·) = none := by
      rw [Request.paginated, Request.offset, Bool.or_eq_false_iff, Option.isSome_eq_false_iff,
        Option.isSome_eq_false_iff, Option.isNone_iff_eq_none, Option.isNone_iff_eq_none, and_comm]
    rw [RowPlan.order, List.map_eq_nil_iff, sorted.columns, ← sorted.unsorted, ← sorted.laid.columnsNil, ← unpaged]
    cases paged : r.paginated <;> cases columns <;> simp
  exact ⟨plan.restriction.text ctx.layout, sorts, plan.joins.map Join.toSql, plan.order,
    rfl, rfl, Restriction.countStatementText root, text, left, ordered, distinct, expressions ▸ members⟩

theorem rowsAndCountShareRestriction (ctx : Context) (r : Request) :
    (∀ rows, ctx.compileRows r = .ok rows → ∃ count, ctx.compileCount r = .ok count) ∧
    (∀ e, ctx.compileCount r = .error e → ctx.compileRows r = .error e) ∧
    (∀ rows count, ctx.compileRows r = .ok rows → ctx.compileCount r = .ok count →
      ∃ restriction sorts joins order, SharesRestriction ctx r rows count restriction sorts joins order) ∧
    ∀ orderBy first max,
      ctx.compileCount { r with orderBy := orderBy, first := first, max := max } = ctx.compileCount r := by
  refine ⟨fun rows ok => ?_, fun e failed => countFails failed, fun rows count ok counted => ?_, fun _ _ _ => rfl⟩
  · obtain ⟨plan, n, planned, _⟩ := compileRowsOk.mp ok
    obtain ⟨k, restricted, _⟩ := rowPlanSorted planned
    exact ⟨_, compileCountOk.mpr ⟨_, k, restricted, rfl⟩⟩
  · obtain ⟨plan, n, planned, rfl⟩ := compileRowsOk.mp ok
    obtain ⟨restriction, m, restricted, rfl⟩ := compileCountOk.mp counted
    exact bothShare planned restricted

end Context

namespace RequestSample

theorem requestSharesRestriction : ∃ rows count restriction sorts joins order,
    people.compileRows request = .ok rows ∧ people.compileCount request = .ok count ∧
    people.SharesRestriction request rows count restriction sorts joins order ∧ order ≠ [] := by
  obtain ⟨rows, ok⟩ : ∃ rows, people.compileRows request = .ok rows := ⟨_, rfl⟩
  obtain ⟨count, counted⟩ := (people.rowsAndCountShareRestriction request).1 rows ok
  obtain ⟨restriction, sorts, joins, order, share⟩ :=
    (people.rowsAndCountShareRestriction request).2.2.1 rows count ok counted
  have sorted : order ≠ [] := mt share.sorted.mp (by simp [request])
  exact ⟨rows, count, restriction, sorts, joins, order, ok, counted, share, sorted⟩

end RequestSample
end ObjectQuery
