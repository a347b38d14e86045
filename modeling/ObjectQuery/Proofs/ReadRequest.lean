import ObjectQuery.Proofs.Emitted
import ObjectQuery.Proofs.Requested
import ObjectQuery.Proofs.Selected

/-! The two statements of a request, read back from their text: the rows, sorted and paged, and their number. Both
keep the entities of the type whose key and identity are among the rows of the nested query. -/
namespace ObjectQuery
open SqlText

variable {V : Type} [DecidableEq V] {l : Layout}

namespace Truth

theorem equalTrue {v w : Option V} : equal v w = some true ↔ v = w ∧ v.isSome = true := by
  cases v <;> cases w <;> simp [equal]

theorem amongTrue {x : Option V × Option V} {rows : List (Record V)} (pairs : ∀ record ∈ rows, ∃ y, .ofPair y = record) :
    among (Record.ofPair x) rows = some true ↔ x.1.isSome = true ∧ x.2.isSome = true ∧ Record.ofPair x ∈ rows := by
  have equal (y : Option V × Option V) : all (List.zipWith Truth.equal (Record.ofPair x) (Record.ofPair y)) = some true ↔
      x = y ∧ x.1.isSome = true ∧ x.2.isSome = true := by
    rw [allTrue]
    simp [Record.ofPair, equalTrue, Prod.ext_iff]
    tauto
  rw [among, anyTrue]
  constructor
  · rintro ⟨t, mem, holds⟩
    obtain ⟨record, inside, rfl⟩ := List.mem_map.mp mem
    obtain ⟨y, rfl⟩ := pairs record inside
    obtain ⟨rfl, keyed, identified⟩ := (equal y).mp holds
    exact ⟨keyed, identified, inside⟩
  · rintro ⟨keyed, identified, mem⟩
    exact ⟨_, List.mem_map_of_mem mem, (equal x).mpr ⟨rfl, keyed, identified⟩⟩

end Truth

namespace Restriction

def Members (I : Interpretation V) (db : Store l V) (r : Restriction) (rows : Option (List (Record V))) : Prop :=
  match r.members, rows with
  | none, none => True
  | some q, some rows => (∀ record ∈ rows, ∃ x, .ofPair x = record) ∧
      ∃ items, Reads I db (q.toSql l).sql (q.toSql l).parameters items ∧ query? I db items = some rows
  | _, _ => False

def truth (I : Interpretation V) (l : Layout) (r : Restriction) (rows : Option (List (Record V))) (e : Joined V) :
    Truth :=
  .all ((l.typeTest r.typeIds r.root).truth I e ::
    rows.elim [] fun rows => [.among [(l.keyOf r.root).read e, (l.identityOf r.root).read e] rows])

/-- The entities that a request asks for. A row with a null is in no list. -/
def Selects (I : Interpretation V) (db : Store l V) (r : Restriction) (e : Row V) : Prop :=
  I.OfType l r.typeIds e ∧ ∀ q, r.members = some q → (e l.entityKey).isSome = true ∧
    (e l.entityIdentity).isSome = true ∧
    ∃ rows, SqlText.rows I db (q.toSql l).sql (q.toSql l).parameters = some rows ∧ Record.ofPair (e.shown l) ∈ rows

theorem selectsAmong {I : Interpretation V} {db : Store l V} {r : Restriction} {q : SetPlan}
    {S : Set (Option V × Option V)} (members : r.members = some q) (selects : (q.toSql l).Selects I db S) (e : Row V) :
    r.Selects I db e ↔ I.OfType l r.typeIds e ∧ (e l.entityKey).isSome = true ∧ (e l.entityIdentity).isSome = true ∧
      e.shown l ∈ S := by
  obtain ⟨rows, answered, yields⟩ := selects
  have listed : Record.ofPair (e.shown l) ∈ rows ↔ e.shown l ∈ S :=
    (yields.each _).trans Record.ofPairInjective.mem_set_image
  simp [Selects, members, answered, listed]

structure Legible (l : Layout) (r : Restriction) : Prop where
  table : DottedName (l.qualified l.entityTable)
  numbered : ∃ i, .numbered i = r.root
  shown : ∀ c ∈ [l.keyOf r.root, l.identityOf r.root], c.Legible
  typed : Column.Legible ⟨r.root, l.entityTypeId⟩
  members : ∀ q, r.members = some q → ∀ s ∈ q.statements, s.Legible l

variable {I : Interpretation V} {db : Store l V} {r : Restriction} {rows : Option (List (Record V))}

theorem Legible.readMembers (legible : r.Legible l) : ∃ rows, r.Members I db rows := by
  unfold Members
  cases members : r.members with
  | none => exact ⟨none, trivial⟩
  | some q =>
    obtain ⟨items, rows, reads, query, yields⟩ := @SetQuery.sqlReads V _ l I db q (legible.members q members)
    refine ⟨some rows, fun record mem => ?_, items, reads, query⟩
    obtain ⟨x, _, same⟩ := (yields.each record).mp mem
    exact ⟨x, same⟩

theorem membershipOperand {root : Alias} {q : SetQuery Sql.Select} {rows : List (Record V)} {items : List (Item V)}
    (shown : ∀ c ∈ [l.keyOf root, l.identityOf root], c.Legible) (reads : Reads I db q.sql q.parameters items)
    (query : query? I db items = some rows) :
    IsOperand I db (membership l root q) fun e => .among [(l.keyOf root).read e, (l.identityOf root).read e] rows := by
  have columns := @columnsReads V _ l I db _ shown
  have whole := columns.group.between amongGlue reads.group
  refine ⟨_, whole.same ?_ rfl rfl, ?_, ?_⟩
  · rw [membershipText]
    simp [String.intercalate_cons_cons]
  · change SqlText.membership _ "IN" (query? I db items) = _
    rw [SqlText.membership, if_pos rfl, columnsListed (List.cons_ne_nil _ _) shown, query]
    rfl
  · exact List.forall_mem_cons.mpr ⟨rfl, List.forall_mem_cons.mpr ⟨rfl, List.forall_mem_singleton.mpr rfl⟩⟩

theorem Members.conditions (members : r.Members I db rows) (legible : r.Legible l) :
    IsClause I db "WHERE" (condition? I) (Sql.Select.clause " WHERE " " AND " ((r.filters l).map (·.sql)))
      ((r.filters l).flatMap (·.parameters)) (some (r.truth I l rows)) := by
  have type : IsOperand I db (l.typeTest r.typeIds r.root).toCondition fun e => (l.typeTest r.typeIds r.root).truth I e :=
    l.typeTestOperand legible.typed r.typeIds
  unfold Members at members
  split at members
  · next none =>
    rw [filters, none]
    exact @whereClause V _ l I db (Condition × (Joined V → Truth)) [⟨_, _⟩] Prod.fst Prod.snd (List.cons_ne_nil _ _)
      (List.forall_mem_singleton.mpr type)
  · next q rows some =>
    obtain ⟨_, items, reads, query⟩ := members
    rw [filters, some]
    exact @whereClause V _ l I db (Condition × (Joined V → Truth)) [⟨_, _⟩, ⟨_, _⟩] Prod.fst Prod.snd
      (List.cons_ne_nil _ _) (List.forall_mem_cons.mpr ⟨type, List.forall_mem_singleton.mpr
        (membershipOperand legible.shown reads query)⟩)
  · exact members.elim

theorem Members.selects (members : r.Members I db rows) {e : Joined V} :
    r.truth I l rows e = some true ↔ r.Selects I db (e r.root) := by
  have typed := I.typeTestPasses l r.typeIds r.root e
  rw [truth, Truth.allTrue, List.forall_mem_cons, Selects]
  refine and_congr typed ?_
  unfold Members at members
  split at members
  · next none => simp [none]
  · next q rows some =>
    obtain ⟨pairs, items, reads, query⟩ := members
    have answered : SqlText.rows I db (q.toSql l).sql (q.toSql l).parameters = .some rows := by
      rw [SqlText.rows, reads.items]
      exact query
    have among : Truth.among [(l.keyOf r.root).read e, (l.identityOf r.root).read e] rows = .some true ↔ _ :=
      Truth.amongTrue (x := (e r.root).shown l) pairs
    simp only [Option.elim_some, List.forall_mem_singleton, among, some, Option.some.injEq, forall_eq', answered,
      exists_eq_left']
    rfl
  · exact members.elim

def counting (I : Interpretation V) (l : Layout) (r : Restriction) (rows : Option (List (Record V))) : Statement V where
  distinct := false
  shown := .count (l.keyOf r.root)
  table := l.qualified l.entityTable
  root := r.root
  joins := []
  condition := some (r.truth I l rows)
  groupBy := none
  having := none
  orderBy := none
  limit := none
  offset := none

theorem Members.countDenotes (members : r.Members I db rows) (legible : r.Legible l) :
    (r.countStatement l).Denotes I db (r.counting I l rows) := by
  refine ⟨rfl, ?_, rfl, legible.table, rfl, legible.numbered, rfl, List.forall_mem_nil _, members.conditions legible,
    noClause, noClause, noClause, noClause, noClause⟩
  obtain ⟨key, _⟩ := List.forall_mem_cons.mp legible.shown
  obtain ⟨condition, rows, reads⟩ := @countReads V _ l I db _ _ _ key.reads
  refine ⟨_, reads, ?_, List.forall_mem_cons.mpr ⟨⟨rfl, rfl⟩, List.forall_mem_singleton.mpr ⟨rfl, rfl⟩⟩⟩
  simp [shown?, keywordTaken, column?, key.read, counting]

end Restriction

namespace SqlText

variable {I : Interpretation V} {db : Store l V}

theorem orderClause {columns : List SortColumn} (some : columns ≠ []) (legible : ∀ c ∈ columns, c.column.Legible) :
    IsClause I db "ORDER" (listedBy? sortColumn?) (Sql.Select.clause " ORDER BY " ", "
      ((columns.map fun c => (⟨c.column.text, c.direction.toSql⟩ : Sql.OrderItem)).map (·.sql))) [] (.some columns) := by
  have glue : Glue " ORDER BY " ["ORDER", "BY"] := {}
  have direction (d : Direction) : Whole d.toSql.keyword := by cases d <;> exact .checked (by decide) rfl
  have reads : ∀ c ∈ columns, Reads I db (c.column.text ++ " " ++ c.direction.toSql.keyword) []
      [.word c.column.text, .word c.direction.toSql.keyword] := fun c mem =>
    (legible c mem).reads.between blankGlue (.whole (direction c.direction))
  have known (d : Direction) : Direction.ofText? d.toSql.keyword = .some d := by cases d <;> rfl
  have each : ∀ c ∈ columns, sortColumn? [Item.word (V := V) c.column.text, .word c.direction.toSql.keyword] = .some c := by
    intro c mem
    simp [sortColumn?, (legible c mem).read, known]
  have apart : ∀ c ∈ columns, ∀ i ∈ [Item.word (V := V) c.column.text, .word c.direction.toSql.keyword],
      i.is "," = false ∧ i.startsClause = false := by
    intro c mem
    have keyword : (Item.word (V := V) c.direction.toSql.keyword).is "," = false ∧
        (Item.word (V := V) c.direction.toSql.keyword).startsClause = false := by
      cases c.direction <;> exact ⟨rfl, rfl⟩
    have column := wordsApart (V := V) (legible c mem).dottedName.whole
    refine List.forall_mem_cons.mpr ⟨⟨column _ (List.mem_singleton_self _), ?_⟩, List.forall_mem_singleton.mpr keyword⟩
    exact startsNoClause c.column.unreserved
  have none : (columns.flatMap fun _ => ([] : List BoundParameter)) = [] := by simp
  have listed := listedRead some each fun c mem i inside => (apart c mem i inside).1
  rw [clauseText (by simpa using some), List.map_map]
  refine isClause glue ((Reads.intercalate commaGlue reads).same rfl none rfl) ?_ ?_
  · rw [List.map_id'] at listed
    exact (congrArg (· >>= SqlText.listed sortColumn?) (keywordTaken "BY" _)).trans listed
  · refine List.forall_mem_append.mpr ⟨List.forall_mem_singleton.mpr rfl, fun i mem => ?_⟩
    rcases intercalatedMem mem with rfl | ⟨c, inside, mem⟩
    · rfl
    · exact (apart c inside i mem).2

theorem numberClause {w keyword : String} (glue : Glue keyword [w]) (n : Option UInt64) :
    IsClause I db w count? (Sql.Select.option keyword (n.map (toString ·.toNat))) [] (n.map (·.toNat)) := by
  cases n with
  | none => exact noClause
  | some n =>
    have number : Reads I db (toString n.toNat) [] [.word (toString n.toNat)] := .whole (numberWhole n.toNat)
    refine isClause glue number (numberRead n.toNat) (List.forall_mem_singleton.mpr ?_)
    exact startsNoClause (numberUnreserved n.toNat)

end SqlText

namespace RowPlan

def showing (shown : List Column) (c : Column) : List Column :=
  if (shown.map Column.text).contains c.text then shown else shown ++ [c]

def shown (l : Layout) (p : RowPlan) : List Column :=
  (p.sortColumns.map (·.column)).foldl showing [l.keyOf p.restriction.root, l.identityOf p.restriction.root]

theorem showingText (shown columns : List Column) :
    (columns.foldl showing shown).map Column.text =
      (columns.map Column.text).foldl Sql.Select.showing (shown.map Column.text) := by
  induction columns generalizing shown with
  | nil => rfl
  | cons c rest ih =>
    rw [List.foldl_cons, ih, List.map_cons, List.foldl_cons, showing, Sql.Select.showing]
    split <;> simp

theorem shownText (l : Layout) (p : RowPlan) : (p.toSelect l).select = (p.shown l).map Column.text := by
  rw [shown, showingText, List.map_map]
  rfl

theorem showingPrefix (shown columns : List Column) : shown <+: columns.foldl showing shown := by
  induction columns generalizing shown with
  | nil => exact List.prefix_rfl
  | cons c rest ih =>
    refine .trans ?_ (ih (showing shown c))
    unfold showing
    split
    · exact List.prefix_rfl
    · exact List.prefix_append _ _

structure Legible (l : Layout) (p : RowPlan) : Prop where
  restriction : p.restriction.Legible l
  joins : ∀ j ∈ p.joins, j.Legible
  sorted : ∀ c ∈ p.sortColumns, c.column.Legible

theorem showingLegible {shown columns : List Column} (legible : ∀ c ∈ shown, c.Legible)
    (each : ∀ c ∈ columns, c.Legible) : ∀ c ∈ columns.foldl showing shown, c.Legible := by
  induction columns generalizing shown with
  | nil => exact legible
  | cons c rest ih =>
    obtain ⟨first, others⟩ := List.forall_mem_cons.mp each
    refine ih ?_ others
    unfold showing
    split
    · exact legible
    · exact List.forall_mem_append.mpr ⟨legible, List.forall_mem_singleton.mpr first⟩

theorem showingShown {shown columns : List Column} (legible : ∀ c ∈ shown, c.Legible)
    (each : ∀ c ∈ columns, c.Legible) : ∀ c ∈ columns, c ∈ columns.foldl showing shown := by
  induction columns generalizing shown with
  | nil => exact List.forall_mem_nil _
  | cons c rest ih =>
    obtain ⟨first, others⟩ := List.forall_mem_cons.mp each
    have here : c ∈ showing shown c ∧ ∀ d ∈ showing shown c, d.Legible := by
      unfold showing
      split
      · next found =>
        obtain ⟨d, mem, same⟩ := List.mem_map.mp (List.contains_iff_mem.mp found)
        have same : d = c := Option.some.inj ((legible d mem).read.symm.trans (same ▸ first.read))
        exact ⟨same ▸ mem, legible⟩
      · exact ⟨by simp, List.forall_mem_append.mpr ⟨legible, List.forall_mem_singleton.mpr first⟩⟩
    exact List.forall_mem_cons.mpr ⟨(showingPrefix (showing shown c) rest).subset here.1, ih here.2 others⟩

theorem Legible.shown {p : RowPlan} (legible : p.Legible l) : ∀ c ∈ p.shown l, c.Legible :=
  showingLegible legible.restriction.shown (List.forall_mem_map.mpr legible.sorted)

theorem Legible.sortShown {p : RowPlan} (legible : p.Legible l) : ∀ c ∈ p.sortColumns, c.column ∈ p.shown l :=
  List.forall_mem_map.mp (showingShown legible.restriction.shown (List.forall_mem_map.mpr legible.sorted))

def listing (I : Interpretation V) (l : Layout) (p : RowPlan) (rows : Option (List (Record V))) : Statement V where
  distinct := true
  shown := .columns (p.shown l)
  table := l.qualified l.entityTable
  root := p.restriction.root
  joins := p.joins
  condition := some (p.restriction.truth I l rows)
  groupBy := none
  having := none
  orderBy := if p.sortColumns = [] then none else some p.sortColumns
  limit := p.limit.map (·.toNat)
  offset := p.offset.map (·.toNat)

theorem listingDenotes {I : Interpretation V} {db : Store l V} {p : RowPlan} {rows : Option (List (Record V))}
    (members : p.restriction.Members I db rows) (legible : p.Legible l) :
    (p.toSelect l).Denotes I db (p.listing I l rows) := by
  have limit : Glue " LIMIT " ["LIMIT"] := {}
  have offset : Glue " OFFSET " ["OFFSET"] := {}
  refine ⟨rfl, ?_, rfl, legible.restriction.table, rfl, legible.restriction.numbered, rfl, legible.joins,
    members.conditions legible.restriction, noClause, noClause, ?_, numberClause limit p.limit,
    numberClause offset p.offset⟩
  · have some : p.shown l ≠ [] := by
      obtain ⟨more, same⟩ : _ <+: p.shown l := showingPrefix _ _
      simp [← same]
    rw [shownText]
    refine ⟨_, columnsReads legible.shown, columnsShown some legible.shown, fun i mem => ?_⟩
    exact ⟨columnsApart (by decide) (by decide) i mem, columnsApart (by decide) (by decide) i mem⟩
  · by_cases unsorted : p.sortColumns = []
    · have text : (p.toSelect l).orderBy = [] := by
        simp [toSelect, Sql.Select.sorted, Restriction.statement, Sql.Select.of, unsorted]
      rw [text, listing, if_pos unsorted]
      exact noClause
    · have text : (p.toSelect l).orderBy = p.sortColumns.map fun c => ⟨c.column.text, c.direction.toSql⟩ := rfl
      rw [text, listing, if_neg unsorted]
      exact orderClause unsorted legible.sorted

end RowPlan

namespace Context
open Outcome

variable {ctx : Context} (names : ctx.IdentifiedNames)
include names

theorem restrictLegible {r : Request} {restriction : Restriction} {n m : Nat}
    (ok : ctx.restrict r n = .ok restriction m) : restriction.Legible ctx.layout := by
  obtain ⟨root, _⟩ := restrictIssued ok
  have numbered := Restriction.rootNumbered root
  have here : restriction.root ∈ [restriction.root] := List.mem_cons_self
  refine ⟨names.tables _ (.inl rfl), ⟨n, root.symm⟩,
    fun c mem => (Layout.shownWithin here c mem).legible names numbered,
    Column.Within.legible names ⟨here, isColumn⟩ numbered, fun q members => ?_⟩
  obtain ⟨ids, _, _, ⟨_, none, _⟩ | ⟨p, _, compiled⟩⟩ := restrictOk ok
  · cases none.symm.trans members
  · rw [members] at compiled
    exact Scope.compiledLegible names compiled

theorem rowPlanLegible {r : Request} {plan : RowPlan} {m : Nat} (ok : ctx.rowPlan r 0 = .ok plan m) :
    plan.Legible ctx.layout := by
  obtain ⟨k, planned⟩ := rowPlanOk ok
  obtain ⟨root, _⟩ := restrictIssued planned.restricted
  obtain ⟨_, ordered, within⟩ := planned.joins.fresh
  have numbered : Alias.AllNumbered (plan.restriction.root :: plan.joins.map (·.tableAlias)) :=
    List.forall_mem_cons.mpr ⟨⟨0, root.symm⟩, ordered ▸ Alias.AllNumbered.block k plan.joins.length⟩
  exact ⟨restrictLegible names planned.restricted, joinsLegible names within numbered,
    fun c mem => (planned.columns c mem).legible names numbered⟩

end Context

end ObjectQuery
