import ObjectQuery.Proofs.ReadClauses

/-! Statements, read back from their text, and the rows of the statement of a selection. -/
namespace ObjectQuery
open SqlText

variable {V : Type} [DecidableEq V] {l : Layout} {I : Interpretation V} {db : Store l V}

namespace SqlText

def clausesItems (cs : List (String × Option (List (Item V)))) : List (Item V) :=
  cs.flatMap fun c => clauseItems c.1 c.2

omit [DecidableEq V] in
theorem clausesHead {cs : List (String × Option (List (Item V)))} {p : Item V → Bool}
    (each : ∀ c ∈ cs, p (.word c.1) = true) : (clausesItems cs).head?.all p = true := by
  induction cs with
  | nil => rfl
  | cons c cs ih =>
    obtain ⟨first, others⟩ := List.forall_mem_cons.mp each
    obtain ⟨w, content⟩ := c
    cases content with
    | none => exact ih others
    | some items => simpa [clausesItems, clauseItems] using first

omit [DecidableEq V] in
theorem clausesRead {cs : List (String × Option (List (Item V)))} (words : (cs.map Prod.fst).Sublist clauseWords)
    (free : ∀ c ∈ cs, ∀ items ∈ c.2, ∀ i ∈ items, i.startsClause = false) :
    clauses (cs.map Prod.fst) (clausesItems cs) = (cs.map Prod.snd, []) := by
  induction cs with
  | nil => rfl
  | cons c cs ih =>
    obtain ⟨first, others⟩ := List.forall_mem_cons.mp free
    have distinct : ((c :: cs).map Prod.fst).Nodup := (by decide : clauseWords.Nodup).sublist words
    obtain ⟨new, _⟩ := List.nodup_cons.mp distinct
    -- this clause ends where a later one starts, and that one has another word
    have later : (clausesItems cs).head?.all (fun i => i.startsClause && !i.is c.1) = true := by
      refine clausesHead fun d mem => ?_
      have inside : d.1 ∈ cs.map Prod.fst := List.mem_map_of_mem mem
      have starts : (Item.word d.1 : Item V).startsClause = true :=
        List.any_eq_true.mpr ⟨d.1, words.subset (List.mem_cons_of_mem _ inside), by simp [Item.is]⟩
      have other : d.1 ≠ c.1 := fun same => new (same ▸ inside)
      simp [starts, Item.is, other]
    have here : clause c.1 (clausesItems (c :: cs)) = (c.2, clausesItems cs) := clauseRead first later
    simp only [List.map_cons, clauses, here, ih ((List.sublist_cons_self _ _).trans words) others]

theorem joinsReads {joins : List Join} (legible : ∀ j ∈ joins, j.Legible) :
    Reads I db (String.join ((joins.map Join.toSql).map fun j => " " ++ j.sql)) [] (joins.flatMap joinItems) ∧
      startsApart (String.join ((joins.map Join.toSql).map fun j => " " ++ j.sql)) = true := by
  induction joins with
  | nil => exact ⟨.nil, rfl⟩
  | cons j joins ih =>
    obtain ⟨first, others⟩ := List.forall_mem_cons.mp legible
    obtain ⟨reads, apart⟩ := ih others
    have start : startsApart (" " ++ j.toSql.sql) = true := startsApartAppend _ (by decide)
    rw [List.map_cons, List.map_cons, String.join_cons, List.flatMap_cons]
    refine ⟨by simpa using (joinReads first).append reads (.inl apart), ?_⟩
    rw [startsApartAppend _ (by simp [String.append_eq_empty_iff]), start]

theorem columnsReads {columns : List Column} (legible : ∀ c ∈ columns, c.Legible) :
    Reads I db (", ".intercalate (columns.map Column.text)) []
      ([Item.word ","].intercalate (columns.map fun c => [.word c.text])) := by
  have each : ∀ c ∈ columns, Reads I db c.text [] [.word c.text] := fun c mem => (legible c mem).reads
  have none : (columns.flatMap fun _ => ([] : List BoundParameter)) = [] := by simp
  simpa [none] using Reads.intercalate commaGlue each

omit [DecidableEq V] in
theorem columnsListed {columns : List Column} (some : columns ≠ []) (legible : ∀ c ∈ columns, c.Legible) :
    listed column? ([Item.word ","].intercalate (columns.map fun c => [Item.word (V := V) c.text])) = .some columns := by
  have each : ∀ c ∈ columns, column? [Item.word (V := V) c.text] = .some c := fun c mem => (legible c mem).read
  rw [listedRead some each fun c mem => wordsApart (legible c mem).dottedName.whole, List.map_id']

omit [DecidableEq V] in
theorem columnsApart {columns : List Column} {w : String} (plain : '.' ∉ w.toList) (other : w ≠ ",") :
    ∀ i ∈ [Item.word ","].intercalate (columns.map fun c => [Item.word (V := V) c.text]), i.is w = false := by
  intro i mem
  rcases intercalatedMem mem with rfl | ⟨c, _, inside⟩
  · exact beq_false_of_ne other.symm
  · obtain rfl := List.mem_singleton.mp inside
    exact otherWord c.dotted plain

omit [DecidableEq V] in
theorem distinctRead {distinct : Bool} {shown : List (Item V)} (apart : ∀ i ∈ shown, i.is "DISTINCT" = false) :
    (keyword? "DISTINCT" ((if distinct then [.word "DISTINCT"] else []) ++ shown)).isSome = distinct ∧
      (keyword? "DISTINCT" ((if distinct then [.word "DISTINCT"] else []) ++ shown)).getD
        ((if distinct then [.word "DISTINCT"] else []) ++ shown) = shown := by
  cases distinct with
  | true => simp [keywordTaken]
  | false =>
    cases shown with
    | nil => simp [keyword?]
    | cons i rest => simp [keyword?, apart i List.mem_cons_self]

omit [DecidableEq V] in
theorem headRead {distinct : Bool} {select rest : List (Item V)} {shown : Shown} {table : String} {i : Nat}
    {joins : List Join} (legible : ∀ j ∈ joins, j.Legible) (shows : shown? select = some shown)
    (apart : ∀ i ∈ select, i.is "FROM" = false ∧ i.is "DISTINCT" = false)
    (later : rest.head?.all Item.startsClause = true) :
    head? (.word "SELECT" :: ((if distinct then [.word "DISTINCT"] else []) ++ select ++ .word "FROM" :: .word table ::
      .word (Alias.numbered i).text :: (joins.flatMap joinItems ++ rest))) =
      some ⟨distinct, shown, table, .numbered i, joins, rest⟩ := by
  have before : ∀ i ∈ (if distinct then [.word "DISTINCT"] else []) ++ select, (!Item.is "FROM" i) = true := by
    refine List.forall_mem_append.mpr ⟨?_, fun i mem => by simp [apart i mem]⟩
    cases distinct <;> simp [Item.is]
  obtain ⟨isDistinct, isShown⟩ := @distinctRead V distinct select fun i mem => (apart i mem).2
  have source : (Item.word "FROM" : Item V).is "FROM" = true := rfl
  rw [head?, keywordTaken]
  simp only [Option.bind_eq_bind, Option.bind_some, List.takeWhile_append_of_pos before,
    List.dropWhile_append_of_pos before, List.takeWhile_cons, List.dropWhile_cons, source, Bool.not_true,
    Bool.false_eq_true, if_false, List.append_nil, joinsRead legible later, isDistinct, isShown, shows,
    Alias.ofTextNumbered, List.reverse_nil, List.nil_append]

end SqlText

structure Sql.Select.Denotes (I : Interpretation V) (db : Store l V) (s : Sql.Select) (T : Statement V) : Prop where
  distinct : s.distinct = T.distinct
  shown : ∃ items, Reads I db (", ".intercalate s.select) [] items ∧ shown? items = some T.shown ∧
    ∀ i ∈ items, i.is "FROM" = false ∧ i.is "DISTINCT" = false
  table : s.table = T.table
  named : DottedName T.table
  tableAlias : s.tableAlias = T.root.text
  numbered : ∃ i, .numbered i = T.root
  joins : s.joins = T.joins.map Join.toSql
  legible : ∀ j ∈ T.joins, j.Legible
  condition : IsClause I db "WHERE" (condition? I) (clause " WHERE " " AND " (s.filters.map (·.sql)))
    (s.filters.flatMap (·.parameters)) T.condition
  groupBy : IsClause I db "GROUP" (listedBy? column?) (clause " GROUP BY " ", " s.groupBy) [] T.groupBy
  having : IsClause I db "HAVING" (having? I) (option " HAVING " (s.having.map (·.sql)))
    (s.having.elim [] (·.parameters)) T.having
  orderBy : IsClause I db "ORDER" (listedBy? sortColumn?) (clause " ORDER BY " ", " (s.orderBy.map (·.sql))) []
    T.orderBy
  limit : IsClause I db "LIMIT" count? (option " LIMIT " (s.limit.map (toString ·.toNat))) [] T.limit
  offset : IsClause I db "OFFSET" count? (option " OFFSET " (s.offset.map (toString ·.toNat))) [] T.offset

theorem Sql.Select.Denotes.reads {s : Sql.Select} {T : Statement V} (denotes : s.Denotes I db T) : ∃ items,
    Reads I db s.sql s.parameters (.word "SELECT" :: items) ∧ statement? I (.word "SELECT" :: items) = some T := by
  obtain ⟨shown, shownReads, shownIs, apart⟩ := denotes.shown
  obtain ⟨c₁, reads₁, apart₁, is₁, free₁⟩ := denotes.condition
  obtain ⟨c₂, reads₂, apart₂, is₂, free₂⟩ := denotes.groupBy
  obtain ⟨c₃, reads₃, apart₃, is₃, free₃⟩ := denotes.having
  obtain ⟨c₄, reads₄, apart₄, is₄, free₄⟩ := denotes.orderBy
  obtain ⟨c₅, reads₅, apart₅, is₅, free₅⟩ := denotes.limit
  obtain ⟨c₆, reads₆, apart₆, is₆, free₆⟩ := denotes.offset
  obtain ⟨i, numbered⟩ := denotes.numbered
  have head : Reads I db ("SELECT " ++ if s.distinct then "DISTINCT " else "") []
      (.word "SELECT" :: if s.distinct then [.word "DISTINCT"] else []) := by
    cases s.distinct
    · exact .plain ["SELECT"] rfl rfl
    · exact .plain ["SELECT", "DISTINCT"] rfl rfl
  have headApart : endsApart ("SELECT " ++ if s.distinct then "DISTINCT " else "") = true := by
    cases s.distinct <;> rfl
  have source : Glue " FROM " ["FROM"] := {}
  have table : Reads I db s.table [] [.word T.table] := by
    rw [denotes.table]
    exact .whole denotes.named.whole
  have root : Reads I db s.tableAlias [] [.word T.root.text] := by
    rw [denotes.tableAlias, ← numbered]
    exact .whole (Alias.nameNumbered i).whole
  obtain ⟨joins, joinsApart⟩ := @joinsReads V _ l I db T.joins denotes.legible
  rw [← denotes.joins] at joins joinsApart
  have start := (((head.append shownReads (.inr headApart)).between source table).between blankGlue root).append joins
    (.inl joinsApart)
  have whole := (((((start.append reads₁ (.inl apart₁)).append reads₂ (.inl apart₂)).append reads₃ (.inl apart₃)).append
    reads₄ (.inl apart₄)).append reads₅ (.inl apart₅)).append reads₆ (.inl apart₆)
  refine ⟨(if s.distinct then [.word "DISTINCT"] else []) ++ shown ++ .word "FROM" :: .word T.table ::
    .word T.root.text :: (T.joins.flatMap joinItems ++ clausesItems [("WHERE", c₁), ("GROUP", c₂), ("HAVING", c₃),
      ("ORDER", c₄), ("LIMIT", c₅), ("OFFSET", c₆)]), ?_, ?_⟩
  · refine whole.same rfl ?_ ?_
    · simp only [List.append_nil, List.nil_append, Sql.Select.parameters]
    · simp only [clausesItems, List.flatMap_cons, List.flatMap_nil, List.map_cons, List.map_nil, List.append_assoc,
        List.cons_append, List.nil_append, List.append_nil]
  · have contents : clauses clauseWords (clausesItems [("WHERE", c₁), ("GROUP", c₂), ("HAVING", c₃), ("ORDER", c₄),
        ("LIMIT", c₅), ("OFFSET", c₆)]) = ([c₁, c₂, c₃, c₄, c₅, c₆], []) := by
      refine @clausesRead V [("WHERE", c₁), ("GROUP", c₂), ("HAVING", c₃), ("ORDER", c₄), ("LIMIT", c₅),
        ("OFFSET", c₆)] (List.Sublist.refl _) ?_
      simp only [List.forall_mem_cons]
      exact ⟨free₁, free₂, free₃, free₄, free₅, free₆, List.forall_mem_nil _⟩
    have starts : ∀ c ∈ [("WHERE", c₁), ("GROUP", c₂), ("HAVING", c₃), ("ORDER", c₄), ("LIMIT", c₅), ("OFFSET", c₆)],
        (Item.word c.1 : Item V).startsClause = true := by
      simp [Item.startsClause, Item.is, clauseWords]
    rw [← numbered, statement?, headRead denotes.legible shownIs apart (clausesHead starts)]
    simp only [Option.bind_eq_bind, Option.bind_some, contents, is₁, is₂, is₃, is₄, is₅, is₆, denotes.distinct, numbered]

theorem Sql.Select.Denotes.answer {s : Sql.Select} {T : Statement V} (denotes : s.Denotes I db T)
    (collate : Option V → Option V → Ordering) :
    SqlText.answer I db collate s.sql s.parameters = T.answer db collate := by
  obtain ⟨items, reads, statement⟩ := denotes.reads
  simp [SqlText.answer, reads.items, statement]

theorem Sql.Select.Denotes.number {s : Sql.Select} {T : Statement V} (denotes : s.Denotes I db T) :
    SqlText.number I db s.sql s.parameters = T.number db := by
  obtain ⟨items, reads, statement⟩ := denotes.reads
  simp [SqlText.number, reads.items, statement]

namespace SqlText

omit [DecidableEq V] in
theorem columnsShown {columns : List Column} (some : columns ≠ []) (legible : ∀ c ∈ columns, c.Legible) :
    shown? ([Item.word ","].intercalate (columns.map fun c => [Item.word (V := V) c.text])) =
      .some (.columns columns) := by
  have words : ∀ i ∈ [Item.word ","].intercalate (columns.map fun c => [Item.word (V := V) c.text]),
      ∃ w, i = .word w := by
    intro i mem
    rcases intercalatedMem mem with rfl | ⟨c, _, inside⟩
    · exact ⟨_, rfl⟩
    · exact ⟨_, List.mem_singleton.mp inside⟩
  unfold shown?
  split
  · next shape =>
    rw [shape] at words
    obtain ⟨w, same⟩ := words _ (List.mem_cons_of_mem _ List.mem_cons_self)
    cases same
  · rw [columnsListed some legible]
    rfl

theorem clauseText {keyword separator : String} {parts : List String} (some : parts ≠ []) :
    Sql.Select.clause keyword separator parts = keyword ++ separator.intercalate parts := by
  rw [Sql.Select.clause, if_neg (by simpa using some)]

theorem whereClause {ι : Type} {ts : List ι} {text : ι → Condition} {T : ι → Joined V → Truth} (some : ts ≠ [])
    (each : ∀ t ∈ ts, IsOperand I db (text t) (T t)) :
    IsClause I db "WHERE" (condition? I) (Sql.Select.clause " WHERE " " AND " ((ts.map text).map (·.sql)))
      ((ts.map text).flatMap (·.parameters)) (.some fun e => .all (ts.map fun t => T t e)) := by
  obtain ⟨items, reads, condition, free⟩ := connectedReads (c := .and) some each
  have glue : Glue " WHERE " ["WHERE"] := {}
  rw [clauseText (by simpa using some), List.map_map, List.flatMap_map]
  exact isClause glue reads condition free

theorem groupClause {columns : List Column} (some : columns ≠ []) (legible : ∀ c ∈ columns, c.Legible) :
    IsClause I db "GROUP" (listedBy? column?) (Sql.Select.clause " GROUP BY " ", " (columns.map Column.text)) []
      (.some columns) := by
  have glue : Glue " GROUP BY " ["GROUP", "BY"] := {}
  rw [clauseText (by simpa using some)]
  refine isClause glue (columnsReads legible) ?_ ?_
  · exact (congrArg (· >>= listed column?) (keywordTaken "BY" _)).trans (columnsListed some legible)
  · refine List.forall_mem_append.mpr ⟨List.forall_mem_singleton.mpr rfl, fun i mem => ?_⟩
    rw [Item.startsClause, List.any_eq_false]
    have plain : ∀ w ∈ clauseWords, '.' ∉ w.toList ∧ w ≠ "," := by decide
    exact fun w inside => by simp [columnsApart (plain w inside).1 (plain w inside).2 i mem]

theorem havingClause {d : Division} (legible : d.Legible) :
    IsClause I db "HAVING" (having? I) (Sql.Select.option " HAVING " (some d.toCondition.sql)) d.toCondition.parameters
      (some fun group => decide (d.Holds I group)) := by
  obtain ⟨items, reads, having, free⟩ := @Division.reads V _ l I db d legible
  have glue : Glue " HAVING " ["HAVING"] := {}
  exact isClause glue reads having free

end SqlText

namespace Selection

structure Legible (l : Layout) (s : Selection) : Prop where
  table : DottedName (l.qualified l.entityTable)
  numbered : ∃ i, .numbered i = s.root
  shown : ∀ c ∈ [l.keyOf s.root, l.identityOf s.root], c.Legible
  typed : Column.Legible ⟨s.root, l.entityTypeId⟩
  joins : ∀ j ∈ s.joins, j.Legible
  tests : ∀ t ∈ s.tests, t.Legible
  division : ∀ d, s.division = some d → d.Legible

def statement (I : Interpretation V) (l : Layout) (s : Selection) : Statement V where
  distinct := true
  shown := .columns [l.keyOf s.root, l.identityOf s.root]
  table := l.qualified l.entityTable
  root := s.root
  joins := s.joins
  condition := some fun e => .all ((l.typeTest s.typeIds s.root :: s.tests).map fun t => t.truth I e)
  groupBy := s.division.map fun _ => [l.keyOf s.root, l.identityOf s.root]
  having := s.division.map fun d group => decide (d.Holds I group)
  orderBy := none
  limit := none
  offset := none

end Selection

theorem Layout.typeTestOperand {a : Alias} (typed : Column.Legible ⟨a, l.entityTypeId⟩) (ids : List Int32) :
    IsOperand I db (l.typeTest ids a).toCondition fun e => (l.typeTest ids a).truth I e := by
  unfold typeTest
  split
  · exact Test.neverOperand
  · next some => exact Test.typeAmongOperand typed (by simpa using some)

theorem Selection.Legible.denotes {s : Selection} (legible : s.Legible l) :
    (s.toSelect l).Denotes I db (s.statement I l) := by
  have tested : ∀ t ∈ l.typeTest s.typeIds s.root :: s.tests, IsOperand I db t.toCondition fun e => t.truth I e :=
    List.forall_mem_cons.mpr ⟨l.typeTestOperand legible.typed s.typeIds, Test.operandEach s.tests legible.tests⟩
  have shown : s.columns l = [l.keyOf s.root, l.identityOf s.root].map Column.text := rfl
  refine ⟨rfl, ?_, rfl, legible.table, rfl, legible.numbered, rfl, legible.joins, ?_, ?_, ?_, noClause, noClause,
    noClause⟩
  · refine ⟨_, columnsReads legible.shown, columnsShown (List.cons_ne_nil _ _) legible.shown, fun i mem => ?_⟩
    exact ⟨columnsApart (by decide) (by decide) i mem, columnsApart (by decide) (by decide) i mem⟩
  · have filters : (s.toSelect l).filters = (l.typeTest s.typeIds s.root :: s.tests).map Test.toCondition :=
      Test.toConditionsMap _
    rw [filters]
    exact whereClause (List.cons_ne_nil _ _) tested
  · cases divided : s.division with
    | none => simpa [toSelect, statement, divided, Sql.Select.clause] using noClause
    | some d => simpa [toSelect, statement, divided, shown] using groupClause (List.cons_ne_nil _ _) legible.shown
  · cases divided : s.division with
    | none => simpa [toSelect, statement, divided, Sql.Select.option] using noClause
    | some d => simpa [toSelect, statement, divided] using havingClause (legible.division d divided)

def Record.ofPair (x : Option V × Option V) : Record V := [x.1, x.2]

omit [DecidableEq V] in
theorem Record.ofPairInjective : Function.Injective (Record.ofPair (V := V)) := by
  intro x y same
  simpa [Record.ofPair, Prod.ext_iff] using same

theorem Selection.statementRows (s : Selection) :
    (s.statement I l).rows db = some ((s.answer I db).map Record.ofPair) := by
  have passing : (s.statement I l).passing db = s.passing I db := by
    have value (e : Joined V) : Test.truth I e (.all (l.typeTest s.typeIds s.root :: s.tests)) =
        .all ((l.typeTest s.typeIds s.root :: s.tests).map fun t => t.truth I e) :=
      congrArg Truth.all (Test.truthsMap I e _)
    simp only [Statement.passing, Selection.passing, Test.Passes, value]
    rfl
  have shown : Record.ofPair ∘ s.pair l = fun e : Joined V => [(l.keyOf s.root).read e, (l.identityOf s.root).read e] := rfl
  rw [Statement.rows, passing, answer, ← List.dedup_map_of_injective Record.ofPairInjective, List.map_map, shown]
  cases divided : s.division with
  | none => simp [statement, divided]
  | some d => simp [statement, divided, pair]

structure Yields (rows : List (Record V)) (S : Set (Option V × Option V)) : Prop where
  distinct : rows.Nodup
  each : ∀ record, record ∈ rows ↔ record ∈ Record.ofPair '' S

theorem Yields.answer (s : Selection) : Yields ((s.answer I db).map Record.ofPair) (s.selected I db) where
  distinct := (List.nodup_dedup _).map Record.ofPairInjective
  each _ := by simp [Selection.selected]

theorem Yields.combined {left right : List (Record V)} {q r : SetPlan} {R : Selection → Set (Option V × Option V)}
    (first : Yields left (q.reading R)) (next : Yields right (r.reading R)) (o : SetOperator) :
    Yields (combine o left right) ((SetQuery.compound o q r).reading R) := by
  refine ⟨by cases o <;> exact List.nodup_dedup _, fun record => ?_⟩
  cases o with
  | intersect =>
    simp [combine, SetQuery.reading, Set.image_inter Record.ofPairInjective, first.each, next.each]
  | union => simp [combine, SetQuery.reading, Set.image_union, first.each, next.each]
  | except => simp [combine, SetQuery.reading, Set.image_sdiff Record.ofPairInjective, first.each, next.each]

namespace SetQuery

/-- The text of the query yields the pairs of the set. -/
def Selects (I : Interpretation V) (db : Store l V) (q : SetQuery Sql.Select) (S : Set (Option V × Option V)) : Prop :=
  ∃ rows, SqlText.rows I db q.sql q.parameters = some rows ∧ Yields rows S

theorem Selects.unique {q : SetQuery Sql.Select} {S T : Set (Option V × Option V)} (first : q.Selects I db S)
    (next : q.Selects I db T) : S = T := by
  obtain ⟨rows, answered, yields⟩ := first
  obtain ⟨_, again, yields'⟩ := next
  cases answered.symm.trans again
  refine Record.ofPairInjective.image_injective (Set.ext fun record => ?_)
  rw [← yields.each, yields'.each]

theorem keywordWhole (o : SetOperator) : Whole o.keyword := by
  cases o <;> exact .checked (by decide) rfl

theorem sqlReads {q : SetPlan} (legible : ∀ s ∈ q.statements, s.Legible l) : ∃ items rows,
    Reads I db (q.toSql l).sql (q.toSql l).parameters items ∧ query? I db items = some rows ∧
      Yields rows (q.reading (Selection.selected I db)) := by
  induction q with
  | select s =>
    have denotes : (s.toSelect l).Denotes I db (s.statement I l) := (legible s (List.mem_singleton_self s)).denotes
    obtain ⟨items, reads, statement⟩ := denotes.reads
    refine ⟨_, _, reads, ?_, .answer s⟩
    change (statement? I (.word "SELECT" :: items)).bind (fun s => if s.isWhole then s.rows db else none) = _
    rw [statement, Option.bind_some, ← @Selection.statementRows V _ l I db s]
    rfl
  | compound o q r left right =>
    obtain ⟨items, rows, reads, query, yields⟩ := left fun s mem => legible s (List.mem_append_left _ mem)
    obtain ⟨items', rows', reads', query', yields'⟩ := right fun s mem => legible s (List.mem_append_right _ mem)
    have operator : Reads I db o.keyword [] [.word o.keyword] := .whole (keywordWhole o)
    have whole := (reads.group.between blankGlue operator).between blankGlue reads'.group
    have parameters : (q.toSql l).parameters ++ [] ++ (r.toSql l).parameters =
        (SetQuery.toSql l (.compound o q r)).parameters := by
      rw [List.append_nil]
      rfl
    have known : SetOperator.ofText? o.keyword = some o := by cases o <;> rfl
    refine ⟨_, _, whole.same (compoundParts o _ _).symm parameters rfl, ?_, yields.combined yields' o⟩
    change (do some (combine (← SetOperator.ofText? o.keyword) (← query? I db items) (← query? I db items'))) = _
    rw [known, query, query']
    rfl

theorem selectsReading {q : SetPlan} (legible : ∀ s ∈ q.statements, s.Legible l) :
    (q.toSql l).Selects I db (q.reading (Selection.selected I db)) := by
  obtain ⟨items, rows, reads, query, yields⟩ := @sqlReads V _ l I db q legible
  exact ⟨rows, by rw [SqlText.rows, reads.items]; exact query, yields⟩

end SetQuery

end ObjectQuery
