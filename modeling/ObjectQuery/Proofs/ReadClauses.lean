import ObjectQuery.Proofs.ReadCondition

/-! Joins, divisions and clauses, read back from their text. Joins are read one after another, and each clause up to
the word that starts the next one. -/
namespace ObjectQuery
open SqlText
open Reading (Connective)

theorem splitLed {α ι : Type} {p : α → Bool} {separator : α} {before : List α} {ts : List ι} {part : ι → List α}
    (splits : p separator = true) (first : ∀ x ∈ before, p x = false) (free : ∀ t ∈ ts, ∀ x ∈ part t, p x = false) :
    (before ++ ts.flatMap fun t => separator :: part t).splitOnP p = before :: ts.map part := by
  induction ts generalizing before with
  | nil => simpa using List.splitOnP_eq_singleton fun x mem => by simp [first x mem]
  | cons t rest ih =>
    obtain ⟨here, others⟩ := List.forall_mem_cons.mp free
    rw [List.flatMap_cons, List.cons_append, List.splitOnP_append_cons_of_forall_mem (by simpa using first) _ splits,
      ih here others, List.map_cons]

theorem intercalateFlat {α : Type} (parts : List (List α)) : ([] : List α).intercalate parts = parts.flatten := by
  induction parts with
  | nil => rfl
  | cons part rest ih =>
    cases rest with
    | nil => simp
    | cons next rest => rw [List.intercalate_cons_cons, ih, List.append_nil, ← List.flatten_cons]

theorem intercalateLed {α ι : Type} {separator : α} {t : ι} {ts : List ι} {part : ι → List α} :
    [separator].intercalate ((t :: ts).map part) = part t ++ ts.flatMap fun t => separator :: part t := by
  induction ts generalizing t with
  | nil => simp
  | cons u rest ih =>
    have ih := @ih u
    rw [List.map_cons] at ih ⊢
    rw [List.map_cons, List.intercalate_cons_cons, ih]
    simp

def Division.Legible (d : Division) : Prop :=
  match d.tally with
  | .values c => c.Legible
  | .matches tests => ∀ t ∈ tests, t.Legible

structure Join.Legible (j : Join) : Prop where
  table : DottedName j.table
  numbered : ∃ i, .numbered i = j.tableAlias
  matched : j.on ≠ []
  columns : ∀ e ∈ j.on, e.left.Legible ∧ e.right.Legible

namespace SqlText

variable {V : Type} [DecidableEq V] {l : Layout} {I : Interpretation V} {db : Store l V}

omit [DecidableEq V] in
theorem keywordTaken (w : String) (rest : List (Item V)) : keyword? w (.word w :: rest) = some rest := by
  simp [keyword?, Item.is]

theorem countReads {a : String} {ps : List BoundParameter} {is : List (Item V)} (inside : Reads I db a ps is) :
    ∃ condition rows, Reads I db ("COUNT(DISTINCT " ++ a ++ ")") ps
      [.word "COUNT", .group (.word "DISTINCT" :: is) condition rows] := by
  have distinct : Reads I db "DISTINCT " [] [.word "DISTINCT"] := .plain ["DISTINCT"] rfl rfl
  have call : Reads I db "COUNT" [] [.word "COUNT"] := .plain ["COUNT"] rfl rfl
  rw [countDistinctText]
  exact ⟨_, _, call.append (distinct.append inside (.inr rfl)).group (.inl (by simp [startsApart, breaks, isMark]))⟩

omit [DecidableEq V] in
theorem numberUnreserved (n : Nat) : (Item.word (toString n) : Item V).isReserved = false := by
  rw [Item.isReserved, List.any_eq_false]
  intro w mem same
  obtain rfl : toString n = w := by simpa [Item.is] using same
  have letters : (reserved.all fun w => w.toList.any fun c => !c.isDigit) = true := rfl
  obtain ⟨c, inside, letter⟩ := List.any_eq_true.mp (List.all_eq_true.mp letters _ mem)
  rw [digitOfNat inside] at letter
  cases letter

theorem numberWhole (n : Nat) : Whole (toString n) := (dottedDigits (digitsNat n)).whole

theorem havingReads {a : String} {ps : List BoundParameter} {is : List (Item V)} {count : List (Joined V) → Nat}
    (inside : Reads I db a ps is) (counts : distinctCount I (.word "DISTINCT" :: is) = some count) (n : Nat) : ∃ items,
    Reads I db ("COUNT(DISTINCT " ++ a ++ ")" ++ (" >= " ++ toString n)) ps items ∧
      having? I items = some (fun group => decide (n ≤ count group)) ∧ ∀ i ∈ items, i.startsClause = false := by
  obtain ⟨_, _, call⟩ := countReads inside
  have atLeast : Reads I db " >= " [] [.word ">="] := .plain [">="] rfl rfl
  have bound := atLeast.append (.whole (numberWhole n)) (.inr rfl)
  have whole := call.append bound (.inl (startsApartAppend _ (by decide)))
  rw [List.append_nil, List.append_nil] at whole
  refine ⟨_, whole, ?_, ?_⟩
  · change ((distinctCount I _).bind fun count => (number? (toString n)).bind fun least =>
      some fun group => decide (least ≤ count group)) = _
    rw [counts, numberRead]
    rfl
  · have number : (Item.word (toString n) : Item V).startsClause = false := startsNoClause (numberUnreserved n)
    refine List.forall_mem_append.mpr ⟨List.forall_mem_cons.mpr ⟨rfl, List.forall_mem_singleton.mpr rfl⟩, ?_⟩
    exact List.forall_mem_cons.mpr ⟨rfl, List.forall_mem_singleton.mpr number⟩

theorem operandCondition {items : List (Item V)} {T : Joined V → Truth} (operand : operand? I items = some T)
    (free : ∀ i ∈ items, i.isReserved = false) : condition? I items = some T := by
  have alone := @conditionConnected V _ I Unit [()] (fun _ => items) (fun _ => T) .and (by simp) (fun _ _ => operand)
    fun _ _ => free
  simpa [Connective.truth, allOne] using alone

theorem whenReads {c : Condition} {T : Joined V → Truth} (operand : IsOperand I db c T) (n : Nat) : ∃ items,
    Reads I db ("WHEN " ++ c.sql ++ " THEN " ++ toString n) c.parameters (.word "WHEN" :: items) ∧
      case? I items = some ⟨T, n⟩ ∧ ∀ i ∈ items, i.is "WHEN" = false := by
  obtain ⟨items, reads, operand, free⟩ := operand
  have before : Reads I db "WHEN " [] [.word "WHEN"] := .plain ["WHEN"] rfl rfl
  have between : Glue " THEN " ["THEN"] := {}
  have whole := (before.append reads (.inr rfl)).between between (.whole (numberWhole n))
  rw [List.nil_append, List.append_nil] at whole
  have tested : ∀ i ∈ items, i.is "THEN" = false := fun i mem => isUnreserved (free i mem)
  have value : (Item.word (toString n) : Item V).is "THEN" = false := isUnreserved (numberUnreserved n)
  have split : (items ++ [.word "THEN", .word (toString n)] : List (Item V)).splitOnP (·.is "THEN") =
      [items, [.word (toString n)]] := by
    rw [List.splitOnP_append_cons_of_forall_mem tested _ rfl, List.splitOnP_eq_singleton]
    exact List.forall_mem_singleton.mpr value
  refine ⟨items ++ [.word "THEN", .word (toString n)], ?_, ?_, List.forall_mem_append.mpr ⟨?_, ?_⟩⟩
  · simpa only [List.map_cons, List.map_nil, List.append_assoc, List.cons_append, List.nil_append] using whole
  · rw [case?, split]
    change (do some (⟨← condition? I items, ← number? (toString n)⟩ : Case V)) = _
    rw [operandCondition operand free, numberRead]
    rfl
  · exact fun i mem => isUnreserved (free i mem)
  · exact List.forall_mem_cons.mpr ⟨rfl, List.forall_mem_singleton.mpr (isUnreserved (numberUnreserved n))⟩

omit [DecidableEq V] in
theorem firstCasePassed (tests : List Test) (n : Nat) (e : Joined V) :
    firstCase ((tests.zipIdx n).map fun x => ⟨fun e => x.1.truth I e, x.2⟩) e =
      (tests.findIdx? fun t => t.Passes I e).map (· + n) := by
  induction tests generalizing n with
  | nil => rfl
  | cons t rest ih =>
    rw [List.zipIdx_cons, List.map_cons, firstCase, List.find?_cons, List.findIdx?_cons]
    by_cases passes : t.Passes I e
    · have true : t.truth I e = some true := passes
      simp [passes, true]
    · have other : ¬ t.truth I e = some true := passes
      have ih := ih (n + 1)
      rw [firstCase] at ih
      simp only [other, passes, decide_false, ih, Option.map_map, Bool.false_eq_true, if_false]
      exact congrFun (congrArg Option.map (funext fun k => by simp [Nat.add_comm 1, Nat.add_assoc])) _

end SqlText

theorem Division.whenClausesNumbered (tests : List Test) (n : Nat) : whenClauses n (Test.toConditions tests) =
    (tests.zipIdx n).map fun x => "WHEN " ++ x.1.toCondition.sql ++ " THEN " ++ toString x.2 := by
  induction tests generalizing n with
  | nil => rfl
  | cons t rest ih => rw [Test.toConditions, whenClauses, ih, List.zipIdx_cons, List.map_cons]

section
variable {V : Type} [DecidableEq V] {l : Layout} {I : Interpretation V} {db : Store l V}

theorem Test.casesRead {tests : List Test} (legible : ∀ t ∈ tests, t.Legible) : ∃ items,
    Reads I db ("CASE " ++ " ".intercalate (Division.whenClauses 1 (toConditions tests)) ++ " END")
      ((toConditions tests).flatMap (·.parameters)) items ∧
    distinctCount I (.word "DISTINCT" :: items) =
      some fun group => (group.filterMap (Test.firstPassed I tests)).dedup.length := by
  have operand : ∀ x ∈ tests.zipIdx 1, IsOperand I db x.1.toCondition fun e => x.1.truth I e := fun x mem =>
    operandEach tests legible x.1 (List.fst_mem_of_mem_zipIdx mem)
  have each : ∀ x ∈ tests.zipIdx 1, _ := fun x mem => whenReads (operand x mem) x.2
  choose! items reads cases free using each
  have start : Reads I db "CASE " [] [.word "CASE"] := .plain ["CASE"] rfl rfl
  have last : Reads I db " END" [] [.word "END"] := .plain ["END"] rfl rfl
  have whole := (start.append (.intercalate blankGlue reads) (.inr rfl)).append last (.inl rfl)
  have parameters : ((tests.zipIdx 1).flatMap fun x => x.1.toCondition.parameters) =
      (toConditions tests).flatMap (·.parameters) := by
    rw [toConditionsMap, List.flatMap_map]
    conv_rhs => rw [← List.zipIdx_map_fst 1 tests, List.flatMap_map]
  have split := @splitLed _ _ (·.is "WHEN") (.word "WHEN") [] (tests.zipIdx 1) items rfl (by simp) free
  have read : cases? I (.word "CASE" :: ((tests.zipIdx 1).flatMap (fun x => .word "WHEN" :: items x) ++ [.word "END"])) =
      some ((tests.zipIdx 1).map fun x => ⟨fun e => x.1.truth I e, x.2⟩) := by
    have ends : (Item.word "END" : Item V).is "END" = true := rfl
    rw [List.nil_append] at split
    simp [cases?, keywordTaken, split, mapMGiven cases, ends]
  rw [← Division.whenClausesNumbered, parameters, List.nil_append, List.append_nil, List.map_nil, intercalateFlat,
    ← List.flatMap_def, List.singleton_append, List.cons_append] at whole
  refine ⟨_, whole, ?_⟩
  have several : ∃ i rest, (tests.zipIdx 1).flatMap (fun x => .word "WHEN" :: items x) ++ [.word "END"] = i :: rest :=
    List.exists_cons_of_ne_nil (by simp)
  obtain ⟨i, rest, same⟩ := several
  rw [same] at read ⊢
  have counted : distinctCount I (.word "DISTINCT" :: .word "CASE" :: i :: rest) =
      (cases? I (.word "CASE" :: i :: rest)).bind fun cases =>
        some fun group => (group.filterMap (firstCase cases)).dedup.length := by
    rw [distinctCount, keywordTaken]
    rfl
  have first : firstCase ((tests.zipIdx 1).map fun x => ⟨fun e => x.1.truth I e, x.2⟩) = Test.firstPassed I tests :=
    funext (firstCasePassed tests 1)
  rw [counted, read, ← first]
  rfl

theorem Division.reads {d : Division} (legible : d.Legible) : ∃ items,
    Reads I db d.toCondition.sql d.toCondition.parameters items ∧
    having? I items = some (fun group => decide (d.Holds I group)) ∧ ∀ i ∈ items, i.startsClause = false := by
  obtain ⟨tally, required⟩ := d
  cases tally with
  | values c =>
    have column : c.Legible := legible
    rw [valuesText]
    exact havingReads column.reads (by simp [distinctCount, keywordTaken, column.read]) required
  | «matches» tests =>
    obtain ⟨items, reads, count⟩ := @Test.casesRead V _ l I db tests legible
    rw [matchesText]
    exact havingReads reads count required

namespace SqlText

def kindWords : JoinKind → List String
  | .inner => ["JOIN"]
  | .left => ["LEFT", "JOIN"]

def equationItems (e : Equation) : List (Item V) := [.word e.left.text, .word "=", .word e.right.text]

def joinItems (j : Join) : List (Item V) :=
  (kindWords j.kind).map .word ++ [.word j.table, .word j.tableAlias.text, .word "ON"] ++
    [Item.word "AND"].intercalate (j.on.map equationItems)

theorem equationReads {e : Equation} (left : e.left.Legible) (right : e.right.Legible) :
    Reads I db e.text [] (equationItems e) := by
  have equals : Glue " = " ["="] := {}
  exact left.reads.between equals right.reads

theorem joinReads {j : Join} (legible : j.Legible) : Reads I db (" " ++ j.toSql.sql) [] (joinItems j) := by
  obtain ⟨name, tableAlias, kind, on⟩ := j
  obtain ⟨i, rfl⟩ := legible.numbered
  have keyword : Reads I db (" " ++ kind.keyword) [] ((kindWords kind).map .word) := by
    cases kind
    · exact .plain ["JOIN"] rfl rfl
    · exact .plain ["LEFT", "JOIN"] rfl rfl
  have condition : Glue " ON " ["ON"] := {}
  have table : Reads I db name [] [.word name] := .whole legible.table.whole
  have joined : Reads I db (Alias.numbered i).text [] [.word (Alias.numbered i).text] :=
    .whole (Alias.nameNumbered i).whole
  have equations : ∀ e ∈ on, Reads I db e.text [] (equationItems e) := fun e mem =>
    equationReads (legible.columns e mem).1 (legible.columns e mem).2
  have matched := Reads.intercalate (separatorGlue .and) equations
  have whole := ((keyword.between blankGlue table).between blankGlue joined).between condition matched
  have none : (on.flatMap fun _ => ([] : List BoundParameter)) = [] := by simp
  have text : " " ++ kind.keyword ++ " " ++ name ++ " " ++ (Alias.numbered i).text ++ " ON " ++
      Connective.and.separator.intercalate (on.map Equation.text) =
        " " ++ (Join.toSql ⟨name, .numbered i, kind, on⟩).sql := by
    rw [← String.toList_inj]
    simp [Sql.Join.sql, Join.toSql, Connective.separator]
  rw [text, none] at whole
  simpa [joinItems, connectiveWord] using whole

omit [DecidableEq V] in
theorem joinsAnd {j : Join} {laid : List Join} {b c d : String} {rest : List (Item V)} :
    joinsAfter (j :: laid) (.word "AND" :: .word b :: .word c :: .word d :: rest) =
      (equation? b c d).bind fun e => joinsAfter ({ j with on := j.on ++ [e] } :: laid) rest := by
  rw [joinsAfter.eq_def]
  rfl

omit [DecidableEq V] in
theorem joinsInner {laid : List Join} {table name x o y : String} {rest : List (Item V)} :
    joinsAfter laid (.word "JOIN" :: .word table :: .word name :: .word "ON" :: .word x :: .word o :: .word y :: rest) =
      (equation? x o y).bind fun e => joinsAfter (⟨table, .ofText name, .inner, [e]⟩ :: laid) rest := by
  rw [joinsAfter.eq_def]
  rfl

omit [DecidableEq V] in
theorem joinsLeft {laid : List Join} {table name x o y : String} {rest : List (Item V)} :
    joinsAfter laid (.word "LEFT" :: .word "JOIN" :: .word table :: .word name :: .word "ON" :: .word x :: .word o ::
      .word y :: rest) = (equation? x o y).bind fun e => joinsAfter (⟨table, .ofText name, .left, [e]⟩ :: laid) rest := by
  rw [joinsAfter.eq_def]
  rfl

omit [DecidableEq V] in
theorem joinsEnd {laid : List Join} {rest : List (Item V)} (later : rest.head?.all Item.startsClause = true) :
    joinsAfter laid rest = some (laid.reverse, rest) := by
  rw [joinsAfter.eq_def]
  split
  · next a b c d rest =>
    have start : a ∈ clauseWords := by simpa [Item.startsClause, Item.is] using later
    have others : ∀ w ∈ clauseWords, w ≠ "AND" ∧ w ≠ "JOIN" ∧ w ≠ "LEFT" := by decide
    simp [others a start]
  · rfl

omit [DecidableEq V] in
theorem equationRead {e : Equation} (left : e.left.Legible) (right : e.right.Legible) :
    equation? e.left.text "=" e.right.text = some e := by
  simp [equation?, left.read, right.read]

omit [DecidableEq V] in
theorem equationsRead {j : Join} {laid : List Join} {es : List Equation} {rest : List (Item V)}
    (legible : ∀ e ∈ es, e.left.Legible ∧ e.right.Legible) :
    joinsAfter (j :: laid) ((es.flatMap fun e => .word "AND" :: equationItems e) ++ rest) =
      joinsAfter ({ j with on := j.on ++ es } :: laid) rest := by
  induction es generalizing j with
  | nil => simp
  | cons e es ih =>
    obtain ⟨⟨left, right⟩, others⟩ := List.forall_mem_cons.mp legible
    rw [List.flatMap_cons, List.append_assoc]
    change joinsAfter (j :: laid) (.word "AND" :: .word _ :: .word "=" :: .word _ :: (_ ++ rest)) = _
    rw [joinsAnd, equationRead left right, Option.bind_some, ih others, List.append_assoc, List.singleton_append]

omit [DecidableEq V] in
theorem joinRead {j : Join} (legible : j.Legible) {laid : List Join} {rest : List (Item V)} :
    joinsAfter laid (joinItems j ++ rest) = joinsAfter (j :: laid) rest := by
  obtain ⟨table, name, kind, on⟩ := j
  obtain ⟨i, rfl⟩ := legible.numbered
  obtain ⟨e, es, rfl⟩ := List.exists_cons_of_ne_nil legible.matched
  obtain ⟨⟨left, right⟩, others⟩ := List.forall_mem_cons.mp legible.columns
  rw [joinItems, intercalateLed]
  cases kind with
  | inner =>
    change joinsAfter laid (.word "JOIN" :: .word table :: .word _ :: .word "ON" :: .word _ :: .word "=" :: .word _ ::
      (_ ++ rest)) = _
    rw [joinsInner, equationRead left right, Option.bind_some]
    refine (equationsRead others).trans ?_
    rw [Alias.ofTextNumbered]
    rfl
  | left =>
    change joinsAfter laid (.word "LEFT" :: .word "JOIN" :: .word table :: .word _ :: .word "ON" :: .word _ ::
      .word "=" :: .word _ :: (_ ++ rest)) = _
    rw [joinsLeft, equationRead left right, Option.bind_some]
    refine (equationsRead others).trans ?_
    rw [Alias.ofTextNumbered]
    rfl

omit [DecidableEq V] in
theorem joinsRead {laid joins : List Join} {rest : List (Item V)} (legible : ∀ j ∈ joins, j.Legible)
    (later : rest.head?.all Item.startsClause = true) :
    joinsAfter laid (joins.flatMap joinItems ++ rest) = some (laid.reverse ++ joins, rest) := by
  induction joins generalizing laid with
  | nil => simpa using joinsEnd later
  | cons j joins ih =>
    obtain ⟨first, others⟩ := List.forall_mem_cons.mp legible
    rw [List.flatMap_cons, List.append_assoc, joinRead first, ih others]
    simp

def clauseItems (w : String) : Option (List (Item V)) → List (Item V)
  | none => []
  | some items => .word w :: items

def IsClause {α : Type} (I : Interpretation V) (db : Store l V) (w : String) (read? : List (Item V) → Option α)
    (text : String) (parameters : List BoundParameter) (meaning : Option α) : Prop :=
  ∃ content, Reads I db text parameters (clauseItems w content) ∧ startsApart text = true ∧
    inClause read? content = some meaning ∧ ∀ items ∈ content, ∀ i ∈ items, i.startsClause = false

section
variable {α : Type} {w text : String} {ws : List String} {read? : List (Item V) → Option α} {ps : List BoundParameter}
  {items : List (Item V)} {x : α}

theorem noClause : IsClause I db w read? "" [] none :=
  ⟨none, .nil, rfl, rfl, by simp⟩

theorem isClause (glue : Glue g (w :: ws)) (reads : Reads I db text ps items)
    (read : read? (ws.map .word ++ items) = some x) (free : ∀ i ∈ ws.map .word ++ items, i.startsClause = false) :
    IsClause I db w read? (g ++ text) ps (some x) := by
  have start : Reads I db g [] ((w :: ws).map .word) := .plain _ glue.words glue.closed glue.plain
  refine ⟨some (ws.map .word ++ items), ?_, ?_, ?_, ?_⟩
  · simpa [clauseItems] using start.append reads (.inr glue.ends)
  · exact (startsApartAppend _ glue.some).trans glue.starts
  · simp [inClause, read]
  · simpa using free

omit [DecidableEq V] in
theorem clauseRead {content : Option (List (Item V))} {rest : List (Item V)}
    (free : ∀ items ∈ content, ∀ i ∈ items, i.startsClause = false)
    (later : rest.head?.all (fun i => i.startsClause && !i.is w) = true) :
    clause w (clauseItems w content ++ rest) = (content, rest) := by
  cases content with
  | none =>
    cases rest with
    | nil => rfl
    | cons i rest =>
      have other : i.is w = false := by simpa using (Bool.and_eq_true_iff.mp later).2
      simp [clauseItems, clause, keyword?, other]
  | some items =>
    have free : ∀ i ∈ items, (!i.startsClause) = true := fun i mem => by simp [free items rfl i mem]
    have ends : rest.takeWhile (fun i => !i.startsClause) = [] ∧ rest.dropWhile (fun i => !i.startsClause) = rest := by
      cases rest with
      | nil => exact ⟨rfl, rfl⟩
      | cons i rest =>
        have starts : i.startsClause = true := (Bool.and_eq_true_iff.mp later).1
        simp [starts]
    rw [clauseItems, clause, List.cons_append, keywordTaken]
    simp only [List.takeWhile_append_of_pos free, List.dropWhile_append_of_pos free, ends, List.append_nil]

end

end SqlText
end
end ObjectQuery
