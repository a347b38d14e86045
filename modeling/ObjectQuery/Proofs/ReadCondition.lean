import ObjectQuery.Proofs.Calendar
import ObjectQuery.Proofs.Grouped
import ObjectQuery.Proofs.Precedence
import ObjectQuery.Proofs.TextItems

/-! Conditions, read back from their text. What is written for a test is read as a condition with the value of the
test, alone and between connectives. -/
namespace ObjectQuery
open SqlText Reading

theorem DottedName.whole {s : String} (name : DottedName s) : Whole s where
  some := name.some
  each c mem := by
    have excluded : ∀ d ∈ [' ', '(', ')', ',', '\'', '?'], c ≠ d := by
      rintro d special rfl
      have outside : ([' ', '(', ')', ',', '\'', '?'].all fun d => !isIdentifierPart d && d != '.') = true := rfl
      obtain ⟨other, dot⟩ : isIdentifierPart c = false ∧ c ≠ '.' := by simpa using List.all_eq_true.mp outside c special
      rcases name.each c mem with part | same
      · rw [other] at part
        cases part
      · exact dot same
    simp only [List.mem_cons, List.not_mem_nil, or_false, forall_eq_or_imp, forall_eq] at excluded
    simp [breaks, isMark, excluded]

theorem dottedDigits {s : String} (digits : Digits s.toList) : DottedName s where
  some empty := digits.some (by rw [empty]; rfl)
  each c mem := .inl (by simp [isIdentifierPart, Char.isAlphanum, digits.each c mem])

theorem Alias.nameNumbered (i : Nat) : DottedName (Alias.numbered i).text where
  some empty := by simp [Alias.text, String.append_eq_empty_iff] at empty
  each := by
    simp only [Alias.text, String.toList_append, List.forall_mem_append]
    exact ⟨List.forall_mem_singleton.mpr (.inl rfl), (dottedDigits (digitsNat i)).each⟩

theorem Alias.ofTextNumbered (i : Nat) : Alias.ofText (Alias.numbered i).text = .numbered i := by
  have index : Text.valueOf ((Alias.numbered i).text.toList.drop 1) = i := by
    rw [Alias.text, String.toList_append]
    exact Text.valueOfNat i
  rw [Alias.ofText, index, if_pos rfl]

namespace Column

structure Legible (c : Column) : Prop where
  numbered : ∃ i, .numbered i = c.table
  name : isIdentifier c.name = true

variable {c : Column}

theorem Legible.dottedName (legible : c.Legible) : DottedName c.text := by
  obtain ⟨i, same⟩ := legible.numbered
  rw [Column.text, ← same]
  exact (Alias.nameNumbered i).append (dottedIdentifier legible.name)

theorem Legible.read (legible : c.Legible) : Column.ofText? c.text = some c := by
  obtain ⟨table, name⟩ := c
  obtain ⟨i, same⟩ := legible.numbered
  obtain rfl : .numbered i = table := same
  have undotted : ∀ d ∈ (Alias.numbered i).text.toList, decide (d ≠ '.') = true := by
    simp only [Alias.text, String.toList_append, List.forall_mem_append, decide_eq_true_eq]
    refine ⟨List.forall_mem_singleton.mpr (by decide), fun d mem => ?_⟩
    rintro rfl
    exact absurd (digitOfNat mem) (by decide)
  have text : (Column.text ⟨.numbered i, name⟩).toList = (Alias.numbered i).text.toList ++ '.' :: name.toList := by
    simp [Column.text, Sql.column]
  rw [Column.ofText?, text, List.dropWhile_append_of_pos undotted, List.takeWhile_append_of_pos undotted]
  simp [Alias.ofTextNumbered]

theorem dotted (c : Column) : '.' ∈ c.text.toList := by simp [Column.text, Sql.column]

end Column

theorem Operator.ofTextSymbol (o : Operator) : Operator.ofText? o.symbol = some o := by cases o <;> rfl

theorem Operator.symbolWhole (o : Operator) : Whole o.symbol := by
  cases o <;> exact .checked (by decide) rfl

namespace SqlText

variable {V : Type}

theorem numberRead (n : Nat) : number? (toString n) = some n := by
  rw [number?, Text.valueOfNat]
  exact if_pos rfl

theorem integerRead (i : Int) : integer (toString i).toList = i := by
  rw [Int.toString_eq_repr]
  cases i with
  | ofNat n =>
    have unsigned : (toString n).toList.head? ≠ some '-' := fun start =>
      (digitsNat n).unsigned (List.mem_of_head? start)
    change integer (toString n).toList = n
    rw [integer, if_neg unsigned, Text.valueOfNat]
  | negSucc n =>
    have text : (Int.negSucc n).repr.toList = '-' :: (toString (n + 1)).toList := by simp [Int.repr]
    rw [text, integer, List.head?_cons, if_pos rfl, List.drop_one, List.tail_cons, Text.valueOfNat]
    rfl

theorem integerWhole (i : Int) : Whole (toString i) := by
  obtain ⟨digits, isNumber, text⟩ := numberText i
  have each : ∀ c ∈ digits, breaks c = false ∧ c ≠ '\'' ∧ c ≠ '?' := by
    have whole := (dottedDigits (s := String.ofList digits) (by rwa [String.toList_ofList])).whole.each
    rwa [String.toList_ofList] at whole
  rcases text with plain | signed
  · exact ⟨fun empty => isNumber.some (by rw [← plain, empty]; rfl), plain ▸ each⟩
  · refine ⟨fun empty => ?_, ?_⟩
    · rw [empty] at signed
      cases signed
    rw [signed]
    exact List.forall_mem_cons.mpr ⟨by decide, each⟩

theorem typeIdRead (id : Int32) : typeId? (V := V) [.word (toString id.toInt)] = some id := by
  rw [typeId?, integerRead, Int32.ofInt_toInt]
  exact if_pos rfl

theorem literalRead {s : String} (free : '\'' ∉ s.toList) : literal? ("'" ++ s ++ "'") = some s := by
  have text : ("'" ++ s ++ "'").toList = '\'' :: (s.toList ++ ['\'']) := by simp
  have inside : ((("'" ++ s ++ "'").toList.drop 1).dropLast) = s.toList := by rw [text]; simp
  rw [literal?, inside, if_pos ⟨text, free⟩, String.ofList_toList]

def reserved : List String := ["AND", "OR", "WHEN", "THEN"] ++ clauseWords

def Item.isReserved (i : Item V) : Bool := reserved.any i.is

theorem otherWord {s w : String} {c : Char} (mem : c ∈ s.toList) (foreign : c ∉ w.toList) :
    (Item.word s : Item V).is w = false := by
  refine beq_false_of_ne ?_
  rintro rfl
  exact foreign mem

theorem unreserved {s : String} {c : Char} (mem : c ∈ s.toList) (foreign : ∀ w ∈ reserved, c ∉ w.toList := by decide) :
    (Item.word s : Item V).isReserved = false := by
  rw [Item.isReserved, List.any_eq_false]
  intro w inside
  simp [otherWord mem (foreign w inside)]

theorem wordsUnreserved {ws : List String} (foreign : ∀ w ∈ ws, w ∉ reserved := by decide) :
    ∀ i ∈ ws.map Item.word, (i : Item V).isReserved = false := by
  rw [List.forall_mem_map]
  intro w mem
  rw [Item.isReserved, List.any_eq_false]
  intro v inside same
  obtain rfl : w = v := by simpa [Item.is] using same
  exact foreign w mem inside

theorem groupUnreserved (inside : List (Item V)) (t rows) : (Item.group inside t rows).isReserved = false := rfl

theorem holeUnreserved (p : BoundParameter) : (Item.hole p : Item V).isReserved = false := rfl

theorem isUnreserved {i : Item V} {w : String} (unreserved : i.isReserved = false)
    (mem : w ∈ reserved := by decide) : i.is w = false := by
  simpa using List.any_eq_false.mp unreserved w mem

theorem startsNoClause {i : Item V} (unreserved : i.isReserved = false) : i.startsClause = false := by
  rw [Item.isReserved, reserved, List.any_append, Bool.or_eq_false_iff] at unreserved
  exact unreserved.2

variable [DecidableEq V] {l : Layout} (I : Interpretation V) (db : Store l V)

def IsOperand (c : Condition) (t : Joined V → Truth) : Prop :=
  ∃ items, Reads I db c.sql c.parameters items ∧ operand? I items = some t ∧ ∀ i ∈ items, i.isReserved = false

variable {I db}

def connectiveWord : Connective → String
  | .and => "AND"
  | .or => "OR"

theorem separatorGlue (c : Connective) : Glue c.separator [connectiveWord c] := by
  cases c <;> exact {}

omit [DecidableEq V] in
theorem wordsApart {w : String} (whole : Whole w) : ∀ i ∈ [Item.word w], (i : Item V).is "," = false := by
  refine List.forall_mem_singleton.mpr (beq_false_of_ne ?_)
  rintro rfl
  exact absurd (whole.each ',' (by simp)).1 (by decide)

omit [DecidableEq V] in
theorem listedRead {α ι : Type} {item? : List (Item V) → Option α} {ts : List ι} {items : ι → List (Item V)} {x : ι → α}
    (some : ts ≠ []) (each : ∀ t ∈ ts, item? (items t) = .some (x t)) (apart : ∀ t ∈ ts, ∀ i ∈ items t, i.is "," = false) :
    listed item? ([Item.word ","].intercalate (ts.map items)) = .some (ts.map x) := by
  rw [listed, splitIntercalated rfl some apart, mapMGiven each]

theorem allOne (t : Truth) : Truth.all [t] = t := Connective.and.truthSingle t

theorem anyOne (t : Truth) : Truth.any [t] = t := Connective.or.truthSingle t

variable {ι : Type} {ts : List ι} {items : ι → List (Item V)} {T : ι → Joined V → Truth}

theorem conditionConnected {c : Connective} (some : ts ≠ [])
    (each : ∀ t ∈ ts, operand? I (items t) = .some (T t)) (free : ∀ t ∈ ts, ∀ i ∈ items t, i.isReserved = false) :
    condition? I ([Item.word (connectiveWord c)].intercalate (ts.map items)) =
      .some fun e => c.truth (ts.map fun t => T t e) := by
  -- under `AND` the whole is one operand of `OR`, under `OR` each part is one conjunction
  cases c with
  | and =>
    have apart : ∀ i ∈ [Item.word "AND"].intercalate (ts.map items), i.is "OR" = false := by
      intro i mem
      rcases intercalatedMem mem with rfl | ⟨t, inside, mem⟩
      · rfl
      · exact isUnreserved (free t inside i mem)
    have split : ([Item.word "AND"].intercalate (ts.map items)).splitOnP (·.is "AND") = ts.map items :=
      splitIntercalated rfl some fun t inside i mem => isUnreserved (free t inside i mem)
    have joined : conjunction? I ([Item.word "AND"].intercalate (ts.map items)) =
        .some fun e => .all (ts.map fun t => T t e) := by
      simp [conjunction?, split, mapMGiven each, Function.comp_def]
    change condition? I ([Item.word "AND"].intercalate (ts.map items)) = _
    rw [condition?, List.splitOnP_eq_singleton (by simpa using apart)]
    simp [joined, anyOne, Connective.truth]
  | or =>
    have split : ([Item.word "OR"].intercalate (ts.map items)).splitOnP (·.is "OR") = ts.map items :=
      splitIntercalated rfl some fun t inside i mem => isUnreserved (free t inside i mem)
    have alone : ∀ t ∈ ts, conjunction? I (items t) = .some (T t) := by
      intro t mem
      have apart : ∀ i ∈ items t, i.is "AND" = false := fun i inside => isUnreserved (free t mem i inside)
      rw [conjunction?, List.splitOnP_eq_singleton (by simpa using apart)]
      simp [each t mem, allOne]
    change condition? I ([Item.word "OR"].intercalate (ts.map items)) = _
    rw [condition?, split]
    simp [mapMGiven alone, Function.comp_def, Connective.truth]

theorem connectedReads {c : Connective} {text : ι → Condition} (some : ts ≠ [])
    (each : ∀ t ∈ ts, IsOperand I db (text t) (T t)) : ∃ items,
      Reads I db (c.separator.intercalate (ts.map fun t => (text t).sql)) (ts.flatMap fun t => (text t).parameters) items ∧
      condition? I items = .some (fun e => c.truth (ts.map fun t => T t e)) ∧
      ∀ i ∈ items, i.startsClause = false := by
  choose! items reads operand free using each
  refine ⟨_, Reads.intercalate (separatorGlue c) reads, conditionConnected some operand free, fun i mem => ?_⟩
  rcases intercalatedMem mem with rfl | ⟨t, inside, mem⟩
  · cases c <;> rfl
  · exact startsNoClause (free t inside i mem)

theorem groupOperand {c : Connective} {text : ι → Condition} (some : ts ≠ [])
    (each : ∀ t ∈ ts, IsOperand I db (text t) (T t)) :
    IsOperand I db (.group c.separator (ts.map text)) fun e => c.truth (ts.map fun t => T t e) := by
  match ts with
  | [] => exact absurd rfl some
  | [t] =>
    have single : (fun e => c.truth ([t].map fun t => T t e)) = T t := funext fun e => c.truthSingle (T t e)
    rw [single]
    exact each t List.mem_cons_self
  | t :: u :: rest =>
    obtain ⟨items, reads, condition, _⟩ := connectedReads (c := c) some each
    have text : (Condition.group c.separator ((t :: u :: rest).map text)) =
        ⟨"(" ++ c.separator.intercalate ((t :: u :: rest).map fun t => (text t).sql) ++ ")",
          (t :: u :: rest).flatMap fun t => (text t).parameters⟩ := by
      simp [Condition.group, Function.comp_def, List.flatMap_map]
    rw [text]
    exact ⟨_, reads.group, condition, by simp [groupUnreserved]⟩

end SqlText

theorem Column.unreserved {V : Type} (c : Column) : (Item.word c.text : Item V).isReserved = false :=
  SqlText.unreserved c.dotted

def Test.Legible : Test → Prop := Test.WrittenWith Column.Legible fun pattern => '\'' ∉ pattern.toList

section
variable {V : Type} [DecidableEq V] {l : Layout} {I : Interpretation V} {db : Store l V}

theorem Column.Legible.reads {c : Column} (legible : c.Legible) : Reads I db c.text [] [.word c.text] :=
  .whole legible.dottedName.whole

namespace Test

theorem neverOperand : IsOperand I db (toCondition .never) fun e => Test.never.truth I e :=
  ⟨_, .plain ["1", "=", "0"] rfl rfl, rfl, wordsUnreserved⟩

theorem isNullOperand {c : Column} (legible : c.Legible) :
    IsOperand I db (toCondition (.isNull c)) fun e => (Test.isNull c).truth I e := by
  have missing : Reads I db " IS NULL" [] [.word "IS", .word "NULL"] := .plain ["IS", "NULL"] rfl rfl
  refine ⟨_, legible.reads.append missing (.inl rfl), ?_, ?_⟩
  · simp [operand?, wordTest, legible.read]
  · exact List.forall_mem_cons.mpr ⟨c.unreserved, @wordsUnreserved _ ["IS", "NULL"] (by decide)⟩

theorem compareOperand {c : Column} (legible : c.Legible) (o : Operator) (p : BoundParameter) :
    IsOperand I db (toCondition (.compare c o p)) fun e => (Test.compare c o p).truth I e := by
  have symbol : Reads I db o.symbol [] [.word o.symbol] := .whole o.symbolWhole
  have reads := (legible.reads.between blankGlue symbol).between blankGlue (.hole p)
  have text : toCondition (.compare c o p) = ⟨c.text ++ " " ++ o.symbol ++ " " ++ "?", [p]⟩ := by
    simp [toCondition, Condition.binary, String.append_assoc]
  rw [text]
  refine ⟨_, reads, ?_, ?_⟩
  · simp [operand?, comparison, legible.read, o.ofTextSymbol]
  · have operator : (Item.word o.symbol : Item V).isReserved = false := by cases o <;> rfl
    simp [c.unreserved, operator, holeUnreserved]

theorem pathOperand {c : Column} (legible : c.Legible) {pattern : String} (free : '\'' ∉ pattern.toList) :
    IsOperand I db (toCondition (.pathMatches c pattern)) fun e => (Test.pathMatches c pattern).truth I e := by
  have tilde : Glue " ~ " ["~"] := {}
  have text : c.text ++ " ~ '" ++ pattern ++ "'" = c.text ++ " ~ " ++ ("'" ++ pattern ++ "'") := by
    rw [← String.toList_inj]
    simp
  rw [toCondition, text]
  refine ⟨_, legible.reads.between tilde (.quoted free), ?_, ?_⟩
  · simp [operand?, wordTest, legible.read, literalRead free]
  · have literal : (Item.word ("'" ++ pattern ++ "'") : Item V).isReserved = false := unreserved (c := '\'') (by simp)
    exact List.forall_mem_cons.mpr ⟨c.unreserved, List.forall_mem_cons.mpr ⟨rfl, List.forall_mem_singleton.mpr literal⟩⟩

theorem typeAmongOperand {c : Column} (legible : c.Legible) {ids : List Int32} (some : ids ≠ []) :
    IsOperand I db (toCondition (.typeAmong c ids)) fun e => (Test.typeAmong c ids).truth I e := by
  have inside : Reads I db (typeList ids) [] ([Item.word ","].intercalate (ids.map fun id => [.word (toString id.toInt)])) := by
    have whole : ∀ id ∈ ids, Reads I db (toString id.toInt) [] [.word (toString id.toInt)] := fun id _ =>
      .whole (integerWhole id.toInt)
    have each := Reads.intercalate commaGlue whole
    have none : (ids.flatMap fun _ => ([] : List BoundParameter)) = [] := by simp
    rwa [none] at each
  have text : toCondition (.typeAmong c ids) = ⟨c.text ++ " IN " ++ ("(" ++ typeList ids ++ ")"), []⟩ := by
    simp only [toCondition, Condition.raw, typeList, Condition.mk.injEq, and_true]
    rw [← String.toList_inj]
    simp
  have ids : listed (V := V) typeId? ([Item.word ","].intercalate (ids.map fun id => [.word (toString id.toInt)])) =
      .some ids := by
    rw [listedRead some (fun id _ => typeIdRead id) fun id _ => wordsApart (integerWhole id.toInt), List.map_id']
  rw [text]
  refine ⟨_, legible.reads.between amongGlue inside.group, ?_, ?_⟩
  · change typeTest I c.text "IN" _ = _
    rw [typeTest, if_pos rfl, legible.read, ids]
    rfl
  · exact List.forall_mem_cons.mpr ⟨c.unreserved, List.forall_mem_cons.mpr ⟨rfl, List.forall_mem_singleton.mpr rfl⟩⟩

mutual
theorem operand : (t : Test) → t.Legible → IsOperand I db t.toCondition fun e => t.truth I e
  | .never, _ => neverOperand
  | .typeAmong _ _, legible => by cases legible.grouped
  | .isNull _, legible => isNullOperand (legible.on rfl)
  | .compare _ o p, legible => compareOperand (legible.on rfl) o p
  | .pathMatches _ _, legible => pathOperand (legible.on rfl) (legible.patterns _ _ (List.mem_singleton_self _))
  | .all ts, legible => by
    obtain ⟨some, each⟩ := legible.each rfl groupedAll
    have text : toCondition (.all ts) = .group Connective.and.separator (ts.map toCondition) :=
      congrArg Condition.all (toConditionsMap ts)
    have value : (fun e => truth I e (.all ts)) = fun e => Connective.and.truth (ts.map fun t => t.truth I e) :=
      funext fun e => congrArg Truth.all (truthsMap I e ts)
    exact text ▸ value ▸ groupOperand some (operandEach ts each)
  | .any ts, legible => by
    obtain ⟨some, each⟩ := legible.each rfl groupedAny
    have text : toCondition (.any ts) = .group Connective.or.separator (ts.map toCondition) :=
      congrArg Condition.any (toConditionsMap ts)
    have value : (fun e => truth I e (.any ts)) = fun e => Connective.or.truth (ts.map fun t => t.truth I e) :=
      funext fun e => congrArg Truth.any (truthsMap I e ts)
    exact text ▸ value ▸ groupOperand some (operandEach ts each)
theorem operandEach : (ts : List Test) → (∀ t ∈ ts, t.Legible) →
    ∀ t ∈ ts, IsOperand I db t.toCondition fun e => t.truth I e
  | [], _ => List.forall_mem_nil _
  | t :: ts, legible => List.forall_mem_cons.mpr ⟨operand t (legible t List.mem_cons_self),
      operandEach ts fun s mem => legible s (List.mem_cons_of_mem _ mem)⟩
end

end Test
end
end ObjectQuery
