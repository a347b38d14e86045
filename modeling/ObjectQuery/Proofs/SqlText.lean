import Mathlib.Data.List.Sort
import ObjectQuery.Compile.SortOrder
import ObjectQuery.Proofs.Store
import ObjectQuery.Text.Numeral

/-! SQL text as SQL reads it, over a store. A text is taken apart into words; what stands between parentheses is a
list, a condition or a query, whichever its place asks for. Only the text and its parameters are looked at. -/
namespace ObjectQuery

variable {V : Type}

abbrev Record (V : Type) := List (Option V)

def Alias.ofText (text : String) : Alias :=
  let index := Text.valueOf (text.toList.drop 1)
  if (Alias.numbered index).text = text then .numbered index else .named text

def Column.ofText? (text : String) : Option Column :=
  match text.toList.dropWhile (· ≠ '.') with
  | [] => none
  | _ :: name => some ⟨.ofText (String.ofList (text.toList.takeWhile (· ≠ '.'))), String.ofList name⟩

def Operator.ofText? (text : String) : Option Operator :=
  [.eq, .ne, .gt, .ge, .lt, .le, .matches, .notMatches].find? fun o : Operator => o.symbol = text

def SetOperator.ofText? (text : String) : Option SetOperator :=
  [.intersect, .union, .except].find? fun o : SetOperator => o.keyword = text

def Direction.ofText? (text : String) : Option Direction :=
  [.ascending, .descending].find? fun d : Direction => d.toSql.keyword = text

def Direction.apply : Direction → Ordering → Ordering
  | .ascending, o => o
  | .descending, o => o.swap

namespace Truth

def equal [DecidableEq V] : Option V → Option V → Truth
  | some v, some w => some (decide (v = w))
  | _, _ => none

def among [DecidableEq V] (record : Record V) (records : List (Record V)) : Truth :=
  any (records.map fun other => all (List.zipWith equal record other))

end Truth

namespace SqlText

def isMark (c : Char) : Bool := c == '(' || c == ')' || c == ','

def ended (word : List Char) : List String := if word.isEmpty then [] else [String.ofList word]

def wordsFrom (quoted : Bool) (word : List Char) : List Char → List String
  | [] => ended word
  | c :: rest =>
    if c = '\'' then wordsFrom (!quoted) (word ++ [c]) rest
    -- nothing in a literal ends the word
    else if quoted then wordsFrom quoted (word ++ [c]) rest
    else if c = ' ' then ended word ++ wordsFrom false [] rest
    else if isMark c then ended word ++ String.ofList [c] :: wordsFrom false [] rest
    else wordsFrom false (word ++ [c]) rest

def words (text : String) : List String := wordsFrom false [] text.toList

inductive Item (V : Type) where
  | word (word : String)
  | hole (parameter : BoundParameter)
  | group (inside : List (Item V)) (condition : Option (Joined V → Truth)) (rows : Option (List (Record V)))

def Item.is (w : String) : Item V → Bool
  | .word v => v == w
  | _ => false

def keyword? (w : String) : List (Item V) → Option (List (Item V))
  | [] => none
  | i :: rest => if i.is w then some rest else none

def listed {α : Type} (item? : List (Item V) → Option α) (items : List (Item V)) : Option (List α) :=
  (items.splitOnP (·.is ",")).mapM item?

def listedBy? {α : Type} (item? : List (Item V) → Option α) (items : List (Item V)) : Option (List α) := do
  listed item? (← keyword? "BY" items)

def number? (w : String) : Option Nat :=
  let n := Text.valueOf w.toList
  if toString n = w then some n else none

def literal? (w : String) : Option String :=
  let inside := (w.toList.drop 1).dropLast
  if w.toList = '\'' :: (inside ++ ['\'']) ∧ '\'' ∉ inside then some (String.ofList inside) else none

def integer (w : List Char) : Int :=
  if w.head? = some '-' then -Text.valueOf (w.drop 1) else Text.valueOf w

def typeId? : List (Item V) → Option Int32
  | [.word w] =>
    let id := Int32.ofInt (integer w.toList)
    if toString id.toInt = w then some id else none
  | _ => none

def column? : List (Item V) → Option Column
  | [.word w] => Column.ofText? w
  | _ => none

def equation? (left equals right : String) : Option Equation :=
  if equals = "=" then do some ⟨← Column.ofText? left, ← Column.ofText? right⟩ else none

section
variable [DecidableEq V] (I : Interpretation V)

def comparison (left operator : String) (p : BoundParameter) : Option (Joined V → Truth) := do
  let test := Test.compare (← Column.ofText? left) (← Operator.ofText? operator) p
  some fun e => test.truth I e

def wordTest (left operator right : String) : Option (Joined V → Truth) :=
  if operator = "IS" ∧ right = "NULL" then do
    let test := Test.isNull (← Column.ofText? left)
    some fun e => test.truth I e
  else if operator = "~" then do
    let test := Test.pathMatches (← Column.ofText? left) (← literal? right)
    some fun e => test.truth I e
  else if operator = "=" then do
    let same := decide ((← number? left) = (← number? right))
    some fun _ => some same
  else none

def typeTest (left operator : String) (inside : List (Item V)) : Option (Joined V → Truth) :=
  if operator = "IN" then do
    let test := Test.typeAmong (← Column.ofText? left) (← listed typeId? inside)
    some fun e => test.truth I e
  else none

def membership (shown : List (Item V)) (operator : String) (rows : Option (List (Record V))) :
    Option (Joined V → Truth) :=
  if operator = "IN" then do
    let columns ← listed column? shown
    let records ← rows
    some fun e => .among (columns.map (·.read e)) records
  else none

def operand? : List (Item V) → Option (Joined V → Truth)
  | [.group _ condition _] => condition
  | [.word left, .word operator, .hole p] => comparison I left operator p
  | [.word left, .word operator, .word right] => wordTest I left operator right
  | [.word left, .word operator, .group inside _ _] => typeTest I left operator inside
  | [.group shown _ _, .word operator, .group _ _ rows] => membership shown operator rows
  | _ => none

def conjunction? (items : List (Item V)) : Option (Joined V → Truth) := do
  let operands ← (items.splitOnP (·.is "AND")).mapM (operand? I)
  some fun e => .all (operands.map fun t => t e)

def condition? (items : List (Item V)) : Option (Joined V → Truth) := do
  let conjunctions ← (items.splitOnP (·.is "OR")).mapM (conjunction? I)
  some fun e => .any (conjunctions.map fun t => t e)

structure Case (V : Type) where
  condition : Joined V → Truth
  value : Nat

def case? (items : List (Item V)) : Option (Case V) :=
  match items.splitOnP (·.is "THEN") with
  | [tested, [.word n]] => do some ⟨← condition? I tested, ← number? n⟩
  | _ => none

def cases? (items : List (Item V)) : Option (List (Case V)) := do
  let inside ← keyword? "CASE" items
  match inside.getLast?, inside.dropLast.splitOnP (·.is "WHEN") with
  | some last, [] :: cases => if last.is "END" then cases.mapM (case? I) else none
  | _, _ => none

def firstCase (cases : List (Case V)) (e : Joined V) : Option Nat :=
  (cases.find? fun c => c.condition e = some true).map (·.value)

def distinctCount (items : List (Item V)) : Option (List (Joined V) → Nat) := do
  match ← keyword? "DISTINCT" items with
  | [.word c] => do
    let column ← Column.ofText? c
    some fun group => (group.filterMap column.read).dedup.length
  | items => do
    let cases ← cases? I items
    some fun group => (group.filterMap (firstCase cases)).dedup.length

def having? : List (Item V) → Option (List (Joined V) → Bool)
  | [.word call, .group inside _ _, .word atLeast, .word bound] =>
    if call = "COUNT" ∧ atLeast = ">=" then do
      let count ← distinctCount I inside
      let least ← number? bound
      some fun group => decide (least ≤ count group)
    else none
  | _ => none

end

inductive Shown where
  | columns (columns : List Column)
  | count (column : Column)

def shown? : List (Item V) → Option Shown
  | [.word call, .group inside _ _] =>
    if call = "COUNT" then do some (.count (← column? (← keyword? "DISTINCT" inside))) else none
  | items => do some (.columns (← listed column? items))

def sortColumn? : List (Item V) → Option SortColumn
  | [.word c, .word d] => do some ⟨← Column.ofText? c, ← Direction.ofText? d⟩
  | _ => none

def count? : List (Item V) → Option Nat
  | [.word n] => number? n
  | _ => none

def joinsAfter (laid : List Join) : List (Item V) → Option (List Join × List (Item V))
  | .word a :: .word b :: .word c :: .word d :: rest =>
    if a = "AND" then
      -- one more equation of the last join
      match laid with
      | [] => none
      | j :: before => do joinsAfter ({ j with on := j.on ++ [← equation? b c d] } :: before) rest
    else if a = "JOIN" ∧ d = "ON" then
      match rest with
      | .word x :: .word o :: .word y :: rest => do
        joinsAfter (⟨b, .ofText c, .inner, [← equation? x o y]⟩ :: laid) rest
      | _ => none
    else if a = "LEFT" ∧ b = "JOIN" then
      match rest with
      | .word on :: .word x :: .word o :: .word y :: rest =>
        if on = "ON" then do joinsAfter (⟨c, .ofText d, .left, [← equation? x o y]⟩ :: laid) rest else none
      | _ => none
    else some (laid.reverse, .word a :: .word b :: .word c :: .word d :: rest)
  | items => some (laid.reverse, items)

def clauseWords : List String := ["WHERE", "GROUP", "HAVING", "ORDER", "LIMIT", "OFFSET"]

def Item.startsClause (i : Item V) : Bool := clauseWords.any i.is

def clause (w : String) (items : List (Item V)) : Option (List (Item V)) × List (Item V) :=
  match keyword? w items with
  | none => (none, items)
  | some rest => (some (rest.takeWhile fun i => !i.startsClause), rest.dropWhile fun i => !i.startsClause)

def clauses : List String → List (Item V) → List (Option (List (Item V))) × List (Item V)
  | [], items => ([], items)
  | w :: ws, items =>
    let (content, rest) := clause w items
    let (contents, rest) := clauses ws rest
    (content :: contents, rest)

def inClause {α : Type} (read? : List (Item V) → Option α) : Option (List (Item V)) → Option (Option α)
  | none => some none
  | some items => (read? items).map some

structure Statement (V : Type) where
  distinct : Bool
  shown : Shown
  table : String
  root : Alias
  joins : List Join
  condition : Option (Joined V → Truth)
  groupBy : Option (List Column)
  having : Option (List (Joined V) → Bool)
  orderBy : Option (List SortColumn)
  limit : Option Nat
  offset : Option Nat

structure Head (V : Type) where
  distinct : Bool
  shown : Shown
  table : String
  root : Alias
  joins : List Join
  rest : List (Item V)

def head? (items : List (Item V)) : Option (Head V) := do
  let items ← keyword? "SELECT" items
  let select := items.takeWhile fun i => !i.is "FROM"
  match items.dropWhile fun i => !i.is "FROM" with
  | _ :: .word table :: .word root :: rest => do
    let (joins, rest) ← joinsAfter [] rest
    let shown ← shown? ((keyword? "DISTINCT" select).getD select)
    some ⟨(keyword? "DISTINCT" select).isSome, shown, table, .ofText root, joins, rest⟩
  | _ => none

section
variable [DecidableEq V]

def statement? (I : Interpretation V) (items : List (Item V)) : Option (Statement V) := do
  let head ← head? items
  match clauses clauseWords head.rest with
  | ([condition, groupBy, having, orderBy, limit, offset], []) => do
    some {
      distinct := head.distinct
      shown := head.shown
      table := head.table
      root := head.root
      joins := head.joins
      condition := ← inClause (condition? I) condition
      groupBy := ← inClause (listedBy? column?) groupBy
      having := ← inClause (having? I) having
      orderBy := ← inClause (listedBy? sortColumn?) orderBy
      limit := ← inClause count? limit
      offset := ← inClause count? offset }
  | _ => none

namespace Statement

variable {l : Layout} (db : Store l V) (s : Statement V)

def joined : List (Joined V) :=
  (db.rows s.table).flatMap fun r => Join.extendAll db s.joins (Joined.with (fun _ => Row.null) s.root r)

def passing : List (Joined V) := (s.joined db).filter fun e => s.condition.all fun t => t e = some true

/-- Rows shown under columns. A grouped statement shows what it groups by, one row for each group that is kept. -/
def rows : Option (List (Record V)) :=
  let record (columns : List Column) (e : Joined V) : Record V := columns.map (·.read e)
  let rows := s.passing db
  match s.shown, s.groupBy, s.having with
  | .columns shown, none, none =>
    let records := rows.map (record shown)
    some (if s.distinct then records.dedup else records)
  | .columns shown, some groupBy, having =>
    let kept := rows.filter fun e => having.all fun h => h (rows.filter fun e' => record groupBy e' = record groupBy e)
    if shown = groupBy then some (kept.map (record shown)).dedup else none
  | _, _, _ => none

def isWhole : Bool := s.orderBy.isNone && s.limit.isNone && s.offset.isNone

def number : Option Nat :=
  match s.shown, s.groupBy, s.having with
  | .count column, none, none =>
    if s.isWhole then some ((s.passing db).filterMap column.read).dedup.length else none
  | _, _, _ => none

def cell (shown : List Column) (c : Column) (record : Record V) : Option V := record[shown.idxOf c]?.join

def precedes (collate : Option V → Option V → Ordering) (shown : List Column) (orderBy : List SortColumn)
    (a b : Record V) : Bool :=
  let orders := orderBy.map fun c => c.direction.apply (collate (cell shown c.column a) (cell shown c.column b))
  (orders.foldr Ordering.then .eq).isLE

def sorted (collate : Option V → Option V → Ordering) (records : List (Record V)) : Option (List (Record V)) :=
  match s.orderBy, s.shown with
  | none, _ => some records
  | some orderBy, .columns shown =>
    -- distinct rows can be sorted only by what they show
    if orderBy.all fun c => shown.contains c.column then
      some (records.insertionSort fun a b => precedes collate shown orderBy a b = true)
    else none
  | some _, .count _ => none

def answer (collate : Option V → Option V → Ordering) : Option (List (Record V)) := do
  let later := (← s.sorted collate (← s.rows db)).drop (s.offset.getD 0)
  some (s.limit.elim later later.take)

end Statement

def combine (operator : SetOperator) (left right : List (Record V)) : List (Record V) :=
  match operator with
  | .intersect => (left.filter (· ∈ right)).dedup
  | .union => (left ++ right).dedup
  | .except => (left.filter (· ∉ right)).dedup

variable {l : Layout} (I : Interpretation V) (db : Store l V)

def query? : List (Item V) → Option (List (Record V))
  | [.group _ _ left, .word operator, .group _ _ right] => do
    some (combine (← SetOperator.ofText? operator) (← left) (← right))
  | items => do
    let s ← statement? I items
    if s.isWhole then s.rows db else none

structure Pending (V : Type) where
  frames : List (List (Item V))
  parameters : List BoundParameter

def push (pending : Pending V) (w : String) : Option (Pending V) :=
  match pending.frames with
  | [] => none
  | frame :: outer =>
    if w = "(" then some { pending with frames := [] :: frame :: outer }
    else if w = ")" then
      match outer with
      | [] => none
      | before :: outer =>
        -- whether it is a condition or a query, its place will ask
        let group := Item.group frame (condition? I frame) (query? I db frame)
        some { pending with frames := (before ++ [group]) :: outer }
    else if w = "?" then
      match pending.parameters with
      | [] => none
      | p :: later => some ⟨(frame ++ [.hole p]) :: outer, later⟩
    else some { pending with frames := (frame ++ [.word w]) :: outer }

def items? (text : String) (parameters : List BoundParameter) : Option (List (Item V)) := do
  match ← (words text).foldlM (push I db) ⟨[[]], parameters⟩ with
  | ⟨[items], []⟩ => some items
  | _ => none

def rows (text : String) (parameters : List BoundParameter) : Option (List (Record V)) := do
  query? I db (← items? I db text parameters)

/-- The rows of a statement in their order, or those on its page. -/
def answer (collate : Option V → Option V → Ordering) (text : String) (parameters : List BoundParameter) :
    Option (List (Record V)) := do
  (← statement? I (← items? I db text parameters)).answer db collate

def number (text : String) (parameters : List BoundParameter) : Option Nat := do
  (← statement? I (← items? I db text parameters)).number db

end
end SqlText
end ObjectQuery
