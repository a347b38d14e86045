import ObjectQuery.Yaml.Scalar

/-! Tokens of a YAML text. Blocks are told apart by indentation, which the tokens state
explicitly. A key is known as such only when its colon is found, so a possible key is kept in
mind and the key token put in front of it later. -/
namespace ObjectQuery.Yaml

inductive Token where
  | blockSequenceStart
  | blockMappingStart
  | blockEnd
  | flowSequenceStart
  | flowSequenceEnd
  | flowMappingStart
  | flowMappingEnd
  | blockEntry
  | flowEntry
  | key
  | value
  | scalar (text : String) (plain : Bool)
  | documentStart
  | documentEnd
  | version
  deriving DecidableEq, Repr

/-- A token that may turn out to be a key: the number of tokens before it, and its place. A
required key stands where its block has nothing but keys. -/
structure PossibleKey where
  position : Nat
  offset : Nat
  line : Nat
  column : Nat
  required : Bool
  deriving Repr

structure Lexer where
  cursor : Cursor
  tokens : Array Token
  indent : Int
  outer : List Int
  keys : List (Option PossibleKey)
  keyAllowed : Bool
  deriving Repr

namespace Lexer

def start (text : List Char) : Lexer := ⟨.start text, #[], -1, [], [none], true⟩

def inFlow (s : Lexer) : Bool := 1 < s.keys.length

def emit (s : Lexer) (t : Token) : Lexer := { s with tokens := s.tokens.push t }

def insert (s : Lexer) (position : Nat) (t : Token) : Lexer :=
  { s with tokens := s.tokens.insertIdxIfInBounds position t }

def pass (s : Lexer) (n : Nat) : Lexer := { s with cursor := s.cursor.advance n }

def allowKey (s : Lexer) (allowed : Bool) : Lexer := { s with keyAllowed := allowed }

def openBlock (s : Lexer) (column position : Nat) (t : Token) : Lexer :=
  if s.inFlow then s
  else if s.indent < column then
    { s.insert position t with indent := column, outer := s.indent :: s.outer }
  else s

def closeBlocks (column : Int) : Nat → Lexer → Lexer
  | 0, s => s
  | fuel + 1, s =>
    match s.outer with
    | [] => s
    | around :: outer =>
      if column < s.indent then
        closeBlocks column fuel { s.emit .blockEnd with indent := around, outer := outer }
      else s

def unroll (s : Lexer) (column : Int) : Lexer :=
  if s.inFlow then s else closeBlocks column s.outer.length s

def dropKey (s : Lexer) : Option Lexer :=
  match s.keys with
  | some k :: keys => if k.required then none else some { s with keys := none :: keys }
  | _ => some s

def saveKey (s : Lexer) : Option Lexer :=
  if s.keyAllowed then do
    let s ← s.dropKey
    let c := s.cursor
    let required := !s.inFlow && s.indent == c.column
    some { s with keys := some ⟨s.tokens.size, c.offset, c.line, c.column, required⟩ :: s.keys.drop 1 }
  else some s

def isStale (c : Cursor) (k : PossibleKey) : Bool := k.line < c.line || k.offset + 1024 < c.offset

def dropStale (s : Lexer) : Option Lexer := do
  let keys ← s.keys.mapM fun
    | some k => if isStale s.cursor k then (if k.required then none else some none) else some (some k)
    | none => some none
  some { s with keys := keys }

def skip : Nat → Lexer → Lexer
  | 0, s => s
  | fuel + 1, s =>
    -- a tab can stand where no key may start
    let tabs := s.inFlow || !s.keyAllowed
    let c := s.cursor.passMark.passWhile fun ch => ch == ' ' || (tabs && ch == '\t')
    let c := if c.head? == some '#' then c.passLine else c
    if c.atBreak then
      skip fuel { s with cursor := c.passBreak.2, keyAllowed := s.keyAllowed || !s.inFlow }
    else { s with cursor := c }

def versionNumber? (digits : List Char) : Option Nat :=
  if digits.isEmpty || 9 < digits.length then none else some (Text.valueOf digits)

def directive (s : Lexer) : Option Lexer := do
  let s ← (s.unroll (-1)).dropKey
  let afterName := s.cursor.advance 5
  if !("%YAML".toList.isPrefixOf s.cursor.rest && endsWord afterName.rest) then none
  let c := afterName.passWhile isBlank
  let major := c.rest.takeWhile Char.isDigit
  let c := c.advance major.length
  if (← versionNumber? major) != 1 || c.head? != some '.' then none
  let minor := (c.advance 1).rest.takeWhile Char.isDigit
  if ! [1, 2].contains (← versionNumber? minor) then none
  let c := ((c.advance 1).advance minor.length).passWhile isBlank
  let c := if c.head? == some '#' then c.passLine else c
  if !(c.rest.isEmpty || c.atBreak) then none
  some ({ s with cursor := c.passBreak.2, keyAllowed := false }.emit .version)

def documentMarker (s : Lexer) (t : Token) : Option Lexer := do
  let s ← (s.unroll (-1)).dropKey
  some (((s.allowKey false).emit t).pass 3)

def flowStart (s : Lexer) (t : Token) : Option Lexer := do
  let s ← s.saveKey
  some ((({ s with keys := none :: s.keys }.allowKey true).emit t).pass 1)

def flowEnd (s : Lexer) (t : Token) : Option Lexer := do
  let s ← s.dropKey
  let keys := if s.inFlow then s.keys.drop 1 else s.keys
  some ((({ s with keys := keys }.allowKey false).emit t).pass 1)

def flowEntry (s : Lexer) : Option Lexer := do
  let s ← s.dropKey
  some (((s.allowKey true).emit .flowEntry).pass 1)

def openHere (s : Lexer) (t : Token) : Option Lexer :=
  if s.inFlow then some s
  else if s.keyAllowed then some (s.openBlock s.cursor.column s.tokens.size t)
  else none

def blockEntry (s : Lexer) : Option Lexer := do
  let s ← (← s.openHere .blockSequenceStart).dropKey
  some (((s.allowKey true).emit .blockEntry).pass 1)

def explicitKey (s : Lexer) : Option Lexer := do
  let s ← (← s.openHere .blockMappingStart).dropKey
  some (((s.allowKey !s.inFlow).emit .key).pass 1)

def value (s : Lexer) : Option Lexer :=
  match s.keys with
  | some k :: keys =>
    let s := { s.insert k.position .key with keys := none :: keys }
    let s := s.openBlock k.column k.position .blockMappingStart
    some (((s.allowKey false).emit .value).pass 1)
  | _ => do
    let s ← s.openHere .blockMappingStart
    some (((s.allowKey !s.inFlow).emit .value).pass 1)

def scalar (s : Lexer) (plain : Bool) (t : ScalarText) : Lexer :=
  { s with cursor := t.cursor }.emit (.scalar (String.ofList t.text) plain)

def blockScalar (s : Lexer) (literal : Bool) : Option Lexer := do
  let s ← s.dropKey
  let t ← Block.read literal s.indent (s.cursor.advance 1)
  some ((s.scalar false t).allowKey true)

def quotedScalar (s : Lexer) (double : Bool) : Option Lexer := do
  let s ← s.saveKey
  let t ← Quoted.read double (s.cursor.rest.length + 1) [] (s.cursor.advance 1)
  some ((s.scalar false t).allowKey false)

def plainScalar (s : Lexer) : Option Lexer := do
  let s ← s.saveKey
  let t ← Plain.read s.inFlow (s.indent + 1).toNat (s.cursor.rest.length + 1) [] Gap.none s.cursor
  some ((s.scalar true t).allowKey t.lineEnded)

def isIndicator (c : Char) : Bool :=
  isBlank c || "-?:,[]\x7b\x7d#&*!|>'\x22%@\x60".toList.contains c

def next (s : Lexer) (c : Char) (rest : List Char) : Option Lexer :=
  let flow := s.inFlow
  let wordEnds := endsWord rest
  if s.cursor.column == 0 && c == '%' then s.directive
  else if s.cursor.atMarker '-' then s.documentMarker .documentStart
  else if s.cursor.atMarker '.' then s.documentMarker .documentEnd
  else if c = '[' then s.flowStart .flowSequenceStart
  else if c = '\x7b' then s.flowStart .flowMappingStart
  else if c = ']' then s.flowEnd .flowSequenceEnd
  else if c = '\x7d' then s.flowEnd .flowMappingEnd
  else if c = ',' then s.flowEntry
  else if c = '-' ∧ wordEnds then s.blockEntry
  else if c = '?' ∧ (flow ∨ wordEnds) then s.explicitKey
  else if c = ':' ∧ (flow ∨ wordEnds) then s.value
  else if c = '|' ∧ ¬ flow then s.blockScalar true
  else if c = '>' ∧ ¬ flow then s.blockScalar false
  else if c = '\x27' then s.quotedScalar false
  else if c = '\x22' then s.quotedScalar true
  else if ¬ isIndicator c ∨ c = '-' ∨ (¬ flow ∧ (c = '?' ∨ c = ':')) then s.plainScalar
  else none

def finish (s : Lexer) : Option (List Token) := do
  let s ← (s.unroll (-1)).dropKey
  some s.tokens.toList

def run : Nat → Lexer → Option (List Token)
  | 0, _ => none
  | fuel + 1, s => do
    let s ← (skip (s.cursor.rest.length + 1) s).dropStale
    let s := s.unroll s.cursor.column
    match s.cursor.rest with
    | [] => s.finish
    | c :: rest => run fuel (← s.next c rest)

end Lexer

def tokens? (text : String) : Option (List Token) :=
  let cs := text.toList
  if cs.all isPrintable then Lexer.run (cs.length + 1) (.start cs) else none

end ObjectQuery.Yaml
