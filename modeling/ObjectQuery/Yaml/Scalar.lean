import ObjectQuery.Text.Numeral
import ObjectQuery.Yaml.Cursor

/-! The three scalar styles of YAML. Breaks inside a plain or quoted scalar fold: one break
reads as a space, further ones as themselves. -/
namespace ObjectQuery.Yaml

structure Gap where
  broken : Bool
  blanks : List Char
  firstBreak : List Char
  moreBreaks : List Char
  deriving Repr

namespace Gap

def none : Gap := ⟨false, [], [], []⟩

def escapedBreak : Gap := ⟨true, [], [], []⟩

def fold (g : Gap) : List Char :=
  if g.broken then
    if g.firstBreak = ['\n'] then (if g.moreBreaks.isEmpty then [' '] else g.moreBreaks)
    else g.firstBreak ++ g.moreBreaks
  else g.blanks

def read (leastColumn : Option Nat) : Nat → Gap → Cursor → Option (Gap × Cursor)
  | 0, g, c => some (g, c)
  | fuel + 1, g, c =>
    match c.rest with
    | [] => some (g, c)
    | ch :: _ =>
      if isBlank ch then
        -- a tab in place of indentation
        if g.broken && ch == '\t' && leastColumn.any (c.column < ·) then Option.none
        else read leastColumn fuel (if g.broken then g else { g with blanks := g.blanks ++ [ch] }) (c.advance 1)
      else if isBreak ch then
        let (text, next) := c.passBreak
        read leastColumn fuel
          (if g.broken then { g with moreBreaks := g.moreBreaks ++ text }
            else ⟨true, [], text, []⟩) next
      else some (g, c)

end Gap

structure ScalarText where
  text : List Char
  cursor : Cursor
  lineEnded : Bool
  deriving Repr

namespace Plain

def isFlowIndicator (c : Char) : Bool := c = ',' || c = '[' || c = ']' || c = '\x7b' || c = '\x7d'

def word (inFlow : Bool) : List Char → Option (List Char)
  | [] => some []
  | ':' :: rest =>
    if endsWord rest then some []
    else if inFlow && rest.head?.any (fun c => isFlowIndicator c || c == '?') then none
    else (word inFlow rest).map (':' :: ·)
  | c :: rest =>
    if isBlank c || isBreak c || (inFlow && isFlowIndicator c) then some []
    else (word inFlow rest).map (c :: ·)

def read (inFlow : Bool) (indent : Nat) : Nat → List Char → Gap → Cursor → Option ScalarText
  | 0, _, _, _ => none
  | fuel + 1, done, gap, c =>
    if c.atDocumentMarker || c.head? == some '#' then some ⟨done, c, gap.broken⟩
    else do
      let part ← word inFlow c.rest
      let (done, gap) := if part.isEmpty then (done, gap) else (done ++ gap.fold ++ part, Gap.none)
      let c := c.advance part.length
      if c.atBlank || c.atBreak then
        let (gap, c) ← Gap.read (some indent) (c.rest.length + 1) (if part.isEmpty then gap else Gap.none) c
        if !inFlow && c.column < indent then some ⟨done, c, gap.broken⟩
        else read inFlow indent fuel done gap c
      else some ⟨done, c, gap.broken⟩

end Plain

namespace Quoted

def coded (digits : Nat) (rest : List Char) : Option Char := do
  let written := rest.take digits
  if written.length < digits then none
  let values ← written.mapM Text.hexValue
  let n := values.foldl (fun n d => 16 * n + d) 0
  if n.isValidChar then some (Char.ofNat n) else none

def escape : List Char → Option (Char × Nat)
  | [] => none
  | c :: rest =>
    if c = 'x' then (coded 2 rest).map (·, 4)
    else if c = 'u' then (coded 4 rest).map (·, 6)
    else if c = 'U' then (coded 8 rest).map (·, 10)
    else do
      let plain ← [('0', 0x00), ('a', 0x07), ('b', 0x08), ('t', 0x09), ('\t', 0x09), ('n', 0x0A),
        ('v', 0x0B), ('f', 0x0C), ('r', 0x0D), ('e', 0x1B), (' ', 0x20), ('\x22', 0x22), ('/', 0x2F),
        ('\\', 0x5C), ('N', 0x85), ('_', 0xA0), ('L', 0x2028), ('P', 0x2029)].lookup c
      some (Char.ofNat plain, 2)

def word (double : Bool) : Nat → List Char → Cursor → Option (List Char × Gap × Cursor)
  | 0, _, _ => none
  | fuel + 1, done, c =>
    match c.rest with
    | [] => some (done, Gap.none, c)
    | ch :: rest =>
      if isBlank ch || isBreak ch then some (done, Gap.none, c)
      else if double then
        if ch = '\x22' then some (done, Gap.none, c)
        else if ch = '\\' then
          if rest.head?.any isBreak then some (done, Gap.escapedBreak, (c.advance 1).passBreak.2)
          else do
            let (e, length) ← escape rest
            word double fuel (e :: done) (c.advance length)
        else word double fuel (ch :: done) (c.advance 1)
      else if ch = '\x27' then
        if rest.head? == some '\x27' then word double fuel (ch :: done) (c.advance 2)
        else some (done, Gap.none, c)
      else word double fuel (ch :: done) (c.advance 1)

def read (double : Bool) : Nat → List Char → Cursor → Option ScalarText
  | 0, _, _ => none
  | fuel + 1, done, c =>
    if c.atDocumentMarker || c.rest.isEmpty then none
    else do
      let (done, gap, c) ← word double (c.rest.length + 1) done c
      if c.head? == some (if double then '\x22' else '\x27') then some ⟨done.reverse, c.advance 1, false⟩
      else do
        let (gap, c) ← Gap.read none (c.rest.length + 1) gap c
        read double fuel (gap.fold.reverse ++ done) c

end Quoted

namespace Block

inductive Chomping where
  | strip
  | clip
  | keep
  deriving DecidableEq, Repr

def chomping? : Char → Option Chomping
  | '+' => some .keep
  | '-' => some .strip
  | _ => none

def increment? (c : Char) : Option Nat :=
  if c.isDigit then some (c.toNat - 48) else none

def header (c : Cursor) : Option (Chomping × Nat × Cursor) :=
  let digit (c : Cursor) : Option (Nat × Cursor) :=
    match c.head?.bind increment? with
    | some 0 => none
    | some n => some (n, c.advance 1)
    | none => some (0, c)
  match c.head?.bind chomping? with
  | some chomp => do
    let (n, c) ← digit (c.advance 1)
    some (chomp, n, c)
  | none => do
    let (n, c) ← digit c
    match c.head?.bind chomping? with
    | some chomp => some (chomp, n, c.advance 1)
    | none => some (.clip, n, c)

def breaks (least : Nat) : Nat → Nat → Nat → List Char → Cursor → Option (Nat × List Char × Cursor)
  | 0, _, _, _, _ => none
  | fuel + 1, indent, widest, done, c =>
    let spaces := (c.rest.takeWhile (· == ' ')).length
    -- with no indentation known yet, that of the first line with text counts
    let c := c.advance (if indent = 0 then spaces else min spaces (indent - c.column))
    let widest := max widest c.column
    if (indent = 0 || c.column < indent) && c.head? == some '\t' then none
    else if c.atBreak then
      let (text, next) := c.passBreak
      breaks least fuel indent widest (done ++ text) next
    else some (if indent = 0 then max (max widest least) 1 else indent, done, c)

def lines (literal : Bool) (indent : Nat) :
    Nat → List Char → List Char → List Char → Bool → Cursor → Option (List Char × List Char × List Char × Cursor)
  | 0, _, _, _, _, _ => none
  | fuel + 1, done, lastBreak, emptyLines, afterBlank, c =>
    if c.column == indent && !c.rest.isEmpty then do
      let startsBlank := c.atBlank
      -- breaks between two lines of text fold, unless a line starts with a blank
      let joined :=
        if !literal && lastBreak == ['\n'] && !afterBlank && !startsBlank then
          (if emptyLines.isEmpty then [' '] else [])
        else lastBreak
      let text := c.rest.takeWhile fun ch => !isBreak ch
      let (lastBreak, c) := (c.advance text.length).passBreak
      let (_, more, c) ← breaks 0 (c.rest.length + 1) indent 0 [] c
      lines literal indent fuel (done ++ joined ++ emptyLines ++ text) lastBreak more startsBlank c
    else some (done, lastBreak, emptyLines, c)

def read (literal : Bool) (parent : Int) (c : Cursor) : Option ScalarText := do
  let (chomp, increment, c) ← header c
  let c := c.passWhile isBlank
  let c := if c.head? == some '#' then c.passLine else c
  if !(c.rest.isEmpty || c.atBreak) then none
  let c := c.passBreak.2
  let given := if increment = 0 then 0 else (max parent 0).toNat + increment
  let (indent, emptyLines, c) ← breaks (parent + 1).toNat (c.rest.length + 1) given 0 [] c
  let (text, lastBreak, emptyLines, c) ← lines literal indent (c.rest.length + 1) [] [] emptyLines false c
  let tail := match chomp with
    | .strip => []
    | .clip => lastBreak
    | .keep => lastBreak ++ emptyLines
  some ⟨text ++ tail, c, false⟩

end Block
end ObjectQuery.Yaml
