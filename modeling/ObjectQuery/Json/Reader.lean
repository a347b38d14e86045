import ObjectQuery.Decimal.Scaling
import ObjectQuery.Json.Basic
import ObjectQuery.Text.Numeral

/-! Reading JSON text. A number without fraction and exponent is an integer as long as it
fits 64 bits; a member that is written twice counts once, with the later value. -/
namespace ObjectQuery.Json.Reader
open Text (hexValue valueOf)

abbrev Step (α : Type) := List Char → Option (α × List Char)

def isBlank (c : Char) : Bool := c = ' ' || c = '\n' || c = '\t' || c = '\r'

def skip (cs : List Char) : List Char := cs.dropWhile isBlank

def expect (word : List Char) (cs : List Char) : Option (List Char) :=
  if word.isPrefixOf cs then some (cs.drop word.length) else none

def unit16 : Step Nat
  | a :: b :: c :: d :: rest => do
    some (4096 * (← hexValue a) + 256 * (← hexValue b) + 16 * (← hexValue c) + (← hexValue d), rest)
  | _ => none

def codePoint : Step Char := fun cs => do
  let (high, rest) ← unit16 cs
  if 0xD800 ≤ high ∧ high ≤ 0xDBFF then
    match rest with
    | '\\' :: 'u' :: more => do
      let (low, rest) ← unit16 more
      if 0xDC00 ≤ low ∧ low ≤ 0xDFFF then
        some (Char.ofNat (0x10000 + (high - 0xD800) * 0x400 + (low - 0xDC00)), rest)
      else none
    | _ => none
  else if 0xDC00 ≤ high ∧ high ≤ 0xDFFF then none
  else some (Char.ofNat high, rest)

def escaped : Step Char
  | '\x22' :: rest => some ('\x22', rest)
  | '\\' :: rest => some ('\\', rest)
  | '/' :: rest => some ('/', rest)
  | 'b' :: rest => some ('\x08', rest)
  | 'f' :: rest => some ('\x0c', rest)
  | 'n' :: rest => some ('\n', rest)
  | 'r' :: rest => some ('\r', rest)
  | 't' :: rest => some ('\t', rest)
  | 'u' :: rest => codePoint rest
  | _ => none

def characters : Nat → List Char → Step String
  | 0, _, _ => none
  | fuel + 1, done, cs =>
    match cs with
    | [] => none
    | '\x22' :: rest => some (String.ofList done.reverse, rest)
    | '\\' :: rest => do
      let (c, rest) ← escaped rest
      characters fuel (c :: done) rest
    | c :: rest => if c.toNat < 32 then none else characters fuel (c :: done) rest

def digits (cs : List Char) : List Char × List Char :=
  (cs.takeWhile Char.isDigit, cs.dropWhile Char.isDigit)

def whole (cs : List Char) : Option (List Char × List Char) :=
  match digits cs with
  | ([], _) => none
  | ('0' :: _ :: _, _) => none
  | found => some found

def fraction : List Char → Option (List Char × List Char)
  | '.' :: rest =>
    match digits rest with
    | ([], _) => none
    | found => some found
  | cs => some ([], cs)

def magnitude (negative : Bool) (cs : List Char) : Option (Option Int × List Char) :=
  match digits cs with
  | ([], _) => none
  | (ds, rest) => some (some (if negative then -(valueOf ds : Int) else valueOf ds), rest)

def signed : List Char → Option (Option Int × List Char)
  | '-' :: rest => magnitude true rest
  | '+' :: rest => magnitude false rest
  | cs => magnitude false cs

def exponent : List Char → Option (Option Int × List Char)
  | [] => some (none, [])
  | c :: cs => if c = 'e' ∨ c = 'E' then signed cs else some (none, c :: cs)

def inRange (n : Int) : Bool := Int64.minValue.toInt ≤ n && n < UInt64.size

def numeral? (negative : Bool) (ds fs : List Char) (e : Option Int) : Option Json :=
  let n : Int := if negative then -(valueOf ds : Int) else valueOf ds
  if fs.isEmpty ∧ e.isNone ∧ inRange n ∧ ¬ (negative ∧ n = 0) then some (.int n)
  else do
    let x ← (Decimal.Scaled.ofDigits ds fs (e.getD 0)).scale?
    some (.float (if negative then -x else x))

def unsigned (negative : Bool) : Step Json := fun cs => do
  let (ds, cs) ← whole cs
  let (fs, cs) ← fraction cs
  let (e, cs) ← exponent cs
  some (← numeral? negative ds fs e, cs)

def number : Step Json
  | '-' :: rest => unsigned true rest
  | cs => unsigned false cs

def put (name : String) (value : Json) : Members → Members
  | [] => [(name, value)]
  | (other, old) :: rest =>
    if other = name then (name, value) :: rest else (other, old) :: put name value rest

mutual
def value : Nat → Nat → Step Json
  | 0, _, _ => none
  | fuel + 1, depth, cs =>
    match skip cs with
    | 'n' :: rest => do some (.null, ← expect "ull".toList rest)
    | 't' :: rest => do some (.bool true, ← expect "rue".toList rest)
    | 'f' :: rest => do some (.bool false, ← expect "alse".toList rest)
    | '\x22' :: rest => do
      let (s, rest) ← characters fuel [] rest
      some (.str s, rest)
    | '[' :: rest =>
      match depth with
      | 0 => none
      | depth + 1 =>
        match skip rest with
        | ']' :: rest => some (.arr [], rest)
        | _ => items fuel depth [] rest
    | '\x7b' :: rest =>
      match depth with
      | 0 => none
      | depth + 1 =>
        match skip rest with
        | '\x7d' :: rest => some (.obj [], rest)
        | _ => members fuel depth [] rest
    | cs => number cs
def items : Nat → Nat → List Json → Step Json
  | 0, _, _, _ => none
  | fuel + 1, depth, done, cs => do
    let (item, rest) ← value fuel depth cs
    match skip rest with
    | ',' :: rest => items fuel depth (item :: done) rest
    | ']' :: rest => some (.arr (item :: done).reverse, rest)
    | _ => none
def members : Nat → Nat → Members → Step Json
  | 0, _, _, _ => none
  | fuel + 1, depth, done, cs =>
    match skip cs with
    | '\x22' :: rest => do
      let (name, rest) ← characters fuel [] rest
      let rest ← expect [':'] (skip rest)
      let (member, rest) ← value fuel depth rest
      match skip rest with
      | ',' :: rest => members fuel depth (put name member done) rest
      | '\x7d' :: rest => some (.obj (put name member done), rest)
      | _ => none
    | _ => none
end

end Reader

def readWithin? (depth : Nat) (text : String) : Option Json := do
  let cs := text.toList
  let (j, rest) ← Reader.value (2 * cs.length + 2) depth cs
  if (Reader.skip rest).isEmpty then some j else none

-- no value is nested deeper than its text is long
def read? (text : String) : Option Json := readWithin? text.length text

end ObjectQuery.Json
