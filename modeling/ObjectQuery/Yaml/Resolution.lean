import ObjectQuery.Decimal.Range
import ObjectQuery.Yaml.Node

/-! What a plain scalar stands for where no type is asked for: null, a truth value, a number,
or its own text. A number whose digits start with a needless zero is text. -/
namespace ObjectQuery.Yaml

def isNullText (text : String) : Bool := ["", "~", "null", "Null", "NULL"].contains text

def isBoolText (text : String) : Bool :=
  ["true", "True", "TRUE", "false", "False", "FALSE"].contains text

def digits? (base : Nat) (cs : List Char) : Option Nat := do
  if cs.isEmpty then none
  let ds ← cs.mapM fun c => (Text.hexValue c).filter (· < base)
  some (ds.foldl (fun n d => base * n + d) 0)

def magnitude? : List Char → Option Nat
  | '0' :: 'x' :: cs => digits? 16 cs
  | '0' :: 'o' :: cs => digits? 8 cs
  | '0' :: 'b' :: cs => digits? 2 cs
  | ['0'] => some 0
  | '0' :: _ => none
  | cs => digits? 10 cs

def natural? : List Char → Option Nat
  | '+' :: cs => magnitude? cs
  | cs => magnitude? cs

def integer? : List Char → Option Int
  | '-' :: cs => (magnitude? cs).map fun n => -n
  | cs => (natural? cs).map Int.ofNat

def withoutSign : List Char → List Char
  | '+' :: cs | '-' :: cs => cs
  | cs => cs

def decimal? (cs : List Char) : Option Decimal.Scaled := do
  let whole := cs.takeWhile Char.isDigit
  let rest := cs.drop whole.length
  let part := if rest.head? == some '.' then (rest.drop 1).takeWhile Char.isDigit else []
  let rest := if rest.head? == some '.' then rest.drop (part.length + 1) else rest
  let significand ← digits? 10 (whole ++ part)
  let exponent : Int ← match rest with
    | [] => some 0
    | 'e' :: '-' :: ds | 'E' :: '-' :: ds => (digits? 10 ds).map fun n => -n
    | 'e' :: ds | 'E' :: ds => (digits? 10 (if ds.head? == some '+' then ds.drop 1 else ds)).map Int.ofNat
    | _ => none
  some ⟨significand, exponent - part.length⟩

def isFloat (cs : List Char) : Bool :=
  let infinite := [".inf", ".Inf", ".INF"].map String.toList
  let noNumber := [".nan", ".NaN", ".NAN"].map String.toList
  infinite.contains (withoutSign cs) || noNumber.contains cs ||
    (decimal? (withoutSign cs)).any Decimal.Scaled.isInRange

def isZeroLed (cs : List Char) : Bool :=
  let ds := withoutSign cs
  1 < ds.length && ds.head? == some '0' && ds.all Char.isDigit

inductive Resolved where
  | null
  | bool
  | integer (value : Int)
  | float
  | text
  deriving DecidableEq, Repr

def resolve (text : String) : Option Resolved :=
  let cs := text.toList
  if isNullText text then some .null
  else if isBoolText text then some .bool
  else
    let beyond : Resolved := if isFloat cs && !isZeroLed cs then .float else .text
    match integer? cs with
    | none => some beyond
    | some n =>
      if Int64.minValue.toInt ≤ n ∧ n < UInt64.size then some (.integer n)
      -- larger integers are refused up to 128 bits, and those beyond are numbers or text
      else if -(Nat.pow 2 127 : Int) ≤ n ∧ n < Nat.pow 2 128 then none
      else some beyond

namespace Node

mutual
def isResolvable : Node → Bool
  | .scalar text plain => !plain || (resolve text).isSome
  | .seq items => allResolvable items
  | .map pairs => pairsResolvable pairs
def allResolvable : List Node → Bool
  | [] => true
  | n :: rest => isResolvable n && allResolvable rest
def pairsResolvable : List (Node × Node) → Bool
  | [] => true
  | (key, value) :: rest => isResolvable key && isResolvable value && pairsResolvable rest
end

mutual
def depth : Node → Nat
  | .scalar _ _ => 0
  | .seq items => greatestDepth items + 1
  | .map pairs => pairsDepth pairs + 1
def greatestDepth : List Node → Nat
  | [] => 0
  | n :: rest => max (depth n) (greatestDepth rest)
def pairsDepth : List (Node × Node) → Nat
  | [] => 0
  | (key, value) :: rest => max (max (depth key) (depth value)) (pairsDepth rest)
end

def resolvedText? : Node → Option String
  | .scalar text plain => if !plain || resolve text == some .text then some text else none
  | _ => none

def resolvedInt? : Node → Option Int
  | .scalar text true =>
    match resolve text with
    | some (.integer n) => some n
    | _ => none
  | _ => none

end Node
end ObjectQuery.Yaml
