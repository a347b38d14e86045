/-! JSON values. Integers and floating-point numbers are kept apart, since a field that
takes an integer refuses `1.0`. Members of an object keep their written order. -/
namespace ObjectQuery

inductive Json where
  | null
  | bool (value : Bool)
  | int (value : Int)
  | float (value : Float)
  | str (text : String)
  | arr (items : List Json)
  | obj (members : List (String × Json))

abbrev Members := List (String × Json)

namespace Json

def ofOption {α : Type} (encode : α → Json) : Option α → Json
  | none => .null
  | some a => encode a

def ofList {α : Type} (encode : α → Json) (items : List α) : Json :=
  .arr (items.map encode)

def isNull : Json → Bool
  | .null => true
  | _ => false

def bool? : Json → Option Bool
  | .bool b => some b
  | _ => none

def str? : Json → Option String
  | .str s => some s
  | _ => none

def int? : Json → Option Int
  | .int n => some n
  | _ => none

def float? : Json → Option Float
  | .float x => some x
  | .int n => some (Float.ofInt n)
  | _ => none

def arr? : Json → Option (List Json)
  | .arr items => some items
  | _ => none

def obj? : Json → Option Members
  | .obj members => some members
  | _ => none

def constantName? : Json → Option String
  | .str name => some name
  | .obj [(name, .null)] => some name
  | _ => none

def constant? {α : Type} (names : List (String × α)) (j : Json) : Option α := do
  names.lookup (← j.constantName?)

/-- The members of a record. A record may also be a list of what its fields hold, in order; such
a list has all the required fields and may end before any of the others. -/
def record? (required : List String) (others : List String) : Json → Option Members
  | .obj members => some members
  | .arr items =>
    if required.length ≤ items.length ∧ items.length ≤ required.length + others.length then
      some ((required ++ others).zip items)
    else none
  | _ => none

def int32? (j : Json) : Option Int32 := do
  let n ← j.int?
  if Int32.minValue.toInt ≤ n ∧ n ≤ Int32.maxValue.toInt then some (Int32.ofInt n) else none

def int64? (j : Json) : Option Int64 := do
  let n ← j.int?
  if Int64.minValue.toInt ≤ n ∧ n ≤ Int64.maxValue.toInt then some (Int64.ofInt n) else none

def uint32? (j : Json) : Option UInt32 := do
  let n ← j.int?
  if 0 ≤ n ∧ n < UInt32.size then some (UInt32.ofNat n.toNat) else none

def uint64? (j : Json) : Option UInt64 := do
  let n ← j.int?
  if 0 ≤ n ∧ n < UInt64.size then some (UInt64.ofNat n.toNat) else none

def list? {α : Type} (decode : Json → Option α) (j : Json) : Option (List α) := do
  let items ← j.arr?
  items.mapM decode

def nullable? {α : Type} (decode : Json → Option α) (j : Json) : Option (Option α) :=
  if j.isNull then some none else (decode j).map some

end Json

namespace Members

def required {α : Type} (decode : Json → Option α) (name : String) (members : Members) : Option α := do
  decode (← members.lookup name)

def optional {α : Type} (decode : Json → Option α) (name : String) (members : Members) :
    Option (Option α) :=
  match members.lookup name with
  | none => some none
  | some j => j.nullable? decode

def defaulted {α : Type} (decode : Json → Option α) (value : α) (name : String) (members : Members) :
    Option α :=
  match members.lookup name with
  | none => some value
  | some j => decode j

end Members
end ObjectQuery
