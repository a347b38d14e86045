import ObjectQuery.Yaml.Resolution

/-! Typed readings of nodes. A scalar is read as text whatever its style; numbers and null are
plain. An empty value also stands for a list or a mapping without entries. -/
namespace ObjectQuery.Yaml

abbrev Fields := List (String × Node)

namespace Node

def text? : Node → Option String
  | .scalar text _ => some text
  | _ => none

def isNull : Node → Bool
  | .scalar text plain => plain && isNullText text
  | _ => false

def nullable? {α : Type} (decode : Node → Option α) (n : Node) : Option (Option α) :=
  if n.isNull then some none else (decode n).map some

def int32? : Node → Option Int32
  | .scalar text true => do
    let n ← integer? text.toList
    if Int32.minValue.toInt ≤ n ∧ n ≤ Int32.maxValue.toInt then some (Int32.ofInt n) else none
  | _ => none

def int64? : Node → Option Int64
  | .scalar text true => do
    let n ← integer? text.toList
    if Int64.minValue.toInt ≤ n ∧ n ≤ Int64.maxValue.toInt then some (Int64.ofInt n) else none
  | _ => none

def uint32? : Node → Option UInt32
  | .scalar text true => do
    let n ← natural? text.toList
    if n < UInt32.size then some (UInt32.ofNat n) else none
  | _ => none

def list? {α : Type} (decode : Node → Option α) : Node → Option (List α)
  | .seq items => items.mapM decode
  | .scalar "" true => some []
  | _ => none

def fields? : Node → Option Fields
  | .map pairs => pairs.mapM fun (key, value) => key.text?.map (·, value)
  | .scalar "" true => some []
  | _ => none

def record? (names : List String) (n : Node) : Option Fields := do
  let fields ← n.fields?
  if names.all fun name => (fields.filter (·.1 == name)).length ≤ 1 then some fields else none

end Node

namespace Fields

def required {α : Type} (decode : Node → Option α) (name : String) (fields : Fields) : Option α := do
  decode (← fields.lookup name)

def defaulted {α : Type} (decode : Node → Option α) (value : α) (name : String) (fields : Fields) :
    Option α :=
  match fields.lookup name with
  | none => some value
  | some n => decode n

end Fields
end ObjectQuery.Yaml
