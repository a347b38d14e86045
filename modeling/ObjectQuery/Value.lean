import ObjectQuery.Calendar.Timestamp
import ObjectQuery.QualifiedName

/-! Values that predicates compare with, and the SQL types under which they are bound. -/
namespace ObjectQuery

inductive SqlType where
  | null
  | boolean
  | integer
  | bigInt
  | double
  | varchar
  | date
  | timestamp
  deriving DecidableEq, Repr

def SqlType.code : SqlType → Int
  | .null => 0
  | .boolean => 16
  | .integer => 4
  | .bigInt => -5
  | .double => 8
  | .varchar => 12
  | .date => 91
  | .timestamp => 93

inductive Value where
  | null
  | bool (value : Bool)
  | int (value : Int64)
  | float (value : Float)
  | text (value : String)
  | date (value : Date)
  | timestamp (value : Timestamp)
  | enum (enumType variant : String)
  | collection (items : List Value)
  | composite (typeName : String) (fields : List (QualifiedName × Value))
  deriving Repr

inductive ValueKind where
  | null
  | boolean
  | integer
  | float
  | text
  | date
  | timestamp
  | enum
  | collection
  | composite
  deriving DecidableEq, Repr

def ValueKind.name : ValueKind → String
  | .null => "null"
  | .boolean => "boolean"
  | .integer => "integer"
  | .float => "float"
  | .text => "text"
  | .date => "date"
  | .timestamp => "timestamp"
  | .enum => "enum"
  | .collection => "collection"
  | .composite => "composite"

namespace Value

def kind : Value → ValueKind
  | .null => .null
  | .bool _ => .boolean
  | .int _ => .integer
  | .float _ => .float
  | .text _ => .text
  | .date _ => .date
  | .timestamp _ => .timestamp
  | .enum _ _ => .enum
  | .collection _ => .collection
  | .composite _ _ => .composite

def isNull : Value → Bool
  | .null => true
  | _ => false

def isCollection : Value → Bool
  | .collection _ => true
  | _ => false

def isScalar : Value → Bool
  | .collection _ => false
  | .composite _ _ => false
  | _ => true

def sqlType : Value → Option SqlType
  | .null => some .null
  | .bool _ => some .boolean
  | .int _ => some .bigInt
  | .float _ => some .double
  | .text _ => some .varchar
  | .date _ => some .date
  | .timestamp _ => some .timestamp
  | .enum _ _ => some .integer
  | .collection _ => none
  | .composite _ _ => none

mutual
def equals : Value → Value → Bool
  | .null, .null => true
  | .bool a, .bool b => a == b
  | .int a, .int b => a == b
  -- as numbers: NaN differs from itself, and zero has no sign
  | .float a, .float b => a == b
  | .text a, .text b => a == b
  | .date a, .date b => a == b
  | .timestamp a, .timestamp b => a == b
  | .enum t a, .enum u b => t == u && a == b
  | .collection xs, .collection ys => itemsEqual xs ys
  | .composite t xs, .composite u ys => t == u && fieldsEqual xs ys
  | _, _ => false
def itemsEqual : List Value → List Value → Bool
  | [], [] => true
  | x :: xs, y :: ys => equals x y && itemsEqual xs ys
  | _, _ => false
def fieldsEqual : List (QualifiedName × Value) → List (QualifiedName × Value) → Bool
  | [], [] => true
  | (m, x) :: xs, (n, y) :: ys => m == n && equals x y && fieldsEqual xs ys
  | _, _ => false
end

mutual
def flatten : Value → List Value
  | .collection items => flattenAll items
  | v => [v]
def flattenAll : List Value → List Value
  | [] => []
  | v :: rest => flatten v ++ flattenAll rest
end

mutual
theorem byFields {P : Value → Prop} (plain : ∀ v, (∀ t fields, v ≠ .composite t fields) → P v)
    (object : ∀ t fields, (∀ f ∈ fields, P f.2) → P (.composite t fields)) : ∀ v : Value, P v
  | .composite t fields => object t fields (byEachField plain object fields)
  | .null | .bool _ | .int _ | .float _ | .text _ | .date _ | .timestamp _ | .enum _ _ | .collection _ =>
    plain _ (by simp)
theorem byEachField {P : Value → Prop} (plain : ∀ v, (∀ t fields, v ≠ .composite t fields) → P v)
    (object : ∀ t fields, (∀ f ∈ fields, P f.2) → P (.composite t fields)) :
    ∀ fields : List (QualifiedName × Value), ∀ f ∈ fields, P f.2
  | [] => by simp
  | (_, v) :: rest => List.forall_mem_cons.mpr ⟨byFields plain object v, byEachField plain object rest⟩
end

end Value
end ObjectQuery
