import ObjectQuery.Serial.Path
import ObjectQuery.Value

/-! Serialized values: an object that names the type and holds the content beside it, or a list
of the two. -/
namespace ObjectQuery

namespace SqlType

def names : List (String × SqlType) :=
  [("Null", .null), ("Boolean", .boolean), ("Integer", .integer), ("BigInt", .bigInt),
    ("Double", .double), ("Varchar", .varchar), ("Date", .date), ("Timestamp", .timestamp)]

def name : SqlType → String
  | .null => "Null"
  | .boolean => "Boolean"
  | .integer => "Integer"
  | .bigInt => "BigInt"
  | .double => "Double"
  | .varchar => "Varchar"
  | .date => "Date"
  | .timestamp => "Timestamp"

def toJson (t : SqlType) : Json := .str t.name

def ofJson? : Json → Option SqlType := Json.constant? names

end SqlType

namespace Value

def tagged (type : String) (content : Json) : Json := .obj [("type", .str type), ("value", content)]

mutual
def toJson : Value → Json
  | .null => .obj [("type", .str "Null")]
  | .bool b => tagged "Bool" (.bool b)
  | .int n => tagged "Int" (.int n.toInt)
  | .float x => tagged "Float" (.float x)
  | .text s => tagged "Text" (.str s)
  | .date d => tagged "Date" (.str d.text)
  | .timestamp t => tagged "Timestamp" (.str t.text)
  | .enum t v => tagged "Enum" (.obj [("enum_type", .str t), ("variant", .str v)])
  | .collection items => tagged "Collection" (.arr (itemsJson items))
  | .composite t fields =>
    tagged "Composite" (.obj [("type_name", .str t), ("fields", .arr (fieldsJson fields))])
def itemsJson : List Value → List Json
  | [] => []
  | v :: rest => toJson v :: itemsJson rest
def fieldsJson : List (QualifiedName × Value) → List Json
  | [] => []
  | (name, v) :: rest => .arr [name.toJson, toJson v] :: fieldsJson rest
end

def enum? (members : Members) : Option Value := do
  some (.enum (← members.required Json.str? "enum_type") (← members.required Json.str? "variant"))

def scalar? (type : String) (content : Json) : Option Value :=
  if type = "Bool" then content.bool?.map .bool
  else if type = "Int" then content.int64?.map .int
  else if type = "Float" then content.float?.map .float
  else if type = "Text" then content.str?.map .text
  else if type = "Date" then do some (.date (← Date.ofText? (← content.str?)))
  else if type = "Timestamp" then do some (.timestamp (← Timestamp.ofText? (← content.str?)))
  else if type = "Enum" then do enum? (← content.obj?)
  else if type = "Null" then if content.isNull then some .null else none
  else none

mutual
def ofJson? : Json → Option Value
  | .obj members => do beside? (← Members.required Json.constantName? "type" members) members
  | .arr [type, content] => do content? (← type.constantName?) content
  | _ => none
def beside? (type : String) : List (String × Json) → Option Value
  | [] => if type = "Null" then some .null else none
  | (name, j) :: rest => if name = "value" then content? type j else beside? type rest
def content? (type : String) : Json → Option Value
  | .arr items => if type = "Collection" then (items? items).map .collection else none
  | .obj members =>
    if type = "Composite" then do
      let typeName ← Members.required Json.str? "type_name" members
      some (.composite typeName (← fieldsMember? members))
    else scalar? type (.obj members)
  | j => scalar? type j
def items? : List Json → Option (List Value)
  | [] => some []
  | j :: rest => do some ((← ofJson? j) :: (← items? rest))
def fieldsMember? : List (String × Json) → Option (List (QualifiedName × Value))
  | [] => none
  | (name, j) :: rest =>
    if name = "fields" then
      match j with
      | .arr items => fields? items
      | _ => none
    else fieldsMember? rest
def fields? : List Json → Option (List (QualifiedName × Value))
  | [] => some []
  | .arr [name, j] :: rest => do
    some ((← QualifiedName.ofJson? name, ← ofJson? j) :: (← fields? rest))
  | _ :: _ => none
end

end Value
end ObjectQuery
