import ObjectQuery.Serial.Value
import ObjectQuery.Predicate

/-! Serialized predicates and sort keys: an object whose single member names the form. -/
namespace ObjectQuery

namespace Comparison

def name : Comparison → String
  | .eq => "Eq"
  | .ne => "Ne"
  | .gt => "Gt"
  | .ge => "Ge"
  | .lt => "Lt"
  | .le => "Le"

def toJson (c : Comparison) : Json := .str c.name

def ofJson? : Json → Option Comparison :=
  Json.constant? [("Eq", .eq), ("Ne", .ne), ("Gt", .gt), ("Ge", .ge), ("Lt", .lt), ("Le", .le)]

end Comparison

namespace Operand

def toJson : Operand → Json
  | .literal v => .obj [("Literal", v.toJson)]
  | .variable x => .obj [("Variable", .str x)]

def ofJson? : Json → Option Operand
  | .obj [(tag, j)] =>
    if tag = "Literal" then (Value.ofJson? j).map .literal
    else if tag = "Variable" then j.str?.map .variable
    else none
  | _ => none

end Operand

namespace Leaf

def tag : Leaf → String
  | .compare _ _ _ => "Comparison"
  | .matches _ _ => "Matches"
  | .propertyNull _ _ => "PropertyNull"
  | .associationNull _ _ => "AssociationNull"
  | .reaches _ _ => "ManyAssociationContains"
  | .contains _ _ => "Contains"
  | .containsAll _ _ => "ContainsAll"

def members : Leaf → Members
  | .compare p c v => [("property", p.toJson), ("operator", c.toJson), ("value", v.toJson)]
  | .matches p v => [("property", p.toJson), ("pattern", v.toJson)]
  | .propertyNull p n => [("property", p.toJson), ("is_null", .bool n)]
  | .associationNull a n => [("association", a.toJson), ("is_null", .bool n)]
  | .reaches a v => [("association", a.toJson), ("entity", v.toJson)]
  | .contains p v => [("property", p.toJson), ("value", v.toJson)]
  | .containsAll p v => [("property", p.toJson), ("values", v.toJson)]

def toJson (l : Leaf) : Json := .obj [(l.tag, .obj l.members)]

def ofMembers? (tag : String) (m : Members) : Option Leaf := do
  let property := m.required PropertyPath.ofJson? "property"
  let association := m.required AssociationPath.ofJson? "association"
  if tag = "Comparison" then
    some (.compare (← property) (← m.required Comparison.ofJson? "operator")
      (← m.required Operand.ofJson? "value"))
  else if tag = "Matches" then some (.matches (← property) (← m.required Operand.ofJson? "pattern"))
  else if tag = "PropertyNull" then
    some (.propertyNull (← property) (← m.required Json.bool? "is_null"))
  else if tag = "AssociationNull" then
    some (.associationNull (← association) (← m.required Json.bool? "is_null"))
  else if tag = "ManyAssociationContains" then
    some (.reaches (← association) (← m.required Operand.ofJson? "entity"))
  else if tag = "Contains" then some (.contains (← property) (← m.required Operand.ofJson? "value"))
  else if tag = "ContainsAll" then
    some (.containsAll (← property) (← m.required Operand.ofJson? "values"))
  else none

end Leaf

namespace Predicate

mutual
def toJson : Predicate → Json
  | .leaf l => l.toJson
  | .all ps => .obj [("Conjunction", .arr (eachJson ps))]
  | .any ps => .obj [("Disjunction", .arr (eachJson ps))]
  | .not p => .obj [("Negation", toJson p)]
def eachJson : List Predicate → List Json
  | [] => []
  | p :: ps => toJson p :: eachJson ps
end

mutual
def ofJson? : Json → Option Predicate
  | .obj [(tag, j)] =>
    if tag = "Negation" then (ofJson? j).map .not
    else match j with
      | .arr items =>
        if tag = "Conjunction" then (each? items).map .all
        else if tag = "Disjunction" then (each? items).map .any
        else none
      | .obj members => (Leaf.ofMembers? tag members).map .leaf
      | _ => none
  | _ => none
def each? : List Json → Option (List Predicate)
  | [] => some []
  | j :: rest => do some ((← ofJson? j) :: (← each? rest))
end

end Predicate

namespace Direction

def toJson : Direction → Json
  | .ascending => .str "Ascending"
  | .descending => .str "Descending"

def ofJson? : Json → Option Direction :=
  Json.constant? [("Ascending", .ascending), ("Descending", .descending)]

end Direction

namespace SortKey

def toJson (k : SortKey) : Json :=
  .obj [("property", k.property.toJson), ("direction", k.direction.toJson)]

def ofJson? (j : Json) : Option SortKey := do
  let m ← j.record? ["property", "direction"] []
  some ⟨← m.required PropertyPath.ofJson? "property", ← m.required Direction.ofJson? "direction"⟩

end SortKey
end ObjectQuery
