import ObjectQuery.Json.Basic
import ObjectQuery.Path

/-! Serialized names and paths. A path is written from its last hop; what the hop is reached
through stands inside it. -/
namespace ObjectQuery

namespace QualifiedName

def toJson (q : QualifiedName) : Json :=
  .obj [("declaring_type", .str q.declaringType), ("name", .str q.name)]

def ofJson? (j : Json) : Option QualifiedName := do
  let members ← j.record? ["declaring_type", "name"] []
  some ⟨← members.required Json.str? "declaring_type", ← members.required Json.str? "name"⟩

end QualifiedName

namespace AssociationKind

def toJson : AssociationKind → Json
  | .single => .str "Single"
  | .many => .str "Many"

def ofJson? : Json → Option AssociationKind :=
  Json.constant? [("Single", .single), ("Many", .many)]

end AssociationKind

namespace AssociationPath

def hopJson (hop : AssociationHop) (traversed : Json) : Json :=
  .obj [("name", hop.name.toJson), ("kind", hop.kind.toJson), ("traversed", traversed)]

def toJson (a : AssociationPath) : Json :=
  hopJson a.last (a.before.foldl (fun traversed hop => hopJson hop traversed) .null)

def hop? (members : Members) : Option AssociationHop := do
  some ⟨← members.required QualifiedName.ofJson? "name", ← members.required AssociationKind.ofJson? "kind"⟩

mutual
def ofJson? : Json → Option AssociationPath
  | .obj members => do
    let hop ← hop? members
    some ⟨← before? members, hop⟩
  | .arr [name, kind, traversed] => do
    let hop ← hop? [("name", name), ("kind", kind)]
    let before ← if traversed.isNull then some [] else (ofJson? traversed).map hops
    some ⟨before, hop⟩
  | _ => none
def before? : List (String × Json) → Option (List AssociationHop)
  | [] => some []
  | (name, j) :: rest =>
    if name = "traversed" then
      if j.isNull then some [] else (ofJson? j).map hops
    else before? rest
end

end AssociationPath

namespace PropertyPath

def propertyJson (name : QualifiedName) (traversed : Json) : Json :=
  .obj [("name", name.toJson), ("traversed", traversed)]

def rootJson (p : PropertyPath) : Json :=
  match p.association with
  | none => .null
  | some a => .obj [("Association", a.toJson)]

def toJson (p : PropertyPath) : Json :=
  propertyJson p.last
    (p.before.foldl (fun traversed name => .obj [("Property", propertyJson name traversed)]) p.rootJson)

mutual
def ofJson? : Json → Option PropertyPath
  | .obj members => do
    let name ← Members.required QualifiedName.ofJson? "name" members
    let (association, before) ← before? members
    some ⟨association, before, name⟩
  | .arr [name, traversed] => do
    let (association, before) ← traversed? traversed
    some ⟨association, before, ← QualifiedName.ofJson? name⟩
  | _ => none
def before? : List (String × Json) → Option (Option AssociationPath × List QualifiedName)
  | [] => some (none, [])
  | (name, j) :: rest => if name = "traversed" then traversed? j else before? rest
def traversed? : Json → Option (Option AssociationPath × List QualifiedName)
  | .null => some (none, [])
  | .obj [(tag, through)] =>
    if tag = "Association" then (AssociationPath.ofJson? through).map fun a => (some a, [])
    else if tag = "Property" then (ofJson? through).map fun p => (p.association, p.hops)
    else none
  | _ => none
end

end PropertyPath
end ObjectQuery
