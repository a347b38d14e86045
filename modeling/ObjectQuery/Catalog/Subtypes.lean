import ObjectQuery.Catalog.Basic

/-! The schema of a catalog. A logical type stands for every concrete type that reaches it
through super types; declarations may form cycles. -/
namespace ObjectQuery.Catalog

def without (name : String) (types : List TypeDeclaration) : List TypeDeclaration :=
  types.filter (·.name != name)

theorem lengthWithout {name : String} {types : List TypeDeclaration} {t : TypeDeclaration}
    (found : types.find? (·.name == name) = some t) : (without name types).length < types.length := by
  refine List.length_filter_lt_length_iff_exists.2 ⟨t, List.mem_of_find?_eq_some found, ?_⟩
  have same := List.find?_some found
  simpa using same

def reached (unvisited : List TypeDeclaration) (todo : List String) : List String :=
  match todo with
  | [] => []
  | name :: todo =>
    match _found : unvisited.find? (·.name == name) with
    | none => reached unvisited todo
    -- visited once, so it leaves the unvisited ones
    | some t => name :: reached (without name unvisited) (t.superTypes ++ todo)
termination_by (unvisited.length, todo.length)
decreasing_by
  · exact Prod.Lex.right _ (Nat.lt_succ_self _)
  · exact Prod.Lex.left _ _ (lengthWithout ‹_›)

def ancestors (c : Catalog) (name : String) : List String := reached c.types [name]

def idBelow (c : Catalog) (name : String) (t : TypeDeclaration) : Option Int32 :=
  if name ∈ c.ancestors t.name then t.typeId else none

def typeIds (c : Catalog) (name : String) : Option (List Int32) :=
  if name ∈ c.declared then
    some ((c.types.filterMap (c.idBelow name)).mergeSort fun a b => decide (a ≤ b)).eraseDups
  else none

def tableOf (c : Catalog) (name : QualifiedName) : Option AttributeTable :=
  (c.attributes.find? (·.name == name)).map (·.table)

def enumKey (c : Catalog) (enumType variant : String) : Option Int64 := do
  (← c.enums.get? enumType).get? variant

def toSchema (c : Catalog) : Except Fault Schema := do
  c.check
  pure ⟨c.tableOf, c.typeIds, c.enumKey, Value.sqlType⟩

end ObjectQuery.Catalog
