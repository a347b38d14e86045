import ObjectQuery.QualifiedName

/-! Paths from a root entity to an association or to a property. A path lists its hops root
first and always has a last one. A property path may start with an association path; every
property after the first belongs to the value object that the one before it holds. -/
namespace ObjectQuery

inductive AssociationKind where
  | single
  | many
  deriving DecidableEq, Repr

structure AssociationHop where
  name : QualifiedName
  kind : AssociationKind
  deriving DecidableEq, Repr

structure AssociationPath where
  before : List AssociationHop
  last : AssociationHop
  deriving DecidableEq, Repr

structure PropertyPath where
  association : Option AssociationPath
  before : List QualifiedName
  last : QualifiedName
  deriving DecidableEq, Repr

namespace AssociationPath

def single (name : QualifiedName) : AssociationPath := ⟨[], ⟨name, .single⟩⟩

def many (name : QualifiedName) : AssociationPath := ⟨[], ⟨name, .many⟩⟩

def hops (a : AssociationPath) : List AssociationHop := a.before ++ [a.last]

def through (a previous : AssociationPath) : AssociationPath := ⟨previous.hops, a.last⟩

def text (a : AssociationPath) : String := ".".intercalate (a.hops.map (·.name.name))

def fansOut (a : AssociationPath) : Bool := a.before.any (·.kind == .many)

end AssociationPath

namespace PropertyPath

def of (name : QualifiedName) : PropertyPath := ⟨none, [], name⟩

def identity : PropertyPath := of .identity

def hops (p : PropertyPath) : List QualifiedName := p.before ++ [p.last]

def associationHops (p : PropertyPath) : List AssociationHop :=
  match p.association with
  | none => []
  | some a => a.hops

def throughAssociation (p : PropertyPath) (association : AssociationPath) : PropertyPath :=
  ⟨some association, [], p.last⟩

def throughProperty (p parent : PropertyPath) : PropertyPath :=
  ⟨parent.association, parent.hops, p.last⟩

def length (p : PropertyPath) : Nat := p.hops.length + p.associationHops.length

def text (p : PropertyPath) : String :=
  ".".intercalate (p.associationHops.map (·.name.name) ++ p.hops.map (·.name))

end PropertyPath
end ObjectQuery
