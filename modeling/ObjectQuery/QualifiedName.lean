/-! Names of attribute slots: the declaring type and the attribute's own name. Every entity
also has its identity, which is named like an attribute but kept in the entity table. -/
namespace ObjectQuery

structure QualifiedName where
  declaringType : String
  name : String
  deriving DecidableEq, Repr

namespace QualifiedName

def identity : QualifiedName := ⟨"Identity", "identity"⟩

def isIdentity (q : QualifiedName) : Bool := q == identity

def text (q : QualifiedName) : String := q.declaringType ++ ":" ++ q.name

def le (a b : QualifiedName) : Bool :=
  if a.declaringType = b.declaringType then decide (a.name ≤ b.name)
  else decide (a.declaringType ≤ b.declaringType)

def sorted (names : List QualifiedName) : List QualifiedName := names.mergeSort le

def distinct (names : List QualifiedName) : List QualifiedName := names.eraseDups

end QualifiedName
end ObjectQuery
