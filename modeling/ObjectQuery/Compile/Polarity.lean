import ObjectQuery.Plan.Test
import ObjectQuery.Predicate

/-! How a condition reads its attribute, by kind and polarity. Under negation a comparison must
see entities without a stored value, so it joins from the left; a negated null check finds the
row it needs by an inner join. -/
namespace ObjectQuery

inductive LeafKind where
  | eq
  | ne
  | gt
  | ge
  | lt
  | le
  | matches
  | propertyIsNull
  | propertyIsNotNull
  | associationIsNull
  | associationIsNotNull
  | reaches
  | contains
  | containsAll
  deriving DecidableEq, Repr

def Comparison.kind : Comparison → LeafKind
  | .eq => .eq
  | .ne => .ne
  | .gt => .gt
  | .ge => .ge
  | .lt => .lt
  | .le => .le

namespace LeafKind

def name : LeafKind → String
  | .eq => "Eq"
  | .ne => "Ne"
  | .gt => "Gt"
  | .ge => "Ge"
  | .lt => "Lt"
  | .le => "Le"
  | .matches => "Matches"
  | .propertyIsNull => "PropertyIsNull"
  | .propertyIsNotNull => "PropertyIsNotNull"
  | .associationIsNull => "AssociationIsNull"
  | .associationIsNotNull => "AssociationIsNotNull"
  | .reaches => "ManyAssociationContains"
  | .contains => "Contains"
  | .containsAll => "ContainsAll"

def operator? : LeafKind → Option Operator
  | .eq => some .eq
  | .ne => some .ne
  | .gt => some .gt
  | .ge => some .ge
  | .lt => some .lt
  | .le => some .le
  | .matches => some .matches
  | _ => none

def operatorUnder (kind : LeafKind) (negated : Bool) : Option Operator :=
  kind.operator?.map fun o => if negated then o.complement else o

def join (kind : LeafKind) (negated : Bool) : JoinKind :=
  match kind with
  | .propertyIsNull | .associationIsNull => if negated then .inner else .left
  | .reaches | .contains | .containsAll => .inner
  | _ => if negated then .left else .inner

def ofNull (ofProperty isNull : Bool) : LeafKind :=
  match ofProperty, isNull with
  | true, true => .propertyIsNull
  | true, false => .propertyIsNotNull
  | false, true => .associationIsNull
  | false, false => .associationIsNotNull

end LeafKind

namespace Comparison

def operatorUnder (c : Comparison) (negated : Bool) : Operator :=
  let o : Operator := match c with
    | .eq => .eq
    | .ne => .ne
    | .gt => .gt
    | .ge => .ge
    | .lt => .lt
    | .le => .le
  if negated then o.complement else o

end Comparison
end ObjectQuery
