import ObjectQuery.Proofs.SetAlgebra

/-! Variables of predicates. Binding puts values in place of the variables that it names and leaves the
others, and bindings one after the other are one binding. -/
namespace ObjectQuery

def Bindings.extended (first second : Bindings) : Bindings := fun x => (first x).or (second x)

namespace Operand

def freeVariables : Operand → List String
  | .literal _ => []
  | .variable x => [x]

theorem bindTwice (b c : Bindings) (v : Operand) : (v.bind b).bind c = v.bind (b.extended c) := by
  cases v with
  | literal v => rfl
  | «variable» x =>
    simp only [bind, Bindings.extended]
    cases b x <;> rfl

theorem variablesBind (b : Bindings) (v : Operand) :
    (v.bind b).freeVariables = v.freeVariables.filter fun x => (b x).isNone := by
  cases v with
  | literal v => rfl
  | «variable» x =>
    simp only [bind, freeVariables]
    cases bound : b x <;> simp [bound]

end Operand

namespace Leaf

def operand? : Leaf → Option Operand
  | .compare _ _ v => some v
  | .matches _ v => some v
  | .propertyNull _ _ => none
  | .associationNull _ _ => none
  | .reaches _ v => some v
  | .contains _ v => some v
  | .containsAll _ v => some v

def freeVariables (l : Leaf) : List String := l.operand?.elim [] Operand.freeVariables

theorem bindTwice (b c : Bindings) (l : Leaf) : (l.bind b).bind c = l.bind (b.extended c) := by
  cases l <;> simp only [bind, Operand.bindTwice]

theorem operandBind (b : Bindings) (l : Leaf) : (l.bind b).operand? = l.operand?.map (Operand.bind b) := by
  cases l <;> rfl

theorem variablesBind (b : Bindings) (l : Leaf) :
    (l.bind b).freeVariables = l.freeVariables.filter fun x => (b x).isNone := by
  rw [freeVariables, freeVariables, operandBind]
  cases l.operand? with
  | none => rfl
  | some v => exact v.variablesBind b

end Leaf

namespace Predicate

def freeVariables (p : Predicate) : List String := p.leaves.flatMap Leaf.freeVariables

mutual
theorem bindTwice (b c : Bindings) : ∀ p : Predicate, (p.bind b).bind c = p.bind (b.extended c)
  | .leaf l => by rw [bind, bind, bind, Leaf.bindTwice]
  | .all ps => by rw [bind, bind, bind, bindEachTwice]
  | .any ps => by rw [bind, bind, bind, bindEachTwice]
  | .not p => by rw [bind, bind, bind, bindTwice]
theorem bindEachTwice (b c : Bindings) : ∀ ps : List Predicate,
    bindEach c (bindEach b ps) = bindEach (b.extended c) ps
  | [] => rfl
  | p :: ps => by rw [bindEach, bindEach, bindEach, bindTwice, bindEachTwice]
end

mutual
theorem leavesBind (b : Bindings) : ∀ p : Predicate, (p.bind b).leaves = p.leaves.map (Leaf.bind b)
  | .leaf l => rfl
  | .all ps => by rw [bind, leaves, leaves, leavesOfEachBind]
  | .any ps => by rw [bind, leaves, leaves, leavesOfEachBind]
  | .not p => by rw [bind, leaves, leaves, leavesBind]
theorem leavesOfEachBind (b : Bindings) : ∀ ps : List Predicate,
    leavesOfEach (bindEach b ps) = (leavesOfEach ps).map (Leaf.bind b)
  | [] => rfl
  | p :: ps => by rw [bindEach, leavesOfEach, leavesOfEach, leavesBind, leavesOfEachBind, List.map_append]
end

theorem variablesBind (b : Bindings) (p : Predicate) :
    (p.bind b).freeVariables = p.freeVariables.filter fun x => (b x).isNone := by
  simp only [freeVariables, leavesBind, List.flatMap_map, List.filter_flatMap, Leaf.variablesBind]

end Predicate
end ObjectQuery
