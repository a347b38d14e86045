import ObjectQuery.Proofs.Admission
import ObjectQuery.Proofs.Requested

/-! Predicates compile exactly when each of their conditions does, whatever the connectives around it make
of its result. So no condition that cannot be compiled and no variable that is not bound is overlooked. -/
namespace ObjectQuery

namespace Scope

variable {sc : Scope} {names : List String}

theorem unionDecides (parts : List (Option SetPlan)) : Decides names True (sc.union parts) := by
  unfold union
  split
  · exact .given _
  · split
    · exact .given _
    · exact nothingDecides.mapped

theorem connectDecides (isIntersection : Bool) (parts : List (Option SetPlan)) :
    Decides names True (sc.connect isIntersection parts) := by
  cases isIntersection with
  | true => exact .given _
  | false => exact unionDecides parts

mutual
theorem compileDecides : ∀ (p : Predicate) (negated : Bool),
    Decides p.freeVariables (∀ l ∈ p.leaves, l.Admitted sc.toContext) (sc.compile p negated)
  | .leaf l, negated => by
    refine ((leafDecides negated l).widen ?_).changed ?_
    · simp [Predicate.freeVariables, Predicate.leaves]
    · simp [Predicate.leaves]
  | .all ps, negated =>
    ((compileEachDecides ps negated).next fun _ parts _ _ => connectDecides _ parts).changed (and_iff_left trivial)
  | .any ps, negated =>
    ((compileEachDecides ps negated).next fun _ parts _ _ => connectDecides _ parts).changed (and_iff_left trivial)
  | .not p, negated => compileDecides p (!negated)
theorem compileEachDecides : ∀ (ps : List Predicate) (negated : Bool),
    Decides ((Predicate.leavesOfEach ps).flatMap Leaf.freeVariables)
      (∀ l ∈ Predicate.leavesOfEach ps, l.Admitted sc.toContext) (sc.compileEach ps negated)
  | [], negated => (Decides.given _).changed (by simp [Predicate.leavesOfEach])
  | p :: ps, negated => by
    let later := (Predicate.leavesOfEach ps).flatMap Leaf.freeVariables
    have first := (compileDecides p negated).widen (List.subset_append_left p.freeVariables later)
    have rest := (compileEachDecides ps negated).widen (List.subset_append_right p.freeVariables later)
    rw [Predicate.leavesOfEach, List.flatMap_append]
    exact (first.next fun _ _ _ _ => rest.next fun _ _ _ _ => .given _).changed
      (by simp only [and_true, List.forall_mem_append])
end

def Compiles (sc : Scope) (p : Predicate) (negated : Bool) (issued : Nat) : Prop :=
  ∃ part issued', sc.compile p negated issued = .ok part issued'

theorem compilesAdmitted {p : Predicate} {negated : Bool} {n : Nat} :
    sc.Compiles p negated n ↔ ∀ l ∈ p.leaves, l.Admitted sc.toContext :=
  (compileDecides p negated).done n

theorem leafCompiles {l : Leaf} : sc.Compiles (.leaf l) false 0 ↔ l.Admitted sc.toContext := by
  simp [compilesAdmitted, Predicate.leaves]

theorem compilesByLeaves (sc : Scope) (p : Predicate) (negated : Bool) (n : Nat) :
    (sc.Compiles p negated n ↔ ∀ l ∈ p.leaves, sc.Compiles (.leaf l) false 0) ∧
    (sc.Compiles p negated n ↔ sc.Compiles (.not p) negated n) ∧
    ((∃ e m, sc.compile p negated n = .error e m) ↔ ∃ l ∈ p.leaves, ¬sc.Compiles (.leaf l) false 0) := by
  simp only [leafCompiles]
  refine ⟨compilesAdmitted, compilesAdmitted.trans compilesAdmitted.symm, ?_⟩
  rw [(compileDecides p negated).fails n]
  simp only [not_forall, exists_prop]

end Scope

namespace StrictnessSample

def people : Scope := ⟨RequestSample.people, [1]⟩

def anything : Leaf := .containsAll RequestSample.name (.literal (.collection []))

def nowhere : Leaf := .compare (.of ⟨"Person", "nowhere"⟩) .eq (.literal (.text "Alice"))

def anythingOrNowhere : Predicate := .any [.leaf anything, .leaf nowhere]

theorem nothingMasksNowhere :
    people.compile (.leaf anything) false 0 = .ok none 0 ∧
    ¬people.Compiles (.leaf nowhere) false 0 ∧
    ∃ e m, people.compile anythingOrNowhere false 0 = .error e m := by
  have fails : ¬people.Compiles (.leaf nowhere) false 0 := fun ⟨_, _, ok⟩ => nomatch ok
  exact ⟨rfl, fails, (Scope.compilesByLeaves people anythingOrNowhere false 0).2.2.mpr
    ⟨nowhere, by simp [anythingOrNowhere, Predicate.leaves, Predicate.leavesOfEach], fails⟩⟩

end StrictnessSample

theorem Leaf.admittedClosed {ctx : Context} {l : Leaf} (admitted : l.Admitted ctx) : l.freeVariables = [] := by
  cases l with
  | compare p c operand => obtain ⟨⟨v, rfl, _⟩, _⟩ := admitted; rfl
  | «matches» p operand => obtain ⟨⟨s, b, rfl, _⟩, _⟩ := admitted; rfl
  | propertyNull p isNull => rfl
  | associationNull a isNull => rfl
  | reaches a operand => obtain ⟨⟨s, b, rfl, _⟩, _⟩ := admitted; rfl
  | contains p operand => obtain ⟨v, rfl, _⟩ := admitted; rfl
  | containsAll p operand => obtain ⟨items, kept, rfl, _⟩ := admitted; rfl

theorem Scope.compilesClosed {sc : Scope} {p : Predicate} {negated : Bool} {n : Nat}
    (compiles : sc.Compiles p negated n) : p.freeVariables = [] := by
  rw [Predicate.freeVariables, List.flatMap_eq_nil_iff]
  exact fun l mem => Leaf.admittedClosed (compilesAdmitted.mp compiles l mem)

theorem Predicate.bindingSoundAndComplete (b c : Bindings) (p : Predicate) :
    (p.bind b).bind c = p.bind (b.extended c) ∧
    (p.bind b).freeVariables = p.freeVariables.filter (fun x => (b x).isNone) ∧
    ∀ (sc : Scope) (negated : Bool) (n : Nat),
      (sc.Compiles (p.bind b) negated n → ∀ x ∈ p.freeVariables, ∃ v, b x = some v) ∧
      ∀ x m, sc.compile (p.bind b) negated n = .error (.unresolved x) m → x ∈ p.freeVariables ∧ b x = none := by
  refine ⟨p.bindTwice b c, p.variablesBind b, fun sc negated n => ⟨fun compiles x mem => ?_, fun x m failed => ?_⟩⟩
  · have bound : p.freeVariables.filter (fun x => (b x).isNone) = [] :=
      (p.variablesBind b).symm.trans (Scope.compilesClosed compiles)
    exact Option.ne_none_iff_exists'.mp (by simpa using List.filter_eq_nil_iff.mp bound x mem)
  · have free := (Scope.compileDecides (p.bind b) negated).blames n x m failed
    rw [p.variablesBind b] at free
    simpa using List.mem_filter.mp free

namespace StrictnessSample

def anythingOrNamed : Predicate :=
  .any [.leaf anything, .leaf (.compare RequestSample.name .eq (.variable "name"))]

def nobody : Bindings := fun _ => none

def alice : Bindings := fun x => if x = "name" then some (.text "Alice") else none

theorem unboundNameReported :
    people.compile (anythingOrNamed.bind nobody) false 0 = .error (.unresolved "name") 0 ∧
    ("name" ∈ anythingOrNamed.freeVariables ∧ nobody "name" = none) ∧
    people.Compiles (anythingOrNamed.bind alice) false 0 ∧ ∃ v, alice "name" = some v := by
  have failed : people.compile (anythingOrNamed.bind nobody) false 0 = .error (.unresolved "name") 0 := rfl
  have compiles : people.Compiles (anythingOrNamed.bind alice) false 0 := ⟨_, _, rfl⟩
  obtain ⟨_, _, strict⟩ := Predicate.bindingSoundAndComplete nobody alice anythingOrNamed
  obtain ⟨_, _, complete⟩ := Predicate.bindingSoundAndComplete alice nobody anythingOrNamed
  have unbound := (strict people false 0).2 "name" 0 failed
  exact ⟨failed, unbound, compiles, (complete people false 0).1 compiles "name" unbound.1⟩

end StrictnessSample
end ObjectQuery
