import ObjectQuery.Proofs.Comparison

/-! Plans of predicates are built from the selections of their conditions. What holds of these, and is kept
by complements and connectives, holds of every compiled plan. -/
namespace ObjectQuery
open Outcome

namespace SetPlan

def Ever (Q : SetPlan → Prop) (part : Option SetPlan) : Prop := ∀ q, part = some q → Q q

structure Closed (sc : Scope) (Q : SetPlan → Prop) : Prop where
  nothing : ∀ n, Q (.select { all sc n with tests := [.never] })
  complement : ∀ n q, Q q → Q (.compound .except (.select (all sc n)) q)
  connect : ∀ operator l r, operator ≠ .except → Q l → Q r → Q (.compound operator l r)

structure OfConditions (sc : Scope) (Q : SetPlan → Prop) : Prop where
  scalar : ∀ {kind p operator parameter negated n q m},
    sc.scalarSelection kind p operator parameter negated n = .ok q m → Q q
  propertyNull : ∀ {p isNull negated n q m}, sc.propertyNull p isNull negated n = .ok q m → Q q
  associationNull : ∀ {a isNull negated n q m}, sc.associationNull a isNull negated n = .ok q m → Q q
  reaches : ∀ {a operand n q m}, sc.reaches a operand n = .ok q m → Q q
  contains : ∀ {p operand n q m}, sc.contains p operand n = .ok q m → Q q
  dividing : ∀ {p elements n q m}, elements ≠ [] → sc.dividing p elements n = .ok q m → Q q

end SetPlan

namespace Scope
open SetPlan

variable {sc : Scope} {Q : SetPlan → Prop} {n m : Nat} {q : SetPlan} {part : Option SetPlan}

theorem someBuilt {x : Compile SetPlan} (each : ∀ q, x n = .ok q m → Q q) (ok : (some <$> x) n = .ok part m) :
    Ever Q part := by
  obtain ⟨q, compiled, rfl⟩ := mapOk.mp ok
  intro p same
  cases same
  exact each q compiled

theorem nothingBuilt (closed : Closed sc Q) (ok : sc.nothing n = .ok q m) : Q q := by
  obtain ⟨rfl, _⟩ := nothingOk.mp ok
  exact closed.nothing n

theorem complementIfBuilt (closed : Closed sc Q) {negated : Bool} {positive : SetPlan} (holds : Q positive)
    (ok : sc.complementIf negated positive n = .ok q m) : Q q := by
  cases negated with
  | false =>
    obtain ⟨rfl, _⟩ := pureOk.mp ok
    exact holds
  | true =>
    obtain ⟨rfl, _⟩ := complementOk.mp ok
    exact closed.complement n positive holds

theorem onRowBuilt (closed : Closed sc Q) {fansOut : Except CompileError Bool} {f : Bool → Compile SetPlan}
    {negated : Bool} (each : ∀ negated n q m, f negated n = .ok q m → Q q)
    (ok : sc.onRow fansOut f negated n = .ok q m) : Q q := by
  rcases onRowOk ok with ⟨_, row⟩ | ⟨_, _, row⟩ | ⟨_, _, positive, u, row, rfl⟩
  · exact each false n q m row
  · exact each true n q m row
  · exact closed.complement u positive (each false n positive u row)

theorem containsAllBuilt (closed : Closed sc Q) (conditions : OfConditions sc Q) {p : PropertyPath}
    {operand : Operand} {negated : Bool} (ok : sc.containsAll p operand negated n = .ok part m) : Ever Q part := by
  obtain ⟨elements, u, listed, ok⟩ := bindOk.mp ok
  split at ok
  · split at ok
    · exact someBuilt (fun q ok => nothingBuilt closed ok) ok
    · obtain ⟨rfl, _⟩ := pureOk.mp ok
      exact nofun
  · next some =>
    refine someBuilt (fun q ok => ?_) ok
    obtain ⟨positive, u, divided, ok⟩ := bindOk.mp ok
    exact complementIfBuilt closed (conditions.dividing (by simpa using some) divided) ok

theorem leafBuilt (closed : Closed sc Q) (conditions : OfConditions sc Q) {l : Leaf} {negated : Bool}
    (ok : sc.leaf l negated n = .ok part m) : Ever Q part := by
  have comparison : ∀ p operator operand, l.comparison? = some (p, operator, operand) → Ever Q part := by
    intro p operator operand compares
    obtain ⟨f, leafIs, compared⟩ := comparisonLeaf sc compares
    rw [leafIs] at ok
    refine someBuilt (fun q ok => onRowBuilt closed (fun negated n q m ok => ?_) ok) ok
    obtain ⟨kind, parameter, laid⟩ := compared negated n q m ok
    exact conditions.scalar laid.selection
  cases l with
  | compare p c v => exact comparison _ _ _ rfl
  | «matches» p v => exact comparison _ _ _ rfl
  | propertyNull p isNull =>
    exact someBuilt (fun q ok => onRowBuilt closed (fun _ _ _ _ ok => conditions.propertyNull ok) ok) ok
  | associationNull a isNull =>
    exact someBuilt (fun q ok => onRowBuilt closed (fun _ _ _ _ ok => conditions.associationNull ok) ok) ok
  | reaches a v =>
    refine someBuilt (fun q ok => ?_) ok
    obtain ⟨positive, u, reached, ok⟩ := bindOk.mp ok
    exact complementIfBuilt closed (conditions.reaches reached) ok
  | contains p v =>
    refine someBuilt (fun q ok => ?_) ok
    obtain ⟨positive, u, contained, ok⟩ := bindOk.mp ok
    exact complementIfBuilt closed (conditions.contains contained) ok
  | containsAll p v => exact containsAllBuilt closed conditions ok

theorem chainBuilt (closed : Closed sc Q) {operator : SetOperator} (joins : operator ≠ .except)
    {parts : List (Option SetPlan)} (each : ∀ part ∈ parts, Ever Q part) :
    Ever Q (chain operator (parts.filterMap id)) := by
  have present : ∀ q ∈ parts.filterMap id, Q q := by
    intro q mem
    obtain ⟨part, inside, same⟩ := List.mem_filterMap.mp mem
    exact each part inside q same
  have folded : ∀ (qs : List SetPlan) (q : SetPlan), Q q → (∀ r ∈ qs, Q r) →
      Q (qs.foldl (.compound operator) q) := by
    intro qs
    induction qs with
    | nil => exact fun q holds _ => holds
    | cons r rest ih =>
      intro q holds others
      exact ih _ (closed.connect operator q r joins holds (others r List.mem_cons_self))
        fun x mem => others x (List.mem_cons_of_mem _ mem)
  intro q chained
  cases operands : parts.filterMap id with
  | nil => rw [operands] at chained; cases chained
  | cons p rest =>
    rw [operands] at chained present
    cases chained
    exact folded rest p (present p List.mem_cons_self) fun x mem => present x (List.mem_cons_of_mem _ mem)

theorem connectBuilt (closed : Closed sc Q) {isIntersection : Bool} {parts : List (Option SetPlan)}
    (each : ∀ part ∈ parts, Ever Q part) (ok : sc.connect isIntersection parts n = .ok part m) : Ever Q part := by
  cases isIntersection with
  | true =>
    obtain ⟨rfl, _⟩ := pureOk.mp ok
    have joins : SetOperator.intersect ≠ .except := nofun
    exact chainBuilt closed joins each
  | false =>
    rcases unionOk ok with ⟨_, rfl, _⟩ | ⟨_, rfl, _, _⟩ | ⟨_, _, q, empty, rfl⟩
    · exact nofun
    · have joins : SetOperator.union ≠ .except := nofun
      exact chainBuilt closed joins each
    · intro p same
      cases same
      exact nothingBuilt closed empty

mutual
theorem compileBuilt (closed : Closed sc Q) (conditions : OfConditions sc Q) :
    (p : Predicate) → ∀ {negated : Bool} {n m : Nat} {part : Option SetPlan},
      sc.compile p negated n = .ok part m → Ever Q part
  | .leaf l, _, _, _, _, ok => leafBuilt closed conditions ok
  | .all ps, _, _, _, _, ok => by
    obtain ⟨parts, u, each, ok⟩ := bindOk.mp ok
    exact connectBuilt closed (compileEachBuilt closed conditions ps each) ok
  | .any ps, _, _, _, _, ok => by
    obtain ⟨parts, u, each, ok⟩ := bindOk.mp ok
    exact connectBuilt closed (compileEachBuilt closed conditions ps each) ok
  | .not p, _, _, _, _, ok => compileBuilt closed conditions p ok
theorem compileEachBuilt (closed : Closed sc Q) (conditions : OfConditions sc Q) :
    (ps : List Predicate) → ∀ {negated : Bool} {n m : Nat} {parts : List (Option SetPlan)},
      sc.compileEach ps negated n = .ok parts m → ∀ part ∈ parts, Ever Q part
  | [], _, _, _, _, ok => by
    obtain ⟨rfl, _⟩ := pureOk.mp ok
    exact List.forall_mem_nil _
  | p :: ps, _, _, _, _, ok => by
    obtain ⟨part, u, first, ok⟩ := bindOk.mp ok
    obtain ⟨parts, w, each, ok⟩ := bindOk.mp ok
    obtain ⟨rfl, _⟩ := pureOk.mp ok
    exact List.forall_mem_cons.mpr
      ⟨compileBuilt closed conditions p first, compileEachBuilt closed conditions ps each⟩
end

end Scope
end ObjectQuery
