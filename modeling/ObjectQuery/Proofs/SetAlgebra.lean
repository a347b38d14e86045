import Mathlib.Data.Set.Lattice
import ObjectQuery.Compile.Connective
import ObjectQuery.Proofs.Outcome

/-! Compiled predicates read as sets. Whatever sets the single statements stand for, the
connectives of a predicate come out as intersections, unions and complements of its leaves. -/
namespace ObjectQuery
open Outcome

variable {U α β : Type}

namespace SetQuery

def reading (R : α → Set U) : SetQuery α → Set U
  | .select s => R s
  | .compound .intersect l r => l.reading R ∩ r.reading R
  | .compound .union l r => l.reading R ∪ r.reading R
  | .compound .except l r => l.reading R \ r.reading R

theorem readingMap (R : β → Set U) (f : α → β) (q : SetQuery α) :
    (q.map f).reading R = q.reading (R ∘ f) := by
  induction q with
  | select s => rfl
  | compound o l r left right => cases o <;> simp only [map, reading, left, right]

def readingOrAll (R : α → Set U) : Option (SetQuery α) → Set U
  | none => Set.univ
  | some q => q.reading R

end SetQuery

def intersectionOf (sets : List (Set U)) : Set U := sets.foldr (· ∩ ·) Set.univ

def unionOf (sets : List (Set U)) : Set U := sets.foldr (· ∪ ·) ∅

@[simp] theorem intersectionOfNil : intersectionOf ([] : List (Set U)) = Set.univ := rfl

@[simp] theorem intersectionOfCons (s : Set U) (sets) :
    intersectionOf (s :: sets) = s ∩ intersectionOf sets := rfl

@[simp] theorem unionOfNil : unionOf ([] : List (Set U)) = ∅ := rfl

@[simp] theorem unionOfCons (s : Set U) (sets) : unionOf (s :: sets) = s ∪ unionOf sets := rfl

theorem unionOfUniv {sets : List (Set U)} (all : Set.univ ∈ sets) : unionOf sets = Set.univ := by
  induction sets with
  | nil => cases all
  | cons s sets ih =>
    rcases List.mem_cons.mp all with rfl | rest
    · simp
    · simp [ih rest]

theorem complementIntersectionOf (sets : List (Set U)) :
    (intersectionOf sets)ᶜ = unionOf (sets.map (·ᶜ)) := by
  induction sets with
  | nil => simp
  | cons s sets ih => simp [Set.compl_inter, ih]

theorem complementUnionOf (sets : List (Set U)) :
    (unionOf sets)ᶜ = intersectionOf (sets.map (·ᶜ)) := by
  induction sets with
  | nil => simp
  | cons s sets ih => simp [Set.compl_union, ih]

namespace Predicate

mutual
def leaves : Predicate → List Leaf
  | .leaf l => [l]
  | .all ps => leavesOfEach ps
  | .any ps => leavesOfEach ps
  | .not p => leaves p
def leavesOfEach : List Predicate → List Leaf
  | [] => []
  | p :: ps => leaves p ++ leavesOfEach ps
end

mutual
def evaluate (L : Leaf → Bool → Set U) : Predicate → Bool → Set U
  | .leaf l, negated => L l negated
  | .all ps, false => intersectionOf (evaluateEach L ps false)
  | .all ps, true => unionOf (evaluateEach L ps true)
  | .any ps, false => unionOf (evaluateEach L ps false)
  | .any ps, true => intersectionOf (evaluateEach L ps true)
  | .not p, negated => evaluate L p (!negated)
def evaluateEach (L : Leaf → Bool → Set U) : List Predicate → Bool → List (Set U)
  | [], _ => []
  | p :: ps, negated => evaluate L p negated :: evaluateEach L ps negated
end

mutual
theorem evaluateNegated {L : Leaf → Bool → Set U} : ∀ (p : Predicate),
    (∀ l ∈ p.leaves, L l true = (L l false)ᶜ) → p.evaluate L true = (p.evaluate L false)ᶜ
  | .leaf l, dual => dual l (by simp [leaves])
  | .all ps, dual => by
    simp only [evaluate, evaluateEachNegated ps (by simpa only [leaves] using dual),
      complementIntersectionOf]
  | .any ps, dual => by
    simp only [evaluate, evaluateEachNegated ps (by simpa only [leaves] using dual),
      complementUnionOf]
  | .not p, dual => by
    simp only [evaluate, Bool.not_true, Bool.not_false,
      evaluateNegated p (by simpa only [leaves] using dual), compl_compl]
theorem evaluateEachNegated {L : Leaf → Bool → Set U} : ∀ (ps : List Predicate),
    (∀ l ∈ leavesOfEach ps, L l true = (L l false)ᶜ) →
      evaluateEach L ps true = (evaluateEach L ps false).map (·ᶜ)
  | [], _ => rfl
  | p :: ps, dual => by
    simp only [leavesOfEach, List.mem_append] at dual
    simp only [evaluateEach, List.map_cons, evaluateNegated p fun l h => dual l (.inl h),
      evaluateEachNegated ps fun l h => dual l (.inr h)]
end

end Predicate

namespace Scope
open SetQuery

variable {R : Selection → Set U}

theorem chainIntersection (qs : List SetPlan) :
    readingOrAll R (chain .intersect qs) = intersectionOf (qs.map (reading R)) := by
  have folded : ∀ (qs : List SetPlan) (q : SetPlan),
      (qs.foldl (.compound .intersect) q).reading R = q.reading R ∩ intersectionOf (qs.map (reading R)) := by
    intro qs
    induction qs with
    | nil => simp
    | cons r rest ih => intro q; simp [ih, reading, Set.inter_assoc]
  cases qs with
  | nil => rfl
  | cons q rest => simp [chain, readingOrAll, folded]

theorem chainUnion {qs : List SetPlan} {q : SetPlan} (some : chain .union qs = some q) :
    q.reading R = unionOf (qs.map (reading R)) := by
  have folded : ∀ (qs : List SetPlan) (q : SetPlan),
      (qs.foldl (.compound .union) q).reading R = q.reading R ∪ unionOf (qs.map (reading R)) := by
    intro qs
    induction qs with
    | nil => simp
    | cons r rest ih => intro q; simp [ih, reading, Set.union_assoc]
  cases qs with
  | nil => simp [chain] at some
  | cons p rest => cases some; simp [folded]

theorem chainNone {operator : SetOperator} {qs : List SetPlan} (none : chain operator qs = none) :
    qs = [] := by
  cases qs with
  | nil => rfl
  | cons q rest => simp [chain] at none

theorem intersectionReads (parts : List (Option SetPlan)) :
    readingOrAll R (intersection parts) = intersectionOf (parts.map (readingOrAll R)) := by
  rw [intersection, chainIntersection]
  induction parts with
  | nil => rfl
  | cons part parts ih =>
    cases part with
    | none =>
      change intersectionOf ((parts.filterMap id).map (reading R)) =
        Set.univ ∩ intersectionOf (parts.map (readingOrAll R))
      rw [ih, Set.univ_inter]
    | some q =>
      change reading R q ∩ intersectionOf ((parts.filterMap id).map (reading R)) = _
      rw [ih]
      rfl

def NothingIsEmpty (sc : Scope) (R : Selection → Set U) : Prop :=
  ∀ n q m, sc.nothing n = .ok q m → q.reading R = ∅

def LeavesRead (sc : Scope) (R : Selection → Set U) (L : Leaf → Bool → Set U) (leaves : List Leaf) : Prop :=
  ∀ l ∈ leaves, ∀ negated n q m, sc.leaf l negated n = .ok q m → readingOrAll R q = L l negated

theorem unionReads {sc : Scope} {parts : List (Option SetPlan)} {n m : Nat} {q : Option SetPlan}
    (nothing : sc.NothingIsEmpty R) (ok : sc.union parts n = .ok q m) :
    readingOrAll R q = unionOf (parts.map (readingOrAll R)) := by
  -- if no operand is vacuous, the operands that are joined are all of them
  have every : ∀ {parts : List (Option SetPlan)}, parts.any Option.isNone = false →
      parts.map (readingOrAll R) = (parts.filterMap id).map (reading R) := by
    intro parts present
    induction parts with
    | nil => rfl
    | cons part parts ih =>
      cases part with
      | none => simp at present
      | some q => exact congrArg (reading R q :: ·) (ih (by simpa using present))
  rcases unionOk ok with ⟨vacuous, rfl, _⟩ | ⟨present, rfl, some, _⟩ | ⟨present, chained, q, made, rfl⟩
  · obtain ⟨part, mem, absent⟩ := List.any_eq_true.mp vacuous
    obtain rfl := Option.isNone_iff_eq_none.mp absent
    exact (unionOfUniv (List.mem_map.mpr ⟨none, mem, rfl⟩)).symm
  · obtain ⟨q, chained⟩ := Option.isSome_iff_exists.mp some
    rw [every present, chained]
    exact chainUnion chained
  · rw [every present, chainNone chained]
    exact nothing n q m made

theorem connectReads {sc : Scope} {parts : List (Option SetPlan)} {isIntersection : Bool} {n m : Nat}
    {q : Option SetPlan} (nothing : sc.NothingIsEmpty R)
    (ok : sc.connect isIntersection parts n = .ok q m) :
    readingOrAll R q = if isIntersection then intersectionOf (parts.map (readingOrAll R))
      else unionOf (parts.map (readingOrAll R)) := by
  cases isIntersection with
  | true =>
    obtain ⟨rfl, _⟩ := pureOk.mp ok
    exact intersectionReads parts
  | false => exact unionReads nothing ok

mutual
theorem compileReads {sc : Scope} {L : Leaf → Bool → Set U} (nothing : sc.NothingIsEmpty R) :
    ∀ (p : Predicate) {negated : Bool} {n m : Nat} {q : Option SetPlan},
      sc.LeavesRead R L p.leaves → sc.compile p negated n = .ok q m →
        readingOrAll R q = p.evaluate L negated
  | .leaf l, _, _, _, _, leaves, ok => leaves l (by simp [Predicate.leaves]) _ _ _ _ ok
  | .all ps, negated, _, _, _, leaves, ok => by
    obtain ⟨parts, u, compiled, connected⟩ := bindOk.mp ok
    rw [Predicate.leaves] at leaves
    rw [connectReads nothing connected, compileEachReads nothing ps leaves compiled]
    cases negated <;> rfl
  | .any ps, negated, _, _, _, leaves, ok => by
    obtain ⟨parts, u, compiled, connected⟩ := bindOk.mp ok
    rw [Predicate.leaves] at leaves
    rw [connectReads nothing connected, compileEachReads nothing ps leaves compiled]
    cases negated <;> rfl
  | .not p, _, _, _, _, leaves, ok => by
    rw [Predicate.leaves] at leaves
    exact compileReads nothing p leaves ok
theorem compileEachReads {sc : Scope} {L : Leaf → Bool → Set U} (nothing : sc.NothingIsEmpty R) :
    ∀ (ps : List Predicate) {negated : Bool} {n m : Nat} {parts : List (Option SetPlan)},
      sc.LeavesRead R L (Predicate.leavesOfEach ps) → sc.compileEach ps negated n = .ok parts m →
        parts.map (readingOrAll R) = Predicate.evaluateEach L ps negated
  | [], _, _, _, _, _, ok => by
    obtain ⟨rfl, _⟩ := pureOk.mp ok
    rfl
  | p :: ps, _, _, _, _, leaves, ok => by
    obtain ⟨part, u, first, rest⟩ := bindOk.mp ok
    obtain ⟨parts, v, others, last⟩ := bindOk.mp rest
    obtain ⟨rfl, _⟩ := pureOk.mp last
    have here : sc.LeavesRead R L p.leaves := fun l h => leaves l (List.mem_append_left _ h)
    have there : sc.LeavesRead R L (Predicate.leavesOfEach ps) := fun l h =>
      leaves l (List.mem_append_right _ h)
    rw [List.map_cons, compileReads nothing p here first, compileEachReads nothing ps there others,
      Predicate.evaluateEach]
end

def reads (sc : Scope) (R : Sql.Select → Set U) (q : Option SetPlan) : Set U :=
  readingOrAll R (q.map (·.toSql sc.layout))

theorem readsPlan (sc : Scope) (R : Sql.Select → Set U) (q : Option SetPlan) :
    sc.reads R q = readingOrAll (fun s => R (s.toSelect sc.layout)) q := by
  cases q with
  | none => rfl
  | some q => exact readingMap R _ q

theorem compileIsSetAlgebra (sc : Scope) (R : Sql.Select → Set U) (L : Leaf → Bool → Set U)
    (p : Predicate) (nothing : ∀ n q m, sc.nothing n = .ok q m → sc.reads R (some q) = ∅)
    (leaves : ∀ l ∈ p.leaves, ∀ negated n q m,
      sc.leaf l negated n = .ok q m → sc.reads R q = L l negated) :
    (∀ negated n q m, sc.compile p negated n = .ok q m → sc.reads R q = p.evaluate L negated) ∧
    ((∀ l ∈ p.leaves, L l true = (L l false)ᶜ) →
      ∀ n q m n' q' m', sc.compile p false n = .ok q m → sc.compile p true n' = .ok q' m' →
        sc.reads R q' = (sc.reads R q)ᶜ) := by
  simp only [readsPlan] at *
  have structural : ∀ negated n q m, sc.compile p negated n = .ok q m →
      readingOrAll (fun s => R (s.toSelect sc.layout)) q = p.evaluate L negated :=
    fun _ _ _ _ ok => compileReads nothing p leaves ok
  refine ⟨structural, fun dual n q m n' q' m' positive negative => ?_⟩
  rw [structural true n' q' m' negative, structural false n q m positive]
  exact Predicate.evaluateNegated p dual

end Scope

namespace SetAlgebraSample

def persons : Scope where
  schema := Schema.empty.withAttribute ⟨"Person", "name"⟩ (.of "person_name" 0)
  layout := .default
  typeIds := [1]

def named : Leaf := .compare (.of ⟨"Person", "name"⟩) .eq (.literal (.text "Alice"))

def reading (s : Sql.Select) : Set Bool :=
  match s.joins with
  | [] => if s.filters.length = 1 then Set.univ else ∅
  | j :: _ => {j.kind == .inner}

theorem nothingIsEmpty (n q m) (ok : persons.nothing n = .ok q m) : persons.reads reading (some q) = ∅ := by
  cases ok
  rfl

theorem namedReads (negated n q m) (ok : persons.leaf named negated n = .ok q m) :
    persons.reads reading q = {!negated} := by
  cases negated <;> cases ok <;> rfl

def unnamed : Predicate := .not (.all [.leaf named, .all []])

theorem compileIsSetAlgebraOfUnnamed :
    (∀ n q m, persons.nothing n = .ok q m → persons.reads reading (some q) = ∅) ∧
    (∀ l ∈ unnamed.leaves, ∀ negated n q m,
      persons.leaf l negated n = .ok q m → persons.reads reading q = {!negated}) ∧
    (∀ l ∈ unnamed.leaves, ({!true} : Set Bool) = {!false}ᶜ) ∧
    ∃ q m q' m', persons.compile unnamed false 0 = .ok q m ∧ persons.compile unnamed true 0 = .ok q' m' ∧
      persons.reads reading q = {false} ∧ persons.reads reading q' = {true} := by
  have leaves : ∀ l ∈ unnamed.leaves, ∀ negated n q m,
      persons.leaf l negated n = .ok q m → persons.reads reading q = {!negated} := by
    intro l mem negated n q m ok
    obtain rfl := List.mem_singleton.mp mem
    exact namedReads negated n q m ok
  have dual : ∀ l ∈ unnamed.leaves, ({!true} : Set Bool) = {!false}ᶜ := by
    intro l mem
    ext b
    cases b <;> simp
  have algebra := Scope.compileIsSetAlgebra persons reading (fun _ negated => {!negated}) unnamed
    nothingIsEmpty leaves
  have positive : persons.reads reading _ = {false} :=
    (algebra.1 false 0 _ _ rfl).trans (by simp [unnamed, Predicate.evaluate, Predicate.evaluateEach])
  refine ⟨nothingIsEmpty, leaves, dual, _, _, _, _, rfl, rfl, positive, ?_⟩
  rw [algebra.2 dual 0 _ _ 0 _ _ rfl rfl, positive]
  ext b
  cases b <;> simp

end SetAlgebraSample
end ObjectQuery
