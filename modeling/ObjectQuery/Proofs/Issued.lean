import ObjectQuery.Proofs.Comparison
import ObjectQuery.Proofs.ElementScope

/-! Aliases of compiled predicates. Each selection takes consecutive numbers for its tables, and no two
selections of a plan share one; its joins and tests are in scope. -/
namespace ObjectQuery
open Outcome

theorem Alias.blockMem {first count : Nat} {a : Alias} :
    a ∈ Alias.block first count ↔ ∃ i, first ≤ i ∧ i < first + count ∧ .numbered i = a := by
  simp [Alias.block, List.mem_range'_1, and_assoc]

theorem Alias.blockNodup (first count : Nat) : (Alias.block first count).Nodup := by
  have injective : ∀ i j, i ≠ j → Alias.numbered i ≠ .numbered j := fun i j other same =>
    other (Alias.numbered.inj same)
  exact List.Pairwise.map _ injective (List.nodup_range' _)

def Alias.AllNumbered (aliases : List Alias) : Prop := ∀ a ∈ aliases, ∃ i, .numbered i = a

theorem Alias.AllNumbered.block (first count : Nat) : AllNumbered (Alias.block first count) := by
  intro a mem
  obtain ⟨i, _, _, same⟩ := Alias.blockMem.mp mem
  exact ⟨i, same⟩

def Division.Within (ctx : Context) (aliases : List Alias) (d : Division) : Prop :=
  match d.tally with
  | .values c => c.Within ctx aliases
  | .matches tests => ∀ t ∈ tests, t.Within ctx aliases

def Selection.aliases (s : Selection) : List Alias := s.root :: s.joins.map (·.tableAlias)

def SetQuery.aliases (q : SetPlan) : List Alias := q.statements.flatMap Selection.aliases

structure Selection.Proper (ctx : Context) (n m : Nat) (s : Selection) : Prop where
  block : s.aliases = Alias.block n s.aliases.length
  issued : n + s.aliases.length = m
  joins : JoinsWithin ctx [s.root] s.joins
  tests : ∀ t ∈ s.tests, t.Within ctx s.aliases
  division : ∀ d, s.division = some d → d.Within ctx s.aliases

theorem Selection.Proper.distinct {ctx : Context} {n m : Nat} {s : Selection} (proper : s.Proper ctx n m) :
    s.aliases.Nodup := by
  rw [proper.block]
  exact Alias.blockNodup _ _

theorem Selection.Proper.rootOwn {ctx : Context} {n m : Nat} {s : Selection} (proper : s.Proper ctx n m) :
    ∀ j ∈ s.joins, s.root ≠ j.tableAlias := fun _ mem same =>
  (List.nodup_cons.mp proper.distinct).1 (same ▸ List.mem_map_of_mem mem)

namespace SetPlan

structure Proper (ctx : Context) (n m : Nat) (q : SetPlan) : Prop where
  le : n ≤ m
  each : ∀ s ∈ q.statements, ∃ a b, n ≤ a ∧ b ≤ m ∧ s.Proper ctx a b
  distinct : q.aliases.Nodup

variable {ctx : Context} {n m n' m' a b : Nat} {q l r : SetPlan}

theorem Proper.select {s : Selection} (proper : s.Proper ctx n m) : Proper ctx n m (.select s) := by
  have le : n ≤ m := proper.issued ▸ Nat.le_add_right _ _
  have each : ∀ t ∈ SetQuery.statements (.select s), ∃ a b, n ≤ a ∧ b ≤ m ∧ t.Proper ctx a b := by
    intro t mem
    obtain rfl := List.mem_singleton.mp mem
    exact ⟨n, m, Nat.le_refl n, Nat.le_refl m, proper⟩
  have only : SetQuery.aliases (.select s) = s.aliases := by simp [SetQuery.aliases, SetQuery.statements]
  exact ⟨le, each, only ▸ proper.distinct⟩

theorem Proper.widen (proper : Proper ctx n m q) (low : n' ≤ n) (high : m ≤ m') : Proper ctx n' m' q := by
  have le := proper.le
  have each : ∀ s ∈ q.statements, ∃ a b, n' ≤ a ∧ b ≤ m' ∧ s.Proper ctx a b := by
    intro s mem
    obtain ⟨a, b, first, last, own⟩ := proper.each s mem
    exact ⟨a, b, by omega, by omega, own⟩
  exact ⟨by omega, each, proper.distinct⟩

theorem Proper.between (proper : Proper ctx n m q) {x : Alias} (mem : x ∈ q.aliases) :
    ∃ i, n ≤ i ∧ i < m ∧ .numbered i = x := by
  obtain ⟨s, inside, mem⟩ := List.mem_flatMap.mp mem
  obtain ⟨a, b, low, high, own⟩ := proper.each s inside
  rw [own.block] at mem
  obtain ⟨i, first, last, same⟩ := Alias.blockMem.mp mem
  rw [own.issued] at last
  exact ⟨i, by omega, by omega, same⟩

theorem Proper.disjoint (left : Proper ctx n m l) (right : Proper ctx a b r) (apart : m ≤ a) :
    ∀ x ∈ l.aliases, ∀ y ∈ r.aliases, x ≠ y := by
  intro x inLeft y inRight same
  obtain ⟨i, _, below, rfl⟩ := left.between inLeft
  obtain ⟨j, above, _, rfl⟩ := right.between inRight
  cases same
  omega

theorem Proper.compound {operator : SetOperator} (left : Proper ctx n m l) (right : Proper ctx n m r)
    (apart : ∀ x ∈ l.aliases, ∀ y ∈ r.aliases, x ≠ y) : Proper ctx n m (.compound operator l r) := by
  have each : ∀ s ∈ SetQuery.statements (.compound operator l r), ∃ a b, n ≤ a ∧ b ≤ m ∧ s.Proper ctx a b := by
    intro s mem
    rcases List.mem_append.mp mem with mem | mem
    · exact left.each s mem
    · exact right.each s mem
  have both : SetQuery.aliases (.compound operator l r) = l.aliases ++ r.aliases := by
    simp [SetQuery.aliases, SetQuery.statements]
  have distinct := List.nodup_append.mpr ⟨left.distinct, right.distinct, apart⟩
  exact ⟨left.le, each, both ▸ distinct⟩

theorem Proper.inOrder {operator : SetOperator} (left : Proper ctx n a l) (right : Proper ctx a m r) :
    Proper ctx n m (.compound operator l r) :=
  .compound (left.widen (Nat.le_refl n) right.le) (right.widen left.le (Nat.le_refl m))
    (left.disjoint right (Nat.le_refl a))

theorem Proper.reversed {operator : SetOperator} (right : Proper ctx n a r) (left : Proper ctx a m l) :
    Proper ctx n m (.compound operator l r) :=
  .compound (left.widen right.le (Nat.le_refl m)) (right.widen (Nat.le_refl n) left.le)
    fun x inLeft y inRight same => right.disjoint left (Nat.le_refl a) y inRight x inLeft same.symm

end SetPlan

namespace Scope

variable {sc : Scope} {n m : Nat} {q : SetPlan}

theorem bareProper {tests : List Test} (within : ∀ t ∈ tests, t.Within sc.toContext [.numbered n]) :
    Selection.Proper sc.toContext n (n + 1) { all sc n with tests := tests } :=
  ⟨rfl, rfl, trivial, within, fun d same => by cases same⟩

theorem nothingProper (ok : sc.nothing n = .ok q m) : q.Proper sc.toContext n m := by
  obtain ⟨rfl, rfl⟩ := nothingOk.mp ok
  exact .select (bareProper (List.forall_mem_singleton.mpr Test.withinNever))

theorem complementProper {positive : SetPlan} {u : Nat} (proper : positive.Proper sc.toContext n u)
    (ok : sc.complement positive u = .ok q m) : q.Proper sc.toContext n m := by
  obtain ⟨rfl, rfl⟩ := complementOk.mp ok
  exact .reversed proper (.select (bareProper (by simp)))

def InScope (sc : Scope) (lay : Alias → Lay (List Test × Option Division)) : Prop :=
  ∀ root r tests division r', lay root r = .ok (tests, division) r' →
    r.Grows sc.toContext root r' ∧ (∀ t ∈ tests, t.Within sc.toContext (r'.aliases root)) ∧
      ∀ d, division = some d → d.Within sc.toContext (r'.aliases root)

theorem selectingProper {lay : Alias → Lay (List Test × Option Division)} (inScope : sc.InScope lay)
    (ok : sc.selecting lay n = .ok q m) : q.Proper sc.toContext n m := by
  obtain ⟨joins, tests, division, laid, rfl⟩ := selectingOk.mp ok
  obtain ⟨grows, within, divided⟩ := inScope _ _ _ _ _ laid
  obtain ⟨rfl, aliases, joined⟩ := grows.fresh
  have block : Alias.numbered n :: joins.map (·.tableAlias) = Alias.block n (joins.length + 1) := by
    rw [aliases, Alias.block, Alias.block, List.range'_succ, List.map_cons]
  have issued : n + ((joins.map (·.tableAlias)).length + 1) = n + 1 + joins.length := by
    rw [List.length_map]
    omega
  exact .select ⟨by simpa [Selection.aliases] using block, issued, joined, within, divided⟩

theorem complementIfProper {negated : Bool} {positive : SetPlan} {u : Nat}
    (proper : positive.Proper sc.toContext n u) (ok : sc.complementIf negated positive u = .ok q m) :
    q.Proper sc.toContext n m := by
  cases negated with
  | false =>
    obtain ⟨rfl, rfl⟩ := pureOk.mp ok
    exact proper
  | true => exact complementProper proper ok

theorem onRowProper {fansOut : Except CompileError Bool} {f : Bool → Compile SetPlan} {negated : Bool}
    (each : ∀ negated n q m, f negated n = .ok q m → q.Proper sc.toContext n m)
    (ok : sc.onRow fansOut f negated n = .ok q m) : q.Proper sc.toContext n m := by
  cases negated with
  | false => exact each false n q m ok
  | true =>
    obtain ⟨many, u, asked, ok⟩ := bindOk.mp ok
    obtain ⟨_, rfl⟩ := ofExceptOk.mp asked
    cases many with
    | false => exact each true n q m ok
    | true =>
      obtain ⟨positive, w, compiled, ok⟩ := bindOk.mp ok
      exact complementProper (each false n positive w compiled) ok

theorem comparisonTestWithin {ctx : Context} {aliases : List Alias} {c : Column} {operator : Operator}
    {parameter : BoundParameter} {negated : Bool} (within : c.Within ctx aliases) :
    (comparisonTest c operator parameter negated).Within ctx aliases := by
  have compared : (Test.compare c operator parameter).Within ctx aliases := Test.withinOn within
  have missing : (Test.isNull c).Within ctx aliases := Test.withinOn within
  unfold comparisonTest
  split
  · exact Test.withinAny.mpr (List.forall_mem_cons.mpr ⟨missing, List.forall_mem_singleton.mpr compared⟩)
  · exact compared

theorem scalarProper {kind : LeafKind} {p : PropertyPath} {operator : Operator} {parameter : BoundParameter}
    {negated : Bool} (ok : sc.scalarSelection kind p operator parameter negated n = .ok q m) :
    q.Proper sc.toContext n m := by
  refine selectingProper ?_ ok
  intro root r tests division r' laid
  obtain ⟨target, u, path, laid⟩ := bindOk.mp laid
  split at laid
  · exact (throwBindOk.mp laid).elim
  · obtain ⟨same, rfl⟩ := pureOk.mp laid
    cases same
    obtain ⟨grows, _, value⟩ := Context.layPathGrows List.mem_cons_self path
    exact ⟨grows, List.forall_mem_singleton.mpr (comparisonTestWithin value), fun d same => by cases same⟩

theorem nullTestsWithin {ctx : Context} {aliases : List Alias} {c : Column} {isNull negated : Bool}
    (within : c.Within ctx aliases) : ∀ t ∈ nullTests c isNull negated, t.Within ctx aliases := by
  intro t mem
  unfold nullTests at mem
  split at mem
  · obtain rfl := List.mem_singleton.mp mem
    exact Test.withinOn within
  · cases mem

theorem propertyNullProper {p : PropertyPath} {isNull negated : Bool}
    (ok : sc.propertyNull p isNull negated n = .ok q m) : q.Proper sc.toContext n m := by
  refine selectingProper ?_ ok
  intro root r tests division r' laid
  obtain ⟨target, u, path, laid⟩ := bindOk.mp laid
  obtain ⟨same, rfl⟩ := pureOk.mp laid
  cases same
  obtain ⟨grows, _, value⟩ := Context.layPathGrows List.mem_cons_self path
  exact ⟨grows, nullTestsWithin value, fun d same => by cases same⟩

theorem associationNullProper {a : AssociationPath} {isNull negated : Bool}
    (ok : sc.associationNull a isNull negated n = .ok q m) : q.Proper sc.toContext n m := by
  refine selectingProper ?_ ok
  intro root r tests division r' laid
  obtain ⟨target, u, path, laid⟩ := bindOk.mp laid
  obtain ⟨same, rfl⟩ := pureOk.mp laid
  cases same
  obtain ⟨grows, reference⟩ := Context.layAssociationGrows List.mem_cons_self path
  exact ⟨grows, nullTestsWithin reference, fun d same => by cases same⟩

theorem reachesProper {a : AssociationPath} {operand : Operand} (ok : sc.reaches a operand n = .ok q m) :
    q.Proper sc.toContext n m := by
  obtain ⟨parameter, u, text, ok⟩ := bindOk.mp ok
  obtain ⟨_, rfl⟩ := ofExceptOk.mp text
  refine selectingProper ?_ ok
  intro root r tests division r' laid
  obtain ⟨target, v, path, laid⟩ := bindOk.mp laid
  obtain ⟨entity, w, joined, laid⟩ := bindOk.mp laid
  obtain ⟨same, rfl⟩ := pureOk.mp laid
  cases same
  obtain ⟨grows, reference⟩ := Context.layAssociationGrows List.mem_cons_self path
  obtain ⟨more, reached⟩ := Context.layEntityGrows reference joined
  have identity := Test.withinOn (t := .compare (sc.layout.identityOf entity) .eq parameter)
    (Layout.identityWithin reached)
  exact ⟨grows.trans more, List.forall_mem_singleton.mpr identity, fun d same => by cases same⟩

theorem containsProper {p : PropertyPath} {operand : Operand} (ok : sc.contains p operand n = .ok q m) :
    q.Proper sc.toContext n m := by
  obtain ⟨v, u, literal, ok⟩ := bindOk.mp ok
  obtain ⟨_, rfl⟩ := ofExceptOk.mp literal
  split at ok
  · exact (throwBindOk.mp ok).elim
  · refine selectingProper ?_ ok
    intro root r tests division r' laid
    obtain ⟨⟨target, source⟩, w, collection, laid⟩ := bindOk.mp laid
    obtain ⟨⟨test, children⟩, x, element, laid⟩ := bindOk.mp laid
    obtain ⟨same, rfl⟩ := pureOk.mp laid
    cases same
    obtain ⟨grows, _, here⟩ := Context.layCollectionGrows List.mem_cons_self collection
    have tested := Context.elementTested here (by simp [ChildrenWithin]) element
    exact ⟨grows.trans tested.grows, tested.tests, fun d same => by cases same⟩

theorem dividingProper {p : PropertyPath} {elements : List Value} (ok : sc.dividing p elements n = .ok q m) :
    q.Proper sc.toContext n m := by
  refine selectingProper ?_ ok
  intro root r tests division r' laid
  obtain ⟨⟨target, source⟩, w, collection, laid⟩ := bindOk.mp laid
  obtain ⟨⟨each, children⟩, x, listed, laid⟩ := bindOk.mp laid
  obtain ⟨same, rfl⟩ := pureOk.mp laid
  cases same
  obtain ⟨grows, value, here⟩ := Context.layCollectionGrows List.mem_cons_self collection
  have tested := Context.elementsTested here (by simp [ChildrenWithin]) listed
  refine ⟨grows.trans tested.grows, List.forall_mem_singleton.mpr (Test.withinAny.mpr tested.tests), ?_⟩
  intro d same
  cases same
  unfold Division.Within
  dsimp only
  -- the collection's own values are counted, or the elements that its rows match
  split
  · next c counted =>
    split at counted
    · cases counted
      exact value.widen tested.grows.subset
    · cases counted
  · next ts counted =>
    split at counted
    · cases counted
    · cases counted
      exact tested.tests

structure Issued (ctx : Context) (n m : Nat) (q : Option SetPlan) : Prop where
  le : n ≤ m
  plan : ∀ p, q = some p → SetPlan.Proper ctx n m p

theorem Issued.ofProper (proper : q.Proper sc.toContext n m) : Issued sc.toContext n m (some q) :=
  ⟨proper.le, fun p same => by cases same; exact proper⟩

theorem someIssued {x : Compile SetPlan} {part : Option SetPlan}
    (proper : ∀ q, x n = .ok q m → q.Proper sc.toContext n m) (ok : (some <$> x) n = .ok part m) :
    Issued sc.toContext n m part := by
  obtain ⟨q, compiled, rfl⟩ := mapOk.mp ok
  exact .ofProper (proper q compiled)

theorem containsAllIssued {p : PropertyPath} {operand : Operand} {negated : Bool} {part : Option SetPlan}
    (ok : sc.containsAll p operand negated n = .ok part m) : Issued sc.toContext n m part := by
  obtain ⟨elements, u, listed, ok⟩ := bindOk.mp ok
  obtain ⟨_, rfl⟩ := ofExceptOk.mp listed
  split at ok
  · split at ok
    · exact someIssued (fun q ok => nothingProper ok) ok
    · obtain ⟨rfl, rfl⟩ := pureOk.mp ok
      exact ⟨Nat.le_refl n, fun p same => by cases same⟩
  · refine someIssued (fun q ok => ?_) ok
    obtain ⟨positive, u, divided, ok⟩ := bindOk.mp ok
    exact complementIfProper (dividingProper divided) ok

theorem leafIssued {leaf : Leaf} {negated : Bool} {part : Option SetPlan}
    (ok : sc.leaf leaf negated n = .ok part m) : Issued sc.toContext n m part := by
  have comparison : ∀ p operator operand, leaf.comparison? = some (p, operator, operand) →
      Issued sc.toContext n m part := by
    intro p operator operand compares
    obtain ⟨f, leafIs, compared⟩ := comparisonLeaf sc compares
    rw [leafIs] at ok
    refine someIssued (fun q ok => onRowProper (fun negated n q m ok => ?_) ok) ok
    obtain ⟨kind, parameter, laid⟩ := compared negated n q m ok
    exact scalarProper laid.selection
  cases leaf with
  | compare p c v => exact comparison _ _ _ rfl
  | «matches» p v => exact comparison _ _ _ rfl
  | propertyNull p isNull =>
    exact someIssued (fun q ok => onRowProper (fun _ _ _ _ ok => propertyNullProper ok) ok) ok
  | associationNull a isNull =>
    exact someIssued (fun q ok => onRowProper (fun _ _ _ _ ok => associationNullProper ok) ok) ok
  | reaches a v =>
    refine someIssued (fun q ok => ?_) ok
    obtain ⟨positive, u, reached, ok⟩ := bindOk.mp ok
    exact complementIfProper (reachesProper reached) ok
  | contains p v =>
    refine someIssued (fun q ok => ?_) ok
    obtain ⟨positive, u, contained, ok⟩ := bindOk.mp ok
    exact complementIfProper (containsProper contained) ok
  | containsAll p v => exact containsAllIssued ok

def PartsIssued (ctx : Context) : Nat → Nat → List (Option SetPlan) → Prop
  | n, m, [] => n ≤ m
  | n, m, part :: rest => ∃ k, Issued ctx n k part ∧ PartsIssued ctx k m rest

variable {ctx : Context}

theorem foldIssued (operator : SetOperator) {parts : List (Option SetPlan)} {k : Nat} (first : q.Proper ctx n k)
    (issued : PartsIssued ctx k m parts) :
    SetPlan.Proper ctx n m ((parts.filterMap id).foldl (.compound operator) q) := by
  induction parts generalizing q k with
  | nil => exact first.widen (Nat.le_refl n) issued
  | cons part rest ih =>
    obtain ⟨j, next, issued⟩ := issued
    cases part with
    | none => exact ih (first.widen (Nat.le_refl n) next.le) issued
    | some p => exact ih (first.inOrder (next.plan p rfl)) issued

theorem chainIssued (operator : SetOperator) {parts : List (Option SetPlan)} (issued : PartsIssued ctx n m parts) :
    Issued ctx n m (chain operator (parts.filterMap id)) := by
  induction parts generalizing n with
  | nil => exact ⟨issued, fun p same => by cases same⟩
  | cons part rest ih =>
    obtain ⟨k, first, issued⟩ := issued
    cases part with
    | none =>
      obtain ⟨le, plan⟩ := ih issued
      exact ⟨Nat.le_trans first.le le, fun p same => (plan p same).widen first.le (Nat.le_refl m)⟩
    | some p =>
      have proper := foldIssued operator (first.plan p rfl) issued
      exact ⟨proper.le, fun p same => by cases same; exact proper⟩

theorem connectIssued {isIntersection : Bool} {parts : List (Option SetPlan)} {part : Option SetPlan} {k : Nat}
    (issued : PartsIssued sc.toContext n k parts) (ok : sc.connect isIntersection parts k = .ok part m) :
    Issued sc.toContext n m part := by
  cases isIntersection with
  | true =>
    obtain ⟨rfl, rfl⟩ := pureOk.mp ok
    exact chainIssued _ issued
  | false =>
    have joined := chainIssued .union issued
    rcases unionOk ok with ⟨_, rfl, rfl⟩ | ⟨_, rfl, _, rfl⟩ | ⟨_, _, q, empty, rfl⟩
    · exact ⟨joined.le, fun p same => by cases same⟩
    · exact joined
    -- the selection of nothing takes an alias after those of the operands
    · exact .ofProper ((nothingProper empty).widen joined.le (Nat.le_refl m))

mutual
theorem compileIssued : (p : Predicate) → ∀ {negated : Bool} {n m : Nat} {part : Option SetPlan},
    sc.compile p negated n = .ok part m → Issued sc.toContext n m part
  | .leaf l, _, _, _, _, ok => leafIssued ok
  | .all ps, _, _, _, _, ok => by
    obtain ⟨parts, u, each, ok⟩ := bindOk.mp ok
    exact connectIssued (compileEachIssued ps each) ok
  | .any ps, _, _, _, _, ok => by
    obtain ⟨parts, u, each, ok⟩ := bindOk.mp ok
    exact connectIssued (compileEachIssued ps each) ok
  | .not p, _, _, _, _, ok => compileIssued p ok
theorem compileEachIssued : (ps : List Predicate) → ∀ {negated : Bool} {n m : Nat}
    {parts : List (Option SetPlan)},
    sc.compileEach ps negated n = .ok parts m → PartsIssued sc.toContext n m parts
  | [], _, _, _, _, ok => by
    obtain ⟨rfl, rfl⟩ := pureOk.mp ok
    exact Nat.le_refl _
  | p :: ps, _, _, _, _, ok => by
    obtain ⟨part, u, first, ok⟩ := bindOk.mp ok
    obtain ⟨parts, w, each, ok⟩ := bindOk.mp ok
    obtain ⟨rfl, rfl⟩ := pureOk.mp ok
    exact ⟨u, compileIssued p first, compileEachIssued ps each⟩
end

end Scope
end ObjectQuery
