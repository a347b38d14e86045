import Mathlib.Data.List.Forall2
import ObjectQuery.Proofs.BoundValue
import ObjectQuery.Proofs.Link

/-! Conditions on the elements of a collection, as they compile: the joins along the path come first, then the
elements are tested on the row of the collection. -/
namespace ObjectQuery
open Outcome

section
variable {α β : Type} {R : α → β → Prop} {xs : List α} {ys : List β}

theorem pairedFrom (paired : List.Forall₂ R xs ys) {y : β} (mem : y ∈ ys) : ∃ x ∈ xs, R x y := by
  induction paired with
  | nil => cases mem
  | cons first _ ih =>
    rcases List.mem_cons.mp mem with rfl | mem
    · exact ⟨_, List.mem_cons_self, first⟩
    · obtain ⟨x, inside, related⟩ := ih mem
      exact ⟨x, List.mem_cons_of_mem _ inside, related⟩

theorem pairedTo (paired : List.Forall₂ R xs ys) {x : α} (mem : x ∈ xs) : ∃ y ∈ ys, R x y :=
  pairedFrom paired.flip mem

end

namespace Context

variable {ctx : Context} {kind : JoinKind} {p : PropertyPath} {r r' : Route}

structure CollectionLaid (ctx : Context) (kind : JoinKind) (p : PropertyPath) (root : Alias) (r : Route)
    (target : PropertyTarget) (source : ElementSource) (links : List Link) (r' : Route) : Prop where
  path : TargetLaid ctx kind p root r target links r'
  tableAlias : source.tableAlias = target.tableAlias
  name : source.name = p.last
  table : ctx.lookup p.last = .ok source.table
  isCollection : source.table.isCollection = true

theorem layCollectionLaid {root : Alias} {target : PropertyTarget} {source : ElementSource}
    (ok : ctx.layCollection p root kind r = .ok (target, source) r') :
    ∃ links, CollectionLaid ctx kind p root r target source links r' := by
  obtain ⟨reached, u, path, ok⟩ := bindOk.mp ok
  obtain ⟨links, there⟩ := layPathLaid path
  obtain ⟨table, w, looked, ok⟩ := bindOk.mp ok
  obtain ⟨found, rfl⟩ := ofExceptOk.mp looked
  rw [there.name] at found
  split at ok
  · next collection =>
    obtain ⟨same, rfl⟩ := pureOk.mp ok
    cases same
    exact ⟨links, there, rfl, there.name, found, collection⟩
  · exact (throwOk.mp ok).elim

end Context

namespace Scope

variable {sc : Scope} {p : PropertyPath} {n m : Nat}

theorem complementIfOk {negated : Bool} {positive q : SetPlan} :
    sc.complementIf negated positive n = .ok q m ↔ (negated = false ∧ q = positive ∧ n = m) ∨
      (negated = true ∧ q = .compound .except (.select (all sc n)) positive ∧ n + 1 = m) := by
  cases negated with
  | false =>
    refine pureOk.trans ?_
    simp [eq_comm]
  | true =>
    refine complementOk.trans ?_
    simp [eq_comm]

theorem containsLaid {v : Value} {q : SetPlan} (ok : sc.contains p (.literal v) n = .ok q m) :
    ∃ target source links r test children joins,
      sc.CollectionLaid .inner p (.numbered n) ⟨n + 1, []⟩ target source links r ∧
      sc.elementTest source v [] r = .ok (test, children) ⟨m, joins⟩ ∧ v.isCollection = false ∧
      q = .select ⟨.numbered n, sc.typeIds, joins, [test], none⟩ := by
  obtain ⟨_, w, literal, ok⟩ := bindOk.mp ok
  obtain ⟨same, rfl⟩ := ofExceptOk.mp literal
  cases same
  split at ok
  · exact (throwBindOk.mp ok).elim
  · next single =>
    obtain ⟨joins, tests, division, laid, rfl⟩ := selectingOk.mp ok
    obtain ⟨⟨target, source⟩, u, collection, laid⟩ := bindOk.mp laid
    obtain ⟨links, there⟩ := Context.layCollectionLaid collection
    obtain ⟨⟨test, children⟩, w, element, laid⟩ := bindOk.mp laid
    obtain ⟨same, rfl⟩ := pureOk.mp laid
    cases same
    exact ⟨target, source, links, u, test, children, joins, there, element, by simpa using single, rfl⟩

def tallyOf (target : PropertyTarget) (elements : List Value) (tests : List Test) : Tally :=
  if elements.all Context.countsItself then .values target.value else .matches tests

theorem dividingLaid {elements : List Value} {q : SetPlan} (ok : sc.dividing p elements n = .ok q m) :
    ∃ target source links r tests children joins,
      sc.CollectionLaid .inner p (.numbered n) ⟨n + 1, []⟩ target source links r ∧
      sc.elementTests source elements [] r = .ok (tests, children) ⟨m, joins⟩ ∧
      q = .select ⟨.numbered n, sc.typeIds, joins, [.any tests],
        some ⟨tallyOf target elements tests, elements.length⟩⟩ := by
  obtain ⟨joins, tests, division, laid, rfl⟩ := selectingOk.mp ok
  obtain ⟨⟨target, source⟩, u, collection, laid⟩ := bindOk.mp laid
  obtain ⟨links, there⟩ := Context.layCollectionLaid collection
  obtain ⟨⟨tests, children⟩, w, element, laid⟩ := bindOk.mp laid
  obtain ⟨same, rfl⟩ := pureOk.mp laid
  cases same
  exact ⟨target, source, links, u, tests, children, joins, there, element, rfl⟩

theorem containsAllOk {items : List Value} {negated : Bool} {q : Option SetPlan}
    (some : Value.flattenAll items ≠ [])
    (ok : sc.containsAll p (.literal (.collection items)) negated n = .ok q m) :
    ∃ kept positive u, sc.keepDistinct [] (Value.flattenAll items) = .ok kept ∧
      sc.dividing p kept n = .ok positive u ∧
      ∃ plan, q = .some plan ∧ sc.complementIf negated positive u = .ok plan m := by
  obtain ⟨kept, w, asked, ok⟩ := bindOk.mp ok
  obtain ⟨distinct, rfl⟩ := ofExceptOk.mp asked
  obtain ⟨_, same, loop⟩ := distinctElementsOk.mp distinct
  cases same
  split at ok
  · next none =>
    exact absurd ((Context.keptNone loop).mp (List.isEmpty_iff.mp none)) some
  · obtain ⟨plan, made, rfl⟩ := mapOk.mp ok
    obtain ⟨positive, u, divided, made⟩ := bindOk.mp made
    exact ⟨kept, positive, u, loop, divided, plan, rfl, made⟩

theorem compiledContains {v : Value} {q : SetPlan}
    (ok : sc.compile (.leaf (.contains p (.literal v))) false n = .ok (some q) m) :
    sc.contains p (.literal v) n = .ok q m := by
  obtain ⟨_, made, same⟩ := mapOk.mp ok
  cases same
  obtain ⟨positive, u, contains, made⟩ := bindOk.mp made
  obtain ⟨rfl, rfl⟩ := pureOk.mp made
  exact contains

theorem compiledContainsAll {items : List Value} {q : Option SetPlan} (some : Value.flattenAll items ≠ [])
    (ok : sc.compile (.leaf (.containsAll p (.literal (.collection items)))) false n = .ok q m) :
    ∃ kept plan, sc.keepDistinct [] (Value.flattenAll items) = .ok kept ∧ sc.dividing p kept n = .ok plan m ∧
      q = .some plan := by
  obtain ⟨kept, positive, u, loop, divided, plan, rfl, made⟩ := containsAllOk some ok
  obtain ⟨_, rfl, rfl⟩ | ⟨negated, _⟩ := complementIfOk.mp made
  case inr => cases negated
  exact ⟨kept, plan, loop, divided, rfl⟩

end Scope
end ObjectQuery
