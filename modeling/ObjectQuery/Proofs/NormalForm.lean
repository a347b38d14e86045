import Mathlib.Logic.Function.Iterate
import ObjectQuery.Compile.Request

/-! Negation normal form: only conditions on single paths are negated. A predicate and its normal form
are one computation, which gives the same plan under the same aliases or fails alike. -/
namespace ObjectQuery
namespace Predicate

mutual
def normal : Predicate → Bool → Predicate
  | .leaf l, false => .leaf l
  | .leaf l, true => .not (.leaf l)
  | .all ps, false => .all (normalEach ps false)
  | .all ps, true => .any (normalEach ps true)
  | .any ps, false => .any (normalEach ps false)
  | .any ps, true => .all (normalEach ps true)
  | .not p, negated => normal p (!negated)
def normalEach : List Predicate → Bool → List Predicate
  | [], _ => []
  | p :: ps, negated => normal p negated :: normalEach ps negated
end

mutual
def isNormal : Predicate → Bool
  | .leaf _ => true
  | .all ps => eachNormal ps
  | .any ps => eachNormal ps
  | .not (.leaf _) => true
  | .not _ => false
def eachNormal : List Predicate → Bool
  | [] => true
  | p :: ps => isNormal p && eachNormal ps
end

mutual
theorem normalIsNormal : ∀ (p : Predicate) (negated : Bool), (p.normal negated).isNormal = true
  | .leaf _, false => rfl
  | .leaf _, true => rfl
  | .all ps, false => eachIsNormal ps false
  | .all ps, true => eachIsNormal ps true
  | .any ps, false => eachIsNormal ps false
  | .any ps, true => eachIsNormal ps true
  | .not p, negated => normalIsNormal p (!negated)
theorem eachIsNormal : ∀ (ps : List Predicate) (negated : Bool), eachNormal (normalEach ps negated) = true
  | [], _ => rfl
  | p :: ps, negated => by
    rw [normalEach, eachNormal, normalIsNormal p negated, eachIsNormal ps negated, Bool.and_self]
end

mutual
theorem normalTwice : ∀ (p : Predicate) (outer inner : Bool),
    (p.normal inner).normal outer = p.normal (inner ^^ outer)
  | .leaf _, outer, inner => by cases inner <;> cases outer <;> rfl
  | .all ps, outer, inner => by
    cases inner <;> cases outer <;> simp only [normal, normalEachTwice ps, Bool.xor_false, Bool.xor_true,
      Bool.not_false, Bool.not_true]
  | .any ps, outer, inner => by
    cases inner <;> cases outer <;> simp only [normal, normalEachTwice ps, Bool.xor_false, Bool.xor_true,
      Bool.not_false, Bool.not_true]
  | .not p, outer, inner => by rw [normal, normalTwice p, normal, Bool.not_xor]
theorem normalEachTwice : ∀ (ps : List Predicate) (outer inner : Bool),
    normalEach (normalEach ps inner) outer = normalEach ps (inner ^^ outer)
  | [], _, _ => rfl
  | p :: ps, outer, inner => by
    rw [normalEach, normalEach, normalEach, normalTwice p, normalEachTwice ps]
end

theorem normalEachNot (ps : List Predicate) (negated : Bool) :
    normalEach (ps.map .not) negated = normalEach ps (!negated) := by
  induction ps with
  | nil => rfl
  | cons p ps ih => rw [List.map_cons, normalEach, normalEach, normal, ih]

theorem normalNotAll (ps : List Predicate) (negated : Bool) :
    (Predicate.not (.all ps)).normal negated = (Predicate.any (ps.map .not)).normal negated := by
  cases negated <;> simp only [normal, normalEachNot, Bool.not_false, Bool.not_true]

theorem normalNotAny (ps : List Predicate) (negated : Bool) :
    (Predicate.not (.any ps)).normal negated = (Predicate.all (ps.map .not)).normal negated := by
  cases negated <;> simp only [normal, normalEachNot, Bool.not_false, Bool.not_true]

theorem normalNotStack (p : Predicate) (n : Nat) (negated : Bool) :
    (Nat.iterate Predicate.not (2 * n) p).normal negated = p.normal negated := by
  induction n generalizing p with
  | zero => rfl
  | succ n ih =>
    have pair : Nat.iterate Predicate.not (2 * (n + 1)) p = Nat.iterate .not (2 * n) (.not (.not p)) := rfl
    rw [pair, ih, normal, normal, Bool.not_not]

end Predicate

namespace Scope
open Predicate

mutual
theorem compileNormal (sc : Scope) : ∀ (p : Predicate) (negated : Bool),
    sc.compile (p.normal negated) false = sc.compile p negated
  | .leaf _, false => rfl
  | .leaf _, true => rfl
  | .all ps, false => by rw [normal, compile, compile, compileEachNormal]
  | .all ps, true => by rw [normal, compile, compile, compileEachNormal, Bool.not_true]
  | .any ps, false => by rw [normal, compile, compile, compileEachNormal]
  | .any ps, true => by rw [normal, compile, compile, compileEachNormal, Bool.not_false]
  | .not p, negated => by rw [normal, compile, compileNormal]
theorem compileEachNormal (sc : Scope) : ∀ (ps : List Predicate) (negated : Bool),
    sc.compileEach (normalEach ps negated) false = sc.compileEach ps negated
  | [], _ => rfl
  | p :: ps, negated => by rw [normalEach, compileEach, compileEach, compileNormal, compileEachNormal]
end

end Scope

namespace Context

structure CompilesAlike (ctx : Context) (p q : Predicate) : Prop where
  plans : ∀ ids negated, (Scope.mk ctx ids).compile p negated = (Scope.mk ctx ids).compile q negated
  rows : ∀ r : Request, ctx.compileRows { r with predicate := some p } =
    ctx.compileRows { r with predicate := some q }
  count : ∀ r : Request, ctx.compileCount { r with predicate := some p } =
    ctx.compileCount { r with predicate := some q }

theorem alikeByNormal (ctx : Context) {p q : Predicate}
    (same : ∀ negated, p.normal negated = q.normal negated) : ctx.CompilesAlike p q := by
  have plans : ∀ ids negated, (Scope.mk ctx ids).compile p negated = (Scope.mk ctx ids).compile q negated := by
    intro ids negated
    rw [← Scope.compileNormal _ p, same, Scope.compileNormal]
  have restrict : ∀ r : Request, ctx.restrict { r with predicate := some p } =
      ctx.restrict { r with predicate := some q } := by
    intro r
    simp only [Context.restrict, plans]
  have rows : ∀ r : Request, ctx.rowPlan { r with predicate := some p } =
      ctx.rowPlan { r with predicate := some q } := by
    intro r
    rw [rowPlan, rowPlan, restrict]
    rfl
  exact ⟨plans, fun r => by rw [compileRows, compileRows, rows],
    fun r => by rw [compileCount, compileCount, restrict]⟩

theorem negationNormalFormCompilesAlike (ctx : Context) :
    (∀ ids p negated, (p.normal negated).isNormal = true ∧
      (Scope.mk ctx ids).compile p negated = (Scope.mk ctx ids).compile (p.normal negated) false) ∧
    (∀ p, ctx.CompilesAlike p (p.normal false)) ∧
    (∀ ps, ctx.CompilesAlike (.not (.all ps)) (.any (ps.map .not))) ∧
    (∀ ps, ctx.CompilesAlike (.not (.any ps)) (.all (ps.map .not))) ∧
    ∀ p n, ctx.CompilesAlike (Nat.iterate .not (2 * n) p) p :=
  ⟨fun _ p negated => ⟨p.normalIsNormal negated, (Scope.compileNormal _ p negated).symm⟩,
    fun p => ctx.alikeByNormal fun negated => by rw [p.normalTwice, Bool.false_xor],
    fun ps => ctx.alikeByNormal (Predicate.normalNotAll ps),
    fun ps => ctx.alikeByNormal (Predicate.normalNotAny ps),
    fun p n => ctx.alikeByNormal (p.normalNotStack n)⟩

end Context
end ObjectQuery
