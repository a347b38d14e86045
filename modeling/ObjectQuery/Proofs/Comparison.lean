import ObjectQuery.Compile.Connective
import ObjectQuery.Proofs.Outcome

/-! Comparisons, and pattern matches likewise, compile to one selection on the bound operand. -/
namespace ObjectQuery
open Outcome

def Leaf.comparison? : Leaf → Option (PropertyPath × Operator × Operand)
  | .compare p c v => some (p, c.operatorUnder false, v)
  | .matches p v => some (p, .matches, v)
  | _ => none

namespace Context

def parameter (ctx : Context) (operand : Operand) : Except CompileError BoundParameter := do
  ctx.bind (← literal operand)

theorem bindNotNull {ctx : Context} {v : Value} {p : BoundParameter} (some : v.isNull = false)
    (ok : ctx.bind v = .ok p) : p.value.isNull = false := by
  unfold bind at ok
  split at ok
  · split at ok
    · cases ok
    · split at ok
      · split at ok
        · cases ok
        · obtain rfl := exceptPureOk.mp ok
          rfl
      · obtain rfl := exceptPureOk.mp ok
        exact some
  · cases ok

end Context

namespace Scope

def operatorAt (operator : Operator) (negated : Bool) : Operator :=
  if negated then operator.complement else operator

structure Compared (sc : Scope) (p : PropertyPath) (operator : Operator) (operand : Operand)
    (negated : Bool) (n : Nat) (q : SetPlan) (m : Nat) (kind : LeafKind) (parameter : BoundParameter) :
    Prop where
  bound : sc.parameter operand = .ok parameter
  notNull : parameter.value.isNull = false
  join : kind.join negated = if negated then .left else .inner
  selection : sc.scalarSelection kind p (operatorAt operator negated) parameter negated n = .ok q m

theorem compareCompared {sc : Scope} {p : PropertyPath} {c : Comparison} {operand : Operand}
    {negated : Bool} {n m : Nat} {q : SetPlan} (ok : sc.compare p c operand negated n = .ok q m) :
    ∃ parameter, Compared sc p (c.operatorUnder false) operand negated n q m c.kind parameter := by
  obtain ⟨v, u, read, ok⟩ := bindOk.mp ok
  obtain ⟨literal, rfl⟩ := ofExceptOk.mp read
  split at ok
  · exact (throwBindOk.mp ok).elim
  · next some =>
    obtain ⟨parameter, w, made, ok⟩ := bindOk.mp ok
    obtain ⟨bound, rfl⟩ := ofExceptOk.mp made
    have notNull := Context.bindNotNull (by simpa using some) bound
    have join : c.kind.join negated = if negated then .left else .inner := by
      cases c <;> cases negated <;> rfl
    refine ⟨parameter, exceptBindOk.mpr ⟨v, literal, bound⟩, notNull, join, ?_⟩
    cases negated <;> exact ok

theorem matchCompared {sc : Scope} {p : PropertyPath} {operand : Operand} {negated : Bool} {n m : Nat}
    {q : SetPlan} (ok : sc.matchPattern p operand negated n = .ok q m) :
    ∃ parameter, Compared sc p .matches operand negated n q m .matches parameter := by
  obtain ⟨parameter, u, made, ok⟩ := bindOk.mp ok
  obtain ⟨text, rfl⟩ := ofExceptOk.mp made
  obtain ⟨v, literal, bound⟩ := exceptBindOk.mp text
  split at bound
  · have notNull := Context.bindNotNull rfl bound
    refine ⟨parameter, exceptBindOk.mpr ⟨_, literal, bound⟩, notNull, ?_, ok⟩
    cases negated <;> rfl
  · cases bound

theorem comparisonLeaf (sc : Scope) {leaf : Leaf} {p : PropertyPath} {operator : Operator} {operand : Operand}
    (compares : leaf.comparison? = some (p, operator, operand)) :
    ∃ f : Bool → Compile SetPlan,
      (∀ negated, sc.leaf leaf negated = some <$> sc.onRow (sc.fansOut p) f negated) ∧
      ∀ negated n q m, f negated n = .ok q m →
        ∃ kind parameter, Compared sc p operator operand negated n q m kind parameter := by
  cases leaf with
  | compare path c v =>
    cases compares
    exact ⟨sc.compare p c operand, fun _ => rfl, fun _ _ _ _ ok => ⟨_, compareCompared ok⟩⟩
  | «matches» path v =>
    cases compares
    exact ⟨sc.matchPattern p operand, fun _ => rfl, fun _ _ _ _ ok => ⟨_, matchCompared ok⟩⟩
  | _ => cases compares

end Scope
end ObjectQuery
