import ObjectQuery.Proofs.Untainted

/-! Texts of set queries read in one way. Statements with balanced parentheses are told apart from the
parentheses around the operands, so the text alone fixes every operator and what it is applied to. -/
namespace ObjectQuery
open Outcome

theorem SetOperator.keywordOnce {o o' : SetOperator} {rest rest' : List Char}
    (same : o.keyword.toList ++ rest = o'.keyword.toList ++ rest') : o = o' ∧ rest = rest' := by
  cases o <;> cases o' <;> simp_all [keyword]

theorem Sql.Select.startsSelect (s : Sql.Select) : ∃ rest, s.sql.toList = 'S' :: rest := by
  unfold Select.sql
  simp only [String.toList_append, List.append_assoc]
  exact ⟨_, rfl⟩

namespace SetQuery

def EachBalanced (q : SetQuery Sql.Select) : Prop := ∀ s ∈ q.statements, Balanced s.sql.toList

variable {o : SetOperator} {l r q : SetQuery Sql.Select}

theorem EachBalanced.left (each : EachBalanced (.compound o l r)) : l.EachBalanced :=
  fun s mem => each s (List.mem_append_left _ mem)

theorem EachBalanced.right (each : EachBalanced (.compound o l r)) : r.EachBalanced :=
  fun s mem => each s (List.mem_append_right _ mem)

theorem compoundText (o : SetOperator) (l r : SetQuery Sql.Select) : (compound o l r).sql.toList =
    '(' :: (l.sql.toList ++ ')' :: ' ' :: (o.keyword.toList ++ ' ' :: '(' :: (r.sql.toList ++ [')']))) := by
  simp [sql]

theorem EachBalanced.whole (each : q.EachBalanced) : Balanced q.sql.toList := by
  induction q with
  | select s => exact each s (List.mem_singleton_self s)
  | compound o l r left right =>
    have keyword : Balanced (' ' :: (o.keyword.toList ++ [' '])) := by
      cases o <;> exact .free (by decide) (by decide)
    have text : (compound o l r).sql.toList = '(' :: (l.sql.toList ++ [')']) ++
        (' ' :: (o.keyword.toList ++ [' ']) ++ '(' :: (r.sql.toList ++ [')'])) := by
      rw [compoundText]
      simp
    rw [text]
    exact (left each.left).group.append (keyword.append (right each.right).group)

theorem readOnce {q q' : SetQuery Sql.Select} (each : q.EachBalanced) (each' : q'.EachBalanced)
    (same : q.sql.toList = q'.sql.toList) : q.map (·.sql) = q'.map (·.sql) := by
  induction q generalizing q' with
  | select s =>
    cases q' with
    | select s' => exact congrArg SetQuery.select (String.toList_inj.mp same)
    | compound o l r =>
      obtain ⟨rest, text⟩ := s.startsSelect
      rw [compoundText] at same
      exact absurd (List.cons.inj (text.symm.trans same)).1 (by decide)
  | compound o l r left right =>
    cases q' with
    | select s =>
      obtain ⟨rest, text⟩ := s.startsSelect
      rw [compoundText] at same
      exact absurd (List.cons.inj (same.trans text)).1 (by decide)
    | compound o' l' r' =>
      rw [compoundText, compoundText] at same
      obtain ⟨first, after⟩ := each.left.whole.closesOnce each'.left.whole (List.cons.inj same).2
      obtain ⟨rfl, last⟩ := SetOperator.keywordOnce (List.cons.inj after).2
      have second := List.append_cancel_right (List.cons.inj (List.cons.inj last).2).2
      rw [map, map, left each.left each'.left first, right each.right each'.right second]

end SetQuery

theorem Scope.compiledBalanced {sc : Scope} {p : Predicate} {negated : Bool} {q : SetPlan} {n m : Nat}
    (names : sc.OrdinaryNames) (ok : sc.compile p negated n = .ok (some q) m) : (q.toSql sc.layout).EachBalanced := by
  intro s mem
  exact (planTrusted names ((compileIssued p ok).plan q rfl) (compileGrouped ok q rfl) s mem).balanced names.root

theorem SetQuery.textsReadOneWay :
    (∀ q q' : SetQuery Sql.Select, q.EachBalanced → q'.EachBalanced → q.sql = q'.sql →
      q.map (·.sql) = q'.map (·.sql)) ∧
    ∀ (sc : Scope) (catalog : Catalog), sc.layout.faults = [] → catalog.toSchema = .ok sc.schema →
      ∀ p negated q n m, sc.compile p negated n = .ok (some q) m → (q.toSql sc.layout).EachBalanced := by
  refine ⟨fun q q' each each' same => SetQuery.readOnce each each' (String.toList_inj.mpr same), ?_⟩
  intro sc catalog valid accepted p negated q n m ok
  exact Scope.compiledBalanced (Context.ordinaryNames valid (Catalog.toSchemaIdentified accepted)) ok

namespace UntaintedSample

def scope : Scope := ⟨people, [-5, 7]⟩

def noneNamed (text : String) : Predicate :=
  .not (.any [.leaf (.compare (.of ⟨"Person", "name"⟩) .eq (.literal (.text text))),
    .leaf (.contains (.of ⟨"Person", "nicknames"⟩) (.literal (.text text)))])

theorem namesReadOneWay : ∃ q q' m,
    scope.compile (noneNamed "Ann") false 1 = .ok (some q) m ∧
    scope.compile (noneNamed "Bob") false 1 = .ok (some q') m ∧
    (q.toSql .default).sql = (q'.toSql .default).sql ∧
    (q.toSql .default).map (·.sql) = (q'.toSql .default).map (·.sql) ∧
    (q.toSql .default).parameters.map (·.value) = [.text "Ann", .text "Ann"] ∧
    (q'.toSql .default).parameters.map (·.value) = [.text "Bob", .text "Bob"] := by
  obtain ⟨readOneWay, balanced⟩ := SetQuery.textsReadOneWay
  have valid : people.layout.faults = [] := by decide
  have accepted : catalog.toSchema = .ok people.schema := rfl
  have ann : scope.compile (noneNamed "Ann") false 1 = .ok (some _) _ := rfl
  have bob : scope.compile (noneNamed "Bob") false 1 = .ok (some _) _ := rfl
  have each := balanced scope catalog valid accepted _ _ _ _ _ ann
  have each' := balanced scope catalog valid accepted _ _ _ _ _ bob
  exact ⟨_, _, _, ann, bob, rfl, readOneWay _ _ each each' rfl, rfl, rfl⟩

end UntaintedSample
end ObjectQuery
