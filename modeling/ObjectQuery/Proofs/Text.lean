import ObjectQuery.Plan.Selection

/-! Properties of texts that appending keeps, and so do the ways in which a statement joins its parts. Lists joined
by a separator are split at it again. -/
namespace ObjectQuery

structure KeptByAppend (P : String → Prop) : Prop where
  empty : P ""
  append : ∀ {s t}, P s → P t → P (s ++ t)

namespace KeptByAppend

variable {P : String → Prop} {keyword separator : String} {parts : List String} (kept : KeptByAppend P)
include kept

theorem intercalate (between : P separator) (each : ∀ s ∈ parts, P s) : P (separator.intercalate parts) := by
  induction parts with
  | nil => exact kept.empty
  | cons s rest ih =>
    have ih := ih fun t mem => each t (List.mem_cons_of_mem _ mem)
    have first := each s List.mem_cons_self
    cases rest with
    | nil => simpa using first
    | cons t rest =>
      rw [String.intercalate_cons_cons]
      exact kept.append (kept.append first between) ih

theorem join (each : ∀ s ∈ parts, P s) : P (String.join parts) := by
  induction parts with
  | nil => exact kept.empty
  | cons s rest ih =>
    rw [String.join_cons]
    exact kept.append (each s List.mem_cons_self) (ih fun t mem => each t (List.mem_cons_of_mem _ mem))

theorem clause (start : P keyword) (between : P separator) (each : ∀ s ∈ parts, P s) :
    P (Sql.Select.clause keyword separator parts) := by
  unfold Sql.Select.clause
  split
  · exact kept.empty
  · exact kept.append start (kept.intercalate between each)

theorem option {part : Option String} (start : P keyword) (each : ∀ s, part = some s → P s) :
    P (Sql.Select.option keyword part) := by
  cases part with
  | none => exact kept.empty
  | some s => exact kept.append start (each s rfl)

theorem number (start : P keyword) (digits : ∀ n : Nat, P (toString n)) (n : Option UInt64) :
    P (Sql.Select.option keyword (n.map (toString ·.toNat))) := by
  refine kept.option start fun s same => ?_
  obtain ⟨k, _, rfl⟩ := Option.map_eq_some_iff.mp same
  exact digits k.toNat

end KeptByAppend

theorem digitOfNat {n : Nat} {c : Char} (mem : c ∈ (toString n).toList) : c.isDigit = true := by
  rw [Nat.toString_eq_ofList_toDigits, String.toList_ofList] at mem
  exact Nat.isDigit_of_mem_toDigits (by decide) (by decide) mem

theorem countDistinctText (s : String) :
    "COUNT(DISTINCT " ++ s ++ ")" = "COUNT" ++ ("(" ++ ("DISTINCT " ++ s) ++ ")") := by
  rw [← String.toList_inj]
  simp

theorem Division.valuesText (c : Column) (required : Nat) : (toCondition ⟨.values c, required⟩).sql =
    "COUNT(DISTINCT " ++ c.text ++ ")" ++ (" >= " ++ toString required) := by
  rw [← String.toList_inj]
  simp [toCondition, Condition.raw]

theorem Division.matchesText (tests : List Test) (required : Nat) : (toCondition ⟨.matches tests, required⟩).sql =
    "COUNT(DISTINCT " ++ ("CASE " ++ " ".intercalate (whenClauses 1 (Test.toConditions tests)) ++ " END") ++ ")" ++
      (" >= " ++ toString required) := by
  rw [← String.toList_inj]
  simp [toCondition]

theorem SetQuery.compoundParts (o : SetOperator) (l r : SetQuery Sql.Select) : (SetQuery.compound o l r).sql =
    "(" ++ l.sql ++ ")" ++ " " ++ o.keyword ++ " " ++ ("(" ++ r.sql ++ ")") := by
  rw [← String.toList_inj]
  simp [sql]

section
variable {α ι : Type} {separator : α} {ts : List ι} {part : ι → List α}

theorem intercalatedMem {x : α} (mem : x ∈ [separator].intercalate (ts.map part)) :
    x = separator ∨ ∃ t ∈ ts, x ∈ part t := by
  induction ts with
  | nil => cases mem
  | cons t rest ih =>
    cases rest with
    | nil => exact .inr ⟨t, List.mem_cons_self, by simpa using mem⟩
    | cons u rest =>
      simp only [List.map_cons, List.intercalate_cons_cons, List.mem_append, List.mem_singleton] at ih mem
      rcases mem with (inside | rfl) | mem
      · exact .inr ⟨t, List.mem_cons_self, inside⟩
      · exact .inl rfl
      · obtain same | ⟨v, later, inside⟩ := ih mem
        · exact .inl same
        · exact .inr ⟨v, List.mem_cons_of_mem _ later, inside⟩

theorem splitIntercalated {p : α → Bool} (splits : p separator = true) (some : ts ≠ [])
    (free : ∀ t ∈ ts, ∀ x ∈ part t, p x = false) : ([separator].intercalate (ts.map part)).splitOnP p = ts.map part := by
  induction ts with
  | nil => exact absurd rfl some
  | cons t rest ih =>
    obtain ⟨first, others⟩ := List.forall_mem_cons.mp free
    cases rest with
    | nil => simpa using List.splitOnP_eq_singleton fun x mem => by simp [first x mem]
    | cons u rest =>
      have ih := ih (by simp) others
      simp only [List.map_cons, List.intercalate_cons_cons, List.append_assoc, List.singleton_append] at ih ⊢
      rw [List.splitOnP_append_cons_of_forall_mem (fun x mem => by simp [first x mem]) _ splits, ih]

theorem mapMGiven {β : Type} {f : α → Option β} {x : ι → α} {y : ι → β} (each : ∀ t ∈ ts, f (x t) = some (y t)) :
    (ts.map x).mapM f = some (ts.map y) := by
  induction ts with
  | nil => rfl
  | cons t rest ih =>
    obtain ⟨first, others⟩ := List.forall_mem_cons.mp each
    simp [List.mapM_cons, first, ih others]

end

end ObjectQuery
