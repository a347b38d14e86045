import ObjectQuery.Proofs.Grouped
import ObjectQuery.Proofs.TextItems
import ObjectQuery.Proofs.Trusted

/-! How the texts of conditions are put together: columns among keywords and numbers, placeholders, the pattern of
a collection's own elements, lists of type ids and groups. No name touches the text next to it. -/
namespace ObjectQuery
open SqlText

def SqlText.keywords : List String := ["", " ", ", ", " AND ", " OR ", "1 = 0", " IS NULL", " IN ", " = ", " <> ",
  " > ", " >= ", " < ", " <= ", " ~ ", " !~ ", "COUNT", "DISTINCT ", "CASE ", "WHEN ", " THEN ", " END"]

theorem keywordOrdinary : ∀ s ∈ keywords, Ordinary s := by
  have each : (keywords.all fun s => s.toList.all isOrdinary) = true := rfl
  exact List.all_eq_true.mp each

inductive Written (column : Column → Prop) (label : String) (ids : List Int32) : String → Prop where
  | keyword {s} (known : s ∈ keywords) : Written column label ids s
  | number (n : Nat) : Written column label ids (toString n)
  | column {c} (read : column c) : Written column label ids c.text
  | placeholder : Written column label ids "?"
  | pattern : Written column label ids (quotedPattern label)
  | types (some : ids ≠ []) : Written column label ids ("(" ++ typeList ids ++ ")")
  | group {s} (inside : Written column label ids s) (some : s ≠ "") : Written column label ids ("(" ++ s ++ ")")
  | append {s t} (first : Written column label ids s) (next : Written column label ids t)
      (apart : endsApart s = true ∨ startsApart t = true) : Written column label ids (s ++ t)

variable {column : Column → Prop} {label : String} {ids : List Int32}

namespace Written

variable {s t : String}

theorem before (known : s ∈ keywords) (next : Written column label ids t) (apart : endsApart s = true) :
    Written column label ids (s ++ t) :=
  (Written.keyword known).append next (.inl apart)

theorem after (first : Written column label ids s) (known : t ∈ keywords) (apart : startsApart t = true) :
    Written column label ids (s ++ t) :=
  first.append (.keyword known) (.inr apart)

theorem intercalate {separator : String} {parts : List String} (known : separator ∈ keywords)
    (apart : startsApart separator = true ∧ endsApart separator = true) (some : separator ≠ "")
    (each : ∀ s ∈ parts, Written column label ids s) : Written column label ids (separator.intercalate parts) := by
  induction parts with
  | nil => exact .keyword (by decide : "" ∈ keywords)
  | cons s rest ih =>
    obtain ⟨first, others⟩ := List.forall_mem_cons.mp each
    have ih := ih others
    cases rest with
    | nil => simpa using first
    | cons t rest =>
      rw [String.intercalate_cons_cons, String.append_assoc]
      exact first.append (ih.before known apart.2) (.inr ((startsApartAppend _ some).trans apart.1))

theorem trusted (ordinary : ∀ c, column c → Ordinary c.text) (written : Written column label ids s) :
    Trusted label ids s := by
  induction written with
  | keyword known => exact .ordinary (keywordOrdinary _ known)
  | number n => exact .ordinary (ordinaryNat n)
  | column read => exact .ordinary (ordinary _ read)
  | placeholder => exact .placeholder
  | pattern => exact .pattern
  | types some => exact .types some
  | group inside some ih => exact .group ih some
  | append first next apart ihFirst ihNext => exact .append ihFirst ihNext

theorem countDistinct (inside : Written column label ids s) :
    Written column label ids ("COUNT(DISTINCT " ++ s ++ ")") := by
  have inner : Written column label ids ("(" ++ ("DISTINCT " ++ s) ++ ")") :=
    .group (inside.before (by decide) rfl) (by simp [String.append_eq_empty_iff])
  rw [countDistinctText]
  exact (Written.keyword (by decide : "COUNT" ∈ keywords)).append inner (.inr (by simp [startsApart, breaks, isMark]))

end Written

theorem Condition.groupWritten {separator : String} {cs : List Condition} (known : separator ∈ keywords)
    (apart : startsApart separator = true ∧ endsApart separator = true) (between : separator ≠ "") (some : cs ≠ [])
    (each : ∀ c ∈ cs, Written column label ids c.sql) : Written column label ids (group separator cs).sql := by
  match cs with
  | [] => exact absurd rfl some
  | [c] => exact each c List.mem_cons_self
  | c :: d :: rest =>
    have parts : ∀ s ∈ (c :: d :: rest).map (·.sql), Written column label ids s := List.forall_mem_map.mpr each
    refine .group (.intercalate known apart between parts) ?_
    rw [List.map_cons, List.map_cons, String.intercalate_cons_cons]
    intro empty
    exact between (String.append_eq_empty_iff.mp (String.append_eq_empty_iff.mp empty).1).2

namespace Test

def Writable (column : Column → Prop) (label : String) : Test → Prop :=
  WrittenWith column fun pattern => pattern = label ++ ".*\x7b1,\x7d"

mutual
theorem conditionWritten : (t : Test) → t.Writable column label → Written column label ids t.toCondition.sql
  | .never, _ => .keyword (by decide)
  | .typeAmong _ _, writable => by cases writable.grouped
  | .isNull _, writable => (Written.column (writable.on rfl)).after (by decide : " IS NULL" ∈ keywords) rfl
  | .compare c o p, writable => by
    have symbol : " " ++ o.symbol ++ " " ∈ keywords := by cases o <;> decide
    have apart : startsApart (" " ++ o.symbol ++ " ") = true ∧ endsApart (" " ++ o.symbol ++ " ") = true := by
      cases o <;> exact ⟨rfl, rfl⟩
    have text : (toCondition (.compare c o p)).sql = c.text ++ (" " ++ o.symbol ++ " " ++ "?") := by
      simp [toCondition, Condition.binary, String.append_assoc]
    rw [text]
    refine (Written.column (writable.on rfl)).append (.before symbol .placeholder apart.2) (.inr ?_)
    rw [startsApartAppend _ (by cases o <;> decide), apart.1]
  | .pathMatches c pattern, writable => by
    have below := writable.patterns c pattern (List.mem_singleton_self _)
    have text : (toCondition (.pathMatches c pattern)).sql = c.text ++ (" ~ " ++ quotedPattern label) := by
      rw [below, ← String.toList_inj]
      simp [toCondition, Condition.raw, quotedPattern]
    rw [text]
    exact (Written.column (writable.on rfl)).append (.before (by decide : " ~ " ∈ keywords) .pattern rfl)
      (.inr (startsApartAppend _ (by decide)))
  | .all ts, writable => by
    obtain ⟨some, each⟩ := writable.each rfl groupedAll
    have conditions : toConditions ts ≠ [] := by simpa [toConditionsMap] using some
    exact Condition.groupWritten (by decide) ⟨rfl, rfl⟩ (by decide) conditions (conditionsWritten ts each)
  | .any ts, writable => by
    obtain ⟨some, each⟩ := writable.each rfl groupedAny
    have conditions : toConditions ts ≠ [] := by simpa [toConditionsMap] using some
    exact Condition.groupWritten (by decide) ⟨rfl, rfl⟩ (by decide) conditions (conditionsWritten ts each)
theorem conditionsWritten : (ts : List Test) → (∀ t ∈ ts, t.Writable column label) →
    ∀ c ∈ toConditions ts, Written column label ids c.sql
  | [], _ => List.forall_mem_nil _
  | t :: ts, each => List.forall_mem_cons.mpr ⟨conditionWritten t (each t List.mem_cons_self),
      conditionsWritten ts fun s mem => each s (List.mem_cons_of_mem _ mem)⟩
end

end Test

theorem Layout.typeTestWritten (l : Layout) {a : Alias} (read : column ⟨a, l.entityTypeId⟩) :
    Written column label ids (l.typeTest ids a).toCondition.sql := by
  unfold typeTest
  split
  · exact .keyword (by decide)
  · next some =>
    have among : ids ≠ [] := by simpa using some
    have text : (Test.toCondition (.typeAmong ⟨a, l.entityTypeId⟩ ids)).sql =
        Column.text ⟨a, l.entityTypeId⟩ ++ (" IN " ++ ("(" ++ typeList ids ++ ")")) := by
      rw [← String.toList_inj]
      simp [Test.toCondition, Condition.raw, typeList]
    rw [text]
    exact (Written.column read).append (.before (by decide : " IN " ∈ keywords) (.types among) rfl)
      (.inr (startsApartAppend _ (by decide)))

namespace Division

theorem whenClausesWritten {cs : List Condition} (n : Nat) (each : ∀ c ∈ cs, Written column label ids c.sql) :
    ∀ s ∈ whenClauses n cs, Written column label ids s := by
  induction cs generalizing n with
  | nil => exact List.forall_mem_nil _
  | cons c rest ih =>
    obtain ⟨first, others⟩ := List.forall_mem_cons.mp each
    have number : Written column label ids (" THEN " ++ toString n) := (Written.number n).before (by decide) rfl
    have numbered : Written column label ids ("WHEN " ++ c.sql ++ " THEN " ++ toString n) := by
      rw [String.append_assoc]
      exact (first.before (by decide : "WHEN " ∈ keywords) rfl).append number (.inr (startsApartAppend _ (by decide)))
    exact List.forall_mem_cons.mpr ⟨numbered, ih (n + 1) others⟩

theorem conditionWritten {d : Division} (columns : ∀ c, d.tally = .values c → column c)
    (tests : ∀ ts, d.tally = .matches ts → ∀ t ∈ ts, t.Writable column label) :
    Written column label ids d.toCondition.sql := by
  obtain ⟨tally, required⟩ := d
  have number : Written column label ids (" >= " ++ toString required) :=
    (Written.number required).before (by decide) rfl
  have apart : startsApart (" >= " ++ toString required) = true := startsApartAppend _ (by decide)
  cases tally with
  | values c =>
    rw [valuesText]
    exact (Written.column (columns c rfl)).countDistinct.append number (.inr apart)
  | «matches» ts =>
    have clauses : Written column label ids (" ".intercalate (whenClauses 1 (Test.toConditions ts))) :=
      .intercalate (by decide) ⟨rfl, rfl⟩ (by decide) (whenClausesWritten 1 (Test.conditionsWritten ts (tests ts rfl)))
    have cased := (clauses.before (by decide : "CASE " ∈ keywords) rfl).after (by decide : " END" ∈ keywords) rfl
    rw [matchesText]
    exact cased.countDistinct.append number (.inr apart)

end Division

section
variable {ctx : Context} {aliases : List Alias}

theorem Test.Within.writable {t : Test} (within : t.Within ctx aliases) (grouped : t.isGrouped = true) :
    t.Writable (·.Within ctx aliases) ctx.layout.collectionRoot :=
  ⟨within.columns, within.patterns, grouped⟩

theorem typeTestOwn {a : Alias} (mem : a ∈ aliases) :
    Written (·.Within ctx aliases) ctx.layout.collectionRoot ids (ctx.layout.typeTest ids a).toCondition.sql :=
  ctx.layout.typeTestWritten ⟨mem, Context.isColumn⟩

theorem countedKeyWritten {a : Alias} (mem : a ∈ aliases) :
    Written (·.Within ctx aliases) ctx.layout.collectionRoot ids
      ("COUNT(DISTINCT " ++ (ctx.layout.keyOf a).text ++ ")") :=
  (Written.column (Layout.keyWithin mem)).countDistinct

theorem membershipWritten {a : Alias} (mem : a ∈ aliases) :
    Written (·.Within ctx aliases) ctx.layout.collectionRoot ids
      ("(" ++ ((ctx.layout.keyOf a).text ++ ", " ++ (ctx.layout.identityOf a).text) ++ ")" ++ " IN ") := by
  have key : Written (·.Within ctx aliases) ctx.layout.collectionRoot ids (ctx.layout.keyOf a).text :=
    .column (Layout.keyWithin mem)
  have identity : Written (·.Within ctx aliases) ctx.layout.collectionRoot ids (ctx.layout.identityOf a).text :=
    .column (Layout.identityWithin mem)
  have pair := key.append (identity.before (by decide : ", " ∈ keywords) rfl) (.inr (startsApartAppend _ (by decide)))
  rw [← String.append_assoc] at pair
  exact (Written.group pair (by simp [String.append_eq_empty_iff])).after (by decide) rfl

theorem Selection.Proper.written {n m : Nat} {s : Selection} (proper : s.Proper ctx n m) (grouped : s.Grouped ids) :
    (∀ c ∈ (s.toSelect ctx.layout).filters, Written (·.Within ctx s.aliases) ctx.layout.collectionRoot ids c.sql) ∧
    ∀ c, (s.toSelect ctx.layout).having = some c →
      Written (·.Within ctx s.aliases) ctx.layout.collectionRoot ids c.sql := by
  have type : Written (·.Within ctx s.aliases) ctx.layout.collectionRoot ids
      (ctx.layout.typeTest s.typeIds s.root).toCondition.sql := grouped.types ▸ typeTestOwn List.mem_cons_self
  refine ⟨List.forall_mem_cons.mpr ⟨type, Test.conditionsWritten s.tests fun t mem => ?_⟩, fun c same => ?_⟩
  · exact (proper.tests t mem).writable (grouped.tests t mem)
  · obtain ⟨d, divided, rfl⟩ := Option.map_eq_some_iff.mp same
    have within := proper.division d divided
    have sound := grouped.division d divided
    obtain ⟨tally, required⟩ := d
    refine Division.conditionWritten (fun c tallied => ?_) fun ts tallied t mem => ?_ <;> cases tallied
    · exact within
    · exact (within t mem).writable (sound t mem)

theorem Context.restrictGrouped {r : Request} {restriction : Restriction} {n m : Nat}
    (ok : ctx.restrict r n = .ok restriction m) :
    ctx.schema.typeIds r.resultType = some restriction.typeIds ∧
      SetPlan.HoldsAny (Selection.Grouped restriction.typeIds) restriction.members := by
  obtain ⟨ids, _, ⟨known, rfl⟩, ⟨_, none, _⟩ | ⟨p, _, compiled⟩⟩ := restrictOk ok
  · exact ⟨known, fun q same => nomatch none.symm.trans same⟩
  · exact ⟨known, Scope.compileGrouped compiled⟩

end
end ObjectQuery
