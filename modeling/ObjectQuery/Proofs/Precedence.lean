import ObjectQuery.Proofs.Reading

/-! Conditions mean as SQL reads them what they were put together to mean. Only one that is grouped, or whose text
holds no connective outside of parentheses, ever stands beside a connective. -/
namespace ObjectQuery
open Reading

namespace Formula

variable {α β γ : Type}

mutual
theorem foldFused {atom : α → β} {all any : List β → β} {atom' : α → γ} {all' any' : List γ → γ} {h : β → γ}
    (onAtom : ∀ a, h (atom a) = atom' a) (onAll : ∀ bs, h (all bs) = all' (bs.map h))
    (onAny : ∀ bs, h (any bs) = any' (bs.map h)) : ∀ T : Formula α, h (T.fold atom all any) = T.fold atom' all' any'
  | .atom a => onAtom a
  | .all parts => (onAll _).trans (congrArg all' (foldEachFused onAtom onAll onAny parts))
  | .any parts => (onAny _).trans (congrArg any' (foldEachFused onAtom onAll onAny parts))
theorem foldEachFused {atom : α → β} {all any : List β → β} {atom' : α → γ} {all' any' : List γ → γ} {h : β → γ}
    (onAtom : ∀ a, h (atom a) = atom' a) (onAll : ∀ bs, h (all bs) = all' (bs.map h))
    (onAny : ∀ bs, h (any bs) = any' (bs.map h)) :
    ∀ parts : List (Formula α), (foldEach atom all any parts).map h = foldEach atom' all' any' parts
  | [] => rfl
  | part :: rest => by
    rw [foldEach, foldEach, List.map_cons, foldFused onAtom onAll onAny part, foldEachFused onAtom onAll onAny rest]
end

def toCondition (text : α → Condition) : Formula α → Condition := fold text Condition.all Condition.any

inductive Filled (P : α → Prop) : Formula α → Prop where
  | atom {a} (wanted : P a) : Filled P (.atom a)
  | all {parts} (some : parts ≠ []) (each : ∀ part ∈ parts, Filled P part) : Filled P (.all parts)
  | any {parts} (some : parts ≠ []) (each : ∀ part ∈ parts, Filled P part) : Filled P (.any parts)

end Formula

namespace Reading

namespace Connective

variable {α : Type}

def connect : Connective → List (Formula α) → Formula α
  | .and, parts => .any [.all parts]
  | .or, parts => .any (parts.map fun part => .all [part])

def join (c : Connective) : List (Formula α) → Formula α
  | [part] => part
  | parts => c.connect parts

def separator : Connective → String
  | .and => " AND "
  | .or => " OR "

theorem separatorText (c : Connective) : c.separator.toList = ' ' :: (c.word ++ [' ']) := by cases c <;> rfl

def items (c : Connective) : List Item := [.word [' '], .word c.word, .word [' ']]

theorem itemConnective (c : Connective) : (Item.word c.word).connective = some c := by cases c <;> rfl

end Connective

variable {ι : Type} {c : Connective}

theorem connectedItemized {ts : List ι} {text : ι → List Char} {items : ι → List Item} (some : ts ≠ [])
    (each : ∀ t ∈ ts, Itemized (text t) (items t)) :
    Itemized (c.separator.toList.intercalate (ts.map text)) (c.items.intercalate (ts.map items)) := by
  induction ts with
  | nil => exact absurd rfl some
  | cons t rest ih =>
    obtain ⟨first, others⟩ := List.forall_mem_cons.mp each
    cases rest with
    | nil => simpa using first
    | cons u rest =>
      have next := ih (by simp) others
      have blank : Joins [] [[' ']] [.word [' ']] := .word (by decide) (by decide)
      have connective : Joins [] [c.word] [.word c.word] := by cases c <;> exact .word (by decide) (by decide)
      have alone : words c.word = [c.word] := by cases c <;> rfl
      have pieces := first.append (blank.append (connective.append (blank.append next)))
      rw [← alone] at pieces
      simp only [List.map_cons, List.intercalate_cons_cons, c.separatorText, List.cons_append, List.append_assoc,
        Itemized, wordsAlone (show isWordCharacter ' ' = false by decide), Connective.items] at pieces ⊢
      exact pieces

theorem unspacedPlain {items : List Item} (plain : ∀ i ∈ items, i.connective = none) :
    unspaced false items = items := by
  induction items with
  | nil => rfl
  | cons i rest ih =>
    obtain ⟨first, others⟩ := List.forall_mem_cons.mp plain
    have next : rest.head?.any (·.connective.isSome) = false := by
      cases rest with
      | nil => rfl
      | cons j rest => simp [others j List.mem_cons_self]
    simp [unspaced, next, first, ih others]

theorem unspacedConnective {items rest : List Item} (plain : ∀ i ∈ items, i.connective = none) :
    unspaced false (items ++ c.items ++ rest) = items ++ .word c.word :: unspaced false rest := by
  induction items with
  | nil =>
    have blank : (Item.word [' ']).connective = none := rfl
    simp [Connective.items, unspaced, c.itemConnective, Item.isBlank, blank]
  | cons i items ih =>
    obtain ⟨first, others⟩ := List.forall_mem_cons.mp plain
    have next : (items ++ c.items ++ rest).head?.any (·.connective.isSome) = false := by
      cases items with
      | nil => rfl
      | cons j items => simp [others j List.mem_cons_self]
    have step : unspaced false (i :: (items ++ c.items ++ rest)) = i :: unspaced false (items ++ c.items ++ rest) := by
      simp only [unspaced, next, first, Bool.or_self, Bool.and_false, Bool.false_eq_true, if_false, Option.isSome_none]
    rw [List.cons_append, List.cons_append, step, ih others]
    rfl

theorem unspacedConnected {ts : List ι} {items : ι → List Item}
    (plain : ∀ t ∈ ts, ∀ i ∈ items t, i.connective = none) :
    unspaced false (c.items.intercalate (ts.map items)) = [Item.word c.word].intercalate (ts.map items) := by
  induction ts with
  | nil => rfl
  | cons t rest ih =>
    obtain ⟨first, others⟩ := List.forall_mem_cons.mp plain
    cases rest with
    | nil => simpa using unspacedPlain first
    | cons u rest =>
      simp only [List.map_cons, List.intercalate_cons_cons] at ih ⊢
      rw [unspacedConnective first, ih others]
      simp

theorem splitApart {items : List Item} (apart : ∀ i ∈ items, i.connective ≠ some c) : splitAt c items = [items] :=
  List.splitOnP_eq_singleton fun i mem => by simpa using apart i mem

theorem splitConnected {ts : List ι} {items : ι → List Item} (some : ts ≠ [])
    (plain : ∀ t ∈ ts, ∀ i ∈ items t, i.connective = none) :
    splitAt c ([Item.word c.word].intercalate (ts.map items)) = ts.map items :=
  splitIntercalated (by simp [c.itemConnective]) some fun t inside i mem => by simp [plain t inside i mem]

theorem readingConnected {ts : List ι} {items : ι → List Item} {R : ι → Formula String} (some : ts ≠ [])
    (plain : ∀ t ∈ ts, ∀ i ∈ items t, i.connective = none) (each : ∀ t ∈ ts, operand (items t) = .some (R t)) :
    reading (c.items.intercalate (ts.map items)) = .some (c.connect (ts.map R)) := by
  rw [reading, unspacedConnected plain, disjunction]
  cases c with
  | and =>
    have apart : ∀ i ∈ [Item.word Connective.and.word].intercalate (ts.map items), i.connective ≠ .some .or := by
      intro i mem
      rcases intercalatedMem mem with rfl | ⟨t, inside, mem⟩
      · simp [Connective.itemConnective]
      · simp [plain t inside i mem]
    rw [splitApart apart]
    simp [conjunction, splitConnected some plain, mapMGiven each, Connective.connect]
  | or =>
    have conjunctions : ∀ t ∈ ts, conjunction (items t) = .some (.all [R t]) := by
      intro t mem
      have apart : ∀ i ∈ items t, i.connective ≠ .some .and := fun i inside => by simp [plain t mem i inside]
      simp [conjunction, splitApart apart, each t mem]
    rw [splitConnected some plain, mapMGiven conjunctions]
    simp [Connective.connect]

theorem connectedReads {ts : List ι} {text : ι → List Char} {R : ι → Formula String} (some : ts ≠ [])
    (each : ∀ t ∈ ts, IsOperand (text t) (R t)) : ∃ items,
      Itemized (c.separator.toList.intercalate (ts.map text)) items ∧ reading items = .some (c.connect (ts.map R)) := by
  choose! items itemized plain operands using each
  exact ⟨_, connectedItemized some itemized, readingConnected some plain operands⟩

theorem groupIsOperand {text : List Char} {items : List Item} {R : Formula String} (itemized : Itemized text items)
    (reads : reading items = some R) : IsOperand ('(' :: (text ++ [')'])) R := by
  have pieces : words ('(' :: (text ++ [')'])) = ['('] :: (words text ++ [[')']]) := by
    have first := wordsAlone (show isWordCharacter '(' = false by decide) [] (text ++ [')'])
    have last := wordsAlone (show isWordCharacter ')' = false by decide) text []
    rw [last] at first
    exact first
  have group := itemized.group
  rw [← pieces, reads] at group
  exact ⟨_, group, by simp [Item.connective], rfl⟩

theorem conditionsIsOperand {ts : List ι} {text : ι → Condition} {R : ι → Formula String} (some : ts ≠ [])
    (each : ∀ t ∈ ts, IsOperand (text t).sql.toList (R t)) :
    IsOperand (Condition.group c.separator (ts.map text)).sql.toList (c.join (ts.map R)) := by
  match ts with
  | [] => exact absurd rfl some
  | [t] => exact each t List.mem_cons_self
  | t :: u :: rest =>
    obtain ⟨items, itemized, reads⟩ := connectedReads (c := c) some each
    have grouped := groupIsOperand itemized reads
    have text : (Condition.group c.separator ((t :: u :: rest).map text)).sql.toList =
        '(' :: (c.separator.toList.intercalate ((t :: u :: rest).map fun t => (text t).sql.toList) ++ [')']) := by
      simp [Condition.group, String.toList_intercalate, Function.comp_def]
    rw [text]
    exact grouped

namespace Connective

variable {α β : Type} (c : Connective) (parts : List (Formula α))

def truth : Connective → List Truth → Truth
  | .and => Truth.all
  | .or => Truth.any

theorem truthSingle (t : Truth) : c.truth [t] = t := by
  rcases t with _ | _ | _ <;> cases c <;> rfl

theorem mapJoin (f : α → β) : (c.join parts).map f = c.join (parts.map (Formula.map f)) := by
  match parts with
  | [] | [_] | _ :: _ :: _ => cases c <;> simp [join, connect, Function.comp_def]

theorem atomsConnect : (c.connect parts).atoms = parts.flatMap Formula.atoms := by
  cases c <;> simp [connect, List.flatMap_map]

theorem valueConnect (σ : α → Truth) : (c.connect parts).value σ = c.truth (parts.map (Formula.value σ)) := by
  have single (t : Truth) : Truth.all [t] = t := truthSingle .and t
  have single' (t : Truth) : Truth.any [t] = t := truthSingle .or t
  cases c <;> simp [connect, truth, single, single', Function.comp_def]

theorem atomsJoin : (c.join parts).atoms = parts.flatMap Formula.atoms := by
  match parts with
  | [part] => simp [join]
  | [] | _ :: _ :: _ => exact c.atomsConnect _

theorem valueJoin (σ : α → Truth) : (c.join parts).value σ = c.truth (parts.map (Formula.value σ)) := by
  match parts with
  | [part] => exact (c.truthSingle _).symm
  | [] | _ :: _ :: _ => exact c.valueConnect _ σ

end Connective

end Reading

namespace Formula

variable {α : Type}

def normal : Formula α → Formula α := fold .atom (Connective.and.join) (Connective.or.join)

theorem atomsNormal (T : Formula α) : T.normal.atoms = T.atoms :=
  foldFused (fun _ => rfl) (fun parts => (Connective.and.atomsJoin parts).trans List.flatMap_def)
    (fun parts => (Connective.or.atomsJoin parts).trans List.flatMap_def) T

theorem valueNormal (T : Formula α) (σ : α → Truth) : T.normal.value σ = T.value σ :=
  foldFused (fun _ => rfl) (fun parts => Connective.and.valueJoin parts σ)
    (fun parts => Connective.or.valueJoin parts σ) T

theorem conditionAll (text : α → Condition) (parts : List (Formula α)) :
    (all parts).toCondition text = .group Connective.and.separator (parts.map (toCondition text)) := by
  simp [toCondition, fold, foldEachMap, Condition.all, Connective.separator]

theorem conditionAny (text : α → Condition) (parts : List (Formula α)) :
    (any parts).toCondition text = .group Connective.or.separator (parts.map (toCondition text)) := by
  simp [toCondition, fold, foldEachMap, Condition.any, Connective.separator]

theorem normalAll (parts : List (Formula α)) : (all parts).normal = Connective.and.join (parts.map normal) := by
  simp [normal, fold, foldEachMap]

theorem normalAny (parts : List (Formula α)) : (any parts).normal = Connective.or.join (parts.map normal) := by
  simp [normal, fold, foldEachMap]

theorem normalIsOperand {text : α → Condition} {T : Formula α} (filled : T.Filled fun a => Atomic (text a).sql) :
    IsOperand (T.toCondition text).sql.toList (T.normal.map fun a => (text a).sql) := by
  induction filled with
  | atom atomic => exact atomic.isOperand
  | all some each ih =>
    rw [conditionAll, normalAll, Connective.mapJoin, List.map_map]
    exact conditionsIsOperand some ih
  | any some each ih =>
    rw [conditionAny, normalAny, Connective.mapJoin, List.map_map]
    exact conditionsIsOperand some ih

def ReadFrom (text : α → Condition) (sql : String) (T : Formula α) : Prop :=
  ∃ R : Formula α, read sql = some (R.map fun a => (text a).sql) ∧ R.atoms = T.atoms ∧ ∀ σ, R.value σ = T.value σ

theorem connectedReadFrom {text : α → Condition} {Ts : List (Formula α)} (some : Ts ≠ [])
    (filled : ∀ T ∈ Ts, T.Filled fun a => Atomic (text a).sql) :
    ReadFrom text (" AND ".intercalate (Ts.map fun T => (T.toCondition text).sql)) (.all Ts) := by
  obtain ⟨items, itemized, reads⟩ := connectedReads (c := .and) some fun T mem => normalIsOperand (filled T mem)
  refine ⟨Connective.and.connect (Ts.map normal), ?_, ?_, fun σ => ?_⟩
  · have joined : (" AND ".intercalate (Ts.map fun T => (T.toCondition text).sql)).toList =
        Connective.and.separator.toList.intercalate (Ts.map fun T => (T.toCondition text).sql.toList) := by
      rw [String.toList_intercalate, List.map_map]
      rfl
    rw [readItems (joined ▸ itemized), reads]
    simp [Connective.connect, Function.comp_def]
  · rw [Connective.atomsConnect, atomsAll, List.flatMap_map]
    simp only [atomsNormal]
  · rw [Connective.valueConnect, valueAll, List.map_map]
    simp only [Function.comp_def, valueNormal, Connective.truth]

end Formula

namespace Sql.Select

def beforeWhere (s : Sql.Select) : String :=
  "SELECT " ++ (if s.distinct then "DISTINCT " else "") ++ ", ".intercalate s.select ++
  " FROM " ++ s.table ++ " " ++ s.tableAlias ++ String.join (s.joins.map fun j => " " ++ j.sql)

def afterWhere (s : Sql.Select) : String :=
  clause " GROUP BY " ", " s.groupBy ++ option " HAVING " (s.having.map (·.sql)) ++
  clause " ORDER BY " ", " (s.orderBy.map (·.sql)) ++ option " LIMIT " (s.limit.map (toString ·.toNat)) ++
  option " OFFSET " (s.offset.map (toString ·.toNat))

theorem whereBetween {s : Sql.Select} (some : s.filters ≠ []) :
    s.sql = s.beforeWhere ++ " WHERE " ++ " AND ".intercalate (s.filters.map (·.sql)) ++ s.afterWhere := by
  have present : (s.filters.map (·.sql)).isEmpty = false := by simp [some]
  unfold sql beforeWhere afterWhere
  rw [clause, present]
  simp only [String.append_assoc, Bool.false_eq_true, if_false]

end Sql.Select

/-- Conditions that are put together from atoms are read as what they were put together to mean, alone and in the
`WHERE` clause of a statement. -/
theorem Formula.groupingSurvives {α : Type} (text : α → Condition) :
    (∀ T : Formula α, T.Filled (fun a => Atomic (text a).sql) → T.ReadFrom text (T.toCondition text).sql) ∧
    ∀ (s : Sql.Select) (Ts : List (Formula α)), Ts ≠ [] → (∀ T ∈ Ts, T.Filled fun a => Atomic (text a).sql) →
      s.filters = Ts.map (toCondition text) →
        ∃ joined, s.sql = s.beforeWhere ++ " WHERE " ++ joined ++ s.afterWhere ∧
          (Formula.all Ts).ReadFrom text joined := by
  refine ⟨fun T filled => ?_, fun s Ts some filled filters => ⟨_, ?_, connectedReadFrom some filled⟩⟩
  · have single : ReadFrom text _ (.all [T]) := connectedReadFrom (by simp) (by simpa using filled)
    obtain ⟨R, reads, atoms, value⟩ := single
    refine ⟨R, by simpa using reads, by simpa using atoms, fun σ => (value σ).trans ?_⟩
    rw [valueAll]
    exact Connective.and.truthSingle _
  · rw [Sql.Select.whereBetween (by simp [filters, some]), filters, List.map_map]
    rfl

example : read "a = ? or b = ? AND (c IS NULL OR f(d) = 1)" = some (.any [.all [.atom "a = ?"],
    .all [.atom "b = ?", .any [.all [.atom "c IS NULL"], .all [.atom "f(d) = 1"]]]]) := rfl

namespace PrecedenceSample

def matching : Condition := .binary "t1.qname_value" "=" ⟨.int 1, .bigInt⟩

def missing : Condition := .isNull "t2.qname_value"

def typed : Condition := .raw "t0.entity_type_id IN (1, 2)"

def nested : Formula Condition :=
  .any [.all [.any [.atom matching]], .all [.atom missing, .any [.atom typed, .all [.atom matching]]]]

def statement : Sql.Select := { Sql.Select.of "entities" "t0" with filters := [typed, nested.toCondition id] }

theorem plainAtomic {text : String} (present : text ≠ "") (balanced : Balanced text.toList)
    (plain : ∀ w ∈ words text.toList, connective w = none) (loose : text.toList.head? ≠ some '(') : Atomic text where
  present := present
  balanced := balanced
  inside before w after same connects := by
    have mem : w ∈ words text.toList := by simp [same]
    rw [plain w mem] at connects
    cases connects
  ungrouped inside same := by simp [same] at loose

theorem atomsAtomic : ∀ c ∈ [matching, missing, typed], Atomic c.sql := by
  have groups : typed.sql.toList = "t0.entity_type_id IN ".toList ++ '(' :: ("1, 2".toList ++ [')']) := rfl
  have balanced : Balanced typed.sql.toList := by
    rw [groups]
    exact .append (.free (by decide) (by decide)) (.group (.free (by decide) (by decide)))
  simp only [List.mem_cons, List.not_mem_nil, or_false]
  rintro c (rfl | rfl | rfl)
  · exact plainAtomic (by decide) (.free (by decide) (by decide)) (by decide) (by decide)
  · exact plainAtomic (by decide) (.free (by decide) (by decide)) (by decide) (by decide)
  · exact plainAtomic (by decide) balanced (by decide) (by decide)

theorem nestedReads :
    (nested.toCondition id).sql = "(t1.qname_value = ? OR (t2.qname_value IS NULL AND " ++
      "(t0.entity_type_id IN (1, 2) OR t1.qname_value = ?)))" ∧
    nested.ReadFrom id (nested.toCondition id).sql ∧
    ∃ joined, statement.sql = statement.beforeWhere ++ " WHERE " ++ joined ++ statement.afterWhere ∧
      (Formula.all [.atom typed, nested]).ReadFrom id joined := by
  have atomic : ∀ c ∈ [matching, missing, typed], (Formula.atom c).Filled fun c => Atomic (id c).sql :=
    fun c mem => .atom (atomsAtomic c mem)
  simp only [List.forall_mem_cons] at atomic
  obtain ⟨matching, missing, typed, -⟩ := atomic
  have filled : nested.Filled fun c => Atomic (id c).sql := by
    refine .any (by simp) (List.forall_mem_cons.mpr ⟨?_, List.forall_mem_singleton.mpr ?_⟩)
    · exact .all (by simp) (by simpa using .any (by simp) (by simpa using matching))
    · refine .all (by simp) (List.forall_mem_cons.mpr ⟨missing, List.forall_mem_singleton.mpr ?_⟩)
      exact .any (by simp) (by simpa using ⟨typed, .all (by simp) (by simpa using matching)⟩)
  obtain ⟨alone, clause⟩ := Formula.groupingSurvives (id : Condition → Condition)
  exact ⟨rfl, alone nested filled, clause statement _ (by simp) (by simpa using ⟨typed, filled⟩) rfl⟩

end PrecedenceSample
end ObjectQuery
