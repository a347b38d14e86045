import ObjectQuery.Proofs.Requested
import ObjectQuery.Proofs.Text

/-! Texts of ordinary characters, which open no group, start no literal and leave no placeholder. If the
names of a layout and a schema are identifiers, the texts of columns and joins in scope are ordinary. -/
namespace ObjectQuery

def isOrdinary (c : Char) : Bool := isIdentifierPart c || [' ', '.', ',', '=', '<', '>', '~', '!'].contains c

def Ordinary (s : String) : Prop := s.toList.all isOrdinary = true

theorem ordinaryIff {s : String} : Ordinary s ↔ ∀ c ∈ s.toList, isOrdinary c = true := List.all_eq_true

theorem Ordinary.free {s : String} {c : Char} (ordinary : Ordinary s) (special : isOrdinary c = false) :
    c ∉ s.toList := by
  intro mem
  rw [ordinaryIff.mp ordinary c mem] at special
  cases special

theorem ordinaryAppend {s t : String} : Ordinary (s ++ t) ↔ Ordinary s ∧ Ordinary t := by
  rw [Ordinary, String.toList_append, List.all_append, Bool.and_eq_true]
  rfl

theorem isOrdinaryDigit {c : Char} (digit : c.isDigit = true) : isOrdinary c = true := by
  simp [isOrdinary, isIdentifierPart, Char.isAlphanum, digit]

theorem ordinaryKept : KeptByAppend Ordinary := ⟨rfl, fun first next => ordinaryAppend.mpr ⟨first, next⟩⟩

theorem ordinaryNat (n : Nat) : Ordinary (toString n) :=
  ordinaryIff.mpr fun _ mem => isOrdinaryDigit (digitOfNat mem)

theorem identifierParts {s : String} (identifier : isIdentifier s = true) :
    s ≠ "" ∧ ∀ c ∈ s.toList, isIdentifierPart c = true := by
  unfold isIdentifier at identifier
  split at identifier
  · cases identifier
  · next c rest chars =>
    obtain ⟨start, parts⟩ := Bool.and_eq_true_iff.mp identifier
    have first : isIdentifierPart c = true := by
      simp only [isIdentifierStart, isIdentifierPart, Char.isAlphanum, Bool.or_eq_true] at start ⊢
      exact start.imp_left .inl
    refine ⟨?_, ?_⟩
    · rintro rfl
      cases chars
    · rw [chars]
      exact List.forall_mem_cons.mpr ⟨first, List.all_eq_true.mp parts⟩

structure DottedName (s : String) : Prop where
  some : s ≠ ""
  each : ∀ c ∈ s.toList, isIdentifierPart c = true ∨ c = '.'

theorem dottedIdentifier {s : String} (identifier : isIdentifier s = true) : DottedName s := by
  obtain ⟨some, parts⟩ := identifierParts identifier
  exact ⟨some, fun c mem => .inl (parts c mem)⟩

theorem DottedName.append {s t : String} (first : DottedName s) (next : DottedName t) : DottedName (s ++ "." ++ t) where
  some empty := first.some (String.append_eq_empty_iff.mp (String.append_eq_empty_iff.mp empty).1).1
  each := by
    simp only [String.toList_append, List.forall_mem_append]
    exact ⟨⟨first.each, List.forall_mem_singleton.mpr (.inr rfl)⟩, next.each⟩

theorem DottedName.ordinary {s : String} (name : DottedName s) : Ordinary s := by
  refine ordinaryIff.mpr fun c mem => ?_
  rcases name.each c mem with part | rfl
  · rw [isOrdinary, part, Bool.true_or]
  · rfl

def AttributeTable.Identified (t : AttributeTable) : Prop :=
  isIdentifier t.name = true ∧ isIdentifier t.parentColumn = true ∧ isIdentifier t.childColumn = true

namespace Schema

def Identified (s : Schema) : Prop := ∀ name t, s.tableOf name = some t → t.Identified

theorem withAttributeIdentified {s : Schema} {name : QualifiedName} {t : AttributeTable}
    (identified : s.Identified) (own : t.Identified) : (s.withAttribute name t).Identified := by
  intro other u found
  change (if other = name then some t else s.tableOf other) = some u at found
  split at found
  · cases found
    exact own
  · exact identified other u found

end Schema

namespace Context

structure OrdinaryNames (ctx : Context) : Prop where
  tables : ∀ table, ctx.IsTable table → Ordinary table
  columns : ∀ column, ctx.IsColumn column → Ordinary column
  root : Ordinary ctx.layout.collectionRoot

theorem checkNameEmpty {field name : String} : Layout.checkName field name = [] ↔ isIdentifier name = true := by
  unfold Layout.checkName
  split
  · next identifier => simp [identifier]
  · next other => simp [other]

structure IdentifiedNames (ctx : Context) : Prop where
  tables : ∀ table, ctx.IsTable table → DottedName table
  columns : ∀ column, ctx.IsColumn column → isIdentifier column = true
  root : isIdentifier ctx.layout.collectionRoot = true

theorem identifiedNames {ctx : Context} (valid : ctx.layout.faults = []) (named : ctx.schema.Identified) :
    ctx.IdentifiedNames := by
  simp only [Layout.faults, List.append_eq_nil_iff, checkNameEmpty] at valid
  obtain ⟨⟨⟨⟨⟨⟨⟨⟨⟨attributeKey, attributeValue⟩, path⟩, root⟩, identity⟩, key⟩, entityTable⟩, typeId⟩, _⟩,
    schemaName⟩ := valid
  have qualified : ∀ table, DottedName table → DottedName (ctx.layout.qualified table) := by
    intro table name
    unfold Layout.qualified
    split
    · exact name
    · next nonempty =>
      rw [if_neg nonempty, checkNameEmpty] at schemaName
      exact (dottedIdentifier schemaName).append name
  have tables : ∀ table, ctx.IsTable table → DottedName table := by
    intro table is
    rcases is with rfl | ⟨name, t, found, rfl⟩
    · exact qualified _ (dottedIdentifier entityTable)
    · exact qualified _ (dottedIdentifier (named name t found).1)
  have identifiers : ∀ column ∈ columnNames ctx.layout, isIdentifier column = true := by
    intro column mem
    simp only [columnNames, List.mem_cons, List.not_mem_nil, or_false] at mem
    rcases mem with rfl | rfl | rfl | rfl | rfl | rfl <;> assumption
  have columns : ∀ column, ctx.IsColumn column → isIdentifier column = true := by
    intro column is
    rcases is with mem | ⟨name, t, found, rfl | rfl⟩
    · exact identifiers column mem
    · exact (named name t found).2.1
    · exact (named name t found).2.2
  exact ⟨tables, columns, root⟩

theorem ordinaryNames {ctx : Context} (valid : ctx.layout.faults = []) (named : ctx.schema.Identified) :
    ctx.OrdinaryNames := by
  obtain ⟨tables, columns, root⟩ := identifiedNames valid named
  exact ⟨fun table is => (tables table is).ordinary, fun column is => (dottedIdentifier (columns column is)).ordinary,
    (dottedIdentifier root).ordinary⟩

end Context

theorem Alias.ordinary (i : Nat) : Ordinary (Alias.numbered i).text := ordinaryAppend.mpr ⟨rfl, ordinaryNat i⟩

theorem Alias.AllNumbered.ordinary {aliases : List Alias} {a : Alias} (numbered : AllNumbered aliases)
    (mem : a ∈ aliases) : Ordinary a.text := by
  obtain ⟨i, rfl⟩ := numbered a mem
  exact Alias.ordinary i

theorem Restriction.rootNumbered {r : Restriction} {i : Nat} (root : r.root = .numbered i) :
    Alias.AllNumbered [r.root] := by
  intro a mem
  obtain rfl := List.mem_singleton.mp mem
  exact ⟨i, root.symm⟩

section
variable {ctx : Context} {aliases declared : List Alias} (names : ctx.OrdinaryNames)
include names

theorem Column.Within.ordinary {c : Column} (within : c.Within ctx aliases) (numbered : Alias.AllNumbered aliases) :
    Ordinary c.text :=
  ordinaryAppend.mpr ⟨ordinaryAppend.mpr ⟨numbered.ordinary within.table, rfl⟩, names.columns _ within.name⟩

theorem Join.Within.ordinary {j : Join} (within : j.Within ctx declared) (numbered : Alias.AllNumbered declared)
    (own : ∃ i, .numbered i = j.tableAlias) : Ordinary j.toSql.sql := by
  obtain ⟨i, own⟩ := own
  have joined : Ordinary j.tableAlias.text := own ▸ Alias.ordinary i
  have keyword : Ordinary j.kind.keyword := by cases j.kind <;> rfl
  have equations : ∀ x ∈ j.on.map Equation.text, Ordinary x := by
    intro x mem
    obtain ⟨e, inside, rfl⟩ := List.mem_map.mp mem
    obtain ⟨table, name⟩ := within.left e inside
    have left : Ordinary e.left.text :=
      ordinaryAppend.mpr ⟨ordinaryAppend.mpr ⟨table ▸ joined, rfl⟩, names.columns _ name⟩
    exact ordinaryAppend.mpr ⟨ordinaryAppend.mpr ⟨left, rfl⟩, (within.right e inside).ordinary names numbered⟩
  have matched := ordinaryKept.intercalate (rfl : Ordinary " AND ") equations
  have space : Ordinary " " := rfl
  have condition : Ordinary " ON " := rfl
  have table := names.tables _ within.table
  change Ordinary (j.kind.keyword ++ " " ++ j.table ++ " " ++ j.tableAlias.text ++ " ON " ++ _)
  simp only [ordinaryAppend]
  exact ⟨⟨⟨⟨⟨⟨keyword, space⟩, table⟩, space⟩, joined⟩, condition⟩, matched⟩

theorem joinsOrdinary {joins : List Join} (within : JoinsWithin ctx declared joins)
    (numbered : Alias.AllNumbered (declared ++ joins.map (·.tableAlias))) :
    ∀ j ∈ joins.map Join.toSql, Ordinary j.sql := by
  induction joins generalizing declared with
  | nil => simp
  | cons j rest ih =>
    obtain ⟨first, within⟩ := within
    have own := numbered j.tableAlias (by simp)
    have before : Alias.AllNumbered declared := fun a mem => numbered a (List.mem_append_left _ mem)
    have ih := ih within (by simpa using numbered)
    intro x mem
    rcases List.mem_cons.mp mem with rfl | mem
    · exact first.ordinary names before own
    · exact ih x mem

end

structure Sql.Select.OrdinaryFrame (s : Sql.Select) : Prop where
  table : Ordinary s.table
  tableAlias : Ordinary s.tableAlias
  joins : ∀ j ∈ s.joins, Ordinary j.sql
  groupBy : ∀ x ∈ s.groupBy, Ordinary x
  orderBy : ∀ i ∈ s.orderBy, Ordinary i.sql

theorem showingMem {columns selected : List String} {x : String}
    (mem : x ∈ columns.foldl Sql.Select.showing selected) : x ∈ selected ∨ x ∈ columns := by
  induction columns generalizing selected with
  | nil => exact .inl mem
  | cons c rest ih =>
    rcases ih mem with mem | mem
    · unfold Sql.Select.showing at mem
      split at mem
      · exact .inl mem
      · rcases List.mem_append.mp mem with mem | mem
        · exact .inl mem
        · obtain rfl := List.mem_singleton.mp mem
          exact .inr List.mem_cons_self
    · exact .inr (List.mem_cons_of_mem _ mem)

section
variable {ctx : Context} (names : ctx.OrdinaryNames)
include names

theorem shownOrdinary {aliases : List Alias} {a : Alias} (numbered : Alias.AllNumbered aliases) (mem : a ∈ aliases) :
    ∀ c ∈ [ctx.layout.keyOf a, ctx.layout.identityOf a], Ordinary c.text :=
  fun c shown => (Layout.shownWithin mem c shown).ordinary names numbered

theorem selectionOrdinary {n m : Nat} {s : Selection} (proper : s.Proper ctx n m) :
    (∀ x ∈ s.columns ctx.layout, Ordinary x) ∧ (s.toSelect ctx.layout).OrdinaryFrame := by
  have numbered : Alias.AllNumbered s.aliases := proper.block ▸ Alias.AllNumbered.block _ _
  have root : s.root ∈ s.aliases := List.mem_cons_self
  have columns : ∀ x ∈ s.columns ctx.layout, Ordinary x := by
    intro x mem
    obtain ⟨c, shown, rfl⟩ := List.mem_map.mp
      (show x ∈ [ctx.layout.keyOf s.root, ctx.layout.identityOf s.root].map Column.text from mem)
    exact shownOrdinary names numbered root c shown
  have group : ∀ x ∈ (s.toSelect ctx.layout).groupBy, Ordinary x := by
    intro x mem
    change x ∈ (if s.division.isSome then s.columns ctx.layout else []) at mem
    split at mem
    · exact columns x mem
    · cases mem
  exact ⟨columns, names.tables _ (.inl rfl), numbered.ordinary root, joinsOrdinary names proper.joins numbered,
    group, by simp [Selection.toSelect]⟩

theorem restrictionOrdinary {r : Restriction} {i : Nat} (root : r.root = .numbered i) :
    ∀ c ∈ [ctx.layout.keyOf r.root, ctx.layout.identityOf r.root], Ordinary c.text :=
  shownOrdinary names (Restriction.rootNumbered root) List.mem_cons_self

theorem countOrdinary {r : Restriction} {i : Nat} (root : r.root = .numbered i) :
    (r.countStatement ctx.layout).OrdinaryFrame := by
  have tableAlias : Ordinary r.root.text := root ▸ Alias.ordinary i
  exact ⟨names.tables _ (.inl rfl), tableAlias, List.forall_mem_nil _, List.forall_mem_nil _, List.forall_mem_nil _⟩

theorem rowsOrdinary {r : Request} {plan : RowPlan} {k m : Nat} (planned : ctx.RowsPlanned r plan 0 k m)
    (root : plan.restriction.root = .numbered 0) :
    (∀ x ∈ (plan.toSelect ctx.layout).select, Ordinary x) ∧ (plan.toSelect ctx.layout).OrdinaryFrame := by
  obtain ⟨_, ordered, within⟩ := planned.joins.fresh
  have numbered : Alias.AllNumbered (plan.restriction.root :: plan.joins.map (·.tableAlias)) := by
    intro a mem
    rcases List.mem_cons.mp mem with rfl | mem
    · exact ⟨0, root.symm⟩
    · rw [ordered] at mem
      exact Alias.AllNumbered.block k plan.joins.length a mem
  have sorted : ∀ c ∈ plan.sortColumns, Ordinary c.column.text := fun c mem =>
    (planned.columns c mem).ordinary names numbered
  have select : ∀ x ∈ (plan.toSelect ctx.layout).select, Ordinary x := by
    intro x mem
    rcases showingMem mem with mem | mem
    · obtain ⟨c, shown, rfl⟩ := List.mem_map.mp (show x ∈ [ctx.layout.keyOf plan.restriction.root,
        ctx.layout.identityOf plan.restriction.root].map Column.text from mem)
      exact restrictionOrdinary names root c shown
    · obtain ⟨c, inside, rfl⟩ := List.mem_map.mp mem
      exact sorted c inside
  have order : ∀ i ∈ (plan.toSelect ctx.layout).orderBy, Ordinary i.sql := by
    intro i mem
    obtain ⟨c, inside, rfl⟩ := List.mem_map.mp mem
    have direction : Ordinary c.direction.toSql.keyword := by cases c.direction <;> rfl
    exact ordinaryAppend.mpr ⟨ordinaryAppend.mpr ⟨sorted c inside, rfl⟩, direction⟩
  exact ⟨select, names.tables _ (.inl rfl), numbered.ordinary List.mem_cons_self, joinsOrdinary names within numbered,
    List.forall_mem_nil _, order⟩

end
end ObjectQuery
