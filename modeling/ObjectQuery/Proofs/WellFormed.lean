import Mathlib.Data.List.Basic
import ObjectQuery.Catalog.Subtypes
import ObjectQuery.Proofs.Outcome

/-! Catalogs that load. Each check accepts what it should and names the first fault in the order of the
declarations, so a catalog loads exactly if it is well formed, and its schema says what it declares. -/
namespace ObjectQuery
open Outcome

def IsName (text : String) : Prop :=
  ∃ first rest, text.toList = first :: rest ∧
    (('A' ≤ first ∧ first ≤ 'Z') ∨ ('a' ≤ first ∧ first ≤ 'z') ∨ first = '_') ∧
    ∀ c ∈ rest, ('A' ≤ c ∧ c ≤ 'Z') ∨ ('a' ≤ c ∧ c ≤ 'z') ∨ ('0' ≤ c ∧ c ≤ '9') ∨ c = '_'

theorem isAlphaIff {c : Char} : c.isAlpha = true ↔ ('A' ≤ c ∧ c ≤ 'Z') ∨ ('a' ≤ c ∧ c ≤ 'z') :=
  Bool.or_eq_true_iff.trans
    (or_congr decide_eq_true_iff (Bool.and_eq_true_iff.trans (and_congr decide_eq_true_iff decide_eq_true_iff)))

theorem isAlphanumIff {c : Char} :
    c.isAlphanum = true ↔ (('A' ≤ c ∧ c ≤ 'Z') ∨ ('a' ≤ c ∧ c ≤ 'z')) ∨ ('0' ≤ c ∧ c ≤ '9') :=
  Bool.or_eq_true_iff.trans
    (or_congr isAlphaIff (Bool.and_eq_true_iff.trans (and_congr decide_eq_true_iff decide_eq_true_iff)))

theorem identifierStartIff {c : Char} :
    isIdentifierStart c = true ↔ ('A' ≤ c ∧ c ≤ 'Z') ∨ ('a' ≤ c ∧ c ≤ 'z') ∨ c = '_' := by
  simp only [isIdentifierStart, Bool.or_eq_true, isAlphaIff, beq_iff_eq, or_assoc]

theorem identifierPartIff {c : Char} : isIdentifierPart c = true ↔
    ('A' ≤ c ∧ c ≤ 'Z') ∨ ('a' ≤ c ∧ c ≤ 'z') ∨ ('0' ≤ c ∧ c ≤ '9') ∨ c = '_' := by
  simp only [isIdentifierPart, Bool.or_eq_true, isAlphanumIff, beq_iff_eq, or_assoc]

theorem isIdentifierIff {text : String} : isIdentifier text = true ↔ IsName text := by
  unfold isIdentifier IsName
  cases text.toList with
  | nil => simp
  | cons c rest => simp [identifierStartIff, identifierPartIff]

namespace Catalog

structure Checks (fine : Prop) (fault : Fault → Prop) (x : Except Fault Unit) : Prop where
  passes : x = .ok () ↔ fine
  reports : ∀ f, x = .error f ↔ fault f

namespace Checks

variable {fine more : Prop} {fault later : Fault → Prop} {x y : Except Fault Unit} {e : Fault}

theorem changed (checks : Checks fine fault x) (same : fine ↔ more) (faults : ∀ f, fault f ↔ later f) :
    Checks more later x :=
  ⟨checks.passes.trans same, fun f => (checks.reports f).trans (faults f)⟩

theorem unitPassed : (∃ a, x = .ok a) ↔ x = .ok () := ⟨fun ⟨(), ok⟩ => ok, fun ok => ⟨(), ok⟩⟩

theorem next (first : Checks fine fault x) (rest : Checks more later y) :
    Checks (fine ∧ more) (fun f => fault f ∨ fine ∧ later f) (x >>= fun _ => y) := by
  refine ⟨?_, fun f => ?_⟩
  · rw [exceptBindOk, ← first.passes, ← rest.passes, exists_and_right, unitPassed]
  · rw [exceptBindError, ← first.reports, ← first.passes, ← rest.reports, exists_and_right, unitPassed]

section
variable {c : Prop} [Decidable c]

theorem tested : Checks c (fun f => ¬c ∧ e = f) (if c then .ok () else .error e) := by
  split
  · next holds => exact ⟨by simp [holds], by simp [holds]⟩
  · next fails => exact ⟨by simp [fails], by simp [fails]⟩

theorem required {g : PUnit → Except Fault Unit} (rest : Checks more later y) :
    Checks (c ∧ more) (fun f => (¬c ∧ e = f) ∨ c ∧ later f) (if c then y else throw e >>= g) := by
  split
  · next holds => exact rest.changed (by simp [holds]) (by simp [holds])
  · next fails =>
    have thrown : (throw e >>= g) = .error e := rfl
    exact ⟨by simp [thrown, fails], by simp [thrown, fails]⟩

theorem refused {g : PUnit → Except Fault Unit} (rest : Checks more later y) :
    Checks (¬c ∧ more) (fun f => (c ∧ e = f) ∨ ¬c ∧ later f) (if c then throw e >>= g else y) := by
  rw [← ite_not]
  exact (required rest).changed Iff.rfl (by simp)

end

theorem each {α : Type} {g : α → Except Fault Unit} {fine : α → Prop} {fault : α → Fault → Prop}
    (checks : ∀ a, Checks (fine a) (fault a) (g a)) (xs : List α) :
    Checks (∀ a ∈ xs, fine a)
      (fun f => ∃ before a after, xs = before ++ a :: after ∧ (∀ b ∈ before, fine b) ∧ fault a f) (xs.forM g) := by
  induction xs with
  | nil => exact ⟨iff_of_true rfl (List.forall_mem_nil _), fun f => iff_of_false nofun (by simp)⟩
  | cons a rest ih =>
    refine ((checks a).next ih).changed List.forall_mem_cons.symm fun f => ?_
    constructor
    · rintro (here | ⟨first, before, b, after, rfl, others, there⟩)
      · exact ⟨[], a, rest, rfl, List.forall_mem_nil _, here⟩
      · exact ⟨a :: before, b, after, rfl, List.forall_mem_cons.mpr ⟨first, others⟩, there⟩
    · rintro ⟨before, b, after, split, others, there⟩
      cases before with
      | nil =>
        obtain ⟨rfl, rfl⟩ := List.cons.inj split
        exact .inl there
      | cons c before =>
        obtain ⟨rfl, rfl⟩ := List.cons.inj split
        obtain ⟨first, others⟩ := List.forall_mem_cons.mp others
        exact .inr ⟨first, before, b, after, rfl, others, there⟩

end Checks

structure Named (t : AttributeTable) : Prop where
  table : IsName t.name
  parentColumn : IsName t.parentColumn
  childColumn : IsName t.childColumn

structure WellFormed (c : Catalog) : Prop where
  types : c.declared.Nodup
  superTypes : ∀ t ∈ c.types, ∀ s ∈ t.superTypes, s ∈ c.declared
  tables : ∀ a ∈ c.attributes, Named a.table
  attributes : (c.attributes.map (·.name)).Nodup

inductive TableFault (t : AttributeTable) : Fault → Prop where
  | table (other : ¬IsName t.name) : TableFault t (.tableNotIdentifier t.name)
  | parentColumn (table : IsName t.name) (other : ¬IsName t.parentColumn) :
      TableFault t (.columnNotIdentifier t.parentColumn)
  | childColumn (table : IsName t.name) (parent : IsName t.parentColumn) (other : ¬IsName t.childColumn) :
      TableFault t (.columnNotIdentifier t.childColumn)

inductive AttributeFault (before : List QualifiedName) (a : AttributeDeclaration) : Fault → Prop where
  | table {f} (fault : TableFault a.table f) : AttributeFault before a f
  | duplicate (named : Named a.table) (again : a.name ∈ before) : AttributeFault before a (.duplicateAttribute a.name)

/-- Where the declarations, read in order, first break a rule. -/
inductive FirstFault (c : Catalog) : Fault → Prop where
  | duplicateType (again : ¬c.declared.Nodup) : FirstFault c .duplicateType
  | undeclaredSuperType (types : c.declared.Nodup) {before t after known s others}
      (order : c.types = before ++ t :: after) (above : ∀ u ∈ before, ∀ r ∈ u.superTypes, r ∈ c.declared)
      (superTypes : t.superTypes = known ++ s :: others) (inside : ∀ r ∈ known, r ∈ c.declared)
      (undeclared : s ∉ c.declared) : FirstFault c (.undeclaredSuperType s t.name)
  | attribute (types : c.declared.Nodup) (above : ∀ t ∈ c.types, ∀ s ∈ t.superTypes, s ∈ c.declared) {before a after f}
      (order : c.attributes = before ++ a :: after) (tables : ∀ b ∈ before, Named b.table)
      (apart : (before.map (·.name)).Nodup) (fault : AttributeFault (before.map (·.name)) a f) : FirstFault c f

theorem columnChecks (column : String) :
    Checks (IsName column) (fun f => ¬IsName column ∧ .columnNotIdentifier column = f) (checkColumn column) := by
  simp only [← isIdentifierIff]
  exact Checks.tested

theorem tableChecks (t : AttributeTable) : Checks (Named t) (TableFault t) (checkTable t) := by
  have first : Checks _ _ (checkTable t) :=
    Checks.required ((columnChecks t.parentColumn).next (columnChecks t.childColumn))
  refine first.changed ?_ fun f => ?_
  · rw [isIdentifierIff]
    exact ⟨fun ⟨table, parent, child⟩ => ⟨table, parent, child⟩,
      fun named => ⟨named.table, named.parentColumn, named.childColumn⟩⟩
  · rw [isIdentifierIff]
    constructor
    · rintro (⟨other, rfl⟩ | ⟨table, ⟨other, rfl⟩ | ⟨parent, other, rfl⟩⟩)
      · exact .table other
      · exact .parentColumn table other
      · exact .childColumn table parent other
    · rintro (⟨other⟩ | ⟨table, other⟩ | ⟨table, parent, other⟩)
      · exact .inl ⟨other, rfl⟩
      · exact .inr ⟨table, .inl ⟨other, rfl⟩⟩
      · exact .inr ⟨table, .inr ⟨parent, other, rfl⟩⟩

theorem superTypeChecks (declared : List String) (t : TypeDeclaration) : Checks (∀ s ∈ t.superTypes, s ∈ declared)
    (fun f => ∃ s, t.superTypes.find? (fun s => !declared.contains s) = some s ∧ .undeclaredSuperType s t.name = f)
    (checkSuperTypes declared t) := by
  unfold checkSuperTypes
  cases found : t.superTypes.find? fun s => !declared.contains s with
  | none => exact ⟨iff_of_true rfl (by simpa using List.find?_eq_none.mp found), fun f => iff_of_false nofun nofun⟩
  | some s =>
    have undeclared : s ∉ declared := by simpa using List.find?_some found
    have mem := List.mem_of_find?_eq_some found
    exact ⟨iff_of_false nofun fun all => undeclared (all s mem), fun f => by simp⟩

theorem firstUndeclared {declared names : List String} {s : String} :
    names.find? (fun s => !declared.contains s) = some s ↔
      ∃ known others, names = known ++ s :: others ∧ (∀ r ∈ known, r ∈ declared) ∧ s ∉ declared := by
  rw [List.find?_eq_some_iff_append]
  simp only [List.contains_eq_mem, Bool.not_eq_true', decide_eq_false_iff_not, Bool.not_not, decide_eq_true_eq]
  constructor
  · rintro ⟨undeclared, known, others, split, before⟩
    exact ⟨known, others, split, before, undeclared⟩
  · rintro ⟨known, others, split, before, undeclared⟩
    exact ⟨undeclared, known, others, split, before⟩

structure Joining (seen : List QualifiedName) (attributes : List AttributeDeclaration) : Prop where
  tables : ∀ a ∈ attributes, Named a.table
  apart : (attributes.map (·.name)).Nodup
  new : ∀ a ∈ attributes, a.name ∉ seen

theorem joiningNil {seen : List QualifiedName} : Joining seen [] :=
  ⟨List.forall_mem_nil _, .nil, List.forall_mem_nil _⟩

theorem joiningCons {seen : List QualifiedName} {a : AttributeDeclaration} {rest : List AttributeDeclaration} :
    Joining seen (a :: rest) ↔ Named a.table ∧ a.name ∉ seen ∧ Joining (a.name :: seen) rest := by
  constructor
  · rintro ⟨tables, apart, new⟩
    obtain ⟨table, tables⟩ := List.forall_mem_cons.mp tables
    obtain ⟨own, apart⟩ := List.nodup_cons.mp apart
    obtain ⟨first, new⟩ := List.forall_mem_cons.mp new
    refine ⟨table, first, tables, apart, fun b mem => ?_⟩
    rw [List.mem_cons, not_or]
    exact ⟨fun same => own (List.mem_map.mpr ⟨b, mem, same⟩), new b mem⟩
  · rintro ⟨table, first, tables, apart, new⟩
    have own : a.name ∉ rest.map (·.name) := by
      intro mem
      obtain ⟨b, inside, same⟩ := List.mem_map.mp mem
      exact new b inside (same ▸ List.mem_cons_self)
    exact ⟨List.forall_mem_cons.mpr ⟨table, tables⟩, List.nodup_cons.mpr ⟨own, apart⟩,
      List.forall_mem_cons.mpr ⟨first, fun b mem before => new b mem (List.mem_cons_of_mem _ before)⟩⟩

theorem AttributeFault.among {before others : List QualifiedName} {a : AttributeDeclaration} {f : Fault}
    (same : ∀ name, name ∈ before ↔ name ∈ others) : AttributeFault before a f ↔ AttributeFault others a f := by
  constructor
  · rintro (fault | ⟨named, again⟩)
    · exact .table fault
    · exact .duplicate named ((same _).mp again)
  · rintro (fault | ⟨named, again⟩)
    · exact .table fault
    · exact .duplicate named ((same _).mpr again)

theorem attributesChecks (seen : List QualifiedName) (attributes : List AttributeDeclaration) :
    Checks (Joining seen attributes)
      (fun f => ∃ before a after, attributes = before ++ a :: after ∧ Joining seen before ∧
        AttributeFault (before.map (·.name) ++ seen) a f) (checkAttributes seen attributes) := by
  induction attributes generalizing seen with
  | nil => exact ⟨iff_of_true rfl joiningNil, fun f => iff_of_false nofun (by simp)⟩
  | cons a rest ih =>
    have first : Checks _ _ (checkAttributes seen (a :: rest)) :=
      (tableChecks a.table).next (Checks.refused (ih (a.name :: seen)))
    refine first.changed joiningCons.symm fun f => ?_
    constructor
    · rintro (table | ⟨named, ⟨again, rfl⟩ | ⟨new, before, b, after, rfl, joining, fault⟩⟩)
      · exact ⟨[], a, rest, rfl, joiningNil, .table table⟩
      · exact ⟨[], a, rest, rfl, joiningNil, .duplicate named again⟩
      · refine ⟨a :: before, b, after, rfl, joiningCons.mpr ⟨named, new, joining⟩, ?_⟩
        exact (AttributeFault.among (by simp [or_left_comm])).mp fault
    · rintro ⟨before, b, after, split, joining, fault⟩
      cases before with
      | nil =>
        obtain ⟨rfl, rfl⟩ := List.cons.inj split
        obtain table | ⟨named, again⟩ := fault
        · exact .inl table
        · exact .inr ⟨named, .inl ⟨again, rfl⟩⟩
      | cons c before =>
        obtain ⟨rfl, rfl⟩ := List.cons.inj split
        obtain ⟨named, new, joining⟩ := joiningCons.mp joining
        refine .inr ⟨named, .inr ⟨new, before, b, after, rfl, joining, ?_⟩⟩
        exact (AttributeFault.among (by simp [or_left_comm])).mp fault

variable {c : Catalog}

theorem checkChecks (c : Catalog) : Checks c.WellFormed c.FirstFault c.check := by
  have all : Checks _ _ c.check :=
    Checks.required ((Checks.each (superTypeChecks c.declared) c.types).next (attributesChecks [] c.attributes))
  refine all.changed ?_ fun f => ?_
  · constructor
    · rintro ⟨types, superTypes, tables, attributes, -⟩
      exact ⟨types, superTypes, tables, attributes⟩
    · rintro ⟨types, superTypes, tables, attributes⟩
      exact ⟨types, superTypes, tables, attributes, fun _ _ => List.not_mem_nil⟩
  · simp only [firstUndeclared, List.append_nil]
    constructor
    · rintro (⟨again, rfl⟩ | ⟨types, ⟨_, _, _, order, above, _, ⟨_, _, superTypes, inside, undeclared⟩, rfl⟩ |
        ⟨above, _, _, _, order, joining, fault⟩⟩)
      · exact .duplicateType again
      · exact .undeclaredSuperType types order above superTypes inside undeclared
      · exact .attribute types above order joining.tables joining.apart fault
    · rintro (again | ⟨types, order, above, superTypes, inside, undeclared⟩ |
        ⟨types, above, order, tables, apart, fault⟩)
      · exact .inl ⟨again, rfl⟩
      · exact .inr ⟨types, .inl ⟨_, _, _, order, above, _, ⟨_, _, superTypes, inside, undeclared⟩, rfl⟩⟩
      · exact .inr ⟨types, .inr ⟨above, _, _, _, order, ⟨tables, apart, fun _ _ => List.not_mem_nil⟩, fault⟩⟩

theorem onlyNamed {α β : Type} [DecidableEq β] {key : α → β} {xs : List α} {x : α} (distinct : (xs.map key).Nodup)
    (mem : x ∈ xs) : xs.find? (fun y => key y == key x) = some x := by
  induction xs with
  | nil => cases mem
  | cons y rest ih =>
    obtain ⟨new, distinct⟩ := List.nodup_cons.mp distinct
    rcases List.mem_cons.mp mem with rfl | mem
    · simp
    · have apart : key y ≠ key x := fun same => new (List.mem_map.mpr ⟨x, mem, same.symm⟩)
      rw [List.find?_cons_of_neg (by simpa using apart), ih distinct mem]

theorem tableOfOnly {a : AttributeDeclaration} (wellFormed : c.WellFormed) (mem : a ∈ c.attributes) :
    c.tableOf a.name = some a.table := by
  rw [tableOf, onlyNamed wellFormed.attributes mem]
  rfl

theorem tableOfOther {name : QualifiedName} (other : name ∉ c.attributes.map (·.name)) : c.tableOf name = none := by
  rw [tableOf, Option.map_eq_none_iff, List.find?_eq_none]
  intro a mem same
  exact other (List.mem_map.mpr ⟨a, mem, by simpa using same⟩)

theorem enumKeyIff {enumType variant : String} {key : Int64} : c.enumKey enumType variant = some key ↔
    ∃ keys, (enumType, keys) ∈ c.enums.entries ∧ (variant, key) ∈ keys.entries := by
  simp only [enumKey, Option.bind_eq_bind, Option.bind_eq_some_iff, KeyTable.get?Iff]

/-- A catalog loads exactly if it is well formed, reports its first fault otherwise, and its schema knows the
tables and keys that are declared and no others. -/
theorem loadsExactlyWellFormed (c : Catalog) :
    ((∃ s, c.toSchema = .ok s) ↔ c.WellFormed) ∧ (∀ f, c.toSchema = .error f ↔ c.FirstFault f) ∧
    ∀ s, c.toSchema = .ok s →
      (∀ a ∈ c.attributes, s.tableOf a.name = some a.table) ∧
      (∀ name, name ∉ c.attributes.map (·.name) → s.tableOf name = none) ∧
      ∀ enumType variant key, s.enumKey enumType variant = some key ↔
        ∃ keys, (enumType, keys) ∈ c.enums.entries ∧ (variant, key) ∈ keys.entries := by
  have checks := c.checkChecks
  refine ⟨?_, fun f => ?_, fun s loaded => ?_⟩
  · rw [← checks.passes, toSchema]
    cases c.check <;> simp [bind, Except.bind, pure, Except.pure]
  · rw [← checks.reports, toSchema, exceptBindError]
    simp [pure, Except.pure]
  · obtain ⟨_, checked, made⟩ := exceptBindOk.mp loaded
    cases made
    have wellFormed := checks.passes.mp checked
    exact ⟨fun a mem => tableOfOnly wellFormed mem, fun name other => tableOfOther other, fun _ _ _ => enumKeyIff⟩

end Catalog

namespace WellFormedSample

def engine : AttributeDeclaration := ⟨⟨"Car", "engine"⟩, .of "car_engine" 0⟩

def colors : KeyTable Int64 := .ofList [("RED", 0), ("GREEN", 1)]

def garage : Catalog where
  types := [⟨"Vehicle", none, []⟩, ⟨"Car", some 3, ["Vehicle", "Car"]⟩]
  attributes := [engine, ⟨⟨"Car", "colors"⟩, .of "car_colors" 1⟩]
  enums := .ofList [("Color", colors)]

def twoEngines : Catalog :=
  { garage with attributes := garage.attributes ++ [⟨engine.name, ⟨"car_engines", 1, "parent_qname", "1st"⟩⟩] }

theorem garageLoadsTwoEnginesRefused :
    garage.WellFormed ∧ (∃ s, garage.toSchema = .ok s ∧ s.tableOf ⟨"Car", "engine"⟩ = some engine.table ∧
      s.tableOf ⟨"Car", "wheels"⟩ = none ∧ s.enumKey "Color" "GREEN" = some 1 ∧ s.enumKey "Color" "BLUE" = none) ∧
    twoEngines.FirstFault (.columnNotIdentifier "1st") ∧ ¬twoEngines.WellFormed := by
  obtain ⟨loads, _, faithful⟩ := garage.loadsExactlyWellFormed
  obtain ⟨loadsNot, faults, _⟩ := twoEngines.loadsExactlyWellFormed
  have loaded : garage.toSchema = .ok _ := rfl
  have failed : twoEngines.toSchema = .error (.columnNotIdentifier "1st") := rfl
  obtain ⟨tables, others, keys⟩ := faithful _ loaded
  refine ⟨loads.mp ⟨_, loaded⟩, ⟨_, loaded, tables engine (by decide), others _ (by decide), ?_, ?_⟩,
    (faults _).mp failed, fun wellFormed => ?_⟩
  · exact (keys "Color" "GREEN" 1).mpr ⟨colors, by decide, by decide⟩
  · refine Option.eq_none_iff_forall_ne_some.mpr fun key known => ?_
    obtain ⟨table, mem, inside⟩ := (keys "Color" "BLUE" key).mp known
    obtain rfl : table = colors := congrArg Prod.snd (List.mem_singleton.mp mem)
    have named : "BLUE" ∈ colors.keys := List.mem_map.mpr ⟨_, inside, rfl⟩
    exact absurd named (by decide)
  · obtain ⟨s, ok⟩ := loadsNot.mpr wellFormed
    cases failed.symm.trans ok

end WellFormedSample
end ObjectQuery
