import Mathlib.Logic.Relation
import ObjectQuery.Proofs.Ancestry

/-! Type ids as the closure of the declarations under super types. What a catalog says about its types
does not depend on the order in which it says it. -/
namespace ObjectQuery
open Outcome

structure TypeDeclaration.SameAs (t t' : TypeDeclaration) : Prop where
  name : t.name = t'.name
  typeId : t.typeId = t'.typeId
  superTypes : ∀ s, s ∈ t.superTypes ↔ s ∈ t'.superTypes

namespace Catalog

def Above (c : Catalog) (name super : String) : Prop := ∃ t ∈ c.types, t.name = name ∧ super ∈ t.superTypes

/-- The declared types are the same in another order, each with its super types in any order and number. -/
structure Rearranged (c c' : Catalog) : Prop where
  types : ∃ types, c.types.Perm types ∧ List.Forall₂ TypeDeclaration.SameAs types c'.types
  attributes : c.attributes = c'.attributes
  enums : c.enums = c'.enums

variable {c c' : Catalog} {name ancestor : String}

theorem toSchemaChecked (checked : c.check = .ok ()) :
    c.toSchema = .ok ⟨c.tableOf, c.typeIds, c.enumKey, Value.sqlType⟩ :=
  exceptBindOk.mpr ⟨(), checked, rfl⟩

theorem Reaches.above (path : Reaches c.types name ancestor) : Relation.ReflTransGen c.Above name ancestor := by
  induction path with
  | here => exact .refl
  | @up name above ancestor t found mem _ ih =>
    have named : t.name = name := by simpa using List.find?_some found
    exact .head ⟨t, List.mem_of_find?_eq_some found, named, mem⟩ ih

theorem Accepted.reaches (accepted : c.Accepted) (declared : name ∈ c.declared)
    (path : Relation.ReflTransGen c.Above name ancestor) : Reaches c.types name ancestor := by
  -- Every step up ends at a declared type, so a path that starts at one can be walked by looking names up.
  have find : ∀ t ∈ c.types, c.types.find? (·.name == t.name) = some t := fun t mem => onlyNamed accepted.types mem
  induction path using Relation.ReflTransGen.head_induction_on with
  | refl =>
    obtain ⟨t, mem, rfl⟩ := List.mem_map.mp declared
    exact .here (find t mem)
  | head step _ ih =>
    obtain ⟨t, mem, rfl, super⟩ := step
    exact .up (find t mem) super (ih (accepted.above t mem _ super))

theorem Accepted.idsOf (accepted : c.Accepted) {ids : List Int32} : c.IdsOf name ids ↔ ids.Pairwise (· < ·) ∧
    ∀ id, id ∈ ids ↔ ∃ t ∈ c.types, t.typeId = some id ∧ Relation.ReflTransGen c.Above t.name name := by
  have walked : ∀ t ∈ c.types, Reaches c.types t.name name ↔ Relation.ReflTransGen c.Above t.name name :=
    fun t mem => ⟨Reaches.above, accepted.reaches (List.mem_map_of_mem mem)⟩
  have same : ∀ id, (∃ t ∈ c.types, t.typeId = some id ∧ Reaches c.types t.name name) ↔
      ∃ t ∈ c.types, t.typeId = some id ∧ Relation.ReflTransGen c.Above t.name name := by
    intro id
    refine exists_congr fun t => and_congr_right fun mem => and_congr_right fun _ => walked t mem
  constructor
  · exact fun ⟨increasing, members⟩ => ⟨increasing, fun id => (members id).trans (same id)⟩
  · exact fun ⟨increasing, members⟩ => ⟨increasing, fun id => (members id).trans (same id).symm⟩

theorem sameEach {types types' : List TypeDeclaration} (same : List.Forall₂ TypeDeclaration.SameAs types types') :
    types.map (·.name) = types'.map (·.name) ∧ (∀ t ∈ types, ∃ t' ∈ types', t.SameAs t') ∧
      ∀ t' ∈ types', ∃ t ∈ types, t.SameAs t' := by
  induction same with
  | nil => simp
  | @cons t t' rest rest' first _ ih =>
    obtain ⟨names, left, right⟩ := ih
    refine ⟨by simp [first.name, names], List.forall_mem_cons.mpr ⟨⟨t', List.mem_cons_self, first⟩, fun u mem => ?_⟩,
      List.forall_mem_cons.mpr ⟨⟨t, List.mem_cons_self, first⟩, fun u mem => ?_⟩⟩
    · obtain ⟨v, inside, same⟩ := left u mem
      exact ⟨v, List.mem_cons_of_mem _ inside, same⟩
    · obtain ⟨v, inside, same⟩ := right u mem
      exact ⟨v, List.mem_cons_of_mem _ inside, same⟩

namespace Rearranged

theorem declared (other : c.Rearranged c') : c.declared.Perm c'.declared := by
  obtain ⟨types, perm, same⟩ := other.types
  have names : types.map (·.name) = c'.declared := (sameEach same).1
  exact names ▸ perm.map _

theorem found (other : c.Rearranged c') : ∀ t ∈ c.types, ∃ t' ∈ c'.types, t.SameAs t' := by
  obtain ⟨types, perm, same⟩ := other.types
  exact fun t mem => (sameEach same).2.1 t (perm.mem_iff.mp mem)

theorem foundBack (other : c.Rearranged c') : ∀ t' ∈ c'.types, ∃ t ∈ c.types, t.SameAs t' := by
  obtain ⟨types, perm, same⟩ := other.types
  intro t' mem
  obtain ⟨t, inside, same⟩ := (sameEach same).2.2 t' mem
  exact ⟨t, perm.mem_iff.mpr inside, same⟩

theorem above (other : c.Rearranged c') : c'.Above = c.Above := by
  funext name super
  refine propext ⟨?_, ?_⟩
  · rintro ⟨t', mem, named, inside⟩
    obtain ⟨t, mem, same⟩ := other.foundBack t' mem
    exact ⟨t, mem, same.name.trans named, (same.superTypes super).mpr inside⟩
  · rintro ⟨t, mem, named, inside⟩
    obtain ⟨t', mem, same⟩ := other.found t mem
    exact ⟨t', mem, same.name.symm.trans named, (same.superTypes super).mp inside⟩

theorem checked (other : c.Rearranged c') (checked : c.check = .ok ()) : c'.check = .ok () := by
  have fine := c.checkChecks.passes.mp checked
  refine c'.checkChecks.passes.mpr
    ⟨other.declared.nodup_iff.mp fine.types, fun t' mem s inside => ?_, other.attributes ▸ fine.tables,
      other.attributes ▸ fine.attributes⟩
  obtain ⟨t, mem, same⟩ := other.foundBack t' mem
  exact other.declared.mem_iff.mp (fine.superTypes t mem s ((same.superTypes s).mpr inside))

theorem typeIds (other : c.Rearranged c') (accepted : c.Accepted) (accepted' : c'.Accepted) :
    c'.typeIds = c.typeIds := by
  funext name
  by_cases declared : name ∈ c.declared
  · obtain ⟨ids, known⟩ : ∃ ids, c.typeIds name = some ids := ⟨_, if_pos declared⟩
    obtain ⟨ids', known'⟩ : ∃ ids, c'.typeIds name = some ids := ⟨_, if_pos (other.declared.mem_iff.mp declared)⟩
    have own := (typeIdsOk known).2
    have own' := (typeIdsOk known').2
    have members := (accepted.idsOf.mp own).2
    have members' := (accepted'.idsOf.mp own').2
    rw [other.above] at members'
    have same : ∀ id, id ∈ ids' ↔ id ∈ ids := by
      intro id
      rw [members, members']
      constructor
      · rintro ⟨t', mem, typed, path⟩
        obtain ⟨t, mem, same⟩ := other.foundBack t' mem
        exact ⟨t, mem, same.typeId.trans typed, same.name ▸ path⟩
      · rintro ⟨t, mem, typed, path⟩
        obtain ⟨t', mem, same⟩ := other.found t mem
        exact ⟨t', mem, same.typeId.symm.trans typed, same.name ▸ path⟩
    rw [known, known', own'.unique own same]
  · have unknown : c.typeIds name = none := if_neg declared
    have unknown' : c'.typeIds name = none := if_neg (mt other.declared.mem_iff.mpr declared)
    rw [unknown, unknown']

end Rearranged

theorem typeIdsAreClosure (c : Catalog) (checked : c.check = .ok ()) : ∃ s, c.toSchema = .ok s ∧
    (∀ name, s.typeIds name = none ↔ name ∉ c.declared) ∧
    (∀ name ids, s.typeIds name = some ids → ids.Pairwise (· < ·) ∧
      ∀ id, id ∈ ids ↔ ∃ t ∈ c.types, t.typeId = some id ∧ Relation.ReflTransGen c.Above t.name name) ∧
    ∀ c', c.Rearranged c' → c'.toSchema = .ok s := by
  have loaded := toSchemaChecked checked
  have accepted := (toSchemaOk loaded).1
  refine ⟨_, loaded, fun name => ?_, fun name ids known => ?_, fun c' other => ?_⟩
  · simp [typeIds]
  · exact accepted.idsOf.mp (typeIdsOk known).2
  · have loaded' := toSchemaChecked (other.checked checked)
    have types := other.typeIds accepted (toSchemaOk loaded').1
    have tables : c'.tableOf = c.tableOf := by
      funext name
      rw [tableOf, tableOf, other.attributes]
    have keys : c'.enumKey = c.enumKey := by
      funext type variant
      rw [enumKey, enumKey, other.enums]
    rw [loaded', types, tables, keys]

end Catalog

namespace TypeClosureSample

def engine : AttributeDeclaration := ⟨⟨"Car", "engine"⟩, .of "car_engine" 0⟩

def vehicles : Catalog where
  types := [⟨"Vehicle", none, []⟩, ⟨"Car", some 3, ["Vehicle", "Machine"]⟩, ⟨"Machine", some 3, ["Car"]⟩,
    ⟨"Boat", some (-1), ["Vehicle", "Vehicle"]⟩]
  attributes := [engine]
  enums := .empty

def shuffled : Catalog where
  types := [⟨"Boat", some (-1), ["Vehicle"]⟩, ⟨"Machine", some 3, ["Car"]⟩, ⟨"Car", some 3, ["Machine", "Vehicle"]⟩,
    ⟨"Vehicle", none, []⟩]
  attributes := [engine]
  enums := .empty

theorem vehiclesShuffled : vehicles.Rearranged shuffled := by
  have perm : vehicles.types.Perm vehicles.types.reverse := (List.reverse_perm _).symm
  refine ⟨⟨_, perm, ?_⟩, rfl, rfl⟩
  refine .cons ⟨rfl, rfl, by simp⟩ (.cons ⟨rfl, rfl, by simp⟩ (.cons ⟨rfl, rfl, ?_⟩ (.cons ⟨rfl, rfl, by simp⟩ .nil)))
  simp [or_comm]

theorem vehicleIdsAreClosure : vehicles.check = .ok () ∧ ∃ s, vehicles.toSchema = .ok s ∧
    s.typeIds "Vehicle" = some [-1, 3] ∧ s.typeIds "Train" = none ∧ shuffled.toSchema = .ok s := by
  have checked : vehicles.check = .ok () := by decide
  obtain ⟨s, loaded, unknown, closure, anyOrder⟩ := vehicles.typeIdsAreClosure checked
  have train : s.typeIds "Train" = none := (unknown "Train").mpr (by decide)
  obtain ⟨ids, known⟩ : ∃ ids, s.typeIds "Vehicle" = some ids :=
    Option.ne_none_iff_exists'.mp (mt (unknown "Vehicle").mp (by decide))
  obtain ⟨increasing, members⟩ := closure "Vehicle" ids known
  have car : vehicles.Above "Car" "Vehicle" := ⟨⟨"Car", some 3, ["Vehicle", "Machine"]⟩, by decide, rfl, by decide⟩
  have boat : vehicles.Above "Boat" "Vehicle" :=
    ⟨⟨"Boat", some (-1), ["Vehicle", "Vehicle"]⟩, by decide, rfl, by decide⟩
  have typeIds : ∀ t ∈ vehicles.types, t.typeId ∈ [none, some (-1), some 3] := by decide
  have both : ∀ id, id ∈ ids ↔ id ∈ ([-1, 3] : List Int32) := by
    intro id
    rw [members]
    constructor
    · rintro ⟨t, mem, typed, -⟩
      have among := typeIds t mem
      rw [typed] at among
      simpa using among
    · intro mem
      rcases List.mem_cons.mp mem with rfl | mem
      · exact ⟨⟨"Boat", some (-1), ["Vehicle", "Vehicle"]⟩, by decide, rfl, .single boat⟩
      · obtain rfl := List.mem_singleton.mp mem
        exact ⟨⟨"Car", some 3, ["Vehicle", "Machine"]⟩, by decide, rfl, .single car⟩
  have same : ids = [-1, 3] := Catalog.increasingUnique increasing (by decide) both
  exact ⟨checked, s, loaded, known.trans (congrArg some same), train, anyOrder shuffled vehiclesShuffled⟩

end TypeClosureSample
end ObjectQuery
