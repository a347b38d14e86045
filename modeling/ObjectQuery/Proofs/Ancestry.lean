import Mathlib.Data.List.Sort
import ObjectQuery.Proofs.WellFormed

/-! Super types. The ancestors of a type are what steps to super types reach; the ids of a logical type are
those of the types below it, each once and in order. -/
namespace ObjectQuery.Catalog
open Outcome

inductive Reaches (types : List TypeDeclaration) : String → String → Prop where
  | here {name t} (found : types.find? (·.name == name) = some t) : Reaches types name name
  | up {name above ancestor t} (found : types.find? (·.name == name) = some t) (mem : above ∈ t.superTypes)
      (rest : Reaches types above ancestor) : Reaches types name ancestor

variable {types : List TypeDeclaration} {name other ancestor : String} {t : TypeDeclaration}

theorem findWithout (types : List TypeDeclaration) (name other : String) :
    (without name types).find? (·.name == other) =
      if other = name then none else types.find? (·.name == other) := by
  rw [without, List.find?_filter]
  split
  · next same =>
    rw [List.find?_eq_none]
    simp [same]
  · next apart =>
    refine congrArg (List.find? · types) (funext fun t => ?_)
    by_cases named : t.name = other
    · simp [named, apart]
    · simp [named]

theorem Reaches.ofWithout (path : Reaches (without name types) other ancestor) : Reaches types other ancestor := by
  have kept : ∀ {other t}, (without name types).find? (·.name == other) = some t →
      types.find? (·.name == other) = some t := by
    intro other t found
    rw [findWithout] at found
    split at found
    · cases found
    · exact found
  induction path with
  | here found => exact .here (kept found)
  | up found mem _ ih => exact .up (kept found) mem ih

theorem Reaches.lastVisit (found : types.find? (·.name == name) = some t) (path : Reaches types other ancestor) :
    ancestor = name ∨ Reaches (without name types) other ancestor ∨
      ∃ above ∈ t.superTypes, Reaches (without name types) above ancestor := by
  -- A path may pass one name once: what follows its last visit goes on from a super type, without the name.
  have left : ∀ {other u}, other ≠ name → types.find? (·.name == other) = some u →
      (without name types).find? (·.name == other) = some u := by
    intro other u apart here
    rw [findWithout, if_neg apart, here]
  induction path with
  | @here other u here =>
    by_cases same : other = name
    · exact .inl same
    · exact .inr (.inl (.here (left same here)))
  | @up other above ancestor u here mem _ ih =>
    rcases ih with last | rest | onward
    · exact .inl last
    · by_cases same : other = name
      · subst same
        cases found.symm.trans here
        exact .inr (.inr ⟨above, mem, rest⟩)
      · exact .inr (.inl (.up (left same here) mem rest))
    · exact .inr (.inr onward)

theorem Reaches.found (path : Reaches types other ancestor) : ∃ t, types.find? (·.name == other) = some t := by
  cases path with
  | here found => exact ⟨_, found⟩
  | up found _ _ => exact ⟨_, found⟩

theorem reachedIff (types : List TypeDeclaration) (todo : List String) (ancestor : String) :
    ancestor ∈ reached types todo ↔ ∃ name ∈ todo, Reaches types name ancestor := by
  induction types, todo using reached.induct with
  | case1 types => simp [reached]
  | case2 types name todo unknown ih =>
    have skipped : reached types (name :: todo) = reached types todo := by
      rw [reached]
      split
      · rfl
      · next found => cases unknown.symm.trans found
    have nowhere : ¬ Reaches types name ancestor := by
      intro path
      obtain ⟨t, found⟩ := path.found
      cases unknown.symm.trans found
    rw [skipped, ih, List.exists_mem_cons_iff, or_iff_right nowhere]
  | case3 types name todo t found ih =>
    have visited : reached types (name :: todo) = name :: reached (without name types) (t.superTypes ++ todo) := by
      rw [reached]
      split
      · next unknown => cases unknown.symm.trans found
      · next u again =>
        cases found.symm.trans again
        rfl
    rw [visited, List.mem_cons, ih]
    constructor
    · intro reach
      rcases reach with rfl | ⟨above, mem, path⟩
      · exact ⟨ancestor, List.mem_cons_self, .here found⟩
      · rcases List.mem_append.mp mem with mem | mem
        · exact ⟨name, List.mem_cons_self, .up found mem path.ofWithout⟩
        · exact ⟨above, List.mem_cons_of_mem _ mem, path.ofWithout⟩
    · intro reach
      obtain ⟨start, mem, path⟩ := reach
      rcases path.lastVisit found with last | rest | ⟨above, inside, rest⟩
      · exact .inl last
      · rcases List.mem_cons.mp mem with rfl | mem
        · obtain ⟨u, missing⟩ := rest.found
          rw [findWithout, if_pos rfl] at missing
          cases missing
        · exact .inr ⟨start, List.mem_append_right _ mem, rest⟩
      · exact .inr ⟨above, List.mem_append_left _ inside, rest⟩

theorem Reaches.shared {shared types' : List TypeDeclaration}
    (above : ∀ t ∈ shared, ∀ s ∈ t.superTypes, s ∈ shared.map (·.name))
    (known : ∀ t ∈ shared, types.find? (·.name == t.name) = some t)
    (known' : ∀ t ∈ shared, types'.find? (·.name == t.name) = some t)
    (mem : t ∈ shared) (path : Reaches types t.name ancestor) : Reaches types' t.name ancestor := by
  -- Steps from a type that two lists share stay among the shared, where these name their super types.
  generalize start : t.name = first at path
  induction path generalizing t with
  | here => exact start ▸ .here (known' t mem)
  | up found inside _ ih =>
    subst start
    obtain rfl : t = _ := Option.some.inj ((known t mem).symm.trans found)
    obtain ⟨u, inShared, named⟩ := List.mem_map.mp (above t mem _ inside)
    exact .up (known' t mem) inside (ih inShared named)

variable {c : Catalog}

theorem ancestorsIff : ancestor ∈ c.ancestors name ↔ Reaches c.types name ancestor := by
  rw [ancestors, reachedIff, List.exists_mem_cons_iff]
  simp

theorem idBelowSome {id : Int32} :
    c.idBelow name t = some id ↔ t.typeId = some id ∧ Reaches c.types t.name name := by
  unfold idBelow
  split
  · next below => simp [ancestorsIff.mp below]
  · next apart => simp [mt ancestorsIff.mpr apart]

theorem increasing {ids : List Int32} (sorted : ids.Pairwise (· ≤ ·)) : ids.eraseDups.Pairwise (· < ·) := by
  induction length : ids.length using Nat.strongRecOn generalizing ids with
  | ind n ih =>
    cases ids with
    | nil => exact List.Pairwise.nil
    | cons id rest =>
      obtain ⟨least, sorted⟩ := List.pairwise_cons.mp sorted
      have fewer : (rest.filter fun b => !b == id).length < n :=
        length ▸ Nat.lt_succ_of_le (List.length_filter_le _ _)
      have later := ih _ fewer (sorted.sublist List.filter_sublist) rfl
      rw [List.eraseDups_cons]
      refine List.pairwise_cons.mpr ⟨fun b mem => ?_, later⟩
      obtain ⟨inside, other⟩ := List.mem_filter.mp (List.mem_eraseDups.mp mem)
      have other : b ≠ id := by simpa using other
      exact Int32.lt_of_le_of_ne (least b inside) other.symm

theorem increasingUnique {ids ids' : List Int32} (left : ids.Pairwise (· < ·)) (right : ids'.Pairwise (· < ·))
    (same : ∀ id, id ∈ ids ↔ id ∈ ids') : ids = ids' := by
  have antisymm : Std.Antisymm (α := Int32) (· < ·) := ⟨fun a b ab ba => absurd ba (Int32.lt_asymm ab)⟩
  have irrefl : Std.Irrefl (α := Int32) (· < ·) := ⟨fun _ => Int32.lt_irrefl⟩
  exact left.eq_of_mem_iff right same

structure IdsOf (c : Catalog) (name : String) (ids : List Int32) : Prop where
  increasing : ids.Pairwise (· < ·)
  members : ∀ id, id ∈ ids ↔ ∃ t ∈ c.types, t.typeId = some id ∧ Reaches c.types t.name name

theorem IdsOf.unique {c' : Catalog} {ids ids' : List Int32} (left : c.IdsOf name ids) (right : c'.IdsOf name ids')
    (same : ∀ id, id ∈ ids ↔ id ∈ ids') : ids = ids' := increasingUnique left.increasing right.increasing same

theorem typeIdsOk {ids : List Int32} (known : c.typeIds name = some ids) : name ∈ c.declared ∧ c.IdsOf name ids := by
  unfold typeIds at known
  split at known
  · next declared =>
    cases known
    refine ⟨declared, increasing ?_, fun id => ?_⟩
    · have transitive : ∀ a b c : Int32, decide (a ≤ b) = true → decide (b ≤ c) = true → decide (a ≤ c) = true := by
        intro a b c first second
        exact decide_eq_true (Int32.le_trans (of_decide_eq_true first) (of_decide_eq_true second))
      have total : ∀ a b : Int32, (decide (a ≤ b) || decide (b ≤ a)) = true := by
        intro a b
        simpa using Int32.le_total a b
      refine (List.pairwise_mergeSort transitive total _).imp fun ordered => of_decide_eq_true ordered
    · rw [List.mem_eraseDups, List.mem_mergeSort, List.mem_filterMap]
      simp only [idBelowSome]
  · cases known

structure Accepted (c : Catalog) : Prop where
  types : c.declared.Nodup
  above : ∀ t ∈ c.types, ∀ s ∈ t.superTypes, s ∈ c.declared
  attributes : (c.attributes.map (·.name)).Nodup

theorem toSchemaOk {s : Schema} (ok : c.toSchema = .ok s) :
    c.Accepted ∧ s = ⟨c.tableOf, c.typeIds, c.enumKey, Value.sqlType⟩ := by
  obtain ⟨_, checked, ok⟩ := exceptBindOk.mp ok
  obtain rfl := exceptPureOk.mp ok
  have fine := c.checkChecks.passes.mp checked
  exact ⟨⟨fine.types, fine.superTypes, fine.attributes⟩, rfl⟩

end ObjectQuery.Catalog
