import Mathlib.Data.List.FinRange
import Mathlib.Data.List.Perm.Subperm
import ObjectQuery.Proofs.Selected

/-! Divisions over a store. The rows of an entity that pass are counted by the different values or elements
among them, so the count reaches the number of wanted ones exactly if each of them is found. -/
namespace ObjectQuery

variable {V : Type}

theorem distinctReached {α : Type} [DecidableEq α] {found wanted : List α} (distinct : wanted.Nodup)
    (within : ∀ x ∈ found, x ∈ wanted) : wanted.length ≤ found.dedup.length ↔ ∀ x ∈ wanted, x ∈ found := by
  constructor
  · intro enough x mem
    have inside : found.dedup.Subperm wanted :=
      List.subperm_of_subset (List.nodup_dedup found) fun y mem => within y (List.mem_dedup.mp mem)
    exact List.mem_dedup.mp ((inside.perm_of_length_le enough).mem_iff.mpr mem)
  · intro all
    exact (List.subperm_of_subset distinct fun x mem => List.mem_dedup.mpr (all x mem)).length_le

section
variable [DecidableEq V] {l : Layout} {I : Interpretation V}

omit [DecidableEq V] in
theorem Test.firstPassedAt {tests : List Test} {e : Joined V} {k : Nat} : Test.firstPassed I tests e = some k ↔
    ∃ i : Fin tests.length, i + 1 = k ∧ tests[i].Passes I e ∧ ∀ j < i, ¬ tests[j].Passes I e := by
  simp only [firstPassed, Option.map_eq_some_iff, List.findIdx?_eq_some_iff_getElem, decide_eq_true_eq]
  constructor
  · rintro ⟨i, ⟨inside, passes, before⟩, rfl⟩
    exact ⟨⟨i, inside⟩, rfl, passes, fun j earlier => before j earlier⟩
  · rintro ⟨i, rfl, passes, before⟩
    exact ⟨i, ⟨i.isLt, passes, fun j earlier => before ⟨j, earlier.trans i.isLt⟩ earlier⟩, rfl⟩

namespace Division

theorem holdsEach {tests : List Test} {group : List (Joined V)} : Holds I ⟨.matches tests, tests.length⟩ group ↔
    ∀ i : Fin tests.length, ∃ e ∈ group, tests[i].Passes I e ∧ ∀ j < i, ¬ tests[j].Passes I e := by
  have wanted : ((List.finRange tests.length).map fun i => i.val + 1).Nodup :=
    (List.nodup_finRange _).map fun i j same => Fin.ext (Nat.succ.inj same)
  have within : ∀ k ∈ group.filterMap (Test.firstPassed I tests),
      k ∈ (List.finRange tests.length).map fun i => i.val + 1 := by
    intro k mem
    obtain ⟨e, _, first⟩ := List.mem_filterMap.mp mem
    obtain ⟨i, rfl, _⟩ := Test.firstPassedAt.mp first
    exact List.mem_map.mpr ⟨i, List.mem_finRange i, rfl⟩
  have reached := distinctReached wanted within
  rw [List.length_map, List.length_finRange, List.forall_mem_map] at reached
  refine reached.trans ⟨fun all i => ?_, fun each i _ => ?_⟩
  · obtain ⟨e, inside, first⟩ := List.mem_filterMap.mp (all i (List.mem_finRange i))
    obtain ⟨i', same, passes⟩ := Test.firstPassedAt.mp first
    obtain rfl := Fin.ext (Nat.succ.inj same)
    exact ⟨e, inside, passes⟩
  · obtain ⟨e, inside, passes⟩ := each i
    exact List.mem_filterMap.mpr ⟨e, inside, Test.firstPassedAt.mpr ⟨i, rfl, passes⟩⟩

theorem holdsSame {d : Division} {group others : List (Joined V)} (same : ∀ e, e ∈ group ↔ e ∈ others) :
    d.Holds I group ↔ d.Holds I others := by
  have counted {α : Type} [DecidableEq α] (f : Joined V → Option α) :
      (group.filterMap f).dedup.length = (others.filterMap f).dedup.length := by
    refine List.Perm.length_eq ((List.perm_ext_iff_of_nodup (List.nodup_dedup _) (List.nodup_dedup _)).mpr ?_)
    simp [same]
  unfold Holds
  cases d.tally <;> simp only [counted]

end Division

namespace Selection

def rowsOf (I : Interpretation V) (db : Store l V) (s : Selection) (r : Row V) : List (Joined V) :=
  (Join.extendAll db s.joins (Joined.with (fun _ => Row.null) s.root r)).filter fun e => (Test.all s.tests).Passes I e

variable {db : Store l V} {s : Selection}

theorem rowsOfMem {r : Row V} {e : Joined V} : e ∈ s.rowsOf I db r ↔
    e ∈ Join.extendAll db s.joins (Joined.with (fun _ => Row.null) s.root r) ∧ ∀ t ∈ s.tests, t.Passes I e := by
  rw [rowsOf, List.mem_filter, decide_eq_true_iff, Test.passesAll]

theorem rowsOfRoot (own : ∀ j ∈ s.joins, s.root ≠ j.tableAlias) {r : Row V} {e : Joined V}
    (mem : e ∈ s.rowsOf I db r) : e s.root = r :=
  Join.extendAllRoot own (rowsOfMem.mp mem).1

omit [DecidableEq V] in
theorem pairShown {r : Row V} {e : Joined V} (root : e s.root = r) : s.pair l e = r.shown l := by
  simp [pair, Row.shown, Column.read, Layout.keyOf, Layout.identityOf, root]

theorem passingMem (own : ∀ j ∈ s.joins, s.root ≠ j.tableAlias) {e : Joined V} : e ∈ s.passing I db ↔
    e s.root ∈ db.entities ∧ I.OfType l s.typeIds (e s.root) ∧ e ∈ s.rowsOf I db (e s.root) := by
  simp only [passing, joined, List.mem_filter, List.mem_flatMap, decide_eq_true_iff, Test.passesAll,
    List.forall_mem_cons, I.typeTestPasses, rowsOfMem]
  constructor
  · rintro ⟨⟨r, mem, inside⟩, typed, passed⟩
    obtain rfl := Join.extendAllRoot own inside
    exact ⟨mem, typed, inside, passed⟩
  · rintro ⟨mem, typed, inside, passed⟩
    exact ⟨⟨_, mem, inside⟩, typed, passed⟩

theorem groupMem (own : ∀ j ∈ s.joins, s.root ≠ j.tableAlias) {e e' : Joined V} (mem : e ∈ s.passing I db) :
    e' ∈ (s.passing I db).filter (fun e' => s.pair l e' = s.pair l e) ↔ e' ∈ s.rowsOf I db (e s.root) := by
  -- The group of a row are the rows of its entity, since no two entities have one key.
  obtain ⟨entity, typed, _⟩ := (passingMem own).mp mem
  rw [List.mem_filter, decide_eq_true_iff, passingMem own, pairShown rfl, pairShown rfl]
  constructor
  · rintro ⟨⟨entity', _, inside⟩, same⟩
    rwa [db.distinctKeys _ entity' _ entity (congrArg Prod.fst same)] at inside
  · intro inside
    have root := rowsOfRoot own inside
    exact ⟨by rw [root]; exact ⟨entity, typed, inside⟩, by rw [root]⟩

theorem dividedSelects {d : Division} (own : ∀ j ∈ s.joins, s.root ≠ j.tableAlias) (divides : s.division = some d) :
    s.selected I db = db.select I s.typeIds fun r => (∃ e, e ∈ s.rowsOf I db r) ∧ d.Holds I (s.rowsOf I db r) := by
  ext x
  simp only [selected, answer, divides, Set.mem_ofPred_eq, List.mem_dedup, List.mem_map, List.mem_filter,
    decide_eq_true_eq]
  constructor
  · rintro ⟨e, ⟨mem, holds⟩, rfl⟩
    obtain ⟨entity, typed, inside⟩ := (passingMem own).mp mem
    exact ⟨e s.root, entity, typed, ⟨⟨e, inside⟩, (Division.holdsSame fun e' => groupMem own mem).mp holds⟩,
      (pairShown rfl).symm⟩
  · rintro ⟨r, entity, typed, ⟨⟨e, inside⟩, holds⟩, rfl⟩
    obtain rfl := rowsOfRoot own inside
    have mem : e ∈ s.passing I db := (passingMem own).mpr ⟨entity, typed, inside⟩
    exact ⟨e, ⟨mem, (Division.holdsSame fun e' => groupMem own mem).mpr holds⟩, pairShown rfl⟩

theorem undividedSelects (own : ∀ j ∈ s.joins, s.root ≠ j.tableAlias) (undivided : s.division = none) :
    s.selected I db = db.select I s.typeIds fun r => ∃ e, e ∈ s.rowsOf I db r := by
  ext x
  simp only [selected, answer, undivided, Set.mem_ofPred_eq, List.mem_dedup, List.mem_map]
  constructor
  · rintro ⟨e, mem, rfl⟩
    obtain ⟨entity, typed, inside⟩ := (passingMem own).mp mem
    exact ⟨e s.root, entity, typed, ⟨e, inside⟩, (pairShown rfl).symm⟩
  · rintro ⟨r, entity, typed, ⟨e, inside⟩, rfl⟩
    obtain rfl := rowsOfRoot own inside
    exact ⟨e, (passingMem own).mpr ⟨entity, typed, inside⟩, pairShown rfl⟩

end Selection
end
end ObjectQuery
