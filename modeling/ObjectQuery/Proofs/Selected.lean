import ObjectQuery.Proofs.Chain

/-! The entities that a selection along links yields: those of the type from which a chain of rows
leads to a last row that passes. -/
namespace ObjectQuery
open Outcome

variable {V : Type}

namespace Interpretation

def OfType (I : Interpretation V) (l : Layout) (ids : List Int32) (r : Row V) : Prop :=
  ∃ v, r l.entityTypeId = some v ∧ ∃ id ∈ ids, I.isType v id = true

theorem typeTestPasses (I : Interpretation V) (l : Layout) (ids : List Int32) (a : Alias) (e : Joined V) :
    (l.typeTest ids a).Passes I e ↔ I.OfType l ids (e a) := by
  unfold Layout.typeTest
  split
  · next empty =>
    rw [List.isEmpty_iff.mp empty]
    simp [Test.Passes, Test.truth, OfType]
  · simp [Test.Passes, Test.truth, OfType, Column.read]

end Interpretation

def Row.shown (l : Layout) (r : Row V) : Option V × Option V := (r l.entityKey, r l.entityIdentity)

def Store.select {l : Layout} (db : Store l V) (I : Interpretation V) (ids : List Int32)
    (P : Row V → Prop) : Set (Option V × Option V) :=
  {x | ∃ r ∈ db.entities, I.OfType l ids r ∧ P r ∧ r.shown l = x}

theorem Store.selectShown {l : Layout} (db : Store l V) {I : Interpretation V} {ids : List Int32} {P : Row V → Prop}
    {r : Row V} (mem : r ∈ db.entities) (typed : I.OfType l ids r) : r.shown l ∈ db.select I ids P ↔ P r := by
  constructor
  · rintro ⟨s, mem', _, holds, same⟩
    obtain rfl := db.distinctKeys s mem' r mem (congrArg Prod.fst same)
    exact holds
  · exact fun holds => ⟨r, mem, typed, holds, rfl⟩

theorem Store.selectEmpty {l : Layout} (db : Store l V) (I : Interpretation V) (ids : List Int32)
    (P : Row V → Prop) : db.select I ids P = ∅ ↔ ∀ r ∈ db.entities, I.OfType l ids r → ¬ P r := by
  rw [Set.eq_empty_iff_forall_notMem]
  constructor
  · intro none r mem typed holds
    exact none _ ⟨r, mem, typed, holds, rfl⟩
  · intro none x inside
    obtain ⟨r, mem, typed, holds, _⟩ := inside
    exact none r mem typed holds

theorem Store.selectUnion {l : Layout} (db : Store l V) (I : Interpretation V) (ids : List Int32)
    (P Q : Row V → Prop) : db.select I ids P ∪ db.select I ids Q = db.select I ids fun r => P r ∨ Q r := by
  ext x
  constructor
  · intro inside
    rcases inside with ⟨r, mem, typed, holds, shown⟩ | ⟨r, mem, typed, holds, shown⟩
    · exact ⟨r, mem, typed, .inl holds, shown⟩
    · exact ⟨r, mem, typed, .inr holds, shown⟩
  · intro inside
    obtain ⟨r, mem, typed, holds | holds, shown⟩ := inside
    · exact .inl ⟨r, mem, typed, holds, shown⟩
    · exact .inr ⟨r, mem, typed, holds, shown⟩

theorem Store.selectInter {l : Layout} (db : Store l V) (I : Interpretation V) (ids : List Int32)
    (P Q : Row V → Prop) : db.select I ids P ∩ db.select I ids Q = db.select I ids fun r => P r ∧ Q r := by
  ext x
  constructor
  · intro inside
    obtain ⟨⟨r, mem, typed, holds, rfl⟩, ⟨s, mem', _, holds', same⟩⟩ := inside
    obtain rfl := db.distinctKeys s mem' r mem (congrArg Prod.fst same)
    exact ⟨s, mem, typed, ⟨holds, holds'⟩, rfl⟩
  · intro inside
    obtain ⟨r, mem, typed, ⟨holds, holds'⟩, shown⟩ := inside
    exact ⟨⟨r, mem, typed, holds, shown⟩, ⟨r, mem, typed, holds', shown⟩⟩

theorem Store.selectEach {l : Layout} (db : Store l V) (I : Interpretation V) (ids : List Int32) {α : Type}
    {wanted : List α} (some : wanted ≠ []) (P : α → Row V → Prop) (x : Option V × Option V) :
    x ∈ db.select I ids (fun r => ∀ a ∈ wanted, P a r) ↔ ∀ a ∈ wanted, x ∈ db.select I ids (P a) := by
  constructor
  · rintro ⟨r, mem, typed, all, rfl⟩ a wanted
    exact ⟨r, mem, typed, all a wanted, rfl⟩
  · intro each
    obtain ⟨a, first⟩ := List.exists_mem_of_ne_nil _ some
    obtain ⟨r, mem, typed, _, rfl⟩ := each a first
    refine ⟨r, mem, typed, fun b wanted => ?_, rfl⟩
    obtain ⟨s, mem', _, holds, same⟩ := each b wanted
    obtain rfl := db.distinctKeys s mem' r mem (congrArg Prod.fst same)
    exact holds

theorem Store.selectDiff {l : Layout} (db : Store l V) (I : Interpretation V) (ids : List Int32)
    (P : Row V → Prop) :
    db.select I ids (fun _ => True) \ db.select I ids P = db.select I ids (fun r => ¬ P r) := by
  ext x
  constructor
  · intro inside
    obtain ⟨⟨r, mem, typed, _, rfl⟩, not⟩ := inside
    exact ⟨r, mem, typed, fun holds => not ⟨r, mem, typed, holds, rfl⟩, rfl⟩
  · intro inside
    obtain ⟨r, mem, typed, not, rfl⟩ := inside
    refine ⟨⟨r, mem, typed, trivial, rfl⟩, fun both => ?_⟩
    obtain ⟨s, mem', _, holds, same⟩ := both
    obtain rfl := db.distinctKeys s mem' r mem (congrArg Prod.fst same)
    exact not holds

section
variable [DecidableEq V] {l : Layout} {db : Store l V} {I : Interpretation V}

theorem selectedAlong {kind : JoinKind} {n : Nat} {ids : List Int32} {links : List Link} {tests : List Test}
    {P : Row V → Prop}
    (reads : ∀ e, (∀ t ∈ tests, t.Passes I e) ↔ P (e (Link.last (.numbered n) (n + 1) links))) :
    Selection.selected I db
        ⟨.numbered n, ids, Link.joins kind (.numbered n) (n + 1) links, tests, none⟩ =
      db.select I ids fun r => ∃ t, JoinChain db kind r links t ∧ P t := by
  have passes : ∀ e, (Test.all (l.typeTest ids (.numbered n) :: tests)).Passes I e ↔
      I.OfType l ids (e (.numbered n)) ∧ P (e (Link.last (.numbered n) (n + 1) links)) := by
    intro e
    rw [Test.passesAll, List.forall_mem_cons, I.typeTestPasses, reads]
  have root := Alias.beforeSucc n
  ext x
  simp only [Selection.selected, Selection.answer, Selection.passing, Selection.joined, Set.mem_ofPred_eq,
    List.mem_dedup, List.mem_map, List.mem_filter, List.mem_flatMap, decide_eq_true_eq, passes]
  constructor
  · intro found
    obtain ⟨e, ⟨⟨r, mem, inside⟩, typed, holds⟩, rfl⟩ := found
    obtain ⟨chain, same⟩ := extendAllChain root inside
    have atRoot : e (.numbered n) = r := by rw [same _ root, Joined.withSame]
    rw [Joined.withSame] at chain
    rw [atRoot] at typed
    refine ⟨r, mem, typed, ⟨_, chain, holds⟩, ?_⟩
    simp [Selection.pair, Row.shown, Column.read, Layout.keyOf, Layout.identityOf, atRoot]
  · intro found
    obtain ⟨r, mem, typed, ⟨t, chain, holds⟩, rfl⟩ := found
    obtain ⟨e, inside, rfl⟩ := chainExtendAll (e := Joined.with (fun _ => Row.null) (.numbered n) r) root
      (Joined.withSame _ _ _) chain
    have atRoot : e (.numbered n) = r := by rw [(extendAllChain root inside).2 _ root, Joined.withSame]
    refine ⟨e, ⟨⟨r, mem, inside⟩, atRoot.symm ▸ typed, holds⟩, ?_⟩
    simp [Selection.pair, Row.shown, Column.read, Layout.keyOf, Layout.identityOf, atRoot]

theorem selectedAll (sc : Scope) {db : Store sc.layout V} (n : Nat) :
    Selection.selected I db (all sc n) = db.select I sc.typeIds fun _ => True := by
  have untested : ∀ e : Joined V, (∀ t ∈ ([] : List Test), t.Passes I e) ↔ True := by simp
  have along : Selection.selected I db
      ⟨.numbered n, sc.typeIds, Link.joins .inner (.numbered n) (n + 1) [], [], none⟩ =
      db.select I sc.typeIds fun r => ∃ t, JoinChain db .inner r [] t ∧ (fun _ => True) t := selectedAlong untested
  refine along.trans (congrArg (db.select I sc.typeIds) (funext fun r => ?_))
  simpa using ⟨r, .nil r⟩

theorem selectedOfType {s : Selection} (own : ∀ j ∈ s.joins, s.root ≠ j.tableAlias) :
    Selection.selected I db s ⊆ db.select I s.typeIds fun _ => True := by
  intro x found
  obtain ⟨e, kept, rfl⟩ := List.mem_map.mp (List.mem_dedup.mp found)
  have passing : e ∈ s.passing I db := by
    split at kept
    · exact kept
    · exact (List.mem_filter.mp kept).1
  obtain ⟨inside, passed⟩ := List.mem_filter.mp passing
  obtain ⟨r, mem, extended⟩ := List.mem_flatMap.mp inside
  have atRoot : e s.root = r := Join.extendAllRoot own extended
  have typed := (Test.passesAll I e _).mp (of_decide_eq_true passed) _ List.mem_cons_self
  rw [I.typeTestPasses, atRoot] at typed
  refine ⟨r, mem, typed, trivial, ?_⟩
  simp [Selection.pair, Row.shown, Column.read, Layout.keyOf, Layout.identityOf, atRoot]

end

end ObjectQuery
