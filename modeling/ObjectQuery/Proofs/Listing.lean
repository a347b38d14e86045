import ObjectQuery.Proofs.Complement
import ObjectQuery.Proofs.ReadRequest
import ObjectQuery.Proofs.Sorting

/-! The answers of a request's two texts over a store. Sorting neither loses nor doubles an entity, and as many are
counted as are listed. -/
namespace ObjectQuery
open Outcome SqlText

variable {V : Type} [DecidableEq V] {l : Layout}

def Record.pair (record : Record V) : Option V × Option V := (record[0]?.join, record[1]?.join)

namespace RowPlan

omit [DecidableEq V] in
theorem recordPair (l : Layout) (p : RowPlan) (e : Joined V) :
    Record.pair ((p.shown l).map (·.read e)) = (e p.restriction.root).shown l := by
  obtain ⟨more, shown⟩ : _ <+: p.shown l := showingPrefix _ _
  simp [← shown, Record.pair, Row.shown, Column.read, Layout.keyOf, Layout.identityOf]

structure JoinsOne (db : Store l V) (p : RowPlan) : Prop where
  own : ∀ j ∈ p.joins, p.restriction.root ≠ j.tableAlias
  kept : ∀ e : Joined V, ∃ e', e' ∈ Join.extendAll db p.joins e
  one : ∀ e e₁ e₂ : Joined V, e₁ ∈ Join.extendAll db p.joins e → e₂ ∈ Join.extendAll db p.joins e → e₁ = e₂

structure Lists (I : Interpretation V) (db : Store l V) (p : RowPlan) (rows : List (Record V)) : Prop where
  distinct : rows.Nodup
  each : ∀ a, a ∈ rows ↔ ∃ r ∈ db.entities, p.restriction.Selects I db r ∧
    ∃ e ∈ Join.extendAll db p.joins (Joined.with (fun _ => Row.null) p.restriction.root r),
      (p.shown l).map (·.read e) = a

variable {I : Interpretation V} {db : Store l V} {p : RowPlan} {members : Option (List (Record V))}
  {rows : List (Record V)}

theorem JoinsOne.listingRows (one : p.JoinsOne db) (read : p.restriction.Members I db members) :
    ∃ rows, (p.listing I l members).rows db = some rows ∧ p.Lists I db rows := by
  refine ⟨(((p.listing I l members).passing db).map fun e => (p.shown l).map (·.read e)).dedup, rfl,
    List.nodup_dedup _, fun a => ?_⟩
  rw [List.mem_dedup, List.mem_map]
  simp only [Statement.passing, Statement.joined, List.mem_filter, List.mem_flatMap, listing, Option.all_some,
    decide_eq_true_eq, read.selects]
  constructor
  · rintro ⟨e, ⟨⟨r, stored, extended⟩, selected⟩, shown⟩
    rw [Join.extendAllRoot one.own extended] at selected
    exact ⟨r, stored, selected, e, extended, shown⟩
  · rintro ⟨r, stored, selected, e, extended, shown⟩
    refine ⟨e, ⟨⟨r, stored, extended⟩, ?_⟩, shown⟩
    rwa [Join.extendAllRoot one.own extended]

theorem JoinsOne.pairsSelected (one : p.JoinsOne db) (lists : p.Lists I db rows) (x : Option V × Option V) :
    x ∈ rows.map Record.pair ↔ ∃ r ∈ db.entities, p.restriction.Selects I db r ∧ r.shown l = x := by
  rw [List.mem_map]
  constructor
  · rintro ⟨a, mem, rfl⟩
    obtain ⟨r, stored, selected, e, extended, rfl⟩ := (lists.each a).mp mem
    exact ⟨r, stored, selected, by rw [recordPair, Join.extendAllRoot one.own extended]⟩
  · rintro ⟨r, stored, selected, rfl⟩
    obtain ⟨e, extended⟩ := one.kept (Joined.with (fun _ => Row.null) p.restriction.root r)
    refine ⟨_, (lists.each _).mpr ⟨r, stored, selected, e, extended, rfl⟩, ?_⟩
    rw [recordPair, Join.extendAllRoot one.own extended]

theorem JoinsOne.keysDiffer (one : p.JoinsOne db) (lists : p.Lists I db rows) :
    ((rows.map Record.pair).map Prod.fst).Nodup := by
  rw [List.map_map]
  refine List.Nodup.map_on (fun a mem b mem' same => ?_) lists.distinct
  obtain ⟨r, stored, _, e, extended, rfl⟩ := (lists.each a).mp mem
  obtain ⟨r', stored', _, e', extended', rfl⟩ := (lists.each b).mp mem'
  rw [Function.comp, Function.comp, recordPair, recordPair, Join.extendAllRoot one.own extended,
    Join.extendAllRoot one.own extended'] at same
  rw [db.distinctKeys r stored r' stored' same] at extended
  rw [one.one _ e e' extended extended']

theorem countedKeys {r : Restriction} (read : r.Members I db members) (v : V) :
    v ∈ ((r.counting I l members).passing db).filterMap (l.keyOf r.root).read ↔
      ∃ e ∈ db.entities, r.Selects I db e ∧ e l.entityKey = some v := by
  simp only [List.mem_filterMap, Statement.passing, Statement.joined, Restriction.counting, List.mem_filter,
    List.mem_flatMap, Option.all_some, decide_eq_true_eq, read.selects, Join.extendAll, List.mem_singleton]
  constructor
  · rintro ⟨_, ⟨⟨e, stored, rfl⟩, selected⟩, key⟩
    rw [Joined.withSame] at selected
    exact ⟨e, stored, selected, by simpa [Column.read, Layout.keyOf] using key⟩
  · rintro ⟨e, stored, selected, key⟩
    refine ⟨_, ⟨⟨e, stored, rfl⟩, ?_⟩, ?_⟩
    · rwa [Joined.withSame]
    · simpa [Column.read, Layout.keyOf] using key

theorem JoinsOne.counted (one : p.JoinsOne db) (keyed : ∀ r ∈ db.entities, (r l.entityKey).isSome = true)
    (read : p.restriction.Members I db members) (lists : p.Lists I db rows) :
    (p.restriction.counting I l members).number db = some rows.length := by
  have first (w : Option V) : w ∈ (rows.map Record.pair).map Prod.fst ↔
      ∃ r ∈ db.entities, p.restriction.Selects I db r ∧ r l.entityKey = w := by
    rw [List.mem_map]
    simp only [one.pairsSelected lists]
    constructor
    · rintro ⟨x, ⟨r, stored, selected, rfl⟩, key⟩
      exact ⟨r, stored, selected, key⟩
    · rintro ⟨r, stored, selected, key⟩
      exact ⟨_, ⟨r, stored, selected, rfl⟩, key⟩
  have same (w : Option V) : w ∈ ((((p.restriction.counting I l members).passing db).filterMap
      (l.keyOf p.restriction.root).read).dedup.map some) ↔ w ∈ (rows.map Record.pair).map Prod.fst := by
    rw [first]
    cases w with
    | none =>
      refine iff_of_false (by simp) ?_
      rintro ⟨r, stored, _, missing⟩
      have key := keyed r stored
      rw [missing] at key
      cases key
    | some v => rw [List.mem_map_of_injective (Option.some_injective V), List.mem_dedup, countedKeys read]
  -- the keys counted and the keys listed are the same, and neither has one twice
  have distinct := (List.nodup_dedup (((p.restriction.counting I l members).passing db).filterMap
    (l.keyOf p.restriction.root).read)).map (Option.some_injective V)
  have permuted := (List.perm_ext_iff_of_nodup distinct (one.keysDiffer lists)).mpr same
  have length := permuted.length_eq
  simp only [List.length_map] at length
  exact congrArg some length

theorem Legible.unpagedAnswer (legible : p.Legible l) (unpaged : p.limit = none ∧ p.offset = none)
    (collate : Option V → Option V → Ordering) (listed : (p.listing I l members).rows db = some rows) :
    ∃ records, (p.listing I l members).answer db collate = some records ∧ records.Perm rows := by
  have whole : (p.listing I l members).limit = none ∧ (p.listing I l members).offset = none := by
    simp [listing, unpaged]
  rw [Statement.answer, listed, whole.1, whole.2]
  by_cases unsorted : p.sortColumns = []
  · refine ⟨rows, ?_, .refl _⟩
    simp [Statement.sorted, listing, unsorted]
  · refine ⟨_, ?_, List.perm_insertionSort (fun a b => Statement.precedes collate (p.shown l) p.sortColumns a b = true) rows⟩
    simpa [Statement.sorted, listing, unsorted] using legible.sortShown

end RowPlan

def CompiledQuery.bound (q : CompiledQuery) : List BoundParameter :=
  List.zipWith BoundParameter.mk q.parameters q.parameterTypes

theorem CompiledQuery.boundOf (s : Sql.Select) : (CompiledQuery.ofSelect s).bound = s.parameters := by
  simp [bound, ofSelect, List.zipWith_map_left, List.zipWith_map_right, List.zipWith_self]

namespace Context

variable {ctx : Context} {db : Store ctx.layout V}

def OneRowHops (ctx : Context) (db : Store ctx.layout V) (keys : List SortKey) : Prop :=
  ∀ key ∈ keys, ∀ links, ctx.pathLinks key.property = .ok links → ∀ k ∈ links, k.single = true → k.OneRow db

theorem SortLaid.joinsUnique {root : Alias} {keys : List SortKey} {columns : List SortColumn} {r r' : Route}
    (laid : SortLaid ctx root keys r columns r') (before : root.Before r.issued) (hops : ctx.OneRowHops db keys) :
    ∃ more, r'.joins = r.joins ++ more ∧ ∀ e e₁ e₂ : Joined V,
      e₁ ∈ Join.extendAll db more e → e₂ ∈ Join.extendAll db more e → e₁ = e₂ := by
  induction laid with
  | nil r =>
    refine ⟨[], (List.append_nil _).symm, fun e e₁ e₂ first second => ?_⟩
    exact (List.mem_singleton.mp first).trans (List.mem_singleton.mp second).symm
  | @cons key keys links reached columns r u r' known single laid tail ih =>
    obtain ⟨rfl, _⟩ := laid
    have one : ∀ k ∈ links, k.OneRow db := fun k mem => hops key List.mem_cons_self links known k mem (single k mem)
    obtain ⟨more, joins, later⟩ := ih (before.widen (Nat.le_add_right _ _))
      fun key mem => hops key (List.mem_cons_of_mem _ mem)
    refine ⟨Link.joins .left root r.issued links ++ more, by rw [joins, List.append_assoc], ?_⟩
    intro e e₁ e₂ first second
    rw [Join.extendAllAppend] at first second
    obtain ⟨_, here, first⟩ := List.mem_flatMap.mp first
    obtain ⟨_, here', second⟩ := List.mem_flatMap.mp second
    obtain rfl := extendAllUnique before one here here'
    exact later _ e₁ e₂ first second

theorem rowPlanJoinsOne {r : Request} {plan : RowPlan} {m : Nat} (planned : ctx.rowPlan r 0 = .ok plan m)
    (hops : ctx.OneRowHops db r.orderBy) : plan.JoinsOne db := by
  obtain ⟨kept, columns, k, sorted⟩ := rowPlanLaid planned
  obtain ⟨k', within⟩ := rowPlanOk planned
  cases sorted.restricted.symm.trans within.restricted
  obtain ⟨root, issued⟩ := restrictIssued sorted.restricted
  have first : 1 ≤ k := issued.le
  have before : plan.restriction.root.Before k := by
    rw [root]
    exact (Alias.beforeSucc 0).widen first
  obtain ⟨_, block, _⟩ := within.joins.fresh
  have own : ∀ j ∈ plan.joins, plan.restriction.root ≠ j.tableAlias := by
    intro j mem same
    obtain ⟨i, low, _, named⟩ := Alias.blockMem.mp (block ▸ List.mem_map_of_mem mem)
    have below := before i (same.trans named.symm)
    omega
  have left : ∀ j ∈ plan.joins, j.kind = .left := sorted.laid.leftJoins (List.forall_mem_nil _)
  obtain ⟨more, joins, unique⟩ := sorted.laid.joinsUnique before fun key mem => hops key (sorted.sub.subset mem)
  obtain rfl : plan.joins = more := joins
  exact ⟨own, Join.extendAllSome db left, unique⟩

/-- Whatever a request is sorted by, its text lists the entities that are asked for, each in one row, and the text of
its count counts those rows. -/
theorem sortedRowsAreTheSelected (ctx : Context) (I : Interpretation V) (collate : Option V → Option V → Ordering)
    (db : Store ctx.layout V) (valid : ctx.layout.faults = []) (named : ctx.schema.Identified)
    (keyed : ∀ r ∈ db.entities, (r ctx.layout.entityKey).isSome = true) {r : Request}
    (unpaged : r.first = none ∧ r.max = none) {rows : CompiledQuery} (ok : ctx.compileRows r = .ok rows) :
    ∃ restriction n count, ctx.restrict r 0 = .ok restriction n ∧ ctx.compileCount r = .ok count ∧
      ∀ keys rows, ctx.compileRows { r with orderBy := keys } = .ok rows → ctx.OneRowHops db keys →
        ∃ records, SqlText.answer I db collate rows.sql rows.bound = some records ∧
          (records.map Record.pair).Nodup ∧
          (∀ x, x ∈ records.map Record.pair ↔
            ∃ e ∈ db.entities, restriction.Selects I db e ∧ e.shown ctx.layout = x) ∧
          SqlText.number I db count.sql count.bound = some records.length := by
  have names := identifiedNames valid named
  obtain ⟨plan, n, planned, _⟩ := compileRowsOk.mp ok
  obtain ⟨k, restricted, _⟩ := rowPlanSorted planned
  refine ⟨plan.restriction, k, _, restricted, compileCountOk.mpr ⟨_, k, restricted, rfl⟩, fun keys rows ok hops => ?_⟩
  obtain ⟨other, m, planned, rfl⟩ := compileRowsOk.mp ok
  obtain ⟨kept, columns, k', sorted⟩ := rowPlanLaid planned
  have shared : other.restriction = plan.restriction :=
    (EStateM.Result.ok.inj (sorted.restricted.symm.trans restricted)).1
  have whole : other.limit = none ∧ other.offset = none := by
    rw [sorted.limit, sorted.offset, Request.offset, unpaged.1]
    exact ⟨unpaged.2, rfl⟩
  have legible := rowPlanLegible names planned
  have one : other.JoinsOne db := rowPlanJoinsOne planned hops
  obtain ⟨members, read⟩ := @Restriction.Legible.readMembers V _ _ I db _ legible.restriction
  obtain ⟨listed, yielded, lists⟩ := one.listingRows read
  obtain ⟨records, answered, permuted⟩ := legible.unpagedAnswer whole collate yielded
  have counted := one.counted keyed read lists
  have pairs := permuted.map Record.pair
  rw [CompiledQuery.boundOf, CompiledQuery.boundOf, ← shared]
  refine ⟨records, ?_, ?_, fun x => pairs.mem_iff.trans (one.pairsSelected lists x), ?_⟩
  · exact ((RowPlan.listingDenotes read legible).answer collate).trans answered
  · exact pairs.nodup_iff.mpr ((one.keysDiffer lists).of_map Prod.fst)
  · rw [permuted.length_eq, ← counted]
    exact (read.countDenotes legible.restriction).number

end Context

namespace ListingSample
open ComplementSample

def people : Context := ⟨persons.schema.withTypeIds "Person" [1], .default⟩

def byEmployersAge : Request where
  resultType := "Person"
  predicate := some (.not (.leaf olderEmployer))
  orderBy := [⟨employersAge, .descending⟩]
  first := none
  max := none

theorem employersAgeOneRow : people.OneRowHops store byEmployersAge.orderBy := by
  intro key mem links known
  obtain rfl := List.mem_singleton.mp mem
  exact hopsAreSingle links known

theorem peopleIdentified : people.schema.Identified := personsIdentified

theorem othersListed : ∃ rows count records, people.compileRows byEmployersAge = .ok rows ∧
    people.compileCount byEmployersAge = .ok count ∧
    SqlText.answer numbers store compare rows.sql rows.bound = some records ∧
    (records.map Record.pair).Perm [(some 2, some 102), (some 3, some 103)] ∧
    SqlText.number numbers store count.sql count.bound = some 2 := by
  have keyed : ∀ r ∈ store.entities, (r people.layout.entityKey).isSome = true := by
    change ∀ r ∈ ComplementSample.rows "entities", (r "entity_pk").isSome = true
    simp [ComplementSample.rows, row]
  have valid : people.layout.faults = [] := by decide
  obtain ⟨rows, ok⟩ : ∃ rows, people.compileRows byEmployersAge = .ok rows := ⟨_, rfl⟩
  obtain ⟨restriction, n, count, restricted, counts, each⟩ :=
    Context.sortedRowsAreTheSelected people numbers compare store valid peopleIdentified keyed ⟨rfl, rfl⟩ ok
  obtain ⟨records, answered, distinct, selected, number⟩ := each byEmployersAge.orderBy rows ok employersAgeOneRow
  cases restricted.symm.trans (rfl : people.restrict byEmployersAge 0 = .ok _ _)
  have compiled : Scope.compile ⟨people, [1]⟩ (.not (.leaf olderEmployer)) false 1 = .ok (some _) _ := rfl
  have others := @Scope.compiledSelects Int _ ⟨people, [1]⟩ valid peopleIdentified numbers store _ _ _ _ _ compiled
  have listed : (records.map Record.pair).Perm [(some 2, some 102), (some 3, some 103)] := by
    refine (List.perm_ext_iff_of_nodup distinct (by decide)).mpr fun x => ?_
    have asked (e : Row Int) := @Restriction.selectsAmong Int _ people.layout numbers store
      ⟨.numbered 0, [1], some _⟩ _ {x | x ∈ [(some 2, some 102), (some 3, some 103)]} rfl others e
    refine (selected x).trans ?_
    refine (exists_congr fun e => and_congr_right fun _ => and_congr_left' (asked e)).trans ?_
    constructor
    · rintro ⟨e, _, ⟨_, _, _, among⟩, rfl⟩
      exact among
    · intro among
      refine ⟨row [("entity_pk", x.1.getD 0), ("entity_identity", x.2.getD 0), ("entity_type_id", 1)], ?_⟩
      have cases : x = (some 2, some 102) ∨ x = (some 3, some 103) := by simpa using among
      rcases cases with rfl | rfl
      · exact ⟨.tail _ (.head _), ⟨⟨1, rfl, 1, List.mem_singleton_self _, rfl⟩, rfl, rfl, among⟩, rfl⟩
      · exact ⟨.tail _ (.tail _ (.head _)), ⟨⟨1, rfl, 1, List.mem_singleton_self _, rfl⟩, rfl, rfl, among⟩, rfl⟩
  have length := listed.length_eq
  rw [List.length_map] at length
  exact ⟨rows, count, records, ok, counts, answered, listed, number.trans (congrArg some length)⟩

end ListingSample
end ObjectQuery
