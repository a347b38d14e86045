import Mathlib.Data.Set.Card
import ObjectQuery.Proofs.Admission
import ObjectQuery.Proofs.Contained
import ObjectQuery.Proofs.Division
import ObjectQuery.Proofs.Emitted

/-! Collections that contain all of some plain values. Each value is found on a row of its own, and the values
found are counted, so that as many as were asked for are found exactly if each one is. -/
namespace ObjectQuery
open Outcome

/-- A scalar that equals another one only if it is the same: neither null nor a floating-point number. -/
def Value.Discrete (v : Value) : Prop := Context.countsItself v = true ∧ ∀ x, v ≠ .float x

namespace Context

variable {ctx : Context}

theorem Binds.discrete {v : Value} {b : BoundParameter} (binds : ctx.Binds v b) (discrete : v.Discrete) :
    b.value.Discrete := by
  cases binds with
  | key => exact ⟨rfl, nofun⟩
  | plain => exact discrete

theorem Binds.unique {v : Value} {a b : BoundParameter} (left : ctx.Binds v a) (right : ctx.Binds v b) : a = b :=
  Except.ok.inj (left.bound.symm.trans right.bound)

theorem sameBoundDiscrete {a b : Value} (left : a.Discrete) (right : b.Discrete) : sameBound a b = true ↔ a = b := by
  obtain ⟨counts, exact⟩ := left
  obtain ⟨counts', exact'⟩ := right
  cases a <;> cases b <;> simp_all [sameBound, Value.equals, countsItself, Value.isScalar, Value.isNull]

theorem boundEqualBinds {v w : Value} {a b : BoundParameter} (left : ctx.Binds v a) (right : ctx.Binds w b) :
    ctx.boundEqual v w = .ok (sameBound a.value b.value) := by
  have asked : ctx.boundEqual v w =
      ctx.bind v >>= fun x => ctx.bind w >>= fun y => pure (sameBound x.value y.value) := by
    have counts := left.counts
    have counts' := right.counts
    cases v with
    | null | composite => cases counts
    | _ =>
      cases w with
      | null | composite => cases counts'
      | _ => rfl
  rw [asked, left.bound, right.bound]
  rfl

theorem boundNodup {kept : List Value} {bs : List BoundParameter} (binds : List.Forall₂ ctx.Binds kept bs)
    (discrete : ∀ v ∈ kept, v.Discrete) (apart : kept.Pairwise fun k v => ctx.boundEqual k v ≠ .ok true) :
    (bs.map (·.value)).Nodup := by
  induction binds with
  | nil => exact List.nodup_nil
  | @cons v b rest others first binds ih =>
    obtain ⟨discreteFirst, discreteRest⟩ := List.forall_mem_cons.mp discrete
    obtain ⟨apartFirst, apartRest⟩ := List.pairwise_cons.mp apart
    refine List.nodup_cons.mpr ⟨fun mem => ?_, ih discreteRest apartRest⟩
    obtain ⟨b', inside, same⟩ := List.mem_map.mp mem
    obtain ⟨w, mem, bound⟩ := pairedFrom binds inside
    refine apartFirst w mem ?_
    rw [boundEqualBinds first bound, (sameBoundDiscrete (first.discrete discreteFirst)
      (bound.discrete (discreteRest w mem))).mpr same.symm]

def holding (ctx : Context) (a : Alias) (b : BoundParameter) : Test :=
  .all [.pathMatches ⟨a, ctx.layout.collectionPath⟩ ctx.layout.belowRoot,
    .compare ⟨a, ctx.layout.attributeValue⟩ .eq b]

theorem countsPlain {v : Value} (counts : countsItself v = true) :
    v.isNull = false ∧ ∀ t fields, v ≠ .composite t fields := by
  cases v with
  | null | composite => cases counts
  | _ => exact ⟨rfl, nofun⟩

variable {source : ElementSource} {children children' : Children} {r r' : Route}

theorem elementTestPlain {v : Value} {test : Test} (counts : countsItself v = true)
    (ok : ctx.elementTest source v children r = .ok (test, children') r') :
    ∃ b, ctx.Binds v b ∧ test = ctx.holding source.tableAlias b ∧ r' = r := by
  obtain ⟨some, plain⟩ := countsPlain counts
  obtain ⟨_, value, rfl⟩ := elementTestOk ok
  obtain ⟨_, made, rfl, _, rfl⟩ := (plainTestsOk plain).mp value
  rw [scalarTest, some, if_neg Bool.false_ne_true] at made
  obtain ⟨b, bound, made⟩ := exceptBindOk.mp made
  obtain rfl := exceptPureOk.mp made
  exact ⟨b, bindBinds some bound, rfl, rfl⟩

theorem elementTestsPlain {elements : List Value} {tests : List Test} (plain : ∀ v ∈ elements, countsItself v = true)
    (ok : ctx.elementTests source elements children r = .ok (tests, children') r') :
    ∃ bs, List.Forall₂ ctx.Binds elements bs ∧ tests = bs.map (ctx.holding source.tableAlias) ∧ r' = r := by
  induction elements generalizing tests children r with
  | nil =>
    obtain ⟨same, rfl⟩ := pureOk.mp ok
    cases same
    exact ⟨[], .nil, rfl, rfl⟩
  | cons v rest ih =>
    obtain ⟨plainFirst, plainRest⟩ := List.forall_mem_cons.mp plain
    obtain ⟨_, _, _, _, first, others, rfl⟩ := elementTestsOk ok
    obtain ⟨b, binds, rfl, rfl⟩ := elementTestPlain plainFirst first
    obtain ⟨bs, bindEach, rfl, rfl⟩ := ih plainRest others
    exact ⟨b :: bs, .cons binds bindEach, rfl, rfl⟩

end Context

variable {V : Type}

namespace Interpretation

def Finds (I : Interpretation V) (l : Layout) (b : BoundParameter) (t : Row V) : Prop :=
  (∃ path, t l.collectionPath = some path ∧ I.pathMatches path l.belowRoot = true) ∧
    ∃ w, t l.attributeValue = some w ∧ I.compare w .eq b = true

/-- A stored value equals a bound one exactly if it is what this one denotes, each one something else. -/
structure ComparesValues (I : Interpretation V) (denoted : Value → V) : Prop where
  equal : ∀ w b, b.value.Discrete → (I.compare w .eq b = true ↔ w = denoted b.value)
  apart : ∀ v w : Value, v.Discrete → w.Discrete → denoted v = denoted w → v = w

end Interpretation

theorem Context.holdingPasses {ctx : Context} {I : Interpretation V} {a : Alias} {b : BoundParameter} {e : Joined V}
    (notNull : b.value.isNull = false) : (ctx.holding a b).Passes I e ↔ I.Finds ctx.layout b (e a) := by
  rw [holding, Test.passesAll, List.forall_mem_cons, List.forall_mem_singleton]
  simp [Test.Passes, Test.truth, Interpretation.Finds, Column.read, notNull]

namespace Scope

def HasElement (sc : Scope) (db : Store sc.layout V) (p : PropertyPath) (P : Row V → Prop) (r : Row V) : Prop :=
  ∃ links t, sc.pathLinks p = .ok links ∧ Chain db r links t ∧ P t

theorem hasElementAlong {sc : Scope} {db : Store sc.layout V} {p : PropertyPath} {links : List Link}
    (known : sc.pathLinks p = .ok links) (P : Row V → Prop) (r : Row V) :
    sc.HasElement db p P r ↔ ∃ t, Chain db r links t ∧ P t := by
  constructor
  · rintro ⟨links', t, other, chain, wanted⟩
    cases known.symm.trans other
    exact ⟨t, chain, wanted⟩
  · rintro ⟨t, chain, wanted⟩
    exact ⟨links, t, known, chain, wanted⟩

variable [DecidableEq V] {sc : Scope} {db : Store sc.layout V} {I : Interpretation V} {p : PropertyPath} {n m : Nat}
  {q : SetPlan}

theorem plainContainsSelects {v : Value} {b : BoundParameter} (binds : sc.Binds v b)
    (ok : sc.contains p (.literal v) n = .ok q m) : q.reading (Selection.selected I db) =
      db.select I sc.typeIds (sc.HasElement db p (I.Finds sc.layout b)) := by
  obtain ⟨target, source, links, r, test, children, joins, there, element, _, rfl⟩ := containsLaid ok
  obtain ⟨b', binds', rfl, route⟩ := Context.elementTestPlain binds.counts element
  obtain rfl := binds.unique binds'
  obtain ⟨_, rfl⟩ := Route.mk.inj (route.trans there.path.laid.route)
  refine (selectedAlong (P := I.Finds sc.layout b) fun e => ?_).trans ?_
  · rw [List.forall_mem_singleton, Context.holdingPasses binds.notNull, there.tableAlias, there.path.laid.reached]
  · refine congrArg (db.select I sc.typeIds) (funext fun r => propext ?_)
    simp only [joinChainInner, hasElementAlong there.path.known]

omit [DecidableEq V] in
theorem containsCompiles {v : Value} {b : BoundParameter} (known : p.Known sc.toContext)
    (collection : sc.IsCollection p.last) (bound : sc.Binds v b) (k : Nat) : ∃ each m',
      sc.compile (.leaf (.contains p (.literal v))) false k = .ok (some each) m' := by
  obtain ⟨_, plain⟩ := Context.countsPlain bound.counts
  have single : v.isCollection = false := by
    cases v with
    | collection => cases bound.counts
    | _ => rfl
  have admitted : (Leaf.contains p (.literal v)).Admitted sc.toContext :=
    ⟨v, rfl, single, known, collection, (Value.admittedPlain plain).symm ▸ .inr ⟨b, bound.bound⟩⟩
  obtain ⟨each, m', ok⟩ := ((containsDecides p (.literal v)).done k).mpr admitted
  exact ⟨each, m', mapOk.mpr ⟨each, bindOk.mpr ⟨each, m', ok, rfl⟩, rfl⟩⟩

theorem countsEach {denoted : Value → V} (equality : I.ComparesValues denoted) {l : Layout} {bs : List BoundParameter}
    (discrete : ∀ b ∈ bs, b.value.Discrete) (distinct : (bs.map (·.value)).Nodup) (some : bs ≠ [])
    {group : List (Joined V)} {a : Alias} {reached : Row V → Prop}
    (rows : ∀ t, (∃ e ∈ group, e a = t) ↔ reached t ∧ ∃ b ∈ bs, I.Finds l b t) :
    (∃ e, e ∈ group) ∧ Division.Holds I ⟨.values ⟨a, l.attributeValue⟩, bs.length⟩ group ↔
      ∀ b ∈ bs, ∃ t, reached t ∧ I.Finds l b t := by
  -- Each row of the group holds one of the values, so as many are counted as there are exactly if each of them is
  -- found among the rows.
  have holds (b) (mem : b ∈ bs) {t : Row V} {w : V} (found : I.Finds l b t) (value : t l.attributeValue = .some w) :
      w = denoted b.value := by
    obtain ⟨_, w', value', compares⟩ := found
    cases value.symm.trans value'
    exact (equality.equal w b (discrete b mem)).mp compares
  have wanted : (bs.map fun b => denoted b.value).Nodup := by
    rw [List.nodup_map_iff_inj_on distinct.of_map]
    intro b mem b' mem' same
    exact List.inj_on_of_nodup_map distinct mem mem' (equality.apart _ _ (discrete b mem) (discrete b' mem') same)
  have within : ∀ w ∈ group.filterMap (Column.read ⟨a, l.attributeValue⟩), w ∈ bs.map fun b => denoted b.value := by
    intro w mem
    obtain ⟨e, inside, value⟩ := List.mem_filterMap.mp mem
    obtain ⟨_, b, mem, found⟩ := (rows (e a)).mp ⟨e, inside, rfl⟩
    exact List.mem_map.mpr ⟨b, mem, (holds b mem found value).symm⟩
  have counted : Division.Holds I ⟨.values ⟨a, l.attributeValue⟩, bs.length⟩ group ↔
      ∀ b ∈ bs, denoted b.value ∈ group.filterMap (Column.read ⟨a, l.attributeValue⟩) := by
    have reached := distinctReached wanted within
    rw [List.length_map, List.forall_mem_map] at reached
    exact reached
  rw [counted]
  constructor
  · rintro ⟨_, all⟩ b mem
    obtain ⟨e, inside, value⟩ := List.mem_filterMap.mp (all b mem)
    obtain ⟨there, b', _, below, _⟩ := (rows (e a)).mp ⟨e, inside, rfl⟩
    exact ⟨e a, there, below, _, value, (equality.equal _ b (discrete b mem)).mpr rfl⟩
  · intro all
    have row (b) (mem : b ∈ bs) : ∃ e ∈ group, e a l.attributeValue = .some (denoted b.value) := by
      obtain ⟨t, there, found⟩ := all b mem
      obtain ⟨e, inside, rfl⟩ := (rows t).mpr ⟨there, b, mem, found⟩
      obtain ⟨_, w, value, _⟩ := id found
      exact ⟨e, inside, holds b mem found value ▸ value⟩
    obtain ⟨b, mem⟩ := List.exists_mem_of_ne_nil bs some
    obtain ⟨e, inside, _⟩ := row b mem
    refine ⟨⟨e, inside⟩, fun b mem => ?_⟩
    obtain ⟨e, inside, value⟩ := row b mem
    exact List.mem_filterMap.mpr ⟨e, inside, value⟩

theorem valueRowsMem {ids : List Int32} {links : List Link} {tests : List Test} {division : Option Division}
    {P : Row V → Prop}
    (reads : ∀ e : Joined V, (∀ t ∈ tests, t.Passes I e) ↔ P (e (Link.last (.numbered n) (n + 1) links)))
    (r t : Row V) :
    (∃ e ∈ Selection.rowsOf I db
        ⟨.numbered n, ids, Link.joins .inner (.numbered n) (n + 1) links, tests, division⟩ r,
      e (Link.last (.numbered n) (n + 1) links) = t) ↔ Chain db r links t ∧ P t := by
  have root := Alias.beforeSucc n
  have start : (Joined.with (fun _ => Row.null) (.numbered n) r : Joined V) (.numbered n) = r := Joined.withSame _ _ _
  simp only [Selection.rowsOfMem, reads]
  constructor
  · rintro ⟨e, ⟨inside, passed⟩, rfl⟩
    have chain := (extendAllChain root inside).1
    rw [start, joinChainInner] at chain
    exact ⟨chain, passed⟩
  · rintro ⟨chain, passed⟩
    obtain ⟨e, inside, rfl⟩ := chainExtendAll root start (joinChainInner.mpr chain)
    exact ⟨e, ⟨inside, passed⟩, rfl⟩

variable (db) in
theorem plainDividingSelects {denoted : Value → V} (equality : I.ComparesValues denoted) {kept : List Value}
    (stored : p.last.isIdentity = false) (discrete : ∀ v ∈ kept, v.Discrete)
    (apart : kept.Pairwise fun k v => sc.boundEqual k v ≠ .ok true) (some : kept ≠ [])
    (ok : sc.dividing p kept n = .ok q m) :
    ∃ s bs a, q = .select s ∧ s.division = .some ⟨.values ⟨a, sc.layout.attributeValue⟩, bs.length⟩ ∧
      List.Forall₂ sc.Binds kept bs ∧
      (bs.map (·.value)).Nodup ∧ q.reading (Selection.selected I db) =
        db.select I sc.typeIds fun r => ∀ b ∈ bs, sc.HasElement db p (I.Finds sc.layout b) r := by
  have proper := dividingProper ok
  obtain ⟨target, source, links, r, tests, children, joins, there, elements, rfl⟩ := dividingLaid ok
  obtain ⟨_, _, _, _, own⟩ := proper.each _ (List.mem_singleton_self _)
  have counts : ∀ v ∈ kept, Context.countsItself v = true := fun v mem => (discrete v mem).1
  obtain ⟨bs, binds, rfl, route⟩ := Context.elementTestsPlain counts elements
  obtain ⟨_, rfl⟩ := Route.mk.inj (route.trans there.path.laid.route)
  have bound (b) (mem : b ∈ bs) : b.value.isNull = false ∧ b.value.Discrete := by
    obtain ⟨v, inside, binds⟩ := pairedFrom binds mem
    exact ⟨binds.notNull, binds.discrete (discrete v inside)⟩
  have distinct := Context.boundNodup binds discrete apart
  have present : bs ≠ [] := by
    rintro rfl
    exact some (List.forall₂_nil_right_iff.mp binds)
  have reached : source.tableAlias = Link.last (.numbered n) (n + 1) links :=
    there.tableAlias.trans there.path.laid.reached
  have tally : tallyOf target kept (bs.map (sc.holding source.tableAlias)) =
      .values ⟨Link.last (.numbered n) (n + 1) links, sc.layout.attributeValue⟩ := by
    rw [tallyOf, if_pos (List.all_eq_true.mpr counts), there.path.value, ← there.tableAlias, reached,
      Layout.valueColumn, stored]
    rfl
  have reads (e : Joined V) : (∀ t ∈ [Test.any (bs.map (sc.holding (Link.last (.numbered n) (n + 1) links)))],
      t.Passes I e) ↔ ∃ b ∈ bs, I.Finds sc.layout b (e (Link.last (.numbered n) (n + 1) links)) := by
    rw [List.forall_mem_singleton, Test.passesAny]
    simp only [List.mem_map, exists_exists_and_eq_and]
    exact exists_congr fun b => and_congr_right fun mem => Context.holdingPasses (bound b mem).1
  rw [tally, reached, binds.length_eq] at own ⊢
  refine ⟨_, bs, _, rfl, rfl, binds, distinct, ?_⟩
  refine (Selection.dividedSelects own.rootOwn rfl).trans (congrArg (db.select I sc.typeIds) (funext fun r => ?_))
  refine (propext (countsEach equality (fun b mem => (bound b mem).2) distinct present (valueRowsMem reads r))).trans ?_
  simp only [hasElementAlong there.path.known]

omit [DecidableEq V] in
theorem findsSame {denoted : Value → V} (equality : I.ComparesValues denoted) {l : Layout} {b b' : BoundParameter}
    (discrete : b.value.Discrete) (same : b.value = b'.value) : I.Finds l b = I.Finds l b' := by
  have discrete' : b'.value.Discrete := same ▸ discrete
  funext t
  simp only [Interpretation.Finds, equality.equal _ _ discrete, equality.equal _ _ discrete', same]

def boundValues (sc : Scope) (elements : List Value) : Set Value :=
  {w | ∃ v ∈ elements, ∃ b, sc.bind v = .ok b ∧ b.value = w}

theorem boundAsKept {elements kept : List Value} {bs : List BoundParameter} (discrete : ∀ v ∈ elements, v.Discrete)
    (loop : sc.keepDistinct [] elements = .ok kept) (binds : List.Forall₂ sc.Binds kept bs) {v : Value}
    (mem : v ∈ elements) : ∃ b, sc.Binds v b ∧ ∃ b' ∈ bs, b'.value = b.value := by
  obtain ⟨_, within, each⟩ := Context.keptOrDropped loop
  rcases each v mem with inside | ⟨k, inside, same⟩
  · obtain ⟨b, mem, bound⟩ := pairedTo binds inside
    exact ⟨b, bound, b, mem, rfl⟩
  · obtain ⟨b', mem', bound'⟩ := pairedTo binds inside
    obtain ⟨some, plain⟩ := Context.countsPlain bound'.counts
    obtain ⟨x, y, first, second, same⟩ := Context.boundEqualScalar some plain same
    cases bound'.bound.symm.trans first
    have bound := Context.bindBinds (Context.countsPlain (discrete v mem).1).1 second
    have inElements : k ∈ elements := by simpa using within inside
    have alike := (Context.sameBoundDiscrete (bound'.discrete (discrete k inElements))
      (bound.discrete (discrete v mem))).mp same
    exact ⟨y, bound, b', mem', alike⟩

theorem boundCount {elements kept : List Value} {bs : List BoundParameter} (discrete : ∀ v ∈ elements, v.Discrete)
    (loop : sc.keepDistinct [] elements = .ok kept) (binds : List.Forall₂ sc.Binds kept bs)
    (distinct : (bs.map (·.value)).Nodup) : (sc.boundValues elements).ncard = bs.length := by
  classical
  have same : sc.boundValues elements = ((bs.map (·.value)).toFinset : Set Value) := by
    ext w
    rw [List.coe_toFinset]
    simp only [boundValues, Set.mem_ofPred_eq, List.mem_map]
    constructor
    · rintro ⟨v, mem, b, bound, rfl⟩
      obtain ⟨b', bound', kept⟩ := boundAsKept discrete loop binds mem
      cases bound'.bound.symm.trans bound
      exact kept
    · rintro ⟨b, mem, rfl⟩
      obtain ⟨v, inside, bound⟩ := pairedFrom binds mem
      exact ⟨v, by simpa using (Context.keptOrDropped loop).2.1 inside, b, bound.bound, rfl⟩
  rw [same, Set.ncard_coe_finset, List.toFinset_card_of_nodup distinct, List.length_map]

/-- Asked for plain values, the text of `ContainsAll` counts to the number of different values they are bound to, and
yields exactly the entities that the text of `Contains` yields for each of them. -/
theorem containsAllValuesIsDivision (sc : Scope) (db : Store sc.layout V) (I : Interpretation V) {denoted : Value → V}
    (equality : I.ComparesValues denoted) {p : PropertyPath} {items : List Value} {n m : Nat} {q : Option SetPlan}
    (collection : ¬ p.Single sc.toContext) (some : Value.flattenAll items ≠ [])
    (discrete : ∀ v ∈ Value.flattenAll items, v.Discrete)
    (ok : sc.compile (.leaf (.containsAll p (.literal (.collection items)))) false n = .ok q m) :
    ∃ plan s c, q = .some plan ∧ plan.toSql sc.layout = .select s ∧
      s.having = .some (.raw ("COUNT(DISTINCT " ++ Sql.column c sc.layout.attributeValue ++ ") >= " ++
        toString (sc.boundValues (Value.flattenAll items)).ncard)) ∧
      (∀ v ∈ Value.flattenAll items, ∀ k, ∃ each m',
        sc.compile (.leaf (.contains p (.literal v))) false k = .ok (.some each) m') ∧
      (sc.layout.faults = [] → sc.schema.Identified → ∃ all,
        (plan.toSql sc.layout).Selects I db all ∧
        ∀ x, x ∈ all ↔ ∀ v ∈ Value.flattenAll items, ∀ k each m',
          sc.compile (.leaf (.contains p (.literal v))) false k = .ok (.some each) m' →
            ∃ one, (each.toSql sc.layout).Selects I db one ∧ x ∈ one) := by
  obtain ⟨stored, mapped⟩ : p.last.isIdentity = false ∧ sc.IsCollection p.last := by
    simpa [PropertyPath.Single] using collection
  obtain ⟨kept, plan, loop, divided, rfl⟩ := compiledContainsAll some ok
  have inside : ∀ v ∈ kept, v ∈ Value.flattenAll items := fun v mem => by
    simpa using (Context.keptOrDropped loop).2.1 mem
  have present : kept ≠ [] := by
    intro none
    have empty : (sc.distinct (Value.flattenAll items)).isEmpty = _ := Context.distinctIsEmpty _
    rw [← Context.keepDistinctOk loop, none] at empty
    exact some (List.isEmpty_iff.mp empty.symm)
  obtain ⟨s, bs, a, rfl, divides, binds, distinct, reads⟩ := plainDividingSelects db equality stored
    (fun v mem => discrete v (inside v mem)) (Context.keptApart loop .nil) present divided
  have known : p.Known sc.toContext := by
    have decides : Decides [] _ (sc.dividing p kept) := dividingDecides p kept
    obtain ⟨⟨known, _⟩, _⟩ := (decides.done n).mp ⟨_, _, divided⟩
    exact known
  have compiles (v) (mem : v ∈ Value.flattenAll items) (k : Nat) : ∃ each m',
      sc.compile (.leaf (.contains p (.literal v))) false k = .ok (.some each) m' := by
    obtain ⟨b, bound, _⟩ := boundAsKept discrete loop binds mem
    exact containsCompiles known mapped bound k
  have having : (s.toSelect sc.layout).having = .some (.raw ("COUNT(DISTINCT " ++
      Sql.column a.text sc.layout.attributeValue ++ ") >= " ++
        toString (sc.boundValues (Value.flattenAll items)).ncard)) := by
    rw [Selection.toSelect, divides, boundCount discrete loop binds distinct]
    rfl
  refine ⟨_, s.toSelect sc.layout, a.text, rfl, rfl, having, compiles, fun valid named => ?_⟩
  refine ⟨_, compiledSelects valid named I db ok, fun x => ?_⟩
  have boundSome : bs ≠ [] := by
    rintro rfl
    exact present (List.forall₂_nil_right_iff.mp binds)
  rw [reads, Store.selectEach db I sc.typeIds boundSome]
  constructor
  · intro all v mem k each m' ok
    obtain ⟨b, bound, b', kept, same⟩ := boundAsKept discrete loop binds mem
    refine ⟨_, compiledSelects valid named I db ok, ?_⟩
    rw [plainContainsSelects bound (compiledContains ok),
      ← findsSame equality (same ▸ bound.discrete (discrete v mem)) same]
    exact all b' kept
  · intro each b mem
    obtain ⟨v, kept, bound⟩ := pairedFrom binds mem
    obtain ⟨q, m', ok⟩ := compiles v (inside v kept) 0
    obtain ⟨one, yielded, found⟩ := each v (inside v kept) 0 q m' ok
    rw [yielded.unique (compiledSelects valid named I db ok)] at found
    rwa [← plainContainsSelects bound (compiledContains ok)]

end Scope

namespace ContainedValuesSample

def palettes : Scope where
  schema := (Schema.empty.withAttribute ⟨"Palette", "colors"⟩ (.of "palette_colors" 1)).withEnumKey "Color" "red" 1
  layout := .default
  typeIds := [1]

def colors : PropertyPath := .of ⟨"Palette", "colors"⟩

def redAndBlue : List Value := [.int 1, .collection [.enum "Color" "red", .int 2], .int 1]

inductive Cell where
  | none
  | bool (value : Bool)
  | int (value : Int64)
  | text (value : String)
  | date (value : Date)
  | timestamp (value : Timestamp)
  | enum (enumType variant : String)
  deriving DecidableEq

def cell : Value → Cell
  | .bool b => .bool b
  | .int n => .int n
  | .text s => .text s
  | .date d => .date d
  | .timestamp t => .timestamp t
  | .enum t v => .enum t v
  | _ => .none

def cells : Interpretation Cell where
  isType v id := v == .int id.toInt64
  compare v _ b := v == cell b.value
  pathMatches v _ := v == .text "top.1"

def entity (key : Int64) : Row Cell := fun column =>
  [("entity_pk", Cell.int key), ("entity_identity", .int (100 + key)), ("entity_type_id", .int 1)].lookup column

def color (key value : Int64) : Row Cell := fun column =>
  [("entity_pk", Cell.int key), ("collection_path", .text "top.1"), ("qname_value", .int value)].lookup column

def rows : String → List (Row Cell)
  | "entities" => [entity 1, entity 2]
  | "palette_colors" => [color 1 1, color 1 2, color 2 1, color 2 1]
  | _ => []

def store : Store palettes.layout Cell where
  rows := rows
  distinctKeys := by
    change ∀ a ∈ rows "entities", ∀ b ∈ rows "entities", a "entity_pk" = b "entity_pk" → a = b
    simp [rows, entity]

theorem cellsCompare : cells.ComparesValues cell where
  equal w b _ := beq_iff_eq
  apart v w discrete discrete' same := by
    obtain ⟨counts, exact⟩ := discrete
    obtain ⟨counts', exact'⟩ := discrete'
    cases v <;> cases w <;> simp_all [cell, Context.countsItself, Value.isScalar, Value.isNull]

theorem palettesIdentified : palettes.schema.Identified :=
  Schema.withAttributeIdentified (fun _ _ none => nomatch none) ⟨rfl, rfl, rfl⟩

theorem redAndBlueCounted : ∃ plan s m, palettes.compile (.leaf (.containsAll colors
      (.literal (.collection redAndBlue)))) false 0 = .ok (some plan) m ∧
    plan.toSql palettes.layout = .select s ∧
    s.having = some (.raw "COUNT(DISTINCT t1.qname_value) >= 2") ∧
    (plan.toSql palettes.layout).Selects cells store {x | x ∈ [(some (.int 1), some (.int 101))]} ∧
    ∃ all, (plan.toSql palettes.layout).Selects cells store all ∧
      ∀ x, x ∈ all ↔ ∀ v ∈ Value.flattenAll redAndBlue, ∀ k each m',
        palettes.compile (.leaf (.contains colors (.literal v))) false k = .ok (some each) m' →
          ∃ one, (each.toSql palettes.layout).Selects cells store one ∧ x ∈ one := by
  have ok : palettes.compile (.leaf (.containsAll colors (.literal (.collection redAndBlue)))) false 0 = .ok _ _ := rfl
  have discrete : ∀ v ∈ Value.flattenAll redAndBlue, v.Discrete := by
    simp [redAndBlue, Value.flattenAll, Value.flatten, Value.Discrete, Context.countsItself, Value.isScalar, Value.isNull]
  have collection : ¬ colors.Single palettes.toContext := by
    intro single
    exact single rfl ⟨_, rfl, rfl⟩
  have present : Value.flattenAll redAndBlue ≠ [] := List.cons_ne_nil _ _
  obtain ⟨plan, s, c, same, emitted, _, _, reads⟩ :=
    Scope.containsAllValuesIsDivision palettes store cells cellsCompare collection present discrete ok
  cases same
  cases emitted
  exact ⟨_, _, _, ok, rfl, rfl, Scope.compiledSelects (by decide) palettesIdentified cells store ok,
    reads (by decide) palettesIdentified⟩

end ContainedValuesSample
end ObjectQuery
