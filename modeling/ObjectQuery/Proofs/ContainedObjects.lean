import ObjectQuery.Proofs.ContainedValues
import ObjectQuery.Proofs.Literals
import ObjectQuery.Proofs.ShownRows

/-! Collections that contain value objects and nulls. A row counts for the first of the elements that it shows, so
elements that are all shown are all counted if no row shows two of them. -/
namespace ObjectQuery
open Outcome

variable {V : Type}

/-- What is bound for these elements compares alike with any stored value if it counts as the same. -/
def Interpretation.ComparesAlike (I : Interpretation V) (ctx : Context) (xs ys : List Value) : Prop :=
  ∀ x ∈ xs, ∀ y ∈ ys, ∀ b b', ctx.bind x = .ok b → ctx.bind y = .ok b' →
    Context.sameBound b.value b'.value = true → ∀ w, I.compare w .eq b = I.compare w .eq b'

theorem Value.scalarsPlain {v : Value} (counts : Context.countsItself v = true) : v.scalars = [v] := by
  cases v with
  | composite t fields => cases counts
  | _ => simp [scalars, counts]

theorem Value.fieldScalarsMem {fields : List (QualifiedName × Value)} {f : QualifiedName × Value} (mem : f ∈ fields) :
    f.2.scalars ⊆ Value.fieldScalars fields := by
  induction fields with
  | nil => cases mem
  | cons g rest ih =>
    intro x inside
    rcases List.mem_cons.mp mem with rfl | mem
    · exact List.mem_append_left _ inside
    · exact List.mem_append_right _ (ih mem inside)

namespace Context

variable {ctx : Context} {I : Interpretation V} {db : Store ctx.layout V}

theorem boundEqualNotNull {k v : Value} (some : k.isNull = false) (same : ctx.boundEqual k v = .ok true) :
    v.isNull = false := by
  cases v with
  | null =>
    cases k with
    | null => cases some
    | _ => cases same
  | _ => rfl

theorem sameCounts {k v : Value} (counts : countsItself k = true) (same : ctx.boundEqual k v = .ok true) :
    countsItself v = true := by
  obtain ⟨some, plain⟩ := countsPlain counts
  obtain ⟨_, _, _, bound, _⟩ := boundEqualScalar some plain same
  exact (bindBinds (boundEqualNotNull some same) bound).counts

theorem fieldsShownEach {fields : List (QualifiedName × Value)} {name : QualifiedName} {t : Row V} :
    ctx.FieldsShown I db fields name t ↔
      ∀ f ∈ fields, ∃ s, ctx.FieldRow db name f.1 t s ∧ ctx.Shown I db f.2 f.1 s := by
  induction fields with
  | nil => simp [FieldsShown]
  | cons f rest ih => rw [FieldsShown, ih, List.forall_mem_cons]

theorem plainSameShown {k v : Value} (some : k.isNull = false) (plain : ∀ t fields, k ≠ .composite t fields)
    (same : ctx.boundEqual k v = .ok true) (alike : I.ComparesAlike ctx k.scalars v.scalars) {name : QualifiedName}
    {t : Row V} : ctx.Shown I db k name t ↔ ctx.Shown I db v name t := by
  obtain ⟨x, y, bound, bound', equal⟩ := boundEqualScalar some plain same
  have some' := boundEqualNotNull some same
  have counts := (bindBinds some bound).counts
  have counts' := (bindBinds some' bound').counts
  have compares : ∀ w, I.compare w .eq x = I.compare w .eq y :=
    alike k (by simp [Value.scalarsPlain counts]) v (by simp [Value.scalarsPlain counts']) x y bound bound' equal
  rw [shownPlain plain, shownPlain (countsPlain counts').2]
  simp [PlainShown, some, some', bound, bound', compares]

theorem sameShown {k v : Value} (same : ctx.boundEqual k v = .ok true) (once : k.NamedOnce)
    (alike : I.ComparesAlike ctx k.scalars v.scalars) {name : QualifiedName} {t : Row V} :
    ctx.Shown I db k name t ↔ ctx.Shown I db v name t := by
  refine Value.sameElements (P := fun k v => I.ComparesAlike ctx k.scalars v.scalars →
      ∀ name t, ctx.Shown I db k name t ↔ ctx.Shown I db v name t) (fun _ _ _ => Iff.rfl)
    (fun k v some plain same alike name t => plainSameShown some plain same alike)
    (fun _ _ left right _ _ fromLeft fromRight alike name t => ?_) once same alike name t
  have fieldsAlike {f g : QualifiedName × Value} (mem : f ∈ left) (mem' : g ∈ right) :
      I.ComparesAlike ctx f.2.scalars g.2.scalars := fun x inside y inside' =>
    alike x (Value.fieldScalarsMem mem inside) y (Value.fieldScalarsMem mem' inside')
  rw [Shown, Shown, fieldsShownEach, fieldsShownEach]
  constructor
  · intro shown g mem
    obtain ⟨v, inside, shows⟩ := fromRight g mem
    obtain ⟨s, row, here⟩ := shown _ inside
    exact ⟨s, row, (shows (fieldsAlike inside mem) _ _).mp here⟩
  · intro shown f mem
    obtain ⟨w, inside, shows⟩ := fromLeft f mem
    obtain ⟨s, row, here⟩ := shown _ inside
    exact ⟨s, row, (shows (fieldsAlike mem inside) _ _).mpr here⟩

def FindsFirst (ctx : Context) (I : Interpretation V) (db : Store ctx.layout V) (name : QualifiedName)
    (elements : List Value) (i : Fin elements.length) (t : Row V) : Prop :=
  ctx.Finds I db name elements[i] t ∧ ∀ j < i, ¬ ctx.Finds I db name elements[j] t

def FindsTwo (ctx : Context) (I : Interpretation V) (db : Store ctx.layout V) (name : QualifiedName)
    (elements : List Value) (t : Row V) : Prop :=
  ∃ i j : Fin elements.length, j < i ∧ ctx.Finds I db name elements[i] t ∧ ctx.Finds I db name elements[j] t

end Context

variable [DecidableEq V]

namespace Scope

variable {sc : Scope} {db : Store sc.layout V} {I : Interpretation V} {p : PropertyPath} {n m : Nat} {q : SetPlan}

theorem objectContainsSelects {v : Value} (apart : p.NamedApart [v]) (once : sc.FieldsOnce db (p.fieldsIn [v]))
    (ok : sc.contains p (.literal v) n = .ok q m) : q.reading (Selection.selected I db) =
      db.select I sc.typeIds (sc.HasElement db p (sc.Finds I db p.last v)) := by
  obtain ⟨s, t, a, rfl, types, tested, undivided, reads⟩ := containsReads ok
  obtain ⟨made, _⟩ := List.forall₂_cons.mp reads.tests
  refine (Selection.undividedSelects reads.rootOwn undivided).trans ?_
  rw [types]
  refine congrArg (db.select I sc.typeIds) (funext fun r => propext ?_)
  obtain ⟨links, known, rows, back⟩ := reads.rows db apart r
  have passes {e : Joined V} (hangs : sc.HangsOff db a e (p.fieldsIn [v])) :=
    Context.elementTestPasses (I := I) hangs once (p.fieldsInMem List.mem_cons_self) made
  simp only [hasElementAlong known, Selection.rowsOfMem, tested, List.forall_mem_singleton]
  constructor
  · rintro ⟨e, inside, passed⟩
    obtain ⟨chain, hangs⟩ := rows e inside
    exact ⟨_, chain, (passes hangs).mp passed⟩
  · rintro ⟨t, chain, found⟩
    obtain ⟨e, inside, rfl⟩ := back t chain
    exact ⟨e, inside, (passes (rows e inside).2).mpr found⟩

theorem objectDividingSelects {kept : List Value} (asked : ∃ v ∈ kept, Context.countsItself v = false)
    (apart : p.NamedApart kept) (once : sc.FieldsOnce db (p.fieldsIn kept)) (ok : sc.dividing p kept n = .ok q m) :
    q.reading (Selection.selected I db) = db.select I sc.typeIds fun r =>
      ∀ i, sc.HasElement db p (sc.FindsFirst I db p.last kept i) r := by
  obtain ⟨s, tests, a, target, rfl, types, tested, divides, reads⟩ := dividingReads ok
  have tally : tallyOf target kept tests = .matches tests := by
    obtain ⟨v, mem, itself⟩ := asked
    refine if_neg fun all => ?_
    rw [List.all_eq_true.mp all v mem] at itself
    cases itself
  have length := reads.tests.length_eq
  rw [tally, length] at divides
  refine (Selection.dividedSelects reads.rootOwn divides).trans ?_
  rw [types]
  refine congrArg (db.select I sc.typeIds) (funext fun r => propext ?_)
  obtain ⟨links, known, rows, back⟩ := reads.rows db apart r
  have passes {e : Joined V} (hangs : sc.HangsOff db a e (p.fieldsIn kept)) (i : Fin kept.length) :
      tests[i.cast length].Passes I e ↔ sc.Finds I db p.last kept[i] (e (a (.element p.last))) :=
    Context.elementTestPasses hangs once (p.fieldsInMem (List.getElem_mem i.isLt))
      ((List.forall₂_iff_get.mp reads.tests).2 i i.isLt (i.cast length).isLt)
  have first {e : Joined V} (hangs : sc.HangsOff db a e (p.fieldsIn kept)) (i : Fin kept.length) :
      (tests[i.cast length].Passes I e ∧ ∀ j < i.cast length, ¬ tests[j].Passes I e) ↔
        sc.FindsFirst I db p.last kept i (e (a (.element p.last))) := by
    refine and_congr (passes hangs i) ⟨fun none j before => ?_, fun none j before => ?_⟩
    · rw [← passes hangs j]
      exact none (j.cast length) before
    · exact fun passed => none (j.cast length.symm) before ((passes hangs (j.cast length.symm)).mp passed)
  simp only [hasElementAlong known, Division.holdsEach]
  constructor
  · rintro ⟨_, each⟩ i
    obtain ⟨e, inside, passed⟩ := each (i.cast length)
    obtain ⟨chain, hangs⟩ := rows e (Selection.rowsOfMem.mp inside).1
    exact ⟨_, chain, (first hangs i).mp passed⟩
  · intro each
    have row (i : Fin kept.length) : ∃ e ∈ s.rowsOf I db r,
        tests[i.cast length].Passes I e ∧ ∀ j < i.cast length, ¬ tests[j].Passes I e := by
      obtain ⟨t, chain, found⟩ := each i
      obtain ⟨e, inside, rfl⟩ := back t chain
      have passed := (first (rows e inside).2 i).mpr found
      refine ⟨e, Selection.rowsOfMem.mpr ⟨inside, ?_⟩, passed⟩
      rw [tested, List.forall_mem_singleton, Test.passesAny]
      exact ⟨_, List.getElem_mem _, passed.1⟩
    obtain ⟨v, mem, _⟩ := asked
    obtain ⟨e, inside, _⟩ := row ⟨0, List.length_pos_of_mem mem⟩
    exact ⟨⟨e, inside⟩, fun i => row (i.cast length.symm)⟩

omit [DecidableEq V] in
theorem hasElementMono {P Q : Row V → Prop} (implies : ∀ t, P t → Q t) {r : Row V} (has : sc.HasElement db p P r) :
    sc.HasElement db p Q r := by
  obtain ⟨links, t, known, chain, holds⟩ := has
  exact ⟨links, t, known, chain, implies t holds⟩

omit [DecidableEq V] in
theorem keptShown {elements kept : List Value} (named : ∀ v ∈ elements, v.NamedOnce)
    (alike : I.ComparesAlike sc.toContext (elements.flatMap Value.scalars) (elements.flatMap Value.scalars))
    (loop : sc.keepDistinct [] elements = .ok kept) {v : Value} (mem : v ∈ elements) (name : QualifiedName) :
    ∃ i : Fin kept.length, ∀ t, sc.Finds I db name kept[i] t ↔ sc.Finds I db name v t := by
  obtain ⟨_, within, each⟩ := Context.keptOrDropped loop
  rcases each v mem with inside | ⟨k, inside, same⟩
  · obtain ⟨i, before, rfl⟩ := List.getElem_of_mem inside
    exact ⟨⟨i, before⟩, fun _ => Iff.rfl⟩
  · obtain ⟨i, before, rfl⟩ := List.getElem_of_mem inside
    have known : kept[i] ∈ elements := by simpa using within inside
    have bound : I.ComparesAlike sc.toContext kept[i].scalars v.scalars := fun x hx y hy =>
      alike x (List.mem_flatMap.mpr ⟨_, known, hx⟩) y (List.mem_flatMap.mpr ⟨v, mem, hy⟩)
    exact ⟨⟨i, before⟩, fun t => and_congr_right fun _ => Context.sameShown same (named _ known) bound⟩

/-- Asked for value objects or nulls, ContainsAll selects the entities that have for each element a row that shows
it and none of the elements before it. They are selected by Contains for each of the elements, and so is no other
entity unless some row of it shows two of the elements. -/
theorem containsAllCountsFirst (sc : Scope) (db : Store sc.layout V) (I : Interpretation V) {p : PropertyPath}
    {items : List Value} {n m : Nat} {q : Option SetPlan} {each : Value → SetPlan}
    (asked : ∃ v ∈ Value.flattenAll items, Context.countsItself v = false)
    (named : ∀ v ∈ Value.flattenAll items, v.NamedOnce) (apart : p.NamedApart (Value.flattenAll items))
    (once : sc.FieldsOnce db (p.fieldsIn (Value.flattenAll items)))
    (alike : I.ComparesAlike sc.toContext ((Value.flattenAll items).flatMap Value.scalars)
      ((Value.flattenAll items).flatMap Value.scalars))
    (ok : sc.compile (.leaf (.containsAll p (.literal (.collection items)))) false n = .ok q m)
    (contained : ∀ v ∈ Value.flattenAll items, ∃ k k',
      sc.compile (.leaf (.contains p (.literal v))) false k = .ok (some (each v)) k') :
    ∃ plan, q = some plan ∧
      (sc.layout.faults = [] → sc.schema.Identified →
        (plan.toSql sc.layout).Selects I db (plan.reading (Selection.selected I db)) ∧
        ∀ v ∈ Value.flattenAll items,
          ((each v).toSql sc.layout).Selects I db ((each v).reading (Selection.selected I db))) ∧
      plan.reading (Selection.selected I db) = db.select I sc.typeIds (fun r => ∀ i,
        sc.HasElement db p (sc.FindsFirst I db p.last (sc.distinct (Value.flattenAll items)) i) r) ∧
      (∀ x ∈ plan.reading (Selection.selected I db), ∀ v ∈ Value.flattenAll items,
        x ∈ (each v).reading (Selection.selected I db)) ∧
      ∀ r ∈ db.entities, I.OfType sc.layout sc.typeIds r →
        ¬ sc.HasElement db p (sc.FindsTwo I db p.last (sc.distinct (Value.flattenAll items))) r →
        (r.shown sc.layout ∈ plan.reading (Selection.selected I db) ↔
          ∀ v ∈ Value.flattenAll items, r.shown sc.layout ∈ (each v).reading (Selection.selected I db)) := by
  have present : Value.flattenAll items ≠ [] := by
    obtain ⟨v, mem, _⟩ := asked
    exact List.ne_nil_of_mem mem
  obtain ⟨kept, plan, loop, divided, rfl⟩ := compiledContainsAll present ok
  obtain ⟨_, within, keptOr⟩ := Context.keptOrDropped loop
  have among : kept ⊆ Value.flattenAll items := by simpa using within
  have askedKept : ∃ v ∈ kept, Context.countsItself v = false := by
    obtain ⟨v, mem, itself⟩ := asked
    rcases keptOr v mem with inside | ⟨k, inside, same⟩
    · exact ⟨v, inside, itself⟩
    · refine ⟨k, inside, Bool.eq_false_iff.mpr fun counts => ?_⟩
      rw [Context.sameCounts counts same] at itself
      cases itself
  have reads : plan.reading (Selection.selected I db) = db.select I sc.typeIds fun r =>
      ∀ i, sc.HasElement db p (sc.FindsFirst I db p.last kept i) r :=
    objectDividingSelects askedKept (apart.among among) (once.among (p.fieldsInAmong among)) divided
  have readsEach : ∀ v ∈ Value.flattenAll items, (each v).reading (Selection.selected I db) =
      db.select I sc.typeIds (sc.HasElement db p (sc.Finds I db p.last v)) := by
    intro v mem
    obtain ⟨k, k', ok⟩ := contained v mem
    have single : [v] ⊆ Value.flattenAll items := List.cons_subset.mpr ⟨mem, List.nil_subset _⟩
    exact objectContainsSelects (apart.among single) (once.among (p.fieldsInAmong single)) (compiledContains ok)
  rw [← Context.keepDistinctOk loop]
  have below : ∀ x ∈ plan.reading (Selection.selected I db), ∀ v ∈ Value.flattenAll items,
      x ∈ (each v).reading (Selection.selected I db) := by
    intro x selected v mem
    rw [reads] at selected
    rw [readsEach v mem]
    obtain ⟨r, entity, typed, all, rfl⟩ := selected
    obtain ⟨i, same⟩ := keptShown named alike loop mem p.last
    exact ⟨r, entity, typed, hasElementMono (fun t first => (same t).mp first.1) (all i), rfl⟩
  have yielded (valid : sc.layout.faults = []) (named : sc.schema.Identified) :
      (plan.toSql sc.layout).Selects I db (plan.reading (Selection.selected I db)) ∧ ∀ v ∈ Value.flattenAll items,
        ((each v).toSql sc.layout).Selects I db ((each v).reading (Selection.selected I db)) := by
    refine ⟨compiledSelects valid named I db ok, fun v mem => ?_⟩
    obtain ⟨k, k', ok⟩ := contained v mem
    exact compiledSelects valid named I db ok
  refine ⟨plan, rfl, yielded, reads, below, fun r entity typed alone => ⟨below _, fun all => ?_⟩⟩
  rw [reads, db.selectShown entity typed]
  intro i
  have mem := among (List.getElem_mem i.isLt)
  have has := all _ mem
  rw [readsEach _ mem, db.selectShown entity typed] at has
  obtain ⟨links, t, known, chain, found⟩ := has
  exact ⟨links, t, known, chain, found, fun j before two => alone ⟨links, t, known, chain, i, j, before, found, two⟩⟩

end Scope

namespace ContainedObjectsSample

def people : Scope where
  schema := Schema.empty
    |>.withAttribute ⟨"Person", "addresses"⟩ (.of "person_addresses" 1)
    |>.withAttribute ⟨"Address", "city"⟩ (.of "address_city" 0)
    |>.withAttribute ⟨"Address", "zip"⟩ (.of "address_zip" 0)
  layout := .default
  typeIds := [1]

def addresses : PropertyPath := .of ⟨"Person", "addresses"⟩

def inCity (city : String) : Value := .composite "Address" [(⟨"Address", "city"⟩, .text city)]

def inArea (city zip : String) : Value :=
  .composite "Address" [(⟨"Address", "city"⟩, .text city), (⟨"Address", "zip"⟩, .text zip)]

def row (cells : List (String × String)) : Row String := fun column => cells.lookup column

def address (person id : String) : Row String :=
  row [("entity_pk", person), ("qname_id", id), ("collection_path", "top.1")]

structure Part where
  person : String
  address : String
  text : String

def Part.row (c : Part) : Row String :=
  ContainedObjectsSample.row [("entity_pk", c.person), ("parent_qname", c.address), ("qname_value", c.text)]

def cities : List Part := [⟨"1", "a", "Oslo"⟩, ⟨"1", "b", "Bergen"⟩, ⟨"2", "c", "Oslo"⟩]

def zips : List Part := [⟨"1", "a", "0150"⟩, ⟨"1", "b", "5003"⟩, ⟨"2", "c", "0150"⟩]

def rows : String → List (Row String)
  | "entities" =>
    [row [("entity_pk", "1"), ("entity_identity", "Ada"), ("entity_type_id", "person")],
      row [("entity_pk", "2"), ("entity_identity", "Bo"), ("entity_type_id", "person")]]
  | "person_addresses" => [address "1" "a", address "1" "b", address "2" "c"]
  | "address_city" => cities.map Part.row
  | "address_zip" => zips.map Part.row
  | _ => []

def store : Store people.layout String where
  rows := rows
  distinctKeys := by
    change ∀ a ∈ rows "entities", ∀ b ∈ rows "entities", a "entity_pk" = b "entity_pk" → a = b
    simp [rows, row]

def texts : Interpretation String where
  isType v _ := v == "person"
  compare v _ b := match b.value with
    | .text s => v == s
    | _ => false
  pathMatches v _ := v == "top.1"

def asking (l : Leaf) : SetPlan :=
  match people.compile (.leaf l) false 0 with
  | .ok (some q) _ => q
  | _ => .select ⟨.numbered 0, [], [], [], none⟩

def osloAndBergen : List Value := [inArea "Oslo" "0150", inCity "Bergen"]

def osloTwice : List Value := [inCity "Oslo", inArea "Oslo" "0150"]

theorem partsApart {parts : List Part} (keys : (parts.map fun c => (c.person, c.address)).Nodup) :
    ∀ s ∈ parts.map Part.row, ∀ t ∈ parts.map Part.row,
      (∀ c ∈ ["entity_pk", "parent_qname"], ∃ v, s c = some v ∧ t c = some v) → s = t := by
  intro s mem t mem' same
  obtain ⟨c, inside, rfl⟩ := List.mem_map.mp mem
  obtain ⟨d, inside', rfl⟩ := List.mem_map.mp mem'
  obtain ⟨person, here, there⟩ := same "entity_pk" List.mem_cons_self
  obtain ⟨address, here', there'⟩ := same "parent_qname" (List.mem_cons_of_mem _ List.mem_cons_self)
  cases here
  cases here'
  have alike : (c.person, c.address) = (d.person, d.address) :=
    Prod.ext (Option.some.inj there).symm (Option.some.inj there').symm
  rw [List.inj_on_of_nodup_map keys inside inside' alike]

theorem partsOnce {fields : List FieldAt}
    (known : ∀ f ∈ fields, f.name = ⟨"Address", "city"⟩ ∨ f.name = ⟨"Address", "zip"⟩) :
    people.FieldsOnce store fields := by
  intro f mem table found
  rcases known f mem with name | name
  · rw [name] at found
    cases found
    exact partsApart (by decide +kernel : (cities.map fun c => (c.person, c.address)).Nodup)
  · rw [name] at found
    cases found
    exact partsApart (by decide +kernel : (zips.map fun c => (c.person, c.address)).Nodup)

theorem textsCompareAlike {xs ys : List Value} (left : ∀ x ∈ xs, ∃ s, x = .text s)
    (right : ∀ y ∈ ys, ∃ s, y = .text s) : texts.ComparesAlike people.toContext xs ys := by
  intro x mem y mem' b b' bound bound' same w
  obtain ⟨s, rfl⟩ := left x mem
  obtain ⟨t, rfl⟩ := right y mem'
  cases bound
  cases bound'
  obtain rfl : s = t := by simpa [Context.sameBound, Value.equals] using same
  rfl

theorem cityAlone {name : QualifiedName} {t : Row String} (oslo : people.Shown texts store (inArea "Oslo" "0150") name t)
    (bergen : people.Shown texts store (inCity "Bergen") name t) : False := by
  obtain ⟨⟨s, here, shown⟩, _⟩ := oslo
  obtain ⟨⟨s', here', shown'⟩, _⟩ := bergen
  have once : people.FieldsOnce store [⟨.element name, ⟨"Address", "city"⟩⟩] := partsOnce (by simp)
  obtain rfl := once.row List.mem_cons_self here here'
  have text {city : String} (shown : people.Shown texts store (.text city) ⟨"Address", "city"⟩ s) :
      s "qname_value" = some city := by
    obtain ⟨b, w, bound, value, equal⟩ := shown
    cases bound
    obtain rfl : w = city := by simpa [texts] using equal
    exact value
  exact absurd (Option.some.inj ((text shown).symm.trans (text shown'))) (by decide)

theorem noneInBoth {name : QualifiedName} {t : Row String} : ¬ people.FindsTwo texts store name osloAndBergen t := by
  rintro ⟨i, j, before, one, other⟩
  have positions : ∀ i j : Fin 2, j < i → j = 0 ∧ i = 1 := by decide
  obtain ⟨rfl, rfl⟩ := positions i j before
  exact cityAlone other.2 one.2

theorem entitiesTyped : ∀ r ∈ store.entities, texts.OfType people.layout people.typeIds r := by
  have person : ∀ r ∈ rows "entities", r "entity_type_id" = some "person" := by decide +kernel
  exact fun r mem => ⟨"person", person r mem, 1, List.mem_singleton_self _, rfl⟩

theorem peopleIdentified : people.schema.Identified := by
  refine Schema.withAttributeIdentified (Schema.withAttributeIdentified
    (Schema.withAttributeIdentified (fun _ _ none => nomatch none) ?_) ?_) ?_ <;> exact ⟨rfl, rfl, rfl⟩

theorem osloAndBergenContained : ∃ s m,
    people.compile (.leaf (.containsAll addresses (.literal (.collection osloAndBergen)))) false 0 =
      .ok (some (.select s)) m ∧
    s.answer texts store = [(some "1", some "Ada")] ∧
    ((SetQuery.select s).toSql people.layout).Selects texts store {x | x ∈ s.answer texts store} ∧
    ∀ r ∈ store.entities, r.shown people.layout ∈ s.selected texts store ↔
      ∀ v ∈ osloAndBergen, r.shown people.layout ∈
        (asking (.contains addresses (.literal v))).reading (Selection.selected texts store) := by
  have ok : people.compile (.leaf (.containsAll addresses (.literal (.collection osloAndBergen)))) false 0 = .ok _ _ := rfl
  have asked : ∃ v ∈ Value.flattenAll osloAndBergen, Context.countsItself v = false := ⟨_, List.mem_cons_self, rfl⟩
  have named : ∀ v ∈ Value.flattenAll osloAndBergen, v.NamedOnce := by
    simp [osloAndBergen, inArea, inCity, Value.flattenAll, Value.flatten, Value.NamedOnce, Value.FieldsNamedOnce]
  have apart : addresses.NamedApart (Value.flattenAll osloAndBergen) := by
    unfold PropertyPath.NamedApart
    decide +kernel
  have once : people.FieldsOnce store (addresses.fieldsIn (Value.flattenAll osloAndBergen)) :=
    partsOnce (by decide +kernel)
  have texts : ∀ x ∈ (Value.flattenAll osloAndBergen).flatMap Value.scalars, ∃ s, x = .text s := by
    simp [osloAndBergen, inArea, inCity, Value.flattenAll, Value.flatten, Value.scalars, Value.fieldScalars,
      Context.countsItself, Value.isScalar, Value.isNull]
  have contained : ∀ v ∈ Value.flattenAll osloAndBergen, ∃ k k',
      people.compile (.leaf (.contains addresses (.literal v))) false k =
        .ok (some (asking (.contains addresses (.literal v)))) k' :=
    List.forall_mem_cons.mpr ⟨⟨0, _, rfl⟩, List.forall_mem_singleton.mpr ⟨0, _, rfl⟩⟩
  obtain ⟨plan, same, yielded, _, _, reads⟩ := Scope.containsAllCountsFirst people store _ asked named apart once
    (textsCompareAlike texts texts) ok contained
  cases same
  have listed := (yielded (by decide) peopleIdentified).1
  refine ⟨_, _, ok, by decide +kernel, listed, fun r entity => reads r entity (entitiesTyped r entity) ?_⟩
  rintro ⟨links, t, _, _, both⟩
  exact noneInBoth both

theorem osloTwiceCountsOnce : ∃ s t u m m' m'' x,
    people.compile (.leaf (.containsAll addresses (.literal (.collection osloTwice)))) false 0 = .ok (some (.select s)) m ∧
    people.compile (.leaf (.contains addresses (.literal (inCity "Oslo")))) false 0 = .ok (some (.select t)) m' ∧
    people.compile (.leaf (.contains addresses (.literal (inArea "Oslo" "0150")))) false 0 = .ok (some (.select u)) m'' ∧
    people.FieldsOnce store (addresses.fieldsIn osloTwice) ∧
    x ∈ t.selected texts store ∧ x ∈ u.selected texts store ∧ x ∉ s.selected texts store := by
  refine ⟨_, _, _, _, _, _, (some "2", some "Bo"), rfl, rfl, rfl, partsOnce (by decide +kernel), ?_, ?_, ?_⟩ <;>
    simp only [Selection.selected, Set.mem_ofPred_eq] <;> decide +kernel

end ContainedObjectsSample
end ObjectQuery
