import ObjectQuery.Proofs.Division
import ObjectQuery.Proofs.FieldPaths

/-! Which elements a row of a collection shows. A row without a value shows null, a row with an equal value shows a
plain one. A value object is shown by the rows of its fields that hang off the row, with nulls where there is none. -/
namespace ObjectQuery
open Outcome

variable {V : Type}

namespace Context

def fieldLink (ctx : Context) (object table : AttributeTable) : Link :=
  ⟨ctx.layout.qualified table.name, ctx.layout.ownerColumns ctx.layout.entityKey (some object) table,
    !table.isCollection⟩

def FieldRow (ctx : Context) (db : Store ctx.layout V) (object field : QualifiedName) (t s : Row V) : Prop :=
  ∃ owner table, ctx.lookup object = .ok owner ∧ ctx.lookup field = .ok table ∧
    (ctx.fieldLink owner table).Next db .left t s

/-- The tables of the fields have at most one row for an entity and a row of the object around the field. -/
def FieldsOnce (ctx : Context) (db : Store ctx.layout V) (fields : List FieldAt) : Prop :=
  ∀ f ∈ fields, ∀ table, ctx.lookup f.name = .ok table →
    ∀ s ∈ db.rows (ctx.layout.qualified table.name), ∀ t ∈ db.rows (ctx.layout.qualified table.name),
      (∀ c ∈ [ctx.layout.attributeEntityKey, table.parentColumn], ∃ v, s c = some v ∧ t c = some v) → s = t

def PlainShown (ctx : Context) (I : Interpretation V) (t : Row V) (v : Value) : Prop :=
  if v.isNull then t ctx.layout.attributeValue = none
  else ∃ b w, ctx.bind v = .ok b ∧ t ctx.layout.attributeValue = some w ∧ I.compare w .eq b = true

mutual
def Shown (ctx : Context) (I : Interpretation V) (db : Store ctx.layout V) : Value → QualifiedName → Row V → Prop
  | .composite _ fields, name, t => FieldsShown ctx I db fields name t
  | v, _, t => ctx.PlainShown I t v
def FieldsShown (ctx : Context) (I : Interpretation V) (db : Store ctx.layout V) :
    List (QualifiedName × Value) → QualifiedName → Row V → Prop
  | [], _, _ => True
  | (field, v) :: rest, name, t =>
    (∃ s, ctx.FieldRow db name field t s ∧ Shown ctx I db v field s) ∧ FieldsShown ctx I db rest name t
end

def Finds (ctx : Context) (I : Interpretation V) (db : Store ctx.layout V) (name : QualifiedName) (v : Value)
    (t : Row V) : Prop :=
  (∃ path, t ctx.layout.collectionPath = some path ∧ I.pathMatches path ctx.layout.belowRoot = true) ∧
    ctx.Shown I db v name t

variable {ctx : Context} {db : Store ctx.layout V} {I : Interpretation V} {a : FieldPath → Alias} {e : Joined V}

theorem FieldsOnce.among {fields others : List FieldAt} (once : ctx.FieldsOnce db fields) (subset : others ⊆ fields) :
    ctx.FieldsOnce db others := fun f mem => once f (subset mem)

theorem FieldsOnce.row {fields : List FieldAt} (once : ctx.FieldsOnce db fields) {f : FieldAt} (mem : f ∈ fields)
    {object : QualifiedName} {t s s' : Row V} (first : ctx.FieldRow db object f.name t s)
    (second : ctx.FieldRow db object f.name t s') : s = s' := by
  obtain ⟨owner, table, known, found, next⟩ := first
  obtain ⟨owner', table', known', found', next'⟩ := second
  cases known.symm.trans known'
  cases found.symm.trans found'
  refine Link.nextUnique (fun x mx y my same => once f mem table found x mx y my fun c mem => ?_) next next'
  rcases List.mem_cons.mp mem with rfl | mem
  · exact same (ctx.layout.attributeEntityKey, ctx.layout.attributeEntityKey) List.mem_cons_self
  · obtain rfl := List.mem_singleton.mp mem
    exact same (table.parentColumn, owner.childColumn) (List.mem_cons_of_mem _ List.mem_cons_self)

theorem shownPlain {v : Value} {name : QualifiedName} {t : Row V} (plain : ∀ t fields, v ≠ .composite t fields) :
    ctx.Shown I db v name t ↔ ctx.PlainShown I t v := by
  cases v with
  | composite t fields => exact absurd rfl (plain t fields)
  | _ => rfl

theorem scalarTestPasses {x : Alias} {v : Value} {test : Test}
    (ok : ctx.scalarTest ⟨x, ctx.layout.attributeValue⟩ v = .ok test) :
    test.Passes I e ↔ ctx.PlainShown I (e x) v := by
  unfold scalarTest at ok
  unfold PlainShown
  split at ok
  · next null =>
    cases ok
    simp [null, Test.Passes, Test.truth, Column.read]
  · next some =>
    obtain ⟨b, bound, ok⟩ := exceptBindOk.mp ok
    obtain rfl := exceptPureOk.mp ok
    have notNull := (bindBinds (Bool.eq_false_iff.mpr some) bound).notNull
    simp [some, Test.Passes, Test.truth, Column.read, notNull, bound]

theorem conjunctionPasses {tests : List Test} :
    (∀ t ∈ conjunction tests, t.Passes I e) ↔ ∀ t ∈ tests, t.Passes I e := by
  unfold conjunction
  split
  · next empty => simp [List.isEmpty_iff.mp empty]
  · rw [List.forall_mem_singleton, Test.passesAll]

def HangsOff (ctx : Context) (db : Store ctx.layout V) (a : FieldPath → Alias) (e : Joined V) (fields : List FieldAt) :
    Prop := ∀ f ∈ fields, ctx.FieldRow db f.object.name f.name (e (a f.object)) (e (a f.path))

theorem HangsOff.among {fields others : List FieldAt} (hangs : ctx.HangsOff db a e fields) (subset : others ⊆ fields) :
    ctx.HangsOff db a e others := fun f mem => hangs f (subset mem)

theorem plainTestsPass {v : Value} {way : FieldPath} {tests : List Test} (plain : ∀ t fields, v ≠ .composite t fields)
    (ok : ctx.testsAt a way v = .ok tests) :
    (∀ t ∈ tests, t.Passes I e) ↔ ctx.Shown I db v way.name (e (a way)) := by
  obtain ⟨test, made, rfl⟩ := (testsAtPlain plain).mp ok
  rw [List.forall_mem_singleton, scalarTestPasses made, shownPlain plain]

mutual
theorem testsPass : ∀ (v : Value) {way : FieldPath} {tests : List Test}, ctx.HangsOff db a e (v.fieldsAt way) →
    ctx.FieldsOnce db (v.fieldsAt way) → ctx.testsAt a way v = .ok tests →
    ((∀ t ∈ tests, t.Passes I e) ↔ ctx.Shown I db v way.name (e (a way)))
  | .composite _ fields, way, tests, hangs, once, ok => by
    obtain ⟨inner, made, ok⟩ := exceptBindOk.mp ok
    obtain rfl := exceptPureOk.mp ok
    rw [conjunctionPasses]
    exact fieldTestsPass fields hangs once made
  | .null, _, _, _, _, ok | .bool _, _, _, _, _, ok | .int _, _, _, _, _, ok | .float _, _, _, _, _, ok
  | .text _, _, _, _, _, ok | .date _, _, _, _, _, ok | .timestamp _, _, _, _, _, ok | .enum _ _, _, _, _, _, ok
  | .collection _, _, _, _, _, ok => plainTestsPass (by simp) ok
theorem fieldTestsPass : ∀ (fields : List (QualifiedName × Value)) {way : FieldPath} {tests : List Test},
    ctx.HangsOff db a e (Value.fieldsOf way fields) → ctx.FieldsOnce db (Value.fieldsOf way fields) →
    ctx.fieldTestsAt a way fields = .ok tests →
    ((∀ t ∈ tests, t.Passes I e) ↔ ctx.FieldsShown I db fields way.name (e (a way)))
  | [], _, _, _, _, ok => by
    obtain rfl := exceptPureOk.mp ok
    simp [FieldsShown]
  | (name, v) :: rest, way, tests, hangs, once, ok => by
    obtain ⟨first, made, ok⟩ := exceptBindOk.mp ok
    obtain ⟨more, others, ok⟩ := exceptBindOk.mp ok
    obtain rfl := exceptPureOk.mp ok
    have here : ctx.FieldRow db way.name name (e (a way)) (e (a (.field way name))) := hangs ⟨way, name⟩ List.mem_cons_self
    have inside : v.fieldsAt (.field way name) ⊆ Value.fieldsOf way ((name, v) :: rest) := fun f mem =>
      List.mem_cons_of_mem _ (List.mem_append_left _ mem)
    have beside : Value.fieldsOf way rest ⊆ Value.fieldsOf way ((name, v) :: rest) := fun f mem =>
      List.mem_cons_of_mem _ (List.mem_append_right _ mem)
    have inner := testsPass v (hangs.among inside) (once.among inside) made
    have outer := fieldTestsPass rest (hangs.among beside) (once.among beside) others
    rw [List.forall_mem_append, inner, outer, FieldsShown]
    refine and_congr_left fun _ => ⟨fun shown => ⟨_, here, shown⟩, fun ⟨s, row, shown⟩ => ?_⟩
    obtain rfl := once.row (f := ⟨way, name⟩) List.mem_cons_self here row
    exact shown
end

theorem elementTestPasses {v : Value} {way : FieldPath} {test : Test} {fields : List FieldAt}
    (hangs : ctx.HangsOff db a e fields) (once : ctx.FieldsOnce db fields) (among : v.fieldsAt way ⊆ fields)
    (ok : ctx.elementTestAt a way v = .ok test) : test.Passes I e ↔ ctx.Finds I db way.name v (e (a way)) := by
  obtain ⟨tests, made, ok⟩ := exceptBindOk.mp ok
  obtain rfl := exceptPureOk.mp ok
  rw [Test.passesAll, List.forall_mem_cons, testsPass v (hangs.among among) (once.among among) made]
  simp [Finds, Test.Passes, Test.truth, Column.read]

end Context

variable [DecidableEq V] {ctx : Context} {db : Store ctx.layout V} {a : FieldPath → Alias}

theorem Join.extendAllNext {kind : JoinKind} {k : Link} {x y : Alias} {joins : List Join} {declared : List Alias}
    {e e' : Joined V} (within : JoinsWithin ctx declared joins) (distinct : (declared ++ joins.map (·.tableAlias)).Nodup)
    (keyed : k.on ≠ []) (mem : k.join kind x y ∈ joins) (inside : e' ∈ Join.extendAll db joins e) :
    k.Next db kind (e' y) (e' x) := by
  -- Where each join reads tables before it, a row stays matched as it was joined.
  obtain ⟨before, after, rfl⟩ := List.append_of_mem mem
  have here := joinWithinAt within
  obtain ⟨c, pair⟩ := List.exists_mem_of_ne_nil _ keyed
  have earlier : y ∈ declared ++ before.map (·.tableAlias) :=
    (here.right _ (List.mem_map.mpr ⟨c, pair, rfl⟩)).table
  rw [List.map_append, List.map_cons, ← List.append_assoc] at distinct
  obtain ⟨_, later, apart⟩ := List.nodup_append.mp distinct
  have other : y ≠ x := apart y earlier x List.mem_cons_self
  rw [extendAllAppend] at inside
  obtain ⟨e₁, _, inside⟩ := List.mem_flatMap.mp inside
  obtain ⟨e₂, joined, inside⟩ := List.mem_flatMap.mp inside
  obtain ⟨s, next, rfl⟩ := (extendLink other).mp joined
  have keptOwn : ∀ j ∈ after, x ≠ j.tableAlias := fun j mem same =>
    (List.nodup_cons.mp later).1 (List.mem_map.mpr ⟨j, mem, same.symm⟩)
  have keptOther : ∀ j ∈ after, y ≠ j.tableAlias := fun j mem =>
    apart y earlier _ (List.mem_cons_of_mem _ (List.mem_map_of_mem mem))
  rw [extendAllOther keptOwn inside, extendAllOther keptOther inside, Joined.withSame, Joined.withOther _ _ other]
  exact next

namespace Selection.ReadsElements

variable {p : PropertyPath} {elements : List Value} {tests : List Test} {s : Selection}

omit [DecidableEq V] in
theorem rootOwn (reads : s.ReadsElements ctx p elements tests a) : ∀ j ∈ s.joins, s.root ≠ j.tableAlias :=
  fun _ mem same => (List.nodup_cons.mp reads.once).1 (same ▸ List.mem_map_of_mem mem)

variable (db) in
theorem rows (reads : s.ReadsElements ctx p elements tests a) (apart : p.NamedApart elements) (r : Row V) :
    ∃ links, ctx.pathLinks p = .ok links ∧
      (∀ e ∈ Join.extendAll db s.joins (Joined.with (fun _ => Row.null) s.root r),
        Chain db r links (e (a (.element p.last))) ∧ ctx.HangsOff db a e (p.fieldsIn elements)) ∧
      ∀ t, Chain db r links t →
        ∃ e ∈ Join.extendAll db s.joins (Joined.with (fun _ => Row.null) s.root r), e (a (.element p.last)) = t := by
  -- The rows that such a statement joins to an entity: one or more for each row of the collection, with the rows of
  -- the fields beside it.
  obtain ⟨n, links, joins, root, known, laid, table, read⟩ := reads.joins
  have start : (Joined.with (fun _ => Row.null) s.root r : Joined V) s.root = r := Joined.withSame _ _ _
  have before : s.root.Before (n + 1) := root ▸ Alias.beforeSucc n
  have kept : ∀ j ∈ joins, a (.element p.last) ≠ j.tableAlias := by
    intro j mem
    obtain ⟨f, inside, joined⟩ := read.only j mem
    rw [joined.tableAlias]
    exact (read.apart f inside).symm
  refine ⟨links, known, fun e inside => ⟨?_, fun f mem => ?_⟩, fun t chain => ?_⟩
  · rw [laid, Join.extendAllAppend] at inside
    obtain ⟨e₁, first, others⟩ := List.mem_flatMap.mp inside
    have along := (extendAllChain before first).1
    rw [start, ← table, joinChainInner] at along
    rw [Join.extendAllOther kept others]
    exact along
  · obtain ⟨⟨j, mem, owner, field, known, found, rfl⟩, _⟩ := reads.separate apart mem
    refine ⟨owner, field, known, found, ?_⟩
    exact Join.extendAllNext (k := ctx.fieldLink owner field) reads.within reads.once (List.cons_ne_nil _ _) mem inside
  · obtain ⟨e₁, first, last⟩ := chainExtendAll before start (joinChainInner.mpr chain)
    have left : ∀ j ∈ joins, j.kind = .left := by
      intro j mem
      obtain ⟨f, _, _, _, _, _, rfl⟩ := read.only j mem
      rfl
    obtain ⟨e, others⟩ := Join.extendAllSome db left e₁
    refine ⟨e, ?_, ?_⟩
    · rw [laid, Join.extendAllAppend]
      exact List.mem_flatMap.mpr ⟨e₁, first, others⟩
    · rw [Join.extendAllOther kept others, table, last]

end Selection.ReadsElements
end ObjectQuery
