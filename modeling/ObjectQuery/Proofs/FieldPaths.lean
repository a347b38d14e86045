import ObjectQuery.Proofs.Contained
import ObjectQuery.Proofs.Emitted
import ObjectQuery.Proofs.Issued
import ObjectQuery.Proofs.Resolved

/-! Where the fields of an element are read. A field's table is joined on the row of the object around it and
remembered by two names, that of the object and the field's own. So two fields are read from one table exactly
if these names are the same, wherever in the element they stand. -/
namespace ObjectQuery
open Outcome

inductive FieldPath where
  | element (collection : QualifiedName)
  | field (object : FieldPath) (name : QualifiedName)
  deriving DecidableEq, Repr

def FieldPath.name : FieldPath → QualifiedName
  | .element collection => collection
  | .field _ name => name

structure FieldAt where
  object : FieldPath
  name : QualifiedName
  deriving DecidableEq, Repr

namespace FieldAt

def path (f : FieldAt) : FieldPath := .field f.object f.name

def key (f : FieldAt) : QualifiedName × QualifiedName := (f.object.name, f.name)

end FieldAt

namespace Value

mutual
def fieldsAt (way : FieldPath) : Value → List FieldAt
  | .composite _ fields => fieldsOf way fields
  | _ => []
def fieldsOf (way : FieldPath) : List (QualifiedName × Value) → List FieldAt
  | [] => []
  | (name, v) :: rest => ⟨way, name⟩ :: (fieldsAt (.field way name) v ++ fieldsOf way rest)
end

end Value

namespace Context

mutual
def testsAt (ctx : Context) (a : FieldPath → Alias) (way : FieldPath) : Value → Except CompileError (List Test)
  | .composite _ fields => do pure (conjunction (← fieldTestsAt ctx a way fields))
  | v => do pure [← ctx.scalarTest ⟨a way, ctx.layout.attributeValue⟩ v]
def fieldTestsAt (ctx : Context) (a : FieldPath → Alias) (way : FieldPath) :
    List (QualifiedName × Value) → Except CompileError (List Test)
  | [] => pure []
  | (name, v) :: rest => do
    let tests ← testsAt ctx a (.field way name) v
    pure (tests ++ (← fieldTestsAt ctx a way rest))
end

theorem testsAtPlain {ctx : Context} {a : FieldPath → Alias} {way : FieldPath} {v : Value} {tests : List Test}
    (plain : ∀ t fields, v ≠ .composite t fields) : ctx.testsAt a way v = .ok tests ↔
      ∃ test, ctx.scalarTest ⟨a way, ctx.layout.attributeValue⟩ v = .ok test ∧ [test] = tests := by
  cases v with
  | composite t fields => exact absurd rfl (plain t fields)
  | _ =>
    refine exceptBindOk.trans ?_
    simp only [exceptPureOk]

def elementTestAt (ctx : Context) (a : FieldPath → Alias) (way : FieldPath) (v : Value) : Except CompileError Test := do
  pure (.all (.pathMatches ⟨a way, ctx.layout.collectionPath⟩ ctx.layout.belowRoot :: (← ctx.testsAt a way v)))

def FieldJoined (ctx : Context) (a : FieldPath → Alias) (f : FieldAt) (j : Join) : Prop :=
  ∃ object table, ctx.lookup f.object.name = .ok object ∧ ctx.lookup f.name = .ok table ∧
    j = ⟨ctx.layout.qualified table.name, a f.path, .left,
      [⟨⟨a f.path, ctx.layout.attributeEntityKey⟩, ⟨a f.object, ctx.layout.attributeEntityKey⟩⟩,
        ⟨⟨a f.path, table.parentColumn⟩, ⟨a f.object, object.childColumn⟩⟩]⟩

def Remembers (children : Children) (a : FieldPath → Alias) : Prop :=
  ∀ f : FieldAt, ∀ x, children.lookup f.key = some x → a f.path = x

theorem Remembers.before {children children' : Children} {a : FieldPath → Alias} (kept : children <+: children')
    (remembers : Remembers children' a) : Remembers children a := by
  obtain ⟨more, rfl⟩ := kept
  exact fun f x found => remembers f x (by simp [List.lookup_append, found])

structure Hung (ctx : Context) (a : FieldPath → Alias) (children : Children) (r : Route) (fields first : List FieldAt)
    (children' : Children) (r' : Route) : Prop where
  remembered : children' = children ++ first.map fun f => (f.key, a f.path)
  joined : ∃ joins, r'.joins = r.joins ++ joins ∧ List.Forall₂ (ctx.FieldJoined a) first joins
  among : first ⊆ fields
  known : ∀ f ∈ fields, f.key ∈ children'.map Prod.fst

variable {ctx : Context} {a : FieldPath → Alias} {children known children' : Children} {r u r' : Route}
  {fields others first next : List FieldAt}

namespace Hung

theorem nil (ctx : Context) (a : FieldPath → Alias) (children : Children) (r : Route) :
    Hung ctx a children r [] [] children r :=
  ⟨by simp, ⟨[], by simp, .nil⟩, List.Subset.refl _, by simp⟩

theorem append (left : Hung ctx a children r fields first known u) (right : Hung ctx a known u others next children' r') :
    Hung ctx a children r (fields ++ others) (first ++ next) children' r' := by
  obtain ⟨joins, route, joined⟩ := left.joined
  obtain ⟨more, route', joined'⟩ := right.joined
  refine ⟨?_, ⟨joins ++ more, ?_, List.rel_append joined joined'⟩, ?_, ?_⟩
  · rw [right.remembered, left.remembered, List.map_append, List.append_assoc]
  · rw [route', route, List.append_assoc]
  · exact List.append_subset.mpr ⟨fun f mem => List.mem_append_left _ (left.among mem),
      fun f mem => List.mem_append_right _ (right.among mem)⟩
  · intro f mem
    rcases List.mem_append.mp mem with mem | mem
    · rw [right.remembered, List.map_append]
      exact List.mem_append_left _ (left.known f mem)
    · exact right.known f mem

end Hung

theorem childKept {parent : ElementSource} {name : QualifiedName} {t : AttributeTable} {joined : Alias}
    (ok : ctx.childAlias parent name t children r = .ok (joined, children') r') : children <+: children' := by
  rcases childAliasOk ok with ⟨_, rfl, _⟩ | ⟨_, _, rfl, _⟩
  · exact List.prefix_rfl
  · exact List.prefix_append _ _

theorem plainKept {source : ElementSource} {v : Value} {tests : List Test} (plain : ∀ t fields, v ≠ .composite t fields)
    (ok : ctx.valueTests source v children r = .ok (tests, children') r') : children <+: children' := by
  obtain ⟨_, _, _, rfl, _⟩ := (plainTestsOk plain).mp ok
  exact List.prefix_rfl

mutual
theorem valueKept {source : ElementSource} {children children' : Children} {r r' : Route} {tests : List Test} :
    (v : Value) → ctx.valueTests source v children r = .ok (tests, children') r' → children <+: children'
  | .composite _ fields, ok => by
    obtain ⟨_, tested, _⟩ := compositeTestsOk ok
    exact fieldsKept fields tested
  | .null, ok | .bool _, ok | .int _, ok | .float _, ok | .text _, ok | .date _, ok | .timestamp _, ok | .enum _ _, ok
  | .collection _, ok => plainKept (by simp) ok
theorem fieldsKept {parent : ElementSource} {children children' : Children} {r r' : Route} {tests : List Test} :
    (fields : List (QualifiedName × Value)) →
      ctx.fieldTests parent fields children r = .ok (tests, children') r' → children <+: children'
  | [], ok => by
    obtain ⟨same, _⟩ := pureOk.mp ok
    cases same
    exact List.prefix_rfl
  | (name, v) :: rest, ok => by
    obtain ⟨_, _, _, _, _, _, _, _, _, child, value, others, _⟩ := fieldTestsOk ok
    exact (childKept child).trans ((valueKept v value).trans (fieldsKept rest others))
end

theorem elementKept {source : ElementSource} {v : Value} {test : Test}
    (ok : ctx.elementTest source v children r = .ok (test, children') r') : children <+: children' := by
  obtain ⟨_, value, _⟩ := elementTestOk ok
  exact valueKept v value

theorem elementsKept {source : ElementSource} {elements : List Value} {tests : List Test}
    (ok : ctx.elementTests source elements children r = .ok (tests, children') r') : children <+: children' := by
  induction elements generalizing children r tests with
  | nil =>
    obtain ⟨same, _⟩ := pureOk.mp ok
    cases same
    exact List.prefix_rfl
  | cons v rest ih =>
    obtain ⟨_, _, _, _, first, others, _⟩ := elementTestsOk ok
    exact (elementKept first).trans (ih others)

theorem childHung {parent : ElementSource} {way : FieldPath} {name : QualifiedName} {t : AttributeTable} {joined : Alias}
    (tableAlias : parent.tableAlias = a way) (named : parent.name = way.name)
    (known : ctx.lookup parent.name = .ok parent.table) (found : ctx.lookup name = .ok t)
    (ok : ctx.childAlias parent name t children r = .ok (joined, children') r') (remembers : Remembers children' a) :
    joined = a (.field way name) ∧ ∃ first, Hung ctx a children r [⟨way, name⟩] first children' r' := by
  rw [named] at known
  rcases childAliasOk ok with ⟨before, rfl, rfl⟩ | ⟨before, rfl, rfl, rfl⟩
  · rw [named] at before
    obtain ⟨left, right, split, _⟩ := List.lookup_eq_some_iff.mp before
    exact ⟨(remembers ⟨way, name⟩ joined before).symm, [],
      by simp, ⟨[], by simp, .nil⟩, by simp, by simp [FieldAt.key, split]⟩
  · rw [named] at before
    have own : a (.field way name) = .numbered r.issued :=
      remembers ⟨way, name⟩ _ (by simp [List.lookup_append, before, FieldAt.key, named])
    refine ⟨own.symm, [⟨way, name⟩], ?_, ⟨_, rfl, .cons ⟨parent.table, t, known, found, ?_⟩ .nil⟩,
      List.Subset.refl _, by simp [FieldAt.key, named]⟩
    · simp [FieldAt.key, FieldAt.path, own, named]
    · simp [ownedBy, FieldAt.path, own, tableAlias]

theorem plainHung {source : ElementSource} {way : FieldPath} {v : Value} {tests : List Test}
    (plain : ∀ t fields, v ≠ .composite t fields) (tableAlias : source.tableAlias = a way)
    (ok : ctx.valueTests source v children r = .ok (tests, children') r') :
    ctx.testsAt a way v = .ok tests ∧ ∃ first, Hung ctx a children r (v.fieldsAt way) first children' r' := by
  obtain ⟨test, made, rfl, rfl, rfl⟩ := (plainTestsOk plain).mp ok
  rw [tableAlias] at made
  refine ⟨(testsAtPlain plain).mpr ⟨test, made, rfl⟩, [], ?_⟩
  cases v with
  | composite t fields => exact absurd rfl (plain t fields)
  | _ => exact .nil ctx a children _

mutual
theorem valueHung {source : ElementSource} {way : FieldPath} {children children' : Children} {r r' : Route}
    {tests : List Test} (tableAlias : source.tableAlias = a way) (named : source.name = way.name)
    (known : ctx.lookup source.name = .ok source.table) (remembers : Remembers children' a) :
    (v : Value) → ctx.valueTests source v children r = .ok (tests, children') r' →
      ctx.testsAt a way v = .ok tests ∧ ∃ first, Hung ctx a children r (v.fieldsAt way) first children' r'
  | .composite _ fields, ok => by
    obtain ⟨inner, tested, rfl⟩ := compositeTestsOk ok
    obtain ⟨tests, hung⟩ := fieldsHung tableAlias named known remembers fields tested
    exact ⟨exceptBindOk.mpr ⟨inner, tests, rfl⟩, hung⟩
  | .null, ok | .bool _, ok | .int _, ok | .float _, ok | .text _, ok | .date _, ok | .timestamp _, ok | .enum _ _, ok
  | .collection _, ok => plainHung (by simp) tableAlias ok
theorem fieldsHung {parent : ElementSource} {way : FieldPath} {children children' : Children} {r r' : Route}
    {tests : List Test} (tableAlias : parent.tableAlias = a way) (named : parent.name = way.name)
    (known : ctx.lookup parent.name = .ok parent.table) (remembers : Remembers children' a) :
    (fields : List (QualifiedName × Value)) → ctx.fieldTests parent fields children r = .ok (tests, children') r' →
      ctx.fieldTestsAt a way fields = .ok tests ∧
        ∃ first, Hung ctx a children r (Value.fieldsOf way fields) first children' r'
  | [], ok => by
    obtain ⟨same, rfl⟩ := pureOk.mp ok
    cases same
    exact ⟨rfl, [], .nil ctx a children r⟩
  | (name, v) :: rest, ok => by
    obtain ⟨t, joined, inner, more, _, _, _, _, found, child, value, others, rfl⟩ := fieldTestsOk ok
    have later := remembers.before (fieldsKept rest others)
    obtain ⟨rfl, _, first⟩ := childHung tableAlias named known found child (later.before (valueKept v value))
    obtain ⟨tests, _, inside⟩ := valueHung rfl rfl found later v value
    obtain ⟨testsRest, _, beside⟩ := fieldsHung tableAlias named known remembers rest others
    exact ⟨exceptBindOk.mpr ⟨inner, tests, exceptBindOk.mpr ⟨more, testsRest, rfl⟩⟩, _,
      first.append (inside.append beside)⟩
end

theorem elementHung {source : ElementSource} {way : FieldPath} {v : Value} {test : Test}
    (tableAlias : source.tableAlias = a way) (named : source.name = way.name)
    (known : ctx.lookup source.name = .ok source.table) (remembers : Remembers children' a)
    (ok : ctx.elementTest source v children r = .ok (test, children') r') :
    ctx.elementTestAt a way v = .ok test ∧ ∃ first, Hung ctx a children r (v.fieldsAt way) first children' r' := by
  obtain ⟨tests, value, rfl⟩ := elementTestOk ok
  obtain ⟨inner, hung⟩ := valueHung tableAlias named known remembers v value
  refine ⟨exceptBindOk.mpr ⟨tests, inner, ?_⟩, hung⟩
  rw [tableAlias]
  rfl

theorem elementsHung {source : ElementSource} {way : FieldPath} {elements : List Value} {tests : List Test}
    (tableAlias : source.tableAlias = a way) (named : source.name = way.name)
    (known : ctx.lookup source.name = .ok source.table) (remembers : Remembers children' a)
    (ok : ctx.elementTests source elements children r = .ok (tests, children') r') :
    List.Forall₂ (fun v t => ctx.elementTestAt a way v = .ok t) elements tests ∧
      ∃ first, Hung ctx a children r (elements.flatMap (·.fieldsAt way)) first children' r' := by
  induction elements generalizing children r tests with
  | nil =>
    obtain ⟨same, rfl⟩ := pureOk.mp ok
    cases same
    exact ⟨.nil, [], .nil ctx a _ _⟩
  | cons v rest ih =>
    obtain ⟨test, more, _, _, first, others, rfl⟩ := elementTestsOk ok
    obtain ⟨tests, _, hung⟩ := elementHung tableAlias named known (remembers.before (elementsKept others)) first
    obtain ⟨testsRest, _, hungRest⟩ := ih others
    exact ⟨.cons tests testsRest, _, hung.append hungRest⟩

/-- The fields are read from the joined tables, each from that of the first one with its names. -/
structure FieldsRead (ctx : Context) (a : FieldPath → Alias) (way : FieldPath) (fields : List FieldAt)
    (joins : List Join) : Prop where
  joined : ∀ f ∈ fields, ∃ g ∈ fields,
    g.key = f.key ∧ a g.path = a f.path ∧ ∃ j ∈ joins, ctx.FieldJoined a g j
  only : ∀ j ∈ joins, ∃ f ∈ fields, ctx.FieldJoined a f j
  shared : ∀ f ∈ fields, ∀ g ∈ fields, a f.path = a g.path ↔ f.key = g.key
  apart : ∀ f ∈ fields, a f.path ≠ a way

theorem FieldJoined.tableAlias {f : FieldAt} {j : Join} (joined : ctx.FieldJoined a f j) : j.tableAlias = a f.path := by
  obtain ⟨_, _, _, _, rfl⟩ := joined
  rfl

def aliasesOf (children : Children) (own : Alias) : FieldPath → Alias
  | .element _ => own
  | .field object name => (children.lookup (object.name, name)).getD own

theorem aliasesRemember (children : Children) (own : Alias) : Remembers children (aliasesOf children own) := by
  intro f x found
  simp only [FieldAt.key] at found
  simp [FieldAt.path, aliasesOf, found]

theorem Hung.looked (hung : Hung ctx a children r fields first children' r') (remembers : Remembers children' a)
    {f : FieldAt} (mem : f ∈ fields) : children'.lookup f.key = some (a f.path) := by
  obtain ⟨x, found⟩ : ∃ x, children'.lookup f.key = some x := by
    rw [← Option.ne_none_iff_exists', ne_eq, List.lookup_eq_none_iff]
    intro none
    obtain ⟨entry, inside, same⟩ := List.mem_map.mp (hung.known f mem)
    simpa [same] using none entry inside
  rw [found, remembers f x found]

theorem Hung.firstAlike (hung : Hung ctx a [] r fields first children' r') (remembers : Remembers children' a)
    {f : FieldAt} (mem : f ∈ fields) : ∃ g ∈ first, g.key = f.key ∧ a g.path = a f.path := by
  have found := hung.looked remembers mem
  rw [hung.remembered] at found
  obtain ⟨before, after, split, _⟩ := List.lookup_eq_some_iff.mp found
  have inside : (f.key, a f.path) ∈ first.map fun f => (f.key, a f.path) := by
    rw [List.nil_append] at split
    simp [split]
  obtain ⟨g, here, same⟩ := List.mem_map.mp inside
  exact ⟨g, here, (Prod.mk.inj same).1, (Prod.mk.inj same).2⟩

theorem joinedAliases {first : List FieldAt} {joins : List Join} (joined : List.Forall₂ (ctx.FieldJoined a) first joins) :
    first.map (fun f => a f.path) = joins.map (·.tableAlias) := by
  induction joined with
  | nil => rfl
  | cons head _ ih => rw [List.map_cons, List.map_cons, ih, head.tableAlias]

theorem Hung.read {way : FieldPath} (hung : Hung ctx a [] r fields first children' r') (remembers : Remembers children' a)
    {root : Alias} (distinct : (r'.aliases root).Nodup) (own : a way ∈ r.aliases root) :
    ∃ joins, r'.joins = r.joins ++ joins ∧ ctx.FieldsRead a way fields joins := by
  obtain ⟨joins, route, joined⟩ := hung.joined
  have aliases : r'.aliases root = r.aliases root ++ first.map fun f => a f.path := by
    rw [joinedAliases joined]
    simp [Route.aliases, route]
  rw [aliases] at distinct
  obtain ⟨_, once, disjoint⟩ := List.nodup_append.mp distinct
  refine ⟨joins, route, fun f mem => ?_, fun j mem => ?_, fun f mem g mem' => ?_, fun f mem same => ?_⟩
  · obtain ⟨g, inside, key, same⟩ := hung.firstAlike remembers mem
    exact ⟨g, hung.among inside, key, same, pairedTo joined inside⟩
  · obtain ⟨f, inside, here⟩ := pairedFrom joined mem
    exact ⟨f, hung.among inside, here⟩
  · constructor
    · intro alike
      obtain ⟨f', inside, key, same⟩ := hung.firstAlike remembers mem
      obtain ⟨g', inside', key', same'⟩ := hung.firstAlike remembers mem'
      rw [← same, ← same'] at alike
      rw [← key, ← key', List.inj_on_of_nodup_map once inside inside' alike]
    · intro names
      exact Option.some.inj ((hung.looked remembers mem).symm.trans (names ▸ hung.looked remembers mem'))
  · obtain ⟨g, inside, _, there⟩ := hung.firstAlike remembers mem
    exact disjoint _ own _ (List.mem_map_of_mem inside) (same.symm.trans there.symm)

theorem FieldsRead.separate {way : FieldPath} {joins : List Join} (read : ctx.FieldsRead a way fields joins)
    (names : ∀ f ∈ fields, ∀ g ∈ fields, f.key = g.key → f = g) {f : FieldAt} (mem : f ∈ fields) :
    (∃ j ∈ joins, ctx.FieldJoined a f j) ∧ ∀ g ∈ fields, a f.path = a g.path → f = g := by
  obtain ⟨g, inside, key, _, joined⟩ := read.joined f mem
  obtain rfl := names g inside f mem key
  exact ⟨joined, fun h mem' same => names g mem h mem' ((read.shared g mem h mem').mp same)⟩

end Context

namespace Value

variable {ctx : Context}

theorem fieldsOfMem {way : FieldPath} {fields : List (QualifiedName × Value)} {f : FieldAt} :
    f ∈ fieldsOf way fields ↔ ∃ x ∈ fields, f = ⟨way, x.1⟩ ∨ f ∈ x.2.fieldsAt (.field way x.1) := by
  induction fields with
  | nil => simp [fieldsOf]
  | cons x rest ih =>
    obtain ⟨name, v⟩ := x
    simp only [fieldsOf, List.mem_cons, List.mem_append, ih, exists_eq_or_imp, or_assoc]

theorem plainSameFields {k v : Value} {way : FieldPath} (some : k.isNull = false)
    (plain : ∀ t fields, k ≠ .composite t fields) (same : ctx.boundEqual k v = .ok true) : v.fieldsAt way = [] := by
  obtain ⟨_, y, _, bound, _⟩ := Context.boundEqualScalar some plain same
  cases v with
  | composite t fields => cases bound
  | _ => rfl

theorem sameFields {k v : Value} {way : FieldPath} (same : ctx.boundEqual k v = .ok true) (once : k.NamedOnce) :
    v.fieldsAt way ⊆ k.fieldsAt way := by
  refine sameElements (P := fun k v => ∀ way, v.fieldsAt way ⊆ k.fieldsAt way) (fun _ => List.Subset.refl _)
    (fun k v some plain same way => ?_) (fun t t' left right _ _ _ fromRight way f mem => ?_) once same way
  · rw [plainSameFields some plain same]
    exact List.nil_subset _
  · obtain ⟨x, inside, here⟩ := fieldsOfMem.mp mem
    obtain ⟨v, mem, within⟩ := fromRight x inside
    exact fieldsOfMem.mpr ⟨_, mem, here.imp_right fun deeper => within _ deeper⟩

end Value

inductive Leaf.AsksFor : Leaf → PropertyPath → List Value → Prop where
  | contains (p v) : AsksFor (.contains p (.literal v)) p [v]
  | containsAll (p items) : AsksFor (.containsAll p (.literal (.collection items))) p (Value.flattenAll items)

structure Context.Keeps (ctx : Context) (kept elements : List Value) : Prop where
  among : kept ⊆ elements
  each : ∀ v ∈ elements, v ∈ kept ∨ ∃ k ∈ kept, ctx.boundEqual k v = .ok true ∧
    (k.NamedOnce → ∀ way, v.fieldsAt way ⊆ k.fieldsAt way)

inductive Selection.TestsBy (s : Selection) : List Test → Prop where
  | one {t} (tests : s.tests = [t]) (undivided : s.division = none) : TestsBy s [t]
  | each {ts division} (tests : s.tests = [.any ts]) (divides : s.division = some division)
      (counted : ∀ us, division.tally = .matches us → us = ts) : TestsBy s ts

def PropertyPath.fieldsIn (p : PropertyPath) (elements : List Value) : List FieldAt :=
  elements.flatMap (·.fieldsAt (.element p.last))

theorem PropertyPath.fieldsInMem (p : PropertyPath) {elements : List Value} {v : Value} (mem : v ∈ elements) :
    v.fieldsAt (.element p.last) ⊆ p.fieldsIn elements := fun _ inside => List.mem_flatMap.mpr ⟨v, mem, inside⟩

theorem PropertyPath.fieldsInAmong (p : PropertyPath) {elements others : List Value} (among : elements ⊆ others) :
    p.fieldsIn elements ⊆ p.fieldsIn others := fun f mem => by
  obtain ⟨v, inside, here⟩ := List.mem_flatMap.mp mem
  exact p.fieldsInMem (among inside) here

theorem Context.Keeps.fieldsIn {ctx : Context} {kept elements : List Value} (keeps : ctx.Keeps kept elements)
    (once : ∀ k ∈ kept, k.NamedOnce) (p : PropertyPath) : p.fieldsIn elements ⊆ p.fieldsIn kept := by
  intro f mem
  obtain ⟨v, inside, here⟩ := List.mem_flatMap.mp mem
  rcases keeps.each v inside with same | ⟨k, found, _, among⟩
  · exact p.fieldsInMem same here
  · exact p.fieldsInMem found (among (once k found) _ here)

structure Selection.ReadsElements (ctx : Context) (p : PropertyPath) (elements : List Value) (tests : List Test)
    (a : FieldPath → Alias) (s : Selection) : Prop where
  once : s.aliases.Nodup
  within : JoinsWithin ctx [s.root] s.joins
  tests : List.Forall₂ (fun v t => ctx.elementTestAt a (.element p.last) v = .ok t) elements tests
  joins : ∃ n links joins, s.root = .numbered n ∧ ctx.pathLinks p = .ok links ∧
    s.joins = Link.joins .inner s.root (n + 1) links ++ joins ∧ a (.element p.last) = Link.last s.root (n + 1) links ∧
    ctx.FieldsRead a (.element p.last) (p.fieldsIn elements) joins

def PropertyPath.NamedApart (p : PropertyPath) (elements : List Value) : Prop :=
  ∀ f ∈ p.fieldsIn elements, ∀ g ∈ p.fieldsIn elements, f.key = g.key → f = g

theorem PropertyPath.NamedApart.among {p : PropertyPath} {elements others : List Value} (apart : p.NamedApart others)
    (among : elements ⊆ others) : p.NamedApart elements := fun f mem g mem' =>
  apart f (p.fieldsInAmong among mem) g (p.fieldsInAmong among mem')

theorem Selection.ReadsElements.separate {ctx : Context} {p : PropertyPath} {elements : List Value} {tests : List Test}
    {a : FieldPath → Alias} {s : Selection} (reads : s.ReadsElements ctx p elements tests a)
    (apart : p.NamedApart elements) {f : FieldAt} (mem : f ∈ p.fieldsIn elements) :
    (∃ j ∈ s.joins, ctx.FieldJoined a f j) ∧ ∀ g ∈ p.fieldsIn elements, a f.path = a g.path → f = g := by
  obtain ⟨_, _, joins, _, _, laid, _, read⟩ := reads.joins
  obtain ⟨⟨j, inside, joined⟩, alone⟩ := read.separate apart mem
  exact ⟨⟨j, laid ▸ List.mem_append_right _ inside, joined⟩, alone⟩

namespace Scope

variable {sc : Scope} {p : PropertyPath} {n m : Nat} {q : SetPlan}

theorem complementIfSelects {negated : Bool} {s : Selection} (ok : sc.complementIf negated (.select s) n = .ok q m) :
    q = .select s ∨ ∃ base, q = .compound .except (.select base) (.select s) := by
  obtain ⟨_, rfl, _⟩ | ⟨_, rfl, _⟩ := complementIfOk.mp ok
  · exact .inl rfl
  · exact .inr ⟨_, rfl⟩

theorem statementEmitted {l : Layout} {s : Selection}
    (shape : q = .select s ∨ ∃ base, q = .compound .except (.select base) (.select s)) :
    s.toSelect l ∈ (q.toSql l).statements := by
  rcases shape with rfl | ⟨base, rfl⟩
  · exact List.mem_singleton_self _
  · exact List.mem_append_right _ (List.mem_singleton_self _)

theorem testedReads {target : PropertyTarget} {source : ElementSource} {links : List Link} {r : Route} {s : Selection}
    {elements : List Value} {children : Children} {tests : List Test} {b c : Nat} (root : s.root = .numbered n)
    (proper : s.Proper sc.toContext b c) (there : sc.CollectionLaid .inner p s.root ⟨n + 1, []⟩ target source links r)
    (tested : sc.elementTests source elements [] r = .ok (tests, children) ⟨m, s.joins⟩) :
    ∃ a, s.ReadsElements sc.toContext p elements tests a := by
  obtain ⟨rfl, reached⟩ := there.path.laid
  have table : source.tableAlias = Link.last s.root (n + 1) links := there.tableAlias.trans reached
  have remembers := Context.aliasesRemember children source.tableAlias
  have here : source.tableAlias = Context.aliasesOf children source.tableAlias (.element p.last) := rfl
  obtain ⟨each, first, hung⟩ := Context.elementsHung here there.name (there.name ▸ there.table) remembers tested
  have own : Context.aliasesOf children source.tableAlias (.element p.last) ∈
      Route.aliases s.root ⟨n + 1 + links.length, [] ++ Link.joins .inner s.root (n + 1) links⟩ := by
    rw [← here, table]
    exact Link.lastMem _ _ _ _
  obtain ⟨joins, laid, read⟩ := hung.read remembers proper.distinct own
  exact ⟨_, proper.distinct, proper.joins, each, n, links, joins, root, there.path.known, laid, table, read⟩

theorem containsReads {v : Value} (ok : sc.contains p (.literal v) n = .ok q m) :
    ∃ s t a, q = .select s ∧ s.typeIds = sc.typeIds ∧ s.tests = [t] ∧ s.division = none ∧
      s.ReadsElements sc.toContext p [v] [t] a := by
  have proper := containsProper ok
  obtain ⟨target, source, links, r, test, children, joins, there, element, _, rfl⟩ := containsLaid ok
  obtain ⟨_, _, _, _, own⟩ := proper.each _ (List.mem_singleton_self _)
  have tested : sc.elementTests source [v] [] r = .ok ([test], children) ⟨m, joins⟩ :=
    bindOk.mpr ⟨(test, children), _, element, rfl⟩
  obtain ⟨a, reads⟩ := testedReads rfl own there tested
  exact ⟨_, test, a, rfl, rfl, rfl, rfl, reads⟩

theorem dividingReads {elements : List Value} (ok : sc.dividing p elements n = .ok q m) :
    ∃ s tests a target, q = .select s ∧ s.typeIds = sc.typeIds ∧ s.tests = [.any tests] ∧
      s.division = some ⟨tallyOf target elements tests, elements.length⟩ ∧
      s.ReadsElements sc.toContext p elements tests a := by
  have proper := dividingProper ok
  obtain ⟨target, source, links, r, tests, children, joins, there, tested, rfl⟩ := dividingLaid ok
  obtain ⟨_, _, _, _, own⟩ := proper.each _ (List.mem_singleton_self _)
  obtain ⟨a, reads⟩ := testedReads rfl own there tested
  exact ⟨_, tests, a, target, rfl, rfl, rfl, rfl, reads⟩

theorem tallyCounted {target : PropertyTarget} {elements : List Value} {tests us : List Test}
    (matched : tallyOf target elements tests = .matches us) : us = tests := by
  unfold tallyOf at matched
  split at matched
  · cases matched
  · exact (Tally.matches.inj matched).symm

/-- Each field of an element is read from a table on the rows of its object, unless another field with the same
name in an object of the same name comes first: then it is read from the table of that one. -/
theorem fieldsReadByTwoNames (sc : Scope) {l : Leaf} {p : PropertyPath} {elements : List Value} {negated : Bool}
    {n m : Nat} {q : Option SetPlan} (asks : l.AsksFor p elements) (some : elements ≠ [])
    (ok : sc.compile (.leaf l) negated n = .ok q m) :
    ∃ plan s kept tests a, q = .some plan ∧
      (plan = .select s ∨ ∃ base, plan = .compound .except (.select base) (.select s)) ∧
      s.toSelect sc.layout ∈ (plan.toSql sc.layout).statements ∧
      (sc.layout.faults = [] → sc.schema.Identified → ∀ (V : Type) [DecidableEq V] (I : Interpretation V)
        (db : Store sc.layout V), (plan.toSql sc.layout).Selects I db (plan.reading (Selection.selected I db))) ∧
      sc.Keeps kept elements ∧ s.TestsBy tests ∧ s.ReadsElements sc.toContext p kept tests a ∧
      (p.NamedApart kept → ∀ f ∈ p.fieldsIn kept,
        (∃ j ∈ s.joins, sc.FieldJoined a f j) ∧ ∀ g ∈ p.fieldsIn kept, a f.path = a g.path → f = g) := by
  cases asks with
  | contains p v =>
    obtain ⟨plan, made, rfl⟩ := mapOk.mp ok
    obtain ⟨positive, u, contained, made⟩ := bindOk.mp made
    obtain ⟨s, t, a, rfl, _, test, undivided, reads⟩ := containsReads contained
    have shape := complementIfSelects made
    exact ⟨plan, s, [v], [t], a, rfl, shape, statementEmitted shape, fun valid named V _ I db =>
      compiledSelects valid named I db ok, ⟨List.Subset.refl _, fun v mem => .inl mem⟩, .one test undivided, reads,
      fun apart _ => reads.separate apart⟩
  | containsAll p items =>
    obtain ⟨kept, positive, u, loop, divided, plan, rfl, made⟩ := containsAllOk some ok
    obtain ⟨s, tests, a, target, rfl, _, tested, divides, reads⟩ := dividingReads divided
    obtain ⟨_, within, each⟩ := Context.keptOrDropped loop
    have keeps : sc.Keeps kept (Value.flattenAll items) := ⟨within, fun v mem => (each v mem).imp_right
      fun ⟨k, inside, same⟩ => ⟨k, inside, same, fun once _ => Value.sameFields same once⟩⟩
    have shape := complementIfSelects made
    exact ⟨plan, s, kept, tests, a, rfl, shape, statementEmitted shape, fun valid named V _ I db =>
      compiledSelects valid named I db ok, keeps, .each tested divides fun _ => tallyCounted, reads,
      fun apart _ => reads.separate apart⟩

end Scope

namespace FieldPathsSample

def people : Scope where
  schema := Schema.empty
    |>.withAttribute ⟨"Person", "addresses"⟩ (.of "person_addresses" 1)
    |>.withAttribute ⟨"Address", "home"⟩ (.of "address_home" 0)
    |>.withAttribute ⟨"Address", "work"⟩ (.of "address_work" 0)
    |>.withAttribute ⟨"Place", "geo"⟩ (.of "place_geo" 0)
    |>.withAttribute ⟨"Geo", "lat"⟩ (.of "geo_lat" 0)
  layout := .default
  typeIds := [1]

def addresses : PropertyPath := .of ⟨"Person", "addresses"⟩

def place (latitude : Int64) : Value :=
  .composite "Place" [(⟨"Place", "geo"⟩, .composite "Geo" [(⟨"Geo", "lat"⟩, .int latitude)])]

def home (latitude : Int64) : Value := .composite "Address" [(⟨"Address", "home"⟩, place latitude)]

def homeAndWork : Value := .composite "Address" [(⟨"Address", "home"⟩, place 1), (⟨"Address", "work"⟩, place 2)]

theorem peopleIdentified : people.schema.Identified := by
  refine Schema.withAttributeIdentified (Schema.withAttributeIdentified (Schema.withAttributeIdentified
    (Schema.withAttributeIdentified (Schema.withAttributeIdentified (fun _ _ none => nomatch none) ?_) ?_) ?_) ?_) ?_ <;>
    exact ⟨rfl, rfl, rfl⟩

theorem homesReadApart : ∃ s m kept tests a,
    people.compile (.leaf (.containsAll addresses (.literal (.collection [home 1, home 2])))) false 0 =
      .ok (some (.select s)) m ∧
    (∀ (V : Type) [DecidableEq V] (I : Interpretation V) (db : Store people.layout V),
      ((SetQuery.select s).toSql people.layout).Selects I db (s.selected I db)) ∧
    s.ReadsElements people.toContext addresses kept tests a ∧ ∀ f ∈ addresses.fieldsIn [home 1, home 2],
      (∃ j ∈ s.joins, people.FieldJoined a f j) ∧
      ∀ g ∈ addresses.fieldsIn [home 1, home 2], a f.path = a g.path → f = g := by
  have ok : people.compile (.leaf (.containsAll addresses (.literal (.collection [home 1, home 2])))) false 0 = .ok _ _ :=
    rfl
  obtain ⟨plan, s, kept, tests, a, same, selects, _, yielded, keeps, _, reads, separate⟩ :=
    Scope.fieldsReadByTwoNames people (.containsAll addresses [home 1, home 2]) (List.cons_ne_nil _ _) ok
  cases same
  obtain rfl : _ = s := by
    rcases selects with same | ⟨_, compound⟩
    · exact SetQuery.select.inj same
    · cases compound
  have flat : Value.flattenAll [home 1, home 2] = [home 1, home 2] := rfl
  rw [flat] at keeps
  have once : ∀ k ∈ kept, k.NamedOnce := by
    intro k mem
    have asked : k = home 1 ∨ k = home 2 := by simpa using keeps.among mem
    rcases asked with rfl | rfl <;> simp [home, place, Value.NamedOnce, Value.FieldsNamedOnce]
  have apart : addresses.NamedApart [home 1, home 2] := by
    unfold PropertyPath.NamedApart
    decide +kernel
  have alone := separate (apart.among keeps.among)
  refine ⟨_, _, kept, tests, a, ok, yielded (by decide) peopleIdentified, reads, fun f mem => ?_⟩
  obtain ⟨joined, others⟩ := alone f (keeps.fieldsIn once addresses mem)
  exact ⟨joined, fun g mem' => others g (keeps.fieldsIn once addresses mem')⟩

def latitudeAt (place : String) : FieldAt :=
  ⟨.field (.field (.element addresses.last) ⟨"Address", place⟩) ⟨"Place", "geo"⟩, ⟨"Geo", "lat"⟩⟩

theorem latitudesShareTable : ∃ s m,
    people.compile (.leaf (.contains addresses (.literal homeAndWork))) false 0 = .ok (some (.select s)) m ∧
    ¬ ∃ a : FieldPath → Alias, ∀ f ∈ addresses.fieldsIn [homeAndWork], (∃ j ∈ s.joins, people.FieldJoined a f j) ∧
      ∀ g ∈ addresses.fieldsIn [homeAndWork], a f.path = a g.path → f = g := by
  have ok : people.compile (.leaf (.contains addresses (.literal homeAndWork))) false 0 = .ok _ _ := rfl
  have only : ∀ s m, people.compile (.leaf (.contains addresses (.literal homeAndWork))) false 0 = .ok (some (.select s)) m →
      ∀ j ∈ s.joins, j.table = "geo_lat" → j.tableAlias = .numbered 4 := by
    intro s m same
    cases ok.symm.trans same
    decide +kernel
  refine ⟨_, _, ok, fun ⟨a, separate⟩ => ?_⟩
  have atHome : latitudeAt "home" ∈ addresses.fieldsIn [homeAndWork] := by decide +kernel
  have atWork : latitudeAt "work" ∈ addresses.fieldsIn [homeAndWork] := by decide +kernel
  obtain ⟨⟨j, inside, joined⟩, alone⟩ := separate _ atHome
  obtain ⟨⟨j', inside', joined'⟩, _⟩ := separate _ atWork
  have table {place : String} {j : Join} (joined : people.FieldJoined a (latitudeAt place) j) : j.table = "geo_lat" := by
    obtain ⟨_, _, _, found, rfl⟩ := joined
    cases found
    rfl
  have shared : j.tableAlias = j'.tableAlias :=
    (only _ _ ok j inside (table joined)).trans (only _ _ ok j' inside' (table joined')).symm
  rw [joined.tableAlias, joined'.tableAlias] at shared
  exact absurd (alone _ atWork shared) (by decide)

end FieldPathsSample
end ObjectQuery
