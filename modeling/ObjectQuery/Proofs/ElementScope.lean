import ObjectQuery.Proofs.Declared

/-! Tests in scope: every column is, and the only pattern is that of the paths below the root. The tests
on elements are in scope, also where a field's table was joined for an element before. -/
namespace ObjectQuery
open Outcome

namespace Test

mutual
def atoms : Test → List Test
  | .all ts => atomsEach ts
  | .any ts => atomsEach ts
  | t => [t]
def atomsEach : List Test → List Test
  | [] => []
  | t :: ts => atoms t ++ atomsEach ts
end

def column? : Test → Option Column
  | .typeAmong c _ => some c
  | .isNull c => some c
  | .compare c _ _ => some c
  | .pathMatches c _ => some c
  | _ => none

def columns (t : Test) : List Column := t.atoms.filterMap column?

structure Within (ctx : Context) (aliases : List Alias) (t : Test) : Prop where
  columns : ∀ c ∈ t.columns, c.Within ctx aliases
  patterns : ∀ c pattern, .pathMatches c pattern ∈ t.atoms → pattern = ctx.layout.belowRoot

variable {ctx : Context} {aliases more : List Alias}

theorem atomsEachMem {ts : List Test} {a : Test} : a ∈ atomsEach ts ↔ ∃ t ∈ ts, a ∈ t.atoms := by
  induction ts with
  | nil => simp [atomsEach]
  | cons t ts ih => simp [atomsEach, ih]

theorem atomsMem {t : Test} {ts : List Test} {a : Test} (made : t.atoms = atomsEach ts) :
    a ∈ t.atoms ↔ ∃ s ∈ ts, a ∈ s.atoms := by rw [made, atomsEachMem]

theorem columnsMem {t : Test} {ts : List Test} {c : Column} (made : t.atoms = atomsEach ts) :
    c ∈ t.columns ↔ ∃ s ∈ ts, c ∈ s.columns := by
  simp only [columns, made, List.mem_filterMap, atomsEachMem]
  constructor
  · intro found
    obtain ⟨a, ⟨s, mem, inside⟩, same⟩ := found
    exact ⟨s, mem, a, inside, same⟩
  · intro found
    obtain ⟨s, mem, a, inside, same⟩ := found
    exact ⟨a, ⟨s, mem, inside⟩, same⟩

theorem Within.widen {t : Test} (within : t.Within ctx aliases) (subset : aliases ⊆ more) :
    t.Within ctx more :=
  ⟨fun c mem => (within.columns c mem).widen subset, within.patterns⟩

theorem withinMade {t : Test} {ts : List Test} (made : t.atoms = atomsEach ts) :
    t.Within ctx aliases ↔ ∀ s ∈ ts, s.Within ctx aliases := by
  constructor
  · intro within s mem
    have columns : ∀ c ∈ s.columns, c.Within ctx aliases := fun c inside =>
      within.columns c ((columnsMem made).mpr ⟨s, mem, inside⟩)
    have patterns : ∀ c pattern, .pathMatches c pattern ∈ s.atoms → pattern = ctx.layout.belowRoot :=
      fun c pattern inside => within.patterns c pattern ((atomsMem made).mpr ⟨s, mem, inside⟩)
    exact ⟨columns, patterns⟩
  · intro each
    have columns : ∀ c ∈ t.columns, c.Within ctx aliases := by
      intro c inside
      obtain ⟨s, mem, inside⟩ := (columnsMem made).mp inside
      exact (each s mem).columns c inside
    have patterns : ∀ c pattern, .pathMatches c pattern ∈ t.atoms → pattern = ctx.layout.belowRoot := by
      intro c pattern inside
      obtain ⟨s, mem, inside⟩ := (atomsMem made).mp inside
      exact (each s mem).patterns c pattern inside
    exact ⟨columns, patterns⟩

theorem withinAll {ts : List Test} : (Test.all ts).Within ctx aliases ↔ ∀ t ∈ ts, t.Within ctx aliases :=
  withinMade rfl

theorem withinAny {ts : List Test} : (Test.any ts).Within ctx aliases ↔ ∀ t ∈ ts, t.Within ctx aliases :=
  withinMade rfl

theorem withinNever : Test.never.Within ctx aliases :=
  ⟨fun c mem => by simp [columns, atoms, column?] at mem, fun c pattern mem => by simp [atoms] at mem⟩

theorem withinOn {t : Test} {c : Column} (within : c.Within ctx aliases) (read : t.columns = [c] := by rfl)
    (plain : ∀ d pattern, .pathMatches d pattern ∉ t.atoms := by simp [Test.atoms]) : t.Within ctx aliases := by
  have columns : ∀ d ∈ t.columns, d.Within ctx aliases := by
    intro d mem
    rw [read] at mem
    obtain rfl := List.mem_singleton.mp mem
    exact within
  exact ⟨columns, fun d pattern mem => absurd mem (plain d pattern)⟩

theorem withinBelow {c : Column} (within : c.Within ctx aliases) :
    (Test.pathMatches c ctx.layout.belowRoot).Within ctx aliases := by
  have columns : ∀ d ∈ (Test.pathMatches c ctx.layout.belowRoot).columns, d.Within ctx aliases := by
    intro d mem
    obtain rfl := List.mem_singleton.mp mem
    exact within
  have patterns : ∀ d pattern, .pathMatches d pattern ∈ (Test.pathMatches c ctx.layout.belowRoot).atoms →
      pattern = ctx.layout.belowRoot := by
    intro d pattern mem
    cases List.mem_singleton.mp mem
    rfl
  exact ⟨columns, patterns⟩

end Test

theorem Layout.typeTestWithin {ctx : Context} {aliases : List Alias} {a : Alias} (ids : List Int32)
    (mem : a ∈ aliases) : (ctx.layout.typeTest ids a).Within ctx aliases := by
  unfold typeTest
  split
  · exact Test.withinNever
  · have typeId : Column.Within ctx aliases ⟨a, ctx.layout.entityTypeId⟩ := ⟨mem, Context.isColumn⟩
    exact Test.withinOn typeId

def ChildrenWithin (aliases : List Alias) (children : Children) : Prop := ∀ c ∈ children, c.2 ∈ aliases

structure ElementSource.Within (ctx : Context) (aliases : List Alias) (s : ElementSource) : Prop where
  table : s.tableAlias ∈ aliases
  known : ∃ name, ctx.lookup name = .ok s.table

structure Tested (ctx : Context) (root : Alias) (r : Route) (tests : List Test) (children : Children)
    (r' : Route) : Prop where
  grows : r.Grows ctx root r'
  tests : ∀ t ∈ tests, t.Within ctx (r'.aliases root)
  children : ChildrenWithin (r'.aliases root) children

namespace Tested

variable {ctx : Context} {root : Alias} {r u r' : Route} {tests more : List Test} {children known : Children}

theorem append (first : Tested ctx root r tests children u) (next : Tested ctx root u more known r') :
    Tested ctx root r (tests ++ more) known r' := by
  have both : ∀ t ∈ tests ++ more, t.Within ctx (r'.aliases root) := by
    intro t mem
    rcases List.mem_append.mp mem with mem | mem
    · exact (first.tests t mem).widen next.grows.subset
    · exact next.tests t mem
  exact ⟨first.grows.trans next.grows, both, next.children⟩

theorem after (tested : Tested ctx root u tests children r') (grows : r.Grows ctx root u) :
    Tested ctx root r tests children r' := ⟨grows.trans tested.grows, tested.tests, tested.children⟩

end Tested

namespace Context

variable {ctx : Context} {root : Alias} {r r' : Route} {children children' : Children}

theorem childAliasGrows {parent : ElementSource} {field : QualifiedName} {t : AttributeTable} {joined : Alias}
    (source : parent.Within ctx (r.aliases root)) (found : ctx.lookup field = .ok t)
    (within : ChildrenWithin (r.aliases root) children)
    (ok : ctx.childAlias parent field t children r = .ok (joined, children') r') :
    r.Grows ctx root r' ∧ joined ∈ r'.aliases root ∧ ChildrenWithin (r'.aliases root) children' := by
  rcases childAliasOk ok with ⟨known, rfl, rfl⟩ | ⟨_, rfl, rfl, rfl⟩
  · obtain ⟨before, after, rfl, _⟩ := List.lookup_eq_some_iff.mp known
    -- joined for an element before
    exact ⟨.refl _, within ((parent.name, field), joined) (by simp), within⟩
  · have laid : Laid .left parent.tableAlias [⟨ctx.layout.qualified t.name,
        ctx.layout.ownerColumns ctx.layout.entityKey (some parent.table) t, !t.isCollection⟩] r (.numbered r.issued)
        ⟨r.issued + 1, r.joins ++ [⟨ctx.layout.qualified t.name, .numbered r.issued, .left,
          ctx.ownedBy (.object parent.tableAlias parent.table) (.numbered r.issued) t⟩]⟩ := ⟨rfl, rfl⟩
    have named : ∀ s, some parent.table = some s → ∃ n, ctx.lookup n = .ok s := by
      intro s same
      cases same
      exact source.known
    have key : ctx.IsColumn ctx.layout.entityKey := isColumn
    obtain ⟨grows, reached⟩ := laid.grows source.table fun k mem => by
      obtain rfl := List.mem_singleton.mp mem
      exact ⟨attributeTable found, List.cons_ne_nil _ _, ownerColumnsNamed found key named⟩
    refine ⟨grows, reached, fun c mem => ?_⟩
    rcases List.mem_append.mp mem with mem | mem
    · exact grows.subset (within c mem)
    · obtain rfl := List.mem_singleton.mp mem
      exact reached

theorem scalarTestWithin {c : Column} {v : Value} {t : Test} {aliases : List Alias}
    (within : c.Within ctx aliases) (ok : ctx.scalarTest c v = .ok t) : t.Within ctx aliases := by
  unfold scalarTest at ok
  split at ok
  · cases ok
    exact Test.withinOn within
  · obtain ⟨parameter, bound, ok⟩ := exceptBindOk.mp ok
    obtain rfl := exceptPureOk.mp ok
    exact Test.withinOn within

theorem conjunctionWithin {tests : List Test} {aliases : List Alias} (within : ∀ t ∈ tests, t.Within ctx aliases) :
    ∀ t ∈ conjunction tests, t.Within ctx aliases := by
  intro t mem
  unfold conjunction at mem
  split at mem
  · cases mem
  · obtain rfl := List.mem_singleton.mp mem
    exact Test.withinAll.mpr within

theorem plainTested {source : ElementSource} {v : Value} {tests : List Test}
    (plain : ∀ t fields, v ≠ .composite t fields) (here : source.Within ctx (r.aliases root))
    (within : ChildrenWithin (r.aliases root) children)
    (ok : ctx.valueTests source v children r = .ok (tests, children') r') :
    Tested ctx root r tests children' r' := by
  obtain ⟨test, made, rfl, rfl, rfl⟩ := (plainTestsOk plain).mp ok
  have tests : ∀ t ∈ [test], t.Within ctx (r.aliases root) := by
    intro t mem
    obtain rfl := List.mem_singleton.mp mem
    exact scalarTestWithin ⟨here.table, isColumn⟩ made
  exact ⟨.refl _, tests, within⟩

mutual
theorem valueTested {source : ElementSource} {r r' : Route} {children children' : Children}
    {tests : List Test} (here : source.Within ctx (r.aliases root))
    (within : ChildrenWithin (r.aliases root) children) :
    (v : Value) → ctx.valueTests source v children r = .ok (tests, children') r' →
      Tested ctx root r tests children' r'
  | .composite _ fields, ok => by
    obtain ⟨inner, tested, rfl⟩ := compositeTestsOk ok
    have fieldsTested := fieldTested here within fields tested
    exact ⟨fieldsTested.grows, conjunctionWithin fieldsTested.tests, fieldsTested.children⟩
  | .null, ok => plainTested (by simp) here within ok
  | .bool _, ok => plainTested (by simp) here within ok
  | .int _, ok => plainTested (by simp) here within ok
  | .float _, ok => plainTested (by simp) here within ok
  | .text _, ok => plainTested (by simp) here within ok
  | .date _, ok => plainTested (by simp) here within ok
  | .timestamp _, ok => plainTested (by simp) here within ok
  | .enum _ _, ok => plainTested (by simp) here within ok
  | .collection _, ok => plainTested (by simp) here within ok
theorem fieldTested {parent : ElementSource} {r r' : Route} {children children' : Children}
    {tests : List Test} (here : parent.Within ctx (r.aliases root))
    (within : ChildrenWithin (r.aliases root) children) :
    (fields : List (QualifiedName × Value)) →
      ctx.fieldTests parent fields children r = .ok (tests, children') r' →
      Tested ctx root r tests children' r'
  | [], ok => by
    obtain ⟨same, rfl⟩ := pureOk.mp ok
    cases same
    exact ⟨.refl _, by simp, within⟩
  | (field, v) :: rest, ok => by
    obtain ⟨t, joined, first, more, _, _, _, w, found, child, value, others, rfl⟩ := fieldTestsOk ok
    obtain ⟨grows, reached, kept⟩ := childAliasGrows here found within child
    have tested := valueTested ⟨reached, field, found⟩ kept v value
    have there : parent.Within ctx (w.aliases root) :=
      ⟨tested.grows.subset (grows.subset here.table), here.known⟩
    have testedRest := fieldTested there tested.children rest others
    exact (tested.append testedRest).after grows
end

theorem elementTested {source : ElementSource} {v : Value} {test : Test}
    (here : source.Within ctx (r.aliases root)) (within : ChildrenWithin (r.aliases root) children)
    (ok : ctx.elementTest source v children r = .ok (test, children') r') :
    Tested ctx root r [test] children' r' := by
  obtain ⟨tests, value, rfl⟩ := elementTestOk ok
  have tested := valueTested here within v value
  have path : Column.Within ctx (r'.aliases root) ⟨source.tableAlias, ctx.layout.collectionPath⟩ :=
    ⟨tested.grows.subset here.table, isColumn⟩
  have whole := Test.withinAll.mpr (List.forall_mem_cons.mpr ⟨Test.withinBelow path, tested.tests⟩)
  exact ⟨tested.grows, List.forall_mem_singleton.mpr whole, tested.children⟩

theorem elementsTested {source : ElementSource} {elements : List Value} {tests : List Test}
    (here : source.Within ctx (r.aliases root)) (within : ChildrenWithin (r.aliases root) children)
    (ok : ctx.elementTests source elements children r = .ok (tests, children') r') :
    Tested ctx root r tests children' r' := by
  induction elements generalizing r children tests with
  | nil =>
    obtain ⟨same, rfl⟩ := pureOk.mp ok
    cases same
    exact ⟨.refl _, by simp, within⟩
  | cons v rest ih =>
    obtain ⟨test, more, _, _, first, others, rfl⟩ := elementTestsOk ok
    have tested := elementTested here within first
    have testedRest := ih ⟨tested.grows.subset here.table, here.known⟩ tested.children others
    exact tested.append testedRest

theorem layCollectionGrows {p : PropertyPath} {start : Alias} {kind : JoinKind} {target : PropertyTarget}
    {source : ElementSource} (here : start ∈ r.aliases root)
    (ok : ctx.layCollection p start kind r = .ok (target, source) r') :
    r.Grows ctx root r' ∧ target.value.Within ctx (r'.aliases root) ∧ source.Within ctx (r'.aliases root) := by
  obtain ⟨reached, u, path, ok⟩ := bindOk.mp ok
  obtain ⟨t, w, looked, ok⟩ := bindOk.mp ok
  obtain ⟨found, rfl⟩ := ofExceptOk.mp looked
  split at ok
  · obtain ⟨same, rfl⟩ := pureOk.mp ok
    cases same
    obtain ⟨grows, tableAlias, value⟩ := layPathGrows here path
    exact ⟨grows, value, tableAlias, _, found⟩
  · exact (throwOk.mp ok).elim

end Context
end ObjectQuery
