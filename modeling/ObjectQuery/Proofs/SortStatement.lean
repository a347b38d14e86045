import ObjectQuery.Proofs.SharedRestriction
import ObjectQuery.Proofs.Traversal

/-! Order of a statement. The first key on each property counts, and what a key adds to a statement is
appended to it, also when a later key fails. -/
namespace ObjectQuery
open Outcome

def firstKeys : List SortKey → List SortKey
  | [] => []
  | k :: rest => k :: (firstKeys rest).filter (·.property ≠ k.property)

theorem filterWithout {p : PropertyPath → Bool} {known : PropertyPath} (refused : p known = false)
    (keys : List SortKey) : (keys.filter (·.property ≠ known)).filter (p ·.property) = keys.filter (p ·.property) := by
  rw [List.filter_filter]
  refine List.filter_congr fun other _ => ?_
  by_cases same : other.property = known
  · rw [same, refused, Bool.false_and]
  · rw [decide_eq_true same, Bool.and_true]

theorem firstKeysFilter (p : PropertyPath → Bool) (keys : List SortKey) :
    firstKeys (keys.filter (p ·.property)) = (firstKeys keys).filter (p ·.property) := by
  induction keys with
  | nil => rfl
  | cons k rest ih =>
    rw [firstKeys, List.filter_cons, List.filter_cons]
    cases kept : p k.property with
    | true => rw [if_pos rfl, if_pos rfl, firstKeys, ih, List.filter_comm]
    | false => rw [if_neg Bool.false_ne_true, if_neg Bool.false_ne_true, ih, filterWithout kept]

theorem firstKeysAgain (keys : List SortKey) : firstKeys (firstKeys keys) = firstKeys keys := by
  induction keys with
  | nil => rfl
  | cons k rest ih =>
    have inner := firstKeysFilter (fun p => decide (p ≠ k.property)) (firstKeys rest)
    rw [firstKeys, firstKeys, inner, ih, List.filter_filter]
    simp only [Bool.and_self]

namespace Context

variable {ctx : Context} {root : Alias}

def sortKey (ctx : Context) (root : Alias) (k : SortKey) : Sorting Unit := do
  let column ← Sorting.lay (ctx.laySortColumn k.property root)
  Sorting.push ⟨column, k.direction⟩

theorem sortByFirst (seen : List PropertyPath) (keys : List SortKey) :
    ctx.sortBy root seen keys = ((firstKeys keys).filter (·.property ∉ seen)).forM (ctx.sortKey root) := by
  induction keys generalizing seen with
  | nil => rfl
  | cons k rest ih =>
    rw [firstKeys, sortBy, List.filter_cons]
    by_cases before : k.property ∈ seen
    · have refused : decide (k.property ∉ seen) = false := by simp [before]
      have same := filterWithout (p := fun property => decide (property ∉ seen)) refused (firstKeys rest)
      rw [if_pos before, refused, if_neg Bool.false_ne_true, same, ih]
    · have same : ((firstKeys rest).filter (·.property ≠ k.property)).filter (·.property ∉ seen) =
          (firstKeys rest).filter (·.property ∉ k.property :: seen) := by
        rw [List.filter_filter]
        exact List.filter_congr fun other _ => by simp [Bool.and_comm]
      rw [if_neg before, if_pos (by simp [before]), same, ih]
      exact (bind_assoc _ _ _).symm

theorem sortByUnseen (keys : List SortKey) :
    ctx.sortBy root [] keys = (firstKeys keys).forM (ctx.sortKey root) := by
  rw [sortByFirst, List.filter_eq_self.mpr (by simp)]

theorem sortFirst (byIdentity : Bool) (keys : List SortKey) :
    ctx.sort root byIdentity keys = ctx.sort root byIdentity (firstKeys keys) := by
  unfold sort
  rw [sortByUnseen, sortByUnseen, firstKeysAgain]

theorem sortColumnStopped {p : PropertyPath} {r r' : Route} {e : CompileError}
    (failed : ctx.laySortColumn p root r = .error e r') :
    ∃ links reached, Laid .left root links r reached r' := by
  rcases bindError.mp failed with failed | ⟨many, u, asked, failed⟩
  · obtain ⟨_, rfl⟩ := ofExceptError.mp failed
    exact ⟨[], root, .nil root _⟩
  · obtain ⟨_, rfl⟩ := ofExceptOk.mp asked
    split at failed
    · cases failed
      exact ⟨[], root, .nil root _⟩
    · rcases bindError.mp failed with failed | ⟨target, v, path, failed⟩
      · obtain ⟨passed, a, laid, _⟩ := layPathStopped failed
        exact ⟨_, a, laid⟩
      · obtain ⟨passed, a, _, laid, _⟩ := layPathThrough path
        split at failed <;> cases failed
        exact ⟨_, a, laid⟩

inductive Sorted (ctx : Context) (root : Alias) (keys : List SortKey) (s : SortPlan) :
    EStateM.Result CompileError SortPlan Unit → Prop where
  | all {columns s'} (laid : SortLaid ctx root keys s.route columns s'.route)
      (pushed : s'.columns = s.columns ++ columns) : Sorted ctx root keys s (.ok () s')
  | part {before key rest columns u e s'} (split : keys = before ++ key :: rest)
      (laid : SortLaid ctx root before s.route columns u)
      (failed : ctx.laySortColumn key.property root u = .error e s'.route)
      (pushed : s'.columns = s.columns ++ columns) : Sorted ctx root keys s (.error e s')

theorem Sorted.cons {k : SortKey} {keys : List SortKey} {links : List Link} {reached : Alias} {s : SortPlan}
    {r : Route} {outcome : EStateM.Result CompileError SortPlan Unit} (known : ctx.pathLinks k.property = .ok links)
    (single : ∀ l ∈ links, l.single = true) (laid : Laid .left root links s.route reached r)
    (rest : Sorted ctx root keys ⟨r, s.columns ++ [⟨⟨reached, ctx.layout.valueColumn k.property⟩, k.direction⟩]⟩
      outcome) : Sorted ctx root (k :: keys) s outcome := by
  cases rest with
  | all onward pushed => exact .all (.cons known single laid onward) (by rw [pushed, List.append_assoc]; rfl)
  | part split onward failed pushed =>
    exact .part (by rw [split]; rfl) (.cons known single laid onward) failed
      (by rw [pushed, List.append_assoc]; rfl)

theorem keysSorted (keys : List SortKey) (s : SortPlan) :
    Sorted ctx root keys s (keys.forM (ctx.sortKey root) s) := by
  induction keys generalizing s with
  | nil => exact .all (.nil _) (List.append_nil _).symm
  | cons k rest ih =>
    cases found : ctx.laySortColumn k.property root s.route with
    | error e r =>
      have stopped : ctx.sortKey root k s = .error e { s with route := r } :=
        bindError.mpr (.inl (sortLayError.mpr ⟨r, found, rfl⟩))
      have whole : (k :: rest).forM (ctx.sortKey root) s = .error e { s with route := r } :=
        bindError.mpr (.inl stopped)
      rw [whole]
      exact .part (show k :: rest = [] ++ k :: rest from rfl) (.nil _) found (List.append_nil _).symm
    | ok c r =>
      have sorted : ctx.sortKey root k s = .ok () ⟨r, s.columns ++ [⟨c, k.direction⟩]⟩ :=
        bindOk.mpr ⟨c, _, sortLayOk.mpr ⟨r, found, rfl⟩, sortPushOk.mpr rfl⟩
      have onward : (k :: rest).forM (ctx.sortKey root) s =
          rest.forM (ctx.sortKey root) ⟨r, s.columns ++ [⟨c, k.direction⟩]⟩ := bindPassed sorted
      obtain ⟨links, reached, known, single, laid, rfl⟩ := sortColumnLaid found
      rw [onward]
      exact .cons known single laid (ih _)

theorem sortByRan (keys : List SortKey) (s : SortPlan) :
    Sorted ctx root (firstKeys keys) s (ctx.sortBy root [] keys s) := by
  rw [sortByUnseen]
  exact keysSorted (firstKeys keys) s

end Context

def SortColumn.item (c : SortColumn) : Sql.OrderItem := ⟨c.column.text, c.direction.toSql⟩

structure Sql.Select.Appended (s : Select) (laid : List Join) (items : List OrderItem) (s' : Select) : Prop where
  joins : s'.joins = s.joins ++ laid
  left : ∀ j ∈ laid, j.kind = .left
  orderBy : s'.orderBy = s.orderBy ++ items
  select : ∃ added, s'.select = s.select ++ added ∧ added.Nodup ∧
    ∀ x, x ∈ added ↔ x ∈ items.map (·.expression) ∧ x ∉ s.select
  shown : ∀ i ∈ items, i.expression ∈ s'.select
  others : s' = { s with joins := s'.joins, select := s'.select, orderBy := s'.orderBy }

theorem Sql.Select.sortedAppends (s : Select) {joins : List ObjectQuery.Join} (columns : List SortColumn)
    (left : ∀ j ∈ joins, j.kind = .left) :
    s.Appended (joins.map Join.toSql) (columns.map SortColumn.item) (s.sorted joins columns) := by
  obtain ⟨added, folded, distinct, members⟩ := showingAdded s.select (columns.map (·.column.text))
  have expressions : (columns.map SortColumn.item).map (·.expression) = columns.map (·.column.text) := by
    rw [List.map_map]
    rfl
  have select : (s.sorted joins columns).select = s.select ++ added := folded
  refine ⟨rfl, List.forall_mem_map.mpr left, rfl, ⟨added, select, distinct, expressions ▸ members⟩, ?_, rfl⟩
  intro i mem
  have named : i.expression ∈ columns.map (·.column.text) := expressions ▸ List.mem_map_of_mem mem
  rw [select, List.mem_append]
  by_cases before : i.expression ∈ s.select
  · exact .inl before
  · exact .inr ((members _).mpr ⟨named, before⟩)

namespace Context

variable {ctx : Context} {root : Alias}

theorem SortLaid.directions {keys : List SortKey} {columns : List SortColumn} {r r' : Route}
    (laid : SortLaid ctx root keys r columns r') : columns.map (·.direction) = keys.map (·.direction) := by
  induction laid with
  | nil r => rfl
  | cons known single laid tail ih => rw [List.map_cons, List.map_cons, ih]

def sortItems (ctx : Context) (root : Alias) (paginated : Bool) (before : List Sql.OrderItem)
    (columns : List SortColumn) : List Sql.OrderItem :=
  if paginated = true ∧ before = [] ∧ columns = [] then [⟨(ctx.layout.identityOf root).text, .asc⟩]
  else columns.map SortColumn.item

inductive StatementSorted (ctx : Context) (root : Alias) (keys : List SortKey) (paginated : Bool) (d : Draft) :
    EStateM.Result CompileError Draft Unit → Prop where
  | all {columns joins d'} (laid : SortLaid ctx root keys ⟨d.issued, []⟩ columns ⟨d'.issued, joins⟩)
      (directions : columns.map (·.direction) = keys.map (·.direction))
      (appended : d.statement.Appended (joins.map Join.toSql)
        (ctx.sortItems root paginated d.statement.orderBy columns) d'.statement) :
      StatementSorted ctx root keys paginated d (.ok () d')
  | part {before key rest columns joins u e d'} (split : keys = before ++ key :: rest)
      (laid : SortLaid ctx root before ⟨d.issued, []⟩ columns u)
      (directions : columns.map (·.direction) = before.map (·.direction))
      (failed : ctx.laySortColumn key.property root u = .error e ⟨d'.issued, joins⟩)
      (appended : d.statement.Appended (joins.map Join.toSql) (columns.map SortColumn.item) d'.statement) :
      StatementSorted ctx root keys paginated d (.error e d')

theorem sortItemsMap (paginated : Bool) (before : List Sql.OrderItem) (columns : List SortColumn) :
    (if (paginated && before.isEmpty) && columns.isEmpty then [⟨ctx.layout.identityOf root, .ascending⟩]
      else columns).map SortColumn.item = ctx.sortItems root paginated before columns := by
  unfold sortItems
  by_cases unsorted : paginated = true ∧ before = [] ∧ columns = []
  · obtain ⟨rfl, rfl, rfl⟩ := unsorted
    rfl
  · have other : ¬((paginated && before.isEmpty) && columns.isEmpty) = true := by
      simpa [and_assoc] using unsorted
    rw [if_neg unsorted, if_neg other]

theorem sortingAppends (ctx : Context) (keys : List SortKey) (root : Alias) (paginated : Bool) (d : Draft) :
    ctx.sortStatement keys root paginated d = ctx.sortStatement (firstKeys keys) root paginated d ∧
      StatementSorted ctx root (firstKeys keys) paginated d (ctx.sortStatement keys root paginated d) := by
  have first : ctx.sortStatement keys root paginated d = ctx.sortStatement (firstKeys keys) root paginated d := by
    unfold sortStatement
    rw [sortFirst]
  refine ⟨first, ?_⟩
  have ran : Sorted ctx root (firstKeys keys) ⟨⟨d.issued, []⟩, []⟩ (ctx.sortBy root [] keys ⟨⟨d.issued, []⟩, []⟩) :=
    sortByRan keys _
  unfold sortStatement
  generalize keyed : ctx.sortBy root [] keys ⟨⟨d.issued, []⟩, []⟩ = outcome at ran
  cases ran with
  | @all columns s laid pushed =>
    obtain rfl : s.columns = columns := pushed
    have appended := d.statement.sortedAppends (if (paginated && d.statement.orderBy.isEmpty) && s.columns.isEmpty
      then [⟨ctx.layout.identityOf root, .ascending⟩] else s.columns) (laid.leftJoins (List.forall_mem_nil _))
    rw [sortItemsMap] at appended
    rw [sortDone keyed]
    exact .all laid laid.directions appended
  | @part before key rest columns u e s split laid failed pushed =>
    obtain rfl : s.columns = columns := pushed
    obtain ⟨links, reached, there⟩ := sortColumnStopped failed
    have stopped : ctx.sort root (paginated && d.statement.orderBy.isEmpty) keys ⟨⟨d.issued, []⟩, []⟩ = .error e s :=
      bindError.mpr (.inl keyed)
    rw [stopped]
    exact .part split laid laid.directions failed
      (d.statement.sortedAppends s.columns (there.joinsKind (laid.leftJoins (List.forall_mem_nil _))))

end Context

namespace RequestSample

def byNamesThenFriends : List SortKey := [⟨name, .ascending⟩, ⟨name, .descending⟩, ⟨friendsName, .ascending⟩]

theorem namesSortedFriendsRefused : ∃ e d',
    people.sortStatement byNamesThenFriends (.numbered 0) true ⟨1, .of "entities" "t0"⟩ = .error e d' ∧
    people.StatementSorted (.numbered 0) [⟨name, .ascending⟩, ⟨friendsName, .ascending⟩] true
      ⟨1, .of "entities" "t0"⟩ (.error e d') ∧
    d'.issued = 2 ∧ d'.statement.orderBy.map (·.sql) = ["t1.qname_value ASC"] := by
  obtain ⟨_, sorted⟩ := people.sortingAppends byNamesThenFriends (.numbered 0) true ⟨1, .of "entities" "t0"⟩
  exact ⟨_, _, rfl, sorted, rfl, by decide⟩

end RequestSample
end ObjectQuery
