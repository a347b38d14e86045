import ObjectQuery.Compile.Request
import ObjectQuery.Proofs.Issued

/-! Compiled requests: the root takes the first alias, the members the next ones, and the tables that
are joined for the order the last ones. -/
namespace ObjectQuery
open Outcome

theorem Restriction.membershipText (l : Layout) (root : Alias) (members : SetQuery Sql.Select) :
    (membership l root members).sql = "(" ++ ((l.keyOf root).text ++ ", " ++ (l.identityOf root).text) ++ ")" ++
      " IN " ++ ("(" ++ members.sql ++ ")") := by
  rw [← String.toList_inj]
  simp [membership]

def SortPlan.Within (ctx : Context) (root : Alias) (s : SortPlan) : Prop :=
  ∀ c ∈ s.columns, c.column.Within ctx (s.route.aliases root)

namespace Context

variable {ctx : Context} {root : Alias} {s s' : SortPlan}

theorem sortLayOk {α : Type} {lay : Lay α} {a : α} :
    Sorting.lay lay s = .ok a s' ↔ ∃ r, lay s.route = .ok a r ∧ { s with route := r } = s' := by
  unfold Sorting.lay
  split
  · next b r laid =>
    simp only [laid, EStateM.Result.ok.injEq]
    constructor
    · intro same
      obtain ⟨rfl, rfl⟩ := same
      exact ⟨r, ⟨rfl, rfl⟩, rfl⟩
    · intro same
      obtain ⟨r', ⟨rfl, rfl⟩, rfl⟩ := same
      exact ⟨rfl, rfl⟩
  · next e r failed => simp [failed]

theorem sortLayError {α : Type} {lay : Lay α} {e : CompileError} :
    Sorting.lay lay s = .error e s' ↔ ∃ r, lay s.route = .error e r ∧ { s with route := r } = s' := by
  unfold Sorting.lay
  split
  · next a r laid => simp [laid]
  · next e' r failed =>
    simp only [failed, EStateM.Result.error.injEq]
    constructor
    · rintro ⟨rfl, rfl⟩
      exact ⟨r, ⟨rfl, rfl⟩, rfl⟩
    · rintro ⟨_, ⟨rfl, rfl⟩, rfl⟩
      exact ⟨rfl, rfl⟩

theorem sortPushOk {c : SortColumn} :
    Sorting.push c s = .ok () s' ↔ { s with columns := s.columns ++ [c] } = s' := by
  change EStateM.Result.ok () ({ s with columns := s.columns ++ [c] } : SortPlan) = .ok () s' ↔ _
  simp

theorem sortColumnGrows {p : PropertyPath} {r r' : Route} {c : Column}
    (ok : ctx.laySortColumn p root r = .ok c r') : r.Grows ctx root r' ∧ c.Within ctx (r'.aliases root) := by
  obtain ⟨many, u, asked, ok⟩ := bindOk.mp ok
  obtain ⟨_, rfl⟩ := ofExceptOk.mp asked
  split at ok
  · exact (throwBindOk.mp ok).elim
  · obtain ⟨target, v, path, ok⟩ := bindOk.mp ok
    split at ok
    · exact (throwBindOk.mp ok).elim
    · obtain ⟨rfl, rfl⟩ := pureOk.mp ok
      obtain ⟨grows, _, value⟩ := layPathGrows List.mem_cons_self path
      exact ⟨grows, value⟩

theorem sortPushedWithin {c : SortColumn} {r : Route} (within : s.Within ctx root)
    (grows : s.route.Grows ctx root r) (added : c.column.Within ctx (r.aliases root)) :
    SortPlan.Within ctx root ⟨r, s.columns ++ [c]⟩ := by
  intro d mem
  rcases List.mem_append.mp mem with mem | mem
  · exact (within d mem).widen grows.subset
  · obtain rfl := List.mem_singleton.mp mem
    exact added

theorem sortByGrows {seen : List PropertyPath} {keys : List SortKey} (within : s.Within ctx root)
    (ok : ctx.sortBy root seen keys s = .ok () s') : s.route.Grows ctx root s'.route ∧ s'.Within ctx root := by
  induction keys generalizing seen s with
  | nil =>
    obtain ⟨_, rfl⟩ := pureOk.mp ok
    exact ⟨.refl _, within⟩
  | cons key rest ih =>
    unfold sortBy at ok
    split at ok
    · exact ih within ok
    · obtain ⟨c, u, column, ok⟩ := bindOk.mp ok
      obtain ⟨_, v, push, ok⟩ := bindOk.mp ok
      obtain ⟨r, laid, rfl⟩ := sortLayOk.mp column
      obtain rfl := sortPushOk.mp push
      obtain ⟨grows, added⟩ := sortColumnGrows laid
      obtain ⟨more, kept⟩ := ih (sortPushedWithin within grows added) ok
      exact ⟨grows.trans more, kept⟩

theorem sortGrows {byIdentity : Bool} {keys : List SortKey} (within : s.Within ctx root)
    (ok : ctx.sort root byIdentity keys s = .ok () s') :
    s.route.Grows ctx root s'.route ∧ s'.Within ctx root := by
  obtain ⟨_, u, keyed, ok⟩ := bindOk.mp ok
  obtain ⟨grows, kept⟩ := sortByGrows within keyed
  obtain ⟨now, v, got, ok⟩ := bindOk.mp ok
  cases got
  split at ok
  · obtain rfl := sortPushOk.mp ok
    exact ⟨grows, sortPushedWithin kept (.refl _) (Layout.identityWithin List.mem_cons_self)⟩
  · obtain ⟨_, rfl⟩ := pureOk.mp ok
    exact ⟨grows, kept⟩

theorem restrictOk {r : Request} {restriction : Restriction} {n m : Nat}
    (ok : ctx.restrict r n = .ok restriction m) :
    ∃ ids, restriction.root = .numbered n ∧
      (ctx.schema.typeIds r.resultType = some ids ∧ restriction.typeIds = ids) ∧
      ((r.predicate = none ∧ restriction.members = none ∧ n + 1 = m) ∨
        ∃ p, r.predicate = some p ∧ (Scope.mk ctx ids).compile p false (n + 1) = .ok restriction.members m) := by
  unfold restrict at ok
  cases known : ctx.schema.typeIds r.resultType with
  | none =>
    rw [known] at ok
    exact (throwOk.mp ok).elim
  | some ids =>
    rw [known] at ok
    obtain ⟨root, u, given, ok⟩ := bindOk.mp ok
    cases given
    cases asked : r.predicate with
    | none =>
      rw [asked] at ok
      obtain ⟨rfl, rfl⟩ := pureOk.mp ok
      exact ⟨ids, rfl, ⟨rfl, rfl⟩, .inl ⟨rfl, rfl, rfl⟩⟩
    | some p =>
      rw [asked] at ok
      obtain ⟨members, v, compiled, ok⟩ := bindOk.mp ok
      obtain ⟨rfl, rfl⟩ := pureOk.mp ok
      exact ⟨ids, rfl, ⟨rfl, rfl⟩, .inr ⟨p, rfl, compiled⟩⟩

theorem restrictIssued {r : Request} {restriction : Restriction} {n m : Nat}
    (ok : ctx.restrict r n = .ok restriction m) :
    restriction.root = .numbered n ∧ Scope.Issued ctx (n + 1) m restriction.members := by
  obtain ⟨ids, root, _, ⟨_, none, rfl⟩ | ⟨p, _, compiled⟩⟩ := restrictOk ok
  · rw [none]
    exact ⟨root, Nat.le_refl _, fun p same => by cases same⟩
  · exact ⟨root, Scope.compileIssued p compiled⟩

structure RowsPlanned (ctx : Context) (r : Request) (plan : RowPlan) (n k m : Nat) : Prop where
  restricted : ctx.restrict r n = .ok plan.restriction k
  joins : Route.Grows ctx plan.restriction.root ⟨k, []⟩ ⟨m, plan.joins⟩
  columns : ∀ c ∈ plan.sortColumns,
    c.column.Within ctx (plan.restriction.root :: plan.joins.map (·.tableAlias))

theorem rowPlanSorted {r : Request} {plan : RowPlan} {n m : Nat} (ok : ctx.rowPlan r n = .ok plan m) :
    ∃ k, ctx.restrict r n = .ok plan.restriction k ∧
      ctx.sort plan.restriction.root r.paginated r.orderBy ⟨⟨k, []⟩, []⟩ =
        .ok () ⟨⟨m, plan.joins⟩, plan.sortColumns⟩ := by
  obtain ⟨restriction, k, restricted, ok⟩ := bindOk.mp ok
  obtain ⟨sorted, u, sorting, ok⟩ := bindOk.mp ok
  obtain ⟨rfl, rfl⟩ := pureOk.mp ok
  refine ⟨k, restricted, ?_⟩
  cases sort : ctx.sort restriction.root r.paginated r.orderBy ⟨⟨k, []⟩, []⟩ with
  | ok _ s =>
    simp only [sort] at sorting
    cases sorting
    rfl
  | error e s =>
    simp only [sort] at sorting
    cases sorting

theorem rowPlanOk {r : Request} {plan : RowPlan} {n m : Nat} (ok : ctx.rowPlan r n = .ok plan m) :
    ∃ k, RowsPlanned ctx r plan n k m := by
  obtain ⟨k, restricted, sort⟩ := rowPlanSorted ok
  obtain ⟨grows, within⟩ := sortGrows (by simp [SortPlan.Within]) sort
  exact ⟨k, restricted, grows, within⟩

theorem nestedProper {n m : Nat} {part : Option SetPlan} (issued : Scope.Issued ctx n m part) :
    (∀ s ∈ part.elim [] SetQuery.statements, ∃ a b, n ≤ a ∧ b ≤ m ∧ s.Proper ctx a b) ∧
    ((part.elim [] SetQuery.statements).flatMap Selection.aliases).Nodup := by
  cases part with
  | none => exact ⟨by simp, List.nodup_nil⟩
  | some p =>
    have proper := issued.plan p rfl
    exact ⟨proper.each, proper.distinct⟩

theorem nestedBetween {n m : Nat} {part : Option SetPlan} (issued : Scope.Issued ctx n m part) {a : Alias}
    (mem : a ∈ (part.elim [] SetQuery.statements).flatMap Selection.aliases) :
    ∃ i, n ≤ i ∧ i < m ∧ .numbered i = a := by
  cases part with
  | none => cases mem
  | some p => exact (issued.plan p rfl).between mem

theorem resultOk {α : Type} {x : Compile α} {a : α} : x.result = .ok a ↔ ∃ n, x 0 = .ok a n := by
  unfold Compile.result
  split
  · next b n done => simp [done]
  · next e n failed => simp [failed]

theorem compileRowsOk {r : Request} {q : CompiledQuery} :
    ctx.compileRows r = .ok q ↔
      ∃ plan issued, ctx.rowPlan r 0 = .ok plan issued ∧ .ofSelect (plan.toSelect ctx.layout) = q := by
  simp only [compileRows, exceptBindOk, exceptPureOk, resultOk]
  constructor
  · intro ok
    obtain ⟨plan, ⟨issued, planned⟩, same⟩ := ok
    exact ⟨plan, issued, planned, same⟩
  · intro ok
    obtain ⟨plan, issued, planned, same⟩ := ok
    exact ⟨plan, ⟨issued, planned⟩, same⟩

theorem compileCountOk {r : Request} {q : CompiledQuery} :
    ctx.compileCount r = .ok q ↔ ∃ restriction issued, ctx.restrict r 0 = .ok restriction issued ∧
      .ofSelect (restriction.countStatement ctx.layout) = q := by
  simp only [compileCount, exceptBindOk, exceptPureOk, resultOk]
  constructor
  · intro ok
    obtain ⟨restriction, ⟨issued, restricted⟩, same⟩ := ok
    exact ⟨restriction, issued, restricted, same⟩
  · intro ok
    obtain ⟨restriction, issued, restricted, same⟩ := ok
    exact ⟨restriction, ⟨issued, restricted⟩, same⟩

end Context

namespace RequestSample

def people : Context where
  schema := (((((Schema.empty.withTypeIds "Person" [1]).withAttribute
    ⟨"Person", "name"⟩ (.of "person_name" 0)).withAttribute
    ⟨"Person", "friends"⟩ (.of "person_friends" 0)).withAttribute
    ⟨"Person", "addresses"⟩ (.of "person_addresses" 1)).withAttribute
    ⟨"Address", "city"⟩ (.of "address_city" 0))
  layout := .default

def name : PropertyPath := .of ⟨"Person", "name"⟩

def friendsName : PropertyPath := ⟨some (.many ⟨"Person", "friends"⟩), [], ⟨"Person", "name"⟩⟩

def inRome : Value := .composite "Address" [(⟨"Address", "city"⟩, .text "Rome")]

def request : Request where
  resultType := "Person"
  predicate := some (.not (.any [
    .leaf (.compare friendsName .eq (.literal (.text "Bob"))),
    .leaf (.containsAll (.of ⟨"Person", "addresses"⟩) (.literal (.collection [inRome, .null])))]))
  orderBy := [⟨name, .ascending⟩]
  first := none
  max := some 10

end RequestSample
end ObjectQuery
