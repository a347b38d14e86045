import ObjectQuery.Proofs.Requested

/-! What sorting adds to the rows of a request. Every kept key adds the left joins along its path, each to
a table with one row for a value, and the column at its end. -/
namespace ObjectQuery
open Outcome

theorem Laid.joinsKind {kind : JoinKind} {start reached : Alias} {links : List Link} {r r' : Route}
    (laid : Laid kind start links r reached r') (before : ∀ j ∈ r.joins, j.kind = kind) :
    ∀ j ∈ r'.joins, j.kind = kind := by
  intro j mem
  rw [laid.route] at mem
  rcases List.mem_append.mp mem with mem | mem
  · exact before j mem
  · exact Link.joinsKind mem

namespace Context

variable {ctx : Context} {root : Alias}

inductive SortLaid (ctx : Context) (root : Alias) : List SortKey → Route → List SortColumn → Route → Prop where
  | nil (r) : SortLaid ctx root [] r [] r
  | cons {key keys links reached columns r u r'} (known : ctx.pathLinks key.property = .ok links)
      (single : ∀ k ∈ links, k.single = true) (laid : Laid .left root links r reached u)
      (tail : SortLaid ctx root keys u columns r') :
      SortLaid ctx root (key :: keys) r
        (⟨⟨reached, ctx.layout.valueColumn key.property⟩, key.direction⟩ :: columns) r'

theorem SortLaid.columnsNil {keys : List SortKey} {columns : List SortColumn} {r r' : Route}
    (laid : SortLaid ctx root keys r columns r') : columns = [] ↔ keys = [] := by
  cases laid <;> simp

theorem SortLaid.leftJoins {keys : List SortKey} {columns : List SortColumn} {r r' : Route}
    (laid : SortLaid ctx root keys r columns r') (left : ∀ j ∈ r.joins, j.kind = .left) :
    ∀ j ∈ r'.joins, j.kind = .left := by
  induction laid with
  | nil r => exact left
  | cons known single laid tail ih => exact ih (laid.joinsKind left)

theorem sortColumnLaid {p : PropertyPath} {r r' : Route} {c : Column}
    (ok : ctx.laySortColumn p root r = .ok c r') :
    ∃ links reached, ctx.pathLinks p = .ok links ∧ (∀ k ∈ links, k.single = true) ∧
      Laid .left root links r reached r' ∧ ⟨reached, ctx.layout.valueColumn p⟩ = c := by
  obtain ⟨many, u, asked, ok⟩ := bindOk.mp ok
  obtain ⟨one, rfl⟩ := ofExceptOk.mp asked
  split at ok
  · exact (throwBindOk.mp ok).elim
  · next single =>
    obtain ⟨target, v, path, ok⟩ := bindOk.mp ok
    split at ok
    · exact (throwBindOk.mp ok).elim
    · next scalar =>
      obtain ⟨rfl, rfl⟩ := pureOk.mp ok
      obtain ⟨links, there⟩ := layPathLaid path
      rw [Bool.eq_false_iff.mpr single] at one
      have each := pathLinksSingle there one (Bool.eq_false_iff.mpr scalar)
      exact ⟨links, target.tableAlias, there.known, each, there.laid, there.value.symm⟩

theorem sortByLaid {seen : List PropertyPath} {keys : List SortKey} {s s' : SortPlan}
    (ok : ctx.sortBy root seen keys s = .ok () s') :
    ∃ kept columns, kept.Sublist keys ∧ (kept = [] ↔ ∀ key ∈ keys, key.property ∈ seen) ∧
      SortLaid ctx root kept s.route columns s'.route ∧ s'.columns = s.columns ++ columns := by
  induction keys generalizing seen s with
  | nil =>
    obtain ⟨_, rfl⟩ := pureOk.mp ok
    exact ⟨[], [], List.Sublist.slnil, by simp, .nil _, (List.append_nil _).symm⟩
  | cons key rest ih =>
    unfold sortBy at ok
    split at ok
    · next before =>
      obtain ⟨kept, columns, sub, none, laid, same⟩ := ih ok
      exact ⟨kept, columns, sub.cons key, by simp [none, before], laid, same⟩
    · next new =>
      obtain ⟨c, u, column, ok⟩ := bindOk.mp ok
      obtain ⟨_, v, push, ok⟩ := bindOk.mp ok
      obtain ⟨r, first, rfl⟩ := sortLayOk.mp column
      obtain rfl := sortPushOk.mp push
      obtain ⟨links, reached, known, single, joined, rfl⟩ := sortColumnLaid first
      obtain ⟨kept, columns, sub, _, laid, same⟩ := ih ok
      exact ⟨key :: kept, _, sub.cons_cons key, by simp [new], .cons known single joined laid, by simp [same]⟩

theorem sortDone {byIdentity : Bool} {keys : List SortKey} {s s' : SortPlan}
    (keyed : ctx.sortBy root [] keys s = .ok () s') :
    ctx.sort root byIdentity keys s = .ok () { s' with columns :=
      if byIdentity && s'.columns.isEmpty then [⟨ctx.layout.identityOf root, .ascending⟩] else s'.columns } := by
  unfold sort
  rw [bindPassed keyed]
  change (if byIdentity && s'.columns.isEmpty then Sorting.push ⟨ctx.layout.identityOf root, .ascending⟩
    else pure ()) s' = _
  split
  · next unsorted =>
    have first : s'.columns = [] := List.isEmpty_iff.mp (Bool.and_eq_true_iff.mp unsorted).2
    exact sortPushOk.mpr (by rw [first]; rfl)
  · rfl

theorem sortLaid {byIdentity : Bool} {keys : List SortKey} {n : Nat} {s' : SortPlan}
    (ok : ctx.sort root byIdentity keys ⟨⟨n, []⟩, []⟩ = .ok () s') :
    ∃ kept columns, kept.Sublist keys ∧ (kept = [] ↔ keys = []) ∧
      SortLaid ctx root kept ⟨n, []⟩ columns s'.route ∧
      s'.columns = if byIdentity && columns.isEmpty then [⟨ctx.layout.identityOf root, .ascending⟩] else columns := by
  obtain ⟨_, s, keyed, _⟩ := bindOk.mp ok
  obtain ⟨kept, columns, sub, none, laid, same⟩ := sortByLaid keyed
  rw [List.nil_append] at same
  have unsorted : kept = [] ↔ keys = [] := by
    rw [none]
    simp [List.eq_nil_iff_forall_not_mem]
  cases (sortDone keyed).symm.trans ok
  exact ⟨kept, columns, sub, unsorted, laid, same ▸ rfl⟩

structure RowsSorted (ctx : Context) (r : Request) (plan : RowPlan) (kept : List SortKey)
    (columns : List SortColumn) (n k m : Nat) : Prop where
  restricted : ctx.restrict r n = .ok plan.restriction k
  sub : kept.Sublist r.orderBy
  unsorted : kept = [] ↔ r.orderBy = []
  laid : SortLaid ctx plan.restriction.root kept ⟨k, []⟩ columns ⟨m, plan.joins⟩
  columns : plan.sortColumns =
    if r.paginated && columns.isEmpty then [⟨ctx.layout.identityOf plan.restriction.root, .ascending⟩] else columns
  limit : plan.limit = r.max
  offset : plan.offset = r.offset

theorem rowPlanLaid {r : Request} {plan : RowPlan} {n m : Nat} (ok : ctx.rowPlan r n = .ok plan m) :
    ∃ kept columns k, RowsSorted ctx r plan kept columns n k m := by
  have pages : plan.limit = r.max ∧ plan.offset = r.offset := by
    obtain ⟨_, _, _, ok⟩ := bindOk.mp ok
    obtain ⟨_, _, _, ok⟩ := bindOk.mp ok
    obtain ⟨rfl, _⟩ := pureOk.mp ok
    exact ⟨rfl, rfl⟩
  obtain ⟨k, restricted, sort⟩ := rowPlanSorted ok
  obtain ⟨kept, columns, sub, unsorted, laid, shown⟩ := sortLaid sort
  exact ⟨kept, columns, k, restricted, sub, unsorted, laid, shown, pages.1, pages.2⟩

end Context
end ObjectQuery
