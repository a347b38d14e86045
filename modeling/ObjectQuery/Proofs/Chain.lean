import ObjectQuery.Proofs.Link
import ObjectQuery.Proofs.Store

/-! Rows along a path: a row of each table, matched with the one before it. The joins of a path's
links yield exactly these rows; left joins go on with nulls where no row matches. -/
namespace ObjectQuery

variable {V : Type} {l : Layout}

namespace Link

def Matches (k : Link) (r s : Row V) : Prop := ∀ c ∈ k.on, ∃ v, s c.1 = some v ∧ r c.2 = some v

def OneRow (db : Store l V) (k : Link) : Prop :=
  ∀ s ∈ db.rows k.table, ∀ t ∈ db.rows k.table,
    (∀ c ∈ k.on, ∃ v, s c.1 = some v ∧ t c.1 = some v) → s = t

theorem oneMatch {db : Store l V} {k : Link} (one : k.OneRow db) {r s t : Row V}
    (hs : s ∈ db.rows k.table) (ht : t ∈ db.rows k.table) (left : k.Matches r s) (right : k.Matches r t) :
    s = t := by
  refine one s hs t ht fun c mem => ?_
  obtain ⟨v, hv, key⟩ := left c mem
  obtain ⟨w, hw, key'⟩ := right c mem
  cases key.symm.trans key'
  exact ⟨v, hv, hw⟩

theorem nullUnmatched {k : Link} (keyed : k.on ≠ []) (s : Row V) : ¬ k.Matches Row.null s := by
  intro matched
  obtain ⟨c, mem⟩ := List.exists_mem_of_ne_nil _ keyed
  obtain ⟨v, _, null⟩ := matched c mem
  cases null

def Next (db : Store l V) (kind : JoinKind) (k : Link) (r s : Row V) : Prop :=
  (s ∈ db.rows k.table ∧ k.Matches r s) ∨
    (kind = .left ∧ s = Row.null ∧ ∀ t ∈ db.rows k.table, ¬ k.Matches r t)

theorem nextUnique {db : Store l V} {kind : JoinKind} {k : Link} (one : k.OneRow db) {r s t : Row V}
    (first : k.Next db kind r s) (second : k.Next db kind r t) : s = t := by
  rcases first with ⟨mem, matched⟩ | ⟨_, rfl, unmatched⟩
  · rcases second with ⟨mem', matched'⟩ | ⟨_, _, unmatched⟩
    · exact oneMatch one mem mem' matched matched'
    · exact absurd matched (unmatched s mem)
  · rcases second with ⟨mem, matched⟩ | ⟨_, rfl, _⟩
    · exact absurd matched (unmatched t mem)
    · rfl

end Link

inductive Chain (db : Store l V) : Row V → List Link → Row V → Prop where
  | nil (r) : Chain db r [] r
  | cons {r s t k rest} (mem : s ∈ db.rows k.table) (matched : k.Matches r s)
      (tail : Chain db s rest t) : Chain db r (k :: rest) t

inductive JoinChain (db : Store l V) (kind : JoinKind) : Row V → List Link → Row V → Prop where
  | nil (r) : JoinChain db kind r [] r
  | cons {r s t k rest} (next : k.Next db kind r s) (tail : JoinChain db kind s rest t) :
      JoinChain db kind r (k :: rest) t

theorem joinChainInner {db : Store l V} {r t : Row V} {ks : List Link} :
    JoinChain db .inner r ks t ↔ Chain db r ks t := by
  constructor
  · intro chain
    induction chain with
    | nil r => exact .nil r
    | cons next tail ih =>
      rcases next with ⟨mem, matched⟩ | ⟨left, _⟩
      · exact .cons mem matched ih
      · cases left
  · intro chain
    induction chain with
    | nil r => exact .nil r
    | cons mem matched tail ih => exact .cons (.inl ⟨mem, matched⟩) ih

theorem chainUnique {db : Store l V} {r s t : Row V} {ks : List Link}
    (one : ∀ k ∈ ks, k.OneRow db) (left : Chain db r ks s) (right : Chain db r ks t) : s = t := by
  induction left with
  | nil r => cases right; rfl
  | cons mem matched tail ih =>
    cases right with
    | cons mem' matched' tail' =>
      obtain rfl := Link.oneMatch (one _ List.mem_cons_self) mem mem' matched matched'
      exact ih (fun k inside => one k (List.mem_cons_of_mem _ inside)) tail'

theorem leftChainNull {db : Store l V} {t : Row V} {ks : List Link} (keyed : ∀ k ∈ ks, k.on ≠ []) :
    JoinChain db .left Row.null ks t ↔ t = Row.null := by
  induction ks with
  | nil => exact ⟨fun chain => by cases chain; rfl, fun same => same ▸ .nil _⟩
  | cons k rest ih =>
    have unmatched := Link.nullUnmatched (V := V) (keyed k List.mem_cons_self)
    have ih := ih fun k mem => keyed k (List.mem_cons_of_mem _ mem)
    constructor
    · intro chain
      cases chain with
      | cons next tail =>
        rcases next with ⟨_, matched⟩ | ⟨_, rfl, _⟩
        · exact absurd matched (unmatched _)
        · exact ih.mp tail
    · intro same
      exact .cons (.inr ⟨rfl, rfl, fun s _ => unmatched s⟩) (ih.mpr same)

inductive Broken (db : Store l V) : Row V → List Link → Prop where
  | here {r k rest} (unmatched : ∀ s ∈ db.rows k.table, ¬ k.Matches r s) : Broken db r (k :: rest)
  | later {r s k rest} (mem : s ∈ db.rows k.table) (matched : k.Matches r s)
      (tail : Broken db s rest) : Broken db r (k :: rest)

theorem chainOrBroken (db : Store l V) (r : Row V) (ks : List Link) :
    (∃ t, Chain db r ks t) ∨ Broken db r ks := by
  induction ks generalizing r with
  | nil => exact .inl ⟨r, .nil r⟩
  | cons k rest ih =>
    by_cases found : ∃ s ∈ db.rows k.table, k.Matches r s
    · obtain ⟨s, mem, matched⟩ := found
      rcases ih s with ⟨t, chain⟩ | broken
      · exact .inl ⟨t, .cons mem matched chain⟩
      · exact .inr (.later mem matched broken)
    · exact .inr (.here fun s mem matched => found ⟨s, mem, matched⟩)

theorem chainUnbroken {db : Store l V} {r t : Row V} {ks : List Link}
    (one : ∀ k ∈ ks.dropLast, k.OneRow db) (chain : Chain db r ks t) : ¬ Broken db r ks := by
  -- Several rows at the last link are one chain each, so only the links above it need one row.
  induction chain with
  | nil r => intro broken; cases broken
  | @cons r s t k rest mem matched tail ih =>
    intro broken
    cases broken with
    | here unmatched => exact unmatched _ mem matched
    | later mem' matched' tail' =>
      cases rest with
      | nil => cases tail'
      | cons next more =>
        rw [List.dropLast_cons_cons] at one
        obtain rfl := Link.oneMatch (one k List.mem_cons_self) mem mem' matched matched'
        exact ih (fun k' inside => one k' (List.mem_cons_of_mem _ inside)) tail'

theorem leftChain {db : Store l V} {r t : Row V} {ks : List Link} (keyed : ∀ k ∈ ks, k.on ≠ []) :
    JoinChain db .left r ks t ↔ Chain db r ks t ∨ (t = Row.null ∧ Broken db r ks) := by
  induction ks generalizing r with
  | nil =>
    constructor
    · intro chain
      cases chain
      exact .inl (.nil _)
    · intro either
      rcases either with chain | ⟨_, broken⟩
      · cases chain; exact .nil _
      · cases broken
  | cons k rest ih =>
    have keyedRest : ∀ k ∈ rest, k.on ≠ [] := fun k mem => keyed k (List.mem_cons_of_mem _ mem)
    have ih := fun r => ih (r := r) keyedRest
    constructor
    · intro chain
      cases chain with
      | cons next tail =>
        rcases next with ⟨mem, matched⟩ | ⟨_, rfl, unmatched⟩
        · rcases (ih _).mp tail with chain | ⟨null, broken⟩
          · exact .inl (.cons mem matched chain)
          · exact .inr ⟨null, .later mem matched broken⟩
        · exact .inr ⟨(leftChainNull keyedRest).mp tail, .here unmatched⟩
    · intro either
      rcases either with chain | ⟨null, broken⟩
      · cases chain with
        | cons mem matched tail => exact .cons (.inl ⟨mem, matched⟩) ((ih _).mpr (.inl tail))
      · cases broken with
        | here unmatched => exact .cons (.inr ⟨rfl, rfl, unmatched⟩) ((leftChainNull keyedRest).mpr null)
        | later mem matched tail => exact .cons (.inl ⟨mem, matched⟩) ((ih _).mpr (.inr ⟨null, tail⟩))

theorem leftChainSingle {db : Store l V} {r t : Row V} {ks : List Link} (keyed : ∀ k ∈ ks, k.on ≠ [])
    (one : ∀ k ∈ ks, k.OneRow db) :
    JoinChain db .left r ks t ↔ Chain db r ks t ∨ (t = Row.null ∧ ∀ s, ¬ Chain db r ks s) := by
  have above : ∀ k ∈ ks.dropLast, k.OneRow db := fun k mem => one k (List.dropLast_subset _ mem)
  have broken : Broken db r ks ↔ ∀ s, ¬ Chain db r ks s :=
    ⟨fun broken s chain => chainUnbroken above chain broken,
      fun none => (chainOrBroken db r ks).resolve_left fun found => none _ found.choose_spec⟩
  rw [leftChain keyed, broken]

@[simp] theorem Joined.withSame (e : Joined V) (a : Alias) (r : Row V) : e.with a r a = r := if_pos rfl

theorem Joined.withOther {a b : Alias} (e : Joined V) (r : Row V) (other : b ≠ a) : e.with a r b = e b :=
  if_neg other

variable [DecidableEq V]

theorem equationTrue {e : Joined V} {q : Equation} :
    q.truth e = some true ↔ ∃ v, q.left.read e = some v ∧ q.right.read e = some v := by
  unfold Equation.truth
  cases q.left.read e with
  | none => simp
  | some v =>
    cases q.right.read e with
    | none => simp
    | some w => simp [eq_comm]

theorem matchingLink {db : Store l V} {kind : JoinKind} {k : Link} {a b : Alias} {e e' : Joined V}
    (other : b ≠ a) :
    e' ∈ (k.join kind a b).matching db e ↔
      ∃ s ∈ db.rows k.table, k.Matches (e b) s ∧ e' = e.with a s := by
  have holds : ∀ s, Truth.all ((k.join kind a b).on.map (Equation.truth (e.with a s))) = some true ↔
      k.Matches (e b) s := by
    intro s
    simp only [Truth.allTrue, Link.join, Link.Matches, List.forall_mem_map, equationTrue, Column.read,
      Joined.withSame, Joined.withOther e s other]
  simp only [Join.matching, List.mem_filter, List.mem_map, decide_eq_true_eq]
  constructor
  · intro inside
    obtain ⟨⟨s, mem, rfl⟩, passed⟩ := inside
    exact ⟨s, mem, (holds s).mp passed, rfl⟩
  · intro inside
    obtain ⟨s, mem, matched, rfl⟩ := inside
    exact ⟨⟨s, mem, rfl⟩, (holds s).mpr matched⟩

theorem extendLink {db : Store l V} {kind : JoinKind} {k : Link} {a b : Alias} {e e' : Joined V}
    (other : b ≠ a) :
    e' ∈ (k.join kind a b).extend db e ↔ ∃ s, k.Next db kind (e b) s ∧ e' = e.with a s := by
  have found : ∀ e', e' ∈ (k.join kind a b).matching db e ↔
      ∃ s ∈ db.rows k.table, k.Matches (e b) s ∧ e' = e.with a s := fun _ => matchingLink other
  unfold Join.extend
  split
  · next left empty =>
    have none : ∀ t ∈ db.rows k.table, ¬ k.Matches (e b) t := by
      intro t mem matched
      have := (found (e.with a t)).mpr ⟨t, mem, matched, rfl⟩
      rw [empty] at this
      cases this
    rw [List.mem_singleton]
    constructor
    · intro same
      exact ⟨_, .inr ⟨left, rfl, none⟩, same⟩
    · intro joined
      obtain ⟨s, ⟨mem, matched⟩ | ⟨_, rfl, _⟩, rfl⟩ := joined
      · exact absurd matched (none s mem)
      · rfl
  · next nonempty =>
    rw [found]
    constructor
    · intro inside
      obtain ⟨s, mem, matched, rfl⟩ := inside
      exact ⟨s, .inl ⟨mem, matched⟩, rfl⟩
    · intro joined
      obtain ⟨s, ⟨mem, matched⟩ | ⟨left, rfl, none⟩, rfl⟩ := joined
      · exact ⟨s, mem, matched, rfl⟩
      · -- a left join without a match is the case before
        refine absurd ?_ (nonempty left)
        exact List.eq_nil_iff_forall_not_mem.mpr fun e' mem => by
          obtain ⟨t, mem, matched, _⟩ := (found e').mp mem
          exact none t mem matched

def Alias.Before (n : Nat) (a : Alias) : Prop := ∀ i, a = .numbered i → i < n

theorem Alias.Before.ne {n : Nat} {a : Alias} (before : a.Before n) : a ≠ .numbered n := fun same =>
  absurd (before n same) (Nat.lt_irrefl n)

theorem Alias.beforeSucc (n : Nat) : (Alias.numbered n).Before (n + 1) := by
  intro i same
  cases same
  exact Nat.lt_succ_self n

theorem Alias.Before.widen {n m : Nat} {a : Alias} (before : a.Before n) (le : n ≤ m) : a.Before m :=
  fun i same => Nat.lt_of_lt_of_le (before i same) le

theorem Alias.Before.succ {n : Nat} {a : Alias} (before : a.Before n) : a.Before (n + 1) :=
  fun i same => Nat.lt_succ_of_lt (before i same)

theorem extendAllChain {db : Store l V} {kind : JoinKind} {ks : List Link} {a : Alias} {n : Nat}
    {e e' : Joined V} (before : a.Before n) (mem : e' ∈ Join.extendAll db (Link.joins kind a n ks) e) :
    JoinChain db kind (e a) ks (e' (Link.last a n ks)) ∧ ∀ b : Alias, b.Before n → e' b = e b := by
  induction ks generalizing a n e with
  | nil =>
    obtain rfl := List.mem_singleton.mp mem
    exact ⟨.nil _, fun _ _ => rfl⟩
  | cons k rest ih =>
    obtain ⟨e₁, first, others⟩ := List.mem_flatMap.mp mem
    obtain ⟨s, next, rfl⟩ := (extendLink before.ne).mp first
    obtain ⟨tail, same⟩ := ih (Alias.beforeSucc n) others
    rw [Joined.withSame] at tail
    refine ⟨.cons next tail, fun b old => ?_⟩
    rw [same b old.succ, Joined.withOther e s old.ne]

theorem chainExtendAll {db : Store l V} {kind : JoinKind} {ks : List Link} {a : Alias} {n : Nat}
    {e : Joined V} {r t : Row V} (before : a.Before n) (start : e a = r) (chain : JoinChain db kind r ks t) :
    ∃ e' ∈ Join.extendAll db (Link.joins kind a n ks) e, e' (Link.last a n ks) = t := by
  induction chain generalizing a n e with
  | nil r => exact ⟨e, List.mem_singleton_self e, start⟩
  | @cons r s t k rest next tail ih =>
    subst start
    obtain ⟨e', mem, last⟩ := ih (e := e.with (.numbered n) s) (Alias.beforeSucc n) (Joined.withSame _ _ _)
    exact ⟨e', List.mem_flatMap.mpr ⟨_, (extendLink before.ne).mpr ⟨s, next, rfl⟩, mem⟩, last⟩

theorem extendAllUnique {db : Store l V} {kind : JoinKind} {ks : List Link} {a : Alias} {n : Nat} {e e₁ e₂ : Joined V}
    (before : a.Before n) (one : ∀ k ∈ ks, k.OneRow db) (first : e₁ ∈ Join.extendAll db (Link.joins kind a n ks) e)
    (second : e₂ ∈ Join.extendAll db (Link.joins kind a n ks) e) : e₁ = e₂ := by
  induction ks generalizing a n e with
  | nil => exact (List.mem_singleton.mp first).trans (List.mem_singleton.mp second).symm
  | cons k rest ih =>
    obtain ⟨_, here, first⟩ := List.mem_flatMap.mp first
    obtain ⟨_, here', second⟩ := List.mem_flatMap.mp second
    obtain ⟨s, next, rfl⟩ := (extendLink before.ne).mp here
    obtain ⟨t, next', rfl⟩ := (extendLink before.ne).mp here'
    obtain rfl := Link.nextUnique (one k List.mem_cons_self) next next'
    exact ih (Alias.beforeSucc n) (fun k mem => one k (List.mem_cons_of_mem _ mem)) first second

namespace Join

theorem extendWith {db : Store l V} {j : Join} {e e' : Joined V} (mem : e' ∈ j.extend db e) :
    ∃ r, e' = e.with j.tableAlias r := by
  unfold extend at mem
  split at mem
  · exact ⟨_, List.mem_singleton.mp mem⟩
  · obtain ⟨r, _, rfl⟩ := List.mem_map.mp (List.mem_filter.mp mem).1
    exact ⟨r, rfl⟩

theorem extendAllOther {db : Store l V} {js : List Join} {a : Alias} {e e' : Joined V}
    (other : ∀ j ∈ js, a ≠ j.tableAlias) (mem : e' ∈ extendAll db js e) : e' a = e a := by
  induction js generalizing e with
  | nil =>
    obtain rfl := List.mem_singleton.mp mem
    rfl
  | cons j rest ih =>
    obtain ⟨e₁, first, others⟩ := List.mem_flatMap.mp mem
    obtain ⟨r, rfl⟩ := extendWith first
    rw [ih (fun k inside => other k (List.mem_cons_of_mem _ inside)) others]
    exact Joined.withOther e r (other j List.mem_cons_self)

theorem extendAllRoot {db : Store l V} {js : List Join} {root : Alias} {e e' : Joined V} {r : Row V}
    (own : ∀ j ∈ js, root ≠ j.tableAlias) (mem : e' ∈ extendAll db js (e.with root r)) : e' root = r := by
  rw [extendAllOther own mem, Joined.withSame]

theorem extendAllAppend (db : Store l V) (js more : List Join) (e : Joined V) :
    extendAll db (js ++ more) e = (extendAll db js e).flatMap (extendAll db more) := by
  induction js generalizing e with
  | nil => simp [extendAll]
  | cons j rest ih =>
    have later : extendAll db (rest ++ more) = fun e => (extendAll db rest e).flatMap (extendAll db more) := funext ih
    rw [List.cons_append, extendAll, extendAll, List.flatMap_assoc, later]

theorem extendAllSome (db : Store l V) {js : List Join} (left : ∀ j ∈ js, j.kind = .left) (e : Joined V) :
    ∃ e', e' ∈ extendAll db js e := by
  induction js generalizing e with
  | nil => exact ⟨e, List.mem_singleton_self e⟩
  | cons j rest ih =>
    have here : ∃ e₁, e₁ ∈ j.extend db e := by
      unfold extend
      split
      · exact ⟨_, List.mem_singleton_self _⟩
      · next matched =>
        exact List.exists_mem_of_ne_nil _ (matched (left j List.mem_cons_self))
    obtain ⟨e₁, first⟩ := here
    obtain ⟨e', others⟩ := ih (fun k mem => left k (List.mem_cons_of_mem _ mem)) e₁
    exact ⟨e', List.mem_flatMap.mpr ⟨e₁, first, others⟩⟩

end Join

end ObjectQuery
