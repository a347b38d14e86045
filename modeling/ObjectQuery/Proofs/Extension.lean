import ObjectQuery.Proofs.Ancestry
import ObjectQuery.Proofs.Requested

/-! Schemas that answer more. A compilation only goes on with answers that it gets, so one that succeeds does
the same under every schema with the same answers. -/
namespace ObjectQuery
open Outcome

section
variable {ε σ α β : Type}

def Kept (x y : Except ε α) : Prop := ∀ a, x = .ok a → y = .ok a

def Stays (x y : EStateM ε σ α) : Prop := ∀ s a t, x s = .ok a t → y s = .ok a t

namespace Kept

theorem same (x : Except ε α) : Kept x x := fun _ ok => ok

theorem next {x y : Except ε α} {f g : α → Except ε β} (first : Kept x y) (rest : ∀ a, Kept (f a) (g a)) :
    Kept (x >>= f) (y >>= g) := by
  intro b ok
  obtain ⟨a, ran, ok⟩ := exceptBindOk.mp ok
  exact exceptBindOk.mpr ⟨a, first a ran, rest a b ok⟩

end Kept

namespace Stays

theorem same (x : EStateM ε σ α) : Stays x x := fun _ _ _ ok => ok

theorem next {x y : EStateM ε σ α} {f g : α → EStateM ε σ β} (first : Stays x y) (rest : ∀ a, Stays (f a) (g a)) :
    Stays (x >>= f) (y >>= g) := by
  intro s b t ok
  obtain ⟨a, u, ran, ok⟩ := bindOk.mp ok
  exact bindOk.mpr ⟨a, u, first s a u ran, rest a u b t ok⟩

theorem onward (x : EStateM ε σ α) {f g : α → EStateM ε σ β} (rest : ∀ a, Stays (f a) (g a)) :
    Stays (x >>= f) (x >>= g) := (same x).next rest

theorem asked {x y : Except ε α} {f g : α → EStateM ε σ β} (first : Kept x y) (rest : ∀ a, Stays (f a) (g a)) :
    Stays (ofExcept x >>= f) (ofExcept y >>= g) := by
  refine next (fun s a t ok => ?_) rest
  obtain ⟨ran, rfl⟩ := ofExceptOk.mp ok
  exact ofExceptOk.mpr ⟨first a ran, rfl⟩

theorem mapped {x y : EStateM ε σ α} {f : α → β} (both : Stays x y) : Stays (f <$> x) (f <$> y) := by
  intro s b t ok
  obtain ⟨a, ran, rfl⟩ := mapOk.mp ok
  exact mapOk.mpr ⟨a, both s a t ran, rfl⟩

theorem failed {e : ε} {f : α → EStateM ε σ β} {y : EStateM ε σ β} : Stays (throw e >>= f) y :=
  fun _ _ _ ok => (throwBindOk.mp ok).elim

theorem freshly {x y : Lay α} (both : Stays x y) : Stays (Lay.fresh x) (Lay.fresh y) :=
  fun _ _ _ ok => freshOk.mpr (both _ _ _ (freshOk.mp ok))

theorem sorting {x y : Lay α} (both : Stays x y) : Stays (Sorting.lay x) (Sorting.lay y) := by
  intro s a t ok
  obtain ⟨r, laid, same⟩ := Context.sortLayOk.mp ok
  exact Context.sortLayOk.mpr ⟨r, both _ _ _ laid, same⟩

theorem routed {x y : Sorting Unit} (both : Stays x y) {n m : Nat} {plan : SortPlan}
    (ok : (match x ⟨⟨n, []⟩, []⟩ with
      | .ok _ plan => EStateM.Result.ok plan plan.route.issued
      | .error e plan => .error e plan.route.issued) = .ok plan m) :
    (match y ⟨⟨n, []⟩, []⟩ with
      | .ok _ plan => EStateM.Result.ok plan plan.route.issued
      | .error e plan => .error e plan.route.issued) = .ok plan m := by
  split at ok
  · next sorted =>
    rw [both _ _ _ sorted]
    exact ok
  · cases ok

end Stays
end

structure Schema.ExtendedBy (s s' : Schema) : Prop where
  tables : ∀ name t, s.tableOf name = some t → s'.tableOf name = some t
  keys : ∀ type variant key, s.enumKey type variant = some key → s'.enumKey type variant = some key
  types : ∀ v type, s.sqlType v = some type → s'.sqlType v = some type

variable {s s' : Schema} {l : Layout}

namespace Context

theorem lookupKept (more : s.ExtendedBy s') (name : QualifiedName) :
    Kept ((mk s l).lookup name) ((mk s' l).lookup name) :=
  fun t ok => lookupOk.mpr (more.tables name t (lookupOk.mp ok))

theorem bindKept (more : s.ExtendedBy s') (v : Value) : Kept ((mk s l).bind v) ((mk s' l).bind v) := by
  intro b ok
  unfold bind at ok ⊢
  split at ok
  · next scalar =>
    rw [if_pos scalar]
    cases known : s.sqlType v with
    | none => simp [known, throw, throwThe, MonadExceptOf.throw] at ok
    | some type =>
      rw [known] at ok
      rw [more.types v type known]
      cases v with
      | enum type variant =>
        dsimp only at ok ⊢
        cases stored : s.enumKey type variant with
        | none => simp [stored, throw, throwThe, MonadExceptOf.throw] at ok
        | some key =>
          rw [stored] at ok
          rw [more.keys type variant key stored]
          exact ok
      | _ => exact ok
  · cases ok

theorem someCollectionKept (more : s.ExtendedBy s') (names : List QualifiedName) :
    Kept (fansOut.someCollection (mk s l) names) (fansOut.someCollection (mk s' l) names) := by
  induction names with
  | nil => exact .same _
  | cons name rest ih =>
    unfold fansOut.someCollection
    split
    · exact ih
    · refine (lookupKept more name).next fun t => ?_
      split
      · exact .same _
      · exact ih

theorem fansOutKept (more : s.ExtendedBy s') (p : PropertyPath) :
    Kept ((mk s l).fansOut p) ((mk s' l).fansOut p) := by
  unfold fansOut
  split
  · exact .same _
  · exact someCollectionKept more p.before

variable {kind : JoinKind}

theorem layHopsStays (more : s.ExtendedBy s') (hops : List AssociationHop) (start : AssociationTarget) :
    Stays ((mk s l).layHops kind hops start) ((mk s' l).layHops kind hops start) := by
  induction hops generalizing start with
  | nil => exact .same _
  | cons hop rest ih =>
    exact .asked (lookupKept more hop.name) fun t => .onward _ fun joined => .onward _ fun _ => ih _

theorem layAssociationStays (more : s.ExtendedBy s') (a : AssociationPath) (root : Alias) :
    Stays ((mk s l).layAssociation a root kind) ((mk s' l).layAssociation a root kind) :=
  .onward _ fun _ => layHopsStays more a.hops _

theorem layPropertyStays (more : s.ExtendedBy s') (owner : Owner) (name : QualifiedName) :
    Stays ((mk s l).layProperty kind owner name) ((mk s' l).layProperty kind owner name) :=
  .asked (lookupKept more name) fun _ => .same _

theorem layPropertiesStays (more : s.ExtendedBy s') (names : List QualifiedName) (owner : Owner) :
    Stays ((mk s l).layProperties kind names owner) ((mk s' l).layProperties kind names owner) := by
  induction names generalizing owner with
  | nil => exact .same _
  | cons name rest ih => exact (layPropertyStays more owner name).next fun (_, _) => ih _

theorem layIdentityStays (more : s.ExtendedBy s') (p : PropertyPath) (root : Alias) :
    Stays ((mk s l).layIdentity p root kind) ((mk s' l).layIdentity p root kind) := by
  unfold layIdentity
  cases p.association with
  | none => exact .same _
  | some a => exact (layHopsStays more a.hops _).next fun _ => .same _

theorem layAttributeStays (more : s.ExtendedBy s') (p : PropertyPath) (root : Alias) :
    Stays ((mk s l).layAttribute p root kind) ((mk s' l).layAttribute p root kind) :=
  (layHopsStays more p.associationHops _).next fun _ =>
    (layPropertiesStays more p.before _).next fun owner =>
      (layPropertyStays more owner p.last).next fun _ => .same _

theorem layPathStays (more : s.ExtendedBy s') (p : PropertyPath) (root : Alias) :
    Stays ((mk s l).layPath p root kind) ((mk s' l).layPath p root kind) := by
  refine .onward _ fun _ => ?_
  split
  · split
    · exact layIdentityStays more p root
    · exact .same _
  · exact layAttributeStays more p root

theorem plainEqualKept (more : s.ExtendedBy s') {a : Value} (plain : ∀ t fields, a ≠ .composite t fields)
    (b : Value) : Kept ((mk s l).boundEqual a b) ((mk s' l).boundEqual a b) := by
  have bound : Kept (do let x ← (mk s l).bind a; let y ← (mk s l).bind b; pure (sameBound x.value y.value))
      (do let x ← (mk s' l).bind a; let y ← (mk s' l).bind b; pure (sameBound x.value y.value)) :=
    (bindKept more a).next fun _ => (bindKept more b).next fun _ => .same _
  cases a with
  | null => exact .same _
  | composite t fields => exact absurd rfl (plain t fields)
  | _ =>
    cases b with
    | null => exact .same _
    | composite => exact .same _
    | _ => exact bound

mutual
theorem boundEqualKept (more : s.ExtendedBy s') : (a b : Value) →
    Kept ((mk s l).boundEqual a b) ((mk s' l).boundEqual a b)
  | .composite _ left, b => by
    cases b with
    | composite u right =>
      unfold boundEqual
      split
      · exact fieldsEqualKept more left right
      · exact .same _
    | _ => exact .same _
  | .null, b => plainEqualKept more (by simp) b
  | .bool _, b => plainEqualKept more (by simp) b
  | .int _, b => plainEqualKept more (by simp) b
  | .float _, b => plainEqualKept more (by simp) b
  | .text _, b => plainEqualKept more (by simp) b
  | .date _, b => plainEqualKept more (by simp) b
  | .timestamp _, b => plainEqualKept more (by simp) b
  | .enum _ _, b => plainEqualKept more (by simp) b
  | .collection _, b => plainEqualKept more (by simp) b
theorem fieldsEqualKept (more : s.ExtendedBy s') : (left right : List (QualifiedName × Value)) →
    Kept ((mk s l).fieldsEqual left right) ((mk s' l).fieldsEqual left right)
  | [], _ => .same _
  | (name, v) :: rest, right => by
    unfold fieldsEqual
    split
    · exact .same _
    · next w _ =>
      refine (boundEqualKept more v w).next fun equal => ?_
      split
      · exact fieldsEqualKept more rest right
      · exact .same _
end

theorem isKeptKept (more : s.ExtendedBy s') (v : Value) (kept : List Value) :
    Kept ((mk s l).isKept v kept) ((mk s' l).isKept v kept) := by
  induction kept with
  | nil => exact .same _
  | cons k rest ih =>
    refine (boundEqualKept more k v).next fun equal => ?_
    split
    · exact .same _
    · exact ih

theorem keepDistinctKept (more : s.ExtendedBy s') (kept elements : List Value) :
    Kept ((mk s l).keepDistinct kept elements) ((mk s' l).keepDistinct kept elements) := by
  induction elements generalizing kept with
  | nil => exact .same _
  | cons v rest ih =>
    refine (isKeptKept more v kept).next fun found => ?_
    split
    · exact ih kept
    · exact ih (kept ++ [v])

theorem scalarTestKept (more : s.ExtendedBy s') (c : Column) (v : Value) :
    Kept ((mk s l).scalarTest c v) ((mk s' l).scalarTest c v) := by
  unfold scalarTest
  split
  · exact .same _
  · exact (bindKept more v).next fun _ => .same _

theorem plainTestsStay (more : s.ExtendedBy s') {source : ElementSource} {v : Value} {children : Children}
    (plain : ∀ t fields, v ≠ .composite t fields) :
    Stays ((mk s l).valueTests source v children) ((mk s' l).valueTests source v children) := by
  rw [valueTestsPlain plain, valueTestsPlain plain]
  exact .asked (scalarTestKept more _ v) fun _ => .same _

mutual
theorem valueTestsStay (more : s.ExtendedBy s') : (v : Value) → ∀ (source : ElementSource) (children : Children),
    Stays ((mk s l).valueTests source v children) ((mk s' l).valueTests source v children)
  | .composite _ fields, source, children =>
    (fieldTestsStay more fields source children).next fun (_, _) => .same _
  | .null, _, _ => plainTestsStay more (by simp)
  | .bool _, _, _ => plainTestsStay more (by simp)
  | .int _, _, _ => plainTestsStay more (by simp)
  | .float _, _, _ => plainTestsStay more (by simp)
  | .text _, _, _ => plainTestsStay more (by simp)
  | .date _, _, _ => plainTestsStay more (by simp)
  | .timestamp _, _, _ => plainTestsStay more (by simp)
  | .enum _ _, _, _ => plainTestsStay more (by simp)
  | .collection _, _, _ => plainTestsStay more (by simp)
theorem fieldTestsStay (more : s.ExtendedBy s') : (fields : List (QualifiedName × Value)) →
    ∀ (parent : ElementSource) (children : Children),
      Stays ((mk s l).fieldTests parent fields children) ((mk s' l).fieldTests parent fields children)
  | [], _, _ => .same _
  | (field, v) :: rest, parent, children => by
    refine .asked (lookupKept more field) fun t => ?_
    split
    · exact .failed
    · exact .onward _ fun (_, _) => (valueTestsStay more v _ _).next fun (_, _) =>
        (fieldTestsStay more rest _ _).next fun (_, _) => .same _
end

theorem elementTestStays (more : s.ExtendedBy s') (source : ElementSource) (v : Value) (children : Children) :
    Stays ((mk s l).elementTest source v children) ((mk s' l).elementTest source v children) :=
  (valueTestsStay more v source children).next fun (_, _) => .same _

theorem elementTestsStay (more : s.ExtendedBy s') (source : ElementSource) (elements : List Value)
    (children : Children) : Stays ((mk s l).elementTests source elements children)
      ((mk s' l).elementTests source elements children) := by
  induction elements generalizing children with
  | nil => exact .same _
  | cons v rest ih =>
    exact (elementTestStays more source v children).next fun (_, _) => (ih _).next fun (_, _) => .same _

theorem layCollectionStays (more : s.ExtendedBy s') (p : PropertyPath) (root : Alias) (kind : JoinKind) :
    Stays ((mk s l).layCollection p root kind) ((mk s' l).layCollection p root kind) := by
  refine (layPathStays more p root).next fun target => .asked (lookupKept more target.name) fun _ => ?_
  exact .same _

end Context

namespace Scope

variable {ids : List Int32}

theorem selectingStays {x y : Alias → Lay (List Test × Option Division)} (each : ∀ root, Stays (x root) (y root)) :
    Stays ((mk ⟨s, l⟩ ids).selecting x) ((mk ⟨s', l⟩ ids).selecting y) :=
  .onward _ fun all => (each all.root).freshly.next fun ((_, _), _) => .same _

theorem complementIfStays {x y : Compile SetPlan} (both : Stays x y) (negated : Bool) :
    Stays (x >>= (mk ⟨s, l⟩ ids).complementIf negated) (y >>= (mk ⟨s', l⟩ ids).complementIf negated) :=
  both.next fun _ => .same _

theorem onRowStays {x y : Except CompileError Bool} {f g : Bool → Compile SetPlan} (asked : Kept x y)
    (each : ∀ negated, Stays (f negated) (g negated)) (negated : Bool) :
    Stays ((mk ⟨s, l⟩ ids).onRow x f negated) ((mk ⟨s', l⟩ ids).onRow y g negated) := by
  cases negated with
  | false => exact each false
  | true =>
    refine .asked asked fun many => ?_
    cases many with
    | false => exact each true
    | true => exact (each false).next fun _ => .same _

theorem scalarSelectionStays (more : s.ExtendedBy s') (kind : LeafKind) (p : PropertyPath) (operator : Operator)
    (parameter : BoundParameter) (negated : Bool) :
    Stays ((mk ⟨s, l⟩ ids).scalarSelection kind p operator parameter negated)
      ((mk ⟨s', l⟩ ids).scalarSelection kind p operator parameter negated) :=
  selectingStays fun root => (Context.layPathStays more p root).next fun _ => .same _

theorem compareStays (more : s.ExtendedBy s') (p : PropertyPath) (c : Comparison) (operand : Operand)
    (negated : Bool) :
    Stays ((mk ⟨s, l⟩ ids).compare p c operand negated) ((mk ⟨s', l⟩ ids).compare p c operand negated) := by
  refine .asked (.same _) fun v => ?_
  split
  · exact .failed
  · exact .asked (Context.bindKept more v) fun parameter => scalarSelectionStays more c.kind p _ parameter negated

theorem textParameterKept (more : s.ExtendedBy s') (operand : Operand) (fault : ValueKind → Unsupported) :
    Kept ((mk ⟨s, l⟩ ids).textParameter operand fault) ((mk ⟨s', l⟩ ids).textParameter operand fault) := by
  refine (Kept.same _).next fun v => ?_
  cases v with
  | text => exact Context.bindKept more _
  | _ => exact .same _

theorem matchPatternStays (more : s.ExtendedBy s') (p : PropertyPath) (pattern : Operand) (negated : Bool) :
    Stays ((mk ⟨s, l⟩ ids).matchPattern p pattern negated) ((mk ⟨s', l⟩ ids).matchPattern p pattern negated) :=
  .asked (textParameterKept more pattern _) fun parameter =>
    scalarSelectionStays more .matches p _ parameter negated

theorem propertyNullStays (more : s.ExtendedBy s') (p : PropertyPath) (isNull negated : Bool) :
    Stays ((mk ⟨s, l⟩ ids).propertyNull p isNull negated) ((mk ⟨s', l⟩ ids).propertyNull p isNull negated) :=
  selectingStays fun root => (Context.layPathStays more p root).next fun _ => .same _

theorem associationNullStays (more : s.ExtendedBy s') (a : AssociationPath) (isNull negated : Bool) :
    Stays ((mk ⟨s, l⟩ ids).associationNull a isNull negated) ((mk ⟨s', l⟩ ids).associationNull a isNull negated) :=
  selectingStays fun root => (Context.layAssociationStays more a root).next fun _ => .same _

theorem reachesStays (more : s.ExtendedBy s') (a : AssociationPath) (operand : Operand) :
    Stays ((mk ⟨s, l⟩ ids).reaches a operand) ((mk ⟨s', l⟩ ids).reaches a operand) :=
  .asked (textParameterKept more operand _) fun _ => selectingStays fun root =>
    (Context.layAssociationStays more a root).next fun _ => .same _

theorem containsStays (more : s.ExtendedBy s') (p : PropertyPath) (operand : Operand) :
    Stays ((mk ⟨s, l⟩ ids).contains p operand) ((mk ⟨s', l⟩ ids).contains p operand) := by
  refine .asked (.same _) fun v => ?_
  split
  · exact .failed
  · exact selectingStays fun root => (Context.layCollectionStays more p root .inner).next fun (_, source) =>
      (Context.elementTestStays more source v []).next fun (_, _) => .same _

theorem distinctElementsKept (more : s.ExtendedBy s') (p : PropertyPath) (operand : Operand) :
    Kept ((mk ⟨s, l⟩ ids).distinctElements p operand) ((mk ⟨s', l⟩ ids).distinctElements p operand) := by
  refine (Kept.same _).next fun v => ?_
  cases v with
  | collection items => exact Context.keepDistinctKept more [] _
  | _ => exact .same _

theorem dividingStays (more : s.ExtendedBy s') (p : PropertyPath) (elements : List Value) :
    Stays ((mk ⟨s, l⟩ ids).dividing p elements) ((mk ⟨s', l⟩ ids).dividing p elements) :=
  selectingStays fun root => (Context.layCollectionStays more p root .inner).next fun (_, source) =>
    (Context.elementTestsStay more source elements []).next fun (_, _) => .same _

theorem containsAllStays (more : s.ExtendedBy s') (p : PropertyPath) (operand : Operand) (negated : Bool) :
    Stays ((mk ⟨s, l⟩ ids).containsAll p operand negated) ((mk ⟨s', l⟩ ids).containsAll p operand negated) := by
  refine .asked (distinctElementsKept more p operand) fun elements => ?_
  split
  · exact .same _
  · exact (complementIfStays (dividingStays more p elements) negated).mapped

theorem leafStays (more : s.ExtendedBy s') (leaf : Leaf) (negated : Bool) :
    Stays ((mk ⟨s, l⟩ ids).leaf leaf negated) ((mk ⟨s', l⟩ ids).leaf leaf negated) := by
  cases leaf with
  | compare p c v =>
    exact (onRowStays (Context.fansOutKept more p) (compareStays more p c v) negated).mapped
  | «matches» p v =>
    exact (onRowStays (Context.fansOutKept more p) (matchPatternStays more p v) negated).mapped
  | propertyNull p isNull =>
    exact (onRowStays (Context.fansOutKept more p) (propertyNullStays more p isNull) negated).mapped
  | associationNull a isNull =>
    exact (onRowStays (.same _) (associationNullStays more a isNull) negated).mapped
  | reaches a v => exact (complementIfStays (reachesStays more a v) negated).mapped
  | contains p v => exact (complementIfStays (containsStays more p v) negated).mapped
  | containsAll p v => exact containsAllStays more p v negated

mutual
theorem compileStays (more : s.ExtendedBy s') : (p : Predicate) → ∀ negated : Bool,
    Stays ((mk ⟨s, l⟩ ids).compile p negated) ((mk ⟨s', l⟩ ids).compile p negated)
  | .leaf leaf, negated => leafStays more leaf negated
  | .all ps, negated => (compileEachStays more ps negated).next fun _ => .same _
  | .any ps, negated => (compileEachStays more ps negated).next fun _ => .same _
  | .not p, negated => compileStays more p (!negated)
theorem compileEachStays (more : s.ExtendedBy s') : (ps : List Predicate) → ∀ negated : Bool,
    Stays ((mk ⟨s, l⟩ ids).compileEach ps negated) ((mk ⟨s', l⟩ ids).compileEach ps negated)
  | [], _ => .same _
  | p :: ps, negated =>
    (compileStays more p negated).next fun _ => (compileEachStays more ps negated).next fun _ => .same _
end

end Scope

namespace Context

theorem restrictStays (more : s.ExtendedBy s') (r : Request)
    (types : s'.typeIds r.resultType = s.typeIds r.resultType) :
    Stays ((mk s l).restrict r) ((mk s' l).restrict r) := by
  unfold restrict
  rw [types]
  cases s.typeIds r.resultType with
  | none => exact .same _
  | some ids =>
    refine .onward _ fun root => ?_
    cases r.predicate with
    | none => exact .same _
    | some p => exact (Scope.compileStays more p false).next fun _ => .same _

theorem laySortColumnStays (more : s.ExtendedBy s') (p : PropertyPath) (root : Alias) :
    Stays ((mk s l).laySortColumn p root) ((mk s' l).laySortColumn p root) := by
  refine .asked (fansOutKept more p) fun many => ?_
  split
  · exact .failed
  · exact (layPathStays more p root).next fun _ => .same _

theorem sortByStays (more : s.ExtendedBy s') (root : Alias) (seen : List PropertyPath) (keys : List SortKey) :
    Stays ((mk s l).sortBy root seen keys) ((mk s' l).sortBy root seen keys) := by
  induction keys generalizing seen with
  | nil => exact .same _
  | cons key rest ih =>
    unfold sortBy
    split
    · exact ih seen
    · exact (laySortColumnStays more key.property root).sorting.next fun _ => .onward _ fun _ => ih _

theorem sortStays (more : s.ExtendedBy s') (root : Alias) (byIdentity : Bool) (keys : List SortKey) :
    Stays ((mk s l).sort root byIdentity keys) ((mk s' l).sort root byIdentity keys) :=
  (sortByStays more root [] keys).next fun _ => .same _

theorem rowPlanStays (more : s.ExtendedBy s') (r : Request)
    (types : s'.typeIds r.resultType = s.typeIds r.resultType) :
    Stays ((mk s l).rowPlan r) ((mk s' l).rowPlan r) := by
  refine (restrictStays more r types).next fun restriction => .next (fun _ _ _ ok => ?_) fun _ => .same _
  exact (sortStays more restriction.root r.paginated r.orderBy).routed ok

theorem rowsStay (more : s.ExtendedBy s') {r : Request} (types : s'.typeIds r.resultType = s.typeIds r.resultType)
    {q : CompiledQuery} (ok : (mk s l).compileRows r = .ok q) : (mk s' l).compileRows r = .ok q := by
  obtain ⟨plan, n, planned, same⟩ := compileRowsOk.mp ok
  exact compileRowsOk.mpr ⟨plan, n, rowPlanStays more r types _ _ _ planned, same⟩

theorem countStays (more : s.ExtendedBy s') {r : Request} (types : s'.typeIds r.resultType = s.typeIds r.resultType)
    {q : CompiledQuery} (ok : (mk s l).compileCount r = .ok q) : (mk s' l).compileCount r = .ok q := by
  obtain ⟨restriction, n, restricted, same⟩ := compileCountOk.mp ok
  exact compileCountOk.mpr ⟨restriction, n, restrictStays more r types _ _ _ restricted, same⟩

end Context

namespace Catalog

structure ExtendedBy (c c' : Catalog) : Prop where
  types : c.types ⊆ c'.types
  attributes : c.attributes ⊆ c'.attributes
  enums : ∀ type variant key, c.enumKey type variant = some key → c'.enumKey type variant = some key

variable {c c' : Catalog} {name : String}

theorem ExtendedBy.schema (more : c.ExtendedBy c') (accepted : c'.Accepted) :
    Schema.ExtendedBy ⟨c.tableOf, c.typeIds, c.enumKey, Value.sqlType⟩
      ⟨c'.tableOf, c'.typeIds, c'.enumKey, Value.sqlType⟩ := by
  refine ⟨fun name t found => ?_, more.enums, fun _ _ known => known⟩
  obtain ⟨a, first, rfl⟩ := Option.map_eq_some_iff.mp found
  obtain rfl : a.name = name := by simpa using List.find?_some first
  have still := onlyNamed accepted.attributes (more.attributes (List.mem_of_find?_eq_some first))
  exact Option.map_eq_some_iff.mpr ⟨a, still, rfl⟩

theorem ExtendedBy.reaches (more : c.ExtendedBy c') (accepted : c.Accepted) (accepted' : c'.Accepted)
    {t : TypeDeclaration} (mem : t ∈ c.types) : Reaches c'.types t.name name ↔ Reaches c.types t.name name := by
  have own : ∀ t ∈ c.types, c.types.find? (·.name == t.name) = some t :=
    fun t mem => onlyNamed accepted.types mem
  have others : ∀ t ∈ c.types, c'.types.find? (·.name == t.name) = some t :=
    fun t mem => onlyNamed accepted'.types (more.types mem)
  exact ⟨Reaches.shared accepted.above others own mem, Reaches.shared accepted.above own others mem⟩

theorem ExtendedBy.typeIds (more : c.ExtendedBy c') (accepted : c.Accepted) (accepted' : c'.Accepted)
    (apart : ∀ t ∈ c'.types, t ∉ c.types → c'.idBelow name t = none) {ids : List Int32}
    (known : c.typeIds name = some ids) : c'.typeIds name = some ids := by
  obtain ⟨declared, own⟩ := typeIdsOk known
  obtain ⟨t, mem, rfl⟩ := List.mem_map.mp declared
  have declared' : t.name ∈ c'.declared := List.mem_map_of_mem (more.types mem)
  obtain ⟨ids', known'⟩ : ∃ ids', c'.typeIds t.name = some ids' := ⟨_, if_pos declared'⟩
  obtain ⟨_, own'⟩ := typeIdsOk known'
  have same : ∀ id, id ∈ ids ↔ id ∈ ids' := by
    intro id
    rw [own.members, own'.members]
    constructor
    · rintro ⟨u, inside, typed, path⟩
      exact ⟨u, more.types inside, typed, (more.reaches accepted accepted' inside).mpr path⟩
    · rintro ⟨u, inside, typed, path⟩
      by_cases old : u ∈ c.types
      · exact ⟨u, old, typed, (more.reaches accepted accepted' old).mp path⟩
      · cases (apart u inside old).symm.trans (idBelowSome.mpr ⟨typed, path⟩)
  rw [known', own.unique own' same]

end Catalog

namespace Context

theorem extensionKeepsQueries (l : Layout) (r : Request) :
    (∀ s s' : Schema, s.ExtendedBy s' → s'.typeIds r.resultType = s.typeIds r.resultType →
      (∀ q, (mk s l).compileRows r = .ok q → (mk s' l).compileRows r = .ok q) ∧
      ∀ q, (mk s l).compileCount r = .ok q → (mk s' l).compileCount r = .ok q) ∧
    ∀ (c c' : Catalog) (s s' : Schema), c.toSchema = .ok s → c'.toSchema = .ok s' → c.ExtendedBy c' →
      (∀ t ∈ c'.types, t ∉ c.types → c'.idBelow r.resultType t = none) →
      (∀ q, (mk s l).compileRows r = .ok q → (mk s' l).compileRows r = .ok q) ∧
      ∀ q, (mk s l).compileCount r = .ok q → (mk s' l).compileCount r = .ok q := by
  refine ⟨fun s s' more types => ⟨fun q => rowsStay more types, fun q => countStays more types⟩, ?_⟩
  intro c c' s s' loaded loaded' more apart
  obtain ⟨accepted, rfl⟩ := Catalog.toSchemaOk loaded
  obtain ⟨accepted', rfl⟩ := Catalog.toSchemaOk loaded'
  -- a query that compiles has found the ids of its type
  have types : ∀ {restriction n}, (mk ⟨c.tableOf, c.typeIds, c.enumKey, Value.sqlType⟩ l).restrict r 0 =
      .ok restriction n → c'.typeIds r.resultType = c.typeIds r.resultType := by
    intro restriction n restricted
    obtain ⟨ids, _, ⟨known, _⟩, _⟩ := restrictOk restricted
    have known : c.typeIds r.resultType = some ids := known
    rw [known, more.typeIds accepted accepted' apart known]
  constructor
  · intro q ok
    obtain ⟨plan, n, planned, _⟩ := compileRowsOk.mp ok
    obtain ⟨k, restricted, _⟩ := rowPlanSorted planned
    exact rowsStay (more.schema accepted') (types restricted) ok
  · intro q ok
    obtain ⟨restriction, n, restricted, _⟩ := compileCountOk.mp ok
    exact countStays (more.schema accepted') (types restricted) ok

end Context
namespace ExtensionSample
open RequestSample

def grown : Schema := ((people.schema.withAttribute ⟨"Company", "name"⟩ (.of "company_name" 0)).withTypeIds
  "Company" [20]).withEnumKey "Status" "active" 1

theorem grownExtends : people.schema.ExtendedBy grown where
  tables name t found := by
    refine (if_neg ?_).trans found
    rintro rfl
    cases found
  keys _ _ _ found := nomatch found
  types _ _ known := known

def persons : Catalog where
  types := [⟨"Person", some 1, []⟩]
  attributes := [⟨⟨"Person", "name"⟩, .of "person_name" 0⟩]
  enums := .empty

def personsAndCompanies : Catalog where
  types := [⟨"Company", some 20, []⟩, ⟨"Person", some 1, []⟩]
  attributes := [⟨⟨"Company", "name"⟩, .of "company_name" 0⟩, ⟨⟨"Person", "name"⟩, .of "person_name" 0⟩]
  enums := .ofList [("Status", .ofList [("active", 1)])]

def named : Request := ⟨"Person", some (.leaf (.compare name .eq (.literal (.text "Ann")))), [], none, none⟩

def schemaOf (c : Catalog) : Schema := ⟨c.tableOf, c.typeIds, c.enumKey, Value.sqlType⟩

theorem companiesApart : ∀ t ∈ personsAndCompanies.types, t ∉ persons.types →
    personsAndCompanies.idBelow "Person" t = none := by
  have company : personsAndCompanies.ancestors "Company" = ["Company"] := by
    simp [Catalog.ancestors, Catalog.reached, personsAndCompanies, List.find?]
  refine List.forall_mem_cons.mpr ⟨fun _ => ?_, List.forall_mem_singleton.mpr fun new => ?_⟩
  · simp [Catalog.idBelow, company]
  · exact absurd (List.mem_singleton_self _) new

theorem personIds : persons.typeIds "Person" = some [1] := by
  have person : persons.ancestors "Person" = ["Person"] := by
    simp [Catalog.ancestors, Catalog.reached, persons, List.find?]
  have below : persons.types.filterMap (persons.idBelow "Person") = [1] := by
    change [⟨"Person", some 1, []⟩].filterMap (persons.idBelow "Person") = _
    simp [Catalog.idBelow, person]
  rw [Catalog.typeIds, below, if_pos (by decide), List.mergeSort_singleton]
  rfl

theorem queriesKept :
    (∃ q, people.compileRows request = .ok q ∧ Context.compileRows ⟨grown, .default⟩ request = .ok q) ∧
    ∃ q, Context.compileCount ⟨schemaOf persons, .default⟩ named = .ok q ∧
      Context.compileCount ⟨schemaOf personsAndCompanies, .default⟩ named = .ok q := by
  obtain ⟨q, ok⟩ : ∃ q, people.compileRows request = .ok q := ⟨_, rfl⟩
  have grows := ((Context.extensionKeepsQueries .default request).1 people.schema grown grownExtends rfl).1 q ok
  have declares : persons.ExtendedBy personsAndCompanies :=
    ⟨List.subset_cons_self _ _, List.subset_cons_self _ _, fun _ _ _ found => nomatch found⟩
  obtain ⟨restriction, n, restricted⟩ :
      ∃ restriction n, Context.restrict ⟨schemaOf persons, .default⟩ named 0 = .ok restriction n := by
    unfold Context.restrict
    rw [show (schemaOf persons).typeIds named.resultType = some [1] from personIds]
    exact ⟨_, _, rfl⟩
  have counted := Context.compileCountOk.mpr ⟨_, _, restricted, rfl⟩
  have kept := ((Context.extensionKeepsQueries .default named).2 persons personsAndCompanies _ _ rfl rfl declares
    companiesApart).2 _ counted
  exact ⟨⟨q, ok, grows⟩, _, counted, kept⟩

end ExtensionSample
end ObjectQuery
