import ObjectQuery.Proofs.BoundValue
import ObjectQuery.Proofs.Decided
import ObjectQuery.Proofs.Link
import ObjectQuery.Proofs.Variables

/-! What it takes for a condition on a single path to compile. Every name on the path is mapped, the path
is not too deep and its end fits the condition, and the operand can be bound. Neither the polarity nor the
aliases given out before matter. -/
namespace ObjectQuery
open Outcome

namespace Context

def Mapped (ctx : Context) (name : QualifiedName) : Prop := ∃ t, ctx.schema.tableOf name = some t

def IsCollection (ctx : Context) (name : QualifiedName) : Prop :=
  ∃ t, ctx.schema.tableOf name = some t ∧ t.isCollection = true

def TextBound (ctx : Context) (operand : Operand) : Prop :=
  ∃ s b, operand = .literal (.text s) ∧ ctx.bind (.text s) = .ok b

end Context

structure AssociationPath.Known (ctx : Context) (a : AssociationPath) : Prop where
  depth : a.hops.length ≤ ctx.layout.maxDepth.toNat
  hops : ∀ hop ∈ a.hops, ctx.Mapped hop.name

namespace PropertyPath

structure Known (ctx : Context) (p : PropertyPath) : Prop where
  depth : p.length ≤ ctx.layout.maxDepth.toNat
  associations : ∀ hop ∈ p.associationHops, ctx.Mapped hop.name
  properties : ∀ name ∈ p.hops, name.isIdentity = false → ctx.Mapped name
  alone : (∃ name ∈ p.hops, name.isIdentity = true) → p.before = []

def Single (ctx : Context) (p : PropertyPath) : Prop := p.last.isIdentity = false → ¬ctx.IsCollection p.last

end PropertyPath

namespace Value

mutual
def Admitted (ctx : Context) : Value → Prop
  | .composite _ fields => FieldsAdmitted ctx fields
  | v => v.isNull = true ∨ ∃ b, ctx.bind v = .ok b
def FieldsAdmitted (ctx : Context) : List (QualifiedName × Value) → Prop
  | [] => True
  | (name, v) :: rest => (ctx.Mapped name ∧ ¬ctx.IsCollection name ∧ v.isCollection = false) ∧
      Admitted ctx v ∧ FieldsAdmitted ctx rest
end

theorem admittedPlain {ctx : Context} {v : Value} (plain : ∀ t fields, v ≠ .composite t fields) :
    v.Admitted ctx = (v.isNull = true ∨ ∃ b, ctx.bind v = .ok b) := by
  cases v with
  | composite t fields => exact absurd rfl (plain t fields)
  | _ => rfl

end Value

namespace Leaf

def Admitted (ctx : Context) : Leaf → Prop
  | .compare p _ operand =>
    (∃ v, operand = .literal v ∧ v.isNull = false ∧ ∃ b, ctx.bind v = .ok b) ∧ p.Known ctx ∧ p.Single ctx
  | .matches p operand => ctx.TextBound operand ∧ p.Known ctx ∧ p.Single ctx
  | .propertyNull p _ => p.Known ctx
  | .associationNull a _ => a.Known ctx
  | .reaches a operand => ctx.TextBound operand ∧ a.Known ctx
  | .contains p operand => ∃ v, operand = .literal v ∧ v.isCollection = false ∧
      p.Known ctx ∧ ctx.IsCollection p.last ∧ v.Admitted ctx
  | .containsAll p operand => ∃ items kept, operand = .literal (.collection items) ∧
      ctx.keepDistinct [] (Value.flattenAll items) = .ok kept ∧
      (kept = [] ∨ p.Known ctx ∧ ctx.IsCollection p.last ∧ ∀ v ∈ kept, v.Admitted ctx)

end Leaf

namespace Context

variable {ctx : Context} {names : List String} {kind : JoinKind}

theorem lookupAnswers (name : QualifiedName) : Answers names (ctx.Mapped name) (ctx.lookup name) := by
  unfold lookup Mapped
  cases ctx.schema.tableOf name with
  | some t => exact Answers.given.changed (by simp)
  | none => exact (Answers.refused).changed (by simp)

theorem checkDepthAnswers (hops : Nat) (path : String) :
    Answers names (hops ≤ ctx.layout.maxDepth.toNat) (ctx.checkDepth hops path) := by
  unfold checkDepth
  split
  · next beyond => exact (Answers.refused).changed (by simpa using beyond)
  · next within => exact Answers.given.changed (by simpa using within)

theorem literalAnswers (operand : Operand) :
    Answers operand.freeVariables (∃ v, operand = .literal v) (literal operand) := by
  cases operand with
  | literal v => exact Answers.given.changed (by simp)
  | «variable» x =>
    refine ⟨by simp [literal], fun y same => ?_⟩
    cases same
    exact List.mem_singleton_self x

theorem bindAnswers (v : Value) : Answers names (∃ b, ctx.bind v = .ok b) (ctx.bind v) := by
  refine ⟨Iff.rfl, fun y failed => ?_⟩
  unfold bind at failed
  split at failed
  · split at failed
    · cases failed
    · split at failed
      · split at failed <;> cases failed
      · cases failed
  · cases failed

theorem aliasDecides : Decides names True Lay.newAlias := ⟨fun _ => by simp [layAliasOk], nofun⟩

theorem joinDecides (j : Join) : Decides names True (Lay.join j) :=
  ⟨fun _ => ⟨fun _ => trivial, fun _ => ⟨(), _, layJoinOk.mpr rfl⟩⟩, nofun⟩

theorem mappedFirst {name : QualifiedName} :
    (∃ t, ctx.lookup name = .ok t ∧ P) ↔ ctx.Mapped name ∧ P := by
  simp only [lookupOk, Mapped, exists_and_right]

theorem layHopsDecides (hops : List AssociationHop) (reached : AssociationTarget) :
    Decides names (∀ hop ∈ hops, ctx.Mapped hop.name) (ctx.layHops kind hops reached) := by
  induction hops generalizing reached with
  | nil => exact (Decides.given _).changed (by simp)
  | cons hop rest ih =>
    refine (Decides.asked (lookupAnswers hop.name) fun t _ =>
      aliasDecides.after fun joined => (joinDecides _).after fun _ => ih _).changed ?_
    rw [mappedFirst, List.forall_mem_cons]

theorem layAssociationDecides (a : AssociationPath) (root : Alias) :
    Decides names (a.Known ctx) (ctx.layAssociation a root kind) :=
  (((Decides.lifted (checkDepthAnswers _ _)).next fun _ _ _ _ => layHopsDecides a.hops _)).changed
    ⟨fun both => ⟨both.1, both.2⟩, fun known => ⟨known.depth, known.hops⟩⟩

theorem layEntityDecides (reference : Column) : Decides names True (ctx.layEntity reference kind) :=
  aliasDecides.after fun _ => (joinDecides _).after fun _ => .given _

theorem layPropertyDecides (owner : Owner) (name : QualifiedName) :
    Decides names (ctx.Mapped name) (ctx.layProperty kind owner name) :=
  (Decides.asked (lookupAnswers name) fun _ _ => aliasDecides.after fun _ => (joinDecides _).after fun _ =>
    .given _).changed (by rw [mappedFirst, and_true])

theorem layPropertiesDecides (path : List QualifiedName) (owner : Owner) :
    Decides names (∀ name ∈ path, ctx.Mapped name) (ctx.layProperties kind path owner) := by
  induction path generalizing owner with
  | nil => exact (Decides.given _).changed (by simp)
  | cons name rest ih =>
    refine ((layPropertyDecides owner name).next fun _ _ _ _ => ih _).changed ?_
    rw [List.forall_mem_cons]

theorem layIdentityDecides (p : PropertyPath) (root : Alias) :
    Decides names (∀ hop ∈ p.associationHops, ctx.Mapped hop.name) (ctx.layIdentity p root kind) := by
  unfold layIdentity PropertyPath.associationHops
  cases p.association with
  | none => exact ((Decides.given _).after fun _ => .given _).changed (by simp)
  | some a =>
    refine ((layHopsDecides a.hops _).next fun s reached t _ => ?_).changed (and_iff_left trivial)
    exact (layEntityDecides _).after fun _ => .given _

theorem layAttributeDecides (p : PropertyPath) (root : Alias) :
    Decides names ((∀ hop ∈ p.associationHops, ctx.Mapped hop.name) ∧ ∀ name ∈ p.hops, ctx.Mapped name)
      (ctx.layAttribute p root kind) := by
  refine ((layHopsDecides p.associationHops _).next fun _ _ _ _ =>
    (layPropertiesDecides p.before _).next fun _ _ _ _ =>
      (layPropertyDecides _ p.last).next fun _ _ _ _ => .given _).changed ?_
  simp [PropertyPath.hops, or_imp, forall_and]

theorem layPathDecides (p : PropertyPath) (root : Alias) :
    Decides names (p.Known ctx) (ctx.layPath p root kind) := by
  have depth : Answers names (p.length ≤ ctx.layout.maxDepth.toNat) (ctx.checkDepth p.length p.text) :=
    checkDepthAnswers _ _
  refine ((Decides.lifted depth).next (Q := (∀ hop ∈ p.associationHops, ctx.Mapped hop.name) ∧
    (∀ name ∈ p.hops, name.isIdentity = false → ctx.Mapped name) ∧
    ((∃ name ∈ p.hops, name.isIdentity = true) → p.before = [])) fun _ _ _ _ => ?_).changed
    ⟨fun all => ⟨all.1, all.2.1, all.2.2.1, all.2.2.2⟩,
      fun known => ⟨known.depth, known.associations, known.properties, known.alone⟩⟩
  split
  · next identity =>
    have found : ∃ name ∈ p.hops, name.isIdentity = true := by simpa using identity
    split
    · next alone =>
      have alone : p.before = [] := List.isEmpty_iff.mp alone
      have only : ∀ name ∈ p.hops, name.isIdentity = true := by simpa [PropertyPath.hops, alone] using found
      exact (layIdentityDecides p root).changed ⟨fun hops => ⟨hops, fun name mem stored =>
        Bool.noConfusion ((only name mem).symm.trans stored), fun _ => alone⟩, And.left⟩
    · next follows =>
      have follows : p.before ≠ [] := fun same => follows (List.isEmpty_iff.mpr same)
      have other (name : String) : CompileError.unsupported (.identityInside p) ≠ .unresolved name := by
        intro same
        cases same
      exact (Decides.refused other).changed ⟨False.elim, fun known => follows (known.2.2 found)⟩
  · next absent =>
    have stored : ∀ name ∈ p.hops, name.isIdentity = false := by simpa using absent
    refine (layAttributeDecides p root).changed ⟨fun both => ⟨both.1, fun name mem _ => both.2 name mem, ?_⟩,
      fun known => ⟨known.1, fun name mem => known.2.1 name mem (stored name mem)⟩⟩
    rintro ⟨name, mem, identity⟩
    rw [stored name mem] at identity
    cases identity

theorem lookupRefused {name : QualifiedName} {e : CompileError} (failed : ctx.lookup name = .error e) :
    ¬ctx.Mapped name ∧ e = .inconsistent (.unmapped name) := by
  unfold lookup at failed
  cases found : ctx.schema.tableOf name with
  | some t => simp [found] at failed
  | none =>
    rw [found] at failed
    cases failed
    exact ⟨by simp [Mapped, found], rfl⟩

theorem someCollectionRefused {path : List QualifiedName} {e : CompileError}
    (failed : fansOut.someCollection ctx path = .error e) :
    ∃ name ∈ path, name.isIdentity = false ∧ ¬ctx.Mapped name ∧ e = .inconsistent (.unmapped name) := by
  induction path with
  | nil => cases failed
  | cons name rest ih =>
    have later (failed : fansOut.someCollection ctx rest = .error e) :
        ∃ name' ∈ name :: rest, name'.isIdentity = false ∧ ¬ctx.Mapped name' ∧
          e = .inconsistent (.unmapped name') := by
      obtain ⟨name', mem, what⟩ := ih failed
      exact ⟨name', List.mem_cons_of_mem _ mem, what⟩
    unfold fansOut.someCollection at failed
    split at failed
    · exact later failed
    · next stored =>
      cases found : ctx.lookup name with
      | error e' =>
        rw [found] at failed
        cases failed
        exact ⟨name, List.mem_cons_self, by simpa using stored, lookupRefused found⟩
      | ok t =>
        rw [found] at failed
        replace failed : (if t.isCollection then .ok true else fansOut.someCollection ctx rest) = .error e := failed
        split at failed
        · cases failed
        · exact later failed

theorem fansOutRefused {p : PropertyPath} {e : CompileError} (failed : ctx.fansOut p = .error e) :
    ¬p.Known ctx ∧ ∀ y, e ≠ .unresolved y := by
  unfold fansOut at failed
  split at failed
  · cases failed
  · obtain ⟨name, mem, stored, unmapped, rfl⟩ := someCollectionRefused failed
    exact ⟨fun known => unmapped (known.properties name (List.mem_append_left _ mem) stored), nofun⟩

theorem scalarTestAnswers (column : Column) (v : Value) :
    Answers names (v.isNull = true ∨ ∃ b, ctx.bind v = .ok b) (ctx.scalarTest column v) := by
  unfold scalarTest
  split
  · next null => exact Answers.given.changed (by simp [null])
  · next some => exact ((bindAnswers v).next fun _ _ => .given).changed (by simp [some])

theorem childAliasDecides (parent : ElementSource) (field : QualifiedName) (table : AttributeTable)
    (children : Children) : Decides names True (ctx.childAlias parent field table children) := by
  unfold childAlias
  split
  · exact .given _
  · exact aliasDecides.after fun _ => (joinDecides _).after fun _ => .given _

theorem valueTestsPlainDecides {v : Value} (plain : ∀ t fields, v ≠ .composite t fields)
    (source : ElementSource) (children : Children) :
    Decides names (v.Admitted ctx) (ctx.valueTests source v children) := by
  rw [valueTestsPlain plain, Value.admittedPlain plain]
  exact ((Decides.lifted (scalarTestAnswers _ v)).next fun _ _ _ _ => .given _).changed (and_iff_left trivial)

theorem fieldAdmitted {field : QualifiedName} {v : Value} {fields : List (QualifiedName × Value)} :
    (∃ t, ctx.lookup field = .ok t ∧ ¬(t.isCollection || v.isCollection) = true ∧
      v.Admitted ctx ∧ Value.FieldsAdmitted ctx fields) ↔ Value.FieldsAdmitted ctx ((field, v) :: fields) := by
  simp only [lookupOk, Value.FieldsAdmitted, Mapped, IsCollection]
  cases ctx.schema.tableOf field with
  | none => simp
  | some t => simp [and_assoc]

mutual
theorem valueTestsDecides (source : ElementSource) : ∀ (v : Value) (children : Children),
    Decides names (v.Admitted ctx) (ctx.valueTests source v children)
  | .composite _ fields, children =>
    ((fieldTestsDecides source fields children).next fun _ _ _ _ => .given _).changed (and_iff_left trivial)
  | .null, _ | .bool _, _ | .int _, _ | .float _, _ | .text _, _ | .date _, _ | .timestamp _, _
  | .enum _ _, _ | .collection _, _ => valueTestsPlainDecides (by simp) source _
theorem fieldTestsDecides (parent : ElementSource) :
    ∀ (fields : List (QualifiedName × Value)) (children : Children),
      Decides names (Value.FieldsAdmitted ctx fields) (ctx.fieldTests parent fields children)
  | [], children => .given _
  | (field, v) :: rest, children => by
    refine (Decides.asked (lookupAnswers field) fun t _ => Decides.checked fun _ =>
      (childAliasDecides parent field t children).after fun joined =>
        (valueTestsDecides _ v _).next fun _ tested _ _ =>
          (fieldTestsDecides parent rest _).next fun _ _ _ _ => .given _).changed ?_
    rw [← fieldAdmitted]
    simp only [and_true]
end

theorem elementTestDecides (source : ElementSource) (v : Value) (children : Children) :
    Decides names (v.Admitted ctx) (ctx.elementTest source v children) :=
  ((valueTestsDecides source v children).next fun _ _ _ _ => .given _).changed (and_iff_left trivial)

theorem elementTestsDecides (source : ElementSource) (elements : List Value) (children : Children) :
    Decides names (∀ v ∈ elements, v.Admitted ctx) (ctx.elementTests source elements children) := by
  induction elements generalizing children with
  | nil => exact (Decides.given _).changed (by simp)
  | cons v rest ih =>
    refine ((elementTestDecides source v children).next fun _ _ _ _ =>
      (ih _).next fun _ _ _ _ => .given _).changed ?_
    rw [List.forall_mem_cons, and_true]

theorem keepDistinctAnswers (kept rest : List Value) :
    Answers names (∃ all, ctx.keepDistinct kept rest = .ok all) (ctx.keepDistinct kept rest) := by
  refine ⟨Iff.rfl, fun y failed => ?_⟩
  obtain ⟨v, failed⟩ := keepDistinctRefused failed
  exact (bindAnswers v).blames y failed

theorem layCollectionDecides (p : PropertyPath) (root : Alias) :
    Decides names (p.Known ctx ∧ ctx.IsCollection p.last) (ctx.layCollection p root kind) := by
  refine (layPathDecides p root).next fun s target t laid => ?_
  obtain ⟨links, there⟩ := layPathLaid laid
  rw [there.name]
  refine (Decides.asked (Q := fun table => table.isCollection = true) (lookupAnswers p.last)
    fun table _ => ?_).changed (by simp only [lookupOk, IsCollection])
  split
  · next fits => exact (Decides.given _).changed (iff_of_true trivial fits)
  · next other => exact (Decides.refused).changed (iff_of_false id other)

end Context

namespace Scope

variable {sc : Scope} {names : List String} {P : Prop}

theorem everythingDecides : Decides names True sc.everything := ⟨fun n => by simp [everythingOk], nofun⟩

theorem nothingDecides : Decides names True sc.nothing := everythingDecides.after fun _ => .given _

theorem complementDecides (positive : SetPlan) : Decides names True (sc.complement positive) :=
  everythingDecides.after fun _ => .given _

theorem complementIfDecides (negated : Bool) (positive : SetPlan) :
    Decides names True (sc.complementIf negated positive) := by
  cases negated with
  | false => exact .given _
  | true => exact complementDecides positive

theorem onRowDecides {fansOut : Except CompileError Bool} {f : Bool → Compile SetPlan}
    (refused : ∀ e, fansOut = .error e → ¬P ∧ ∀ y, e ≠ .unresolved y)
    (each : ∀ negated, Decides names P (f negated)) (negated : Bool) :
    Decides names P (sc.onRow fansOut f negated) := by
  cases negated with
  | false => exact each false
  | true =>
    cases asked : fansOut with
    | error e =>
      obtain ⟨fails, other⟩ := refused e asked
      exact (Decides.refused other).changed (iff_of_false id fails)
    | ok many =>
      cases many with
      | true => exact ((each false).next fun _ _ _ _ => complementDecides _).changed (and_iff_left trivial)
      | false => exact each true

theorem collectionTarget {p : PropertyPath} {root : Alias} {target : PropertyTarget} {kind : JoinKind}
    {r r' : Route} (laid : sc.layPath p root kind r = .ok target r') :
    target.isCollection = true ↔ ¬p.Single sc.toContext := by
  obtain ⟨links, there⟩ := Context.layPathLaid laid
  rw [PropertyTarget.isCollection, there.table, PropertyPath.Single, Context.IsCollection]
  cases p.last.isIdentity <;> simp [Option.any_eq_true]

theorem scalarSelectionDecides (kind : LeafKind) (p : PropertyPath) (operator : Operator)
    (parameter : BoundParameter) (negated : Bool) :
    Decides names (p.Known sc.toContext ∧ p.Single sc.toContext)
      (sc.scalarSelection kind p operator parameter negated) :=
  Decides.selecting fun root => (Context.layPathDecides p root).next fun _ target _ laid =>
    (Decides.checked fun _ => .given _).changed (by rw [collectionTarget laid, not_not, and_true])

theorem textParameterAnswers (operand : Operand) (fault : ValueKind → Unsupported) :
    Answers operand.freeVariables (sc.TextBound operand) (sc.textParameter operand fault) := by
  refine ((Context.literalAnswers operand).next (Q := fun v => ∃ s b, v = .text s ∧ sc.bind (.text s) = .ok b)
    fun v _ => ?_).changed ?_
  · cases v with
    | text s => exact (Context.bindAnswers _).changed (by simp)
    | _ => exact (Answers.refused).changed (by simp)
  · simp only [Context.literalOk, Context.TextBound]
    exact ⟨fun ⟨v, same, s, b, text, bound⟩ => ⟨s, b, text ▸ same, bound⟩,
      fun ⟨s, b, same, bound⟩ => ⟨_, same, s, b, rfl, bound⟩⟩

variable (p : PropertyPath) (a : AssociationPath) (operand : Operand) (negated : Bool)

theorem compareDecides (c : Comparison) : Decides operand.freeVariables
    ((Leaf.compare p c operand).Admitted sc.toContext) (sc.compare p c operand negated) := by
  refine (Decides.asked (Context.literalAnswers operand) fun v _ => Decides.checked fun _ =>
    Decides.asked (Context.bindAnswers v) fun parameter _ =>
      scalarSelectionDecides c.kind p _ parameter negated).changed ?_
  simp only [Context.literalOk, Leaf.Admitted, Bool.not_eq_true]
  constructor
  · intro ⟨v, literal, stored, parameter, bound, path⟩
    exact ⟨⟨v, literal, stored, parameter, bound⟩, path⟩
  · intro ⟨⟨v, literal, stored, parameter, bound⟩, path⟩
    exact ⟨v, literal, stored, parameter, bound, path⟩

theorem matchPatternDecides : Decides operand.freeVariables
    ((Leaf.matches p operand).Admitted sc.toContext) (sc.matchPattern p operand negated) := by
  refine (Decides.asked (textParameterAnswers operand _) fun parameter _ =>
    scalarSelectionDecides .matches p _ parameter negated).changed ?_
  rw [exists_and_right, (textParameterAnswers operand _).done, Leaf.Admitted]

theorem propertyNullDecides (isNull : Bool) : Decides names
    ((Leaf.propertyNull p isNull).Admitted sc.toContext) (sc.propertyNull p isNull negated) :=
  Decides.selecting fun root =>
    ((Context.layPathDecides p root).next fun _ _ _ _ => .given _).changed (and_iff_left trivial)

theorem associationNullDecides (isNull : Bool) : Decides names
    ((Leaf.associationNull a isNull).Admitted sc.toContext) (sc.associationNull a isNull negated) :=
  Decides.selecting fun root =>
    ((Context.layAssociationDecides a root).next fun _ _ _ _ => .given _).changed (and_iff_left trivial)

theorem reachesDecides : Decides operand.freeVariables
    ((Leaf.reaches a operand).Admitted sc.toContext) (sc.reaches a operand) := by
  refine (Decides.asked (textParameterAnswers operand _) fun parameter _ => Decides.selecting fun root =>
    (Context.layAssociationDecides a root).next fun _ target _ _ =>
      (Context.layEntityDecides target.reference).after fun _ => .given _).changed ?_
  rw [exists_and_right, (textParameterAnswers operand _).done, and_true, Leaf.Admitted]

theorem containsDecides : Decides operand.freeVariables
    ((Leaf.contains p operand).Admitted sc.toContext) (sc.contains p operand) := by
  refine (Decides.asked (Context.literalAnswers operand) fun v _ => Decides.checked fun _ =>
    Decides.selecting fun root => (Context.layCollectionDecides p root).next fun _ laid _ _ =>
      (Context.elementTestDecides laid.2 v []).next fun _ _ _ _ => .given _).changed ?_
  simp only [Context.literalOk, Leaf.Admitted, Bool.not_eq_true, and_true, and_assoc]

theorem dividingDecides (elements : List Value) : Decides names
    ((p.Known sc.toContext ∧ sc.IsCollection p.last) ∧ ∀ v ∈ elements, v.Admitted sc.toContext)
    (sc.dividing p elements) := by
  refine Decides.selecting fun root => (Context.layCollectionDecides p root).next fun _ laid _ _ => ?_
  exact ((Context.elementTestsDecides laid.2 elements []).next fun _ _ _ _ => .given _).changed (and_iff_left trivial)

theorem distinctElementsAnswers : Answers operand.freeVariables
    (∃ kept, sc.distinctElements p operand = .ok kept) (sc.distinctElements p operand) := by
  refine ((Context.literalAnswers operand).next (Q := fun v => ∃ items kept, v = .collection items ∧
    sc.keepDistinct [] (Value.flattenAll items) = .ok kept) fun v _ => ?_).settled
  cases v with
  | collection items => exact (Context.keepDistinctAnswers [] _).changed (by simp)
  | _ => exact (Answers.refused).changed (by simp)

theorem containsAllDecides : Decides operand.freeVariables
    ((Leaf.containsAll p operand).Admitted sc.toContext) (sc.containsAll p operand negated) := by
  refine (Decides.asked (Q := fun kept => kept = [] ∨
    p.Known sc.toContext ∧ sc.IsCollection p.last ∧ ∀ v ∈ kept, v.Admitted sc.toContext)
    (distinctElementsAnswers p operand) fun kept _ => ?_).changed ?_
  · cases kept with
    | nil =>
      cases negated with
      | true => exact nothingDecides.mapped.changed (by simp)
      | false => exact (Decides.given _).changed (by simp)
    | cons v kept =>
      refine (((dividingDecides p (v :: kept)).next fun _ positive _ _ =>
        complementIfDecides negated positive).mapped (g := some)).changed ?_
      simp only [and_true, and_assoc, reduceCtorEq, false_or]
  · simp only [distinctElementsOk, Leaf.Admitted]
    constructor
    · exact fun ⟨kept, ⟨items, same, ok⟩, rest⟩ => ⟨items, kept, same, ok, rest⟩
    · exact fun ⟨items, kept, same, ok, rest⟩ => ⟨kept, ⟨items, same, ok⟩, rest⟩

theorem leafDecides (l : Leaf) : Decides l.freeVariables (l.Admitted sc.toContext) (sc.leaf l negated) := by
  have tooFar {p : PropertyPath} {Q : Prop} (path : Q → p.Known sc.toContext) (e : CompileError)
      (failed : sc.fansOut p = .error e) : ¬Q ∧ ∀ y, e ≠ .unresolved y :=
    have refused := Context.fansOutRefused failed
    ⟨fun holds => refused.1 (path holds), refused.2⟩
  cases l with
  | compare p c operand =>
    exact (onRowDecides (tooFar fun admitted => admitted.2.1)
      (fun negated => compareDecides p operand negated c) negated).mapped
  | «matches» p operand =>
    exact (onRowDecides (tooFar fun admitted => admitted.2.1) (matchPatternDecides p operand) negated).mapped
  | propertyNull p isNull =>
    exact (onRowDecides (tooFar id) (fun negated => propertyNullDecides p negated isNull) negated).mapped
  | associationNull a isNull =>
    have never (e : CompileError) (failed : .ok a.fansOut = Except.error e) : ¬a.Known sc.toContext ∧
        ∀ y, e ≠ .unresolved y := nomatch failed
    exact (onRowDecides never (fun negated => associationNullDecides a negated isNull) negated).mapped
  | reaches a operand =>
    exact ((reachesDecides a operand).next fun _ positive _ _ => complementIfDecides negated positive).mapped.changed
      (and_iff_left trivial)
  | contains p operand =>
    exact ((containsDecides p operand).next fun _ positive _ _ => complementIfDecides negated positive).mapped.changed
      (and_iff_left trivial)
  | containsAll p operand => exact containsAllDecides p operand negated

end Scope
end ObjectQuery
