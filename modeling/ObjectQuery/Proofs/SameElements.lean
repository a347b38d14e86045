import Mathlib
import ObjectQuery.KeyTable
import ObjectQuery.Proofs.ContainedObjects
import ObjectQuery.Proofs.Resolved

/-! Elements that count as one. Where value objects name each field once, and numbers are told apart, this is an
equivalence; so a collection asked for is counted by its different elements, in whatever order and how often they
are listed. -/
namespace ObjectQuery
open Outcome

theorem floatEqualComm (x y : Float) : (x == y) = (y == x) := by
  rw [Bool.eq_iff_iff, Float.beq_iff_ne_nan_and_eq, Float.beq_iff_ne_nan_and_eq]
  grind

theorem floatEqualTrans {x y z : Float} (first : (x == y) = true) (second : (y == z) = true) : (x == z) = true := by
  rw [Float.beq_iff_ne_nan_and_eq] at *
  grind

namespace Value

/-- Equality tells these numbers apart: each one equals itself, and no float has the rounded value of two integers. -/
structure NumbersApart (values : Set Value) : Prop where
  defined : ∀ x, .float x ∈ values → (x == x) = true
  exact : ∀ i j x, .int i ∈ values → .int j ∈ values → .float x ∈ values →
    (Float.ofInt i.toInt == x) = true → (Float.ofInt j.toInt == x) = true → i = j

theorem NumbersApart.among {values all : Set Value} (apart : NumbersApart all) (inside : values ⊆ all) :
    NumbersApart values :=
  ⟨fun x mem => apart.defined x (inside mem),
    fun i j x first second third => apart.exact i j x (inside first) (inside second) (inside third)⟩

theorem discreteOrFloat {v : Value} (counts : Context.countsItself v = true) : v.Discrete ∨ ∃ x, v = .float x := by
  by_cases float : ∃ x, v = .float x
  · exact .inr float
  · exact .inl ⟨counts, fun x same => float ⟨x, same⟩⟩

end Value

namespace Context

variable {ctx : Context} {a b c v w : Value} {values : Set Value}

theorem sameBoundComm (counts : countsItself a = true) (counts' : countsItself b = true) :
    sameBound a b = sameBound b a := by
  cases a <;> cases b <;>
    simp_all [sameBound, Value.equals, countsItself, Value.isScalar, Value.isNull, floatEqualComm, Bool.beq_comm]

theorem sameBoundSelf (apart : Value.NumbersApart values) (mem : a ∈ values) (counts : countsItself a = true) :
    sameBound a a = true := by
  obtain discrete | ⟨x, rfl⟩ := Value.discreteOrFloat counts
  · exact (sameBoundDiscrete discrete discrete).mpr rfl
  · exact apart.defined x mem

theorem sameAsFloat {x : Float} (discrete : a.Discrete) (same : sameBound a (.float x) = true) :
    ∃ i, a = .int i ∧ (Float.ofInt i.toInt == x) = true := by
  cases a with
  | int i => exact ⟨i, rfl, same⟩
  | float y => exact absurd rfl (discrete.2 y)
  | _ => cases same

theorem sameBoundTrans (apart : Value.NumbersApart values) (mem : a ∈ values) (mem' : b ∈ values) (mem'' : c ∈ values)
    (counts : countsItself a = true) (counts' : countsItself b = true) (counts'' : countsItself c = true)
    (first : sameBound a b = true) (second : sameBound b c = true) : sameBound a c = true := by
  -- a float between two integers is the one case in which more than the rounded values has to agree
  obtain discrete | ⟨x, rfl⟩ := Value.discreteOrFloat counts <;>
    obtain discrete' | ⟨y, rfl⟩ := Value.discreteOrFloat counts' <;>
    obtain discrete'' | ⟨z, rfl⟩ := Value.discreteOrFloat counts''
  · obtain rfl := (sameBoundDiscrete discrete discrete').mp first
    exact second
  · obtain rfl := (sameBoundDiscrete discrete discrete').mp first
    exact second
  · rw [sameBoundComm counts' counts''] at second
    obtain ⟨i, rfl, rounded⟩ := sameAsFloat discrete first
    obtain ⟨j, rfl, rounded'⟩ := sameAsFloat discrete'' second
    obtain rfl := apart.exact i j y mem mem'' mem' rounded rounded'
    exact (sameBoundDiscrete discrete discrete).mpr rfl
  · obtain ⟨i, rfl, rounded⟩ := sameAsFloat discrete first
    exact floatEqualTrans rounded second
  · obtain rfl := (sameBoundDiscrete discrete' discrete'').mp second
    exact first
  · rw [sameBoundComm counts counts'] at first
    obtain ⟨j, rfl, rounded⟩ := sameAsFloat discrete' first
    exact floatEqualTrans ((floatEqualComm _ _).trans rounded) second
  · rw [sameBoundComm counts' counts''] at second
    obtain ⟨j, rfl, rounded⟩ := sameAsFloat discrete'' second
    rw [sameBoundComm counts counts'']
    exact floatEqualTrans rounded ((floatEqualComm _ _).trans first)
  · exact floatEqualTrans first second

end Context

inductive Value.BindsIn (ctx : Context) (values : Set Value) : Value → Prop where
  | null : BindsIn ctx values .null
  | bound {v b} (binds : ctx.Binds v b) (inside : b.value ∈ values) : BindsIn ctx values v
  | object {t fields} (each : ∀ f ∈ fields, BindsIn ctx values f.2) : BindsIn ctx values (.composite t fields)

theorem Value.BindsIn.fields {ctx : Context} {values : Set Value} {t : String} {fields : List (QualifiedName × Value)}
    (binds : (composite t fields).BindsIn ctx values) : ∀ f ∈ fields, f.2.BindsIn ctx values := by
  cases binds with
  | bound binds => cases binds.counts
  | object each => exact each

namespace Context

variable {ctx : Context} {u v w : Value} {values : Set Value} {b : BoundParameter}

theorem Binds.boundCounts (binds : ctx.Binds v b) : countsItself b.value = true := by
  cases binds with
  | key => rfl
  | plain counts => exact counts

theorem boundInside (inside : w.BindsIn ctx values) (bound : ctx.bind w = .ok b) (some : w.isNull = false) :
    b.value ∈ values := by
  cases inside with
  | null => cases some
  | bound binds inside =>
    cases binds.bound.symm.trans bound
    exact inside
  | object each => cases bound

theorem boundEqualBound (binds : ctx.Binds v b) (inside : w.BindsIn ctx values)
    (same : ctx.boundEqual v w = .ok true) :
    ∃ b', ctx.Binds w b' ∧ b'.value ∈ values ∧ sameBound b.value b'.value = true := by
  obtain ⟨some, plain⟩ := countsPlain binds.counts
  obtain ⟨x, y, first, second, equal⟩ := boundEqualScalar some plain same
  cases binds.bound.symm.trans first
  have some' := boundEqualNotNull some same
  exact ⟨y, bindBinds some' second, boundInside inside second some', equal⟩

theorem boundEqualSelf (apart : Value.NumbersApart values) (binds : v.BindsIn ctx values) (once : v.NamedOnce) :
    ctx.boundEqual v v = .ok true := by
  induction binds with
  | null => rfl
  | bound binds inside =>
    rw [boundEqualBinds binds binds, sameBoundSelf apart inside binds.boundCounts]
  | @object t fields each ih =>
    refine boundEqualObject.mpr ⟨t, fields, rfl, rfl, fun f mem => ⟨f.2, (lookupIff once.1).mpr mem, ?_⟩⟩
    exact ih f mem (Value.fieldsNamedOnce.mp once.2 f mem)

theorem boundEqualSymm (binds : v.BindsIn ctx values) (binds' : w.BindsIn ctx values) (once : v.NamedOnce)
    (same : ctx.boundEqual v w = .ok true) : ctx.boundEqual w v = .ok true := by
  refine Value.sameElements (P := fun v w => v.BindsIn ctx values → w.BindsIn ctx values →
      ctx.boundEqual w v = .ok true) (fun _ _ => rfl) (fun v w some plain same _ _ => ?_)
    (fun t t' left right lengths once _ fromRight binds binds' => ?_) once same binds binds'
  · obtain ⟨x, y, first, second, equal⟩ := boundEqualScalar some plain same
    have binds := bindBinds some first
    have binds' := bindBinds (boundEqualNotNull some same) second
    rw [boundEqualBinds binds' binds, sameBoundComm binds'.boundCounts binds.boundCounts, equal]
  · refine boundEqualObject.mpr ⟨t, left, rfl, lengths.symm, fun g mem => ?_⟩
    obtain ⟨v, inside, back⟩ := fromRight g mem
    exact ⟨v, (lookupIff once).mpr inside, back (binds.fields _ inside) (binds'.fields _ mem)⟩

theorem boundEqualTrans (apart : Value.NumbersApart values) (binds : u.BindsIn ctx values)
    (binds' : v.BindsIn ctx values) (binds'' : w.BindsIn ctx values) (first : ctx.boundEqual u v = .ok true)
    (second : ctx.boundEqual v w = .ok true) : ctx.boundEqual u w = .ok true := by
  induction binds generalizing v w with
  | null =>
    cases v with
    | null => exact second
    | _ => cases first
  | bound binds inside =>
    obtain ⟨b', bound', inside', equal⟩ := boundEqualBound binds binds' first
    obtain ⟨b'', bound'', inside'', equal'⟩ := boundEqualBound bound' binds'' second
    rw [boundEqualBinds binds bound'', sameBoundTrans apart inside inside' inside'' binds.boundCounts
      bound'.boundCounts bound''.boundCounts equal equal']
  | object each ih =>
    obtain ⟨_, middle, rfl, lengths, found⟩ := boundEqualObject.mp first
    obtain ⟨t', right, rfl, lengths', found'⟩ := boundEqualObject.mp second
    refine boundEqualObject.mpr ⟨t', right, rfl, lengths.trans lengths', fun f mem => ?_⟩
    obtain ⟨x, looked, alike⟩ := found f mem
    obtain ⟨y, looked', alike'⟩ := found' _ (Value.lookupMem looked)
    exact ⟨y, looked', ih f mem (binds'.fields _ (Value.lookupMem looked))
      (binds''.fields _ (Value.lookupMem looked')) alike alike'⟩

theorem fieldsEqualAnswered {left right : List (QualifiedName × Value)}
    (each : ∀ f ∈ left, ∀ g ∈ right, ∃ equal, ctx.boundEqual f.2 g.2 = .ok equal) :
    ∃ equal, ctx.fieldsEqual left right = .ok equal := by
  induction left with
  | nil => exact ⟨true, rfl⟩
  | cons f rest ih =>
    obtain ⟨first, more⟩ := List.forall_mem_cons.mp each
    unfold fieldsEqual
    split
    · exact ⟨false, rfl⟩
    · next x looked =>
      obtain ⟨equal, compared⟩ := first _ (Value.lookupMem looked)
      rw [compared]
      cases equal with
      | true => exact ih more
      | false => exact ⟨false, rfl⟩

theorem boundEqualAnswered (binds : v.BindsIn ctx values) (binds' : w.BindsIn ctx values) :
    ∃ equal, ctx.boundEqual v w = .ok equal := by
  induction binds generalizing w with
  | null => exact ⟨_, rfl⟩
  | @bound v b binds inside =>
    have counts := binds.counts
    cases binds' with
    | bound binds' => exact ⟨_, boundEqualBinds binds binds'⟩
    | _ =>
      cases v with
      | null | composite => cases counts
      | _ => exact ⟨false, rfl⟩
  | object each ih =>
    cases binds' with
    | null => exact ⟨false, rfl⟩
    | @bound w b binds' =>
      have counts := binds'.counts
      cases w with
      | composite => cases counts
      | _ => exact ⟨false, rfl⟩
    | object each' =>
      unfold boundEqual
      split
      · exact fieldsEqualAnswered fun f mem g mem' => ih f mem (each' g mem')
      · exact ⟨false, rfl⟩

theorem boundEqualClasses (ctx : Context) (apart : Value.NumbersApart values) :
    Equivalence fun v w : {v : Value // v.NamedOnce ∧ v.BindsIn ctx values} => ctx.boundEqual v w = .ok true where
  refl v := boundEqualSelf apart v.2.2 v.2.1
  symm {v w} same := boundEqualSymm v.2.2 w.2.2 v.2.1 same
  trans {u v w} first second := boundEqualTrans apart u.2.2 v.2.2 w.2.2 first second

def alike (ctx : Context) (elements : List Value) (v : Value) : Set Value :=
  {w | w ∈ elements ∧ ctx.boundEqual v w = .ok true}

variable {elements kept rest : List Value}

theorem alikeIff (apart : Value.NumbersApart values)
    (each : ∀ v ∈ elements, v.NamedOnce ∧ v.BindsIn ctx values) (mem : v ∈ elements) (mem' : w ∈ elements) :
    ctx.alike elements v = ctx.alike elements w ↔ ctx.boundEqual v w = .ok true := by
  have classes := boundEqualClasses ctx apart
  let inside (u : Value) (mem : u ∈ elements) : {v : Value // v.NamedOnce ∧ v.BindsIn ctx values} := ⟨u, each u mem⟩
  constructor
  · intro same
    have self : w ∈ ctx.alike elements w := ⟨mem', classes.refl (inside w mem')⟩
    rw [← same] at self
    exact self.2
  · intro same
    ext u
    refine and_congr_right fun mem'' => ⟨fun equal => ?_, fun equal => ?_⟩
    · exact classes.trans (classes.symm (x := inside v mem) (y := inside w mem') same) (z := inside u mem'') equal
    · exact classes.trans (x := inside v mem) (y := inside w mem') same (z := inside u mem'') equal

theorem keptCount (apart : Value.NumbersApart values) (each : ∀ v ∈ elements, v.NamedOnce ∧ v.BindsIn ctx values)
    (ok : ctx.keepDistinct [] elements = .ok kept) :
    kept.length = (ctx.alike elements '' {v | v ∈ elements}).ncard := by
  classical
  obtain ⟨_, _, found⟩ := keptOrDropped ok
  have inside : ∀ k ∈ kept, k ∈ elements := keptInside ok
  have distinct : (kept.map (ctx.alike elements)).Nodup := by
    refine List.pairwise_map.mpr ((keptApart ok .nil).imp_of_mem fun mem mem' unlike same => unlike ?_)
    exact (alikeIff apart each (inside _ mem) (inside _ mem')).mp same
  have same : ctx.alike elements '' {v | v ∈ elements} =
      ((kept.map (ctx.alike elements)).toFinset : Set (Set Value)) := by
    ext c
    rw [List.coe_toFinset]
    simp only [Set.mem_image, Set.mem_ofPred_eq, List.mem_map]
    constructor
    · rintro ⟨v, mem, rfl⟩
      rcases found v mem with here | ⟨k, here, equal⟩
      · exact ⟨v, here, rfl⟩
      · exact ⟨k, here, (alikeIff apart each (inside k here) mem).mpr equal⟩
    · rintro ⟨k, here, rfl⟩
      exact ⟨k, inside k here, rfl⟩
  rw [same, Set.ncard_coe_finset, List.toFinset_card_of_nodup distinct, List.length_map]

theorem isKeptAnswered (each : ∀ k ∈ kept, ∃ equal, ctx.boundEqual k v = .ok equal) :
    ∃ found, ctx.isKept v kept = .ok found := by
  induction kept with
  | nil => exact ⟨false, rfl⟩
  | cons k kept ih =>
    obtain ⟨⟨equal, compared⟩, more⟩ := List.forall_mem_cons.mp each
    rw [isKept, compared]
    cases equal with
    | true => exact ⟨true, rfl⟩
    | false => exact ih more

theorem keepDistinctAnswered (each : ∀ k ∈ kept ++ rest, ∀ v ∈ rest, ∃ equal, ctx.boundEqual k v = .ok equal) :
    ∃ all, ctx.keepDistinct kept rest = .ok all := by
  induction rest generalizing kept with
  | nil => exact ⟨kept, rfl⟩
  | cons v rest ih =>
    obtain ⟨found, asked⟩ : ∃ found, ctx.isKept v kept = .ok found :=
      isKeptAnswered fun k mem => each k (List.mem_append_left _ mem) v List.mem_cons_self
    rw [keepDistinct, asked]
    cases found with
    | true =>
      have wider : kept ++ rest ⊆ kept ++ v :: rest := by simp
      exact ih fun k mem w mem' => each k (wider mem) w (List.mem_cons_of_mem _ mem')
    | false =>
      have same : kept ++ [v] ++ rest = kept ++ v :: rest := by simp
      exact ih fun k mem w mem' => each k (same ▸ mem) w (List.mem_cons_of_mem _ mem')

end Context

namespace Value

variable {ctx : Context} {k v : Value} {values : Set Value}

theorem Admitted.notCollection (admitted : v.Admitted ctx) : v.isCollection = false := by
  cases v with
  | collection => rcases admitted with null | ⟨b, bound⟩ <;> contradiction
  | _ => rfl

theorem plainAdmittedBinds (plain : ∀ t fields, v ≠ .composite t fields) (admitted : v.Admitted ctx)
    (inside : ∀ s ∈ v.scalars, ∀ b, ctx.bind s = .ok b → b.value ∈ values) : v.BindsIn ctx values := by
  rw [admittedPlain plain] at admitted
  obtain null | ⟨b, bound⟩ := admitted
  · cases v with
    | null => exact .null
    | _ => cases null
  · cases some : v.isNull with
    | true =>
      cases v with
      | null => exact .null
      | _ => cases some
    | false =>
      have binds := Context.bindBinds some bound
      exact .bound binds (inside v (by simp [scalarsPlain binds.counts]) b bound)

theorem admittedBinds {v : Value} (admitted : v.Admitted ctx)
    (inside : ∀ s ∈ v.scalars, ∀ b, ctx.bind s = .ok b → b.value ∈ values) : v.BindsIn ctx values := by
  induction v using byFields with
  | plain v plain => exact plainAdmittedBinds plain admitted inside
  | object t fields ih =>
    refine .object fun f mem => ih f mem (fieldsAdmitted.mp admitted f mem).2 fun s scalar => ?_
    exact inside s (fieldScalarsMem mem scalar)

theorem sameAdmitted (admitted : k.Admitted ctx) (once : k.NamedOnce) (same : ctx.boundEqual k v = .ok true) :
    v.Admitted ctx := by
  refine sameElements (P := fun k v => k.Admitted ctx → v.Admitted ctx) id (fun k v some plain same _ => ?_)
    (fun t t' left right _ _ _ fromRight admitted => ?_) once same admitted
  · obtain ⟨_, b, _, bound, _⟩ := Context.boundEqualScalar some plain same
    cases v with
    | composite => cases bound
    | _ => exact .inr ⟨b, bound⟩
  · refine fieldsAdmitted.mpr fun g mem => ?_
    obtain ⟨v, inside, admits⟩ := fromRight g mem
    obtain ⟨⟨mapped, single, _⟩, element⟩ := fieldsAdmitted.mp admitted _ inside
    exact ⟨⟨mapped, single, (admits element).notCollection⟩, admits element⟩

end Value

def SetPlan.thresholds (q : SetPlan) : List Nat := q.statements.filterMap fun s => s.division.map (·.required)

namespace Scope

variable {sc : Scope} {p : PropertyPath} {items kept : List Value} {negated : Bool} {n m : Nat} {q : Option SetPlan}

theorem thresholdsKept (loop : sc.keepDistinct [] (Value.flattenAll items) = .ok kept)
    (ok : sc.compile (.leaf (.containsAll p (.literal (.collection items)))) negated n = .ok q m) :
    q.elim [] SetPlan.thresholds = if kept.length = 0 then [] else [kept.length] := by
  by_cases none : Value.flattenAll items = []
  · rw [none] at loop
    cases loop
    obtain ⟨kept, u, asked, ok⟩ := bindOk.mp ok
    obtain ⟨distinct, rfl⟩ := ofExceptOk.mp asked
    obtain ⟨_, same, loop⟩ := distinctElementsOk.mp distinct
    cases same
    rw [none] at loop
    cases loop
    cases negated with
    | true =>
      obtain ⟨_, made, rfl⟩ := mapOk.mp ok
      obtain ⟨rfl, rfl⟩ := nothingOk.mp made
      rfl
    | false =>
      obtain ⟨rfl, rfl⟩ := pureOk.mp ok
      rfl
  · obtain ⟨kept', positive, u, loop', divided, plan, rfl, made⟩ := containsAllOk none ok
    cases loop.symm.trans loop'
    have some : kept.length ≠ 0 := fun zero => none ((Context.keptNone loop).mp (List.length_eq_zero_iff.mp zero))
    obtain ⟨target, source, links, r, tests, children, joins, _, _, rfl⟩ := dividingLaid divided
    rw [if_neg some]
    obtain ⟨_, rfl, _⟩ | ⟨_, rfl, _⟩ := complementIfOk.mp made <;> rfl

theorem elementsAdmitted (once : ∀ v ∈ Value.flattenAll items, v.NamedOnce)
    (admitted : (Leaf.containsAll p (.literal (.collection items))).Admitted sc.toContext) :
    ∀ v ∈ Value.flattenAll items, v.Admitted sc.toContext := by
  obtain ⟨_, kept, same, loop, rest⟩ := admitted
  cases same
  obtain ⟨_, _, each⟩ := Context.keptOrDropped loop
  have keptAdmitted : ∀ k ∈ kept, k.Admitted sc.toContext := by
    rcases rest with rfl | ⟨_, _, elements⟩
    · simp
    · exact elements
  intro v mem
  rcases each v mem with here | ⟨k, here, same⟩
  · exact keptAdmitted v here
  · exact Value.sameAdmitted (keptAdmitted k here) (once k (Context.keptInside loop here)) same

/-- Elements that count as one are an equivalence, and a collection asked for is counted by its different elements,
in whatever order and how often they are listed. -/
theorem listingIgnored (sc : Scope) :
    (∀ values, Value.NumbersApart values →
      (∀ v w, v.BindsIn sc.toContext values → w.BindsIn sc.toContext values →
        ∃ equal, sc.boundEqual v w = .ok equal) ∧
      Equivalence fun v w : {v : Value // v.NamedOnce ∧ v.BindsIn sc.toContext values} =>
        sc.boundEqual v w = .ok true) ∧
    ∀ (p : PropertyPath) (items items' : List Value) (negated : Bool) (n m : Nat) (q : Option SetPlan),
      (∀ v, v ∈ Value.flattenAll items' ↔ v ∈ Value.flattenAll items) →
      (∀ v ∈ Value.flattenAll items, v.NamedOnce) →
      Value.NumbersApart (sc.boundValues ((Value.flattenAll items).flatMap Value.scalars)) →
      sc.compile (.leaf (.containsAll p (.literal (.collection items)))) negated n = .ok q m →
      ∀ k, ∃ q' m' kept kept',
        sc.compile (.leaf (.containsAll p (.literal (.collection items')))) negated k = .ok q' m' ∧
        sc.keepDistinct [] (Value.flattenAll items) = .ok kept ∧
        sc.keepDistinct [] (Value.flattenAll items') = .ok kept' ∧
        kept'.length = kept.length ∧ q'.elim [] SetPlan.thresholds = q.elim [] SetPlan.thresholds := by
  refine ⟨fun values apart => ⟨fun v w => Context.boundEqualAnswered, Context.boundEqualClasses _ apart⟩, ?_⟩
  intro p items items' negated n m q listed once apart ok k
  have admitted : (Leaf.containsAll p (.literal (.collection items))).Admitted sc.toContext :=
    compilesAdmitted.mp ⟨q, m, ok⟩ _ (by simp [Predicate.leaves])
  have elements := elementsAdmitted once admitted
  have each : ∀ v ∈ Value.flattenAll items, v.NamedOnce ∧ v.BindsIn sc.toContext
      (sc.boundValues ((Value.flattenAll items).flatMap Value.scalars)) := fun v mem =>
    ⟨once v mem, Value.admittedBinds (elements v mem) fun s inside b bound =>
      ⟨s, List.mem_flatMap.mpr ⟨v, mem, inside⟩, b, bound, rfl⟩⟩
  have each' : ∀ v ∈ Value.flattenAll items', v.NamedOnce ∧ v.BindsIn sc.toContext
      (sc.boundValues ((Value.flattenAll items).flatMap Value.scalars)) := fun v mem => each v ((listed v).mp mem)
  obtain ⟨_, kept, same, loop, rest⟩ := admitted
  cases same
  obtain ⟨kept', loop'⟩ : ∃ kept', sc.keepDistinct [] (Value.flattenAll items') = .ok kept' :=
    Context.keepDistinctAnswered fun k mem v mem' => Context.boundEqualAnswered (each' k mem).2 (each' v mem').2
  have count : kept'.length = kept.length := by
    have classes : sc.alike (Value.flattenAll items') = sc.alike (Value.flattenAll items) := by
      funext v
      simp only [Context.alike, listed]
    rw [Context.keptCount apart each loop, Context.keptCount apart each' loop', classes]
    simp only [listed]
  have admitted' : (Leaf.containsAll p (.literal (.collection items'))).Admitted sc.toContext := by
    refine ⟨items', kept', rfl, loop', ?_⟩
    rcases rest with rfl | ⟨known, collection, _⟩
    · exact .inl (List.length_eq_zero_iff.mp count)
    · exact .inr ⟨known, collection, fun v mem => elements v ((listed v).mp (Context.keptInside loop' mem))⟩
  obtain ⟨q', m', ok'⟩ : sc.Compiles (.leaf (.containsAll p (.literal (.collection items')))) negated k :=
    compilesAdmitted.mpr (by simpa [Predicate.leaves] using admitted')
  refine ⟨q', m', kept, kept', ok', loop, loop', count, ?_⟩
  rw [thresholdsKept loop ok, thresholdsKept loop' ok', count]

end Scope

namespace SameElementsSample
open ContainedObjectsSample

def area : Value := inArea "Oslo" "0150"

def bergen : Value := inCity "Bergen"

def listed : List Value := [.int 1, area, .float 1, bergen]

def relisted : List Value := [bergen, .float 1, .collection [area, .int 1, area], bergen]

theorem valuesListed {w : Value} (mem : w ∈ people.boundValues ((Value.flattenAll listed).flatMap Value.scalars)) :
    w ∈ [.int 1, .float 1] ∨ ∃ s, w = .text s := by
  obtain ⟨v, mem, b, bound, rfl⟩ := mem
  have inside : v ∈ [.int 1, .text "Oslo", .text "0150", .float 1, .text "Bergen"] := mem
  simp only [List.mem_cons, List.not_mem_nil, or_false] at inside
  obtain rfl | rfl | rfl | rfl | rfl := inside <;> cases bound <;> simp

theorem relistedCountsAlike : ∃ q m q' m' kept kept',
    people.compile (.leaf (.containsAll addresses (.literal (.collection listed)))) false 0 = .ok q m ∧
    people.compile (.leaf (.containsAll addresses (.literal (.collection relisted)))) false 0 = .ok q' m' ∧
    people.keepDistinct [] (Value.flattenAll listed) = .ok kept ∧
    people.keepDistinct [] (Value.flattenAll relisted) = .ok kept' ∧ kept'.length = kept.length ∧
    q.elim [] SetPlan.thresholds = [3] ∧ q'.elim [] SetPlan.thresholds = [3] := by
  have ok : people.compile (.leaf (.containsAll addresses (.literal (.collection listed)))) false 0 = .ok _ _ := rfl
  have same : ∀ v, v ∈ Value.flattenAll relisted ↔ v ∈ Value.flattenAll listed := by
    simp [relisted, listed, Value.flattenAll, Value.flatten, area, bergen, inArea, inCity]
    tauto
  have once : ∀ v ∈ Value.flattenAll listed, v.NamedOnce := by
    simp [listed, Value.flattenAll, Value.flatten, area, bergen, inArea, inCity, Value.NamedOnce, Value.FieldsNamedOnce]
  have apart : Value.NumbersApart (people.boundValues ((Value.flattenAll listed).flatMap Value.scalars)) := by
    constructor
    · intro x mem
      obtain rfl : x = 1 := by simpa using valuesListed mem
      decide
    · intro i j x mem mem' _ _ _
      obtain rfl : i = 1 := by simpa using valuesListed mem
      obtain rfl : j = 1 := by simpa using valuesListed mem'
      rfl
  obtain ⟨q', m', kept, kept', ok', loop, loop', count, thresholds⟩ :=
    people.listingIgnored.2 addresses listed relisted false 0 _ _ same once apart ok 0
  exact ⟨_, _, q', m', kept, kept', ok, ok', loop, loop', count, rfl, thresholds⟩

def home : QualifiedName := ⟨"Address", "home"⟩

def homes : Scope := { people with
  schema := people.schema
    |>.withAttribute home (.of "address_home" 0)
    |>.withAttribute ⟨"Address", "street"⟩ (.of "address_street" 0) }

def homeTwice : Value :=
  .composite "Address" [(home, inCity "Oslo"), (home, .composite "Address" [(⟨"Address", "zip"⟩, .text "0150")])]

def cityTwice : Value :=
  .composite "Address" [(⟨"Address", "city"⟩, .text "Oslo"), (⟨"Address", "city"⟩, .text "Oslo")]

def cityAndStreet : Value :=
  .composite "Address" [(⟨"Address", "city"⟩, .text "Oslo"), (⟨"Address", "street"⟩, .text "Karl Johans gate")]

def countedTo (elements : List Value) : Option (List Nat) :=
  match homes.compile (.leaf (.containsAll addresses (.literal (.collection elements)))) false 0 with
  | .ok q _ => some (q.elim [] SetPlan.thresholds)
  | .error _ _ => none

/-- An element that names a field twice need not be the same as itself, nor as an element that is the same as it;
and two integers that differ can be the same as the float between them. -/
theorem listingCounts :
    homes.boundEqual homeTwice homeTwice = .ok false ∧
    countedTo [homeTwice] = some [1] ∧ countedTo [homeTwice, homeTwice] = some [2] ∧
    countedTo [cityTwice, cityAndStreet] = some [1] ∧ countedTo [cityAndStreet, cityTwice] = some [2] ∧
    countedTo [.int 9007199254740992, .int 9007199254740993, .float 9007199254740992] = some [2] ∧
    countedTo [.float 9007199254740992, .int 9007199254740992, .int 9007199254740993] = some [1] ∧
    homes.boundEqual (.float Float.nan) (.float Float.nan) = .ok false :=
  ⟨rfl, rfl, rfl, rfl, rfl, by decide, by decide, rfl⟩

end SameElementsSample
end ObjectQuery
