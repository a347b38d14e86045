import ObjectQuery.Proofs.Erasure
import ObjectQuery.Proofs.Outcome

/-! Two runs of a compilation on predicates that differ in their literals only. Literals are alike if both
are null, both are scalars, or both have the same shape; in collections the same elements are equal once
bound. Runs that both succeed lay the same joins, hand out the same aliases and build tests that are one
without their values. -/
namespace ObjectQuery
open Outcome

/-- Literals that may stand in each other's place. The elements of collections are compared one to one,
and the same pairs of them are found equal, unequal or not comparable. -/
inductive Value.Alike (ctx : Context) : Value → Value → Prop where
  | null : Alike ctx .null .null
  | scalar {v w} (left : Context.countsItself v = true) (right : Context.countsItself w = true) : Alike ctx v w
  | composite {t u} (fields : List (QualifiedName × Value × Value)) (each : ∀ f ∈ fields, Alike ctx f.2.1 f.2.2) :
      Alike ctx (.composite t (fields.map fun f => (f.1, f.2.1))) (.composite u (fields.map fun f => (f.1, f.2.2)))
  | collection {xs ys} (pairs : List (Value × Value)) (left : flattenAll xs = pairs.map Prod.fst)
      (right : flattenAll ys = pairs.map Prod.snd) (each : ∀ c ∈ pairs, Alike ctx c.1 c.2)
      (outcome : ∀ c ∈ pairs, ∀ d ∈ pairs,
        (ctx.boundEqual c.1 d.1).toOption = (ctx.boundEqual c.2 d.2).toOption) :
      Alike ctx (.collection xs) (.collection ys)

inductive Operand.Alike (ctx : Context) : Operand → Operand → Prop where
  | literal {v w} (alike : v.Alike ctx w) : Alike ctx (.literal v) (.literal w)
  | variable (x) : Alike ctx (.variable x) (.variable x)

inductive Leaf.Alike (ctx : Context) : Leaf → Leaf → Prop where
  | compare (p c) {v w} (alike : v.Alike ctx w) : Alike ctx (.compare p c v) (.compare p c w)
  | matches (p) {v w} (alike : v.Alike ctx w) : Alike ctx (.matches p v) (.matches p w)
  | propertyNull (p n) : Alike ctx (.propertyNull p n) (.propertyNull p n)
  | associationNull (a n) : Alike ctx (.associationNull a n) (.associationNull a n)
  | reaches (a) {v w} (alike : v.Alike ctx w) : Alike ctx (.reaches a v) (.reaches a w)
  | contains (p) {v w} (alike : v.Alike ctx w) : Alike ctx (.contains p v) (.contains p w)
  | containsAll (p) {v w} (alike : v.Alike ctx w) : Alike ctx (.containsAll p v) (.containsAll p w)

inductive Predicate.Alike (ctx : Context) : Predicate → Predicate → Prop where
  | leaf {l m} (alike : l.Alike ctx m) : Alike ctx (.leaf l) (.leaf m)
  | all (pairs : List (Predicate × Predicate)) (each : ∀ c ∈ pairs, Alike ctx c.1 c.2) :
      Alike ctx (.all (pairs.map Prod.fst)) (.all (pairs.map Prod.snd))
  | any (pairs : List (Predicate × Predicate)) (each : ∀ c ∈ pairs, Alike ctx c.1 c.2) :
      Alike ctx (.any (pairs.map Prod.fst)) (.any (pairs.map Prod.snd))
  | not {p q} (alike : Alike ctx p q) : Alike ctx (.not p) (.not q)

section
variable {ε σ α β γ δ : Type}

def Agree (R : α → β → Prop) (x : EStateM ε σ α) (y : EStateM ε σ β) : Prop :=
  ∀ s a t b u, x s = .ok a t → y s = .ok b u → R a b ∧ t = u

def BothOk (R : α → β → Prop) (x : Except ε α) (y : Except ε β) : Prop :=
  ∀ a b, x = .ok a → y = .ok b → R a b

namespace Agree

theorem same (x : EStateM ε σ α) : Agree Eq x x := by
  intro s a t b u first second
  cases first.symm.trans second
  exact ⟨rfl, rfl⟩

theorem done {R : α → β → Prop} {a : α} {b : β} (related : R a b) :
    Agree R (pure a : EStateM ε σ α) (pure b) := by
  intro s a t b u first second
  obtain ⟨rfl, rfl⟩ := pureOk.mp first
  obtain ⟨rfl, rfl⟩ := pureOk.mp second
  exact ⟨related, rfl⟩

theorem next {R : α → β → Prop} {S : γ → δ → Prop} {x : EStateM ε σ α} {y : EStateM ε σ β}
    {f : α → EStateM ε σ γ} {g : β → EStateM ε σ δ} (first : Agree R x y)
    (rest : ∀ a b, R a b → Agree S (f a) (g b)) : Agree S (x >>= f) (y >>= g) := by
  intro s c t d u left right
  obtain ⟨a, v, leftFirst, left⟩ := bindOk.mp left
  obtain ⟨b, w, rightFirst, right⟩ := bindOk.mp right
  obtain ⟨related, rfl⟩ := first s a v b w leftFirst rightFirst
  exact rest a b related v c t d u left right

theorem onward {S : γ → δ → Prop} (x : EStateM ε σ α) {f : α → EStateM ε σ γ} {g : α → EStateM ε σ δ}
    (rest : ∀ a, Agree S (f a) (g a)) : Agree S (x >>= f) (x >>= g) :=
  (same x).next fun a _ equal => equal ▸ rest a

theorem mapped {R : α → β → Prop} {S : γ → δ → Prop} {x : EStateM ε σ α} {y : EStateM ε σ β}
    {f : α → γ} {g : β → δ} (both : Agree R x y) (results : ∀ a b, R a b → S (f a) (g b)) :
    Agree S (f <$> x) (g <$> y) := by
  intro s c t d u left right
  obtain ⟨a, first, rfl⟩ := mapOk.mp left
  obtain ⟨b, second, rfl⟩ := mapOk.mp right
  obtain ⟨related, rfl⟩ := both s a t b u first second
  exact ⟨results a b related, rfl⟩

theorem thrown {R : α → β → Prop} {e : ε} {y : EStateM ε σ β} : Agree R (throw e) y :=
  fun _ _ _ _ _ left _ => (throwOk.mp left).elim

theorem failed {R : γ → δ → Prop} {e : ε} {y : EStateM ε σ δ} {f : α → EStateM ε σ γ} :
    Agree R (throw e >>= f) y := by
  intro s c t d u left _
  exact (throwBindOk.mp left).elim

theorem lifted {R : α → β → Prop} {x : Except ε α} {y : Except ε β} (both : BothOk R x y) :
    Agree R (ofExcept x : EStateM ε σ α) (ofExcept y) := by
  intro s a t b u left right
  obtain ⟨first, rfl⟩ := ofExceptOk.mp left
  obtain ⟨second, rfl⟩ := ofExceptOk.mp right
  exact ⟨both a b first second, rfl⟩

theorem anyway {S : γ → δ → Prop} {x : Except ε α} {y : Except ε β} {f : α → EStateM ε σ γ}
    {g : β → EStateM ε σ δ} (rest : ∀ a b, Agree S (f a) (g b)) : Agree S (ofExcept x >>= f) (ofExcept y >>= g) :=
  (lifted fun _ _ _ _ => trivial).next fun a b (_ : True) => rest a b

theorem weaken {R S : α → β → Prop} {x : EStateM ε σ α} {y : EStateM ε σ β} (both : Agree R x y)
    (weaker : ∀ a b, R a b → S a b) : Agree S x y := by
  intro s a t b u left right
  obtain ⟨related, rfl⟩ := both s a t b u left right
  exact ⟨weaker a b related, rfl⟩

end Agree

theorem Agree.freshly {R : α → β → Prop} {x : Lay α} {y : Lay β} (both : Agree R x y) :
    Agree (fun a b => R a.1 b.1 ∧ a.2 = b.2) (Lay.fresh x) (Lay.fresh y) := by
  intro n a t b u left right
  obtain ⟨related, same⟩ := both _ _ _ _ _ (freshOk.mp left) (freshOk.mp right)
  obtain ⟨rfl, joins⟩ := Route.mk.inj same
  exact ⟨⟨related, joins⟩, rfl⟩

end

namespace Value.Alike

variable {ctx : Context} {v w : Value}

theorem isNull (alike : v.Alike ctx w) : v.isNull = w.isNull := by
  cases alike with
  | null => rfl
  | scalar left right =>
    rw [Context.countsItself, Bool.and_eq_true, Bool.not_eq_true'] at left right
    rw [left.2, right.2]
  | composite => rfl
  | collection => rfl

theorem isCollection (alike : v.Alike ctx w) : v.isCollection = w.isCollection := by
  have plain : ∀ {v : Value}, Context.countsItself v = true → v.isCollection = false := by
    intro v counts
    cases v <;> first | rfl | cases counts
  cases alike with
  | null => rfl
  | scalar left right => rw [plain left, plain right]
  | composite => rfl
  | collection => rfl

theorem countsItself (alike : v.Alike ctx w) : Context.countsItself v = Context.countsItself w := by
  cases alike with
  | null => rfl
  | scalar left right => rw [left, right]
  | composite => rfl
  | collection => rfl

end Value.Alike

namespace Context

variable {ctx : Context}

def SameTests (a b : List Test × Children) : Prop :=
  a.1.map Test.erased = b.1.map Test.erased ∧ a.2 = b.2

theorem scalarTestAgree {c : Column} {v w : Value} (alike : v.Alike ctx w) :
    BothOk (fun t u => t.erased = u.erased) (ctx.scalarTest c v) (ctx.scalarTest c w) := by
  intro t u left right
  rw [scalarTest, alike.isNull] at left
  rw [scalarTest] at right
  split at left
  · next null =>
    rw [if_pos null] at right
    cases left
    cases right
    rfl
  · next some =>
    rw [if_neg some] at right
    obtain ⟨b, _, left⟩ := exceptBindOk.mp left
    obtain ⟨b', _, right⟩ := exceptBindOk.mp right
    obtain rfl := exceptPureOk.mp left
    obtain rfl := exceptPureOk.mp right
    rfl

theorem conjunctionErased (ts : List Test) :
    (conjunction ts).map Test.erased = conjunction (ts.map Test.erased) := by
  cases ts with
  | nil => rfl
  | cons t ts =>
    change [Test.erased (.all (t :: ts))] = [Test.all ((t :: ts).map Test.erased)]
    rw [Test.erased, Test.erasedEachMap]

theorem plainTestsAgree {v w : Value} (alike : v.Alike ctx w) (left : ∀ t fields, v ≠ .composite t fields)
    (right : ∀ t fields, w ≠ .composite t fields) (source : ElementSource) (children : Children) :
    Agree SameTests (ctx.valueTests source v children) (ctx.valueTests source w children) := by
  rw [valueTestsPlain left, valueTestsPlain right]
  refine (Agree.lifted (scalarTestAgree alike)).next fun t u same => .done ⟨?_, rfl⟩
  rw [List.map_singleton, List.map_singleton, same]

theorem fieldTestsAgree (parent : ElementSource) (fields : List (QualifiedName × Value × Value))
    (each : ∀ f ∈ fields, f.2.1.Alike ctx f.2.2)
    (fieldAgrees : ∀ f ∈ fields, ∀ source children, Agree SameTests (ctx.valueTests source f.2.1 children)
      (ctx.valueTests source f.2.2 children)) (children : Children) :
    Agree SameTests (ctx.fieldTests parent (fields.map fun f => (f.1, f.2.1)) children)
      (ctx.fieldTests parent (fields.map fun f => (f.1, f.2.2)) children) := by
  induction fields generalizing children with
  | nil => exact .done ⟨rfl, rfl⟩
  | cons f rest ih =>
    rw [List.map_cons, List.map_cons, fieldTests, fieldTests]
    refine .onward _ fun table => ?_
    rw [(each f List.mem_cons_self).isCollection]
    have ih := ih (fun g mem => each g (List.mem_cons_of_mem _ mem))
      fun g mem => fieldAgrees g (List.mem_cons_of_mem _ mem)
    have here := fieldAgrees f List.mem_cons_self
    split
    · exact .failed
    · refine .onward _ fun ⟨joined, children⟩ => ?_
      refine (here _ children).next fun a b same => ?_
      obtain ⟨tests, children⟩ := a
      obtain ⟨tests', children'⟩ := b
      obtain ⟨tested, rfl⟩ := same
      refine (ih _).next fun a b more => .done ⟨?_, more.2⟩
      rw [List.map_append, List.map_append, tested, more.1]

theorem valueTestsAgree {v w : Value} (alike : v.Alike ctx w) (source : ElementSource) (children : Children) :
    Agree SameTests (ctx.valueTests source v children) (ctx.valueTests source w children) := by
  have counting : ∀ {v : Value}, countsItself v = true → ∀ t fields, v ≠ .composite t fields := by
    intro v counts t fields same
    rw [same] at counts
    cases counts
  induction alike generalizing source children with
  | null => exact plainTestsAgree .null nofun nofun source children
  | scalar left right => exact plainTestsAgree (.scalar left right) (counting left) (counting right) source children
  | composite fields each ih =>
    rw [valueTests, valueTests]
    refine (fieldTestsAgree source fields each ih children).next fun a b same => .done ⟨?_, same.2⟩
    rw [conjunctionErased, conjunctionErased, same.1]
  | collection pairs left right each outcome =>
    exact plainTestsAgree (.collection pairs left right each outcome) nofun nofun source children

def SameTest (a b : Test × Children) : Prop := a.1.erased = b.1.erased ∧ a.2 = b.2

theorem elementTestAgree {v w : Value} (alike : v.Alike ctx w) (source : ElementSource) (children : Children) :
    Agree SameTest (ctx.elementTest source v children) (ctx.elementTest source w children) := by
  refine (valueTestsAgree alike source children).next fun a b same => .done ⟨?_, same.2⟩
  simp only [Test.erased, Test.erasedEachMap, List.map_cons, same.1]

theorem elementTestsAgree (source : ElementSource) (pairs : List (Value × Value))
    (each : ∀ c ∈ pairs, c.1.Alike ctx c.2) (children : Children) :
    Agree SameTests (ctx.elementTests source (pairs.map Prod.fst) children)
      (ctx.elementTests source (pairs.map Prod.snd) children) := by
  induction pairs generalizing children with
  | nil => exact .done ⟨rfl, rfl⟩
  | cons c rest ih =>
    have ih := ih fun d mem => each d (List.mem_cons_of_mem _ mem)
    refine (elementTestAgree (each c List.mem_cons_self) source children).next fun a b same => ?_
    obtain ⟨test, children⟩ := a
    obtain ⟨test', children'⟩ := b
    obtain ⟨tested, rfl⟩ := same
    refine (ih _).next fun a b more => .done ⟨?_, more.2⟩
    rw [List.map_cons, List.map_cons, tested, more.1]

theorem isKeptAgree (c : Value × Value) (kept : List (Value × Value))
    (outcome : ∀ k ∈ kept, (ctx.boundEqual k.1 c.1).toOption = (ctx.boundEqual k.2 c.2).toOption) :
    BothOk Eq (ctx.isKept c.1 (kept.map Prod.fst)) (ctx.isKept c.2 (kept.map Prod.snd)) := by
  induction kept with
  | nil =>
    intro a b left right
    cases left
    cases right
    rfl
  | cons k kept ih =>
    intro a b left right
    obtain ⟨equal, found, left⟩ := exceptBindOk.mp left
    obtain ⟨equal', found', right⟩ := exceptBindOk.mp right
    have same := outcome k List.mem_cons_self
    rw [found, found'] at same
    obtain rfl := Option.some.inj same
    cases equal with
    | true =>
      obtain rfl := exceptPureOk.mp left
      obtain rfl := exceptPureOk.mp right
      rfl
    | false => exact ih (fun k mem => outcome k (List.mem_cons_of_mem _ mem)) a b left right

theorem keepDistinctAgree {pairs : List (Value × Value)}
    (outcome : ∀ c ∈ pairs, ∀ d ∈ pairs, (ctx.boundEqual c.1 d.1).toOption = (ctx.boundEqual c.2 d.2).toOption)
    (kept rest : List (Value × Value)) (keptInside : ∀ c ∈ kept, c ∈ pairs) (restInside : ∀ c ∈ rest, c ∈ pairs) :
    BothOk (fun xs ys => ∃ both : List (Value × Value), (∀ c ∈ both, c ∈ pairs) ∧
        xs = both.map Prod.fst ∧ ys = both.map Prod.snd)
      (ctx.keepDistinct (kept.map Prod.fst) (rest.map Prod.fst))
      (ctx.keepDistinct (kept.map Prod.snd) (rest.map Prod.snd)) := by
  induction rest generalizing kept with
  | nil =>
    intro xs ys left right
    cases left
    cases right
    exact ⟨kept, keptInside, rfl, rfl⟩
  | cons c rest ih =>
    have here := restInside c List.mem_cons_self
    have restInside : ∀ c ∈ rest, c ∈ pairs := fun d mem => restInside d (List.mem_cons_of_mem _ mem)
    intro xs ys left right
    obtain ⟨found, asked, left⟩ := exceptBindOk.mp left
    obtain ⟨found', asked', right⟩ := exceptBindOk.mp right
    obtain rfl := isKeptAgree c kept (fun k mem => outcome k (keptInside k mem) c here) _ _ asked asked'
    cases found with
    | true => exact ih kept keptInside restInside xs ys left right
    | false =>
      refine ih (kept ++ [c]) (fun d mem => ?_) restInside xs ys ?_ ?_
      · rcases List.mem_append.mp mem with mem | mem
        · exact keptInside d mem
        · exact List.mem_singleton.mp mem ▸ here
      · rw [List.map_append]
        exact left
      · rw [List.map_append]
        exact right

end Context
end ObjectQuery
