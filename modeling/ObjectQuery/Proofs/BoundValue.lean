import ObjectQuery.Proofs.Outcome

/-! Values bound to parameters. An enumeration constant is bound as its stored key, any other value as it
is. Of the elements of a collection, one that is the same as an earlier one once bound is dropped. -/
namespace ObjectQuery

inductive Context.Binds (ctx : Context) : Value → BoundParameter → Prop where
  | key {enumType variant key type} (stored : ctx.schema.enumKey enumType variant = some key)
      (typed : ctx.schema.sqlType (.enum enumType variant) = some type) :
      Binds ctx (.enum enumType variant) ⟨.int key, type⟩
  | plain {v type} (counts : countsItself v = true) (other : ∀ enumType variant, v ≠ .enum enumType variant)
      (typed : ctx.schema.sqlType v = some type) : Binds ctx v ⟨v, type⟩

namespace Context
open Outcome

variable {ctx : Context} {w : Value} {e : CompileError}

theorem literalOk {operand : Operand} {v : Value} : literal operand = .ok v ↔ operand = .literal v := by
  cases operand <;> simp [literal]

theorem bindBinds {v : Value} {b : BoundParameter} (some : v.isNull = false) (ok : ctx.bind v = .ok b) :
    ctx.Binds v b := by
  unfold bind at ok
  split at ok
  · next scalar =>
    split at ok
    · cases ok
    · next type typed =>
      split at ok
      · split at ok
        · cases ok
        · next key stored =>
          cases ok
          exact .key stored typed
      · next other =>
        cases ok
        exact .plain (by simp [countsItself, scalar, some]) (fun t c same => other t c same) typed
  · cases ok

theorem Binds.bound {v : Value} {b : BoundParameter} (binds : ctx.Binds v b) : ctx.bind v = .ok b := by
  cases binds with
  | key stored typed =>
    simp only [bind, Value.isScalar, typed, stored]
    rfl
  | plain counts other typed =>
    have scalar : v.isScalar = true := (Bool.and_eq_true_iff.mp counts).1
    simp only [bind, scalar, typed]
    cases v with
    | enum t c => exact absurd rfl (other t c)
    | _ => rfl

theorem Binds.counts {v : Value} {b : BoundParameter} (binds : ctx.Binds v b) : countsItself v = true := by
  cases binds with
  | key stored typed => rfl
  | plain counts other typed => exact counts

theorem Binds.notNull {v : Value} {b : BoundParameter} (binds : ctx.Binds v b) : b.value.isNull = false := by
  cases binds with
  | key => rfl
  | plain counts => simpa using (Bool.and_eq_true_iff.mp counts).2

def same (ctx : Context) (a b : Value) : Bool :=
  match ctx.boundEqual a b with
  | .ok equal => equal
  | .error _ => false

def distinct (ctx : Context) (elements : List Value) : List Value :=
  elements.eraseDupsBy fun v k => ctx.same k v

theorem sameTrue {a b : Value} : ctx.same a b = true ↔ ctx.boundEqual a b = .ok true := by
  unfold same
  cases ctx.boundEqual a b <;> simp

theorem boundEqualPlain (ctx : Context) {a : Value} (some : a.isNull = false)
    (plain : ∀ t fields, a ≠ .composite t fields) (b : Value) :
    ctx.boundEqual a b = .ok false ∨ ctx.boundEqual a b =
      ctx.bind a >>= fun x => ctx.bind b >>= fun y => pure (sameBound x.value y.value) := by
  cases a with
  | null => cases some
  | composite t fields => exact absurd rfl (plain t fields)
  | _ =>
    cases b with
    | null => exact .inl rfl
    | composite t fields => exact .inl rfl
    | _ => exact .inr rfl

theorem fieldsEqualTrue {left right : List (QualifiedName × Value)} : ctx.fieldsEqual left right = .ok true ↔
    ∀ f ∈ left, ∃ w, right.lookup f.1 = some w ∧ ctx.boundEqual f.2 w = .ok true := by
  induction left with
  | nil => simp [fieldsEqual]
  | cons f rest ih =>
    rw [List.forall_mem_cons, ← ih]
    cases found : right.lookup f.1 with
    | none => simp [fieldsEqual, found]
    | some w =>
      simp only [fieldsEqual, found, exceptBindOk, Option.some.injEq, exists_eq_left']
      constructor
      · rintro ⟨equal, compared, same⟩
        cases equal with
        | true => exact ⟨compared, same⟩
        | false => cases same
      · exact fun ⟨compared, same⟩ => ⟨true, compared, same⟩

theorem boundEqualObject {t : String} {left : List (QualifiedName × Value)} :
    ctx.boundEqual (.composite t left) w = .ok true ↔ ∃ t' right, w = .composite t' right ∧
      left.length = right.length ∧
      ∀ f ∈ left, ∃ x, right.lookup f.1 = some x ∧ ctx.boundEqual f.2 x = .ok true := by
  cases w with
  | composite t' right =>
    rw [boundEqual]
    split
    · next lengths =>
      rw [fieldsEqualTrue]
      constructor
      · exact fun each => ⟨t', right, rfl, lengths, each⟩
      · rintro ⟨_, _, same, _, each⟩
        cases same
        exact each
    · next lengths =>
      constructor
      · exact nofun
      · rintro ⟨_, _, same, equal, _⟩
        cases same
        exact absurd equal lengths
  | _ => simp [boundEqual]

theorem plainRefused {a b : Value} (some : a.isNull = false) (plain : ∀ t fields, a ≠ .composite t fields)
    (failed : ctx.boundEqual a b = .error e) : ∃ v, ctx.bind v = .error e := by
  rcases ctx.boundEqualPlain some plain b with unlike | bound
  · rw [unlike] at failed
    cases failed
  · rw [bound] at failed
    obtain failed | ⟨_, _, failed⟩ := exceptBindError.mp failed
    · exact ⟨a, failed⟩
    · obtain failed | ⟨_, _, failed⟩ := exceptBindError.mp failed
      · exact ⟨b, failed⟩
      · cases failed

mutual
theorem boundEqualRefused : ∀ a b : Value, ctx.boundEqual a b = .error e → ∃ v, ctx.bind v = .error e
  | .null, _, failed => nomatch failed
  | .composite _ left, b, failed => by
    cases b with
    | composite _ right =>
      unfold boundEqual at failed
      split at failed
      · exact fieldsEqualRefused left right failed
      · cases failed
    | _ => cases failed
  | .bool _, _, failed | .int _, _, failed | .float _, _, failed | .text _, _, failed | .date _, _, failed
  | .timestamp _, _, failed | .enum _ _, _, failed | .collection _, _, failed => plainRefused rfl (by simp) failed
theorem fieldsEqualRefused : ∀ left right : List (QualifiedName × Value),
    ctx.fieldsEqual left right = .error e → ∃ v, ctx.bind v = .error e
  | [], _, failed => nomatch failed
  | (name, v) :: rest, right, failed => by
    cases found : right.lookup name with
    | none => simp [fieldsEqual, found] at failed
    | some w =>
      simp only [fieldsEqual, found] at failed
      obtain failed | ⟨equal, _, failed⟩ := exceptBindError.mp failed
      · exact boundEqualRefused v w failed
      · cases equal with
        | true => exact fieldsEqualRefused rest right failed
        | false => cases failed
end

theorem isKeptRefused {v : Value} {kept : List Value} (failed : ctx.isKept v kept = .error e) :
    ∃ v, ctx.bind v = .error e := by
  induction kept with
  | nil => cases failed
  | cons k kept ih =>
    obtain failed | ⟨same, _, failed⟩ := exceptBindError.mp failed
    · exact boundEqualRefused k v failed
    · cases same with
      | true => cases failed
      | false => exact ih failed

theorem keepDistinctRefused {kept rest : List Value} (failed : ctx.keepDistinct kept rest = .error e) :
    ∃ v, ctx.bind v = .error e := by
  induction rest generalizing kept with
  | nil => cases failed
  | cons v rest ih =>
    obtain failed | ⟨found, _, failed⟩ := exceptBindError.mp failed
    · exact isKeptRefused failed
    · cases found with
      | true => exact ih failed
      | false => exact ih failed

theorem boundEqualScalar {a b : Value} (some : a.isNull = false) (plain : ∀ t fields, a ≠ .composite t fields)
    (same : ctx.boundEqual a b = .ok true) :
    ∃ x y, ctx.bind a = .ok x ∧ ctx.bind b = .ok y ∧ sameBound x.value y.value = true := by
  rcases ctx.boundEqualPlain some plain b with unlike | bound
  · rw [unlike] at same
    cases same
  · rw [bound] at same
    obtain ⟨x, first, same⟩ := exceptBindOk.mp same
    obtain ⟨y, second, same⟩ := exceptBindOk.mp same
    exact ⟨x, y, first, second, exceptPureOk.mp same⟩

theorem isKeptOk {v : Value} {kept : List Value} {found : Bool} (ok : ctx.isKept v kept = .ok found) :
    found = kept.any fun k => ctx.same k v := by
  induction kept with
  | nil => cases ok; rfl
  | cons k kept ih =>
    obtain ⟨equal, compared, ok⟩ := exceptBindOk.mp ok
    have asked : ctx.same k v = equal := by simp only [same, compared]
    rw [List.any_cons, asked]
    cases equal with
    | true => cases ok; rfl
    | false => exact ih ok

theorem keepDistinctLoop {kept rest all : List Value} (ok : ctx.keepDistinct kept rest = .ok all) :
    all = List.eraseDupsBy.loop (fun v k => ctx.same k v) rest kept.reverse := by
  induction rest generalizing kept with
  | nil => cases ok; simp [List.eraseDupsBy.loop]
  | cons v rest ih =>
    obtain ⟨found, asked, ok⟩ := exceptBindOk.mp ok
    have asked := isKeptOk asked
    rw [← List.any_reverse] at asked
    unfold List.eraseDupsBy.loop
    rw [← asked]
    cases found with
    | true => exact ih ok
    | false => simpa using ih ok

theorem keepDistinctOk {elements kept : List Value} (ok : ctx.keepDistinct [] elements = .ok kept) :
    kept = ctx.distinct elements := keepDistinctLoop ok

theorem distinctIsEmpty (elements : List Value) : (ctx.distinct elements).isEmpty = elements.isEmpty := by
  cases elements with
  | nil => rfl
  | cons v rest => rw [distinct, List.eraseDupsBy_cons]; rfl

theorem keptNone {elements kept : List Value} (ok : ctx.keepDistinct [] elements = .ok kept) :
    kept = [] ↔ elements = [] := by
  rw [← List.isEmpty_iff, ← List.isEmpty_iff, keepDistinctOk ok, distinctIsEmpty]

theorem keptBefore {v : Value} {kept : List Value} (found : ctx.isKept v kept = .ok true) :
    ∃ k ∈ kept, ctx.boundEqual k v = .ok true := by
  obtain ⟨k, mem, same⟩ := List.any_eq_true.mp (isKeptOk found).symm
  exact ⟨k, mem, sameTrue.mp same⟩

theorem keptOrDropped {kept rest all : List Value} (ok : ctx.keepDistinct kept rest = .ok all) :
    kept ⊆ all ∧ all ⊆ kept ++ rest ∧ ∀ v ∈ rest, v ∈ all ∨ ∃ k ∈ all, ctx.boundEqual k v = .ok true := by
  induction rest generalizing kept with
  | nil => cases ok; simp
  | cons v rest ih =>
    obtain ⟨found, asked, ok⟩ := exceptBindOk.mp ok
    cases found with
    | true =>
      obtain ⟨still, within, each⟩ := ih ok
      obtain ⟨k, mem, same⟩ := keptBefore asked
      exact ⟨still, List.Subset.trans within (by simp),
        List.forall_mem_cons.mpr ⟨.inr ⟨k, still mem, same⟩, each⟩⟩
    | false =>
      obtain ⟨still, within, each⟩ := ih ok
      have inside : v ∈ all := still (by simp)
      exact ⟨List.Subset.trans (List.subset_append_left _ _) still, by simpa using within,
        List.forall_mem_cons.mpr ⟨.inl inside, each⟩⟩

theorem keptInside {elements kept : List Value} (ok : ctx.keepDistinct [] elements = .ok kept) : kept ⊆ elements := by
  simpa using (keptOrDropped ok).2.1

theorem keptApart {kept rest all : List Value} (ok : ctx.keepDistinct kept rest = .ok all)
    (apart : kept.Pairwise fun k v => ctx.boundEqual k v ≠ .ok true) :
    all.Pairwise fun k v => ctx.boundEqual k v ≠ .ok true := by
  induction rest generalizing kept with
  | nil => cases ok; exact apart
  | cons v rest ih =>
    obtain ⟨found, asked, ok⟩ := exceptBindOk.mp ok
    cases found with
    | true => exact ih ok apart
    | false =>
      refine ih ok (List.pairwise_append.mpr ⟨apart, List.pairwise_singleton _ _, fun k mem w here => ?_⟩)
      obtain rfl := List.mem_singleton.mp here
      intro same
      have unlike := List.any_eq_false.mp (isKeptOk asked).symm k mem
      exact unlike (sameTrue.mpr same)

end Context

theorem Scope.distinctElementsOk {sc : Scope} {p : PropertyPath} {operand : Operand} {kept : List Value} :
    sc.distinctElements p operand = .ok kept ↔ ∃ items,
      operand = .literal (.collection items) ∧ sc.keepDistinct [] (Value.flattenAll items) = .ok kept := by
  refine Outcome.exceptBindOk.trans ?_
  simp only [Context.literalOk]
  constructor
  · intro ⟨v, same, ok⟩
    cases v with
    | collection items => exact ⟨items, same, ok⟩
    | _ => cases ok
  · exact fun ⟨items, same, ok⟩ => ⟨_, same, ok⟩

end ObjectQuery
