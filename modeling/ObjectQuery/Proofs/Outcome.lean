import ObjectQuery.Compile.Connective

/-! Successful runs of compilations: each step succeeded and left its state to the next one. -/
namespace ObjectQuery.Outcome

variable {ε σ α β : Type}

theorem bindOk {x : EStateM ε σ α} {f : α → EStateM ε σ β} {s t : σ} {b : β} :
    (x >>= f) s = .ok b t ↔ ∃ a u, x s = .ok a u ∧ f a u = .ok b t := by
  simp only [bind, EStateM.bind]
  cases x s with
  | ok a u => exact ⟨fun h => ⟨a, u, rfl, h⟩, fun ⟨_, _, h, last⟩ => by cases h; exact last⟩
  | error e u => simp

theorem bindPassed {x : EStateM ε σ α} {f : α → EStateM ε σ β} {s t : σ} {a : α} (passed : x s = .ok a t) :
    (x >>= f) s = f a t := by
  simp only [bind, EStateM.bind, passed]

theorem bindError {x : EStateM ε σ α} {f : α → EStateM ε σ β} {s t : σ} {e : ε} :
    (x >>= f) s = .error e t ↔ x s = .error e t ∨ ∃ a u, x s = .ok a u ∧ f a u = .error e t := by
  simp only [bind, EStateM.bind]
  cases x s with
  | ok a u => exact ⟨fun h => .inr ⟨a, u, rfl, h⟩, fun h => h.elim nofun fun ⟨_, _, h, last⟩ => by cases h; exact last⟩
  | error e' u => simp

theorem pureOk {a b : α} {s t : σ} : (pure a : EStateM ε σ α) s = .ok b t ↔ a = b ∧ s = t := by
  simp [pure, EStateM.pure]

theorem mapOk {x : EStateM ε σ α} {f : α → β} {s t : σ} {b : β} :
    (f <$> x) s = .ok b t ↔ ∃ a, x s = .ok a t ∧ f a = b := by
  simp only [Functor.map, EStateM.map]
  cases x s with
  | ok a u =>
    refine ⟨fun h => ?_, fun ⟨_, h, last⟩ => ?_⟩
    · cases h; exact ⟨a, rfl, rfl⟩
    · cases h; cases last; rfl
  | error e u => simp

theorem mapError {x : EStateM ε σ α} {f : α → β} {s t : σ} {e : ε} :
    (f <$> x) s = .error e t ↔ x s = .error e t := by
  simp only [Functor.map, EStateM.map]
  cases x s <;> simp

theorem throwOk {e : ε} {s t : σ} {a : α} : (throw e : EStateM ε σ α) s = .ok a t ↔ False := by
  change EStateM.Result.error e s = .ok a t ↔ False
  simp

theorem throwBindOk {e : ε} {f : α → EStateM ε σ β} {s t : σ} {b : β} :
    (throw e >>= f) s = .ok b t ↔ False := by
  rw [bindOk]
  simp only [throwOk, false_and, exists_false]

theorem ofExceptOk {e : Except ε α} {s t : σ} {a : α} :
    (ofExcept e : EStateM ε σ α) s = .ok a t ↔ e = .ok a ∧ s = t := by
  cases e with
  | error e => simp [ofExcept, throwOk]
  | ok b => simp [ofExcept, pureOk]

theorem ofExceptError {x : Except ε α} {s t : σ} {e : ε} :
    (ofExcept x : EStateM ε σ α) s = .error e t ↔ x = .error e ∧ s = t := by
  cases x with
  | error e' =>
    change EStateM.Result.error e' s = .error e t ↔ _
    simp
  | ok a => simp [ofExcept, pure, EStateM.pure]

theorem exceptBindOk {x : Except ε α} {f : α → Except ε β} {b : β} :
    x >>= f = .ok b ↔ ∃ a, x = .ok a ∧ f a = .ok b := by
  simp only [bind, Except.bind]
  cases x with
  | ok a => exact ⟨fun h => ⟨a, rfl, h⟩, fun ⟨_, h, last⟩ => by cases h; exact last⟩
  | error e => simp

theorem exceptBindError {x : Except ε α} {f : α → Except ε β} {e : ε} :
    x >>= f = .error e ↔ x = .error e ∨ ∃ a, x = .ok a ∧ f a = .error e := by
  simp only [bind, Except.bind]
  cases x with
  | ok a => simp
  | error e' => simp

theorem exceptPureOk {a b : α} : (pure a : Except ε α) = .ok b ↔ a = b := by
  simp [pure, Except.pure]

theorem layAliasOk {r r' : Route} {a : Alias} :
    Lay.newAlias r = .ok a r' ↔ .numbered r.issued = a ∧ ⟨r.issued + 1, r.joins⟩ = r' := by
  change EStateM.Result.ok (Alias.numbered r.issued) (⟨r.issued + 1, r.joins⟩ : Route) = .ok a r' ↔ _
  simp

theorem layJoinOk {r r' : Route} {j : Join} :
    Lay.join j r = .ok () r' ↔ ⟨r.issued, r.joins ++ [j]⟩ = r' := by
  change EStateM.Result.ok () (⟨r.issued, r.joins ++ [j]⟩ : Route) = .ok () r' ↔ _
  simp

theorem lookupOk {ctx : Context} {name : QualifiedName} {t : AttributeTable} :
    ctx.lookup name = .ok t ↔ ctx.schema.tableOf name = some t := by
  unfold Context.lookup
  split <;> simp_all

theorem freshOk {lay : Lay α} {n m : Nat} {a : α} {joins : List Join} :
    Lay.fresh lay n = .ok (a, joins) m ↔ lay ⟨n, []⟩ = .ok a ⟨m, joins⟩ := by
  unfold Lay.fresh
  split
  · next b r laid =>
    simp only [laid, EStateM.Result.ok.injEq, Prod.mk.injEq]
    constructor
    · intro same
      obtain ⟨⟨rfl, rfl⟩, rfl⟩ := same
      exact ⟨rfl, rfl⟩
    · intro same
      obtain ⟨rfl, rfl⟩ := same
      exact ⟨⟨rfl, rfl⟩, rfl⟩
  · next e r failed => simp [failed]

def all (sc : Scope) (n : Nat) : Selection := ⟨.numbered n, sc.typeIds, [], [], none⟩

theorem everythingOk {sc : Scope} {n m : Nat} {s : Selection} :
    sc.everything n = .ok s m ↔ all sc n = s ∧ n + 1 = m := by
  change EStateM.Result.ok (all sc n) (n + 1) = .ok s m ↔ _
  simp

theorem nothingOk {sc : Scope} {n m : Nat} {q : SetPlan} :
    sc.nothing n = .ok q m ↔ .select { all sc n with tests := [.never] } = q ∧ n + 1 = m := by
  change EStateM.Result.ok (SetQuery.select { all sc n with tests := [.never] }) (n + 1) = .ok q m ↔ _
  simp

theorem complementOk {sc : Scope} {positive q : SetPlan} {n m : Nat} :
    sc.complement positive n = .ok q m ↔ .compound .except (.select (all sc n)) positive = q ∧ n + 1 = m := by
  change EStateM.Result.ok (SetQuery.compound .except (.select (all sc n)) positive) (n + 1) = .ok q m ↔ _
  simp

theorem selectingOk {sc : Scope} {lay : Alias → Lay (List Test × Option Division)} {n m : Nat} {q : SetPlan} :
    sc.selecting lay n = .ok q m ↔ ∃ joins tests division,
      lay (.numbered n) ⟨n + 1, []⟩ = .ok (tests, division) ⟨m, joins⟩ ∧
      .select ⟨.numbered n, sc.typeIds, joins, tests, division⟩ = q := by
  constructor
  · intro ok
    obtain ⟨s, u, everything, ok⟩ := bindOk.mp ok
    obtain ⟨rfl, rfl⟩ := everythingOk.mp everything
    obtain ⟨⟨⟨tests, division⟩, joins⟩, w, laid, ok⟩ := bindOk.mp ok
    obtain ⟨rfl, rfl⟩ := pureOk.mp ok
    exact ⟨joins, tests, division, freshOk.mp laid, rfl⟩
  · intro laid
    obtain ⟨joins, tests, division, laid, rfl⟩ := laid
    exact bindOk.mpr ⟨_, _, everythingOk.mpr ⟨rfl, rfl⟩, bindOk.mpr ⟨_, _, freshOk.mpr laid, rfl⟩⟩

theorem onRowOk {sc : Scope} {fansOut : Except CompileError Bool} {f : Bool → Compile SetPlan}
    {negated : Bool} {n m : Nat} {q : SetPlan} (ok : sc.onRow fansOut f negated n = .ok q m) :
    (negated = false ∧ f false n = .ok q m) ∨
    (negated = true ∧ fansOut = .ok false ∧ f true n = .ok q m) ∨
    (negated = true ∧ fansOut = .ok true ∧ ∃ positive u, f false n = .ok positive u ∧
      q = .compound .except (.select (all sc u)) positive) := by
  cases negated with
  | false => exact .inl ⟨rfl, ok⟩
  | true =>
    obtain ⟨many, u, asked, ok⟩ := bindOk.mp ok
    obtain ⟨fans, rfl⟩ := ofExceptOk.mp asked
    cases many with
    | false => exact .inr (.inl ⟨rfl, fans, ok⟩)
    | true =>
      obtain ⟨positive, w, compiled, ok⟩ := bindOk.mp ok
      obtain ⟨rfl, _⟩ := complementOk.mp ok
      exact .inr (.inr ⟨rfl, fans, positive, w, compiled, rfl⟩)

theorem unionOk {sc : Scope} {parts : List (Option SetPlan)} {n m : Nat} {part : Option SetPlan}
    (ok : sc.union parts n = .ok part m) :
    (parts.any Option.isNone = true ∧ part = none ∧ n = m) ∨
    (parts.any Option.isNone = false ∧ Scope.chain .union (parts.filterMap id) = part ∧ part.isSome = true ∧ n = m) ∨
    (parts.any Option.isNone = false ∧ Scope.chain .union (parts.filterMap id) = none ∧
      ∃ q, sc.nothing n = .ok q m ∧ part = some q) := by
  unfold Scope.union at ok
  split at ok
  · next vacuous =>
    obtain ⟨rfl, rfl⟩ := pureOk.mp ok
    exact .inl ⟨vacuous, rfl, rfl⟩
  · next present =>
    have present := Bool.eq_false_iff.mpr present
    cases chained : Scope.chain .union (parts.filterMap id) with
    | some q =>
      rw [chained] at ok
      obtain ⟨rfl, rfl⟩ := pureOk.mp ok
      exact .inr (.inl ⟨present, rfl, rfl, rfl⟩)
    | none =>
      rw [chained] at ok
      obtain ⟨q, made, rfl⟩ := mapOk.mp ok
      exact .inr (.inr ⟨present, rfl, q, made, rfl⟩)

theorem valueTestsPlain {ctx : Context} {source : ElementSource} {v : Value} {children : Children}
    (plain : ∀ t fields, v ≠ .composite t fields) : ctx.valueTests source v children =
      ofExcept (ctx.scalarTest ⟨source.tableAlias, ctx.layout.attributeValue⟩ v) >>= fun test =>
        pure ([test], children) := by
  cases v with
  | composite t fields => exact absurd rfl (plain t fields)
  | _ => rfl

section
variable {ctx : Context} {source parent : ElementSource} {children children' : Children} {r r' : Route} {v : Value}
  {tests : List Test} {test : Test}

theorem plainTestsOk (plain : ∀ t fields, v ≠ .composite t fields) :
    ctx.valueTests source v children r = .ok (tests, children') r' ↔
      ∃ test, ctx.scalarTest ⟨source.tableAlias, ctx.layout.attributeValue⟩ v = .ok test ∧
        [test] = tests ∧ children = children' ∧ r = r' := by
  rw [valueTestsPlain plain, bindOk]
  constructor
  · rintro ⟨test, _, attempt, ok⟩
    obtain ⟨made, rfl⟩ := ofExceptOk.mp attempt
    obtain ⟨same, rfl⟩ := pureOk.mp ok
    cases same
    exact ⟨test, made, rfl, rfl, rfl⟩
  · rintro ⟨test, made, rfl, rfl, rfl⟩
    exact ⟨test, r, ofExceptOk.mpr ⟨made, rfl⟩, rfl⟩

theorem compositeTestsOk {typeName : String} {fields : List (QualifiedName × Value)}
    (ok : ctx.valueTests source (.composite typeName fields) children r = .ok (tests, children') r') :
    ∃ inner, ctx.fieldTests source fields children r = .ok (inner, children') r' ∧ Context.conjunction inner = tests := by
  obtain ⟨⟨inner, _⟩, _, tested, ok⟩ := bindOk.mp ok
  obtain ⟨same, rfl⟩ := pureOk.mp ok
  cases same
  exact ⟨inner, tested, rfl⟩

theorem fieldTestsOk {field : QualifiedName} {rest : List (QualifiedName × Value)}
    (ok : ctx.fieldTests parent ((field, v) :: rest) children r = .ok (tests, children') r') :
    ∃ table joined first more known known' u w, ctx.lookup field = .ok table ∧
      ctx.childAlias parent field table children r = .ok (joined, known) u ∧
      ctx.valueTests ⟨joined, field, table⟩ v known u = .ok (first, known') w ∧
      ctx.fieldTests parent rest known' w = .ok (more, children') r' ∧ first ++ more = tests := by
  obtain ⟨table, _, looked, ok⟩ := bindOk.mp ok
  obtain ⟨found, rfl⟩ := ofExceptOk.mp looked
  split at ok
  · exact (throwBindOk.mp ok).elim
  · obtain ⟨⟨joined, known⟩, u, child, ok⟩ := bindOk.mp ok
    obtain ⟨⟨first, known'⟩, w, value, ok⟩ := bindOk.mp ok
    obtain ⟨⟨more, _⟩, _, others, ok⟩ := bindOk.mp ok
    obtain ⟨same, rfl⟩ := pureOk.mp ok
    cases same
    exact ⟨table, joined, first, more, known, known', u, w, found, child, value, others, rfl⟩

theorem elementTestOk (ok : ctx.elementTest source v children r = .ok (test, children') r') :
    ∃ tests, ctx.valueTests source v children r = .ok (tests, children') r' ∧
      .all (.pathMatches ⟨source.tableAlias, ctx.layout.collectionPath⟩ ctx.layout.belowRoot :: tests) = test := by
  obtain ⟨⟨tests, _⟩, _, value, ok⟩ := bindOk.mp ok
  obtain ⟨same, rfl⟩ := pureOk.mp ok
  cases same
  exact ⟨tests, value, rfl⟩

theorem elementTestsOk {rest : List Value}
    (ok : ctx.elementTests source (v :: rest) children r = .ok (tests, children') r') :
    ∃ test more known u, ctx.elementTest source v children r = .ok (test, known) u ∧
      ctx.elementTests source rest known u = .ok (more, children') r' ∧ test :: more = tests := by
  obtain ⟨⟨test, known⟩, u, first, ok⟩ := bindOk.mp ok
  obtain ⟨⟨more, _⟩, _, others, ok⟩ := bindOk.mp ok
  obtain ⟨same, rfl⟩ := pureOk.mp ok
  cases same
  exact ⟨test, more, known, u, first, others, rfl⟩

theorem childAliasOk {field : QualifiedName} {table : AttributeTable} {joined : Alias}
    (ok : ctx.childAlias parent field table children r = .ok (joined, children') r') :
    (children.lookup (parent.name, field) = some joined ∧ children = children' ∧ r = r') ∨
      (children.lookup (parent.name, field) = none ∧ .numbered r.issued = joined ∧
        children ++ [((parent.name, field), joined)] = children' ∧
        ⟨r.issued + 1, r.joins ++ [⟨ctx.layout.qualified table.name, joined, .left,
          ctx.ownedBy (.object parent.tableAlias parent.table) joined table⟩]⟩ = r') := by
  unfold Context.childAlias at ok
  cases before : children.lookup (parent.name, field) with
  | some x =>
    rw [before] at ok
    obtain ⟨same, rfl⟩ := pureOk.mp ok
    cases same
    exact .inl ⟨rfl, rfl, rfl⟩
  | none =>
    rw [before] at ok
    obtain ⟨_, _, given, ok⟩ := bindOk.mp ok
    obtain ⟨rfl, rfl⟩ := layAliasOk.mp given
    obtain ⟨_, _, join, ok⟩ := bindOk.mp ok
    obtain rfl := layJoinOk.mp join
    obtain ⟨same, rfl⟩ := pureOk.mp ok
    cases same
    exact .inr ⟨rfl, rfl, rfl, rfl⟩

end

end ObjectQuery.Outcome
