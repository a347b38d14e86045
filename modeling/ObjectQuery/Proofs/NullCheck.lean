import ObjectQuery.Proofs.Emitted
import ObjectQuery.Proofs.Selected

/-! Null checks over a store. A check for a missing value selects the entities for which the path breaks
off or ends in a row that holds null, a check for a present one those with any row at its end. An entity
with a row that holds null passes both. -/
namespace ObjectQuery
open Outcome

variable {V : Type}

namespace Context

variable {ctx : Context}

theorem propertyLinksLast {key : String} {names : List QualifiedName} {name : QualifiedName}
    {parent : Option AttributeTable} {links : List Link}
    (known : ctx.propertyLinks key (names ++ [name]) parent = .ok links) :
    ∃ above k, ctx.propertyLinks key names parent = .ok above ∧ links = above ++ [k] := by
  induction names generalizing parent links with
  | nil =>
    obtain ⟨t, _, known⟩ := exceptBindOk.mp known
    obtain rfl := exceptPureOk.mp known
    exact ⟨[], _, rfl, rfl⟩
  | cons first rest ih =>
    obtain ⟨t, found, known⟩ := exceptBindOk.mp known
    obtain ⟨more, knownRest, known⟩ := exceptBindOk.mp known
    obtain rfl := exceptPureOk.mp known
    obtain ⟨above, k, knownAbove, rfl⟩ := ih knownRest
    exact ⟨_, k, exceptBindOk.mpr ⟨t, found, exceptBindOk.mpr ⟨above, knownAbove, rfl⟩⟩, rfl⟩

theorem hopLinksSingle {hops : List AssociationHop} {key : String} {links : List Link}
    (single : ∀ hop ∈ hops, hop.kind = .single) (known : ctx.hopLinks hops key = .ok links) :
    ∀ k ∈ links, k.single = true := by
  intro k mem
  obtain ⟨hop, inside, t, column, _, _, rfl⟩ := hopLinkMem known mem
  simp [single hop inside]

theorem pathLinksSingleAbove {kind : JoinKind} {p : PropertyPath} {root : Alias} {r r' : Route}
    {target : PropertyTarget} {links : List Link} (there : TargetLaid ctx kind p root r target links r')
    (single : ctx.fansOut p = .ok false) : ∀ k ∈ links.dropLast, k.single = true := by
  obtain ⟨hops, before⟩ := fansOutFalse single
  obtain ⟨first, knownHops, known⟩ := exceptBindOk.mp there.known
  have ofHops := hopLinksSingle hops knownHops
  split at known
  · obtain rfl := exceptPureOk.mp known
    intro k mem
    rcases List.mem_append.mp (List.dropLast_subset _ mem) with mem | mem
    · exact ofHops k mem
    · split at mem
      · obtain rfl := List.mem_singleton.mp mem
        rfl
      · cases mem
  · next stored =>
    obtain ⟨more, knownMore, known⟩ := exceptBindOk.mp known
    obtain rfl := exceptPureOk.mp known
    obtain ⟨above, last, knownAbove, rfl⟩ := propertyLinksLast knownMore
    rw [← List.append_assoc, List.dropLast_concat]
    intro k mem
    rcases List.mem_append.mp mem with mem | mem
    · exact ofHops k mem
    · obtain ⟨name, inside, t, _, found, _, rfl⟩ := propertyLinkMem knownAbove mem
      simp [before name inside (there.plain (by simpa using stored) name inside) t found]

end Context

namespace Scope

section
variable (sc : Scope) (db : Store sc.layout V) (p : PropertyPath) (r : Row V)

def HasRow : Prop := ∃ links t, sc.pathLinks p = .ok links ∧ Chain db r links t

def HasNull : Prop :=
  ∃ links t, sc.pathLinks p = .ok links ∧ Chain db r links t ∧ t (sc.layout.valueColumn p) = none

def HasBreak : Prop := ∃ links, sc.pathLinks p = .ok links ∧ Broken db r links

def Checked : Bool → Prop
  | true => sc.HasNull db p r ∨ sc.HasBreak db p r
  | false => sc.HasRow db p r

end

theorem nullTestsPass {I : Interpretation V} {c : Column} {isNull negated : Bool} {e : Joined V} :
    (∀ t ∈ nullTests c isNull negated, t.Passes I e) ↔ ((isNull != negated) = true → c.read e = none) := by
  unfold nullTests
  split
  · next missing => simp [Test.Passes, Test.truth, missing]
  · next present => simp [present]

section
variable [DecidableEq V] {sc : Scope} (db : Store sc.layout V) (I : Interpretation V) {p : PropertyPath}
  {isNull negated : Bool} {n m : Nat} {q : SetPlan}

theorem propertyNullSelects (ok : sc.propertyNull p isNull negated n = .ok q m) :
    (∃ kind target links r', sc.TargetLaid kind p (.numbered n) ⟨n + 1, []⟩ target links r') ∧
    q.reading (Selection.selected I db) =
      db.select I sc.typeIds fun r => sc.Checked db p r (isNull != negated) := by
  obtain ⟨joins, tests, division, laid, rfl⟩ := selectingOk.mp ok
  obtain ⟨target, u, path, laid⟩ := bindOk.mp laid
  obtain ⟨links, there⟩ := Context.layPathLaid path
  obtain ⟨tested, route⟩ := pureOk.mp laid
  obtain ⟨rfl, rfl⟩ := Prod.mk.inj tested
  obtain ⟨_, rfl⟩ := Route.mk.inj (there.laid.route.symm.trans route)
  refine ⟨⟨_, target, links, u, there⟩, ?_⟩
  have known : ∀ {links'}, sc.pathLinks p = .ok links' → links = links' := fun other =>
    Except.ok.inj (there.known.symm.trans other)
  have join : (LeafKind.ofNull true isNull).join negated = if isNull != negated then .left else .inner := by
    cases isNull <;> cases negated <;> rfl
  have along : Selection.selected I db ⟨.numbered n, sc.typeIds,
        Link.joins ((LeafKind.ofNull true isNull).join negated) (.numbered n) (n + 1) links,
        nullTests target.value isNull negated, none⟩ =
      db.select I sc.typeIds fun r => ∃ t, JoinChain db ((LeafKind.ofNull true isNull).join negated) r links t ∧
        ((isNull != negated) = true → t (sc.layout.valueColumn p) = none) := by
    refine selectedAlong (P := fun t => (isNull != negated) = true → t (sc.layout.valueColumn p) = none) fun e => ?_
    rw [nullTestsPass, there.value, there.laid.reached]
    rfl
  refine along.trans (congrArg (db.select I sc.typeIds) (funext fun r => propext ?_))
  rw [join]
  cases isNull != negated with
  | false =>
    simp only [Bool.false_eq_true, if_false, joinChainInner, false_implies, and_true, Checked]
    constructor
    · intro found
      obtain ⟨t, chain⟩ := found
      exact ⟨links, t, there.known, chain⟩
    · intro found
      obtain ⟨links', t, other, chain⟩ := found
      exact ⟨t, known other ▸ chain⟩
  | true =>
    simp only [if_true, leftChain (Context.pathLinksKeyed there.known), true_implies, Checked]
    constructor
    · intro found
      obtain ⟨t, chain | ⟨rfl, broken⟩, null⟩ := found
      · exact .inl ⟨links, t, there.known, chain, null⟩
      · exact .inr ⟨links, there.known, broken⟩
    · intro found
      rcases found with ⟨links', t, other, chain, null⟩ | ⟨links', other, broken⟩
      · exact ⟨t, .inl (known other ▸ chain), null⟩
      · exact ⟨Row.null, .inr ⟨rfl, known other ▸ broken⟩, rfl⟩

end

section
variable {sc : Scope} {db : Store sc.layout V} {p : PropertyPath} {r : Row V}

theorem nullHasRow (null : sc.HasNull db p r) : sc.HasRow db p r := by
  obtain ⟨links, t, known, chain, _⟩ := null
  exact ⟨links, t, known, chain⟩

theorem checkedEither {links : List Link} (known : sc.pathLinks p = .ok links) (missing : Bool) :
    sc.Checked db p r missing ∨ sc.Checked db p r (!missing) := by
  have reached : sc.HasRow db p r ∨ sc.HasBreak db p r :=
    (chainOrBroken db r links).imp (fun ⟨t, chain⟩ => ⟨links, t, known, chain⟩) fun broken => ⟨links, known, broken⟩
  cases missing with
  | false => exact reached.imp id .inr
  | true => exact reached.symm.imp .inr id

theorem checkedBoth (missing : Bool) : sc.Checked db p r missing ∧ sc.Checked db p r (!missing) ↔
    sc.HasRow db p r ∧ (sc.HasNull db p r ∨ sc.HasBreak db p r) := by
  cases missing with
  | false => exact Iff.rfl
  | true => exact and_comm

theorem rowUnbroken {links : List Link} (known : sc.pathLinks p = .ok links)
    (one : ∀ k ∈ links.dropLast, k.OneRow db) (found : sc.HasRow db p r) : ¬ sc.HasBreak db p r := by
  intro broken
  obtain ⟨links₁, t, known₁, chain⟩ := found
  obtain ⟨links₂, known₂, broken⟩ := broken
  cases known.symm.trans known₁
  cases known.symm.trans known₂
  exact chainUnbroken one chain broken

theorem overlapIsNull {links : List Link} (known : sc.pathLinks p = .ok links)
    (one : ∀ k ∈ links.dropLast, k.OneRow db) :
    sc.HasRow db p r ∧ (sc.HasNull db p r ∨ sc.HasBreak db p r) ↔ sc.HasNull db p r := by
  constructor
  · intro both
    exact both.2.resolve_right (rowUnbroken known one both.1)
  · intro null
    exact ⟨nullHasRow null, .inl null⟩

end

/-- Both polarities together find every entity. On a path that fans out they share none; on any other
they share exactly the entities with a row that holds null, if single hops lead to one row. -/
theorem nullChecksOverlapInNulls [DecidableEq V] (sc : Scope) (I : Interpretation V)
    (db : Store sc.layout V) {p : PropertyPath} {isNull : Bool} {n m n' m' : Nat} {q q' : Option SetPlan}
    (positive : sc.compile (.leaf (.propertyNull p isNull)) false n = .ok q m)
    (negative : sc.compile (.leaf (.propertyNull p isNull)) true n' = .ok q' m') :
    ∃ plan rest, q = some plan ∧ q' = some rest ∧
      (sc.layout.faults = [] → sc.schema.Identified →
        (plan.toSql sc.layout).Selects I db (plan.reading (Selection.selected I db)) ∧
        (rest.toSql sc.layout).Selects I db (rest.reading (Selection.selected I db))) ∧
      plan.reading (Selection.selected I db) = db.select I sc.typeIds (fun r => sc.Checked db p r isNull) ∧
      plan.reading (Selection.selected I db) ∪ rest.reading (Selection.selected I db) =
        db.select I sc.typeIds (fun _ => True) ∧
      (sc.fansOut p = .ok true → rest.reading (Selection.selected I db) =
        db.select I sc.typeIds (fun _ => True) \ plan.reading (Selection.selected I db)) ∧
      (sc.fansOut p = .ok false →
        plan.reading (Selection.selected I db) ∩ rest.reading (Selection.selected I db) =
          db.select I sc.typeIds fun r => sc.HasRow db p r ∧ (sc.HasNull db p r ∨ sc.HasBreak db p r)) ∧
      (sc.fansOut p = .ok false →
        (∀ links, sc.pathLinks p = .ok links → ∀ k ∈ links.dropLast, k.single = true → k.OneRow db) →
        plan.reading (Selection.selected I db) ∩ rest.reading (Selection.selected I db) =
          db.select I sc.typeIds (sc.HasNull db p) ∧
        (rest.reading (Selection.selected I db) =
            db.select I sc.typeIds (fun _ => True) \ plan.reading (Selection.selected I db) ↔
          ∀ r ∈ db.entities, I.OfType sc.layout sc.typeIds r → ¬ sc.HasNull db p r)) := by
  obtain ⟨plan, row, rfl⟩ := mapOk.mp positive
  obtain ⟨rest, row', rfl⟩ := mapOk.mp negative
  obtain ⟨⟨kind, target, links, r', there⟩, reads⟩ := propertyNullSelects db I row
  rw [Bool.bne_false] at reads
  have yielded (valid : sc.layout.faults = []) (named : sc.schema.Identified) :
      (plan.toSql sc.layout).Selects I db (plan.reading (Selection.selected I db)) ∧
      (rest.toSql sc.layout).Selects I db (rest.reading (Selection.selected I db)) :=
    ⟨compiledSelects valid named I db positive, compiledSelects valid named I db negative⟩
  refine ⟨plan, rest, rfl, rfl, yielded, reads, ?_⟩
  rcases onRowOk row' with ⟨off, _⟩ | ⟨_, one, compiled⟩ | ⟨_, many, first, u, compiled, rfl⟩
  · cases off
  · obtain ⟨_, reads'⟩ := propertyNullSelects db I compiled
    rw [Bool.bne_true] at reads'
    have overlap : plan.reading (Selection.selected I db) ∩ rest.reading (Selection.selected I db) =
        db.select I sc.typeIds fun r => sc.HasRow db p r ∧ (sc.HasNull db p r ∨ sc.HasBreak db p r) := by
      rw [reads, reads', Store.selectInter]
      simp only [checkedBoth]
    have all : plan.reading (Selection.selected I db) ∪ rest.reading (Selection.selected I db) =
        db.select I sc.typeIds fun _ => True := by
      rw [reads, reads', Store.selectUnion]
      simp only [checkedEither there.known]
    refine ⟨all, fun many => ?_, fun _ => overlap, fun _ single => ?_⟩
    · cases one.symm.trans many
    · have above : ∀ k ∈ links.dropLast, k.OneRow db := fun k mem =>
        single links there.known k mem (Context.pathLinksSingleAbove there one k mem)
      have inNulls : plan.reading (Selection.selected I db) ∩ rest.reading (Selection.selected I db) =
          db.select I sc.typeIds (sc.HasNull db p) := by
        simp only [overlap, overlapIsNull there.known above]
      refine ⟨inNulls, ?_⟩
      rw [← db.selectEmpty, ← inNulls, ← all, Set.union_sdiff_left, eq_comm, sdiff_eq_left, disjoint_comm,
        Set.disjoint_iff_inter_eq_empty]
  · obtain ⟨_, reads'⟩ := propertyNullSelects db I compiled
    rw [Bool.bne_false, ← reads] at reads'
    have difference : (SetQuery.compound .except (.select (all sc u)) first).reading (Selection.selected I db) =
        db.select I sc.typeIds (fun _ => True) \ plan.reading (Selection.selected I db) := by
      rw [SetQuery.reading, SetQuery.reading, selectedAll, reads']
    refine ⟨?_, fun _ => difference, fun one => ?_, fun one => ?_⟩
    · rw [difference, Set.union_sdiff_self, reads, Store.selectUnion]
      simp only [or_true]
    · cases many.symm.trans one
    · cases many.symm.trans one

end Scope

namespace NullCheckSample

def persons : Scope where
  schema := (Schema.empty.withAttribute ⟨"Person", "employer"⟩ (.of "person_employer" 0)).withAttribute
    ⟨"Person", "nicknames"⟩ (.of "person_nicknames" 1)
  layout := .default
  typeIds := [1]

def nicknames : PropertyPath := .of ⟨"Person", "nicknames"⟩

def employersNicknames : PropertyPath := ⟨some (.single ⟨"Person", "employer"⟩), [], ⟨"Person", "nicknames"⟩⟩

def row (cells : List (String × Int)) : Row Int := fun column => cells.lookup column

def rows : String → List (Row Int)
  | "entities" =>
    [row [("entity_pk", 1), ("entity_identity", 101), ("entity_type_id", 1)],
      row [("entity_pk", 2), ("entity_identity", 102), ("entity_type_id", 1)],
      row [("entity_pk", 3), ("entity_identity", 103), ("entity_type_id", 1)]]
  | "person_employer" =>
    [row [("entity_pk", 1), ("qname_value", 2)], row [("entity_pk", 2), ("qname_value", 3)]]
  | "person_nicknames" => [row [("entity_pk", 2)], row [("entity_pk", 3), ("qname_value", 7)]]
  | _ => []

def store : Store persons.layout Int where
  rows := rows
  distinctKeys := by
    change ∀ a ∈ rows "entities", ∀ b ∈ rows "entities", a "entity_pk" = b "entity_pk" → a = b
    simp [rows, row]

def numbers : Interpretation Int where
  isType v id := v == id.toInt
  compare v _ b := match b.value with
    | .int n => v == n.toInt
    | _ => false
  pathMatches _ _ := false

theorem personsIdentified : persons.schema.Identified := by
  refine Schema.withAttributeIdentified (Schema.withAttributeIdentified (fun _ _ none => nomatch none) ?_) ?_ <;>
    exact ⟨rfl, rfl, rfl⟩

theorem nullNicknameInBoth : ∃ q m q' m',
    persons.compile (.leaf (.propertyNull nicknames true)) false 0 = .ok (some (.select q)) m ∧
    persons.compile (.leaf (.propertyNull nicknames true)) true 0 = .ok (some (.select q')) m' ∧
    q.answer numbers store = [(some 1, some 101), (some 2, some 102)] ∧
    q'.answer numbers store = [(some 2, some 102), (some 3, some 103)] ∧
    q'.selected numbers store ≠ store.select numbers [1] (fun _ => True) \ q.selected numbers store := by
  have differ : ∀ q q' : Selection, q.answer numbers store = [(some 1, some 101), (some 2, some 102)] →
      q'.answer numbers store = [(some 2, some 102), (some 3, some 103)] →
      q'.selected numbers store ≠ store.select numbers [1] (fun _ => True) \ q.selected numbers store := by
    intro q q' answer answer' same
    have positive : (some 2, some 102) ∈ q.selected numbers store := by simp [Selection.selected, answer]
    have negative : (some 2, some 102) ∈ q'.selected numbers store := by simp [Selection.selected, answer']
    rw [same] at negative
    exact negative.2 positive
  refine ⟨_, _, _, _, rfl, rfl, ?_, ?_, differ _ _ ?_ ?_⟩ <;> decide +kernel

theorem employersAreSingle (links) (known : persons.pathLinks employersNicknames = .ok links) :
    ∀ k ∈ links.dropLast, k.single = true → k.OneRow store := by
  have only : links.dropLast = [⟨"person_employer", [("entity_pk", "entity_pk")], true⟩] := by
    cases known
    rfl
  have keyed : ∀ s ∈ rows "person_employer", ∀ t ∈ rows "person_employer",
      s "entity_pk" = t "entity_pk" → s = t := by
    simp [rows, row]
  rw [only]
  intro k mem _ s inside t inside' same
  obtain rfl := List.mem_singleton.mp mem
  obtain ⟨v, left, right⟩ := same _ List.mem_cons_self
  exact keyed s inside t inside' (left.trans right.symm)

theorem employersNicknamesOverlapInNulls : ∃ q m q' m',
    persons.compile (.leaf (.propertyNull employersNicknames true)) false 0 = .ok (some q) m ∧
    persons.compile (.leaf (.propertyNull employersNicknames true)) true 0 = .ok (some q') m' ∧
    persons.fansOut employersNicknames = .ok false ∧
    (q.toSql persons.layout).Selects numbers store (q.reading (Selection.selected numbers store)) ∧
    (q'.toSql persons.layout).Selects numbers store (q'.reading (Selection.selected numbers store)) ∧
    q.reading (Selection.selected numbers store) ∩ q'.reading (Selection.selected numbers store) =
      store.select numbers [1] (persons.HasNull store employersNicknames) ∧
    q.reading (Selection.selected numbers store) ∪ q'.reading (Selection.selected numbers store) =
      store.select numbers [1] (fun _ => True) := by
  have positive : persons.compile (.leaf (.propertyNull employersNicknames true)) false 0 = .ok _ _ := rfl
  have negative : persons.compile (.leaf (.propertyNull employersNicknames true)) true 0 = .ok _ _ := rfl
  obtain ⟨plan, rest, same, same', yielded, _, all, _, _, single⟩ :=
    Scope.nullChecksOverlapInNulls persons numbers store positive negative
  cases same
  cases same'
  obtain ⟨first, second⟩ := yielded (by decide) personsIdentified
  exact ⟨_, _, _, _, positive, negative, rfl, first, second, (single rfl employersAreSingle).1, all⟩

end NullCheckSample
end ObjectQuery
