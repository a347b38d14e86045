import ObjectQuery.Proofs.Admission

/-! Traversal of property paths, hop by hop. Each table on the way is matched with the one before it by
what the two are; a run gets behind all hops, or stops before the first one that is not mapped. -/
namespace ObjectQuery
open Outcome

/-- A table on the way: one of an association, that of the entity an association refers to, one of a property. -/
inductive Passage where
  | association (kind : AssociationKind) (t : AttributeTable)
  | entity
  | property (t : AttributeTable)
  deriving DecidableEq, Repr

namespace Layout

variable (l : Layout)

def ownerKey : Option Passage → String
  | none => l.entityKey
  | some _ => l.attributeValue

def passageLink (before : Option Passage) : Passage → Link
  | .association kind t => ⟨l.qualified t.name, [(l.attributeEntityKey, l.ownerKey before)], kind == .single⟩
  | .entity => ⟨l.qualified l.entityTable, [(l.entityKey, l.ownerKey before)], true⟩
  | .property t => ⟨l.qualified t.name, match before with
      | some (.property parent) =>
        [(l.attributeEntityKey, l.attributeEntityKey), (t.parentColumn, parent.childColumn)]
      | owner => [(l.attributeEntityKey, l.ownerKey owner)], !t.isCollection⟩

def passageLinks : Option Passage → List Passage → List Link
  | _, [] => []
  | before, s :: rest => l.passageLink before s :: passageLinks (some s) rest

theorem passageLinksAppend (before : Option Passage) (xs ys : List Passage) :
    l.passageLinks before (xs ++ ys) = l.passageLinks before xs ++ l.passageLinks (xs.getLast?.or before) ys := by
  induction xs generalizing before with
  | nil => rfl
  | cons x xs ih =>
    have last : (x :: xs).getLast?.or before = xs.getLast?.or (some x) := by
      cases xs <;> simp [List.getLast?_cons]
    rw [last, List.cons_append, passageLinks, passageLinks, ih, List.cons_append]

end Layout

inductive Walked {α : Type} (l : Layout) (kind : JoinKind) (start : Alias) (before : Option Passage)
    (hops : List (Option Passage)) (ends : α → Alias → Option Passage → Prop) (r : Route) :
    EStateM.Result CompileError Route α → Prop where
  | through {passed v a r'} (all : hops = passed.map some)
      (laid : Laid kind start (l.passageLinks before passed) r a r') (ended : ends v a (passed.getLast?.or before)) :
      Walked l kind start before hops ends r (.ok v r')
  | stopped {passed rest e a r'} (part : hops = passed.map some ++ none :: rest)
      (laid : Laid kind start (l.passageLinks before passed) r a r') :
      Walked l kind start before hops ends r (.error e r')

def Walks {α : Type} (l : Layout) (kind : JoinKind) (start : Alias) (before : Option Passage)
    (hops : List (Option Passage)) (ends : α → Alias → Option Passage → Prop) (x : Lay α) : Prop :=
  ∀ r, Walked l kind start before hops ends r (x r)

section
variable {α β : Type} {l : Layout} {kind : JoinKind} {start : Alias} {before : Option Passage}
  {hops more : List (Option Passage)} {ends : α → Alias → Option Passage → Prop}
  {finish : β → Alias → Option Passage → Prop} {x : Lay α} {f : α → Lay β}

theorem Walked.after {passed : List Passage} {a : Alias} {r r' : Route} {outcome : EStateM.Result CompileError Route α}
    (laid : Laid kind start (l.passageLinks before passed) r a r')
    (rest : Walked l kind a (passed.getLast?.or before) more ends r' outcome) :
    Walked l kind start before (passed.map some ++ more) ends r outcome := by
  cases rest with
  | through all onward ended =>
    have whole := laid.append onward
    rw [← l.passageLinksAppend] at whole
    rw [← Option.or_assoc, ← List.getLast?_append] at ended
    exact .through (by rw [all, List.map_append]) whole ended
  | stopped part onward =>
    have whole := laid.append onward
    rw [← l.passageLinksAppend] at whole
    exact .stopped (by rw [part, List.map_append, List.append_assoc]) whole

namespace Walks

theorem done {v : α} (ended : ends v start before) : Walks l kind start before [] ends (pure v) :=
  fun r => .through List.map_nil.symm (.nil start r) ended

theorem next (first : Walks l kind start before hops ends x)
    (rest : ∀ v a last, ends v a last → Walks l kind a last more finish (f v)) :
    Walks l kind start before (hops ++ more) finish (x >>= f) := by
  intro r
  have ran := first r
  cases outcome : x r with
  | error e r' =>
    rw [outcome] at ran
    rw [bindError.mpr (.inl outcome)]
    cases ran with
    | stopped part laid => exact .stopped (by rw [part, List.append_assoc, List.cons_append]) laid
  | ok v r' =>
    rw [outcome] at ran
    rw [bindPassed outcome]
    cases ran with
    | through all laid ended =>
      rw [all]
      exact .after laid (rest v _ _ ended r')

theorem returned {g : α → β} (walks : Walks l kind start before hops ends x)
    (each : ∀ v a last, ends v a last → finish (g v) a last) :
    Walks l kind start before hops finish (x >>= fun v => pure (g v)) := by
  have onward : Walks l kind start before (hops ++ []) finish (x >>= fun v => pure (g v)) :=
    walks.next fun v a last ended => .done (each v a last ended)
  rwa [List.append_nil] at onward

theorem joined (s : Passage) {j : Alias → Join} {f : Alias → Lay α}
    (link : ∀ a, j a = (l.passageLink before s).join kind a start)
    (rest : ∀ a, Walks l kind a (some s) more ends (f a)) :
    Walks l kind start before (some s :: more) ends (Lay.newAlias >>= fun a => Lay.join (j a) >>= fun _ => f a) := by
  intro r
  have one : Laid kind start (l.passageLinks before [s]) r (.numbered r.issued)
      ⟨r.issued + 1, r.joins ++ [j (.numbered r.issued)]⟩ := ⟨by rw [link]; rfl, rfl⟩
  exact .after one (rest (.numbered r.issued) ⟨r.issued + 1, r.joins ++ [j (.numbered r.issued)]⟩)

end Walks
end

def Layout.ownerAfter (l : Layout) (a : Alias) : Option Passage → Owner
  | some (.property t) => .object a t
  | before => .entity ⟨a, l.ownerKey before⟩

structure PropertyPath.Allowed (ctx : Context) (p : PropertyPath) : Prop where
  depth : p.length ≤ ctx.layout.maxDepth.toNat
  alone : (∃ name ∈ p.hops, name.isIdentity = true) → p.before = []

namespace Context

def stations (ctx : Context) (p : PropertyPath) : List (Option Passage) :=
  p.associationHops.map (fun hop => (ctx.schema.tableOf hop.name).map (.association hop.kind)) ++
    if p.last.isIdentity then if p.association.isSome then [some .entity] else []
    else p.hops.map fun name => (ctx.schema.tableOf name).map .property

variable {ctx : Context} {kind : JoinKind} {before : Option Passage} {start root : Alias} {r r' : Route}

theorem walksMapped {α : Type} {name : QualifiedName} {passage : AttributeTable → Passage}
    {more : List (Option Passage)} {ends : α → Alias → Option Passage → Prop} {j : AttributeTable → Alias → Join}
    {f : AttributeTable → Alias → Lay α}
    (link : ∀ t a, j t a = (ctx.layout.passageLink before (passage t)).join kind a start)
    (rest : ∀ t a, ctx.schema.tableOf name = some t →
      Walks ctx.layout kind a (some (passage t)) more ends (f t a)) :
    Walks ctx.layout kind start before ((ctx.schema.tableOf name).map passage :: more) ends
      (ofExcept (ctx.lookup name) >>= fun t => Lay.newAlias >>= fun a => Lay.join (j t a) >>= fun _ => f t a) := by
  intro r
  cases found : ctx.schema.tableOf name with
  | none =>
    have unmapped : ctx.lookup name = .error (.inconsistent (.unmapped name)) := by rw [lookup, found]
    rw [unmapped]
    exact .stopped (show _ = [].map some ++ none :: more from rfl) (.nil start r)
  | some t =>
    rw [lookupOk.mpr found]
    exact Walks.joined (passage t) (link t) (fun a => rest t a found) r

theorem layHopsWalks (hops : List AssociationHop)
    (entity : ctx.layout.ownerAfter start before = .entity ⟨start, ctx.layout.ownerKey before⟩) :
    Walks ctx.layout kind start before
      (hops.map fun hop => (ctx.schema.tableOf hop.name).map (.association hop.kind))
      (fun target a last => target = ⟨a, ⟨a, ctx.layout.ownerKey last⟩⟩ ∧
        ctx.layout.ownerAfter a last = .entity ⟨a, ctx.layout.ownerKey last⟩)
      (ctx.layHops kind hops ⟨start, ⟨start, ctx.layout.ownerKey before⟩⟩) := by
  induction hops generalizing start before with
  | nil => exact .done ⟨rfl, entity⟩
  | cons hop rest ih => exact walksMapped (fun t a => rfl) fun t a _ => ih rfl

theorem layEntityWalks : Walks ctx.layout kind start before [some .entity] (fun entity a _ => entity = a)
    (ctx.layEntity ⟨start, ctx.layout.ownerKey before⟩ kind) :=
  .joined .entity (fun _ => rfl) fun _ => .done rfl

theorem layPropertyWalks (name : QualifiedName) :
    Walks ctx.layout kind start before [(ctx.schema.tableOf name).map .property]
      (fun reached a last => reached.1 = a ∧ last = some (.property reached.2) ∧
        ctx.schema.tableOf name = some reached.2)
      (ctx.layProperty kind (ctx.layout.ownerAfter start before) name) := by
  refine walksMapped (fun t a => ?_) fun t a found => .done ⟨rfl, rfl, found⟩
  cases before with
  | none => rfl
  | some passage => cases passage <;> rfl

theorem layPropertiesWalks (names : List QualifiedName) :
    Walks ctx.layout kind start before (names.map fun name => (ctx.schema.tableOf name).map .property)
      (fun owner a last => owner = ctx.layout.ownerAfter a last)
      (ctx.layProperties kind names (ctx.layout.ownerAfter start before)) := by
  induction names generalizing start before with
  | nil => exact .done rfl
  | cons name rest ih =>
    change Walks _ _ _ _ ([(ctx.schema.tableOf name).map .property] ++ _) _ _
    refine (layPropertyWalks name).next fun reached a last ended => ?_
    obtain ⟨rfl, rfl, _⟩ := ended
    exact ih

def targetAt (ctx : Context) (p : PropertyPath) (a : Alias) : PropertyTarget :=
  ⟨a, ⟨a, ctx.layout.valueColumn p⟩, if p.last.isIdentity then none else ctx.schema.tableOf p.last, p.last⟩

theorem layIdentityWalks {p : PropertyPath} (identity : p.last.isIdentity = true) :
    Walks ctx.layout kind root none (ctx.stations p) (fun target a _ => target = ctx.targetAt p a)
      (ctx.layIdentity p root kind) := by
  have target (a : Alias) : ⟨a, ctx.layout.identityOf a, none, p.last⟩ = ctx.targetAt p a := by
    simp [targetAt, Layout.valueColumn, Layout.identityOf, identity]
  unfold layIdentity stations PropertyPath.associationHops
  cases p.association with
  | none =>
    simp only [identity, if_true, Option.isSome_none, List.map_nil, List.nil_append]
    exact .done (target root)
  | some a =>
    simp only [identity, if_true, Option.isSome_some]
    refine (layHopsWalks a.hops rfl).next fun reached b last ended => ?_
    obtain ⟨rfl, _⟩ := ended
    refine layEntityWalks.returned fun entity c _ same => ?_
    rw [same, target]

theorem layAttributeWalks {p : PropertyPath} (stored : p.last.isIdentity = false) :
    Walks ctx.layout kind root none (ctx.stations p) (fun target a _ => target = ctx.targetAt p a)
      (ctx.layAttribute p root kind) := by
  have target (a : Alias) : ctx.targetAt p a =
      ⟨a, ⟨a, ctx.layout.attributeValue⟩, ctx.schema.tableOf p.last, p.last⟩ := by
    simp [targetAt, Layout.valueColumn, stored]
  unfold stations
  simp only [stored, Bool.false_eq_true, if_false, PropertyPath.hops, List.map_append, List.map_cons, List.map_nil]
  refine (layHopsWalks p.associationHops rfl).next fun reached b last ended => ?_
  obtain ⟨rfl, entity⟩ := ended
  rw [← entity]
  refine (layPropertiesWalks p.before).next fun owner c last' ended => ?_
  subst ended
  refine (layPropertyWalks p.last).returned fun reached d _ ended => ?_
  obtain ⟨same, _, found⟩ := ended
  rw [target, found, same]

theorem layPathWalks {p : PropertyPath} (root : Alias) (kind : JoinKind) (allowed : p.Allowed ctx) :
    Walks ctx.layout kind root none (ctx.stations p) (fun target a _ => target = ctx.targetAt p a)
      (ctx.layPath p root kind) := by
  have checked : ctx.checkDepth p.length p.text = .ok () := if_neg (Nat.not_lt.mpr allowed.depth)
  unfold layPath
  rw [checked]
  change Walks _ _ _ _ _ _ (if p.hops.any (·.isIdentity) then
    if p.before.isEmpty then ctx.layIdentity p root kind else throw (.unsupported (.identityInside p))
    else ctx.layAttribute p root kind)
  split
  · next identity =>
    have found : ∃ name ∈ p.hops, name.isIdentity = true := by simpa using identity
    have first := allowed.alone found
    rw [if_pos (List.isEmpty_iff.mpr first)]
    exact layIdentityWalks (by simpa [PropertyPath.hops, first] using found)
  · next absent =>
    have plain : ∀ name ∈ p.hops, name.isIdentity = false := by simpa using absent
    exact layAttributeWalks (plain _ (by simp [PropertyPath.hops]))

theorem layPathRefused {p : PropertyPath} (root : Alias) (kind : JoinKind) (r : Route) (refused : ¬p.Allowed ctx) :
    ∃ e, ctx.layPath p root kind r = .error e r := by
  unfold layPath
  by_cases shallow : p.length ≤ ctx.layout.maxDepth.toNat
  · have checked : ctx.checkDepth p.length p.text = .ok () := if_neg (Nat.not_lt.mpr shallow)
    obtain ⟨found, others⟩ := Classical.not_imp.mp fun alone => refused ⟨shallow, alone⟩
    rw [checked, if_pos (by simpa using found), if_neg (by simpa using others)]
    exact ⟨_, rfl⟩
  · have checked : ctx.checkDepth p.length p.text =
        .error (.inconsistent (.tooDeep p.text p.length ctx.layout.maxDepth)) := if_pos (Nat.not_le.mp shallow)
    rw [checked]
    exact ⟨_, rfl⟩

theorem layPathThrough {p : PropertyPath} {target : PropertyTarget}
    (ok : ctx.layPath p root kind r = .ok target r') : ∃ passed a, ctx.stations p = passed.map some ∧
      Laid kind root (ctx.layout.passageLinks none passed) r a r' ∧ target = ctx.targetAt p a := by
  have allowed : p.Allowed ctx := by
    by_contra refused
    obtain ⟨e, failed⟩ := layPathRefused root kind r refused
    cases failed.symm.trans ok
  have ran := layPathWalks root kind allowed r
  rw [ok] at ran
  cases ran with
  | @through passed _ a _ all laid ended => exact ⟨passed, a, all, laid, ended⟩

theorem layPathStopped {p : PropertyPath} {e : CompileError} (failed : ctx.layPath p root kind r = .error e r') :
    ∃ passed a, Laid kind root (ctx.layout.passageLinks none passed) r a r' ∧
      (p.Allowed ctx ∧ (∃ rest, ctx.stations p = passed.map some ++ none :: rest) ∨ ¬p.Allowed ctx ∧ passed = []) := by
  by_cases allowed : p.Allowed ctx
  · have ran := layPathWalks root kind allowed r
    rw [failed] at ran
    cases ran with
    | @stopped passed rest _ a _ part laid => exact ⟨passed, a, laid, .inl ⟨allowed, rest, part⟩⟩
  · obtain ⟨e', refused⟩ := layPathRefused root kind r allowed
    cases refused.symm.trans failed
    exact ⟨[], root, .nil root r, .inr ⟨allowed, rfl⟩⟩

end Context

theorem Link.lastOf (kind : JoinKind) (a : Alias) (n : Nat) (ks : List Link) :
    Link.last a n ks = ((Link.joins kind a n ks).map (·.tableAlias)).getLastD a := by
  induction ks generalizing a n with
  | nil => rfl
  | cons k ks ih => rw [last, ih, joins, List.map_cons, List.getLastD_cons]; rfl

structure Route.Passed (l : Layout) (kind : JoinKind) (root : Alias) (r : Route) (passed : List Passage)
    (added : List Join) (r' : Route) : Prop where
  matched : added = Link.joins kind root r.issued (l.passageLinks none passed)
  joins : r'.joins = r.joins ++ added
  issued : r'.issued = r.issued + added.length
  aliases : added.map (·.tableAlias) = Alias.block r.issued added.length

theorem Laid.passed {l : Layout} {kind : JoinKind} {root a : Alias} {passed : List Passage} {r r' : Route}
    (laid : Laid kind root (l.passageLinks none passed) r a r') :
    r.Passed l kind root passed (Link.joins kind root r.issued (l.passageLinks none passed)) r' := by
  obtain ⟨rfl, _⟩ := laid
  refine ⟨rfl, rfl, by rw [Link.joinsLength], ?_⟩
  rw [Link.joinsAliases, Link.joinsLength]

namespace Context

theorem pathTraversedHopByHop (ctx : Context) (p : PropertyPath) (root : Alias) (kind : JoinKind) (r : Route) :
    ((∃ target r', ctx.layPath p root kind r = .ok target r') ↔ p.Known ctx) ∧
    (∀ target r', ctx.layPath p root kind r = .ok target r' → ∃ passed added,
      ctx.stations p = passed.map some ∧ r.Passed ctx.layout kind root passed added r' ∧
      target = ctx.targetAt p ((added.map (·.tableAlias)).getLastD root)) ∧
    ∀ e r', ctx.layPath p root kind r = .error e r' → ∃ passed added,
      r.Passed ctx.layout kind root passed added r' ∧
      (p.Allowed ctx ∧ (∃ rest, ctx.stations p = passed.map some ++ none :: rest) ∨ ¬p.Allowed ctx ∧ passed = []) := by
  have decides : Decides [] (p.Known ctx) (ctx.layPath p root kind) := layPathDecides p root
  refine ⟨decides.done r, fun target r' ok => ?_, fun e r' failed => ?_⟩
  · obtain ⟨passed, a, all, laid, target⟩ := layPathThrough ok
    rw [laid.reached, Link.lastOf kind] at target
    exact ⟨passed, _, all, laid.passed, target⟩
  · obtain ⟨passed, a, laid, why⟩ := layPathStopped failed
    exact ⟨passed, _, laid.passed, why⟩

end Context

namespace TraversalSample

def people : Context where
  schema := ((Schema.empty.withAttribute ⟨"Person", "employer"⟩ (.of "person_employer" 0)).withAttribute
    ⟨"Company", "address"⟩ (.of "company_address" 0)).withAttribute ⟨"Address", "city"⟩ (.of "address_city" 0)
  layout := .default

def employer : AssociationPath := .single ⟨"Person", "employer"⟩

def city : PropertyPath := ⟨some employer, [⟨"Company", "address"⟩], ⟨"Address", "city"⟩⟩

def zip : PropertyPath := ⟨some employer, [⟨"Company", "address"⟩], ⟨"Address", "zip"⟩⟩

theorem cityReachedZipMissed :
    (∃ target r' passed added, people.layPath city (.numbered 0) .left ⟨1, []⟩ = .ok target r' ∧
      people.stations city = passed.map some ∧ Route.Passed .default .left (.numbered 0) ⟨1, []⟩ passed added r' ∧
      added.map (·.toSql.sql) = ["LEFT JOIN person_employer t1 ON t1.entity_pk = t0.entity_pk",
        "LEFT JOIN company_address t2 ON t2.entity_pk = t1.qname_value",
        "LEFT JOIN address_city t3 ON t3.entity_pk = t2.entity_pk AND t3.parent_qname = t2.qname_id"] ∧
      target = people.targetAt city (.numbered 3)) ∧
    ∃ e r' passed added rest, people.layPath zip (.numbered 0) .left ⟨1, []⟩ = .error e r' ∧
      people.stations zip = passed.map some ++ none :: rest ∧
      Route.Passed .default .left (.numbered 0) ⟨1, []⟩ passed added r' ∧ added.length = 2 := by
  obtain ⟨_, reached, _⟩ := people.pathTraversedHopByHop city (.numbered 0) .left ⟨1, []⟩
  obtain ⟨_, _, missed⟩ := people.pathTraversedHopByHop zip (.numbered 0) .left ⟨1, []⟩
  obtain ⟨passed, added, all, moved, target⟩ := reached _ _ rfl
  obtain ⟨passed', added', moved', ⟨_, rest, part⟩ | ⟨refused, _⟩⟩ := missed _ _ rfl
  · obtain rfl : _ = added := moved.joins
    obtain rfl : _ = added' := moved'.joins
    exact ⟨⟨_, _, passed, _, rfl, all, moved, by decide, target⟩, _, _, passed', _, rest, rfl, part, moved', rfl⟩
  · exact absurd ⟨by decide, by decide⟩ refused

end TraversalSample
end ObjectQuery
