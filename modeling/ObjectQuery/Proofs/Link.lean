import ObjectQuery.Proofs.Outcome

/-! The tables that a path visits, named by the schema alone, and the joins that lead along them:
each under the next alias, matched with the table before it. Laying a path lays these joins. -/
namespace ObjectQuery
open Outcome

def Alias.block (first count : Nat) : List Alias := (List.range' first count).map .numbered

/-- A table on a path. Its rows are matched with a row of the table before it on pairs of columns,
its own one first. -/
structure Link where
  table : String
  on : List (String × String)
  single : Bool
  deriving DecidableEq, Repr

namespace Link

def join (kind : JoinKind) (k : Link) (joined previous : Alias) : Join :=
  ⟨k.table, joined, kind, k.on.map fun c => ⟨⟨joined, c.1⟩, ⟨previous, c.2⟩⟩⟩

def joins (kind : JoinKind) : Alias → Nat → List Link → List Join
  | _, _, [] => []
  | previous, n, k :: rest =>
    k.join kind (.numbered n) previous :: joins kind (.numbered n) (n + 1) rest

def last : Alias → Nat → List Link → Alias
  | previous, _, [] => previous
  | _, n, _ :: rest => last (.numbered n) (n + 1) rest

theorem joinsAppend (kind : JoinKind) (a : Alias) (n : Nat) (ks more : List Link) :
    joins kind a n (ks ++ more) = joins kind a n ks ++ joins kind (last a n ks) (n + ks.length) more := by
  induction ks generalizing a n with
  | nil => rfl
  | cons k ks ih => simp [joins, last, ih, Nat.add_assoc, Nat.add_comm 1]

theorem lastAppend (a : Alias) (n : Nat) (ks more : List Link) :
    last a n (ks ++ more) = last (last a n ks) (n + ks.length) more := by
  induction ks generalizing a n with
  | nil => rfl
  | cons k ks ih => simp [last, ih, Nat.add_assoc, Nat.add_comm 1]

theorem joinsAliases (kind : JoinKind) (a : Alias) (n : Nat) (ks : List Link) :
    (joins kind a n ks).map (·.tableAlias) = Alias.block n ks.length := by
  induction ks generalizing a n with
  | nil => rfl
  | cons k ks ih => simp [joins, join, ih, Alias.block, List.range'_succ]

theorem joinsLength (kind : JoinKind) (a : Alias) (n : Nat) (ks : List Link) :
    (joins kind a n ks).length = ks.length := by
  simpa [Alias.block] using congrArg List.length (joinsAliases kind a n ks)

theorem joinsKind {kind : JoinKind} {a : Alias} {n : Nat} {ks : List Link} {j : ObjectQuery.Join}
    (mem : j ∈ joins kind a n ks) : j.kind = kind := by
  induction ks generalizing a n with
  | nil => cases mem
  | cons k ks ih =>
    rcases List.mem_cons.mp mem with rfl | mem
    · rfl
    · exact ih mem

theorem lastMem (kind : JoinKind) (a : Alias) (n : Nat) (ks : List Link) :
    last a n ks ∈ a :: (joins kind a n ks).map (·.tableAlias) := by
  induction ks generalizing a n with
  | nil => exact List.mem_singleton_self a
  | cons k ks ih => exact List.mem_cons_of_mem _ (ih (.numbered n) (n + 1))

end Link

structure Laid (kind : JoinKind) (start : Alias) (links : List Link) (r : Route) (reached : Alias)
    (r' : Route) : Prop where
  route : r' = ⟨r.issued + links.length, r.joins ++ Link.joins kind start r.issued links⟩
  reached : reached = Link.last start r.issued links

namespace Laid

variable {kind : JoinKind} {a b c : Alias} {ks more : List Link} {r r' r'' : Route}

theorem nil (a : Alias) (r : Route) : Laid kind a [] r a r := ⟨by simp [Link.joins], rfl⟩

theorem append (first : Laid kind a ks r b r') (next : Laid kind b more r' c r'') :
    Laid kind a (ks ++ more) r c r'' := by
  obtain ⟨rfl, rfl⟩ := first
  obtain ⟨rfl, rfl⟩ := next
  exact ⟨by simp [Link.joinsAppend, Nat.add_assoc], (Link.lastAppend _ _ _ _).symm⟩

end Laid

namespace Layout

def referenceColumn (l : Layout) (hops : List AssociationHop) : String :=
  if hops.isEmpty then l.entityKey else l.attributeValue

def valueColumn (l : Layout) (p : PropertyPath) : String :=
  if p.last.isIdentity then l.entityIdentity else l.attributeValue

def entityLink (l : Layout) : Link := ⟨l.qualified l.entityTable, [(l.entityKey, l.attributeValue)], true⟩

def ownerColumns (l : Layout) (key : String) (parent : Option AttributeTable) (t : AttributeTable) :
    List (String × String) :=
  match parent with
  | none => [(l.attributeEntityKey, key)]
  | some parent =>
    [(l.attributeEntityKey, l.attributeEntityKey), (t.parentColumn, parent.childColumn)]

theorem ownerColumnsSome (l : Layout) (key : String) (parent : Option AttributeTable) (t : AttributeTable) :
    l.ownerColumns key parent t ≠ [] := by
  cases parent <;> exact List.cons_ne_nil _ _

end Layout

namespace Context

def hopLinks (ctx : Context) : List AssociationHop → String → Except CompileError (List Link)
  | [], _ => .ok []
  | hop :: rest, key => do
    let t ← ctx.lookup hop.name
    let links ← hopLinks ctx rest ctx.layout.attributeValue
    pure (⟨ctx.layout.qualified t.name, [(ctx.layout.attributeEntityKey, key)], hop.kind == .single⟩ :: links)

def propertyLinks (ctx : Context) (key : String) :
    List QualifiedName → Option AttributeTable → Except CompileError (List Link)
  | [], _ => .ok []
  | name :: rest, parent => do
    let t ← ctx.lookup name
    let links ← propertyLinks ctx key rest (some t)
    pure (⟨ctx.layout.qualified t.name, ctx.layout.ownerColumns key parent t, !t.isCollection⟩ :: links)

def pathLinks (ctx : Context) (p : PropertyPath) : Except CompileError (List Link) := do
  let hops ← ctx.hopLinks p.associationHops ctx.layout.entityKey
  if p.last.isIdentity then
    pure (hops ++ if p.association.isSome then [ctx.layout.entityLink] else [])
  else
    pure (hops ++ (← ctx.propertyLinks (ctx.layout.referenceColumn p.associationHops) p.hops none))

variable {ctx : Context} {kind : JoinKind} {r r' : Route}

theorem layTableLaid {k : Link} {a joined : Alias} {u : Route}
    (fresh : Lay.newAlias r = .ok joined u) (join : Lay.join (k.join kind joined a) u = .ok () r') :
    Laid kind a [k] r joined r' := by
  obtain ⟨rfl, rfl⟩ := layAliasOk.mp fresh
  obtain rfl := layJoinOk.mp join
  exact ⟨rfl, rfl⟩

theorem layHopsLaid {hops : List AssociationHop} {reached target : AssociationTarget} {key : String}
    (start : reached.reference = ⟨reached.tableAlias, key⟩)
    (ok : ctx.layHops kind hops reached r = .ok target r') :
    ∃ links, ctx.hopLinks hops key = .ok links ∧ Laid kind reached.tableAlias links r target.tableAlias r' ∧
      target.reference = ⟨target.tableAlias, if hops.isEmpty then key else ctx.layout.attributeValue⟩ := by
  induction hops generalizing reached key r with
  | nil =>
    obtain ⟨rfl, rfl⟩ := pureOk.mp ok
    exact ⟨[], rfl, .nil _ _, start⟩
  | cons hop rest ih =>
    obtain ⟨t, u, looked, ok⟩ := bindOk.mp ok
    obtain ⟨found, rfl⟩ := ofExceptOk.mp looked
    obtain ⟨joined, v, fresh, ok⟩ := bindOk.mp ok
    obtain ⟨_, w, join, ok⟩ := bindOk.mp ok
    rw [start] at join
    have first := layTableLaid (k := ⟨ctx.layout.qualified t.name,
      [(ctx.layout.attributeEntityKey, key)], hop.kind == .single⟩) fresh join
    obtain ⟨links, known, laid, reference⟩ := ih rfl ok
    refine ⟨_, exceptBindOk.mpr ⟨t, found, exceptBindOk.mpr ⟨links, known, rfl⟩⟩, first.append laid, ?_⟩
    cases rest <;> simpa using reference

theorem layAssociationsLaid {hops : List AssociationHop} {root : Alias} {target : AssociationTarget}
    (ok : ctx.layAssociations hops root kind r = .ok target r') :
    ∃ links, ctx.hopLinks hops ctx.layout.entityKey = .ok links ∧
      Laid kind root links r target.tableAlias r' ∧
      target.reference = ⟨target.tableAlias, ctx.layout.referenceColumn hops⟩ :=
  layHopsLaid rfl ok

theorem layEntityLaid {a joined : Alias}
    (ok : ctx.layEntity ⟨a, ctx.layout.attributeValue⟩ kind r = .ok joined r') :
    Laid kind a [ctx.layout.entityLink] r joined r' := by
  obtain ⟨fresh, u, fresh', ok⟩ := bindOk.mp ok
  obtain ⟨_, w, join, ok⟩ := bindOk.mp ok
  obtain ⟨rfl, rfl⟩ := pureOk.mp ok
  exact layTableLaid (k := ctx.layout.entityLink) fresh' join

def ownerAt (key : String) (a : Alias) : Option AttributeTable → Owner
  | none => .entity ⟨a, key⟩
  | some t => .object a t

theorem layPropertyLaid {key : String} {a joined : Alias} {parent : Option AttributeTable}
    {name : QualifiedName} {t : AttributeTable}
    (ok : ctx.layProperty kind (ownerAt key a parent) name r = .ok (joined, t) r') :
    ctx.lookup name = .ok t ∧
    Laid kind a [⟨ctx.layout.qualified t.name, ctx.layout.ownerColumns key parent t, !t.isCollection⟩]
      r joined r' := by
  obtain ⟨t, u, looked, ok⟩ := bindOk.mp ok
  obtain ⟨found, rfl⟩ := ofExceptOk.mp looked
  obtain ⟨joined, v, fresh, ok⟩ := bindOk.mp ok
  obtain ⟨_, w, join, ok⟩ := bindOk.mp ok
  obtain ⟨same, rfl⟩ := pureOk.mp ok
  cases same
  refine ⟨found, layTableLaid fresh ?_⟩
  cases parent <;> exact join

theorem layPropertiesLaid {key : String} {a joined : Alias} {parent : Option AttributeTable}
    {before : List QualifiedName} {name : QualifiedName} {owner : Owner} {u : Route} {t : AttributeTable}
    (ok : ctx.layProperties kind before (ownerAt key a parent) r = .ok owner u)
    (last : ctx.layProperty kind owner name u = .ok (joined, t) r') :
    ctx.lookup name = .ok t ∧
    ∃ links, ctx.propertyLinks key (before ++ [name]) parent = .ok links ∧ Laid kind a links r joined r' := by
  induction before generalizing a parent r with
  | nil =>
    obtain ⟨rfl, rfl⟩ := pureOk.mp ok
    obtain ⟨found, laid⟩ := layPropertyLaid last
    exact ⟨found, _, exceptBindOk.mpr ⟨t, found, rfl⟩, laid⟩
  | cons first rest ih =>
    obtain ⟨⟨b, s⟩, v, laidFirst, ok⟩ := bindOk.mp ok
    obtain ⟨found, laid⟩ := layPropertyLaid laidFirst
    have onward : ctx.layProperties kind rest (ownerAt key b (some s)) v = .ok owner u := ok
    obtain ⟨foundLast, links, known, laidRest⟩ := ih onward
    exact ⟨foundLast, _, exceptBindOk.mpr ⟨s, found, exceptBindOk.mpr ⟨links, known, rfl⟩⟩,
      laid.append laidRest⟩

structure TargetLaid (ctx : Context) (kind : JoinKind) (p : PropertyPath) (root : Alias) (r : Route)
    (target : PropertyTarget) (links : List Link) (r' : Route) : Prop where
  known : ctx.pathLinks p = .ok links
  laid : Laid kind root links r target.tableAlias r'
  value : target.value = ⟨target.tableAlias, ctx.layout.valueColumn p⟩
  table : target.table = if p.last.isIdentity then none else ctx.schema.tableOf p.last
  name : target.name = p.last
  plain : p.last.isIdentity = false → ∀ name ∈ p.before, name.isIdentity = false

theorem layIdentityLaid {p : PropertyPath} {root : Alias} {target : PropertyTarget}
    (identity : p.last.isIdentity = true) (ok : ctx.layIdentity p root kind r = .ok target r') :
    ∃ links, TargetLaid ctx kind p root r target links r' := by
  unfold layIdentity at ok
  cases association : p.association with
  | none =>
    simp only [association] at ok
    obtain ⟨entity, u, reached, ok⟩ := bindOk.mp ok
    obtain ⟨rfl, rfl⟩ := pureOk.mp reached
    obtain ⟨rfl, rfl⟩ := pureOk.mp ok
    have known : ctx.pathLinks p = .ok [] := by
      simp only [pathLinks, PropertyPath.associationHops, association, identity]
      rfl
    exact ⟨[], known, .nil _ _, by simp [Layout.valueColumn, identity, Layout.identityOf],
      by simp [identity], rfl, by simp [identity]⟩
  | some a =>
    simp only [association] at ok
    obtain ⟨reached, u, hops, ok⟩ := bindOk.mp ok
    obtain ⟨entity, v, joined, ok⟩ := bindOk.mp ok
    obtain ⟨rfl, rfl⟩ := pureOk.mp ok
    obtain ⟨links, knownHops, laid, reference⟩ := layAssociationsLaid hops
    have nonempty : a.hops.isEmpty = false := by simp [AssociationPath.hops]
    rw [reference, Layout.referenceColumn, nonempty] at joined
    have known : ctx.pathLinks p = .ok (links ++ [ctx.layout.entityLink]) := by
      simp only [pathLinks, PropertyPath.associationHops, association, identity]
      exact exceptBindOk.mpr ⟨links, knownHops, rfl⟩
    exact ⟨_, known, laid.append (layEntityLaid joined),
      by simp [Layout.valueColumn, identity, Layout.identityOf], by simp [identity], rfl,
      by simp [identity]⟩

theorem layAttributeLaid {p : PropertyPath} {root : Alias} {target : PropertyTarget}
    (stored : p.last.isIdentity = false) (plain : ∀ name ∈ p.before, name.isIdentity = false)
    (ok : ctx.layAttribute p root kind r = .ok target r') :
    ∃ links, TargetLaid ctx kind p root r target links r' := by
  obtain ⟨reached, u, hops, ok⟩ := bindOk.mp ok
  obtain ⟨owner, v, properties, ok⟩ := bindOk.mp ok
  obtain ⟨⟨joined, t⟩, w, last, ok⟩ := bindOk.mp ok
  obtain ⟨rfl, rfl⟩ := pureOk.mp ok
  obtain ⟨links, knownHops, laid, reference⟩ := layAssociationsLaid hops
  rw [reference] at properties
  have fromEntity : ctx.layProperties kind p.before
      (ownerAt (ctx.layout.referenceColumn p.associationHops) reached.tableAlias none) u = .ok owner v := properties
  obtain ⟨found, more, knownMore, laidMore⟩ := layPropertiesLaid fromEntity last
  have known : ctx.pathLinks p = .ok (links ++ more) := by
    refine exceptBindOk.mpr ⟨links, knownHops, ?_⟩
    simp only [stored]
    exact exceptBindOk.mpr ⟨more, knownMore, rfl⟩
  exact ⟨_, known, laid.append laidMore, by simp [Layout.valueColumn, stored],
    by simp [stored, lookupOk.mp found], rfl, fun _ => plain⟩

theorem layPathLaid {p : PropertyPath} {root : Alias} {target : PropertyTarget}
    (ok : ctx.layPath p root kind r = .ok target r') :
    ∃ links, TargetLaid ctx kind p root r target links r' := by
  obtain ⟨_, u, depth, ok⟩ := bindOk.mp ok
  obtain ⟨_, rfl⟩ := ofExceptOk.mp depth
  split at ok
  · next identity =>
    split at ok
    · next empty =>
      rw [PropertyPath.hops, List.isEmpty_iff.mp empty] at identity
      exact layIdentityLaid (by simpa using identity) ok
    · exact (throwOk.mp ok).elim
  · next absent =>
    have plain : ∀ name ∈ p.hops, name.isIdentity = false := by simpa using absent
    exact layAttributeLaid (plain _ (by simp [PropertyPath.hops]))
      (fun name mem => plain name (by simp [PropertyPath.hops, mem])) ok

theorem hopLinkMem {hops : List AssociationHop} {key : String} {links : List Link} {k : Link}
    (known : ctx.hopLinks hops key = .ok links) (mem : k ∈ links) :
    ∃ hop ∈ hops, ∃ t column, ctx.lookup hop.name = .ok t ∧
      (column = key ∨ column = ctx.layout.attributeValue) ∧
      k = ⟨ctx.layout.qualified t.name, [(ctx.layout.attributeEntityKey, column)], hop.kind == .single⟩ := by
  induction hops generalizing key links with
  | nil =>
    cases known
    cases mem
  | cons hop rest ih =>
    obtain ⟨t, found, known⟩ := exceptBindOk.mp known
    obtain ⟨more, knownRest, known⟩ := exceptBindOk.mp known
    obtain rfl := exceptPureOk.mp known
    rcases List.mem_cons.mp mem with rfl | mem
    · exact ⟨hop, List.mem_cons_self, t, key, found, .inl rfl, rfl⟩
    · obtain ⟨h, inside, t, column, found, columns, same⟩ := ih knownRest mem
      exact ⟨h, List.mem_cons_of_mem _ inside, t, column, found, .inr (columns.elim id id), same⟩

theorem propertyLinkMem {key : String} {names : List QualifiedName} {parent : Option AttributeTable}
    {links : List Link} {k : Link} (known : ctx.propertyLinks key names parent = .ok links) (mem : k ∈ links) :
    ∃ name ∈ names, ∃ t owner, ctx.lookup name = .ok t ∧
      (owner = parent ∨ ∃ n s, ctx.lookup n = .ok s ∧ owner = some s) ∧
      k = ⟨ctx.layout.qualified t.name, ctx.layout.ownerColumns key owner t, !t.isCollection⟩ := by
  induction names generalizing parent links with
  | nil =>
    cases known
    cases mem
  | cons name rest ih =>
    obtain ⟨t, found, known⟩ := exceptBindOk.mp known
    obtain ⟨more, knownRest, known⟩ := exceptBindOk.mp known
    obtain rfl := exceptPureOk.mp known
    rcases List.mem_cons.mp mem with rfl | mem
    · exact ⟨name, List.mem_cons_self, t, parent, found, .inl rfl, rfl⟩
    · obtain ⟨n, inside, s, owner, foundRest, owners, same⟩ := ih knownRest mem
      refine ⟨n, List.mem_cons_of_mem _ inside, s, owner, foundRest, .inr ?_, same⟩
      exact owners.elim (fun above => ⟨name, t, found, above⟩) id

inductive IsPathLink (ctx : Context) (p : PropertyPath) : Link → Prop where
  | hop {hop t column} (inside : hop ∈ p.associationHops) (found : ctx.lookup hop.name = .ok t)
      (columns : column = ctx.layout.entityKey ∨ column = ctx.layout.attributeValue) :
      IsPathLink ctx p
        ⟨ctx.layout.qualified t.name, [(ctx.layout.attributeEntityKey, column)], hop.kind == .single⟩
  | entity : IsPathLink ctx p ctx.layout.entityLink
  | property {name t owner} (stored : p.last.isIdentity = false) (inside : name ∈ p.hops)
      (found : ctx.lookup name = .ok t) (owners : ∀ s, owner = some s → ∃ n, ctx.lookup n = .ok s) :
      IsPathLink ctx p ⟨ctx.layout.qualified t.name,
        ctx.layout.ownerColumns (ctx.layout.referenceColumn p.associationHops) owner t, !t.isCollection⟩

theorem pathLinkMem {p : PropertyPath} {links : List Link} {k : Link}
    (known : ctx.pathLinks p = .ok links) (mem : k ∈ links) : IsPathLink ctx p k := by
  obtain ⟨hops, knownHops, known⟩ := exceptBindOk.mp known
  have ofHop : k ∈ hops → IsPathLink ctx p k := by
    intro mem
    obtain ⟨hop, inside, t, column, found, columns, rfl⟩ := hopLinkMem knownHops mem
    exact .hop inside found columns
  split at known
  · obtain rfl := exceptPureOk.mp known
    rcases List.mem_append.mp mem with mem | mem
    · exact ofHop mem
    · split at mem
      · obtain rfl := List.mem_singleton.mp mem
        exact .entity
      · cases mem
  · next stored =>
    obtain ⟨more, knownMore, known⟩ := exceptBindOk.mp known
    obtain rfl := exceptPureOk.mp known
    rcases List.mem_append.mp mem with mem | mem
    · exact ofHop mem
    · obtain ⟨name, inside, t, owner, found, owners, rfl⟩ := propertyLinkMem knownMore mem
      refine .property (by simpa using stored) inside found fun s some => ?_
      rcases owners with rfl | ⟨n, s', foundOwner, rfl⟩
      · cases some
      · cases some
        exact ⟨n, foundOwner⟩

theorem pathLinksKeyed {p : PropertyPath} {links : List Link} (known : ctx.pathLinks p = .ok links) :
    ∀ k ∈ links, k.on ≠ [] := by
  intro k mem
  cases pathLinkMem known mem with
  | hop => simp
  | entity => simp [Layout.entityLink]
  | property => exact Layout.ownerColumnsSome _ _ _ _

theorem someCollectionFalse {names : List QualifiedName}
    (none : fansOut.someCollection ctx names = .ok false) :
    ∀ name ∈ names, name.isIdentity = false → ∀ t, ctx.lookup name = .ok t → t.isCollection = false := by
  induction names with
  | nil => simp
  | cons name rest ih =>
    unfold fansOut.someCollection at none
    intro n mem stored t found
    split at none
    · next identity =>
      rcases List.mem_cons.mp mem with rfl | mem
      · rw [identity] at stored; cases stored
      · exact ih none n mem stored t found
    · obtain ⟨s, foundFirst, none⟩ := exceptBindOk.mp none
      split at none
      · cases none
      · next single =>
        rcases List.mem_cons.mp mem with rfl | mem
        · cases foundFirst.symm.trans found
          simpa using single
        · exact ih none n mem stored t found

theorem fansOutFalse {p : PropertyPath} (single : ctx.fansOut p = .ok false) :
    (∀ hop ∈ p.associationHops, hop.kind = .single) ∧
    ∀ name ∈ p.before, name.isIdentity = false → ∀ t, ctx.lookup name = .ok t → t.isCollection = false := by
  unfold fansOut at single
  split at single
  · cases single
  · next one =>
    refine ⟨fun hop mem => ?_, someCollectionFalse single⟩
    simp only [List.any_eq_true, not_exists, not_and] at one
    cases kind : hop.kind with
    | single => rfl
    | many => exact absurd (by simp [kind]) (one hop mem)

theorem pathLinksSingle {p : PropertyPath} {root : Alias} {target : PropertyTarget} {links : List Link}
    (there : TargetLaid ctx kind p root r target links r') (single : ctx.fansOut p = .ok false)
    (scalar : target.isCollection = false) : ∀ k ∈ links, k.single = true := by
  obtain ⟨hops, before⟩ := fansOutFalse single
  intro k mem
  cases pathLinkMem there.known mem with
  | hop inside => simp [hops _ inside]
  | entity => rfl
  | @property name t _ stored inside found =>
    suffices t.isCollection = false by simp [this]
    rcases List.mem_append.mp inside with inside | inside
    · exact before name inside (there.plain stored name inside) t found
    · obtain rfl := List.mem_singleton.mp inside
      simpa [PropertyTarget.isCollection, there.table, stored, lookupOk.mp found] using scalar

end Context
end ObjectQuery
