import ObjectQuery.Proofs.Link

/-! Columns in scope: read from an alias that the statement declares, under a name that the layout or
the schema gives. Laying only adds joins that are in scope, under the next aliases. -/
namespace ObjectQuery
open Outcome

namespace Context

def IsTable (ctx : Context) (table : String) : Prop :=
  table = ctx.layout.qualified ctx.layout.entityTable ∨
    ∃ name t, ctx.schema.tableOf name = some t ∧ table = ctx.layout.qualified t.name

def columnNames (l : Layout) : List String :=
  [l.entityKey, l.entityIdentity, l.entityTypeId, l.attributeEntityKey, l.attributeValue, l.collectionPath]

def IsColumn (ctx : Context) (column : String) : Prop :=
  column ∈ columnNames ctx.layout ∨
    ∃ name t, ctx.schema.tableOf name = some t ∧ (column = t.parentColumn ∨ column = t.childColumn)

end Context

structure Column.Within (ctx : Context) (declared : List Alias) (c : Column) : Prop where
  table : c.table ∈ declared
  name : ctx.IsColumn c.name

structure Join.Within (ctx : Context) (declared : List Alias) (j : Join) : Prop where
  table : ctx.IsTable j.table
  matched : j.on ≠ []
  left : ∀ e ∈ j.on, e.left.table = j.tableAlias ∧ ctx.IsColumn e.left.name
  right : ∀ e ∈ j.on, e.right.Within ctx declared

def JoinsWithin (ctx : Context) : List Alias → List Join → Prop
  | _, [] => True
  | declared, j :: rest => j.Within ctx declared ∧ JoinsWithin ctx (declared ++ [j.tableAlias]) rest

structure Link.Named (ctx : Context) (k : Link) : Prop where
  table : ctx.IsTable k.table
  matched : k.on ≠ []
  columns : ∀ c ∈ k.on, ctx.IsColumn c.1 ∧ ctx.IsColumn c.2

variable {ctx : Context} {declared more : List Alias} {root : Alias}

theorem Column.Within.widen {c : Column} (within : c.Within ctx declared) (subset : declared ⊆ more) :
    c.Within ctx more := ⟨subset within.table, within.name⟩

theorem joinsWithinAppend {xs ys : List Join} :
    JoinsWithin ctx declared (xs ++ ys) ↔
      JoinsWithin ctx declared xs ∧ JoinsWithin ctx (declared ++ xs.map (·.tableAlias)) ys := by
  induction xs generalizing declared with
  | nil => simp [JoinsWithin]
  | cons x xs ih => simp [JoinsWithin, ih, and_assoc]

theorem joinWithinAt {before after : List Join} {j : Join}
    (within : JoinsWithin ctx declared (before ++ j :: after)) :
    j.Within ctx (declared ++ before.map (·.tableAlias)) :=
  (joinsWithinAppend.mp within).2.1

theorem linkJoinWithin {kind : JoinKind} {joined start : Alias} {k : Link} (here : start ∈ declared)
    (named : k.Named ctx) : (k.join kind joined start).Within ctx declared := by
  have left : ∀ e ∈ (k.join kind joined start).on, e.left.table = joined ∧ ctx.IsColumn e.left.name := by
    intro e mem
    obtain ⟨c, inside, rfl⟩ := List.mem_map.mp mem
    exact ⟨rfl, (named.columns c inside).1⟩
  have right : ∀ e ∈ (k.join kind joined start).on, e.right.Within ctx declared := by
    intro e mem
    obtain ⟨c, inside, rfl⟩ := List.mem_map.mp mem
    exact ⟨here, (named.columns c inside).2⟩
  exact ⟨named.table, by simpa [Link.join] using named.matched, left, right⟩

theorem linkJoinsWithin {kind : JoinKind} {start : Alias} {n : Nat} {links : List Link}
    (here : start ∈ declared) (named : ∀ k ∈ links, k.Named ctx) :
    JoinsWithin ctx declared (Link.joins kind start n links) := by
  induction links generalizing start n declared with
  | nil => trivial
  | cons k rest ih =>
    have first := named k List.mem_cons_self
    have others : ∀ k ∈ rest, k.Named ctx := fun k mem => named k (List.mem_cons_of_mem _ mem)
    have now : Alias.numbered n ∈ declared ++ [.numbered n] := List.mem_append_right _ (List.mem_singleton_self _)
    exact ⟨linkJoinWithin here first, ih now others⟩

def Route.aliases (root : Alias) (r : Route) : List Alias := root :: r.joins.map (·.tableAlias)

def Route.Grows (ctx : Context) (root : Alias) (r r' : Route) : Prop :=
  ∃ more, r' = ⟨r.issued + more.length, r.joins ++ more⟩ ∧
    more.map (·.tableAlias) = Alias.block r.issued more.length ∧
    JoinsWithin ctx (r.aliases root) more

namespace Route.Grows

variable {r r' r'' : Route}

theorem refl (r : Route) : Grows ctx root r r := ⟨[], by simp, rfl, trivial⟩

theorem trans (first : Grows ctx root r r') (next : Grows ctx root r' r'') : Grows ctx root r r'' := by
  obtain ⟨xs, rfl, aliases, within⟩ := first
  obtain ⟨ys, rfl, aliases', within'⟩ := next
  have block : (xs ++ ys).map (·.tableAlias) = Alias.block r.issued (xs ++ ys).length := by
    rw [List.map_append, aliases, aliases', List.length_append]
    simp only [Alias.block, ← List.map_append, List.range'_append_1]
  have later : JoinsWithin ctx (r.aliases root ++ xs.map (·.tableAlias)) ys := by
    simpa [Route.aliases] using within'
  exact ⟨xs ++ ys, by simp [Nat.add_assoc], block, joinsWithinAppend.mpr ⟨within, later⟩⟩

theorem subset (grows : Grows ctx root r r') : r.aliases root ⊆ r'.aliases root := by
  obtain ⟨more, rfl, _⟩ := grows
  intro a mem
  rcases List.mem_cons.mp mem with rfl | mem
  · exact List.mem_cons_self
  · exact List.mem_cons_of_mem _ (by rw [List.map_append]; exact List.mem_append_left _ mem)

theorem fresh {n m : Nat} {joins : List Join} (grows : Grows ctx root ⟨n, []⟩ ⟨m, joins⟩) :
    n + joins.length = m ∧ joins.map (·.tableAlias) = Alias.block n joins.length ∧
      JoinsWithin ctx [root] joins := by
  obtain ⟨more, route, aliases, within⟩ := grows
  cases route
  exact ⟨rfl, aliases, within⟩

end Route.Grows

theorem Laid.grows {kind : JoinKind} {start reached : Alias} {links : List Link} {r r' : Route}
    (laid : Laid kind start links r reached r') (here : start ∈ r.aliases root)
    (named : ∀ k ∈ links, k.Named ctx) : r.Grows ctx root r' ∧ reached ∈ r'.aliases root := by
  obtain ⟨rfl, rfl⟩ := laid
  have length := Link.joinsLength kind start r.issued links
  have grows : r.Grows ctx root ⟨r.issued + links.length, r.joins ++ Link.joins kind start r.issued links⟩ :=
    ⟨Link.joins kind start r.issued links, by rw [length], by rw [Link.joinsAliases, length],
      linkJoinsWithin here named⟩
  rcases List.mem_cons.mp (Link.lastMem kind start r.issued links) with same | mem
  · rw [same]
    exact ⟨grows, grows.subset here⟩
  · have joined : Link.last start r.issued links ∈
        (r.joins ++ Link.joins kind start r.issued links).map (·.tableAlias) := by
      rw [List.map_append]
      exact List.mem_append_right _ mem
    exact ⟨grows, List.mem_cons_of_mem _ joined⟩

namespace Context

variable {kind : JoinKind} {r r' : Route} {start : Alias}

theorem isColumn {column : String} (mem : column ∈ columnNames ctx.layout := by simp [Context.columnNames]) :
    ctx.IsColumn column := .inl mem

theorem referenceIsColumn (hops : List AssociationHop) : ctx.IsColumn (ctx.layout.referenceColumn hops) := by
  unfold Layout.referenceColumn
  split
  · exact isColumn
  · exact isColumn

theorem valueIsColumn (p : PropertyPath) : ctx.IsColumn (ctx.layout.valueColumn p) := by
  unfold Layout.valueColumn
  split
  · exact isColumn
  · exact isColumn

theorem attributeTable {name : QualifiedName} {t : AttributeTable} (found : ctx.lookup name = .ok t) :
    ctx.IsTable (ctx.layout.qualified t.name) := .inr ⟨name, t, lookupOk.mp found, rfl⟩

theorem linkNamed {table own other : String} {single : Bool} (is : ctx.IsTable table)
    (left : ctx.IsColumn own) (right : ctx.IsColumn other) : Link.Named ctx ⟨table, [(own, other)], single⟩ := by
  have columns : ∀ c ∈ [(own, other)], ctx.IsColumn c.1 ∧ ctx.IsColumn c.2 := by
    intro c mem
    obtain rfl := List.mem_singleton.mp mem
    exact ⟨left, right⟩
  exact ⟨is, List.cons_ne_nil _ _, columns⟩

theorem ownerColumnsNamed {name : QualifiedName} {t : AttributeTable} {owner : Option AttributeTable}
    {key : String} (found : ctx.lookup name = .ok t) (keyed : ctx.IsColumn key)
    (owners : ∀ s, owner = some s → ∃ n, ctx.lookup n = .ok s) :
    ∀ c ∈ ctx.layout.ownerColumns key owner t, ctx.IsColumn c.1 ∧ ctx.IsColumn c.2 := by
  have entity : ctx.IsColumn ctx.layout.attributeEntityKey := isColumn
  intro c mem
  cases owner with
  | none =>
    obtain rfl := List.mem_singleton.mp mem
    exact ⟨entity, keyed⟩
  | some s =>
    obtain ⟨n, foundOwner⟩ := owners s rfl
    rcases List.mem_cons.mp mem with rfl | mem
    · exact ⟨entity, entity⟩
    · obtain rfl := List.mem_singleton.mp mem
      exact ⟨.inr ⟨name, t, lookupOk.mp found, .inl rfl⟩, .inr ⟨n, s, lookupOk.mp foundOwner, .inr rfl⟩⟩

theorem hopLinkNamed {hops : List AssociationHop} {links : List Link} {k : Link}
    (known : ctx.hopLinks hops ctx.layout.entityKey = .ok links) (mem : k ∈ links) : k.Named ctx := by
  obtain ⟨hop, _, t, column, found, columns, rfl⟩ := hopLinkMem known mem
  rcases columns with rfl | rfl
  · exact linkNamed (attributeTable found) isColumn isColumn
  · exact linkNamed (attributeTable found) isColumn isColumn

theorem pathLinkNamed {p : PropertyPath} {links : List Link} {k : Link}
    (known : ctx.pathLinks p = .ok links) (mem : k ∈ links) : k.Named ctx := by
  cases pathLinkMem known mem with
  | hop inside found columns =>
    rcases columns with rfl | rfl
    · exact linkNamed (attributeTable found) isColumn isColumn
    · exact linkNamed (attributeTable found) isColumn isColumn
  | entity => exact linkNamed (.inl rfl) isColumn isColumn
  | property stored inside found owners =>
    exact ⟨attributeTable found, Layout.ownerColumnsSome _ _ _ _, ownerColumnsNamed found (referenceIsColumn _) owners⟩

theorem layPathGrows {p : PropertyPath} {target : PropertyTarget} (here : start ∈ r.aliases root)
    (ok : ctx.layPath p start kind r = .ok target r') :
    r.Grows ctx root r' ∧ target.tableAlias ∈ r'.aliases root ∧ target.value.Within ctx (r'.aliases root) := by
  obtain ⟨links, there⟩ := layPathLaid ok
  obtain ⟨grows, reached⟩ := there.laid.grows here fun k mem => pathLinkNamed there.known mem
  rw [there.value]
  exact ⟨grows, reached, reached, valueIsColumn p⟩

theorem layAssociationGrows {a : AssociationPath} {target : AssociationTarget} (here : start ∈ r.aliases root)
    (ok : ctx.layAssociation a start kind r = .ok target r') :
    r.Grows ctx root r' ∧ target.reference.Within ctx (r'.aliases root) := by
  obtain ⟨_, u, depth, ok⟩ := bindOk.mp ok
  obtain ⟨_, rfl⟩ := ofExceptOk.mp depth
  obtain ⟨links, known, laid, reference⟩ := layAssociationsLaid ok
  obtain ⟨grows, reached⟩ := laid.grows here fun k mem => hopLinkNamed known mem
  rw [reference]
  exact ⟨grows, reached, referenceIsColumn a.hops⟩

theorem layEntityGrows {reference : Column} {joined : Alias} (within : reference.Within ctx (r.aliases root))
    (ok : ctx.layEntity reference kind r = .ok joined r') :
    r.Grows ctx root r' ∧ joined ∈ r'.aliases root := by
  obtain ⟨fresh, u, given, ok⟩ := bindOk.mp ok
  obtain ⟨_, w, join, ok⟩ := bindOk.mp ok
  obtain ⟨rfl, rfl⟩ := pureOk.mp ok
  have laid := layTableLaid (a := reference.table)
    (k := ⟨ctx.layout.qualified ctx.layout.entityTable, [(ctx.layout.entityKey, reference.name)], true⟩) given join
  exact laid.grows within.table fun k mem => by
    obtain rfl := List.mem_singleton.mp mem
    exact linkNamed (.inl rfl) isColumn within.name

end Context

namespace Layout

variable {aliases : List Alias} {a : Alias}

theorem keyWithin (mem : a ∈ aliases) : (ctx.layout.keyOf a).Within ctx aliases :=
  ⟨mem, Context.isColumn (by simp [keyOf, Context.columnNames])⟩

theorem identityWithin (mem : a ∈ aliases) : (ctx.layout.identityOf a).Within ctx aliases :=
  ⟨mem, Context.isColumn (by simp [identityOf, Context.columnNames])⟩

theorem shownWithin (mem : a ∈ aliases) :
    ∀ c ∈ [ctx.layout.keyOf a, ctx.layout.identityOf a], c.Within ctx aliases := by
  intro c shown
  rcases List.mem_cons.mp shown with rfl | shown
  · exact keyWithin mem
  · obtain rfl := List.mem_singleton.mp shown
    exact identityWithin mem

end Layout
end ObjectQuery
