import ObjectQuery.Proofs.ReadStatement

/-! The statements of compiled predicates. If the names of the layout and of the schema are identifiers, their texts
yield what their plans read. -/
namespace ObjectQuery

section
variable {ctx : Context} {aliases declared : List Alias} (names : ctx.IdentifiedNames)
include names

theorem Column.Within.legible {c : Column} (within : c.Within ctx aliases) (numbered : Alias.AllNumbered aliases) :
    c.Legible := ⟨numbered _ within.table, names.columns _ within.name⟩

theorem Join.Within.legible {j : Join} (within : j.Within ctx declared) (numbered : Alias.AllNumbered declared)
    (own : ∃ i, .numbered i = j.tableAlias) : j.Legible := by
  refine ⟨names.tables _ within.table, own, within.matched, fun e mem => ?_⟩
  obtain ⟨table, name⟩ := within.left e mem
  exact ⟨⟨table ▸ own, names.columns _ name⟩, (within.right e mem).legible names numbered⟩

theorem joinsLegible {joins : List Join} (within : JoinsWithin ctx declared joins)
    (numbered : Alias.AllNumbered (declared ++ joins.map (·.tableAlias))) : ∀ j ∈ joins, j.Legible := by
  induction joins generalizing declared with
  | nil => exact List.forall_mem_nil _
  | cons j rest ih =>
    obtain ⟨first, within⟩ := within
    have own := numbered j.tableAlias (by simp)
    have before : Alias.AllNumbered declared := fun a mem => numbered a (List.mem_append_left _ mem)
    exact List.forall_mem_cons.mpr ⟨first.legible names before own, ih within (by simpa using numbered)⟩

theorem Test.Within.legible {t : Test} (within : t.Within ctx aliases) (numbered : Alias.AllNumbered aliases)
    (grouped : t.isGrouped = true) : t.Legible := by
  refine ⟨fun c mem => (within.columns c mem).legible names numbered, fun c pattern mem => ?_, grouped⟩
  rw [within.patterns c pattern mem, Layout.belowRoot, String.toList_append]
  have label : '\'' ∉ ctx.layout.collectionRoot.toList := (dottedIdentifier names.root).ordinary.free rfl
  exact List.not_mem_append label (by decide)

theorem Selection.Proper.legible {n m : Nat} {ids : List Int32} {s : Selection} (proper : s.Proper ctx n m)
    (grouped : s.Grouped ids) : s.Legible ctx.layout := by
  have numbered : Alias.AllNumbered s.aliases := proper.block ▸ Alias.AllNumbered.block _ _
  have root : s.root ∈ s.aliases := List.mem_cons_self
  refine ⟨names.tables _ (.inl rfl), numbered _ root, fun c mem => (Layout.shownWithin root c mem).legible names numbered,
    ?_, joinsLegible names proper.joins numbered, ?_, fun d divided => ?_⟩
  · exact Column.Within.legible names ⟨root, Context.isColumn⟩ numbered
  · exact fun t mem => (proper.tests t mem).legible names numbered (grouped.tests t mem)
  · have within := proper.division d divided
    have sound := grouped.division d divided
    obtain ⟨tally, required⟩ := d
    cases tally with
    | values c => exact Column.Within.legible names within numbered
    | «matches» tests => exact fun t mem => (within t mem).legible names numbered (sound t mem)

end

theorem Scope.compiledLegible {sc : Scope} (names : sc.IdentifiedNames) {p : Predicate} {negated : Bool} {n m : Nat}
    {q : SetPlan} (ok : sc.compile p negated n = .ok (some q) m) : ∀ s ∈ q.statements, s.Legible sc.layout := by
  intro s mem
  obtain ⟨_, _, _, _, proper⟩ := ((compileIssued p ok).plan q rfl).each s mem
  exact proper.legible names (compileGrouped ok q rfl s mem)

/-- What a compiled predicate selects is what its text yields. -/
theorem Scope.compiledSelects {V : Type} [DecidableEq V] {sc : Scope} (valid : sc.layout.faults = [])
    (named : sc.schema.Identified) (I : Interpretation V) (db : Store sc.layout V) {p : Predicate} {negated : Bool}
    {n m : Nat} {q : SetPlan} (ok : sc.compile p negated n = .ok (some q) m) :
    (q.toSql sc.layout).Selects I db (q.reading (Selection.selected I db)) :=
  SetQuery.selectsReading (compiledLegible (Context.identifiedNames valid named) ok)

end ObjectQuery
