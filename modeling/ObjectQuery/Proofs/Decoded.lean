import ObjectQuery.Proofs.Calendar
import ObjectQuery.Serial.Catalog
import ObjectQuery.Serial.Statement

/-! Serialized forms, decoded. What a value, a query or a catalog is written as is read as the same one;
members stand in any order, and those with a default may be missing. -/
namespace ObjectQuery

namespace Json

theorem mapDecoded {α β : Type} {encode : α → β} {decode : β → Option α} {items : List α}
    (each : ∀ a ∈ items, decode (encode a) = some a) : (items.map encode).mapM decode = some items := by
  induction items with
  | nil => rfl
  | cons a rest ih =>
    have ih := ih fun b mem => each b (List.mem_cons_of_mem _ mem)
    simp [List.mapM_cons, each a List.mem_cons_self, ih]

theorem listDecoded {α : Type} {encode : α → Json} {decode : Json → Option α} {items : List α}
    (each : ∀ a ∈ items, decode (encode a) = some a) : list? decode (ofList encode items) = some items :=
  mapDecoded each

theorem nullableDecoded {α : Type} {encode : α → Json} {decode : Json → Option α} {a : Option α}
    (each : ∀ b, a = some b → (encode b).isNull = false ∧ decode (encode b) = some b) :
    nullable? decode (ofOption encode a) = some a := by
  cases a with
  | none => rfl
  | some b =>
    obtain ⟨present, decoded⟩ := each b rfl
    simp [nullable?, ofOption, present, decoded]

theorem int64Decoded (n : Int64) : int64? (.int n.toInt) = some n := by
  change (if _ then some (Int64.ofInt n.toInt) else none) = _
  rw [if_pos ⟨n.minValue_le_toInt, n.toInt_le⟩, Int64.ofInt_toInt]

theorem int32Decoded (n : Int32) : int32? (.int n.toInt) = some n := by
  change (if _ then some (Int32.ofInt n.toInt) else none) = _
  rw [if_pos ⟨n.minValue_le_toInt, n.toInt_le⟩, Int32.ofInt_toInt]

theorem uint64InRange {n : Int} (range : 0 ≤ n ∧ n < UInt64.size) :
    uint64? (.int n) = some (UInt64.ofNat n.toNat) := if_pos range

theorem uint32InRange {n : Int} (range : 0 ≤ n ∧ n < UInt32.size) :
    uint32? (.int n) = some (UInt32.ofNat n.toNat) := if_pos range

theorem uint64Decoded (n : UInt64) : uint64? (.int n.toNat) = some n := by
  have below : n.toNat < UInt64.size := n.toNat_lt
  rw [uint64InRange ⟨Int.natCast_nonneg _, Int.ofNat_lt.mpr below⟩, Int.toNat_natCast, UInt64.ofNat_toNat]

theorem uint32Decoded (n : UInt32) : uint32? (.int n.toNat) = some n := by
  have below : n.toNat < UInt32.size := n.toNat_lt
  rw [uint32InRange ⟨Int.natCast_nonneg _, Int.ofNat_lt.mpr below⟩, Int.toNat_natCast, UInt32.ofNat_toNat]

theorem stringListDecoded (items : List String) : list? str? (ofList .str items) = some items :=
  listDecoded fun _ _ => rfl

theorem stringsDecoded (items : List String) : Sql.strings? (Sql.strings items) = some items :=
  stringListDecoded items

end Json

theorem SqlType.decoded (t : SqlType) : ofJson? t.toJson = some t := by cases t <;> rfl

theorem QualifiedName.decoded (q : QualifiedName) : ofJson? q.toJson = some q := rfl

namespace Value

theorem intRead (n : Int) : ofJson? (tagged "Int" (.int n)) = (Json.int64? (.int n)).map .int := rfl

theorem dateRead (s : String) : ofJson? (tagged "Date" (.str s)) = (Date.ofText? s).map .date := by
  change (Date.ofText? s).bind _ = _
  cases Date.ofText? s <;> rfl

theorem timestampRead (s : String) : ofJson? (tagged "Timestamp" (.str s)) = (Timestamp.ofText? s).map .timestamp := by
  change (Timestamp.ofText? s).bind _ = _
  cases Timestamp.ofText? s <;> rfl

theorem collectionRead (items : List Json) :
    ofJson? (tagged "Collection" (.arr items)) = (items? items).map .collection := rfl

theorem compositeRead (t : String) (fields : List Json) :
    ofJson? (tagged "Composite" (.obj [("type_name", .str t), ("fields", .arr fields)])) =
      (fields? fields).map (.composite t) := by
  change (fields? fields).bind _ = _
  cases fields? fields <;> rfl

mutual
theorem decoded : ∀ v : Value, ofJson? v.toJson = some v
  | .null | .bool _ | .float _ | .text _ | .enum _ _ => rfl
  | .int n => by rw [toJson, intRead, Json.int64Decoded, Option.map_some]
  | .date d => by rw [toJson, dateRead, Date.ofText, Option.map_some]
  | .timestamp t => by rw [toJson, timestampRead, Timestamp.ofText, Option.map_some]
  | .collection items => by rw [toJson, collectionRead, itemsDecoded items, Option.map_some]
  | .composite t fields => by rw [toJson, compositeRead, fieldsDecoded fields, Option.map_some]
theorem itemsDecoded : ∀ items : List Value, items? (itemsJson items) = some items
  | [] => rfl
  | v :: rest => by
    simp only [itemsJson, items?, decoded v, itemsDecoded rest]
    rfl
theorem fieldsDecoded : ∀ fields : List (QualifiedName × Value), fields? (fieldsJson fields) = some fields
  | [] => rfl
  | (name, v) :: rest => by
    simp only [fieldsJson, fields?, name.decoded, decoded v, fieldsDecoded rest]
    rfl
end

end Value

theorem BoundParameter.decoded (p : BoundParameter) : ofJson? p.toJson = some p := by
  simp [toJson, ofJson?, Json.record?, Members.required, List.lookup_cons, Value.decoded, SqlType.decoded]

theorem Condition.decoded (c : Condition) : ofJson? c.toJson = some c := by
  simp [toJson, ofJson?, Json.record?, Members.required, List.lookup_cons, Json.str?,
    Json.listDecoded fun p (_ : p ∈ c.parameters) => p.decoded]

theorem JoinKind.decoded (k : JoinKind) : ofJson? k.toJson = some k := by cases k <;> rfl

theorem SetOperator.decoded (o : SetOperator) : ofJson? o.toJson = some o := by cases o <;> rfl

namespace Sql

theorem Join.decoded (j : Join) : ofJson? j.toJson = some j := by
  simp [toJson, ofJson?, Json.record?, Members.required, List.lookup_cons, Json.str?, JoinKind.decoded,
    Json.stringsDecoded]

theorem OrderItem.decoded (i : OrderItem) : ofJson? i.toJson = some i := by
  cases i with
  | mk expression order => cases order <;> rfl

theorem Select.decoded (s : Select) : ofJson? s.toJson = some s := by
  simp [toJson, ofJson?, Json.record?, Members.required, Members.optional, List.lookup_cons, Json.str?, Json.bool?,
    Json.stringsDecoded, Json.listDecoded fun j (_ : j ∈ s.joins) => j.decoded,
    Json.listDecoded fun c (_ : c ∈ s.filters) => c.decoded,
    Json.listDecoded fun i (_ : i ∈ s.orderBy) => i.decoded,
    Json.nullableDecoded fun c (_ : s.having = some c) => ⟨rfl, c.decoded⟩,
    Json.nullableDecoded fun n (_ : s.limit = some n) => ⟨rfl, Json.uint64Decoded n⟩,
    Json.nullableDecoded fun n (_ : s.offset = some n) => ⟨rfl, Json.uint64Decoded n⟩]

end Sql

theorem SetQuery.decoded (q : SetQuery Sql.Select) : ofJson? q.toJson = some q := by
  induction q with
  | select s => simp [toJson, ofJson?, Sql.Select.decoded]
  | compound o l r left right =>
    simp [toJson, ofJson?, operand?, Members.required, SetOperator.decoded, left, right]

theorem TypeDeclaration.decoded (t : TypeDeclaration) : ofJson? t.toJson = some t := by
  simp [toJson, ofJson?, Json.record?, Members.required, Members.optional, Members.defaulted, List.lookup_cons,
    Json.str?, Json.stringListDecoded t.superTypes,
    Json.nullableDecoded fun n (_ : t.typeId = some n) => ⟨rfl, Json.int32Decoded n⟩]

namespace AttributeTable

def Entry {α : Type} (m : Members) (name : String) (encode : α → Json) (value default : α) : Prop :=
  m.lookup name = some (encode value) ∨ m.lookup name = none ∧ value = default

/-- Members that describe a table. Its name stands under one of two names, not under both. -/
structure Described (m : Members) (t : AttributeTable) : Prop where
  name : m.lookup "table_name" = some (.str t.name) ∧ m.lookup "table" = none ∨
    m.lookup "table_name" = none ∧ m.lookup "table" = some (.str t.name)
  depth : Entry m "collection_depth" (fun n : UInt32 => .int n.toNat) t.depth 0
  parent : Entry m "parent_join_column" .str t.parentColumn defaultParentColumn
  child : Entry m "child_join_column" .str t.childColumn defaultChildColumn

theorem Entry.decoded {α : Type} {m : Members} {name : String} {encode : α → Json} {decode : Json → Option α}
    {value default : α} (entry : Entry m name encode value default) (reads : decode (encode value) = some value) :
    m.defaulted decode default name = some value := by
  unfold Members.defaulted
  rcases entry with written | ⟨missing, same⟩
  · simp [written, reads]
  · simp [missing, same]

theorem Described.decoded {m : Members} {t : AttributeTable} (described : Described m t) : ofMembers? m = some t := by
  have depth := described.depth.decoded (Json.uint32Decoded t.depth)
  have text (s : String) : Json.str? (.str s) = some s := rfl
  have parent := described.parent.decoded (text t.parentColumn)
  have child := described.child.decoded (text t.childColumn)
  unfold ofMembers?
  rcases described.name with ⟨own, none⟩ | ⟨none, other⟩
  · simp [own, none, depth, parent, child, Json.str?]
  · simp [none, other, depth, parent, child, Json.str?]

end AttributeTable

namespace AttributeDeclaration

theorem describedDecoded {m : Members} {a : AttributeDeclaration}
    (type : m.lookup "declaring_type" = some (.str a.name.declaringType))
    (name : m.lookup "name" = some (.str a.name.name)) (described : AttributeTable.Described m a.table) :
    ofJson? (.obj m) = some a := by
  simp [ofJson?, Json.obj?, Members.required, type, name, Json.str?, described.decoded]

theorem decoded (a : AttributeDeclaration) : ofJson? a.toJson = some a := by
  refine describedDecoded rfl rfl ⟨.inl ⟨rfl, rfl⟩, .inl ?_, .inl rfl, .inl rfl⟩
  simp [AttributeTable.members, List.lookup_cons]

end AttributeDeclaration

namespace KeyTable

variable {α : Type}

theorem insertLast {key : String} {value : α} {entries : List (String × α)}
    (last : ∀ k ∈ entries.map Prod.fst, k < key) : insert key value entries = entries ++ [(key, value)] := by
  induction entries with
  | nil => rfl
  | cons e rest ih =>
    obtain ⟨first, others⟩ := List.forall_mem_cons.mp last
    have other : ¬ key = e.1 := fun same => String.lt_irrefl _ (same ▸ first)
    rw [insert, if_neg (String.lt_asymm first), if_neg other, ih others, List.cons_append]

theorem putEach {t : KeyTable α} {entries : List (String × α)}
    (sorted : ((t.entries ++ entries).map Prod.fst).Pairwise (· < ·)) :
    (entries.foldl (fun t e => t.put e.1 e.2) t).entries = t.entries ++ entries := by
  induction entries generalizing t with
  | nil => simp
  | cons e rest ih =>
    have last : ∀ k ∈ t.entries.map Prod.fst, k < e.1 := by
      rw [List.map_append] at sorted
      exact fun k mem => (List.pairwise_append.mp sorted).2.2 k mem e.1 List.mem_cons_self
    have put : (t.put e.1 e.2).entries = t.entries ++ [e] := insertLast last
    rw [List.foldl_cons, ih (by simpa [put] using sorted), put, List.append_assoc, List.singleton_append]

theorem ofListEntries (t : KeyTable α) : ofList t.entries = t := by
  have same : (ofList t.entries).entries = t.entries := putEach (t := empty) (by simpa [empty] using t.sorted)
  obtain ⟨entries, sorted⟩ := t
  cases made : ofList entries with
  | mk put sorted' =>
    simp only [made] at same
    subst same
    rfl

theorem decoded {encode : α → Json} {decode : Json → Option α} {t : KeyTable α}
    (each : ∀ e ∈ t.entries, decode (encode e.2) = some e.2) : ofJson? decode (t.toJson encode) = some t := by
  have entries : (t.entries.map fun e => (e.1, encode e.2)).mapM (fun m => (decode m.2).map (m.1, ·)) =
      some t.entries := Json.mapDecoded fun e mem => by simp [each e mem]
  change (do some (ofList (← (t.entries.map fun e => (e.1, encode e.2)).mapM fun m => (decode m.2).map (m.1, ·))) :
    Option (KeyTable α)) = some t
  rw [entries]
  exact congrArg some t.ofListEntries

end KeyTable

theorem Catalog.decoded (c : Catalog) : ofJson? c.toJson = some c := by
  have keys (t : KeyTable Int64) : KeyTable.ofJson? Json.int64? (t.toJson fun n => .int n.toInt) = some t :=
    KeyTable.decoded fun e _ => Json.int64Decoded e.2
  simp [toJson, ofJson?, Json.record?, Members.defaulted, List.lookup_cons,
    Json.listDecoded fun t (_ : t ∈ c.types) => t.decoded,
    Json.listDecoded fun a (_ : a ∈ c.attributes) => a.decoded,
    KeyTable.decoded fun e (_ : e ∈ c.enums.entries) => keys e.2]

end ObjectQuery
