import ObjectQuery.Proofs.Decoded
import ObjectQuery.Proofs.JsonText

/-! Serialized forms, also as text. What is written for a value, a query or a catalog is decoded as the same value,
query or catalog, whoever writes and reads the text, as long as it is not too deep and the numbers in it are read as
what they were. -/
namespace ObjectQuery

namespace Json

theorem itemsHeightLe {items : List Json} {n : Nat} : itemsHeight items ≤ n ↔ ∀ j ∈ items, j.height ≤ n := by
  induction items with
  | nil => simp [itemsHeight]
  | cons j rest ih => rw [itemsHeight, Nat.max_le, ih, List.forall_mem_cons]

theorem membersHeightLe {members : Members} {n : Nat} : membersHeight members ≤ n ↔ ∀ m ∈ members, m.2.height ≤ n := by
  induction members with
  | nil => simp [membersHeight]
  | cons m rest ih => rw [membersHeight, Nat.max_le, ih, List.forall_mem_cons]

theorem listHeight {α : Type} {encode : α → Json} {items : List α} {n : Nat}
    (each : ∀ a ∈ items, (encode a).height ≤ n) : (ofList encode items).height ≤ n + 1 :=
  Nat.succ_le_succ (itemsHeightLe.mpr (List.forall_mem_map.mpr each))

theorem optionHeight {α : Type} {encode : α → Json} {a : Option α} {n : Nat}
    (each : ∀ b, a = some b → (encode b).height ≤ n) : (ofOption encode a).height ≤ n := by
  cases a with
  | none => exact Nat.zero_le n
  | some b => exact each b rfl

variable {exact : Float → Prop}

theorem listReadable {α : Type} {encode : α → Json} {items : List α}
    (each : ∀ a ∈ items, (encode a).Readable exact) : (ofList encode items).Readable exact := by
  rw [ofList, Readable, eachReadable]
  intro j mem
  obtain ⟨a, held, rfl⟩ := List.mem_map.mp mem
  exact each a held

theorem optionReadable {α : Type} {encode : α → Json} {a : Option α}
    (each : ∀ b, a = some b → (encode b).Readable exact) : (ofOption encode a).Readable exact := by
  cases a with
  | none => trivial
  | some b => exact each b rfl

theorem stringsReadable (items : List String) : (ofList .str items).Readable exact := listReadable fun _ _ => trivial

theorem intReadable {n : Int} (least : Int64.minValue.toInt ≤ n) (bound : n < UInt64.size) : (int n).Readable exact := by
  rw [Readable, Reader.inRange, Bool.and_eq_true, decide_eq_true_iff, decide_eq_true_iff]
  exact ⟨least, bound⟩

theorem natReadable {n : Nat} (bound : n < UInt64.size) : (int n).Readable exact :=
  intReadable (Int.le_trans (by decide) (Int.natCast_nonneg n)) (Int.ofNat_lt.mpr bound)

theorem int64Readable (n : Int64) : (int n.toInt).Readable exact :=
  intReadable n.minValue_le_toInt (Int.lt_of_le_of_lt n.toInt_le (by decide))

theorem int32Readable (n : Int32) : (int n.toInt).Readable exact :=
  intReadable (Int.le_trans (by decide) n.minValue_le_toInt) (Int.lt_of_le_of_lt n.toInt_le (by decide))

theorem uint64Readable (n : UInt64) : (int n.toNat).Readable exact := natReadable n.toNat_lt

theorem uint32Readable (n : UInt32) : (int n.toNat).Readable exact :=
  natReadable (Nat.lt_trans n.toNat_lt (by decide))

end Json

variable {exact : Float → Prop}

theorem QualifiedName.readable (q : QualifiedName) : q.toJson.Readable exact := by
  simp [toJson, Json.Readable, Json.MembersReadable]

namespace Value

mutual
def floats : Value → List Float
  | .float x => [x]
  | .collection items => itemsFloats items
  | .composite _ fields => fieldsFloats fields
  | _ => []
def itemsFloats : List Value → List Float
  | [] => []
  | v :: rest => floats v ++ itemsFloats rest
def fieldsFloats : List (QualifiedName × Value) → List Float
  | [] => []
  | (_, v) :: rest => floats v ++ fieldsFloats rest
end

theorem taggedReadable {type : String} {content : Json} (readable : content.Readable exact) :
    (tagged type content).Readable exact := by
  simp [tagged, Json.Readable, Json.MembersReadable, readable]

mutual
theorem readable : ∀ v : Value, (∀ x ∈ v.floats, exact x) → v.toJson.Readable exact
  | .null, _ => by simp [toJson, Json.Readable, Json.MembersReadable]
  | .bool _, _ | .text _, _ | .date _, _ | .timestamp _, _ => taggedReadable trivial
  | .int n, _ => taggedReadable (Json.int64Readable n)
  | .float x, each => taggedReadable (each x List.mem_cons_self)
  | .enum _ _, _ => taggedReadable (by simp [Json.Readable, Json.MembersReadable])
  | .collection items, each => taggedReadable (itemsReadable items each)
  | .composite _ fields, each =>
    taggedReadable (by simpa [Json.Readable, Json.MembersReadable] using fieldsReadable fields each)
theorem itemsReadable : ∀ items : List Value, (∀ x ∈ itemsFloats items, exact x) →
    Json.EachReadable exact (itemsJson items)
  | [], _ => trivial
  | v :: rest, each =>
    ⟨readable v fun x mem => each x (List.mem_append_left _ mem),
      itemsReadable rest fun x mem => each x (List.mem_append_right _ mem)⟩
theorem fieldsReadable : ∀ fields : List (QualifiedName × Value), (∀ x ∈ fieldsFloats fields, exact x) →
    Json.EachReadable exact (fieldsJson fields)
  | [], _ => trivial
  | (name, v) :: rest, each =>
    ⟨⟨name.readable, readable v fun x mem => each x (List.mem_append_left _ mem), trivial⟩,
      fieldsReadable rest fun x mem => each x (List.mem_append_right _ mem)⟩
end

end Value

def BoundExactly (exact : Float → Prop) (parameters : List BoundParameter) : Prop :=
  ∀ p ∈ parameters, ∀ x ∈ p.value.floats, exact x

theorem BoundParameter.readable {p : BoundParameter} (each : ∀ x ∈ p.value.floats, exact x) :
    p.toJson.Readable exact := by
  simp [toJson, SqlType.toJson, Json.Readable, Json.MembersReadable, p.value.readable each]

theorem Condition.readable {c : Condition} (bound : BoundExactly exact c.parameters) : c.toJson.Readable exact := by
  have parameters := Json.listReadable fun p mem => BoundParameter.readable (bound p mem)
  simp [toJson, Json.Readable, Json.MembersReadable, parameters]

namespace Sql

theorem Join.readable (j : Join) : j.toJson.Readable exact := by
  have kind : j.kind.toJson.Readable exact := by cases j.kind <;> trivial
  simp [toJson, strings, Json.Readable, Json.MembersReadable, kind, Json.stringsReadable]

theorem OrderItem.readable (i : OrderItem) : i.toJson.Readable exact := by
  have order : i.order.toJson.Readable exact := by cases i.order <;> trivial
  simp [toJson, Json.Readable, Json.MembersReadable, order]

theorem Select.readable {s : Select} (bound : BoundExactly exact s.parameters) : s.toJson.Readable exact := by
  have filters : (Json.ofList Condition.toJson s.filters).Readable exact := by
    refine Json.listReadable fun c mem => Condition.readable fun p inside => bound p ?_
    exact List.mem_append_left _ (List.mem_flatMap.mpr ⟨c, mem, inside⟩)
  have having : (Json.ofOption Condition.toJson s.having).Readable exact := by
    refine Json.optionReadable fun c same => Condition.readable fun p inside => bound p ?_
    exact List.mem_append_right _ (by simpa [same] using inside)
  have joins : (Json.ofList Join.toJson s.joins).Readable exact := Json.listReadable fun j _ => j.readable
  have order : (Json.ofList OrderItem.toJson s.orderBy).Readable exact := Json.listReadable fun i _ => i.readable
  have number (n : Option UInt64) : (Json.ofOption (fun n : UInt64 => .int n.toNat) n).Readable exact :=
    Json.optionReadable fun n _ => Json.uint64Readable n
  simp [toJson, strings, Json.Readable, Json.MembersReadable, Json.stringsReadable, filters, having, joins, order,
    number]

end Sql

theorem SetQuery.readable {q : SetQuery Sql.Select} (bound : BoundExactly exact q.parameters) :
    q.toJson.Readable exact := by
  induction q with
  | select s => simp [toJson, Json.Readable, Json.MembersReadable, Sql.Select.readable bound]
  | compound o l r left right =>
    have left := left fun p mem => bound p (List.mem_append_left _ mem)
    have right := right fun p mem => bound p (List.mem_append_right _ mem)
    have operator : o.toJson.Readable exact := by cases o <;> trivial
    simp [toJson, Json.Readable, Json.MembersReadable, operator, left, right]

theorem TypeDeclaration.readable (t : TypeDeclaration) : t.toJson.Readable exact := by
  have id : (Json.ofOption (fun n : Int32 => .int n.toInt) t.typeId).Readable exact :=
    Json.optionReadable fun n _ => Json.int32Readable n
  simp [toJson, Json.Readable, Json.MembersReadable, Json.stringsReadable, id]

theorem AttributeTable.readable (t : AttributeTable) : t.toJson.Readable exact := by
  have depth : Json.Reader.inRange t.depth.toNat = true :=
    @Json.uint32Readable exact t.depth
  simp [toJson, members, Json.Readable, Json.MembersReadable, depth]

theorem AttributeDeclaration.readable (a : AttributeDeclaration) : a.toJson.Readable exact := by
  have depth : Json.Reader.inRange a.table.depth.toNat = true :=
    @Json.uint32Readable exact a.table.depth
  simp [toJson, AttributeTable.members, Json.Readable, Json.MembersReadable, depth]

theorem KeyTable.readable {α : Type} {encode : α → Json} {t : KeyTable α}
    (each : ∀ e ∈ t.entries, (encode e.2).Readable exact) : (t.toJson encode).Readable exact := by
  have names : (t.entries.map fun e => (e.1, encode e.2)).map Prod.fst = t.entries.map Prod.fst := by simp
  refine ⟨names ▸ t.distinct, Json.membersReadable.mpr fun m mem => ?_⟩
  obtain ⟨e, held, rfl⟩ := List.mem_map.mp mem
  exact each e held

theorem KeyTable.height {α : Type} {encode : α → Json} {t : KeyTable α} {n : Nat}
    (each : ∀ e ∈ t.entries, (encode e.2).height ≤ n) : (t.toJson encode).height ≤ n + 1 :=
  Nat.succ_le_succ (Json.membersHeightLe.mpr (List.forall_mem_map.mpr each))

namespace Catalog

theorem readable (c : Catalog) : c.toJson.Readable exact := by
  have types : (Json.ofList TypeDeclaration.toJson c.types).Readable exact := Json.listReadable fun t _ => t.readable
  have attributes : (Json.ofList AttributeDeclaration.toJson c.attributes).Readable exact :=
    Json.listReadable fun a _ => a.readable
  have keys (t : KeyTable Int64) : (t.toJson fun n => .int n.toInt).Readable exact :=
    KeyTable.readable fun k _ => Json.int64Readable k.2
  have enums : (c.enums.toJson (KeyTable.toJson fun n => .int n.toInt)).Readable exact :=
    KeyTable.readable fun e _ => keys e.2
  simp [toJson, Json.Readable, Json.MembersReadable, types, attributes, enums]

theorem height (c : Catalog) : c.toJson.height ≤ 4 := by
  have strings (items : List String) : (Json.ofList .str items).height ≤ 1 :=
    Json.listHeight fun _ _ => Nat.le_refl 0
  have declared (t : TypeDeclaration) : t.toJson.height ≤ 2 := by
    have id : (Json.ofOption (fun n : Int32 => .int n.toInt) t.typeId).height ≤ 1 :=
      Json.optionHeight fun n _ => Nat.zero_le 1
    have above := strings t.superTypes
    simp only [TypeDeclaration.toJson, Json.height, Json.membersHeight]
    omega
  have described (a : AttributeDeclaration) : a.toJson.height ≤ 1 := by
    simp [AttributeDeclaration.toJson, AttributeTable.members, Json.height, Json.membersHeight]
  have types : (Json.ofList TypeDeclaration.toJson c.types).height ≤ 3 := Json.listHeight fun t _ => declared t
  have attributes : (Json.ofList AttributeDeclaration.toJson c.attributes).height ≤ 2 :=
    Json.listHeight fun a _ => described a
  have keys (t : KeyTable Int64) : (t.toJson fun n => .int n.toInt).height ≤ 1 := KeyTable.height fun _ _ => Nat.le_refl 0
  have enums : (c.enums.toJson (KeyTable.toJson fun n => .int n.toInt)).height ≤ 2 := KeyTable.height fun e _ => keys e.2
  simp only [toJson, Json.height, Json.membersHeight]
  omega

end Catalog

theorem AttributeTable.Described.object {m : Members} {t : AttributeTable} (described : Described m t) :
    ofJson? (.obj m) = some t := by
  simp [ofJson?, Json.record?, described.decoded]

theorem AttributeTable.height (t : AttributeTable) : t.toJson.height = 1 := by
  simp [toJson, members, Json.height, Json.membersHeight]

namespace SerializedSample

def home : Value :=
  .composite "Address" [(⟨"Address", "height"⟩, .float 1.5), (⟨"Address", "tags"⟩, .collection [.null, .int (-7)])]

def query : SetQuery Sql.Select :=
  .compound .except
    (.select { Sql.Select.of "person" "t0" with filters := [.binary "t0.home" "=" ⟨home, .varchar⟩], limit := some 3 })
    (.select (Sql.Select.of "person" "t0"))

end SerializedSample

end ObjectQuery
