import Mathlib.Data.List.Nodup
import Mathlib.Data.List.Perm.Subperm
import ObjectQuery.Proofs.Strictness

/-! What a compiled request has looked up. All names on its paths are mapped and all constants in it have
keys. A condition for no elements at all is not looked at any further, though, and a value object that names
a field twice can stand for one with a field that nobody looked up. -/
namespace ObjectQuery
open Outcome

namespace Value

mutual
def Resolved (ctx : Context) : Value → Prop
  | .composite _ fields => FieldsResolved ctx fields
  | .enum enumType variant => ∃ key, ctx.schema.enumKey enumType variant = some key
  | .collection _ => False
  | _ => True
def FieldsResolved (ctx : Context) : List (QualifiedName × Value) → Prop
  | [] => True
  | (name, v) :: rest => ctx.Mapped name ∧ Resolved ctx v ∧ FieldsResolved ctx rest
end

mutual
def NamedOnce : Value → Prop
  | .composite _ fields => (fields.map Prod.fst).Nodup ∧ FieldsNamedOnce fields
  | _ => True
def FieldsNamedOnce : List (QualifiedName × Value) → Prop
  | [] => True
  | (_, v) :: rest => NamedOnce v ∧ FieldsNamedOnce rest
end

theorem fieldsNamedOnce {fields : List (QualifiedName × Value)} :
    FieldsNamedOnce fields ↔ ∀ f ∈ fields, f.2.NamedOnce := by
  induction fields with
  | nil => simp [FieldsNamedOnce]
  | cons f rest ih => rw [FieldsNamedOnce, ih, List.forall_mem_cons]

variable {ctx : Context}

theorem fieldsAdmitted {fields : List (QualifiedName × Value)} : FieldsAdmitted ctx fields ↔ ∀ f ∈ fields,
    (ctx.Mapped f.1 ∧ ¬ctx.IsCollection f.1 ∧ f.2.isCollection = false) ∧ f.2.Admitted ctx := by
  induction fields with
  | nil => simp [FieldsAdmitted]
  | cons f rest ih =>
    rw [FieldsAdmitted, ih, List.forall_mem_cons]
    exact and_assoc.symm

theorem fieldsResolved {fields : List (QualifiedName × Value)} :
    FieldsResolved ctx fields ↔ ∀ f ∈ fields, ctx.Mapped f.1 ∧ f.2.Resolved ctx := by
  induction fields with
  | nil => simp [FieldsResolved]
  | cons f rest ih => rw [FieldsResolved, ih, List.forall_mem_cons, and_assoc]

theorem boundResolved {v : Value} {b : BoundParameter} (ok : ctx.bind v = .ok b) : v.Resolved ctx := by
  cases v with
  | enum t c =>
    cases Context.bindBinds rfl ok with
    | key stored typed => exact ⟨_, stored⟩
    | plain counts other typed => exact absurd rfl (other t c)
  | collection items => cases ok
  | composite t fields => cases ok
  | _ => trivial

theorem plainResolved {v : Value} (plain : ∀ t fields, v ≠ .composite t fields) (admitted : v.Admitted ctx) :
    v.Resolved ctx := by
  rw [admittedPlain plain] at admitted
  obtain null | ⟨b, bound⟩ := admitted
  · cases v with
    | null => trivial
    | _ => cases null
  · exact boundResolved bound

theorem admittedResolved {v : Value} (admitted : v.Admitted ctx) : v.Resolved ctx := by
  induction v using byFields with
  | plain v plain => exact plainResolved plain admitted
  | object t fields ih =>
    refine fieldsResolved.mpr fun f mem => ?_
    obtain ⟨⟨mapped, _⟩, element⟩ := fieldsAdmitted.mp admitted f mem
    exact ⟨mapped, ih f mem element⟩

theorem plainSameResolved {k v : Value} (some : k.isNull = false) (plain : ∀ t fields, k ≠ .composite t fields)
    (same : ctx.boundEqual k v = .ok true) : v.Resolved ctx := by
  obtain ⟨_, _, _, bound, _⟩ := Context.boundEqualScalar some plain same
  exact boundResolved bound

theorem lookupMem {name : QualifiedName} {w : Value} {fields : List (QualifiedName × Value)}
    (found : fields.lookup name = some w) : (name, w) ∈ fields := by
  obtain ⟨before, after, rfl, _⟩ := List.lookup_eq_some_iff.mp found
  simp

theorem fieldsMatched {left right : List (QualifiedName × Value)} {P : QualifiedName × Value → Prop}
    (lengths : left.length = right.length) (once : (left.map Prod.fst).Nodup)
    (found : ∀ f ∈ left, ∃ w, right.lookup f.1 = some w ∧ P (f.1, w)) : ∀ f ∈ right, P f := by
  have inside : left.map Prod.fst ⊆ right.map Prod.fst := by
    intro name mem
    obtain ⟨f, here, rfl⟩ := List.mem_map.mp mem
    obtain ⟨w, looked, _⟩ := found f here
    exact List.mem_map.mpr ⟨_, lookupMem looked, rfl⟩
  have perm : (left.map Prod.fst).Perm (right.map Prod.fst) :=
    (List.subperm_of_subset once inside).perm_of_length_le (by simp [lengths])
  have onceRight : (right.map Prod.fst).Nodup := perm.nodup_iff.mp once
  intro f mem
  obtain ⟨g, here, same⟩ := List.mem_map.mp (perm.mem_iff.mpr (List.mem_map_of_mem mem))
  obtain ⟨w, looked, holds⟩ := found g here
  obtain rfl : (g.1, w) = f := List.inj_on_of_nodup_map onceRight (lookupMem looked) mem same
  exact holds

theorem sameElements {P : Value → Value → Prop} (null : P .null .null)
    (plain : ∀ k v, k.isNull = false → (∀ t fields, k ≠ .composite t fields) → ctx.boundEqual k v = .ok true → P k v)
    (object : ∀ t t' left right, left.length = right.length → (left.map Prod.fst).Nodup →
      (∀ f ∈ left, ∃ w, (f.1, w) ∈ right ∧ P f.2 w) → (∀ g ∈ right, ∃ v, (g.1, v) ∈ left ∧ P v g.2) →
      P (.composite t left) (.composite t' right)) {k v : Value} (once : k.NamedOnce)
    (same : ctx.boundEqual k v = .ok true) : P k v := by
  induction k using byFields generalizing v with
  | plain k isPlain =>
    cases some : k.isNull with
    | false => exact plain k v some isPlain same
    | true =>
      cases k with
      | null =>
        cases v with
        | null => exact null
        | _ => cases same
      | _ => cases some
  | object t left ih =>
    obtain ⟨t', right, rfl, lengths, found⟩ := Context.boundEqualObject.mp same
    have matched : ∀ f ∈ left, ∃ w, right.lookup f.1 = some w ∧ P f.2 w := by
      intro f mem
      obtain ⟨w, looked, alike⟩ := found f mem
      exact ⟨w, looked, ih f mem (fieldsNamedOnce.mp once.2 f mem) alike⟩
    refine object t t' left right lengths once.1 (fun f mem => ?_) ?_
    · obtain ⟨w, looked, holds⟩ := matched f mem
      exact ⟨w, lookupMem looked, holds⟩
    · refine fieldsMatched (P := fun g => ∃ v, (g.1, v) ∈ left ∧ P v g.2) lengths once.1 fun f mem => ?_
      obtain ⟨w, looked, holds⟩ := matched f mem
      exact ⟨w, looked, f.2, mem, holds⟩

theorem sameResolved {k v : Value} (same : ctx.boundEqual k v = .ok true) (resolved : k.Resolved ctx)
    (once : k.NamedOnce) : v.Resolved ctx := by
  refine sameElements (P := fun k v => k.Resolved ctx → v.Resolved ctx) id (fun k v some plain same _ => ?_)
    (fun t t' left right _ _ _ fromRight resolved => ?_) once same resolved
  · exact plainSameResolved some plain same
  · refine fieldsResolved.mpr fun g mem => ?_
    obtain ⟨v, inside, resolves⟩ := fromRight g mem
    obtain ⟨mapped, element⟩ := fieldsResolved.mp resolved _ inside
    exact ⟨mapped, resolves element⟩

end Value

def Leaf.Resolved (ctx : Context) : Leaf → Prop
  | .compare p _ operand => p.Known ctx ∧ p.Single ctx ∧ ∃ v, operand = .literal v ∧ v.Resolved ctx
  | .matches p _ => p.Known ctx ∧ p.Single ctx
  | .propertyNull p _ => p.Known ctx
  | .associationNull a _ => a.Known ctx
  | .reaches a _ => a.Known ctx
  | .contains p operand => p.Known ctx ∧ ctx.IsCollection p.last ∧ ∃ v, operand = .literal v ∧ v.Resolved ctx
  | .containsAll p operand => ∃ items, operand = .literal (.collection items) ∧
      (Value.flattenAll items ≠ [] → p.Known ctx ∧ ctx.IsCollection p.last) ∧
      ∀ v ∈ Value.flattenAll items, v.Resolved ctx ∨
        ∃ k ∈ Value.flattenAll items, ¬k.NamedOnce ∧ ctx.boundEqual k v = .ok true

theorem Leaf.admittedResolved {ctx : Context} {l : Leaf} (admitted : l.Admitted ctx) : l.Resolved ctx := by
  cases l with
  | compare p c operand =>
    obtain ⟨⟨v, literal, _, b, bound⟩, known, single⟩ := admitted
    exact ⟨known, single, v, literal, Value.boundResolved bound⟩
  | «matches» p operand => exact admitted.2
  | propertyNull p isNull => exact admitted
  | associationNull a isNull => exact admitted
  | reaches a operand => exact admitted.2
  | contains p operand =>
    obtain ⟨v, literal, _, known, collection, element⟩ := admitted
    exact ⟨known, collection, v, literal, Value.admittedResolved element⟩
  | containsAll p operand =>
    obtain ⟨items, kept, literal, ok, rest⟩ := admitted
    obtain ⟨_, within, each⟩ := Context.keptOrDropped ok
    refine ⟨items, literal, fun some => ?_, fun v mem => ?_⟩
    · obtain ⟨v, mem⟩ := List.exists_mem_of_ne_nil _ some
      rcases rest with rfl | ⟨known, collection, _⟩
      · simpa using each v mem
      · exact ⟨known, collection⟩
    · have keptResolved : ∀ k ∈ kept, k.Resolved ctx := by
        rcases rest with rfl | ⟨_, _, elements⟩
        · simp
        · exact fun k mem => Value.admittedResolved (elements k mem)
      rcases each v mem with kept | ⟨k, kept, same⟩
      · exact .inl (keptResolved v kept)
      · -- only the kept element was looked up: its names are those of the dropped one if each comes once
        by_cases once : k.NamedOnce
        · exact .inl (Value.sameResolved same (keptResolved k kept) once)
        · exact .inr ⟨k, within kept, once, same⟩

def Request.leaves (r : Request) : List Leaf := r.predicate.elim [] Predicate.leaves

namespace Context

variable {ctx : Context}

theorem sortColumnKnown {p : PropertyPath} {root : Alias} {r r' : Route} {c : Column}
    (ok : ctx.laySortColumn p root r = .ok c r') : p.Known ctx := by
  obtain ⟨many, u, asked, ok⟩ := bindOk.mp ok
  split at ok
  · exact (throwBindOk.mp ok).elim
  · obtain ⟨target, v, path, ok⟩ := bindOk.mp ok
    have decides : Decides [] (p.Known ctx) (ctx.layPath p root .left) := layPathDecides p root
    exact (decides.done u).mp ⟨target, v, path⟩

theorem sortByKnown {root : Alias} {seen : List PropertyPath} {keys : List SortKey} {s s' : SortPlan}
    (ok : ctx.sortBy root seen keys s = .ok () s') : ∀ key ∈ keys, key.property ∈ seen ∨ key.property.Known ctx := by
  induction keys generalizing seen s with
  | nil => simp
  | cons key rest ih =>
    unfold sortBy at ok
    split at ok
    · next before => exact List.forall_mem_cons.mpr ⟨.inl before, ih ok⟩
    · obtain ⟨c, u, column, ok⟩ := bindOk.mp ok
      obtain ⟨_, v, push, ok⟩ := bindOk.mp ok
      obtain ⟨r, laid, rfl⟩ := sortLayOk.mp column
      have known := sortColumnKnown laid
      refine List.forall_mem_cons.mpr ⟨.inr known, fun key' mem => ?_⟩
      rcases ih ok key' mem with here | later
      · rcases List.mem_cons.mp here with same | before
        · exact .inr (same ▸ known)
        · exact .inl before
      · exact .inr later

theorem restrictResolved {r : Request} {restriction : Restriction} {n m : Nat}
    (ok : ctx.restrict r n = .ok restriction m) : ∀ l ∈ r.leaves, l.Resolved ctx := by
  obtain ⟨ids, _, _, ⟨none, _⟩ | ⟨p, asked, compiled⟩⟩ := restrictOk ok
  · simp [Request.leaves, none]
  · have admitted : ∀ l ∈ p.leaves, l.Admitted ctx := Scope.compilesAdmitted.mp ⟨_, _, compiled⟩
    rw [Request.leaves, asked]
    exact fun l mem => Leaf.admittedResolved (admitted l mem)

theorem compiledNamesResolved {r : Request} {q : CompiledQuery} (ok : ctx.compileRows r = .ok q) :
    (∀ key ∈ r.orderBy, key.property.Known ctx) ∧ ∀ l ∈ r.leaves, l.Resolved ctx := by
  obtain ⟨plan, issued, planned, _⟩ := compileRowsOk.mp ok
  obtain ⟨k, restricted, sort⟩ := rowPlanSorted planned
  obtain ⟨_, s, sorted, _⟩ := bindOk.mp sort
  exact ⟨fun key mem => (sortByKnown sorted key mem).resolve_left (by simp), restrictResolved restricted⟩

end Context

namespace ResolvedSample
open RequestSample

def addresses : PropertyPath := .of ⟨"Person", "addresses"⟩

theorem requestNamesResolved : (∃ q, people.compileRows request = .ok q) ∧
    name.Known people ∧ friendsName.Known people ∧ friendsName.Single people ∧
    addresses.Known people ∧ people.IsCollection addresses.last ∧ inRome.Resolved people := by
  have ok : ∃ q, people.compileRows request = .ok q := ⟨_, rfl⟩
  obtain ⟨q, compiled⟩ := ok
  obtain ⟨orders, leaves⟩ := Context.compiledNamesResolved compiled
  obtain ⟨friends, single, _⟩ := leaves (.compare friendsName .eq (.literal (.text "Bob"))) List.mem_cons_self
  obtain ⟨items, same, path, each⟩ := leaves (.containsAll addresses (.literal (.collection [inRome, .null])))
    (List.mem_cons_of_mem _ List.mem_cons_self)
  cases same
  obtain ⟨known, collection⟩ := path (by simp [Value.flattenAll, Value.flatten, inRome])
  have once : ∀ k ∈ Value.flattenAll [inRome, .null], k.NamedOnce := by
    simp [Value.flattenAll, Value.flatten, inRome, Value.NamedOnce, Value.FieldsNamedOnce]
  have element := each inRome (by simp [Value.flattenAll, Value.flatten, inRome])
  exact ⟨⟨q, compiled⟩, orders ⟨name, .ascending⟩ List.mem_cons_self, friends, single, known, collection,
    element.resolve_right fun ⟨k, mem, twice, _⟩ => twice (once k mem)⟩

def nowhere : PropertyPath := .of ⟨"Person", "nowhere"⟩

def twoHomes : Value := .collection [
  .composite "Address" [(⟨"Address", "city"⟩, .text "Rome"), (⟨"Address", "city"⟩, .text "Rome")],
  .composite "Address" [(⟨"Address", "city"⟩, .text "Rome"), (⟨"Address", "street"⟩, .text "Via Appia")]]

def ofLeaf (l : Leaf) : Request := ⟨"Person", some (.leaf l), [], none, none⟩

theorem unmappedNamesCompile :
    (∃ q, people.compileRows (ofLeaf (.containsAll nowhere (.literal (.collection [])))) = .ok q) ∧
    ¬people.Mapped nowhere.last ∧
    (∃ q, people.compileRows (ofLeaf (.containsAll addresses (.literal twoHomes))) = .ok q) ∧
    ¬people.Mapped ⟨"Address", "street"⟩ := by
  have unmapped {n : QualifiedName} (none : people.schema.tableOf n = none) : ¬people.Mapped n :=
    fun ⟨t, found⟩ => by rw [none] at found; cases found
  exact ⟨⟨_, rfl⟩, unmapped rfl, ⟨_, rfl⟩, unmapped rfl⟩

end ResolvedSample
end ObjectQuery
