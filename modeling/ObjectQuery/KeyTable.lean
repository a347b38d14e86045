/-! Tables by name, in the order of the keys. -/
namespace ObjectQuery

structure KeyTable (α : Type) where
  entries : List (String × α)
  sorted : (entries.map Prod.fst).Pairwise (· < ·)
  deriving DecidableEq, Repr

theorem lookupIff {κ α : Type} [BEq κ] [LawfulBEq κ] {entries : List (κ × α)} (distinct : (entries.map Prod.fst).Nodup)
    {key : κ} {value : α} : entries.lookup key = some value ↔ (key, value) ∈ entries := by
  induction entries with
  | nil => simp
  | cons e rest ih =>
    obtain ⟨new, distinct⟩ := List.nodup_cons.mp distinct
    rw [List.lookup_cons, List.mem_cons]
    split
    · next same =>
      obtain rfl : key = e.1 := by simpa using same
      have absent : (e.1, value) ∉ rest := fun mem => new (List.mem_map.mpr ⟨_, mem, rfl⟩)
      simp [absent, Prod.ext_iff, eq_comm]
    · next other =>
      have other : key ≠ e.1 := by simpa using other
      rw [ih distinct]
      simp [Prod.ext_iff, other]

namespace KeyTable

variable {α : Type}

def empty : KeyTable α := ⟨[], .nil⟩

def keys (t : KeyTable α) : List String := t.entries.map Prod.fst

def get? (t : KeyTable α) (key : String) : Option α := t.entries.lookup key

theorem distinct (t : KeyTable α) : (t.entries.map Prod.fst).Nodup := by
  have apart (a b : String) (before : a < b) : a ≠ b := by
    rintro rfl
    exact String.lt_irrefl a before
  exact t.sorted.imp (apart _ _)

theorem get?Iff {t : KeyTable α} {key : String} {value : α} :
    t.get? key = some value ↔ (key, value) ∈ t.entries := lookupIff t.distinct

def insert (key : String) (value : α) : List (String × α) → List (String × α)
  | [] => [(key, value)]
  | e :: rest =>
    if key < e.1 then (key, value) :: e :: rest
    else if key = e.1 then (key, value) :: rest
    else e :: insert key value rest

theorem insertedKey {key k : String} {value : α} {entries : List (String × α)}
    (mem : k ∈ (insert key value entries).map Prod.fst) : k = key ∨ k ∈ entries.map Prod.fst := by
  induction entries with
  | nil => exact .inl (List.mem_singleton.mp mem)
  | cons e rest ih =>
    unfold insert at mem
    split at mem
    · exact List.mem_cons.mp mem
    · split at mem
      · exact (List.mem_cons.mp mem).imp_right (List.mem_cons_of_mem _)
      · rcases List.mem_cons.mp mem with first | later
        · exact .inr (first ▸ List.mem_cons_self)
        · exact (ih later).imp_right (List.mem_cons_of_mem _)

theorem insertSorted (key : String) (value : α) {entries : List (String × α)}
    (sorted : (entries.map Prod.fst).Pairwise (· < ·)) :
    ((insert key value entries).map Prod.fst).Pairwise (· < ·) := by
  induction entries with
  | nil => exact .cons nofun .nil
  | cons e rest ih =>
    obtain ⟨least, others⟩ := List.pairwise_cons.mp sorted
    unfold insert
    split
    · next before =>
      refine .cons (fun k mem => ?_) sorted
      rcases List.mem_cons.mp mem with rfl | mem
      · exact before
      · exact String.lt_trans before (least k mem)
    · next notBefore =>
      split
      · next same => exact .cons (fun k mem => same ▸ least k mem) others
      · next other =>
        have after : e.1 < key := Std.lt_of_le_of_ne (String.not_lt.mp notBefore) (Ne.symm other)
        refine .cons (fun k mem => ?_) (ih others)
        rcases insertedKey mem with rfl | mem
        · exact after
        · exact least k mem

def put (t : KeyTable α) (key : String) (value : α) : KeyTable α :=
  ⟨insert key value t.entries, insertSorted key value t.sorted⟩

def ofList (entries : List (String × α)) : KeyTable α :=
  entries.foldl (fun t e => t.put e.1 e.2) empty

end KeyTable
end ObjectQuery
