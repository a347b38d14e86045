import Mathlib.Data.List.Dedup
import Mathlib.Data.Set.Lattice
import ObjectQuery.Plan.Selection
import ObjectQuery.Proofs.SetAlgebra

/-! Stores, and the rows that a selection yields over one: its joins in order, then the rows on
which every test is true, then the groups that a division keeps. A comparison with null is unknown,
and an unknown test does not pass. -/
namespace ObjectQuery

variable {V : Type}

abbrev Truth := Option Bool

namespace Truth

def and : Truth → Truth → Truth
  | some false, _ => some false
  | some true, t => t
  | none, some false => some false
  | none, _ => none

def or : Truth → Truth → Truth
  | some true, _ => some true
  | some false, t => t
  | none, some true => some true
  | none, _ => none

def all (ts : List Truth) : Truth := ts.foldr and (some true)

def any (ts : List Truth) : Truth := ts.foldr or (some false)

theorem allTrue (ts : List Truth) : all ts = some true ↔ ∀ t ∈ ts, t = some true := by
  induction ts with
  | nil => simp [all]
  | cons t rest ih =>
    simp only [List.forall_mem_cons, ← ih]
    change and t (all rest) = _ ↔ _
    rcases t with _ | _ | _ <;> cases all rest with
    | none => simp [and]
    | some b => cases b <;> simp [and]

theorem anyTrue (ts : List Truth) : any ts = some true ↔ ∃ t ∈ ts, t = some true := by
  induction ts with
  | nil => simp [any]
  | cons t rest ih =>
    simp only [List.mem_cons, exists_eq_or_imp, ← ih]
    change or t (any rest) = _ ↔ _
    rcases t with _ | _ | _ <;> cases any rest with
    | none => simp [or]
    | some b => cases b <;> simp [or]

end Truth

abbrev Row (V : Type) := String → Option V

def Row.null : Row V := fun _ => none

structure Store (l : Layout) (V : Type) where
  rows : String → List (Row V)
  distinctKeys : ∀ a ∈ rows (l.qualified l.entityTable), ∀ b ∈ rows (l.qualified l.entityTable),
    a l.entityKey = b l.entityKey → a = b

def Store.entities {l : Layout} (db : Store l V) : List (Row V) := db.rows (l.qualified l.entityTable)

structure Interpretation (V : Type) where
  isType : V → Int32 → Bool
  compare : V → Operator → BoundParameter → Bool
  pathMatches : V → String → Bool

abbrev Joined (V : Type) := Alias → Row V

def Joined.with (e : Joined V) (a : Alias) (r : Row V) : Joined V := fun b => if b = a then r else e b

def Column.read (c : Column) (e : Joined V) : Option V := e c.table c.name

def Equation.truth [DecidableEq V] (e : Joined V) (q : Equation) : Truth :=
  match q.left.read e, q.right.read e with
  | some v, some w => some (decide (v = w))
  | _, _ => none

namespace Test

mutual
def truth (I : Interpretation V) (e : Joined V) : Test → Truth
  | .never => some false
  | .typeAmong c ids => (c.read e).map fun v => ids.any (I.isType v)
  | .isNull c => some (c.read e).isNone
  | .compare c o p => if p.value.isNull then none else (c.read e).map fun v => I.compare v o p
  | .pathMatches c pattern => (c.read e).map fun v => I.pathMatches v pattern
  | .all ts => .all (truths I e ts)
  | .any ts => .any (truths I e ts)
def truths (I : Interpretation V) (e : Joined V) : List Test → List Truth
  | [] => []
  | t :: ts => truth I e t :: truths I e ts
end

theorem truthsMap (I : Interpretation V) (e : Joined V) (ts : List Test) : truths I e ts = ts.map (truth I e) := by
  induction ts with
  | nil => rfl
  | cons t ts ih => rw [truths, ih, List.map_cons]

def Passes (I : Interpretation V) (e : Joined V) (t : Test) : Prop := t.truth I e = some true

instance (I : Interpretation V) (e : Joined V) (t : Test) : Decidable (t.Passes I e) :=
  inferInstanceAs (Decidable (t.truth I e = some true))

theorem passesAll (I : Interpretation V) (e : Joined V) (ts : List Test) :
    (Test.all ts).Passes I e ↔ ∀ t ∈ ts, t.Passes I e := by
  simp [Passes, truth, truthsMap, Truth.allTrue]

theorem passesAny (I : Interpretation V) (e : Joined V) (ts : List Test) :
    (Test.any ts).Passes I e ↔ ∃ t ∈ ts, t.Passes I e := by
  simp [Passes, truth, truthsMap, Truth.anyTrue]

end Test

section
variable [DecidableEq V] {l : Layout}

namespace Join

def matching (db : Store l V) (j : Join) (e : Joined V) : List (Joined V) :=
  ((db.rows j.table).map (e.with j.tableAlias)).filter fun e =>
    Truth.all (j.on.map (Equation.truth e)) = some true

def extend (db : Store l V) (j : Join) (e : Joined V) : List (Joined V) :=
  match j.kind, j.matching db e with
  -- a row without a match is kept, next to nulls
  | .left, [] => [e.with j.tableAlias Row.null]
  | _, found => found

def extendAll (db : Store l V) : List Join → Joined V → List (Joined V)
  | [], e => [e]
  | j :: rest, e => (j.extend db e).flatMap (extendAll db rest)

end Join

def Test.firstPassed (I : Interpretation V) (tests : List Test) (e : Joined V) : Option Nat :=
  (tests.findIdx? fun t => t.Passes I e).map (· + 1)

def Division.Holds (I : Interpretation V) (d : Division) (group : List (Joined V)) : Prop :=
  d.required ≤ match d.tally with
    | .values c => (group.filterMap c.read).dedup.length
    | .matches tests => (group.filterMap (Test.firstPassed I tests)).dedup.length

instance (I : Interpretation V) (d : Division) (group) : Decidable (d.Holds I group) :=
  inferInstanceAs (Decidable (_ ≤ _))

namespace Selection

def pair (l : Layout) (s : Selection) (e : Joined V) : Option V × Option V :=
  ((l.keyOf s.root).read e, (l.identityOf s.root).read e)

def joined (db : Store l V) (s : Selection) : List (Joined V) :=
  db.entities.flatMap fun r => Join.extendAll db s.joins (Joined.with (fun _ => Row.null) s.root r)

def passing (I : Interpretation V) (db : Store l V) (s : Selection) : List (Joined V) :=
  (s.joined db).filter fun e => (Test.all (l.typeTest s.typeIds s.root :: s.tests)).Passes I e

def answer (I : Interpretation V) (db : Store l V) (s : Selection) : List (Option V × Option V) :=
  let rows := s.passing I db
  let kept := match s.division with
    | none => rows
    | some d => rows.filter fun e => d.Holds I (rows.filter fun e' => s.pair l e' = s.pair l e)
  (kept.map (s.pair l)).dedup

def selected (I : Interpretation V) (db : Store l V) (s : Selection) : Set (Option V × Option V) :=
  {x | x ∈ s.answer I db}

end Selection
end
end ObjectQuery
