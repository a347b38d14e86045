import ObjectQuery.Plan.Selection
import ObjectQuery.Proofs.Text

/-! Texts with a `?` for every parameter. Filling puts other texts in place of these, from left to
right; texts next to each other are filled one by one. -/
namespace ObjectQuery

def fill : List Char → List String → List Char
  | [], _ => []
  | c :: rest, tokens =>
    if c = '?' then
      match tokens with
      | [] => c :: fill rest []
      | t :: tokens => t.toList ++ fill rest tokens
    else c :: fill rest tokens

structure Fills (template : String) (tokens : List String) (text : String) : Prop where
  holes : template.toList.count '?' = tokens.length
  filled : fill template.toList tokens = text.toList

def Plain (s : String) : Prop := s.toList.contains '?' = false

theorem plainIff {s : String} : Plain s ↔ '?' ∉ s.toList := by simp [Plain]

theorem fillAppend {l r : List Char} {ts us : List String} (holes : l.count '?' = ts.length) :
    fill (l ++ r) (ts ++ us) = fill l ts ++ fill r us := by
  induction l generalizing ts with
  | nil =>
    obtain rfl := List.eq_nil_of_length_eq_zero holes.symm
    rfl
  | cons c rest ih =>
    by_cases hole : c = '?'
    · subst hole
      cases ts with
      | nil => simp at holes
      | cons t ts =>
        have counted : rest.count '?' = ts.length := by simpa using holes
        simp [fill, ih counted]
    · have counted : rest.count '?' = ts.length := by simpa [List.count_cons, hole] using holes
      simp [fill, hole, ih counted]

theorem fillPlain {l : List Char} (plain : '?' ∉ l) : fill l [] = l := by
  induction l with
  | nil => rfl
  | cons c rest ih =>
    have other : c ≠ '?' := fun same => plain (by simp [same])
    simp [fill, other, ih fun mem => plain (List.mem_cons_of_mem _ mem)]

theorem plainAppend {s t : String} : Plain (s ++ t) ↔ Plain s ∧ Plain t := by
  simp [plainIff, String.toList_append]

theorem plainKept : KeptByAppend Plain := ⟨rfl, fun first next => plainAppend.mpr ⟨first, next⟩⟩

theorem plainNat (n : Nat) : Plain (toString n) := by
  refine plainIff.mpr fun mem => ?_
  have digit := digitOfNat mem
  revert digit
  decide

theorem plainInt (i : Int) : Plain (toString i) := by
  rw [Int.toString_eq_repr]
  unfold Int.repr
  split
  · exact plainNat _
  · exact plainAppend.mpr ⟨rfl, plainNat _⟩

namespace Fills

variable {s t a b : String} {ts us : List String}

theorem append (first : Fills s ts a) (next : Fills t us b) : Fills (s ++ t) (ts ++ us) (a ++ b) := by
  constructor
  · rw [String.toList_append, List.count_append, first.holes, next.holes, List.length_append]
  · rw [String.toList_append, fillAppend first.holes, first.filled, next.filled, String.toList_append]

theorem plain (plain : Plain s) : Fills s [] s :=
  ⟨List.count_eq_zero.mpr (plainIff.mp plain), fillPlain (plainIff.mp plain)⟩

theorem hole (token : String) : Fills "?" [token] token := by
  refine ⟨rfl, ?_⟩
  change token.toList ++ [] = token.toList
  rw [List.append_nil]

theorem before (plain : Plain s) (next : Fills t ts a) : Fills (s ++ t) ts (s ++ a) :=
  (Fills.plain plain).append next

theorem after (first : Fills t ts a) (plain : Plain s) : Fills (t ++ s) ts (a ++ s) := by
  have both := first.append (Fills.plain plain)
  rwa [List.append_nil] at both

end Fills

inductive FillsEach : List String → List String → List String → Prop where
  | nil : FillsEach [] [] []
  | cons {s ts a ss us as} (first : Fills s ts a) (rest : FillsEach ss us as) :
      FillsEach (s :: ss) (ts ++ us) (a :: as)

namespace FillsEach

variable {ss ts as : List String}

theorem intercalate {separator : String} (between : Plain separator) (each : FillsEach ss ts as) :
    Fills (separator.intercalate ss) ts (separator.intercalate as) := by
  induction each with
  | nil => exact .plain rfl
  | cons first rest ih =>
    cases rest with
    | nil => simpa using first
    | cons second rest =>
      rw [String.intercalate_cons_cons, String.intercalate_cons_cons]
      exact (first.after between).append ih

theorem clause {keyword separator : String} (start : Plain keyword) (between : Plain separator)
    (each : FillsEach ss ts as) :
    Fills (Sql.Select.clause keyword separator ss) ts (Sql.Select.clause keyword separator as) := by
  have joined := (each.intercalate between).before start
  cases each with
  | nil => exact .plain rfl
  | cons first rest => exact joined

end FillsEach

end ObjectQuery
