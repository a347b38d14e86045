import ObjectQuery.Proofs.SqlText

/-! The items of a text that is put together from pieces. Pieces with a blank or a mark between them are taken
apart as each of them alone, whatever stands around them. -/
namespace ObjectQuery.SqlText

def breaks (c : Char) : Bool := c == ' ' || isMark c

def quotedAfter (quoted : Bool) (text : List Char) : Bool :=
  text.foldl (fun q c => if c = '\'' then !q else q) quoted

def startsApart (s : String) : Bool := s.toList.head?.all breaks

theorem startsApartAppend {s : String} (t : String) (some : s ≠ "") : startsApart (s ++ t) = startsApart s := by
  have some : s.toList ≠ [] := fun empty => some (String.toList_eq_nil_iff.mp empty)
  rw [startsApart, startsApart, String.toList_append, List.head?_append_of_ne_nil _ some]

def endsApart (s : String) : Bool := s.toList.getLast?.all breaks

theorem wordsFromAppend {a b : List Char} {quoted : Bool} {word : List Char} (closed : quotedAfter quoted a = false)
    (apart : b.head?.all breaks = true) :
    wordsFrom quoted word (a ++ b) = wordsFrom quoted word a ++ wordsFrom false [] b := by
  induction a generalizing quoted word with
  | nil =>
    obtain rfl : quoted = false := closed
    cases b with
    | nil => simp [wordsFrom, ended]
    | cons c rest =>
      have blank : c = ' ' ∨ isMark c = true := by simpa [breaks] using apart
      have unquoted : c ≠ '\'' := by
        rintro rfl
        rcases blank with same | mark
        · exact absurd same (by decide)
        · exact absurd mark (by decide)
      rcases blank with rfl | mark
      · simp [wordsFrom, ended]
      · by_cases space : c = ' '
        · simp [wordsFrom, space, ended]
        · simp [wordsFrom, unquoted, space, mark, ended]
  | cons c rest ih =>
    rw [List.cons_append, wordsFrom, wordsFrom]
    rw [quotedAfter, List.foldl_cons] at closed
    by_cases quote : c = '\''
    · simp only [if_pos quote] at closed ⊢
      exact ih closed
    · simp only [if_neg quote] at closed ⊢
      have ih {word : List Char} := @ih quoted word closed
      cases quoted with
      | true => exact ih
      | false =>
        simp only [Bool.false_eq_true, if_false]
        split
        · rw [ih, List.append_assoc]
        · split
          · rw [ih, List.append_assoc, List.cons_append]
          · exact ih

theorem wordsBefore {a b : String} (closed : quotedAfter false a.toList = false) (apart : startsApart b = true) :
    words (a ++ b) = words a ++ words b := by
  rw [words, String.toList_append]
  exact wordsFromAppend closed apart

theorem wordsAfter {a b : String} (closed : quotedAfter false a.toList = false) (apart : endsApart a = true) :
    words (a ++ b) = words a ++ words b := by
  rcases List.eq_nil_or_concat a.toList with empty | ⟨before, c, same⟩
  · rw [words, words, String.toList_append, empty]
    rfl
  · have ends : breaks c = true := by simpa [endsApart, same] using apart
    have unquoted : c ≠ '\'' := by
      rintro rfl
      exact absurd ends (by decide)
    have first : quotedAfter false before = false := by simpa [quotedAfter, same, unquoted] using closed
    have alone : quotedAfter false [c] = false := by simp [quotedAfter, unquoted]
    -- the character that ends the first text is cut off with the second one, where the words part
    have split := @wordsFromAppend before (c :: b.toList) false [] first (by simpa using ends)
    have last := @wordsFromAppend before [c] false [] first (by simpa using ends)
    have mark : wordsFrom false [] (c :: b.toList) = wordsFrom false [] [c] ++ wordsFrom false [] b.toList := by
      by_cases space : c = ' '
      · simp [wordsFrom, space, ended]
      · have mark : isMark c = true := by simpa [breaks, space] using ends
        simp [wordsFrom, unquoted, space, mark, ended]
    rw [words, words, words, String.toList_append, same]
    simp only [List.concat_eq_append, List.append_assoc, List.singleton_append]
    rw [split, last, mark, List.append_assoc]

theorem quotedAppend (a b : String) (quoted : Bool) :
    quotedAfter quoted (a ++ b).toList = quotedAfter (quotedAfter quoted a.toList) b.toList := by
  rw [String.toList_append, quotedAfter, List.foldl_append]
  rfl

structure Whole (w : String) : Prop where
  some : w ≠ ""
  each : ∀ c ∈ w.toList, breaks c = false ∧ c ≠ '\'' ∧ c ≠ '?'

theorem Whole.checked {w : String} (some : w ≠ "")
    (each : (w.toList.all fun c => !breaks c && c != '\'' && c != '?') = true) : Whole w where
  some := some
  each c mem := by simpa [and_assoc] using List.all_eq_true.mp each c mem

theorem unquotedAfter {text : List Char} (free : '\'' ∉ text) (quoted : Bool) : quotedAfter quoted text = quoted := by
  induction text with
  | nil => rfl
  | cons c rest ih =>
    rw [quotedAfter, List.foldl_cons, if_neg fun same => List.ne_of_not_mem_cons free same.symm]
    exact ih (List.not_mem_of_not_mem_cons free)

theorem wordsFromWhole {text word : List Char} (each : ∀ c ∈ text, breaks c = false ∧ c ≠ '\'' ∧ c ≠ '?') :
    wordsFrom false word text = ended (word ++ text) := by
  induction text generalizing word with
  | nil => rw [wordsFrom, List.append_nil]
  | cons c rest ih =>
    obtain ⟨⟨inside, unquoted, _⟩, others⟩ := List.forall_mem_cons.mp each
    obtain ⟨space, mark⟩ : c ≠ ' ' ∧ isMark c = false := by simpa [breaks] using inside
    simp [wordsFrom, unquoted, space, mark, ih others]

theorem Whole.words {w : String} (whole : Whole w) : words w = [w] := by
  have some : w.toList ≠ [] := fun empty => whole.some (String.toList_eq_nil_iff.mp empty)
  rw [SqlText.words, wordsFromWhole whole.each, List.nil_append, ended, if_neg (by simpa using some), String.ofList_toList]

theorem wordsFromQuoted {inside word : List Char} (free : '\'' ∉ inside) :
    wordsFrom true word (inside ++ ['\'']) = ended (word ++ inside ++ ['\'']) := by
  induction inside generalizing word with
  | nil => simp [wordsFrom]
  | cons c rest ih =>
    have unquoted : c ≠ '\'' := fun same => List.ne_of_not_mem_cons free same.symm
    simp [wordsFrom, unquoted, ih (List.not_mem_of_not_mem_cons free)]

theorem wordsQuoted {s : String} (free : '\'' ∉ s.toList) : words ("'" ++ s ++ "'") = ["'" ++ s ++ "'"] := by
  have text : ("'" ++ s ++ "'").toList = '\'' :: (s.toList ++ ['\'']) := by simp
  have inside : wordsFrom false [] ('\'' :: (s.toList ++ ['\''])) = wordsFrom true ['\''] (s.toList ++ ['\'']) := by
    simp [wordsFrom]
  rw [words, text, inside, wordsFromQuoted free, ended, if_neg (by simp)]
  exact congrArg (fun w => [w]) (String.toList_inj.mp (by simp))

variable {V : Type} [DecidableEq V] {l : Layout} (I : Interpretation V) (db : Store l V)

/-- The items of a text and the parameters that it takes, wherever the text stands apart from what is around it. -/
structure Reads (text : String) (parameters : List BoundParameter) (items : List (Item V)) : Prop where
  closed : quotedAfter false text.toList = false
  pushed : ∀ frame outer later, (words text).foldlM (push I db) ⟨frame :: outer, parameters ++ later⟩ =
    some ⟨(frame ++ items) :: outer, later⟩

structure Glue (s : String) (ws : List String) : Prop where
  words : words s = ws := by rfl
  some : s ≠ "" := by decide
  starts : startsApart s = true := by rfl
  ends : endsApart s = true := by rfl
  closed : quotedAfter false s.toList = false := by rfl
  plain : ∀ w ∈ ws, w ≠ "(" ∧ w ≠ ")" ∧ w ≠ "?" := by decide

theorem blankGlue : Glue " " [] := {}

theorem commaGlue : Glue ", " [","] := {}

theorem amongGlue : Glue " IN " ["IN"] := {}

variable {I db} {a b g : String} {ps qs : List BoundParameter} {is js : List (Item V)} {ws : List String}

namespace Reads

theorem items (reads : Reads I db a ps is) : items? I db a ps = some is := by
  have pushed := reads.pushed [] [] []
  rw [List.append_nil] at pushed
  rw [items?, pushed]
  rfl

theorem nil : Reads I db "" [] [] where
  closed := rfl
  pushed frame outer later := by
    change some _ = _
    simp

theorem same (reads : Reads I db a ps is) (text : a = b) (parameters : ps = qs) (items : is = js) :
    Reads I db b qs js := text ▸ parameters ▸ items ▸ reads

theorem append (first : Reads I db a ps is) (next : Reads I db b qs js)
    (apart : startsApart b = true ∨ endsApart a = true) : Reads I db (a ++ b) (ps ++ qs) (is ++ js) where
  closed := by rw [quotedAppend, first.closed, next.closed]
  pushed frame outer later := by
    have split : words (a ++ b) = words a ++ words b :=
      apart.elim (wordsBefore first.closed) (wordsAfter first.closed)
    rw [split, List.foldlM_append, List.append_assoc, first.pushed]
    change (words b).foldlM (push I db) _ = _
    rw [next.pushed, List.append_assoc]

theorem plain (ws : List String) (split : words a = ws) (closed : quotedAfter false a.toList = false)
    (plain : ∀ w ∈ ws, w ≠ "(" ∧ w ≠ ")" ∧ w ≠ "?" := by decide) : Reads I db a [] (ws.map .word) where
  closed := closed
  pushed frame outer later := by
    rw [split]
    clear split
    induction ws generalizing frame with
    | nil => simp
    | cons w ws ih =>
      obtain ⟨⟨opens, closes, hole⟩, others⟩ := List.forall_mem_cons.mp plain
      have pushed : push I db ⟨frame :: outer, [] ++ later⟩ w = some ⟨(frame ++ [.word w]) :: outer, [] ++ later⟩ := by
        simp [push, opens, closes, hole]
      rw [List.foldlM_cons, pushed]
      refine (ih others (frame ++ [.word w])).trans ?_
      simp

theorem whole (whole : Whole a) : Reads I db a [] [.word a] := by
  have plain : ∀ w ∈ [a], w ≠ "(" ∧ w ≠ ")" ∧ w ≠ "?" := by
    refine List.forall_mem_singleton.mpr ⟨?_, ?_, ?_⟩
    · rintro rfl
      exact absurd (whole.each '(' (by simp)).1 (by decide)
    · rintro rfl
      exact absurd (whole.each ')' (by simp)).1 (by decide)
    · rintro rfl
      exact (whole.each '?' (by simp)).2.2 rfl
  refine .plain [a] whole.words (unquotedAfter (fun mem => ?_) false) plain
  exact (whole.each '\'' mem).2.1 rfl

theorem quoted {s : String} (free : '\'' ∉ s.toList) : Reads I db ("'" ++ s ++ "'") [] [.word ("'" ++ s ++ "'")] := by
  have other {w : String} (start : w.toList.head? ≠ some '\'') : "'" ++ s ++ "'" ≠ w := by
    rintro rfl
    exact start (by simp)
  have plain : ∀ w ∈ ["'" ++ s ++ "'"], w ≠ "(" ∧ w ≠ ")" ∧ w ≠ "?" :=
    List.forall_mem_singleton.mpr ⟨other (by simp), other (by simp), other (by simp)⟩
  refine .plain _ (wordsQuoted free) ?_ plain
  rw [quotedAppend, quotedAppend, unquotedAfter free]
  rfl

theorem hole (p : BoundParameter) : Reads I db "?" [p] [.hole p] where
  closed := rfl
  pushed _ _ _ := rfl

theorem group (inside : Reads I db a ps is) :
    Reads I db ("(" ++ a ++ ")") ps [.group is (condition? I is) (query? I db is)] where
  closed := by
    rw [quotedAppend, quotedAppend]
    change quotedAfter (quotedAfter false a.toList) ")".toList = false
    rw [inside.closed]
    rfl
  pushed frame outer later := by
    have opened : quotedAfter false ("(" ++ a).toList = false := by
      rw [quotedAppend]
      exact inside.closed
    have split : words ("(" ++ a ++ ")") = "(" :: (words a ++ [")"]) := by
      rw [wordsBefore opened rfl, wordsAfter (a := "(") rfl rfl]
      rfl
    have start : push I db ⟨frame :: outer, ps ++ later⟩ "(" = some ⟨[] :: frame :: outer, ps ++ later⟩ := rfl
    rw [split, List.foldlM_cons, start]
    change (words a ++ [")"]).foldlM (push I db) _ = _
    rw [List.foldlM_append, inside.pushed]
    rfl

theorem between (first : Reads I db a ps is) (glue : Glue g ws) (next : Reads I db b qs js) :
    Reads I db (a ++ g ++ b) (ps ++ qs) (is ++ ws.map .word ++ js) := by
  have middle : Reads I db g [] (ws.map .word) := .plain ws glue.words glue.closed glue.plain
  have both := first.append middle (.inl glue.starts)
  rw [List.append_nil] at both
  refine both.append next (.inr ?_)
  have some : g.toList ≠ [] := fun empty => glue.some (String.toList_eq_nil_iff.mp empty)
  rw [endsApart, String.toList_append, List.getLast?_append_of_ne_nil _ some]
  exact glue.ends

theorem intercalate {ι : Type} {ts : List ι} {text : ι → String} {parameters : ι → List BoundParameter}
    {items : ι → List (Item V)} (glue : Glue g ws) (each : ∀ t ∈ ts, Reads I db (text t) (parameters t) (items t)) :
    Reads I db (g.intercalate (ts.map text)) (ts.flatMap parameters) ((ws.map Item.word).intercalate (ts.map items)) := by
  induction ts with
  | nil => exact .nil
  | cons t rest ih =>
    obtain ⟨first, others⟩ := List.forall_mem_cons.mp each
    cases rest with
    | nil => simpa using first
    | cons u rest =>
      have both := first.between glue (ih others)
      simpa [String.intercalate_cons_cons, List.intercalate_cons_cons] using both

end Reads

end ObjectQuery.SqlText
