import ObjectQuery.Proofs.Ordinary

/-! Texts put together from ordinary characters, placeholders, one pattern, lists of type ids and groups.
What such a text cannot hold follows from how it is put together. -/
namespace ObjectQuery

def quotedPattern (label : String) : String := "'" ++ label ++ ".*\x7b1,\x7d'"

def typeList (ids : List Int32) : String := ", ".intercalate (ids.map (toString ·.toInt))

inductive Trusted (label : String) (ids : List Int32) : String → Prop where
  | ordinary {s} (ordinary : Ordinary s) : Trusted label ids s
  | placeholder : Trusted label ids "?"
  | pattern : Trusted label ids (quotedPattern label)
  | types (some : ids ≠ []) : Trusted label ids ("(" ++ typeList ids ++ ")")
  | group {s} (inside : Trusted label ids s) (some : s ≠ "") : Trusted label ids ("(" ++ s ++ ")")
  | append {s t} (first : Trusted label ids s) (next : Trusted label ids t) : Trusted label ids (s ++ t)

structure Digits (l : List Char) : Prop where
  each : ∀ c ∈ l, c.isDigit = true
  some : l ≠ []

theorem digitsNat (n : Nat) : Digits (toString n).toList := by
  have some : (toString n).toList ≠ [] := by
    rw [Nat.toString_eq_ofList_toDigits, String.toList_ofList]
    exact Nat.toDigits_ne_nil
  exact ⟨fun _ mem => digitOfNat mem, some⟩

theorem Digits.unsigned {l : List Char} (digits : Digits l) : '-' ∉ l := by
  intro mem
  have digit := digits.each '-' mem
  revert digit
  decide

theorem numberText (i : Int) : ∃ digits, Digits digits ∧
    ((toString i).toList = digits ∨ (toString i).toList = '-' :: digits) := by
  rw [Int.toString_eq_repr]
  cases i with
  | ofNat n => exact ⟨_, digitsNat n, .inl rfl⟩
  | negSucc n => exact ⟨_, digitsNat (n + 1), .inr (by simp [Int.repr])⟩

def StartsWithId (ids : List Int32) (l : List Char) : Prop :=
  ∃ id ∈ ids, ∃ d rest, l = (toString id.toInt).toList ++ d :: rest ∧ (d = ',' ∨ d = ')')

def SignsIds (ids : List Int32) (l : List Char) : Prop :=
  ∀ before after, l = before ++ '-' :: after → StartsWithId ids ('-' :: after)

namespace SignsIds

variable {ids : List Int32} {l m : List Char}

theorem absent (none : '-' ∉ l) : SignsIds ids l := by
  intro before after same
  exact absurd (by simp [same]) none

theorem append (first : SignsIds ids l) (next : SignsIds ids m) : SignsIds ids (l ++ m) := by
  intro before after same
  rcases List.append_eq_append_iff.mp same with ⟨more, rfl, rest⟩ | ⟨more, split, rest⟩
  · exact next more after rest
  · cases more with
    | nil => exact next [] after rest.symm
    | cons c more =>
      obtain ⟨rfl, rfl⟩ := List.cons.inj rest
      obtain ⟨id, mem, d, tail, text, ends⟩ := first before more split
      have longer : ('-' :: more) ++ m = (toString id.toInt).toList ++ d :: (tail ++ m) := by
        rw [text, List.append_assoc]
        rfl
      exact ⟨id, mem, d, tail ++ m, longer, ends⟩

theorem number {id : Int32} {d : Char} (mem : id ∈ ids) (ends : d = ',' ∨ d = ')')
    (next : SignsIds ids (d :: m)) : SignsIds ids ((toString id.toInt).toList ++ d :: m) := by
  obtain ⟨digits, isNumber, text⟩ := numberText id.toInt
  have unsigned := isNumber.unsigned
  rcases text with plain | signed
  · rw [plain]
    exact (absent unsigned).append next
  · intro before after same
    cases before with
    | nil => exact ⟨id, mem, d, m, same.symm, ends⟩
    | cons c before =>
      -- the digits hold no further sign
      rw [signed] at same
      obtain ⟨_, rest⟩ := List.cons.inj same
      exact (absent unsigned).append next before after rest

theorem typeList {xs : List Int32} (some : xs ≠ []) (inside : ∀ id ∈ xs, id ∈ ids) :
    SignsIds ids ((ObjectQuery.typeList xs).toList ++ [')']) := by
  have close : SignsIds ids [')'] := absent (by decide)
  induction xs with
  | nil => exact absurd rfl some
  | cons id rest ih =>
    have mem := inside id List.mem_cons_self
    cases rest with
    | nil =>
      have only : (ObjectQuery.typeList [id]).toList = (toString id.toInt).toList := by simp [ObjectQuery.typeList]
      rw [only]
      exact number mem (.inr rfl) close
    | cons other rest =>
      have ih := ih (by simp) fun x later => inside x (List.mem_cons_of_mem _ later)
      have text : (ObjectQuery.typeList (id :: other :: rest)).toList ++ [')'] = (toString id.toInt).toList ++
          ',' :: ([' '] ++ ((ObjectQuery.typeList (other :: rest)).toList ++ [')'])) := by
        simp [ObjectQuery.typeList, String.intercalate_cons_cons]
      rw [text]
      exact number mem (.inl rfl) ((absent (l := [',', ' ']) (by decide)).append ih)

end SignsIds

structure Balanced (l : List Char) : Prop where
  closed : l.count '(' = l.count ')'
  opened : ∀ before after, l = before ++ after → before.count ')' ≤ before.count '('

namespace Balanced

variable {l m : List Char}

theorem free (noOpen : '(' ∉ l) (noClose : ')' ∉ l) : Balanced l := by
  have zero : ∀ before after, l = before ++ after → before.count ')' = 0 := by
    intro before after same
    exact List.count_eq_zero.mpr fun mem => noClose (same ▸ List.mem_append_left _ mem)
  refine ⟨by rw [List.count_eq_zero.mpr noOpen, List.count_eq_zero.mpr noClose], fun before after same => ?_⟩
  rw [zero before after same]
  exact Nat.zero_le _

theorem append (first : Balanced l) (next : Balanced m) : Balanced (l ++ m) := by
  refine ⟨by rw [List.count_append, List.count_append, first.closed, next.closed], fun before after same => ?_⟩
  rcases List.append_eq_append_iff.mp same with ⟨more, rfl, rest⟩ | ⟨more, split, rest⟩
  · have here := next.opened more after rest
    have whole := first.closed
    rw [List.count_append, List.count_append]
    omega
  · exact first.opened before more split

theorem group (inside : Balanced l) : Balanced ('(' :: (l ++ [')'])) := by
  have whole := inside.closed
  refine ⟨by simp [whole], fun before after same => ?_⟩
  cases before with
  | nil => exact Nat.le_refl _
  | cons c before =>
    obtain ⟨rfl, rest⟩ := List.cons.inj same
    rcases List.append_eq_append_iff.mp rest with ⟨more, rfl, last⟩ | ⟨more, split, _⟩
    · -- at most the last character closes what the first one opened
      have short : more.count ')' ≤ 1 := by
        have count := congrArg (List.count ')') last
        rw [List.count_append] at count
        have one : [')'].count ')' = 1 := by decide
        omega
      simp only [List.count_cons, List.count_append, beq_self_eq_true, if_true]
      have other : ('(' == ')') = false := by decide
      rw [other]
      simp only [Bool.false_eq_true, if_false]
      omega
    · have here := inside.opened before more split
      have other : ('(' == ')') = false := by decide
      simp only [List.count_cons, beq_self_eq_true, if_true, other, Bool.false_eq_true, if_false]
      omega

theorem unclosed (balanced : Balanced l) (whole : Balanced m) (rest : List Char) : m ≠ l ++ ')' :: rest := by
  intro same
  have opened := whole.opened (l ++ [')']) rest (by rw [same, List.append_assoc]; rfl)
  have closed := balanced.closed
  rw [List.count_append, List.count_append] at opened
  have one : [')'].count ')' = 1 := by decide
  have zero : [')'].count '(' = 0 := by decide
  omega

theorem startsOpen (balanced : Balanced l) (rest : List Char) : l ≠ ')' :: rest :=
  unclosed (.free List.not_mem_nil List.not_mem_nil) balanced rest

theorem closesOnce {rest rest' : List Char} (first : Balanced l) (other : Balanced m)
    (same : l ++ ')' :: rest = m ++ ')' :: rest') : l = m ∧ rest = rest' := by
  -- The parenthesis that closes a group is the first one after a balanced text.
  rcases List.append_eq_append_iff.mp same with ⟨more, split, tail⟩ | ⟨more, split, tail⟩
  · cases more with
    | nil => exact ⟨by rw [split, List.append_nil], (List.cons.inj tail).2⟩
    | cons c more =>
      obtain ⟨rfl, _⟩ := List.cons.inj tail
      exact absurd split (first.unclosed other more)
  · cases more with
    | nil => exact ⟨by rw [split, List.append_nil], (List.cons.inj tail).2.symm⟩
    | cons c more =>
      obtain ⟨rfl, _⟩ := List.cons.inj tail
      exact absurd split (other.unclosed first more)

theorem endsClosed (balanced : Balanced l) (before : List Char) : l ≠ before ++ ['('] := by
  intro same
  have opened := balanced.opened before ['('] same
  have closed := balanced.closed
  rw [same, List.count_append, List.count_append] at closed
  have one : ['('].count '(' = 1 := by decide
  have zero : ['('].count ')' = 0 := by decide
  omega

end Balanced

def NoEmptyGroup (l : List Char) : Prop := ∀ before after, l ≠ before ++ '(' :: ')' :: after

namespace NoEmptyGroup

variable {l m : List Char}

theorem free (noOpen : '(' ∉ l) : NoEmptyGroup l := by
  intro before after same
  exact noOpen (by simp [same])

theorem append (first : NoEmptyGroup l) (next : NoEmptyGroup m) (apart : ∀ before, l ≠ before ++ ['(']) :
    NoEmptyGroup (l ++ m) := by
  intro before after same
  rcases List.append_eq_append_iff.mp same with ⟨more, rfl, rest⟩ | ⟨more, split, rest⟩
  · exact next more after rest
  · match more with
    | [] => exact next [] after rest.symm
    | [c] =>
      obtain ⟨rfl, _⟩ := List.cons.inj rest
      exact apart before split
    | c :: d :: more =>
      obtain ⟨rfl, tail⟩ := List.cons.inj rest
      obtain ⟨rfl, _⟩ := List.cons.inj tail
      exact first before more split

theorem group (inside : NoEmptyGroup l) (balanced : Balanced l) (some : l ≠ []) :
    NoEmptyGroup ('(' :: (l ++ [')'])) := by
  have close : NoEmptyGroup [')'] := free (by decide)
  have closed := inside.append close balanced.endsClosed
  intro before after same
  cases before with
  | nil =>
    obtain ⟨_, rest⟩ := List.cons.inj same
    cases l with
    | nil => exact some rfl
    | cons c l =>
      obtain ⟨rfl, _⟩ := List.cons.inj rest
      exact balanced.startsOpen l rfl
  | cons c before =>
    obtain ⟨_, rest⟩ := List.cons.inj same
    exact closed before after rest

end NoEmptyGroup

def Quoted (label text : String) : Prop :=
  ∃ parts, String.join parts = text ∧ ∀ part ∈ parts, part = quotedPattern label ∨ '\'' ∉ part.toList

namespace Quoted

variable {label s t : String}

theorem single (fine : s = quotedPattern label ∨ '\'' ∉ s.toList) : Quoted label s :=
  ⟨[s], by simp [String.join], by simpa using fine⟩

theorem free (none : '\'' ∉ s.toList) : Quoted label s := single (.inr none)

theorem append (first : Quoted label s) (next : Quoted label t) : Quoted label (s ++ t) := by
  obtain ⟨xs, rfl, left⟩ := first
  obtain ⟨ys, rfl, right⟩ := next
  exact ⟨xs ++ ys, String.join_append, List.forall_mem_append.mpr ⟨left, right⟩⟩

end Quoted

def isTrusted (c : Char) : Bool := isOrdinary c || ['(', ')', '?', '*', '{', '}', '\'', '-'].contains c

structure Untainted (label : String) (ids : List Int32) (text : String) : Prop where
  characters : ∀ c ∈ text.toList, isTrusted c = true
  signs : SignsIds ids text.toList
  noComment : ∀ before after, text.toList ≠ before ++ '-' :: '-' :: after
  quotes : Quoted label text
  balanced : Balanced text.toList
  noEmptyGroup : NoEmptyGroup text.toList

theorem typeListCharacters (ids : List Int32) :
    ∀ c ∈ (typeList ids).toList, c.isDigit = true ∨ c ∈ ['-', ',', ' '] := by
  have number : ∀ id : Int32, ∀ c ∈ (toString id.toInt).toList, c.isDigit = true ∨ c ∈ ['-', ',', ' '] := by
    intro id c mem
    obtain ⟨digits, isNumber, text⟩ := numberText id.toInt
    rcases text with plain | signed
    · rw [plain] at mem
      exact .inl (isNumber.each c mem)
    · rw [signed] at mem
      rcases List.mem_cons.mp mem with rfl | mem
      · exact .inr List.mem_cons_self
      · exact .inl (isNumber.each c mem)
  induction ids with
  | nil => simp [typeList]
  | cons id rest ih =>
    cases rest with
    | nil => simpa [typeList] using number id
    | cons other rest =>
      have text : (typeList (id :: other :: rest)).toList =
          (toString id.toInt).toList ++ ([',', ' '] ++ (typeList (other :: rest)).toList) := by
        simp [typeList, String.intercalate_cons_cons]
      rw [text]
      intro c mem
      rcases List.mem_append.mp mem with mem | mem
      · exact number id c mem
      · rcases List.mem_append.mp mem with mem | mem
        · exact .inr (List.mem_cons_of_mem _ mem)
        · exact ih c mem

theorem typeListSome {ids : List Int32} (some : ids ≠ []) : (typeList ids).toList ≠ [] := by
  have number : ∀ id : Int32, (toString id.toInt).toList ≠ [] := by
    intro id
    obtain ⟨digits, isNumber, plain | signed⟩ := numberText id.toInt
    · exact plain ▸ isNumber.some
    · rw [signed]
      exact List.cons_ne_nil _ _
  match ids with
  | [] => exact absurd rfl some
  | [id] => simpa [typeList] using number id
  | id :: other :: rest => simp [typeList, String.intercalate_cons_cons]

theorem typeListFree {ids : List Int32} {c : Char} (notDigit : c.isDigit = false) (other : c ∉ ['-', ',', ' ']) :
    c ∉ (typeList ids).toList := by
  intro mem
  rcases typeListCharacters ids c mem with digit | mark
  · rw [digit] at notDigit
    cases notDigit
  · exact other mark

theorem patternFree {label : String} {c : Char} (named : Ordinary label) (special : isOrdinary c = false)
    (start : c ∉ "'".toList) (rest : c ∉ ".*\x7b1,\x7d'".toList) : c ∉ (quotedPattern label).toList := by
  simp only [quotedPattern, String.toList_append, List.mem_append, not_or]
  exact ⟨⟨start, named.free special⟩, rest⟩

namespace Trusted

variable {label : String} {ids : List Int32} {text : String}

theorem isTrustedOrdinary {c : Char} (ordinary : isOrdinary c = true) : isTrusted c = true := by
  rw [isTrusted, ordinary, Bool.true_or]

theorem characters (named : Ordinary label) (trusted : Trusted label ids text) :
    ∀ c ∈ text.toList, isTrusted c = true := by
  have opening : ∀ c ∈ "(".toList, isTrusted c = true := List.all_eq_true.mp rfl
  have closing : ∀ c ∈ ")".toList, isTrusted c = true := List.all_eq_true.mp rfl
  have marks : ∀ c ∈ ['-', ',', ' '], isTrusted c = true := List.all_eq_true.mp rfl
  induction trusted with
  | ordinary ordinary => exact fun c mem => isTrustedOrdinary (ordinaryIff.mp ordinary c mem)
  | placeholder => exact List.all_eq_true.mp rfl
  | pattern =>
    simp only [quotedPattern, String.toList_append, List.forall_mem_append]
    exact ⟨⟨List.all_eq_true.mp rfl, fun c mem => isTrustedOrdinary (ordinaryIff.mp named c mem)⟩,
      List.all_eq_true.mp rfl⟩
  | types some =>
    simp only [String.toList_append, List.forall_mem_append]
    refine ⟨⟨opening, fun c mem => ?_⟩, closing⟩
    rcases typeListCharacters ids c mem with digit | mark
    · exact isTrustedOrdinary (isOrdinaryDigit digit)
    · exact marks c mark
  | group inside some ih =>
    simp only [String.toList_append, List.forall_mem_append]
    exact ⟨⟨opening, ih⟩, closing⟩
  | append first next ihFirst ihNext =>
    rw [String.toList_append, List.forall_mem_append]
    exact ⟨ihFirst, ihNext⟩

theorem signs (named : Ordinary label) (trusted : Trusted label ids text) : SignsIds ids text.toList := by
  have opening : SignsIds ids "(".toList := .absent (by decide)
  have closing : SignsIds ids ")".toList := .absent (by decide)
  induction trusted with
  | ordinary ordinary => exact .absent (ordinary.free rfl)
  | placeholder => exact .absent (by decide)
  | pattern => exact .absent (patternFree named rfl (by decide) (by decide))
  | types some =>
    rw [String.toList_append, String.toList_append, List.append_assoc]
    exact opening.append (SignsIds.typeList some fun _ mem => mem)
  | group inside some ih =>
    rw [String.toList_append, String.toList_append]
    exact (opening.append ih).append closing
  | append first next ihFirst ihNext =>
    rw [String.toList_append]
    exact ihFirst.append ihNext

theorem quotes (trusted : Trusted label ids text) : Quoted label text := by
  have opening : Quoted label "(" := .free (by decide)
  have closing : Quoted label ")" := .free (by decide)
  induction trusted with
  | ordinary ordinary => exact .free (ordinary.free rfl)
  | placeholder => exact .free (by decide)
  | pattern => exact .single (.inl rfl)
  | types some => exact (opening.append (.free (typeListFree rfl (by decide)))).append closing
  | group inside some ih => exact (opening.append ih).append closing
  | append first next ihFirst ihNext => exact ihFirst.append ihNext

theorem groupCharacters (s : String) : ("(" ++ s ++ ")").toList = '(' :: (s.toList ++ [')']) := by
  simp [String.toList_append]

theorem balanced (named : Ordinary label) (trusted : Trusted label ids text) : Balanced text.toList := by
  induction trusted with
  | ordinary ordinary => exact .free (ordinary.free rfl) (ordinary.free rfl)
  | placeholder => exact .free (by decide) (by decide)
  | pattern =>
    exact .free (patternFree named rfl (by decide) (by decide)) (patternFree named rfl (by decide) (by decide))
  | types some =>
    rw [groupCharacters]
    exact (Balanced.free (typeListFree rfl (by decide)) (typeListFree rfl (by decide))).group
  | group inside some ih =>
    rw [groupCharacters]
    exact ih.group
  | append first next ihFirst ihNext =>
    rw [String.toList_append]
    exact ihFirst.append ihNext

theorem noEmptyGroup (named : Ordinary label) (trusted : Trusted label ids text) : NoEmptyGroup text.toList := by
  induction trusted with
  | ordinary ordinary => exact .free (ordinary.free rfl)
  | placeholder => exact .free (by decide)
  | pattern => exact .free (patternFree named rfl (by decide) (by decide))
  | types some =>
    rw [groupCharacters]
    have opened : '(' ∉ (typeList ids).toList := typeListFree rfl (by decide)
    exact (NoEmptyGroup.free opened).group (.free opened (typeListFree rfl (by decide))) (typeListSome some)
  | group inside some ih =>
    rw [groupCharacters]
    exact ih.group (balanced named inside) fun empty => some (String.toList_inj.mp empty)
  | append first next ihFirst ihNext =>
    rw [String.toList_append]
    exact ihFirst.append ihNext (balanced named first).endsClosed

theorem noComment (signs : SignsIds ids text.toList) (before after : List Char) :
    text.toList ≠ before ++ '-' :: '-' :: after := by
  intro same
  obtain ⟨id, _, d, rest, number, ends⟩ := signs before _ same
  have mark : d ≠ '-' := by
    rintro rfl
    revert ends
    decide
  -- after the sign of a number stand its digits
  have unsigned : ∀ digits after, Digits digits → digits ++ d :: rest ≠ '-' :: after := by
    intro digits after isNumber begins
    cases digits with
    | nil => exact mark (List.cons.inj begins).1
    | cons c digits =>
      obtain ⟨rfl, _⟩ := List.cons.inj begins
      exact isNumber.unsigned List.mem_cons_self
  obtain ⟨digits, isNumber, plain | signed⟩ := numberText id.toInt
  · exact unsigned digits _ isNumber (plain ▸ number.symm)
  · rw [signed] at number
    exact unsigned digits after isNumber (List.cons.inj number).2.symm

theorem untainted (named : Ordinary label) (trusted : Trusted label ids text) : Untainted label ids text :=
  ⟨trusted.characters named, trusted.signs named, noComment (trusted.signs named), trusted.quotes,
    trusted.balanced named, trusted.noEmptyGroup named⟩

end Trusted
end ObjectQuery
