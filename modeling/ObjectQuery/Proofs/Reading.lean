import Mathlib.Data.List.SplitBy
import ObjectQuery.Proofs.Store
import ObjectQuery.Proofs.Trusted

/-! Conditions read from their text as SQL reads them: parentheses group, and `AND` binds tighter than `OR`. The
reader knows nothing of how a text was put together. -/
namespace ObjectQuery

inductive Formula (α : Type) where
  | atom (a : α)
  | all (parts : List (Formula α))
  | any (parts : List (Formula α))

namespace Formula

variable {α β : Type}

mutual
def fold (atom : α → β) (all any : List β → β) : Formula α → β
  | .atom a => atom a
  | .all parts => all (foldEach atom all any parts)
  | .any parts => any (foldEach atom all any parts)
def foldEach (atom : α → β) (all any : List β → β) : List (Formula α) → List β
  | [] => []
  | part :: rest => fold atom all any part :: foldEach atom all any rest
end

theorem foldEachMap (atom : α → β) (all any : List β → β) (parts : List (Formula α)) :
    foldEach atom all any parts = parts.map (fold atom all any) := by
  induction parts with
  | nil => rfl
  | cons part rest ih => rw [foldEach, ih, List.map_cons]

def map (f : α → β) : Formula α → Formula β := fold (fun a => .atom (f a)) .all .any

def atoms : Formula α → List α := fold (fun a => [a]) List.flatten List.flatten

def value (σ : α → Truth) : Formula α → Truth := fold σ Truth.all Truth.any

variable (f : α → β) (σ : α → Truth) (parts : List (Formula α))

@[simp] theorem mapAtom (a : α) : (atom a).map f = .atom (f a) := rfl
@[simp] theorem mapAll : (all parts).map f = .all (parts.map (map f)) := by simp [map, fold, foldEachMap]
@[simp] theorem mapAny : (any parts).map f = .any (parts.map (map f)) := by simp [map, fold, foldEachMap]
@[simp] theorem atomsAtom (a : α) : (atom a).atoms = [a] := rfl
@[simp] theorem atomsAll : (all parts).atoms = parts.flatMap atoms := by
  simp [atoms, fold, foldEachMap, List.flatMap_def]
@[simp] theorem atomsAny : (any parts).atoms = parts.flatMap atoms := by
  simp [atoms, fold, foldEachMap, List.flatMap_def]
@[simp] theorem valueAtom (a : α) : (atom a).value σ = σ a := rfl
@[simp] theorem valueAll : (all parts).value σ = Truth.all (parts.map (value σ)) := by
  simp [value, fold, foldEachMap]
@[simp] theorem valueAny : (any parts).value σ = Truth.any (parts.map (value σ)) := by
  simp [value, fold, foldEachMap]

end Formula

namespace Reading

def isWordCharacter (c : Char) : Bool := c.isAlphanum || c == '_' || c == '$' || 127 < c.toNat

def words (text : List Char) : List (List Char) := text.splitBy fun a b => isWordCharacter a && isWordCharacter b

inductive Connective where
  | and
  | or
  deriving DecidableEq, Repr

def Connective.word : Connective → List Char
  | .and => ['A', 'N', 'D']
  | .or => ['O', 'R']

def connective (word : List Char) : Option Connective :=
  if word.map Char.toUpper = Connective.and.word then some .and
  else if word.map Char.toUpper = Connective.or.word then some .or
  else none

inductive Item where
  | word (word : List Char)
  | group (inside : List (List Char)) (reading : Option (Formula String))

namespace Item

def words : Item → List (List Char)
  | .word w => [w]
  | .group inside _ => ['('] :: (inside ++ [[')']])

def connective : Item → Option Connective
  | .word w => Reading.connective w
  | .group _ _ => none

def isBlank : Item → Bool
  | .word w => w == [' ']
  | .group _ _ => false

end Item

def unspaced (after : Bool) : List Item → List Item
  | [] => []
  | i :: rest =>
    if i.isBlank && (after || rest.head?.any (·.connective.isSome)) then unspaced false rest
    else i :: unspaced i.connective.isSome rest

def operand : List Item → Option (Formula String)
  | [] => none
  | [.group _ reading] => reading
  | items => some (.atom (String.ofList (items.flatMap Item.words).flatten))

def splitAt (c : Connective) (items : List Item) : List (List Item) := items.splitOnP (·.connective == some c)

def conjunction (items : List Item) : Option (Formula String) := .all <$> (splitAt .and items).mapM operand

def disjunction (items : List Item) : Option (Formula String) := .any <$> (splitAt .or items).mapM conjunction

def reading (items : List Item) : Option (Formula String) := disjunction (unspaced false items)

abbrev Frames := List (List Item)

def Frames.add (item : Item) : Frames → Frames
  | [] => []
  | frame :: outer => (frame ++ [item]) :: outer

def push : Frames → List Char → Option Frames
  | frames, ['('] => some ([] :: frames)
  | inner :: frame :: outer, [')'] =>
    some (Frames.add (.group (inner.flatMap Item.words) (reading inner)) (frame :: outer))
  | _, [')'] => none
  | frames, word => some (frames.add (.word word))

def read (text : String) : Option (Formula String) :=
  match (words text.toList).foldlM push [[]] with
  | some [items] => reading items
  | _ => none

theorem wordsAlone {c : Char} (alone : isWordCharacter c = false) (before after : List Char) :
    words (before ++ c :: after) = words before ++ [c] :: words after := by
  have next : words (c :: after) = [c] :: words after := by
    refine (List.splitBy_append (l := [c]) fun x mem y _ => ?_).trans rfl
    obtain rfl : c = x := by simpa using mem
    simp [alone]
  rw [← next]
  exact List.splitBy_append_cons after fun x _ => by simp [alone]

theorem wordsFlatten (text : List Char) : (words text).flatten = text := List.flatten_splitBy _ _

theorem wordAlone {c : Char} (alone : isWordCharacter c = false) {w : List Char}
    (chain : w.IsChain fun a b => (isWordCharacter a && isWordCharacter b) = true) (mem : c ∈ w) : w = [c] := by
  induction w with
  | nil => cases mem
  | cons a rest ih =>
    cases rest with
    | nil => rw [List.mem_singleton.mp mem]
    | cons b rest =>
      obtain ⟨first, chain⟩ := List.isChain_cons_cons.mp chain
      obtain ⟨left, right⟩ := Bool.and_eq_true_iff.mp first
      rcases List.mem_cons.mp mem with rfl | mem
      · rw [alone] at left
        cases left
      · obtain ⟨rfl, -⟩ := List.cons.inj (ih chain mem)
        rw [alone] at right
        cases right

theorem wordsClean {text w : List Char} (mem : w ∈ words text) :
    w = ['('] ∨ w = [')'] ∨ '(' ∉ w ∧ ')' ∉ w := by
  have chain := List.isChain_of_mem_splitBy mem
  by_cases opens : '(' ∈ w
  · exact .inl (wordAlone (by decide) chain opens)
  · by_cases closes : ')' ∈ w
    · exact .inr (.inl (wordAlone (by decide) chain closes))
    · exact .inr (.inr ⟨opens, closes⟩)

def Item.Sound : Item → Prop
  | .word w => '(' ∉ w ∧ ')' ∉ w
  | .group inside _ => Balanced inside.flatten

theorem Item.Sound.balanced {i : Item} (sound : i.Sound) : Balanced i.words.flatten := by
  cases i with
  | word w => simpa [words] using Balanced.free sound.1 sound.2
  | group inside reading => simpa [words] using Balanced.group sound

theorem soundBalanced {items : List Item} (sound : ∀ i ∈ items, i.Sound) :
    Balanced (items.flatMap Item.words).flatten := by
  induction items with
  | nil => exact .free List.not_mem_nil List.not_mem_nil
  | cons i rest ih =>
    obtain ⟨first, others⟩ := List.forall_mem_cons.mp sound
    rw [List.flatMap_cons, List.flatten_append]
    exact first.balanced.append (ih others)

theorem pushWord {w : List Char} (noOpen : '(' ∉ w) (noClose : ')' ∉ w) (frames : Frames) :
    push frames w = some (frames.add (.word w)) := by
  unfold push
  split
  · exact absurd List.mem_cons_self noOpen
  · exact absurd List.mem_cons_self noClose
  · exact absurd List.mem_cons_self noClose
  · rfl

inductive Closes : Nat → List (List Char) → Prop where
  | done : Closes 0 []
  | opens {n ws} (rest : Closes (n + 1) ws) : Closes n (['('] :: ws)
  | closes {n ws} (rest : Closes n ws) : Closes (n + 1) ([')'] :: ws)
  | word {n w ws} (noOpen : '(' ∉ w) (noClose : ')' ∉ w) (rest : Closes n ws) : Closes n (w :: ws)

theorem closesCounted {n : Nat} {ws : List (List Char)}
    (clean : ∀ w ∈ ws, w = ['('] ∨ w = [')'] ∨ '(' ∉ w ∧ ')' ∉ w)
    (within : ∀ before after, ws = before ++ after → before.flatten.count ')' ≤ before.flatten.count '(' + n)
    (closed : ws.flatten.count '(' + n = ws.flatten.count ')') : Closes n ws := by
  induction ws generalizing n with
  | nil =>
    obtain rfl : n = 0 := by simpa using closed
    exact .done
  | cons w rest ih =>
    obtain ⟨first, others⟩ := List.forall_mem_cons.mp clean
    have later (before after : List (List Char)) (same : rest = before ++ after) :
        w.count ')' + before.flatten.count ')' ≤ w.count '(' + before.flatten.count '(' + n := by
      simpa [List.count_append] using within (w :: before) after (by rw [same, List.cons_append])
    rw [List.flatten_cons, List.count_append, List.count_append] at closed
    have counts : List.count '(' ['('] = 1 ∧ List.count ')' ['('] = 0 ∧
        List.count '(' [')'] = 0 ∧ List.count ')' [')'] = 1 := by decide
    rcases first with rfl | rfl | ⟨noOpen, noClose⟩
    · refine .opens (ih others (fun before after same => ?_) (by omega))
      have := later before after same
      omega
    · have start := later [] rest rfl
      simp only [List.flatten_nil, List.count_nil] at start
      obtain ⟨m, rfl⟩ : ∃ m, n = m + 1 := ⟨n - 1, by omega⟩
      refine .closes (ih others (fun before after same => ?_) (by omega))
      have := later before after same
      omega
    · rw [List.count_eq_zero.mpr noOpen, List.count_eq_zero.mpr noClose] at closed
      refine .word noOpen noClose (ih others (fun before after same => ?_) (by omega))
      have here := later before after same
      rw [List.count_eq_zero.mpr noOpen, List.count_eq_zero.mpr noClose] at here
      omega

def openWords : Frames → List (List Char)
  | [] => []
  | frame :: outer => openWords outer ++ ['('] :: frame.flatMap Item.words

/-- Words that close what is open are put together to these items, whatever stands around them. -/
structure Joins (opened : Frames) (ws : List (List Char)) (items : List Item) : Prop where
  sound : ∀ i ∈ items, i.Sound
  words : items.flatMap Item.words = openWords opened ++ ws
  laid : ∀ frame outer, ws.foldlM push (opened ++ frame :: outer) = some ((frame ++ items) :: outer)

def Frames.Sound (frames : Frames) : Prop := ∀ frame ∈ frames, ∀ i ∈ frame, i.Sound

theorem joinsAdded {opened : Frames} (item : Item) {ws : List (List Char)} (sound : item.Sound) (each : opened.Sound)
    (joins : ∀ opened' : Frames, opened'.length = opened.length → opened'.Sound → ∃ items, Joins opened' ws items) :
    ∃ items : List Item, (∀ i ∈ items, i.Sound) ∧ items.flatMap Item.words = openWords opened ++ item.words ++ ws ∧
      ∀ frame outer, ws.foldlM push (Frames.add item (opened ++ frame :: outer)) =
        some ((frame ++ items) :: outer) := by
  cases opened with
  | nil =>
    obtain ⟨items, rest⟩ := joins [] rfl each
    refine ⟨item :: items, List.forall_mem_cons.mpr ⟨sound, rest.sound⟩, ?_, fun frame outer => ?_⟩
    · rw [List.flatMap_cons, rest.words]
      rfl
    · have laid := rest.laid (frame ++ [item]) outer
      rw [List.append_assoc] at laid
      exact laid
  | cons inner more =>
    have each' : Frames.Sound ((inner ++ [item]) :: more) := by
      obtain ⟨first, others⟩ := List.forall_mem_cons.mp each
      exact List.forall_mem_cons.mpr ⟨List.forall_mem_append.mpr ⟨first, by simpa using sound⟩, others⟩
    obtain ⟨items, rest⟩ := joins ((inner ++ [item]) :: more) rfl each'
    refine ⟨items, rest.sound, ?_, rest.laid⟩
    rw [rest.words]
    simp [openWords]

theorem Closes.joined {n : Nat} {ws : List (List Char)} (closes : Closes n ws) :
    ∀ opened : Frames, opened.length = n → opened.Sound → ∃ items, Joins opened ws items := by
  induction closes with
  | done =>
    intro opened none _
    obtain rfl := List.length_eq_zero_iff.mp none
    exact ⟨[], by simp, rfl, fun frame outer => by simp⟩
  | opens _ ih =>
    intro opened length each
    obtain ⟨items, rest⟩ := ih ([] :: opened) (by simp [length]) (List.forall_mem_cons.mpr ⟨by simp, each⟩)
    refine ⟨items, rest.sound, ?_, rest.laid⟩
    rw [rest.words]
    simp [openWords]
  | closes _ ih =>
    intro opened length each
    obtain ⟨inner, more, rfl⟩ := List.exists_cons_of_length_eq_add_one length
    obtain ⟨first, others⟩ := List.forall_mem_cons.mp each
    obtain ⟨items, sound, words, laid⟩ := joinsAdded (.group (inner.flatMap Item.words) (reading inner))
      (soundBalanced first) others fun opened' same => ih opened' (same.trans (by simpa using length))
    refine ⟨items, sound, ?_, fun frame outer => ?_⟩
    · rw [words]
      simp [openWords, Item.words]
    · rw [List.foldlM_cons, ← laid frame outer]
      cases more <;> rfl
  | @word n w ws noOpen noClose _ ih =>
    intro opened length each
    obtain ⟨items, sound, words, laid⟩ := joinsAdded (.word w) ⟨noOpen, noClose⟩ each
      fun opened' same => ih opened' (same.trans length)
    refine ⟨items, sound, ?_, fun frame outer => ?_⟩
    · rw [words]
      simp [Item.words]
    · rw [List.foldlM_cons, pushWord noOpen noClose]
      exact laid frame outer

namespace Joins

variable {ws ws' : List (List Char)} {items items' : List Item}

theorem itemWords (joins : Joins [] ws items) : items.flatMap Item.words = ws := joins.words

theorem append (first : Joins [] ws items) (next : Joins [] ws' items') : Joins [] (ws ++ ws') (items ++ items') where
  sound := List.forall_mem_append.mpr ⟨first.sound, next.sound⟩
  words := by rw [List.flatMap_append, first.itemWords, next.itemWords]; rfl
  laid frame outer := by
    have start : ws.foldlM push (frame :: outer) = some ((frame ++ items) :: outer) := first.laid frame outer
    change (ws ++ ws').foldlM push (frame :: outer) = _
    rw [List.foldlM_append, start, ← List.append_assoc]
    exact next.laid (frame ++ items) outer

theorem word {w : List Char} (noOpen : '(' ∉ w) (noClose : ')' ∉ w) : Joins [] [w] [.word w] where
  sound := by simp [Item.Sound, noOpen, noClose]
  words := rfl
  laid frame outer := by
    rw [List.foldlM_cons, pushWord noOpen noClose]
    rfl

theorem group (inside : Joins [] ws items) : Joins [] (['('] :: (ws ++ [[')']])) [.group ws (reading items)] where
  sound := by
    have balanced := soundBalanced inside.sound
    rw [inside.itemWords] at balanced
    simpa [Item.Sound] using balanced
  words := by simp [Item.words, openWords]
  laid frame outer := by
    have start : ws.foldlM push ([] :: frame :: outer) = some (items :: frame :: outer) :=
      inside.laid [] (frame :: outer)
    have whole : (ws ++ [[')']]).foldlM push ([] :: frame :: outer) =
        some (Frames.add (.group (items.flatMap Item.words) (reading items)) (frame :: outer)) := by
      rw [List.foldlM_append, start]
      rfl
    rw [inside.itemWords] at whole
    exact whole

end Joins

abbrev Itemized (text : List Char) (items : List Item) : Prop := Joins [] (words text) items

theorem balancedItemized {text : List Char} (balanced : Balanced text) : ∃ items, Itemized text items := by
  have closes : Closes 0 (words text) := by
    refine closesCounted (fun w => wordsClean) (fun before after same => ?_) ?_
    · refine balanced.opened _ after.flatten ?_
      rw [← List.flatten_append, ← same, wordsFlatten]
    · rw [wordsFlatten]
      exact balanced.closed
  exact closes.joined [] rfl (by simp [Frames.Sound])

theorem readItems {text : String} {items : List Item} (itemized : Itemized text.toList items) :
    read text = reading items := by
  have laid : (words text.toList).foldlM push [[]] = some [items] := itemized.laid [] []
  rw [read, laid]

theorem operandAtom {items : List Item} (some : items ≠ [])
    (apart : ∀ inside reading, items ≠ [.group inside reading]) :
    operand items = .some (.atom (String.ofList (items.flatMap Item.words).flatten)) := by
  unfold operand
  split
  · exact absurd rfl some
  · exact absurd rfl (apart _ _)
  · rfl

def IsOperand (text : List Char) (R : Formula String) : Prop :=
  ∃ items, Itemized text items ∧ (∀ i ∈ items, i.connective = none) ∧ operand items = some R

/-- What SQL does not take apart: parentheses match, each connective stands inside of some, and they do not group the
text as a whole. -/
structure Atomic (text : String) : Prop where
  present : text ≠ ""
  balanced : Balanced text.toList
  inside : ∀ before word after, words text.toList = before ++ word :: after → (connective word).isSome →
    ¬Balanced before.flatten
  ungrouped : ∀ inside, text.toList = '(' :: (inside ++ [')']) → ¬Balanced inside

theorem Atomic.isOperand {text : String} (atomic : Atomic text) : IsOperand text.toList (.atom text) := by
  obtain ⟨items, itemized⟩ := balancedItemized atomic.balanced
  have joined := itemized.itemWords
  have whole : String.ofList (items.flatMap Item.words).flatten = text := by
    rw [joined, wordsFlatten, String.ofList_toList]
  refine ⟨items, itemized, fun i mem => ?_, ?_⟩
  · cases i with
    | group => rfl
    | word w =>
      obtain ⟨before, after, rfl⟩ := List.append_of_mem mem
      have sound := (List.forall_mem_append.mp itemized.sound).1
      rw [List.flatMap_append, List.flatMap_cons] at joined
      by_contra connects
      exact atomic.inside _ w _ joined.symm (Option.isSome_iff_ne_none.mpr connects) (soundBalanced sound)
  · rw [operandAtom ?_ ?_, whole]
    · rintro rfl
      exact atomic.present whole.symm
    · rintro inside reading rfl
      have grouped : text.toList = '(' :: (inside.flatten ++ [')']) := by simp [← whole, Item.words]
      exact atomic.ungrouped _ grouped (itemized.sound _ List.mem_cons_self)

end Reading
end ObjectQuery
