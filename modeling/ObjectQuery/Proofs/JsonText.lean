import ObjectQuery.Json.Printer
import ObjectQuery.Json.Reader
import ObjectQuery.Proofs.Calendar

/-! JSON text, read back. A value is read as the one that was written: its integers fit 64 bits, its other
numbers are read as what they were, and no object names a member twice. -/
namespace ObjectQuery.Json
open Text

def ReadsBack (x : Float) : Prop := Reader.number (floatText x).toList = some (.float x, [])

mutual
/-- Integers fit 64 bits, other numbers are as wanted, and no object names a member twice. -/
def Readable (exact : Float → Prop) : Json → Prop
  | .int n => Reader.inRange n = true
  | .float x => exact x
  | .arr items => EachReadable exact items
  | .obj members => (members.map Prod.fst).Nodup ∧ MembersReadable exact members
  | _ => True
def EachReadable (exact : Float → Prop) : List Json → Prop
  | [] => True
  | j :: rest => Readable exact j ∧ EachReadable exact rest
def MembersReadable (exact : Float → Prop) : List (String × Json) → Prop
  | [] => True
  | (_, j) :: rest => Readable exact j ∧ MembersReadable exact rest
end

theorem eachReadable {exact : Float → Prop} {items : List Json} :
    EachReadable exact items ↔ ∀ j ∈ items, j.Readable exact := by
  induction items with
  | nil => simp [EachReadable]
  | cons j rest ih => simp [EachReadable, ih]

theorem membersReadable {exact : Float → Prop} {members : List (String × Json)} :
    MembersReadable exact members ↔ ∀ m ∈ members, m.2.Readable exact := by
  induction members with
  | nil => simp [MembersReadable]
  | cons m rest ih => simp [MembersReadable, ih]

mutual
def height : Json → Nat
  | .arr items => itemsHeight items + 1
  | .obj members => membersHeight members + 1
  | _ => 0
def itemsHeight : List Json → Nat
  | [] => 0
  | j :: rest => max (height j) (itemsHeight rest)
def membersHeight : List (String × Json) → Nat
  | [] => 0
  | (_, j) :: rest => max (height j) (membersHeight rest)
end

namespace Reader

structure Ends (cs : List Char) : Prop where
  stops : Stops cs
  plain : ∀ c rest, cs = c :: rest → c ≠ '.' ∧ c ≠ 'e' ∧ c ≠ 'E'

theorem Ends.nil : Ends [] := ⟨nofun, nofun⟩

theorem Ends.cons {c : Char} {rest : List Char} (other : c.isDigit = false ∧ c ≠ '.' ∧ c ≠ 'e' ∧ c ≠ 'E') :
    Ends (c :: rest) where
  stops := .cons other.1
  plain d more same := by
    cases same
    exact other.2

theorem digitsAppend {cs ds r rest : List Char} (read : digits cs = (ds, r)) (stops : Stops rest) :
    digits (cs ++ rest) = (ds, r ++ rest) := by
  obtain ⟨rfl, rfl⟩ := Prod.mk.inj read
  induction cs with
  | nil =>
    cases rest with
    | nil => rfl
    | cons c more => simp [digits, stops c more rfl]
  | cons c cs ih =>
    have ih := Prod.mk.inj (ih rfl)
    cases digit : c.isDigit with
    | false => simp [digits, digit]
    | true => simp [digits, digit, ih.1, ih.2]

theorem digitsAll {ds : List Char} (each : ∀ d ∈ ds, d.isDigit = true) : digits ds = (ds, []) := by
  induction ds with
  | nil => rfl
  | cons d ds ih =>
    have ih := Prod.mk.inj (ih fun e mem => each e (List.mem_cons_of_mem _ mem))
    simp [digits, each d List.mem_cons_self, ih.1, ih.2]

theorem wholeOk {cs ds r : List Char} :
    whole cs = some (ds, r) ↔ digits cs = (ds, r) ∧ ds ≠ [] ∧ ∀ d more, ds ≠ '0' :: d :: more := by
  unfold whole
  split
  · next same => simp [same]; grind
  · next same => simp [same]; grind
  · next none zero =>
    simp only [Option.some.injEq]
    refine ⟨fun same => ⟨same, ?_, ?_⟩, And.left⟩
    · rintro rfl
      exact none r same
    · rintro d more rfl
      exact zero d more r same

theorem wholeAppend {cs ds r rest : List Char} (read : whole cs = some (ds, r)) (ends : Ends rest) :
    whole (cs ++ rest) = some (ds, r ++ rest) := by
  obtain ⟨same, proper⟩ := wholeOk.mp read
  exact wholeOk.mpr ⟨digitsAppend same ends.stops, proper⟩

theorem fractionAppend {cs fs r rest : List Char} (read : fraction cs = some (fs, r)) (ends : Ends rest) :
    fraction (cs ++ rest) = some (fs, r ++ rest) := by
  unfold fraction at read
  split at read
  · next more =>
    cases found : digits more with
    | mk ds after =>
      rw [found] at read
      cases ds with
      | nil => cases read
      | cons d ds =>
        cases read
        simp only [List.cons_append, fraction, digitsAppend found ends.stops]
  · next other =>
    cases read
    unfold fraction
    split
    · next more same =>
      cases cs with
      | nil => exact absurd rfl (ends.plain _ _ same).1
      | cons c cs => exact (other cs (by rw [(List.cons.inj same).1])).elim
    · rfl

theorem magnitudeAppend {negative : Bool} {cs r rest : List Char} {e : Option Int}
    (read : magnitude negative cs = some (e, r)) (ends : Ends rest) :
    magnitude negative (cs ++ rest) = some (e, r ++ rest) := by
  unfold magnitude at read ⊢
  cases found : digits cs with
  | mk ds after =>
    rw [found] at read
    rw [digitsAppend found ends.stops]
    cases ds with
    | nil => cases read
    | cons d ds =>
      cases read
      rfl

theorem signedAppend {cs r rest : List Char} {e : Option Int} (read : signed cs = some (e, r))
    (ends : Ends rest) : signed (cs ++ rest) = some (e, r ++ rest) := by
  unfold signed at read
  split at read
  · exact magnitudeAppend read ends
  · exact magnitudeAppend read ends
  · next minus plus =>
    cases cs with
    | nil => cases read
    | cons c cs =>
      have unsigned : signed (c :: cs ++ rest) = magnitude false (c :: cs ++ rest) := by
        unfold signed
        split
        · next same => exact (minus cs (by rw [(List.cons.inj same).1])).elim
        · next same => exact (plus cs (by rw [(List.cons.inj same).1])).elim
        · rfl
      rw [unsigned]
      exact magnitudeAppend read ends

theorem exponentAppend {cs r rest : List Char} {e : Option Int} (read : exponent cs = some (e, r))
    (ends : Ends rest) : exponent (cs ++ rest) = some (e, r ++ rest) := by
  cases cs with
  | nil =>
    cases read
    cases rest with
    | nil => rfl
    | cons c more =>
      obtain ⟨_, small, capital⟩ := ends.plain c more rfl
      simp [exponent, small, capital]
  | cons c cs =>
    have unfolded (more : List Char) :
        exponent (c :: more) = if c = 'e' ∨ c = 'E' then signed more else some (none, c :: more) := rfl
    rw [unfolded] at read
    rw [List.cons_append, unfolded]
    split at read
    · next letter => rw [if_pos letter, signedAppend read ends]
    · next other =>
      cases read
      rw [if_neg other, List.cons_append]

theorem unsignedOk {negative : Bool} {cs r : List Char} {j : Json} : unsigned negative cs = some (j, r) ↔
    ∃ ds fs e cs₁ cs₂, whole cs = some (ds, cs₁) ∧ fraction cs₁ = some (fs, cs₂) ∧ exponent cs₂ = some (e, r) ∧
      numeral? negative ds fs e = some j := by
  simp only [unsigned, Option.bind_eq_bind, Option.bind_eq_some_iff, Option.some.injEq, Prod.mk.injEq]
  constructor
  · rintro ⟨⟨ds, cs₁⟩, first, ⟨fs, cs₂⟩, second, ⟨e, cs₃⟩, third, j, made, rfl, rfl⟩
    exact ⟨ds, fs, e, cs₁, cs₂, first, second, third, made⟩
  · rintro ⟨ds, fs, e, cs₁, cs₂, first, second, third, made⟩
    exact ⟨_, first, _, second, _, third, _, made, rfl, rfl⟩

theorem unsignedAppend {negative : Bool} {cs r rest : List Char} {j : Json}
    (read : unsigned negative cs = some (j, r)) (ends : Ends rest) :
    unsigned negative (cs ++ rest) = some (j, r ++ rest) := by
  obtain ⟨ds, fs, e, cs₁, cs₂, first, second, third, made⟩ := unsignedOk.mp read
  exact unsignedOk.mpr ⟨ds, fs, e, _, _, wholeAppend first ends, fractionAppend second ends,
    exponentAppend third ends, made⟩

inductive StartsNumber : List Char → Prop where
  | minus (cs) : StartsNumber ('-' :: cs)
  | digit {c} (digit : c.isDigit = true) (cs) : StartsNumber (c :: cs)

theorem unsignedStarts {negative : Bool} {cs r : List Char} {j : Json} (read : unsigned negative cs = some (j, r)) :
    ∃ c more, cs = c :: more ∧ c.isDigit = true := by
  obtain ⟨ds, fs, e, cs₁, cs₂, first, _⟩ := unsignedOk.mp read
  obtain ⟨same, some, _⟩ := wholeOk.mp first
  obtain ⟨rfl, _⟩ := Prod.mk.inj same
  cases cs with
  | nil => exact absurd rfl some
  | cons c more =>
    refine ⟨c, more, rfl, ?_⟩
    cases digit : c.isDigit with
    | true => rfl
    | false => simp [digit] at some

theorem numberUnsigned {c : Char} (cs : List Char) (digit : c.isDigit = true) :
    number (c :: cs) = unsigned false (c :: cs) := by
  unfold number
  split
  · next same =>
    rw [(List.cons.inj same).1] at digit
    cases digit
  · rfl

theorem numberAppend {cs r rest : List Char} {j : Json} (read : number cs = some (j, r)) (ends : Ends rest) :
    StartsNumber cs ∧ number (cs ++ rest) = some (j, r ++ rest) := by
  have plain (read : unsigned false cs = some (j, r)) :
      StartsNumber cs ∧ number (cs ++ rest) = some (j, r ++ rest) := by
    obtain ⟨c, more, rfl, digit⟩ := unsignedStarts read
    exact ⟨.digit digit more, (numberUnsigned _ digit).trans (unsignedAppend read ends)⟩
  unfold number at read
  split at read
  · exact ⟨.minus _, unsignedAppend read ends⟩
  · exact plain read

theorem firstDigit {n : Nat} (some : n ≠ 0) : ∃ d more, (toString n).toList = d :: more ∧ d ≠ '0' := by
  rw [Nat.toString_eq_ofList_toDigits, String.toList_ofList]
  induction n using Nat.strongRecOn with
  | ind n ih =>
    by_cases small : n < 10
    · rw [Nat.toDigits_of_lt_base small]
      have proper : ∀ n < 10, n ≠ 0 → n.digitChar ≠ '0' := by decide
      exact ⟨_, _, rfl, proper n small some⟩
    · obtain ⟨d, more, same, other⟩ := ih (n / 10) (by omega) (by omega)
      rw [Nat.toDigits_eq_if (by decide), if_neg small, same]
      exact ⟨d, more ++ _, rfl, other⟩

theorem wholeNat (n : Nat) : whole (toString n).toList = some ((toString n).toList, []) := by
  have all : digits (toString n).toList = ((toString n).toList, []) := digitsAll fun _ mem => digitOfNat mem
  by_cases zero : n = 0
  · rw [zero]
    rfl
  · obtain ⟨d, more, same, other⟩ := firstDigit zero
    rw [wholeOk]
    refine ⟨all, by simp, fun e rest leading => ?_⟩
    rw [same] at leading
    exact other (List.cons.inj leading).1

theorem unsignedNat {negative : Bool} {n : Nat} {j : Json} (made : numeral? negative (toString n).toList [] none = some j) :
    unsigned negative (toString n).toList = some (j, []) :=
  unsignedOk.mpr ⟨_, [], none, [], [], wholeNat n, rfl, rfl, made⟩

theorem numberInt {n : Int} (range : inRange n = true) : number (toString n).toList = some (.int n, []) := by
  cases n with
  | ofNat n =>
    have made : numeral? false (toString n).toList [] none = some (.int n) := by
      simp only [numeral?, valueOfNat]
      exact if_pos ⟨rfl, rfl, range, by simp⟩
    obtain ⟨c, more, same, digit⟩ := unsignedStarts (unsignedNat made)
    have read := unsignedNat made
    change number (toString n).toList = _
    rw [same] at read ⊢
    exact (numberUnsigned more digit).trans read
  | negSucc n =>
    have made : numeral? true (toString (n + 1)).toList [] none = some (.int (Int.negSucc n)) := by
      simp only [numeral?, valueOfNat]
      refine if_pos ⟨rfl, rfl, range, ?_⟩
      rintro ⟨_, zero⟩
      cases zero
    have parts : (toString (Int.negSucc n)).toList = '-' :: (toString (n + 1)).toList := by
      change ("-" ++ toString (n + 1)).toList = _
      simp
    rw [parts]
    exact unsignedNat made

theorem hexDigitRead {n : Nat} (small : n < 16) : hexValue (hexDigit n) = some n := by
  have each : ∀ n < 16, hexValue (hexDigit n) = some n := by decide
  exact each n small

theorem controlRead {c : Char} (control : c.toNat < 32) (rest : List Char) :
    codePoint ('0' :: '0' :: hexDigit (c.toNat / 16) :: hexDigit (c.toNat % 16) :: rest) = some (c, rest) := by
  have zero : hexValue '0' = some 0 := rfl
  have value : 4096 * 0 + 256 * 0 + 16 * (c.toNat / 16) + c.toNat % 16 = c.toNat := by omega
  have plain : ¬ (0xD800 ≤ c.toNat ∧ c.toNat ≤ 0xDBFF) ∧ ¬ (0xDC00 ≤ c.toNat ∧ c.toNat ≤ 0xDFFF) := by omega
  simp only [codePoint, unit16, zero, hexDigitRead (show c.toNat / 16 < 16 by omega),
    hexDigitRead (show c.toNat % 16 < 16 by omega), Option.bind_eq_bind, Option.bind_some, value, plain, if_false,
    Char.ofNat_toNat]

theorem characterRead (fuel : Nat) (done rest : List Char) (c : Char) :
    characters (fuel + 1) done (escape c ++ rest) = characters fuel (c :: done) rest := by
  unfold escape
  split
  · next same => subst same; rfl
  split
  · next same => subst same; rfl
  split
  · next same => subst same; rfl
  split
  · next same => subst same; rfl
  split
  · next same => subst same; rfl
  split
  · next same => subst same; rfl
  split
  · next same => subst same; rfl
  split
  · next control =>
    change ((codePoint _).bind fun x => characters fuel (x.1 :: done) x.2) = _
    rw [List.append_eq, List.cons_append, List.cons_append, List.cons_append, List.cons_append, List.nil_append,
      controlRead control]
    rfl
  · next printed =>
    simp [characters, printed]

theorem charactersRead {text : List Char} {fuel : Nat} (enough : text.length < fuel) (done rest : List Char) :
    characters fuel done (text.flatMap escape ++ '\x22' :: rest) = some (String.ofList (done.reverse ++ text), rest) := by
  induction text generalizing fuel done with
  | nil =>
    cases fuel with
    | zero => cases enough
    | succ fuel => simp [characters]
  | cons c text ih =>
    cases fuel with
    | zero => cases enough
    | succ fuel =>
      rw [List.flatMap_cons, List.append_assoc, characterRead, ih (by simpa using enough)]
      simp

def Opens (cs : List Char) : Prop := ∃ c more, cs = c :: more ∧ isBlank c = false ∧ c ≠ ']'

theorem Opens.skip {cs : List Char} (opens : Opens cs) : skip cs = cs := by
  obtain ⟨c, more, rfl, printed, _⟩ := opens
  simp [Reader.skip, printed]

theorem Opens.some {cs : List Char} (opens : Opens cs) : 0 < cs.length := by
  obtain ⟨c, more, rfl, _⟩ := opens
  exact Nat.succ_pos _

theorem Opens.append {cs : List Char} (opens : Opens cs) (rest : List Char) : Opens (cs ++ rest) := by
  obtain ⟨c, more, rfl, proper⟩ := opens
  exact ⟨c, more ++ rest, rfl, proper⟩

theorem StartsNumber.opens {cs : List Char} (starts : StartsNumber cs) : Opens cs := by
  cases starts with
  | minus cs => exact ⟨_, cs, rfl, by decide, by decide⟩
  | digit digit cs =>
    refine ⟨_, cs, rfl, ?_, ?_⟩
    · simp only [isBlank, Bool.or_eq_false_iff, decide_eq_false_iff_not]
      refine ⟨⟨⟨?_, ?_⟩, ?_⟩, ?_⟩
      all_goals
        rintro rfl
        cases digit
    · rintro rfl
      cases digit

theorem valueNumber {cs : List Char} (starts : StartsNumber cs) (fuel depth : Nat) :
    value (fuel + 1) depth cs = number cs := by
  have same := starts.opens.skip
  unfold value
  rw [same]
  cases starts with
  | minus cs => rfl
  | digit digit cs =>
    split
    case h_7 => rfl
    all_goals
      next head =>
        rw [(List.cons.inj head).1] at digit
        cases digit

theorem numberRead {text rest : List Char} {j : Json} (read : number text = some (j, [])) (ends : Ends rest)
    (fuel depth : Nat) : Opens text ∧ value (fuel + 1) depth (text ++ rest) = some (j, rest) := by
  obtain ⟨starts, longer⟩ := numberAppend read ends
  refine ⟨starts.opens, ?_⟩
  have starts : StartsNumber (text ++ rest) := by
    cases starts with
    | minus cs => exact .minus (cs ++ rest)
    | digit digit cs => exact .digit digit (cs ++ rest)
  exact (valueNumber starts fuel depth).trans longer

theorem expectRead (word rest : List Char) : expect word (word ++ rest) = some rest := by
  simp [expect]

theorem putAbsent {name : String} {j : Json} {members : Members} (absent : name ∉ members.map Prod.fst) :
    put name j members = members ++ [(name, j)] := by
  induction members with
  | nil => rfl
  | cons m members ih =>
    have other : ¬ m.1 = name := fun same => absent (same ▸ List.mem_cons_self)
    simp [put, other, ih fun mem => absent (List.mem_cons_of_mem _ mem)]

theorem quoteList (s : String) : (quote s).toList = '\x22' :: (s.toList.flatMap escape ++ ['\x22']) := by
  simp [quote]

theorem escapeSome (c : Char) : 1 ≤ (escape c).length := by
  unfold escape
  repeat' split
  all_goals simp

theorem quoteLength (s : String) : s.toList.length + 2 ≤ (quote s).length := by
  have each (cs : List Char) : cs.length ≤ (cs.flatMap escape).length := by
    induction cs with
    | nil => simp
    | cons c cs ih =>
      have := escapeSome c
      simp only [List.flatMap_cons, List.length_append, List.length_cons]
      omega
  have := each s.toList
  rw [← String.length_toList, quoteList]
  simp only [List.length_cons, List.length_append, List.length_nil]
  omega

def joined (parts : List String) : List Char := (",".intercalate parts).toList

theorem joinedOne (s : String) : joined [s] = s.toList := by
  simp [joined]

theorem joinedMore (s : String) {rest : List String} (more : rest ≠ []) :
    joined (s :: rest) = s.toList ++ ',' :: joined rest := by
  cases rest with
  | nil => exact absurd rfl more
  | cons t rest => simp [joined, String.intercalate_cons_cons]

theorem itemsText (j : Json) {rest : List Json} (more : rest ≠ []) :
    joined (compactItems (j :: rest)) = (compact j).toList ++ ',' :: joined (compactItems rest) := by
  cases rest with
  | nil => exact absurd rfl more
  | cons k rest => exact joinedMore _ nofun

theorem membersText (name : String) (j : Json) {rest : Members} (more : rest ≠ []) :
    joined (compactMembers ((name, j) :: rest)) =
      (quote name ++ ":" ++ compact j).toList ++ ',' :: joined (compactMembers rest) := by
  cases rest with
  | nil => exact absurd rfl more
  | cons m rest => exact joinedMore _ nofun

theorem arrayList (items : List Json) :
    (compact (.arr items)).toList = '[' :: (joined (compactItems items) ++ [']']) := by
  simp [compact, joined]

theorem objectList (members : List (String × Json)) :
    (compact (.obj members)).toList = '\x7b' :: (joined (compactMembers members) ++ ['\x7d']) := by
  simp [compact, joined]

theorem compactOpens {j : Json} (readable : j.Readable ReadsBack) : Opens (compact j).toList := by
  cases j with
  | null => exact ⟨'n', _, rfl, rfl, by decide⟩
  | bool b =>
    cases b with
    | false => exact ⟨'f', _, rfl, rfl, by decide⟩
    | true => exact ⟨'t', _, rfl, rfl, by decide⟩
  | int n => exact (numberRead (numberInt readable) .nil 0 0).1
  | float x => exact (numberRead readable .nil 0 0).1
  | str s => exact ⟨'\x22', _, quoteList s, rfl, by decide⟩
  | arr items => exact ⟨'[', _, arrayList items, rfl, by decide⟩
  | obj members => exact ⟨'\x7b', _, objectList members, rfl, by decide⟩

variable {fuel depth : Nat} {rest : List Char} {j : Json}

theorem wordRead {j : Json} {c : Char} (word : String) (same : (compact j).toList = c :: word.toList)
    (reads : ∀ cs, value (fuel + 1) depth (c :: cs) = (expect word.toList cs).bind fun after => some (j, after)) :
    value (fuel + 1) depth ((compact j).toList ++ rest) = some (j, rest) := by
  rw [same, List.cons_append, reads, expectRead, Option.bind_some]

theorem nullRead : value (fuel + 1) depth ((compact .null).toList ++ rest) = some (.null, rest) :=
  wordRead "ull" rfl fun _ => rfl

theorem boolRead (b : Bool) : value (fuel + 1) depth ((compact (.bool b)).toList ++ rest) = some (.bool b, rest) := by
  cases b with
  | false => exact wordRead "alse" rfl fun _ => rfl
  | true => exact wordRead "rue" rfl fun _ => rfl

theorem stringRead {s : String} (enough : (compact (.str s)).length ≤ fuel + 1) :
    value (fuel + 1) depth ((compact (.str s)).toList ++ rest) = some (.str s, rest) := by
  have enough : s.toList.length < fuel := by
    have := quoteLength s
    simp only [compact] at enough
    omega
  have parts : (compact (.str s)).toList ++ rest = '\x22' :: (s.toList.flatMap escape ++ '\x22' :: rest) := by
    simp [compact, quoteList]
  rw [parts]
  change (characters fuel [] _).bind _ = _
  rw [charactersRead enough, Option.bind_some, List.reverse_nil, List.nil_append, String.ofList_toList]

theorem arrayRead {text : List Char} {items : List Json} (opens : Opens text)
    (read : Reader.items fuel depth [] (text ++ ']' :: rest) = some (.arr items, rest)) :
    value (fuel + 1) (depth + 1) ('[' :: (text ++ ']' :: rest)) = some (.arr items, rest) := by
  have same := (opens.append (']' :: rest)).skip
  obtain ⟨c, more, begins, _, other⟩ := opens
  have bracket (cs : List Char) : skip ('[' :: cs) = '[' :: cs := rfl
  simp only [value, bracket, same]
  split
  · next head =>
    rw [begins] at head
    exact absurd (List.cons.inj head).1 other
  · exact read

theorem itemsOne {done : List Json} {text : List Char}
    (first : value fuel depth (text ++ ']' :: rest) = some (j, ']' :: rest)) :
    items (fuel + 1) depth done (text ++ ']' :: rest) = some (.arr (done.reverse ++ [j]), rest) := by
  have bracket (cs : List Char) : skip (']' :: cs) = ']' :: cs := rfl
  simp [items, first, bracket]

theorem itemsMore {done : List Json} {text : List Char}
    (first : value fuel depth (text ++ ',' :: rest) = some (j, ',' :: rest)) :
    items (fuel + 1) depth done (text ++ ',' :: rest) = items fuel depth (j :: done) rest := by
  have comma (cs : List Char) : skip (',' :: cs) = ',' :: cs := rfl
  simp [items, first, comma]

def named (name : String) (cs : List Char) : List Char :=
  '\x22' :: (name.toList.flatMap escape ++ '\x22' :: ':' :: cs)

theorem membersOne {done : Members} {name : String} {text : List Char} (enough : name.toList.length < fuel)
    (first : value fuel depth (text ++ '\x7d' :: rest) = some (j, '\x7d' :: rest)) :
    members (fuel + 1) depth done (named name (text ++ '\x7d' :: rest)) = some (.obj (put name j done), rest) := by
  have mark (cs : List Char) : skip ('\x22' :: cs) = '\x22' :: cs := rfl
  have colon (cs : List Char) : skip (':' :: cs) = ':' :: cs := rfl
  have brace (cs : List Char) : skip ('\x7d' :: cs) = '\x7d' :: cs := rfl
  have expected (cs : List Char) : expect [':'] (':' :: cs) = some cs := expectRead [':'] cs
  simp [members, named, mark, charactersRead enough, colon, expected, first, brace]

theorem membersMore {done : Members} {name : String} {text : List Char} (enough : name.toList.length < fuel)
    (first : value fuel depth (text ++ ',' :: rest) = some (j, ',' :: rest)) :
    members (fuel + 1) depth done (named name (text ++ ',' :: rest)) = members fuel depth (put name j done) rest := by
  have mark (cs : List Char) : skip ('\x22' :: cs) = '\x22' :: cs := rfl
  have colon (cs : List Char) : skip (':' :: cs) = ':' :: cs := rfl
  have comma (cs : List Char) : skip (',' :: cs) = ',' :: cs := rfl
  have expected (cs : List Char) : expect [':'] (':' :: cs) = some cs := expectRead [':'] cs
  simp [members, named, mark, charactersRead enough, colon, expected, first, comma]

theorem itemsOpens {items : List Json} (readable : EachReadable ReadsBack items) (some : items ≠ []) :
    Opens (joined (compactItems items)) := by
  cases items with
  | nil => exact absurd rfl some
  | cons j more =>
    have first := compactOpens readable.1
    by_cases last : more = []
    · subst last
      rwa [compactItems, compactItems, joinedOne]
    · rw [itemsText j last]
      exact first.append _

theorem memberNamed (name : String) (j : Json) (cs : List Char) :
    (quote name ++ ":" ++ compact j).toList ++ cs = named name ((compact j).toList ++ cs) := by
  simp [quoteList, named]

theorem memberLength (name : String) (j : Json) :
    name.toList.length + 3 + (compact j).length ≤ (quote name ++ ":" ++ compact j).length := by
  have := quoteLength name
  have colon : ":".length = 1 := rfl
  simp only [String.length_append, colon]
  omega

theorem membersNamed (name : String) (j : Json) (more : Members) :
    ∃ text, joined (compactMembers ((name, j) :: more)) = named name text := by
  by_cases last : more = []
  · subst last
    refine ⟨(compact j).toList, ?_⟩
    rw [compactMembers, compactMembers, joinedOne]
    simpa using memberNamed name j []
  · rw [membersText name j last, memberNamed]
    exact ⟨_, rfl⟩

theorem objectRead {members all : Members} (some : members ≠ [])
    (read : Reader.members fuel depth [] (joined (compactMembers members) ++ '\x7d' :: rest) = .some (.obj all, rest)) :
    value (fuel + 1) (depth + 1) ('\x7b' :: (joined (compactMembers members) ++ '\x7d' :: rest)) = .some (.obj all, rest) := by
  cases members with
  | nil => exact absurd rfl some
  | cons m more =>
    obtain ⟨text, same⟩ := membersNamed m.1 m.2 more
    rw [same] at read ⊢
    exact read

def ReadBefore (j : Json) : Prop := ∀ {fuel depth : Nat} {rest : List Char}, Ends rest →
  (compact j).length ≤ fuel + 1 → j.height ≤ depth →
  value (fuel + 1) depth ((compact j).toList ++ rest) = some (j, rest)

def ItemsRead (items : List Json) : Prop :=
  items ≠ [] → ∀ {fuel depth : Nat}, (joined (compactItems items)).length ≤ fuel → itemsHeight items ≤ depth →
    ∀ done rest, Reader.items (fuel + 1) depth done (joined (compactItems items) ++ ']' :: rest) =
      some (.arr (done.reverse ++ items), rest)

def MembersRead (members : Members) : Prop :=
  members ≠ [] → ∀ {fuel depth : Nat}, (joined (compactMembers members)).length ≤ fuel →
    membersHeight members ≤ depth → ∀ done rest, ((done ++ members).map Prod.fst).Nodup →
      Reader.members (fuel + 1) depth done (joined (compactMembers members) ++ '\x7d' :: rest) =
        some (.obj (done ++ members), rest)

theorem itemsNext {items : List Json} (first : ReadBefore j) (others : ItemsRead items)
    (readable : EachReadable ReadsBack (j :: items)) : ItemsRead (j :: items) := by
  intro _ fuel depth enough within done rest
  obtain ⟨here, later⟩ := Nat.max_le.mp within
  have some := (itemsOpens readable nofun).some
  obtain ⟨fuel, rfl⟩ : ∃ k, fuel = k + 1 := ⟨fuel - 1, by omega⟩
  by_cases last : items = []
  · subst last
    rw [compactItems, compactItems, joinedOne] at enough ⊢
    rw [String.length_toList] at enough
    exact itemsOne (first (.cons (by decide)) enough here)
  · rw [itemsText j last] at enough ⊢
    rw [List.length_append, List.length_cons, String.length_toList] at enough
    rw [List.append_assoc, List.cons_append, itemsMore (first (.cons (by decide)) (by omega) here),
      others last (by omega) later]
    simp

theorem membersNext {members : Members} (name : String) (first : ReadBefore j) (others : MembersRead members) :
    MembersRead ((name, j) :: members) := by
  intro _ fuel depth enough within done rest distinct
  obtain ⟨here, later⟩ := Nat.max_le.mp within
  have size := memberLength name j
  have absent : name ∉ done.map Prod.fst := by
    intro mem
    rw [List.map_append] at distinct
    exact (List.nodup_append.mp distinct).2.2 name mem name List.mem_cons_self rfl
  by_cases last : members = []
  · subst last
    rw [compactMembers, compactMembers, joinedOne] at enough ⊢
    rw [String.length_toList] at enough
    obtain ⟨fuel, rfl⟩ : ∃ k, fuel = k + 1 := ⟨fuel - 1, by omega⟩
    rw [memberNamed, membersOne (by omega) (first (.cons (by decide)) (by omega) here), putAbsent absent]
  · rw [membersText name j last] at enough ⊢
    rw [List.length_append, List.length_cons, String.length_toList] at enough
    obtain ⟨fuel, rfl⟩ : ∃ k, fuel = k + 1 := ⟨fuel - 1, by omega⟩
    rw [List.append_assoc, List.cons_append, memberNamed,
      membersMore (by omega) (first (.cons (by decide)) (by omega) here), putAbsent absent,
      others last (by omega) later _ _ (by simpa using distinct)]
    simp

theorem arrayBefore {items : List Json} (readable : EachReadable ReadsBack items) (read : ItemsRead items) :
    ReadBefore (.arr items) := by
  intro fuel depth rest _ enough within
  obtain ⟨depth, rfl⟩ := Nat.exists_eq_add_of_le' (Nat.le_trans (Nat.succ_le_succ (Nat.zero_le _)) within)
  rw [← String.length_toList, arrayList] at enough
  rw [arrayList, List.cons_append, List.append_assoc, List.singleton_append]
  simp only [List.length_cons, List.length_append, List.length_nil] at enough
  obtain ⟨fuel, rfl⟩ : ∃ k, fuel = k + 1 := ⟨fuel - 1, by omega⟩
  by_cases none : items = []
  · subst none
    rfl
  · exact arrayRead (itemsOpens readable none) (read none (by omega) (Nat.le_of_succ_le_succ within) [] rest)

theorem objectBefore {members : Members} (distinct : (members.map Prod.fst).Nodup) (read : MembersRead members) :
    ReadBefore (.obj members) := by
  intro fuel depth rest _ enough within
  obtain ⟨depth, rfl⟩ := Nat.exists_eq_add_of_le' (Nat.le_trans (Nat.succ_le_succ (Nat.zero_le _)) within)
  rw [← String.length_toList, objectList] at enough
  rw [objectList, List.cons_append, List.append_assoc, List.singleton_append]
  simp only [List.length_cons, List.length_append, List.length_nil] at enough
  obtain ⟨fuel, rfl⟩ : ∃ k, fuel = k + 1 := ⟨fuel - 1, by omega⟩
  by_cases none : members = []
  · subst none
    rfl
  · exact objectRead none (read none (by omega) (Nat.le_of_succ_le_succ within) [] rest distinct)

mutual
theorem valueRead : ∀ j : Json, j.Readable ReadsBack → ReadBefore j
  | .null, _ => fun _ _ _ => nullRead
  | .bool b, _ => fun _ _ _ => boolRead b
  | .int _, readable => fun ends _ _ => (numberRead (numberInt readable) ends _ _).2
  | .float _, readable => fun ends _ _ => (numberRead readable ends _ _).2
  | .str _, _ => fun _ enough _ => stringRead enough
  | .arr items, readable => arrayBefore readable (itemsRead items readable)
  | .obj members, readable => objectBefore readable.1 (membersRead members readable.2)
theorem itemsRead : ∀ items : List Json, EachReadable ReadsBack items → ItemsRead items
  | [], _ => fun some => absurd rfl some
  | j :: items, readable => itemsNext (valueRead j readable.1) (itemsRead items readable.2) readable
theorem membersRead : ∀ members : Members, MembersReadable ReadsBack members → MembersRead members
  | [], _ => fun some => absurd rfl some
  | (name, j) :: members, readable => membersNext name (valueRead j readable.1) (membersRead members readable.2)
end

end Reader

end ObjectQuery.Json
