import ObjectQuery.Yaml.Token

/-! YAML documents as trees. A missing key, value or entry is an empty plain scalar. -/
namespace ObjectQuery.Yaml

inductive Node where
  | scalar (text : String) (plain : Bool)
  | seq (items : List Node)
  | map (pairs : List (Node × Node))
  deriving Repr

namespace Node

def empty : Node := .scalar "" true

abbrev Read (α : Type) := List Token → Option (α × List Token)

def endsBlockValue : List Token → Bool
  | .blockEntry :: _ | .key :: _ | .value :: _ | .blockEnd :: _ => true
  | _ => false

def endsFlowValue (closing : Token) : List Token → Bool
  | t :: _ => t == .flowEntry || t == closing
  | [] => false

def endsFlowKey (closing : Token) : List Token → Bool
  | .value :: _ => true
  | ts => endsFlowValue closing ts

mutual
def read : Nat → (inBlock inMapping : Bool) → Read Node
  | 0, _, _, _ => none
  | fuel + 1, inBlock, inMapping, ts =>
    match ts with
    | .scalar text plain :: rest => some (.scalar text plain, rest)
    | .flowSequenceStart :: rest => do
      let (items, rest) ← flowItems fuel true rest
      some (.seq items, rest)
    | .flowMappingStart :: rest => do
      let (pairs, rest) ← flowPairs fuel true rest
      some (.map pairs, rest)
    | .blockSequenceStart :: rest =>
      if inBlock then do
        let (items, rest) ← blockItems fuel rest
        some (.seq items, rest)
      else none
    | .blockMappingStart :: rest =>
      if inBlock then do
        let (pairs, rest) ← blockPairs fuel rest
        some (.map pairs, rest)
      else none
    | .blockEntry :: _ =>
      -- within a block mapping a sequence needs no indentation of its own
      if inMapping then do
        let (items, rest) ← plainItems fuel ts
        some (.seq items, rest)
      else none
    | _ => none
def blockItems : Nat → Read (List Node)
  | 0, _ => none
  | fuel + 1, ts =>
    match ts with
    | .blockEnd :: rest => some ([], rest)
    | .blockEntry :: .blockEntry :: rest => do
      let (items, rest) ← blockItems fuel (.blockEntry :: rest)
      some (empty :: items, rest)
    | .blockEntry :: .blockEnd :: rest => some ([empty], rest)
    | .blockEntry :: rest => do
      let (item, rest) ← read fuel true false rest
      let (items, rest) ← blockItems fuel rest
      some (item :: items, rest)
    | _ => none
def plainItems : Nat → Read (List Node)
  | 0, _ => none
  | fuel + 1, ts =>
    match ts with
    | .blockEntry :: rest => do
      let (item, rest) ← if endsBlockValue rest then some (empty, rest) else read fuel true false rest
      let (items, rest) ← plainItems fuel rest
      some (item :: items, rest)
    | _ => some ([], ts)
def blockPairs : Nat → Read (List (Node × Node))
  | 0, _ => none
  | fuel + 1, ts =>
    match ts with
    | .blockEnd :: rest => some ([], rest)
    | .key :: rest => do
      let (key, rest) ← blockPart fuel rest
      let (value, rest) ← match rest with
        | .value :: rest => blockPart fuel rest
        | _ => some (empty, rest)
      let (pairs, rest) ← blockPairs fuel rest
      some ((key, value) :: pairs, rest)
    | _ => none
def blockPart : Nat → Read Node
  | 0, _ => none
  | fuel + 1, ts =>
    match ts with
    | .key :: _ | .value :: _ | .blockEnd :: _ => some (empty, ts)
    | _ => read fuel true true ts
def flowItems : Nat → (isFirst : Bool) → Read (List Node)
  | 0, _, _ => none
  | fuel + 1, isFirst, ts =>
    match ts, isFirst with
    | .flowSequenceEnd :: rest, _ => some ([], rest)
    | .flowEntry :: .flowSequenceEnd :: rest, false => some ([], rest)
    | .flowEntry :: rest, false | rest, true => do
      let (item, rest) ← flowItem fuel rest
      let (items, rest) ← flowItems fuel false rest
      some (item :: items, rest)
    | _, false => none
def flowItem : Nat → Read Node
  | 0, _ => none
  | fuel + 1, ts =>
    match ts with
    | .key :: rest => do
      -- a missing key is known by the token that follows, which it takes with it
      let (key, rest) ←
        if endsFlowKey .flowSequenceEnd rest then some (empty, rest.drop 1) else read fuel false false rest
      let (value, rest) ← flowValue fuel .flowSequenceEnd rest
      some (.map [(key, value)], rest)
    | _ => read fuel false false ts
def flowPairs : Nat → (isFirst : Bool) → Read (List (Node × Node))
  | 0, _, _ => none
  | fuel + 1, isFirst, ts =>
    match ts, isFirst with
    | .flowMappingEnd :: rest, _ => some ([], rest)
    | .flowEntry :: .flowMappingEnd :: rest, false => some ([], rest)
    | .flowEntry :: rest, false | rest, true => do
      let (pair, rest) ← flowPair fuel rest
      let (pairs, rest) ← flowPairs fuel false rest
      some (pair :: pairs, rest)
    | _, false => none
def flowPair : Nat → Read (Node × Node)
  | 0, _ => none
  | fuel + 1, ts =>
    match ts with
    | .key :: rest => do
      let (key, rest) ←
        if endsFlowKey .flowMappingEnd rest then some (empty, rest) else read fuel false false rest
      let (value, rest) ← flowValue fuel .flowMappingEnd rest
      some ((key, value), rest)
    | _ => do
      let (key, rest) ← read fuel false false ts
      some ((key, empty), rest)
def flowValue : Nat → Token → Read Node
  | 0, _, _ => none
  | fuel + 1, closing, ts =>
    match ts with
    | .value :: rest =>
      if endsFlowValue closing rest then some (empty, rest) else read fuel false false rest
    | _ => some (empty, ts)
end

def content? (ts : List Token) : Option (Node × List Token) :=
  match ts with
  | [] | .documentStart :: _ | .documentEnd :: _ | .version :: _ => some (empty, ts)
  | _ => read (3 * ts.length + 3) true false ts

def ofTokens? (ts : List Token) : Option Node := do
  let body ← match ts with
    | .version :: .documentStart :: rest | .documentStart :: rest => some rest
    | .version :: _ | .documentEnd :: _ => none
    | _ => some ts
  let (node, rest) ← content? body
  if rest.all (· == .documentEnd) then some node else none

def ofText? (text : String) : Option Node := do ofTokens? (← tokens? text)

end Node
end ObjectQuery.Yaml
