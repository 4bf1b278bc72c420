import Bindery.Yaml.Token

/-!
# YAML documents

Configurations are written in a subset of YAML: mappings and sequences in block
and in flow style, and scalars.  What does not fit the subset is malformed.  The
amount of `fuel` bounds the recursion; twice the number of tokens is more than
enough.
-/

namespace Bindery

namespace Yaml

/-! Tokens before which a node is left out: an item of a block sequence, a key
or a value of a block mapping, one of a flow collection, and the key of a pair
in a flow sequence. -/

namespace Token

def endsItem : Token → Bool
  | item | key | value | blockEnd => true
  | _ => false

def endsBlockEntry : Token → Bool
  | key | value | blockEnd => true
  | _ => false

def endsFlowEntry : Token → Bool
  | value | comma | flowSequenceEnd | flowMappingEnd => true
  | _ => false

def endsPairKey : Token → Bool
  | value | comma | flowSequenceEnd => true
  | _ => false

def isDocumentEnd : Token → Bool
  | documentEnd => true
  | _ => false

end Token

mutual

/-- A node and the tokens after it.  The items of a block sequence that is the
value of a mapping may stand in the column of the mapping, where no block opens
for them. -/
def node? (fuel : Nat) (inMapping : Bool) (ts : List Token) :
    Option (Yaml × List Token) :=
  match fuel, ts with
  | 0, _ => none
  | _ + 1, .scalar text plain :: ts => some (scalar text plain, ts)
  | fuel + 1, .flowSequence :: ts => flowItems? fuel [] ts
  | fuel + 1, .flowMapping :: ts => flowEntries? fuel [] ts
  | fuel + 1, .blockSequence :: ts => blockItems? fuel false [] ts
  | fuel + 1, .blockMapping :: ts => blockEntries? fuel [] ts
  | fuel + 1, .item :: ts =>
    if inMapping then blockItems? fuel true [] (.item :: ts) else none
  | _, _ => none

def optionalNode? (fuel : Nat) (inMapping : Bool) (ends : Token → Bool)
    (ts : List Token) : Option (Yaml × List Token) :=
  match fuel with
  | 0 => none
  | fuel + 1 =>
    if ts.head?.any ends then some (empty, ts) else node? fuel inMapping ts

def optionalValue? (fuel : Nat) (inMapping : Bool) (ends : Token → Bool)
    (ts : List Token) : Option (Yaml × List Token) :=
  match fuel, ts with
  | 0, _ => none
  | fuel + 1, .value :: ts => optionalNode? fuel inMapping ends ts
  | _, ts => some (empty, ts)

/-- The items of a block sequence; `items` are those read so far, in reverse. -/
def blockItems? (fuel : Nat) (inMapping : Bool) (items : List Yaml)
    (ts : List Token) : Option (Yaml × List Token) := do
  match fuel, ts with
  | 0, _ => none
  | fuel + 1, .item :: ts =>
    let (item, ts) ← optionalNode? fuel false Token.endsItem ts
    blockItems? fuel inMapping (item :: items) ts
  | _, ts =>
    match inMapping, ts with
    | true, ts => return (sequence items.reverse, ts)
    | false, .blockEnd :: ts => return (sequence items.reverse, ts)
    | false, _ => none

def blockEntries? (fuel : Nat) (entries : List (Yaml × Yaml))
    (ts : List Token) : Option (Yaml × List Token) := do
  match fuel, ts with
  | 0, _ => none
  | fuel + 1, .key :: ts =>
    let (key, ts) ← optionalNode? fuel true Token.endsBlockEntry ts
    let (value, ts) ← optionalValue? fuel true Token.endsBlockEntry ts
    blockEntries? fuel ((key, value) :: entries) ts
  | _, .blockEnd :: ts => return (mapping entries.reverse, ts)
  | _, _ => none

def flowItems? (fuel : Nat) (items : List Yaml) (ts : List Token) :
    Option (Yaml × List Token) := do
  match fuel, ts with
  | 0, _ => none
  | _, .flowSequenceEnd :: ts => return (sequence items.reverse, ts)
  | fuel + 1, ts =>
    let (item, ts) ← flowItem? fuel ts
    match ts with
    | .comma :: ts => flowItems? fuel (item :: items) ts
    | .flowSequenceEnd :: ts => return (sequence (item :: items).reverse, ts)
    | _ => none

/-- An item of a flow sequence may be a single pair.  If its key is left out,
the token after the key is passed over. -/
def flowItem? (fuel : Nat) (ts : List Token) : Option (Yaml × List Token) := do
  match fuel, ts with
  | 0, _ => none
  | fuel + 1, .key :: ts =>
    let (key, ts) ←
      if ts.head?.any Token.endsPairKey then some (empty, ts.drop 1)
      else node? fuel false ts
    let (value, ts) ← optionalValue? fuel false Token.endsFlowEntry ts
    return (mapping [(key, value)], ts)
  | fuel + 1, ts => node? fuel false ts

def flowEntries? (fuel : Nat) (entries : List (Yaml × Yaml)) (ts : List Token) :
    Option (Yaml × List Token) := do
  match fuel, ts with
  | 0, _ => none
  | _, .flowMappingEnd :: ts => return (mapping entries.reverse, ts)
  | fuel + 1, ts =>
    let (entry, ts) ← flowEntry? fuel ts
    match ts with
    | .comma :: ts => flowEntries? fuel (entry :: entries) ts
    | .flowMappingEnd :: ts => return (mapping (entry :: entries).reverse, ts)
    | _ => none

/-- An entry of a flow mapping.  What is not a key of its own has no value. -/
def flowEntry? (fuel : Nat) (ts : List Token) :
    Option ((Yaml × Yaml) × List Token) := do
  match fuel, ts with
  | 0, _ => none
  | fuel + 1, .key :: ts =>
    let (key, ts) ← optionalNode? fuel false Token.endsFlowEntry ts
    let (value, ts) ← optionalValue? fuel false Token.endsFlowEntry ts
    return ((key, value), ts)
  | fuel + 1, ts =>
    let (key, ts) ← node? fuel false ts
    return ((key, empty), ts)

end

def content? (ts : List Token) : Option (Yaml × List Token) :=
  let fuel := 4 * ts.length + 4
  match ts with
  | [] => some (empty, [])
  | .documentStart :: ts =>
    match ts with
    | [] => some (empty, [])
    | .documentStart :: ts => some (empty, .documentStart :: ts)
    | .documentEnd :: ts => some (empty, .documentEnd :: ts)
    | ts => node? fuel false ts
  | ts => node? fuel false ts

/-- The content of the only document of a text.  A text without content counts
as an empty scalar. -/
def parse? (t : Text) : Option Yaml := do
  let (value, ts) ← content? (← tokens? t)
  if (ts.dropWhile Token.isDocumentEnd).isEmpty then return value else none

end Yaml

end Bindery
