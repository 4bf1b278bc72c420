import Bindery.Yaml.Scalar

/-!
# YAML tokens

A document is first cut into tokens.  The tokens that open and close block
collections come from the columns: an entry to the right of the innermost open
block opens a block, and what starts to the left of a block closes it.  Whether
a node is a key only shows at the colon after it, so the place where a key may
have started is remembered, and its tokens are put in at that place.
-/

namespace Bindery

namespace Yaml

inductive Token where
  | documentStart
  | documentEnd
  | blockSequence
  | blockMapping
  | blockEnd
  | item
  | flowSequence
  | flowSequenceEnd
  | flowMapping
  | flowMappingEnd
  | comma
  | key
  | value
  | scalar (text : Text) (plain : Bool)

structure PossibleKey where
  /-- The number of tokens in front of it. -/
  tokens : Nat
  start : Position
  /-- In the column of the innermost block only a key can stand. -/
  required : Bool

namespace PossibleKey

/-- A key has to end on its line, and to be followed by its colon within 1024
bytes. -/
def isOutdated (k : PossibleKey) (p : Position) : Bool :=
  k.start.line < p.line || k.start.index + 1024 < p.index

def giveUp? : Option PossibleKey → Option (Option PossibleKey)
  | some k => if k.required then none else some none
  | none => some none

def giveUpOutdated? (p : Position) (key : Option PossibleKey) :
    Option (Option PossibleKey) :=
  if key.any (·.isOutdated p) then giveUp? key else some key

end PossibleKey

structure Cut where
  position : Position
  tokens : List Token := []
  /-- The columns of the open blocks, innermost first. -/
  blocks : List Nat := []
  /-- Where a key may have started inside the innermost open flow collection. -/
  key : Option PossibleKey := none
  /-- Where keys may have started around the open flow collections, innermost
  first. -/
  outerKeys : List (Option PossibleKey) := []
  keyAllowed : Bool := true

namespace Cut

def inFlow (s : Cut) : Bool := !s.outerKeys.isEmpty

/-- The leftmost column of what belongs to the innermost block. -/
def indent (s : Cut) : Nat :=
  match s.blocks with
  | [] => 0
  | column :: _ => column + 1

def push (s : Cut) (token : Token) (p : Position) : Cut :=
  { s with tokens := token :: s.tokens, position := p }

/-- Opens a block in `column` in front of the last `n` tokens, unless there is
one. -/
def openBlock (s : Cut) (token : Token) (column n : Nat) : Cut :=
  if s.inFlow || column < s.indent then s
  else
    { s with
      blocks := column :: s.blocks
      tokens := s.tokens.insertIdx n token }

def closeBlocks (s : Cut) (keep : Nat → Bool) : Cut :=
  if s.inFlow then s
  else
    let closed := s.blocks.takeWhile (!keep ·)
    { s with
      blocks := s.blocks.drop closed.length
      tokens := closed.map (fun _ => .blockEnd) ++ s.tokens }

def dropKey? (s : Cut) : Option Cut := do
  return { s with key := ← PossibleKey.giveUp? s.key }

def rememberKey? (s : Cut) : Option Cut := do
  if !s.keyAllowed then return s
  let s ← s.dropKey?
  return { s with
    key := some {
      tokens := s.tokens.length
      start := s.position
      required := !s.inFlow && s.blocks.head? = some s.position.column } }

/-- Skips blanks, comments and line breaks.  Where a block may open, blanks are
not tabs.  A byte order mark at the start of a line takes up a column. -/
def contentFrom (flow : Bool) :
    (fuel : Nat) → (keyAllowed : Bool) → Position → Bool × Position
  | 0, keyAllowed, p => (keyAllowed, p)
  | fuel + 1, keyAllowed, p =>
    let p := if p.column = 0 && p.rest.head? = some '\ufeff' then p.next else p
    let p := p.dropWhile fun c => c = ' ' || (c = '\t' && (flow || !keyAllowed))
    let p := if p.rest.head? = some '#' then p.dropWhile (!isBreak ·) else p
    if p.rest.head?.any isBreak then
      contentFrom flow fuel (keyAllowed || !flow) p.next
    else (keyAllowed, p)

def toContent? (s : Cut) : Option Cut := do
  let (keyAllowed, p) :=
    contentFrom s.inFlow (s.position.rest.length + 1) s.keyAllowed s.position
  let key ← PossibleKey.giveUpOutdated? p s.key
  let outerKeys ← s.outerKeys.mapM (PossibleKey.giveUpOutdated? p)
  return { s with position := p, key, outerKeys, keyAllowed }.closeBlocks
    (· ≤ p.column)

/-! ## Single tokens -/

def marker? (s : Cut) (token : Token) : Option Cut := do
  let s ← (s.closeBlocks fun _ => false).dropKey?
  return { s.push token (s.position.skip 3) with keyAllowed := false }

def openFlow? (s : Cut) (token : Token) : Option Cut := do
  let s ← s.rememberKey?
  return { s.push token s.position.next with
    key := none, outerKeys := s.key :: s.outerKeys, keyAllowed := true }

def closeFlow? (s : Cut) (token : Token) : Option Cut := do
  let s ← s.dropKey?
  return { s.push token s.position.next with
    key := s.outerKeys.headD none
    outerKeys := s.outerKeys.drop 1
    keyAllowed := false }

def comma? (s : Cut) : Option Cut := do
  let s ← s.dropKey?
  return { s.push .comma s.position.next with keyAllowed := true }

def item? (s : Cut) : Option Cut := do
  if !s.inFlow && !s.keyAllowed then none
  let s ← (s.openBlock .blockSequence s.position.column 0).dropKey?
  return { s.push .item s.position.next with keyAllowed := true }

def key? (s : Cut) : Option Cut := do
  if !s.inFlow && !s.keyAllowed then none
  let s ← (s.openBlock .blockMapping s.position.column 0).dropKey?
  return { s.push .key s.position.next with keyAllowed := !s.inFlow }

/-- A colon makes what may be a key a key. -/
def value? (s : Cut) : Option Cut := do
  match s.key with
  | some k =>
    let n := s.tokens.length - k.tokens
    let s := { s with tokens := s.tokens.insertIdx n .key, key := none }
    let s := s.openBlock .blockMapping k.start.column (n + 1)
    return { s.push .value s.position.next with keyAllowed := false }
  | none =>
    if !s.inFlow && !s.keyAllowed then none
    let s := s.openBlock .blockMapping s.position.column 0
    return { s.push .value s.position.next with keyAllowed := !s.inFlow }

def quoted? (s : Cut) (quote : Char) : Option Cut := do
  let s ← s.rememberKey?
  let (text, p) ← Yaml.quoted? quote s.position
  return { s.push (.scalar text false) p with keyAllowed := false }

def plain? (s : Cut) : Option Cut := do
  let s ← s.rememberKey?
  let plain ← Yaml.plain? s.inFlow s.indent s.position
  return { s.push (.scalar plain.text true) plain.next with
    keyAllowed := plain.newLine }

def token? (s : Cut) : Option Cut :=
  if s.position.isAt "---" then s.marker? .documentStart
  else if s.position.isAt "..." then s.marker? .documentEnd
  else
    match s.position.rest with
    | '[' :: _ => s.openFlow? .flowSequence
    | ']' :: _ => s.closeFlow? .flowSequenceEnd
    | '\x7b' :: _ => s.openFlow? .flowMapping
    | '\x7d' :: _ => s.closeFlow? .flowMappingEnd
    | ',' :: _ => s.comma?
    | '\'' :: _ => s.quoted? '\''
    | '"' :: _ => s.quoted? '"'
    | c :: t =>
      if c = '-' && setOff t then s.item?
      else if c = '?' && (s.inFlow || setOff t) then s.key?
      else if c = ':' && (s.inFlow || setOff t) then s.value?
      else s.plain?
    | [] => none

def finish? : (fuel : Nat) → Cut → Option (List Token)
  | 0, _ => none
  | fuel + 1, s => do
    let s ← s.toContent?
    if s.position.rest.isEmpty then
      let s ← (s.closeBlocks fun _ => false).dropKey?
      return s.tokens.reverse
    else finish? fuel (← s.token?)

end Cut

def tokens? (t : Text) : Option (List Token) :=
  if t.all isPrintable then
    let t := unifyBreaks t
    { position := .start t : Cut }.finish? (t.length + 1)
  else none

end Yaml

end Bindery
