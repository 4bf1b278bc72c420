import Bindery.Source.Literal
import Bindery.Yaml.Basic

/-!
# YAML scalars

Scalars come plain, in single quotes or in double quotes.  Line breaks inside a
scalar are folded: a single line feed becomes a blank, and of several breaks the
first is dropped if it is a line feed.  Blanks next to a line break do not
count.  A plain scalar ends before a colon or a comment that is set off by white
space, and in a flow collection before its punctuation.  No scalar goes on over
a line that starts or ends a document.
-/

namespace Bindery

namespace Yaml

def fold (white : Text) : Text :=
  match white.filter isBreak with
  | [] => white
  | '\n' :: [] => [' ']
  | '\n' :: breaks => breaks
  | breaks => breaks

/-! ## Plain scalars -/

def startsPlain (flow : Bool) : Text → Bool
  | [] => false
  | c :: t =>
    if c = '-' then !setOff t
    else if c = '?' || c = ':' then !flow && !setOff t
    else !isWhite c && !isFlowMark c && !("#&*!|>'\"%@`".toList.contains c)

/-- In flow collections a colon may not stand directly before punctuation. -/
def strayColon (flow : Bool) : Text → Bool
  | ':' :: c :: _ => flow && (c == '?' || isFlowMark c)
  | _ => false

def plainRun (flow : Bool) : Text → Text
  | [] => []
  | c :: t =>
    if isWhite c || (c = ':' && setOff t) || (flow && isFlowMark c) ||
        strayColon flow (c :: t) then []
    else c :: plainRun flow t

/-- After a line break in `white`, a tab stands in front of the column
`indent`. -/
def tabIndents (indent : Nat) (white : Text) : Bool :=
  ((white.splitOnP isBreak).drop 1).any fun line =>
    (line.take indent).contains '\t'

/-- A plain scalar as it was read: its text, where it ends, and whether its end
is on a later line than its last character. -/
structure Plain where
  text : Text
  next : Position
  newLine : Bool

/-- Reads on after `read` and the white space that follows it.  Outside flow
collections further lines belong to the scalar as long as they start in the
column `indent` or to the right of it. -/
def plainFrom (flow : Bool) (indent : Nat) :
    (fuel : Nat) → (read white : Text) → Position → Option Plain
  | 0, _, _, _ => none
  | fuel + 1, read, white, p =>
    let run := plainRun flow p.rest
    let after := p.skip run.length
    if p.atMarker || p.rest.head? = some '#' then
      some ⟨read, p, white.any isBreak⟩
    else if strayColon flow after.rest then none
    else if run.isEmpty then some ⟨read, p, white.any isBreak⟩
    else
      let read := read ++ fold white ++ run
      let white := after.rest.takeWhile isWhite
      let p := after.skip white.length
      if tabIndents indent white then none
      else if !flow && p.column < indent then some ⟨read, p, white.any isBreak⟩
      else plainFrom flow indent fuel read white p

def plain? (flow : Bool) (indent : Nat) (p : Position) : Option Plain :=
  if startsPlain flow p.rest then
    plainFrom flow indent (p.rest.length + 1) [] [] p
  else none

/-! ## Quoted scalars -/

def escapes : List (Char × Nat) :=
  [('0', 0), ('a', 7), ('b', 8), ('t', 9), ('\t', 9), ('n', 10), ('v', 11),
    ('f', 12), ('r', 13), ('e', 27), (' ', 32), ('"', 34), ('/', 47),
    ('\\', 92), ('N', 0x85), ('_', 0xA0), ('L', 0x2028), ('P', 0x2029)]

def codeDigits : List (Char × Nat) := [('x', 2), ('u', 4), ('U', 8)]

def charOfCode? (code : Nat) : Option Char :=
  if code.isValidChar then some (Char.ofNat code) else none

/-- The character that an escape stands for, and the length of the escape after
its backslash. -/
def escape? : Text → Option (Char × Nat)
  | [] => none
  | c :: t =>
    match escapes.lookup c, codeDigits.lookup c with
    | some code, _ => some (Char.ofNat code, 1)
    | none, some n => do
      let digits := t.take n
      let code ← Source.natural? 16 digits
      if digits.length = n then return (← charOfCode? code, n + 1) else none
    | none, none => none

/-- Reads on up to the closing quote; `read` is in reverse.  In single quotes a
quote is written twice.  In double quotes there are escapes, and a line break
after a backslash does not count. -/
def quotedFrom (quote : Char) :
    (fuel : Nat) → (read : Text) → Position → Option (Text × Position)
  | 0, _, _ => none
  | fuel + 1, read, p =>
    match p.rest with
    | [] => none
    | c :: t =>
      if isWhite c then
        let white := p.rest.takeWhile isWhite
        let p := p.skip white.length
        if p.atMarker then none
        else quotedFrom quote fuel ((fold white).reverse ++ read) p
      else if c = quote then
        if quote = '\'' && t.head? = some '\'' then
          quotedFrom quote fuel ('\'' :: read) (p.skip 2)
        else some (read.reverse, p.next)
      else if quote = '"' && c = '\\' then
        if t.head?.any isBreak then
          let p := p.skip 2
          let white := p.rest.takeWhile isWhite
          let p := p.skip white.length
          if p.atMarker then none
          else quotedFrom quote fuel ((white.filter isBreak).reverse ++ read) p
        else
          match escape? t with
          | some (c, n) => quotedFrom quote fuel (c :: read) (p.skip (n + 1))
          | none => none
      else quotedFrom quote fuel (c :: read) p.next

def quoted? (quote : Char) (p : Position) : Option (Text × Position) :=
  quotedFrom quote (p.rest.length + 1) [] p.next

end Yaml

end Bindery
