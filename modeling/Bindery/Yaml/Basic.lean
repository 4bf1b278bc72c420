import Bindery.Text.Basic

/-!
# YAML values and places in a document

A value is a scalar, a sequence or a mapping.  A document is read through
positions, which know their line and column, since indentation carries meaning.
-/

namespace Bindery

inductive Yaml where
  /-- The text of a scalar, and whether it is written without quotes. -/
  | scalar (text : Text) (plain : Bool)
  | sequence (items : List Yaml)
  | mapping (entries : List (Yaml × Yaml))

namespace Yaml

def empty : Yaml := scalar [] true

/-! ## Characters -/

def isPrintable (c : Char) : Bool :=
  let n := c.toNat
  n == 9 || n == 10 || n == 13 || (0x20 ≤ n && n ≤ 0x7E) || n == 0x85 ||
    (0xA0 ≤ n && n != 0xFFFE && n != 0xFFFF)

/-- Carriage returns, alone or in front of a line feed, and next-line characters
stand for line feeds. -/
def unifyBreaks : Text → Text
  | '\r' :: '\n' :: t => '\n' :: unifyBreaks t
  | c :: t => (if c = '\r' || c = '\u0085' then '\n' else c) :: unifyBreaks t
  | [] => []

/-- The characters that end lines.  The line and paragraph separators of Unicode
are among them. -/
def isBreak (c : Char) : Bool := c == '\n' || c == '\u2028' || c == '\u2029'

def isBlank (c : Char) : Bool := c == ' ' || c == '\t'

def isWhite (c : Char) : Bool := isBlank c || isBreak c

/-- White space or the end follows. -/
def setOff (t : Text) : Bool := t.head?.all isWhite

def isFlowMark (c : Char) : Bool :=
  c == ',' || c == '[' || c == ']' || c == '\x7b' || c == '\x7d'

/-! ## Positions -/

structure Position where
  line : Nat
  column : Nat
  index : Nat
  rest : Text

namespace Position

def start (t : Text) : Position := ⟨0, 0, 0, t⟩

def next (p : Position) : Position :=
  match p.rest with
  | [] => p
  | c :: t =>
    let index := p.index + c.utf8Size
    if isBreak c then ⟨p.line + 1, 0, index, t⟩
    else ⟨p.line, p.column + 1, index, t⟩

def skip (p : Position) : Nat → Position
  | 0 => p
  | n + 1 => p.next.skip n

def dropWhile (p : Position) (f : Char → Bool) : Position :=
  p.skip (p.rest.takeWhile f).length

/-- A document starts or ends with a mark at the beginning of a line. -/
def isAt (mark : Text) (p : Position) : Bool :=
  p.column == 0 && (Text.after? mark p.rest).any setOff

def atMarker (p : Position) : Bool := p.isAt "---" || p.isAt "..."

end Position

end Yaml

end Bindery
