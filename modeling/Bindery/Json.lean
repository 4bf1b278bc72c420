import Bindery.Entity

/-!
# JSON

Entities are written as JSON with an indentation of two blanks per level.
-/

namespace Bindery

inductive JsonValue where
  | null
  | string (text : Text)
  | array (items : List JsonValue)
  /-- The fields are written in the given order. -/
  | object (fields : List (Text × JsonValue))

namespace JsonValue

def shortEscapes : List (Char × Char) :=
  [('"', '"'), ('\\', '\\'), ('\n', 'n'), ('\r', 'r'), ('\t', 't'),
    ('\x08', 'b'), ('\x0c', 'f')]

/-- A character inside of quotes.  Other control characters are written by their
code. -/
def escapeChar (c : Char) : Text :=
  match shortEscapes.lookup c with
  | some letter => ['\\', letter]
  | none =>
    if c.toNat < 0x20 then
      ['\\', 'u', '0', '0', Nat.digitChar (c.toNat / 16),
        Nat.digitChar (c.toNat % 16)]
    else [c]

def quote (t : Text) : Text := '"' :: (t.flatMap escapeChar ++ ['"'])

def newline (level : Nat) : Text := '\n' :: List.replicate (2 * level) ' '

def bracket (opening closing : Char) (level : Nat) : List Text → Text
  | [] => [opening, closing]
  | items =>
    Text.concat [[opening], newline (level + 1),
      Text.join (',' :: newline (level + 1)) items, newline level, [closing]]

mutual

def pretty (level : Nat) : JsonValue → Text
  | null => "null"
  | string t => quote t
  | array items => bracket '[' ']' level (prettyItems (level + 1) items)
  | object fields =>
    bracket '\x7b' '\x7d' level (prettyFields (level + 1) fields)

def prettyItems (level : Nat) : List JsonValue → List Text
  | [] => []
  | item :: items => pretty level item :: prettyItems level items

def prettyFields (level : Nat) : List (Text × JsonValue) → List Text
  | [] => []
  | (key, value) :: fields =>
    Text.concat [quote key, ": ", pretty level value] ::
      prettyFields level fields

end

def ofOption (t : Option Text) : JsonValue := t.elim null string

end JsonValue

def Member.toJson (m : Member) : JsonValue :=
  .object [("category", .string m.category.name), ("type", .ofOption m.type),
    ("name", .string m.name), ("value", .ofOption m.value),
    ("description", .ofOption m.description)]

def Entity.toJson (e : Entity) : JsonValue :=
  .object [("category", .string e.category.name), ("type", .ofOption e.type),
    ("namespace", .array (e.scope.map .string)), ("name", .string e.name),
    ("description", .ofOption e.description),
    ("members", .array (e.members.map Member.toJson))]

end Bindery
