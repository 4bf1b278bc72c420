import Bindery.Proofs.Enumerations

/-!
# Structs as they are written, and the entities they stand for

A struct is a tree: its items are lines of members, enums, and further structs
of any depth.  This file says how such a tree is written, one item on a line
and indented by any number of blanks for each level, and which entities it
stands for.  The entities are listed in the order in which their declarations
end, with the array types of a line of members in front.  Every member with
dimensions asks for its array type; only the first request counts.
-/

namespace Bindery.Written

open Source

/-- Stars, a name and dimensions. -/
structure Declarator where
  stars : Nat
  name : Identifier
  dims : List Digits

structure MemberLine where
  type : Identifier
  type_ne : type.text ≠ ("ODE_TUPLE" : Text)
  first : Declarator
  others : List Declarator

/-- What a nested struct or enum is called: it has a tag, a variable behind
the closing brace, or both. -/
inductive Label where
  | tagged (tag : Identifier) (trailer : Option Trailer)
  | untagged (trailer : Trailer)

inductive Item where
  | line (l : MemberLine)
  | enum (label : Label) (enumerators : List Enumerator)
  | struct (label : Label) (items : List Item)

/-- What a struct at file scope is called: it has a declared name, a tag, or
both. -/
inductive Title where
  | declared (tag : Option Identifier) (name : Identifier)
  | tagged (tag : Identifier)

structure Struct where
  title : Title
  items : List Item

/-! ## Writing -/

namespace Declarator

def sigils (d : Declarator) : Text := List.replicate d.stars '*'

def dimsText (d : Declarator) : Text :=
  d.dims.flatMap fun n => '[' :: (n.text ++ [']'])

def text (d : Declarator) : Text := d.sigils ++ (d.name.text ++ d.dimsText)

end Declarator

namespace MemberLine

def declarators (l : MemberLine) : List Declarator := l.first :: l.others

def text (l : MemberLine) : Text :=
  l.type.text ++ (listed (l.declarators.map Declarator.text) ++ [';'])

end MemberLine

namespace Label

def frame : Label → Frame
  | tagged tag trailer => ⟨false, some tag, trailer⟩
  | untagged trailer => ⟨false, none, some trailer⟩

/-- The tag comes first. -/
def name : Label → Identifier
  | tagged tag _ => tag
  | untagged trailer => trailer.name

end Label

namespace Title

def frame : Title → Frame
  | declared tag name => ⟨true, tag, some ⟨false, name⟩⟩
  | tagged tag => ⟨true, some tag, none⟩

/-- The declared name comes first. -/
def name : Title → Identifier
  | declared _ name => name
  | tagged tag => tag

end Title

def indentation (width depth : Nat) : Text := List.replicate (width * depth) ' '

mutual

def Item.text (width depth : Nat) : Item → Text
  | .line l => l.text
  | .enum label enumerators => label.frame.text "enum" (enumText enumerators)
  | .struct label items =>
    label.frame.text "struct"
      (linesText width (depth + 1) items ++ '\n' :: indentation width depth)

/-- The items of a struct, each on a line of its own. -/
def linesText (width depth : Nat) : List Item → Text
  | [] => []
  | item :: items =>
    '\n' :: (indentation width depth ++
      (item.text width depth ++ linesText width depth items))

end

def Struct.text (width : Nat) (s : Struct) : Text :=
  s.title.frame.text "struct"
    (linesText width 1 s.items ++ '\n' :: indentation width 0)

/-! ## The entities -/

namespace Declarator

variable (base : Text) (d : Declarator)

def elementType : Text :=
  if d.stars = 0 then base else base ++ ' ' :: d.sigils

/-- The name of the array type, which tells the element type and the
dimensions. -/
def arrayName : Text :=
  base ++ ((List.replicate d.stars ("_ptr" : Text)).flatten ++
    (("_array" : Text) ++ d.dims.flatMap fun n => '_' :: n.text))

def member : Member :=
  { category := .memberVariable
    type := some (if d.dims.isEmpty then d.elementType base
      else d.arrayName base)
    name := d.name.text }

/-- The array type that the declared member asks for. -/
def arrays : List Entity :=
  if d.dims.isEmpty then []
  else
    [{ category := .arrayInstance
       type := some (d.elementType base ++ d.dimsText)
       name := d.arrayName base }]

end Declarator

/-- The variable behind the closing brace has the nested type, named with the
structs around it. -/
def Label.members (scope : List Text) (label : Label) : List Member :=
  label.frame.trailer.toList.map fun v =>
    { category := .memberVariable
      type := some (Text.join [':', ':'] (scope ++ [label.name.text]) ++
        if v.pointer then [' ', '*'] else [])
      name := v.name.text }

def Item.members (scope : List Text) : Item → List Member
  | .line l => l.declarators.map (·.member l.type.text)
  | .enum label _ => label.members scope
  | .struct label _ => label.members scope

def structEntity (scope : List Text) (name : Identifier)
    (items : List Item) : Entity :=
  { category := .struct
    scope
    name := name.text
    members := items.flatMap (Item.members (scope ++ [name.text])) }

mutual

/-- What an item asks for, in the order of the text. -/
def Item.entities (scope : List Text) : Item → List Entity
  | .line l => l.declarators.flatMap (·.arrays l.type.text)
  | .enum label enumerators =>
    [{ category := .enum
       scope
       name := label.name.text
       members := enumMembersFrom (some 0) enumerators }]
  | .struct label items =>
    entitiesOf (scope ++ [label.name.text]) items ++
      [structEntity scope label.name items]

def entitiesOf (scope : List Text) : List Item → List Entity
  | [] => []
  | item :: items => item.entities scope ++ entitiesOf scope items

end

/-- Array types whose name is known are left out. -/
def firstArrays : (known : List Text) → List Entity → List Entity
  | _, [] => []
  | known, e :: es =>
    if e.category = .arrayInstance then
      if e.name ∈ known then firstArrays known es
      else e :: firstArrays (e.name :: known) es
    else e :: firstArrays known es

def Struct.entities (s : Struct) : List Entity :=
  firstArrays [] (entitiesOf [s.title.name.text] s.items ++
    [structEntity [] s.title.name s.items])

end Bindery.Written
