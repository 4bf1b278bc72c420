import Bindery.Dialect
import Bindery.Source.Compound
import Bindery.Source.Declaration
import Bindery.Source.Remark
import Bindery.Source.Split

/-!
# Struct bodies

A struct body holds members, binding macros and nested structs and enums.
Reading it gives a tree: the bodies of nested structs are read in turn.  The
recursion ends because the body of a nested struct is shorter than the body
around it.
-/

namespace Bindery.Source

inductive Entry where
  | tupleMarker
  | constructor (params expression : Text)
  | method (signature name expression : Text)
  | ptrGetter (name field : Text)
  | arrayGetter (name arrayField lengthField : Text)
  | enum (compound : Compound)
  /-- A base type and declarators separated by commas. -/
  | variables (baseType declarators : Text)
deriving DecidableEq

inductive BodyItem where
  | entry (entry : Entry)
  | struct (compound : Compound)
deriving DecidableEq

namespace BodyItem

open Matcher

def isParamChar (c : Char) : Bool :=
  Text.isWord c || Text.isSpace c || c == ':' || c == '*' || c == '&'

def isParamListChar (c : Char) : Bool := isParamChar c || c == ','

def normalParams (params : Text) : Text :=
  Text.concat ["(", Text.join "," ((params.splitOn ',').map Text.trim), ")"]

def paramList : Rule Text := do
  Rule.skip (sequence [literal "(", spaces])
  let params ← Rule.capture (fewest isParamListChar)
  Rule.skip (sequence [spaces, literal ")", textEnd])
  return normalParams params.text

def signature : Rule Text := do
  let returnType ← Rule.capture (sequence [one isParamChar, fewest isParamChar])
  Rule.skip spaces
  let params ← paramList
  return Text.trim returnType.text ++ params

/-- What a macro call encloses in its parentheses; a semicolon has to follow. -/
def macroArguments? (marker t : Text) : Option (Text × Text) := do
  let (_, t) ←
    (Rule.skip (sequence [literal marker, spaces, literal "("])).first? t
  let (args, t) ← enclosed '(' t
  let rest ← Text.after? ";" (Text.trimStart t)
  return (args, rest)

def tupleRule (d : Dialect) : Rule Entry := do
  Rule.skip
    (sequence [literal d.tupleMarker, either (one Text.isSpace) textEnd])
  return .tupleMarker

def constructor? (d : Dialect) (t : Text) : Option (Entry × Text) := do
  let (args, rest) ← macroArguments? d.bindConstructor t
  match splitTopLevel ',' 2 args with
  | [params, expression] =>
    let (params, _) ← paramList.first? params
    if expression.isEmpty then none
    else return (.constructor params expression, rest)
  | _ => none

def method? (d : Dialect) (t : Text) : Option (Entry × Text) := do
  let (args, rest) ← macroArguments? d.bindMethod t
  match splitTopLevel ',' 3 args with
  | [sig, name, expression] =>
    let (sig, _) ← signature.first? sig
    if name.isEmpty || !name.all Text.isIdent || expression.isEmpty then none
    else return (.method sig name expression, rest)
  | _ => none

def ptrGetterRule (d : Dialect) : Rule Entry := do
  Rule.skip (sequence [literal d.bindPtrGetter, spaces, literal "(", spaces])
  let name ← Rule.capture word
  Rule.skip (sequence [spaces, literal ",", spaces])
  let field ← Rule.capture word
  Rule.skip (sequence [spaces, literal ")", spaces, literal ";"])
  return .ptrGetter name.text field.text

def arrayGetterRule (d : Dialect) : Rule Entry := do
  Rule.skip (sequence [literal d.bindArrayGetter, spaces, literal "(", spaces])
  let name ← Rule.capture word
  Rule.skip (sequence [spaces, literal ",", spaces])
  let arrayField ← Rule.capture word
  Rule.skip (sequence [spaces, literal ",", spaces])
  let lengthField ← Rule.capture word
  Rule.skip (sequence [spaces, literal ")", spaces, literal ";"])
  return .arrayGetter name.text arrayField.text lengthField.text

def isSigil (c : Char) : Bool := Text.isSpace c || c == '*' || c == '&'

def isDeclaratorChar (c : Char) : Bool :=
  Text.isWord c || isSigil c || c == ',' || c == '[' || c == ']'

def isDeclaratorEnd (c : Char) : Bool := Text.isWord c || c == ']'

/-- The ends of the words that a text begins with, the last one first.  White
space and stars may stand between the words; `shorter` collects the ends of
those in front. -/
def wordEndsFrom (shorter : List Text) : Matcher
  | [] => shorter
  | c :: t =>
    if Text.isWord c then
      wordEndsFrom (if t.head?.any Text.isWord then shorter else t :: shorter) t
    else if Declaration.isTypeEnd c then wordEndsFrom shorter t
    else shorter

def typeWords : Matcher := fun t =>
  if t.head?.any Text.isWord then wordEndsFrom [] t else []

/-- A type and declarators.  The type extends as far as it can, and the first
declarator starts with what separates it from the type. -/
def variablesRule : Rule Entry := do
  let baseType ← Rule.capture typeWords
  let declarators ← Rule.capture (sequence [run1 isSigil, word,
    repeated (sequence
      [spaces, literal "[", spaces, run Text.isWord, spaces, literal "]"]),
    optional (sequence
      [spaces, literal ",", many isDeclaratorChar, one isDeclaratorEnd])])
  Rule.skip (sequence [spaces, literal ";"])
  return .variables (Text.trim baseType.text) declarators.text

def entryBy (read : Text → Option (Entry × Text)) (c : Cursor) :
    Option (Piece BodyItem × Text) :=
  (read c.ahead).map fun (item, rest) => (.declared (.entry item), rest)

def structBy (c : Cursor) : Option (Piece BodyItem × Text) :=
  (Compound.read? "struct" c.ahead).map fun (compound, rest) =>
    (.declared (.struct compound), rest)

def rules (d : Dialect) : List (Cursor → Option (Piece BodyItem × Text)) :=
  [ entryBy (tupleRule d).first?,
    entryBy (constructor? d),
    entryBy (method? d),
    entryBy (ptrGetterRule d).first?,
    entryBy (arrayGetterRule d).first?,
    entryBy fun t =>
      (Compound.read? "enum" t).map fun (c, rest) => (.enum c, rest),
    structBy,
    entryBy variablesRule.first? ] ++
    remarkRules

def next (d : Dialect) (c : Cursor) : Option (Found BodyItem c) :=
  recognise (rules d) c

/-- The rules by which an element of a body may have been read at a cursor. -/
inductive ReadAt (d : Dialect) (c : Cursor) : BodyItem → Text → Prop
  | tuple {e : Entry} {rest : Text}
    (h : (tupleRule d).first? c.ahead = some (e, rest)) :
    ReadAt d c (.entry e) rest
  | constructor {e : Entry} {rest : Text}
    (h : constructor? d c.ahead = some (e, rest)) : ReadAt d c (.entry e) rest
  | method {e : Entry} {rest : Text} (h : method? d c.ahead = some (e, rest)) :
    ReadAt d c (.entry e) rest
  | ptrGetter {e : Entry} {rest : Text}
    (h : (ptrGetterRule d).first? c.ahead = some (e, rest)) :
    ReadAt d c (.entry e) rest
  | arrayGetter {e : Entry} {rest : Text}
    (h : (arrayGetterRule d).first? c.ahead = some (e, rest)) :
    ReadAt d c (.entry e) rest
  | enum {compound : Compound} {rest : Text}
    (h : Compound.read? "enum" c.ahead = some (compound, rest)) :
    ReadAt d c (.entry (.enum compound)) rest
  | struct {compound : Compound} {rest : Text}
    (h : Compound.read? "struct" c.ahead = some (compound, rest)) :
    ReadAt d c (.struct compound) rest
  | variables {e : Entry} {rest : Text}
    (h : variablesRule.first? c.ahead = some (e, rest)) :
    ReadAt d c (.entry e) rest

theorem of_entryBy {read : Text → Option (Entry × Text)} {c : Cursor}
    {x : BodyItem} {rest : Text}
    (h : entryBy read c = some (.declared x, rest)) :
    ∃ e, x = .entry e ∧ read c.ahead = some (e, rest) := by
  obtain ⟨⟨e, rest'⟩, he, heq⟩ := Option.map_eq_some_iff.mp h
  simp only [Prod.mk.injEq, Piece.declared.injEq] at heq
  exact ⟨e, heq.1.symm, heq.2 ▸ he⟩

theorem readAt_of_next {d : Dialect} {c : Cursor} {found : Found BodyItem c}
    {x : BodyItem} (h : next d c = some found)
    (hpiece : found.piece = .declared x) : ReadAt d c x found.rest := by
  obtain ⟨rule, hmem, hrule⟩ := exists_rule_of_recognise h
  rw [hpiece] at hrule
  rcases List.mem_append.mp hmem with hmem | hmem
  · simp only [List.mem_cons, List.not_mem_nil, or_false] at hmem
    rcases hmem with rfl | rfl | rfl | rfl | rfl | rfl | rfl | rfl
    · obtain ⟨e, rfl, he⟩ := of_entryBy hrule
      exact .tuple he
    · obtain ⟨e, rfl, he⟩ := of_entryBy hrule
      exact .constructor he
    · obtain ⟨e, rfl, he⟩ := of_entryBy hrule
      exact .method he
    · obtain ⟨e, rfl, he⟩ := of_entryBy hrule
      exact .ptrGetter he
    · obtain ⟨e, rfl, he⟩ := of_entryBy hrule
      exact .arrayGetter he
    · obtain ⟨e, rfl, he⟩ := of_entryBy hrule
      obtain ⟨⟨compound, rest⟩, hread, heq⟩ := Option.map_eq_some_iff.mp he
      obtain ⟨rfl, rfl⟩ := Prod.mk.inj heq
      exact .enum hread
    · obtain ⟨⟨compound, rest⟩, hread, heq⟩ := Option.map_eq_some_iff.mp hrule
      simp only [Prod.mk.injEq, Piece.declared.injEq] at heq
      obtain ⟨rfl, rfl⟩ := heq
      exact .struct hread
    · obtain ⟨e, rfl, he⟩ := of_entryBy hrule
      exact .variables he
  · exact absurd hrule (not_declared_of_mem_remarkRules hmem)

end BodyItem

/-- An element of a struct body with its documentation.  A nested struct comes
with the elements of its own body. -/
inductive Tree where
  | entry (doc : Option Text) (entry : Entry)
  | nested (doc : Option Text) (compound : Compound) (children : List Tree)

namespace Tree

def items (d : Dialect) (body : Text) : List (Documented BodyItem) :=
  documented ((walk (BodyItem.next d) (.start body)).map Located.piece)

theorem length_lt_of_mem_items {d : Dialect} {body : Text}
    {x : Documented BodyItem} {compound : Compound} (h : x ∈ items d body)
    (hx : x.item = .struct compound) :
    compound.body.length < body.length := by
  have hmem := mem_of_mem_documentedFrom h
  rw [List.mem_map] at hmem
  obtain ⟨located, hlocated, hpiece⟩ := hmem
  obtain ⟨hle, hnext⟩ := mem_walk hlocated
  rcases hnext with ⟨found, hfound, heq⟩ | htoken
  · have hpiece : found.piece = .declared (.struct compound) := by
      rw [← heq, hpiece, hx]
    cases BodyItem.readAt_of_next hfound hpiece with
    | struct hread =>
      exact Nat.lt_of_lt_of_le (Compound.length_body_lt hread) hle
  · simp [hpiece] at htoken

def readBody (d : Dialect) (body : Text) : List Tree :=
  (items d body).attach.map fun x =>
    match _hx : x.1.item with
    | .entry e => .entry x.1.doc e
    | .struct compound => .nested x.1.doc compound (readBody d compound.body)
termination_by body.length
decreasing_by exact length_lt_of_mem_items x.2 _hx

theorem readBody_eq (d : Dialect) (body : Text) :
    readBody d body = (items d body).map fun x =>
      match x.item with
      | .entry e => .entry x.doc e
      | .struct compound =>
        .nested x.doc compound (readBody d compound.body) := by
  rw [readBody]
  conv => rhs; rw [← List.attach_map_subtype_val (items d body), List.map_map]
  apply List.map_congr_left
  intro x _
  simp only [Function.comp]
  split <;> simp_all

end Tree

end Bindery.Source
