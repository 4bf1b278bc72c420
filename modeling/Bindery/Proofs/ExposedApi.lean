import Bindery.Proofs.RenderedFiles

/-!
# The interface that bindings and declarations show

Emscripten bindings and TypeScript declarations are made from the same
entities by two renderers that know nothing of each other.  What a caller can
see of an entity is its exposed name, what kind of thing it is, and the names
of its members in order.  Both renderers are read as such an interface here,
and the interfaces are equal.  The files consist of the texts of the entities
that have an interface, and each text shows the names in its interface.

The cases follow the categories of entities.  Only classes need more: their
members are compared one by one, and a member that one renderer leaves out the
other leaves out as well.
-/

namespace Bindery

/-- A part of an entity that callers can reach. -/
inductive ExposedMember where
  | enumerator (name : Text)
  | field (name : Text)
  | element (name : Text)
  /-- An element of an array, which has no name. -/
  | index (i : Nat)
  | property (name : Text)
  | method (name : Text)
  | ptrGetter (name : Text)
  | arrayGetter (name : Text)
deriving DecidableEq

def ExposedMember.name? : ExposedMember → Option Text
  | enumerator name | field name | element name => some name
  | index _ => none
  | property name | method name => some name
  | ptrGetter name | arrayGetter name => some name

inductive ExposedKind where
  | constant
  | enum
  | handle
  | valueObject
  | classOf
  | tuple
  | array
  | function
deriving DecidableEq

/-- What callers see of an entity. -/
structure Interface where
  name : Text
  kind : ExposedKind
  members : List ExposedMember
deriving DecidableEq

/-- The names that a text about the entity has to show, in this order. -/
def Interface.names (i : Interface) : List Text :=
  i.name :: i.members.filterMap ExposedMember.name?

/-! ## Names in texts -/

/-- The names stand in the text one behind the other. -/
def Text.Shows : (names : List Text) → Text → Prop
  | [], _ => True
  | name :: names, t =>
    ∃ lead rest : Text, t = lead ++ (name ++ rest) ∧ Text.Shows names rest

namespace Text.Shows

theorem append_left {names : List Text} {t : Text} (h : Shows names t)
    (lead : Text) : Shows names (lead ++ t) := by
  cases names with
  | nil => trivial
  | cons name names =>
      obtain ⟨before, rest, rfl, h⟩ := h
      exact ⟨lead ++ before, rest, (List.append_assoc ..).symm, h⟩

theorem append {names others : List Text} {s t : Text} (hs : Shows names s)
    (ht : Shows others t) : Shows (names ++ others) (s ++ t) := by
  induction names generalizing s with
  | nil => exact ht.append_left s
  | cons name names ih =>
      obtain ⟨lead, rest, rfl, hs⟩ := hs
      exact ⟨lead, rest ++ t, by simp, ih hs⟩

theorem self (name : Text) : Shows [name] name :=
  ⟨[], [], by simp, trivial⟩

/-- A part that shows names stands in front of parts that show others. -/
theorem concat {names others : List Text} {part : Text} {after : List Text}
    (h : Shows names part) (before : List Text)
    (hafter : Shows others (Text.concat after)) :
    Shows (names ++ others) (Text.concat (before ++ part :: after)) := by
  rw [Text.concat, List.flatten_append, List.flatten_cons]
  exact (h.append hafter).append_left _

/-- A part that shows names stands between others. -/
theorem within {names : List Text} {part : Text} (h : Shows names part)
    (before after : List Text) :
    Shows names (Text.concat (before ++ part :: after)) := by
  have hafter : Shows [] (Text.concat after) := trivial
  have hparts := h.concat before hafter
  rwa [List.append_nil] at hparts

theorem part (name : Text) (before after : List Text) :
    Shows [name] (Text.concat (before ++ name :: after)) :=
  (self name).within before after

/-- A name, and behind it a part that shows further names. -/
theorem parts {names : List Text} {inner : Text} (h : Shows names inner)
    (name : Text) (before between after : List Text) :
    Shows (name :: names)
      (Text.concat (before ++ name :: (between ++ inner :: after))) :=
  (self name).concat before (h.within between after)

/-- Each element shows its name, if it has one. -/
theorem filterMap {α : Type} {name? : α → Option Text} {text : α → Text}
    (h : ∀ x, Shows (name? x).toList (text x)) (xs : List α) :
    Shows (xs.filterMap name?) (xs.flatMap text) := by
  induction xs with
  | nil => trivial
  | cons x xs ih =>
      have hname : (x :: xs).filterMap name? =
          (name? x).toList ++ xs.filterMap name? := by
        cases hx : name? x with
        | none => simp [hx]
        | some name => simp [hx]
      rw [hname, List.flatMap_cons]
      exact (h x).append ih

theorem map {α : Type} {name text : α → Text}
    (h : ∀ x, Shows [name x] (text x)) (xs : List α) :
    Shows (xs.map name) (xs.flatMap text) := by
  rw [← List.filterMap_eq_map]
  exact filterMap h xs

theorem members {α : Type} {text : α → Text} (member : α → ExposedMember)
    (h : ∀ x, Shows (member x).name?.toList (text x)) (xs : List α) :
    Shows ((xs.map member).filterMap ExposedMember.name?)
      (xs.flatMap text) := by
  rw [List.filterMap_map]
  exact filterMap h xs

/-- Pieces that each show a name, with anything between them. -/
theorem join {α : Type} {name text : α → Text}
    (h : ∀ x, Shows [name x] (text x)) (separator : Text) (xs : List α) :
    Shows (xs.map name) (Text.join separator (xs.map text)) := by
  induction xs with
  | nil => trivial
  | cons x xs ih =>
      cases xs with
      | nil => simpa [Text.join] using h x
      | cons y ys =>
          have htail := ih.append_left separator
          simpa [Text.join, List.intercalate] using (h x).append htail

end Text.Shows

/-! ## The interface of a registration -/

namespace Embind

def ClassMember.exposed : ClassMember → ExposedMember
  | property name => .property name
  | method name _ => .method name
  | ptrGetter name _ _ _ => .ptrGetter name
  | arrayGetter name _ _ _ _ => .arrayGetter name

def Shape.exposed : Shape → ExposedKind × List ExposedMember
  | constant => (.constant, [])
  | enum values => (.enum, values.map fun value => .enumerator value.1)
  | handle => (.handle, [])
  | valueObject fields => (.valueObject, fields.map .field)
  | classOf _ members => (.classOf, members.map ClassMember.exposed)
  | tuple elements => (.tuple, elements.map .element)
  | array _ length => (.array, (List.range length).map .index)
  | function => (.function, [])

def Registration.interface (r : Registration) : Interface :=
  ⟨r.exposed, r.shape.exposed.1, r.shape.exposed.2⟩

theorem shows_link (name : Text) (before after : List Text) :
    Text.Shows [name] (link (before ++ name :: after)) :=
  Text.Shows.part name ("\n" :: indent :: indent :: before) after

theorem shows_linkText (target : Text) (m : ClassMember) :
    Text.Shows m.exposed.name?.toList (m.linkText target) := by
  cases m with
  | property name => exact shows_link name [".property(\""] _
  | method name _ => exact shows_link name [".function(\""] _
  | ptrGetter name _ _ _ => exact shows_link name [".function(\""] _
  | arrayGetter name _ _ _ _ => exact shows_link name [".function(\""] _

/-- The text of a registration shows the exposed name and those of the
members. -/
theorem shows_text (r : Registration) :
    Text.Shows r.interface.names r.text := by
  obtain ⟨exposed, target, shape⟩ := r
  cases shape with
  | constant => exact .part exposed [indent, "constant(\""] _
  | enum values =>
      have hlinks := Text.Shows.members
        (fun value : Text × Text => .enumerator value.1)
        (fun value => shows_link value.1 [".value(\""]
          ["\", ", value.2, ")"]) values
      exact hlinks.parts exposed [indent, "enum_<", target, ">(\""] ["\")"]
        [";\n"]
  | handle => exact .part exposed [indent, "class_<", target, ">(\""] _
  | valueObject fields =>
      have hlinks := Text.Shows.members .field
        (fun name => shows_link name [".field(\""]
          ["\", &", target, "::", name, ")"]) fields
      exact hlinks.parts exposed [indent, "value_object<", target, ">(\""]
        ["\")"] [";\n"]
  | classOf constructor members =>
      have hlinks := Text.Shows.members ClassMember.exposed
        (shows_linkText target) members
      exact hlinks.parts exposed [indent, "class_<", target, ">(\""]
        ["\").constructor<>(", constructor, ")"] [";\n"]
  | tuple elements =>
      have hlinks := Text.Shows.members .element
        (fun name => shows_link name [".element(&", target, "::"] [")"])
        elements
      exact hlinks.parts exposed [indent, "value_array<", target, ">(\""]
        ["\")"] [";\n"]
  | array element length =>
      have hnone : ∀ i, Text.Shows (ExposedMember.index i).name?.toList
          (link [".element(emscripten::index<", Text.ofNat i, ">())"]) :=
        fun _ => trivial
      have hlinks := Text.Shows.members .index hnone (List.range length)
      exact hlinks.parts exposed
        [indent, "value_array<std::array<", element, ", ", Text.ofNat length,
          "> >(\""] ["\")"] [";\n"]
  | function => exact .part exposed [indent, "function(\""] _

/-- The elements of an array are registered by their indices. -/
theorem shows_indices (exposed target element : Text) (length : Nat) :
    Text.Shows ((List.range length).map Text.ofNat)
      (Registration.text ⟨exposed, target, .array element length⟩) := by
  have hlinks := Text.Shows.map
    (fun i => shows_link (Text.ofNat i) [".element(emscripten::index<"]
      [">())"]) (List.range length)
  exact hlinks.within [indent, "value_array<std::array<", element, ", ",
    Text.ofNat length, "> >(\"", exposed, "\")"] [";\n"]

end Embind

/-! ## The interface of a declaration -/

namespace TypeScript

/-- The constructor is part of every class and not counted as a member. -/
def ClassMember.exposed? : ClassMember → Option ExposedMember
  | constructor => none
  | property _ name _ => some (.property name)
  | method _ name _ _ => some (.method name)
  | ptrGetter _ name _ => some (.ptrGetter name)
  | arrayGetter _ name _ => some (.arrayGetter name)

def Shape.exposed : Shape → ExposedKind × List ExposedMember
  | constant _ => (.constant, [])
  | enum values => (.enum, values.map fun value => .enumerator value.name)
  | handle => (.handle, [])
  | valueObject fields => (.valueObject, fields.map fun f => .field f.name)
  | classOf _ members => (.classOf, members.filterMap ClassMember.exposed?)
  | tuple elements => (.tuple, elements.map fun p => .element p.name)
  | array _ length => (.array, (List.range length).map .index)
  | function _ _ => (.function, [])

def Declaration.interface (x : Declaration) : Interface :=
  ⟨x.exposed, x.shape.exposed.1, x.shape.exposed.2⟩

theorem shows_fieldText (f : Field) : Text.Shows [f.name] (fieldText f) :=
  (Text.Shows.part f.name [indent] _).append_left _

theorem shows_memberText (m : ClassMember) :
    Text.Shows (m.exposed?.bind ExposedMember.name?).toList m.text := by
  cases m with
  | constructor => trivial
  | property doc name type =>
      exact (Text.Shows.part name [indent] _).append_left _
  | method doc name params type =>
      exact (Text.Shows.part name [indent] _).append_left _
  | ptrGetter doc name type =>
      exact (Text.Shows.part name [indent] _).append_left _
  | arrayGetter doc name type =>
      exact (Text.Shows.part name [indent] _).append_left _

theorem shows_classText {names : List Text} {members : Text}
    (h : Text.Shows names members) (name : Text) (params : List Param) :
    Text.Shows (name :: names) (classText name params members) :=
  h.parts name ["export const "]
    [": \x7b new (", paramsText params, "): ode.", name,
      " \x7d;\nexport type ", name, " = \x7b\n", indent,
      "[EngineSymbol]: \"", name, "\";\n"] _

/-- The text of a declaration shows the exposed name and those of the
members. -/
theorem shows_text (x : Declaration) :
    Text.Shows x.interface.names x.text := by
  obtain ⟨name, doc, shape⟩ := x
  refine Text.Shows.append_left ?_ _
  cases shape with
  | constant type => exact .part name ["export const "] _
  | enum values =>
      have hfields := Text.Shows.members
        (fun value : Field => .enumerator value.name) shows_fieldText values
      exact hfields.parts name ["export const "]
        [": Enum<", name, "_Map>;\n", "export type ", name, " = EnumValue<",
          name, "_Index>;\n", "export type ", name, "_Index = ", name,
          "_Map[keyof ", name, "_Map];\n", "export type ", name,
          "_Map = \x7b\n"] _
  | handle =>
      have hnone : Text.Shows []
          (Text.concat [indent, "constructor();\n"]) := trivial
      exact shows_classText hnone name []
  | valueObject fields =>
      have hfields := Text.Shows.members
        (fun f : Field => .field f.name) shows_fieldText fields
      exact hfields.parts name ["export type "] [" = \x7b\n"] _
  | classOf params members =>
      have hmembers := Text.Shows.filterMap shows_memberText members
      rw [← List.filterMap_filterMap] at hmembers
      exact shows_classText hmembers name params
  | tuple elements =>
      have hnames :
          (elements.map fun p => ExposedMember.element p.name).filterMap
            ExposedMember.name? = elements.map Param.name := by
        simp [List.filterMap_map, Function.comp_def, ExposedMember.name?]
      have hlines := Text.Shows.join
        (fun p : Param => Text.Shows.part p.name ["\n", indent]
          [": ", p.type]) "," elements
      rw [← hnames] at hlines
      exact hlines.parts name ["export type "] [" = readonly ["] _
  | array element length =>
      have hnames : ((List.range length).map ExposedMember.index).filterMap
          ExposedMember.name? = [] := by
        simp [List.filterMap_map, ExposedMember.name?]
      rw [Interface.names]
      simp only [Declaration.interface, Shape.exposed, hnames]
      exact .part name ["export type "] _
  | function params type => exact .part name ["export function "] _

theorem shows_elements (name : Text) (doc : Option Text) (element : Text)
    (length : Nat) :
    Text.Shows (List.replicate length element)
      (Declaration.text ⟨name, doc, .array element length⟩) := by
  have hlines := Text.Shows.map
    (fun _ : Nat => Text.Shows.part element [indent] [",\n"])
    (List.range length)
  simp only [List.flatMap_def, List.map_const', List.length_range] at hlines
  exact (hlines.within ["export type ", name, " = readonly [\n"]
    ["];\n"]).append_left _

end TypeScript

/-! ## The members of classes -/

/-- A member of a class is left out by both renderers or shown by both in the
same way. -/
theorem classMember_exposed (d : Dialect) (e : Entity) (exposed : Text)
    (m : Member) :
    (Embind.classMember? d e exposed m).map Embind.ClassMember.exposed =
      (TypeScript.classMember? d e m).bind TypeScript.ClassMember.exposed? := by
  unfold Embind.classMember? TypeScript.classMember?
  cases m.category with
  | enumValue => rfl
  | argument => rfl
  | memberVariable =>
      by_cases hpointer : m.typeText.contains '*'
      · simp only [hpointer, if_true, Option.map_none, Option.bind_none]
      · simp only [hpointer]
        rfl
  | constructorBind => rfl
  | methodBind => rfl
  | ptrGetterBind => rfl
  | arrayGetterBind =>
      cases m.value with
      | none => rfl
      | some value =>
          cases harray : arrayGetterFields? value with
          | none => simp [harray]
          | some fields =>
              cases htype : e.memberType? fields.1 with
              | none => simp [harray, htype]
              | some type =>
                  cases hpointee : pointeeType? type with
                  | none => simp [harray, htype, hpointee]
                  | some element =>
                      simp [harray, htype, hpointee,
                        Embind.ClassMember.exposed,
                        TypeScript.ClassMember.exposed?]

theorem TypeScript.exposed?_isSome {d : Dialect} {e : Entity} {m : Member}
    {member : ClassMember} (hcategory : m.category = .arrayGetterBind)
    (h : classMember? d e m = some member) : member.exposed?.isSome := by
  simp only [classMember?, hcategory, Option.bind_eq_bind,
    Option.bind_eq_some_iff, Option.pure_def, Option.some.injEq] at h
  obtain ⟨_, _, _, _, _, _, _, _, rfl⟩ := h
  rfl

theorem classMembers_exposed (d : Dialect) (e : Entity) (exposed : Text) :
    (e.members.filterMap (Embind.classMember? d e exposed)).map
        Embind.ClassMember.exposed =
      (e.members.filterMap (TypeScript.classMember? d e)).filterMap
        TypeScript.ClassMember.exposed? := by
  rw [List.map_filterMap, List.filterMap_filterMap]
  congr 1
  funext m
  exact classMember_exposed d e exposed m

/-! ## The agreement -/

theorem shape_exposed (ctx : Context) (e : Entity) :
    (Embind.shape? ctx e).map Embind.Shape.exposed =
      (TypeScript.shape? ctx e).map TypeScript.Shape.exposed := by
  unfold Embind.shape? TypeScript.shape?
  cases boundArray? e with
  | some array => rfl
  | none =>
      cases e.category with
      | define => rfl
      | constant => rfl
      | enum => simp [Embind.Shape.exposed, TypeScript.Shape.exposed]
      | typedef => rfl
      | handle => rfl
      | struct =>
          by_cases hvalue : ctx.isValueObject e
          · simp [hvalue, Embind.Shape.exposed, TypeScript.Shape.exposed,
              Embind.fieldNames, TypeScript.fieldOf]
          · simp [hvalue, Embind.Shape.exposed, TypeScript.Shape.exposed,
              Embind.classShape, classMembers_exposed]
      | tuple =>
          simp [Embind.Shape.exposed, TypeScript.Shape.exposed,
            Embind.fieldNames]
      | function => rfl
      | arrayInstance => rfl

theorem interface_eq (ctx : Context) (e : Entity) :
    (Embind.registration? ctx e).map Embind.Registration.interface =
      (TypeScript.declaration? ctx e).map
        TypeScript.Declaration.interface := by
  have hshape := congrArg
    (Option.map fun exposed : ExposedKind × List ExposedMember =>
      Interface.mk (ctx.exposedName e) exposed.1 exposed.2)
    (shape_exposed ctx e)
  simpa [Embind.registration?, TypeScript.declaration?, Function.comp_def,
    Embind.Registration.interface, TypeScript.Declaration.interface]
    using hshape

/-- Without recorded headers every array instance is registered. -/
theorem Embind.registrations_eq {ctx : Context} (hctx : ctx.arrayOwners = [])
    (h : Header) :
    (registrations ctx h).map Prod.snd =
      h.entities.filterMap (registration? ctx) := by
  have hbinds : ∀ e, ctx.bindsArray e h.path = true := by
    intro e
    simp [Context.bindsArray, hctx]
  rw [registrations, List.map_filterMap]
  congr 1
  funext e
  simp [hbinds, Function.comp_def]

/-- Both renderers show an entity in the same way, or both leave it out. -/
structure ShownAlike (ctx : Context) (e : Entity) : Prop where
  interface_eq :
    (Embind.registration? ctx e).map Embind.Registration.interface =
      (TypeScript.declaration? ctx e).map TypeScript.Declaration.interface
  written_iff : (Embind.registration? ctx e).isSome ↔
    TypeScript.render ctx [e] ≠ TypeScript.render ctx []
  registration_shows : ∀ r, Embind.registration? ctx e = some r →
    r.interface.name = ctx.exposedName e ∧
      Text.Shows r.interface.names r.text
  declaration_shows : ∀ x, TypeScript.declaration? ctx e = some x →
    x.interface.name = ctx.exposedName e ∧
      Text.Shows x.interface.names x.text
  elements_shown : ∀ element length,
    boundArray? e = some (element, length) →
      (∀ r, Embind.registration? ctx e = some r →
        Text.Shows ((List.range length).map Text.ofNat) r.text) ∧
      (∀ x, TypeScript.declaration? ctx e = some x →
        Text.Shows (List.replicate length
          (TypeScript.typeName ctx.dialect element)) x.text)
  pointer_hidden : ∀ m ∈ e.members, m.category = .memberVariable →
    m.typeText.contains '*' →
      Embind.classMember? ctx.dialect e (ctx.exposedName e) m = none ∧
        TypeScript.classMember? ctx.dialect e m = none
  getter_omitted_iff : ∀ m ∈ e.members, m.category = .arrayGetterBind →
    (Embind.classMember? ctx.dialect e (ctx.exposedName e) m = none ↔
      TypeScript.classMember? ctx.dialect e m = none)

theorem shownAlike (ctx : Context) (e : Entity) : ShownAlike ctx e where
  interface_eq := interface_eq ctx e
  written_iff := by
    have hsome := congrArg Option.isSome (interface_eq ctx e)
    rw [Option.isSome_map, Option.isSome_map] at hsome
    rw [TypeScript.render_singleton_ne_iff, hsome]
  registration_shows r h := by
    obtain ⟨shape, _, rfl⟩ := Option.map_eq_some_iff.mp h
    exact ⟨rfl, Embind.shows_text _⟩
  declaration_shows x h := by
    obtain ⟨shape, _, rfl⟩ := Option.map_eq_some_iff.mp h
    exact ⟨rfl, TypeScript.shows_text _⟩
  elements_shown element length h := by
    constructor
    · intro r hr
      rw [Embind.registration?, Embind.shape?, h] at hr
      rw [← Option.some.inj hr]
      exact Embind.shows_indices _ _ element length
    · intro x hx
      rw [TypeScript.declaration?, TypeScript.shape?, h] at hx
      rw [← Option.some.inj hx]
      exact TypeScript.shows_elements _ _ _ length
  pointer_hidden m _ hcategory hpointer := by
    simp only [Embind.classMember?, TypeScript.classMember?, hcategory,
      hpointer, if_true, and_self]
  getter_omitted_iff m _ hcategory := by
    rw [← Option.map_eq_none_iff, classMember_exposed]
    cases hmember : TypeScript.classMember? ctx.dialect e m with
    | none => simp
    | some member =>
        have hexposed := TypeScript.exposed?_isSome hcategory hmember
        simp [Option.isSome_iff_ne_none.mp hexposed]

/-- A class: the pointer field and the getter without a pointer field are not
shown. -/
example :
    let field (type name : Text) : Member :=
      { category := .memberVariable, type := some type, name }
    let getter (name value : Text) : Member :=
      { category := .arrayGetterBind, name, value := some value }
    let e : Entity :=
      { category := .struct, name := "ODE_List"
        members := [field "int *" "items", field "int" "n",
          getter "get" "items,n", getter "at" "n,n"] }
    (TypeScript.declaration? {} e).map (·.interface) =
      some ⟨"List", .classOf, [.property "n", .arrayGetter "get"]⟩ := by
  cbv

end Bindery
