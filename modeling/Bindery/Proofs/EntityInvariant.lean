import Bindery.Header
import Bindery.Proofs.DeclaredNames
import Bindery.Proofs.Declarators

/-!
# The shape of the entity list

The entities of a header satisfy the same conditions whatever the source is.
Most of them concern one entity at a time.  That an enclosing struct follows
what is nested in it concerns the order of the list, and it only holds once
the struct is complete.  While the body of a struct is gathered, entities may
still wait for the structs that are open; `EnclosedUpTo` lists these, and
closing a struct takes the last of them off the list.
-/

namespace Bindery

open Source

/-- The categories whose entities have a type. -/
def Category.isTyped : Category → Bool
  | .define | .constant | .typedef | .handle | .function
  | .arrayInstance => true
  | .enum | .struct | .tuple => false

/-- The categories of the members that entities of a category may have. -/
def Category.admits : Category → MemberCategory → Bool
  | .enum, .enumValue => true
  | .function, .argument => true
  | .struct, .memberVariable | .tuple, .memberVariable => true
  | .struct, .constructorBind | .tuple, .constructorBind => true
  | .struct, .methodBind | .tuple, .methodBind => true
  | .struct, .ptrGetterBind | .tuple, .ptrGetterBind => true
  | .struct, .arrayGetterBind | .tuple, .arrayGetterBind => true
  | _, _ => false

structure Member.WellFormed (owner : Category) (m : Member) : Prop where
  name_ne_nil : m.name ≠ []
  admitted : owner.admits m.category = true
  variable_typed : m.category = .memberVariable → m.type.isSome = true

structure Entity.WellFormed (e : Entity) : Prop where
  name_ne_nil : e.name ≠ []
  type_isSome : e.type.isSome = e.category.isTyped
  members : ∀ m ∈ e.members, m.WellFormed e.category
  array : e.category = .arrayInstance → e.scope = [] ∧ e.members = []

/-- A struct or tuple of the given scope and name. -/
structure Entity.IsStruct (e : Entity) (scope : List Text) (name : Text) :
    Prop where
  category : e.category = .struct ∨ e.category = .tuple
  scope_eq : e.scope = scope
  name_eq : e.name = name

def arrayNames (entities : List Entity) : List Text :=
  (entities.filter (·.category = .arrayInstance)).map Entity.name

/-- The conditions on the entities of a header. -/
structure WellFormed (entities : List Entity) : Prop where
  each : ∀ e ∈ entities, e.WellFormed
  enclosed : ∀ before e after scope name,
    entities = before ++ e :: after → e.scope = scope ++ [name] →
      ∃ outer ∈ after, outer.IsStruct scope name
  arrays_nodup : (arrayNames entities).Nodup

/-! ## Entities that wait for an open struct -/

/-- Every enclosing struct follows, unless it is one of the open ones. -/
def EnclosedUpTo (opened : List Text) (entities : List Entity) : Prop :=
  ∀ before e after scope name,
    entities = before ++ e :: after → e.scope = scope ++ [name] →
      (∃ outer ∈ after, outer.IsStruct scope name) ∨
        scope ++ [name] <+: opened

/-- An entity of a longer list is the last one or one of the others. -/
theorem snoc_eq_append_cons {entities before after : List Entity}
    {last e : Entity} (h : entities ++ [last] = before ++ e :: after) :
    (e = last ∧ before = entities ∧ after = []) ∨
      ∃ after', after = after' ++ [last] ∧
        entities = before ++ e :: after' := by
  rcases List.eq_nil_or_concat after with rfl | ⟨after', x, rfl⟩
  · have hparts := List.append_inj' h rfl
    simp only [List.cons.injEq, and_true] at hparts
    exact .inl ⟨hparts.2.symm, hparts.1.symm, rfl⟩
  · rw [List.concat_eq_append, ← List.cons_append, ← List.append_assoc] at h
    have hparts := List.append_inj' h rfl
    simp only [List.cons.injEq, and_true] at hparts
    refine .inr ⟨after', ?_, hparts.1⟩
    rw [List.concat_eq_append, hparts.2]

namespace EnclosedUpTo

variable {opened scope : List Text} {entities : List Entity} {e : Entity}

theorem initial : EnclosedUpTo [] [] := by
  intro before e after scope name hsplit
  simp at hsplit

theorem mono (h : EnclosedUpTo scope entities) (hopened : scope <+: opened) :
    EnclosedUpTo opened entities := by
  intro before e after scope' name hsplit hscope
  rcases h before e after scope' name hsplit hscope with h | h
  · exact .inl h
  · exact .inr (h.trans hopened)

/-- An entity may be added in the scope of the structs that are open. -/
theorem snoc (h : EnclosedUpTo opened entities) (he : e.scope <+: opened) :
    EnclosedUpTo opened (entities ++ [e]) := by
  intro before x after scope' name hsplit hscope
  rcases snoc_eq_append_cons hsplit with
    ⟨rfl, _, _⟩ | ⟨after', rfl, hentities⟩
  · rw [hscope] at he
    exact .inr he
  · rcases h before x after' scope' name hentities hscope with
      ⟨outer, hmem, houter⟩ | h
    · exact .inl ⟨outer, List.mem_append_left _ hmem, houter⟩
    · exact .inr h

/-- When the innermost open struct is added, what waited for it has found
it. -/
theorem close {name : Text} (h : EnclosedUpTo (scope ++ [name]) entities)
    (he : e.IsStruct scope name) :
    EnclosedUpTo scope (entities ++ [e]) := by
  intro before x after scope' name' hsplit hscope
  rcases snoc_eq_append_cons hsplit with
    ⟨rfl, _, _⟩ | ⟨after', rfl, hentities⟩
  · rw [← hscope, he.scope_eq]
    exact .inr (List.prefix_refl scope)
  · rcases h before x after' scope' name' hentities hscope with
      ⟨outer, hmem, houter⟩ | hprefix
    · exact .inl ⟨outer, List.mem_append_left _ hmem, houter⟩
    · rcases List.prefix_concat_iff.mp hprefix with heq | hprefix
      · have hparts := List.append_inj' heq rfl
        simp only [List.cons.injEq, and_true] at hparts
        refine .inl ⟨e, by simp, ?_⟩
        rw [hparts.1, hparts.2]
        exact he
      · exact .inr hprefix

/-- Where no struct is open, no entity waits. -/
theorem enclosed (h : EnclosedUpTo [] entities) :
    ∀ before e after scope name,
      entities = before ++ e :: after → e.scope = scope ++ [name] →
        ∃ outer ∈ after, outer.IsStruct scope name := by
  intro before e after scope name hsplit hscope
  rcases h before e after scope name hsplit hscope with h | h
  · exact h
  · simp at h

end EnclosedUpTo

/-! ## The invariant of gathering -/

/-- What holds of the entities found so far while the structs named in
`opened` are still open. -/
structure Gathered.Invariant (opened : List Text) (g : Gathered) :
    Prop where
  each : ∀ e ∈ g.entities, e.WellFormed
  enclosed : EnclosedUpTo opened g.entities
  arrays_eq : arrayNames g.entities = g.arrays.reverse
  arrays_nodup : g.arrays.Nodup

theorem arrayNames_snoc (entities : List Entity) (e : Entity) :
    arrayNames (entities ++ [e]) = arrayNames entities ++
      if e.category = .arrayInstance then [e.name] else [] := by
  unfold arrayNames
  rw [List.filter_append, List.map_append]
  by_cases he : e.category = .arrayInstance
  · simp [he]
  · simp [he]

/-- Recording an array type keeps what was found before. -/
theorem prefix_pushArray (g : Gathered) (elementType : Text)
    (dims : List Text) :
    g.entities <+: (g.pushArray elementType dims).entities := by
  unfold Gathered.pushArray
  simp only
  split
  · exact List.prefix_refl _
  · exact List.prefix_append _ _

namespace Gathered.Invariant

variable {opened scope : List Text} {g : Gathered} {e : Entity}

theorem initial : ({} : Gathered).Invariant [] where
  each := by simp
  enclosed := EnclosedUpTo.initial
  arrays_eq := rfl
  arrays_nodup := List.nodup_nil

theorem mono (h : g.Invariant scope) (hopened : scope <+: opened) :
    g.Invariant opened :=
  { h with enclosed := h.enclosed.mono hopened }

theorem each_push (h : g.Invariant opened) (he : e.WellFormed) :
    ∀ x ∈ (g.push e).entities, x.WellFormed := by
  intro x hx
  simp only [Gathered.push, List.mem_append, List.mem_singleton] at hx
  rcases hx with hx | rfl
  · exact h.each x hx
  · exact he

theorem arrays_push (h : g.Invariant opened)
    (hcategory : e.category ≠ .arrayInstance) :
    arrayNames (g.push e).entities = (g.push e).arrays.reverse := by
  simp only [Gathered.push]
  rw [arrayNames_snoc, if_neg hcategory, List.append_nil]
  exact h.arrays_eq

theorem push (h : g.Invariant opened) (he : e.WellFormed)
    (hscope : e.scope <+: opened)
    (hcategory : e.category ≠ .arrayInstance) :
    (g.push e).Invariant opened where
  each := h.each_push he
  enclosed := h.enclosed.snoc hscope
  arrays_eq := h.arrays_push hcategory
  arrays_nodup := h.arrays_nodup

theorem close {name : Text} (h : g.Invariant (scope ++ [name]))
    (he : e.WellFormed) (hstruct : e.IsStruct scope name) :
    (g.push e).Invariant scope where
  each := h.each_push he
  enclosed := h.enclosed.close hstruct
  arrays_eq := by
    apply h.arrays_push
    rcases hstruct.category with hcategory | hcategory
    · simp [hcategory]
    · simp [hcategory]
  arrays_nodup := h.arrays_nodup

theorem pushArray (h : g.Invariant opened) (elementType : Text)
    (dims : List Text) :
    (g.pushArray elementType dims).Invariant opened := by
  unfold Gathered.pushArray
  by_cases hknown : g.arrays.contains (arrayInstanceName elementType dims)
  · simp only [hknown, if_true]
    exact h
  · simp only [hknown, Bool.false_eq_true, if_false]
    have hname : arrayInstanceName elementType dims ≠ [] := by
      intro hnil
      have hlength := congrArg List.length hnil
      simp [arrayInstanceName, Text.concat] at hlength
    constructor
    · intro e he
      simp only [List.mem_append, List.mem_singleton] at he
      rcases he with he | rfl
      · exact h.each e he
      · exact ⟨hname, rfl, by simp, by simp⟩
    · exact h.enclosed.snoc (by simp)
    · rw [arrayNames_snoc, h.arrays_eq]
      simp
    · simp only [List.contains_eq_mem, decide_eq_true_eq] at hknown
      exact List.nodup_cons.mpr ⟨hknown, h.arrays_nodup⟩

end Gathered.Invariant

/-! ## Names taken from fragments -/

namespace Source

theorem Compound.name_ne_nil {c : Compound} {name : Text}
    (h : c.resolvedName = some name) : name ≠ [] := by
  have hname := List.find?_some h
  simpa using hname

theorem Compound.variable_ne_nil {c : Compound} {name : Text}
    (h : c.declaredVariable? = some name) : name ≠ [] := by
  unfold Compound.declaredVariable? at h
  split at h
  · contradiction
  · next hcondition =>
    simp only [Option.some.injEq] at h
    subst name
    simp only [Bool.or_eq_true, not_or, List.isEmpty_iff] at hcondition
    exact hcondition.2

theorem trailingIdentifier_ne_nil {t head name : Text}
    (h : trailingIdentifier t = some (head, name)) : name ≠ [] := by
  obtain ⟨i, rfl, _⟩ := trailingIdentifier_eq_some h
  exact i.text_ne_nil

theorem Declarator.name_ne_nil {raw : Text} {declarator : Declarator}
    (h : Declarator.parse? raw = some declarator) :
    declarator.name ≠ [] := by
  obtain ⟨_, _, _, hname, _⟩ := Declarator.parse?_eq_some_iff.mp h
  exact trailingIdentifier_ne_nil hname

theorem splitArgument_ne_nil {raw type name : Text}
    (h : splitArgument raw = some (type, name)) : name ≠ [] := by
  simp only [splitArgument, Option.bind_eq_bind,
    Option.bind_eq_some_iff] at h
  obtain ⟨⟨head, name'⟩, hname, h⟩ := h
  simp only at h
  split at h
  · contradiction
  · split at h
    · contradiction
    · simp only [Option.pure_def, Option.some.injEq, Prod.mk.injEq] at h
      rw [← h.2]
      exact trailingIdentifier_ne_nil hname

theorem Enumerator.name_ne_nil {piece : Text} {e : Enumerator}
    (h : Enumerator.parse? piece = some e) : e.name ≠ [] := by
  simp only [Enumerator.parse?] at h
  split at h
  all_goals
    simp only [Option.ite_none_left_eq_some, Option.some.injEq,
      Bool.or_eq_true, not_or, List.isEmpty_iff] at h
    rw [← h.2]
    exact h.1.1.1

end Source

/-! ## Members -/

/-- What holds of a struct while its body is gathered. -/
def Fields.WellFormed (f : Fields) : Prop :=
  ∀ m ∈ f.members, m.WellFormed .struct

theorem Fields.WellFormed.initial : ({} : Fields).WellFormed := by
  intro m hm
  simp at hm

theorem Fields.WellFormed.add {f : Fields} {m : Member}
    (hf : f.WellFormed) (hm : m.WellFormed .struct) :
    (f.add m).WellFormed := by
  intro m' hm'
  simp only [Fields.add, List.mem_append, List.mem_singleton] at hm'
  rcases hm' with hm' | rfl
  · exact hf m' hm'
  · exact hm

theorem enumMembersFrom_wellFormed (previous : Option (Option Text))
    {es : List Enumerator} (hes : ∀ e ∈ es, e.name ≠ []) :
    ∀ m ∈ enumMembersFrom previous es, m.WellFormed .enum := by
  induction es generalizing previous with
  | nil => simp [enumMembersFrom]
  | cons e es ih =>
      simp only [List.mem_cons, forall_eq_or_imp] at hes
      intro m hm
      simp only [enumMembersFrom, List.mem_cons] at hm
      rcases hm with rfl | hm
      · exact ⟨hes.1, rfl, by simp⟩
      · exact ih _ hes.2 m hm

theorem enumEntity_wellFormed {scope : List Text} {doc : Option Text}
    {c : Compound} {e : Entity} (h : enumEntity? scope doc c = some e) :
    e.WellFormed ∧ e.category = .enum ∧ e.scope = scope := by
  obtain ⟨name, hname, rfl⟩ := Option.map_eq_some_iff.mp h
  refine ⟨⟨Compound.name_ne_nil hname, rfl, ?_, by simp⟩, rfl, rfl⟩
  apply enumMembersFrom_wellFormed
  intro e he
  obtain ⟨piece, _, hpiece⟩ := List.mem_filterMap.mp he
  exact Enumerator.name_ne_nil hpiece

theorem nestedMember_wellFormed {c : Compound} {e : Entity} {m : Member}
    (h : nestedMember? c e = some m) : m.WellFormed .struct := by
  obtain ⟨name, hname, rfl⟩ := Option.map_eq_some_iff.mp h
  exact ⟨Compound.variable_ne_nil hname, rfl, fun _ => rfl⟩

theorem Fields.WellFormed.addNested {f : Fields} (hf : f.WellFormed)
    (c : Compound) (e : Entity) :
    ((nestedMember? c e).elim f f.add).WellFormed := by
  cases h : nestedMember? c e with
  | none => exact hf
  | some m => exact hf.add (nestedMember_wellFormed h)

theorem exists_of_structEntity? {scope : List Text} {doc : Option Text}
    {c : Compound} {fields : Fields} {e : Entity}
    (h : structEntity? scope doc c fields = some e) :
    ∃ name, c.resolvedName = some name ∧ e.IsStruct scope name ∧
      e.members = fields.members ∧ e.type = none := by
  obtain ⟨name, hname, rfl⟩ := Option.map_eq_some_iff.mp h
  refine ⟨name, hname, ⟨?_, rfl, rfl⟩, rfl, rfl⟩
  cases fields.isTuple with
  | false => exact .inl rfl
  | true => exact .inr rfl

theorem functionEntity_wellFormed {doc : Option Text}
    {returnType name args : Text} (hname : name ≠ []) :
    (functionEntity doc returnType name args).WellFormed := by
  refine ⟨hname, rfl, ?_, by simp [functionEntity]⟩
  intro m hm
  obtain ⟨raw, _, hraw⟩ := List.mem_filterMap.mp hm
  obtain ⟨⟨type, argName⟩, hsplit, rfl⟩ := Option.map_eq_some_iff.mp hraw
  exact ⟨splitArgument_ne_nil hsplit, rfl, by simp⟩

/-! ## Struct bodies -/

/-- The entities found so far and the members of the innermost open
struct. -/
structure GatherInvariant (opened : List Text) (s : Gathered × Fields) :
    Prop where
  gathered : s.1.Invariant opened
  fields : s.2.WellFormed

namespace GatherInvariant

variable {scope : List Text} {s : Gathered × Fields}

theorem gatherVariable (h : GatherInvariant scope s) (baseType : Text)
    (doc : Option Text) (raw : Text) :
    GatherInvariant scope (gatherVariable baseType doc s raw) := by
  unfold Bindery.gatherVariable
  split
  · exact h
  · next declarator hdeclarator =>
    have hname := Declarator.name_ne_nil hdeclarator
    simp only
    split
    · exact ⟨h.gathered, h.fields.add ⟨hname, rfl, fun _ => rfl⟩⟩
    · exact ⟨h.gathered.pushArray _ _,
        h.fields.add ⟨hname, rfl, fun _ => rfl⟩⟩

theorem gatherVariables (h : GatherInvariant scope s) (baseType : Text)
    (doc : Option Text) (raws : List Text) :
    GatherInvariant scope
      (raws.foldl (Bindery.gatherVariable baseType doc) s) := by
  induction raws generalizing s with
  | nil => exact h
  | cons raw raws ih => exact ih (h.gatherVariable baseType doc raw)

theorem gatherEntry (h : GatherInvariant scope s) (doc : Option Text)
    {entry : Entry} (hentry : entry.name? ≠ some []) :
    GatherInvariant scope (gatherEntry scope doc s entry) := by
  cases entry with
  | tupleMarker => exact ⟨h.gathered, h.fields⟩
  | constructor params expression =>
      have hname : expression ≠ [] := by simpa [Entry.name?] using hentry
      exact ⟨h.gathered, h.fields.add ⟨hname, rfl, by simp⟩⟩
  | method signature name expression =>
      have hname : name ≠ [] := by simpa [Entry.name?] using hentry
      exact ⟨h.gathered, h.fields.add ⟨hname, rfl, by simp⟩⟩
  | ptrGetter name field =>
      have hname : name ≠ [] := by simpa [Entry.name?] using hentry
      exact ⟨h.gathered, h.fields.add ⟨hname, rfl, by simp⟩⟩
  | arrayGetter name arrayField lengthField =>
      have hname : name ≠ [] := by simpa [Entry.name?] using hentry
      exact ⟨h.gathered, h.fields.add ⟨hname, rfl, by simp⟩⟩
  | enum compound =>
      simp only [Bindery.gatherEntry]
      split
      · exact h
      · next e he =>
        obtain ⟨hwf, hcategory, hscope⟩ := enumEntity_wellFormed he
        refine ⟨h.gathered.push hwf ?_ ?_, h.fields.addNested compound e⟩
        · rw [hscope]
        · simp [hcategory]
  | «variables» baseType declarators =>
      exact h.gatherVariables baseType doc _

/-- A struct that is complete no longer is open.  One without a name never
was: what is nested in it waits for the structs around it. -/
theorem closeStruct {c : Compound} {g : Gathered} {fields : Fields}
    (h : GatherInvariant (innerScope scope c) (g, fields))
    (doc : Option Text) :
    ((structEntity? scope doc c fields).elim g g.push).Invariant scope := by
  have hgathered := h.gathered
  cases he : structEntity? scope doc c fields with
  | none =>
      have hname := Option.map_eq_none_iff.mp he
      simp only [innerScope, hname, Option.toList_none, List.append_nil]
        at hgathered
      exact hgathered
  | some e =>
      obtain ⟨name, hname, hstruct, hmembers, htype⟩ :=
        exists_of_structEntity? he
      simp only [innerScope, hname, Option.toList_some] at hgathered
      refine hgathered.close ?_ hstruct
      refine ⟨?_, ?_, ?_, ?_⟩
      · rw [hstruct.name_eq]
        exact Compound.name_ne_nil hname
      · rcases hstruct.category with hcategory | hcategory
        · simp [htype, hcategory, Category.isTyped]
        · simp [htype, hcategory, Category.isTyped]
      · intro m hm
        rw [hmembers] at hm
        have hmember := h.fields m hm
        refine ⟨hmember.name_ne_nil, ?_, hmember.variable_typed⟩
        have hadmitted := hmember.admitted
        rcases hstruct.category with hcategory | hcategory
        · rwa [hcategory]
        · rw [hcategory]
          revert hadmitted
          cases m.category <;> simp [Category.admits]
      · intro harray
        rcases hstruct.category with hcategory | hcategory
        · simp [hcategory] at harray
        · simp [hcategory] at harray

theorem enter (h : GatherInvariant scope s) (c : Compound) :
    GatherInvariant (innerScope scope c) (s.1, {}) :=
  ⟨h.gathered.mono (List.prefix_append _ _), Fields.WellFormed.initial⟩

end GatherInvariant

mutual

theorem gatherTree_invariant {scope : List Text} {s : Gathered × Fields}
    (h : GatherInvariant scope s) :
    ∀ {tree : Tree}, tree.Named →
      GatherInvariant scope (gatherTree scope s tree)
  | .entry doc entry, hnamed => by
      cases hnamed with
      | entry hentry => exact h.gatherEntry doc hentry
  | .nested doc compound children, hnamed => by
      cases hnamed with
      | nested hchildren =>
          -- The name of the struct is owed to its children until it closes.
          have hinner := gatherTrees_invariant (h.enter compound) hchildren
          have hclosed := hinner.closeStruct doc
          simp only [gatherTree]
          split
          · next hstruct =>
            rw [hstruct] at hclosed
            exact ⟨hclosed, h.fields⟩
          · next e hstruct =>
            rw [hstruct] at hclosed
            exact ⟨hclosed, h.fields.addNested compound e⟩

theorem gatherTrees_invariant {scope : List Text} {s : Gathered × Fields}
    (h : GatherInvariant scope s) :
    ∀ {trees : List Tree}, (∀ tree ∈ trees, tree.Named) →
      GatherInvariant scope (gatherTrees scope s trees)
  | [], _ => h
  | tree :: trees, hnamed => by
      simp only [List.mem_cons, forall_eq_or_imp] at hnamed
      simp only [gatherTrees]
      exact gatherTrees_invariant (gatherTree_invariant h hnamed.1) hnamed.2

end

/-! ## Whole headers -/

theorem gatherDeclaration_invariant {d : Dialect} {g : Gathered}
    (h : g.Invariant []) {x : Documented Declaration}
    (hx : x.item.name? ≠ some []) :
    (gatherDeclaration d g x).Invariant [] := by
  obtain ⟨doc, item⟩ := x
  cases item with
  | define name value =>
      have hname : name ≠ [] := by simpa [Declaration.name?] using hx
      exact h.push ⟨hname, rfl, by simp, by simp⟩ (by simp) (by simp)
  | constant type name =>
      have hname : name ≠ [] := by simpa [Declaration.name?] using hx
      exact h.push ⟨hname, rfl, by simp, by simp⟩ (by simp) (by simp)
  | enum compound =>
      simp only [gatherDeclaration]
      cases he : enumEntity? [] doc compound with
      | none => exact h
      | some e =>
          obtain ⟨hwf, hcategory, hscope⟩ := enumEntity_wellFormed he
          exact h.push hwf (by simp [hscope]) (by simp [hcategory])
  | typedef type name dims =>
      have hname : name ≠ [] := by simpa [Declaration.name?] using hx
      exact h.push ⟨hname, rfl, by simp, by simp⟩ (by simp) (by simp)
  | handle tag name =>
      have hname : name ≠ [] := by simpa [Declaration.name?] using hx
      exact h.push ⟨hname, rfl, by simp, by simp⟩ (by simp) (by simp)
  | struct compound =>
      have hopen : GatherInvariant [] (g, {}) :=
        ⟨h, Fields.WellFormed.initial⟩
      have hnamed : ∀ tree ∈ Tree.readBody d compound.body, tree.Named :=
        fun tree htree => Tree.named_of_mem_readBody htree
      have hinner := gatherTrees_invariant (hopen.enter compound) hnamed
      exact hinner.closeStruct doc
  | function returnType name args =>
      have hname : name ≠ [] := by simpa [Declaration.name?] using hx
      exact h.push (functionEntity_wellFormed hname)
        (by simp [functionEntity]) (by simp [functionEntity])

theorem gatherDeclarations_invariant {d : Dialect} {g : Gathered}
    (h : g.Invariant []) {xs : List (Documented Declaration)}
    (hxs : ∀ x ∈ xs, x.item.name? ≠ some []) :
    (xs.foldl (gatherDeclaration d) g).Invariant [] := by
  induction xs generalizing g with
  | nil => exact h
  | cons x xs ih =>
      simp only [List.mem_cons, forall_eq_or_imp] at hxs
      exact ih (gatherDeclaration_invariant h hxs.1) hxs.2

/-- The entities of every header are well formed, also those of a text that
is no header at all. -/
theorem Header.parse_wellFormed (d : Dialect) (source : Text) :
    WellFormed (Header.parse d source) := by
  have hnames : ∀ x ∈ Declaration.readAll d (spliceLines source),
      x.item.name? ≠ some [] :=
    fun x hx => Declaration.name_of_mem_readAll hx
  have h := gatherDeclarations_invariant (d := d)
    Gathered.Invariant.initial hnames
  constructor
  · exact h.each
  · exact h.enclosed.enclosed
  · unfold Header.parse
    rw [h.arrays_eq, List.nodup_reverse]
    exact h.arrays_nodup

end Bindery
