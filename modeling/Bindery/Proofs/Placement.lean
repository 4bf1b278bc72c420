import Bindery.Proofs.ListPieces
import Bindery.Proofs.Spelling

/-!
# Structs in other places

What a struct contributes to the entities of a header hardly depends on the
scope in which it stands.  A `Sketch` is what is gathered from a body with the
scope around the struct left open: entities know their scope from the struct
on, and a member that is declared together with a nested struct or enum keeps
its type in two parts, between which the outer scope goes.  Filling in any
scope gives what is gathered there.

The type of such a member is cleaned up after it has been put together.  This
does not touch the names of the outer scope, so they may be inserted before or
after it.
-/

namespace Bindery

open Source

/-! ## Types of members declared with a compound -/

/-- The names of a scope as they stand in front of a name in it. -/
def scopePrefix (scope : List Text) : Text :=
  scope.flatMap fun name => name ++ ("::" : Text)

theorem qualified_append (outer scope : List Text) (name : Text) :
    qualified (outer ++ scope) name =
      scopePrefix outer ++ qualified scope name := by
  rw [qualified, List.flatMap_append, List.append_assoc]
  rfl

theorem mem_scopePrefix {scope : List Text}
    (h : ∀ name ∈ scope, Text.IsSpelled name) {c : Char}
    (hc : c ∈ scopePrefix scope) : Text.isWord c = true ∨ c = ':' := by
  obtain ⟨name, hname, hc⟩ := List.mem_flatMap.mp hc
  rcases List.mem_append.mp hc with hc | hc
  · exact .inl (h name hname c hc)
  · exact .inr (by simpa using hc)

theorem mem_qualified {scope : List Text} {name : Text}
    (h : ∀ x ∈ scope, Text.IsSpelled x) (hname : Text.IsSpelled name) {c : Char}
    (hc : c ∈ qualified scope name) : Text.isWord c = true ∨ c = ':' := by
  rcases List.mem_append.mp hc with hc | hc
  · exact mem_scopePrefix h hc
  · exact .inl (hname c hc)

theorem ne_star_of_isWord_or {c : Char} (h : Text.isWord c = true ∨ c = ':') :
    c ≠ '*' := by
  rintro rfl
  rcases h with hword | hcolon
  · exact absurd hword (by decide)
  · contradiction

theorem not_isSpace_of_isWord_or {c : Char}
    (h : Text.isWord c = true ∨ c = ':') : Text.isSpace c = false := by
  rcases h with hword | rfl
  · by_contra hspace
    rw [Text.isWord_of_isSpace (by simpa using hspace)] at hword
    contradiction
  · rfl

theorem replacePair_append {a b : Char} {new x : Text} (h : a ∉ x) (t : Text) :
    Text.replacePair a b new (x ++ t) = x ++ Text.replacePair a b new t := by
  induction x with
  | nil => rfl
  | cons c x ih =>
      simp only [List.mem_cons, not_or] at h
      rw [List.cons_append, List.cons_append, ← ih h.2]
      cases x ++ t with
      | nil => rfl
      | cons y u => rw [Text.replacePair, if_neg fun hpair => h.1 hpair.1.symm]

/-- Only what follows a solid word is trimmed. -/
theorem trim_append_word {x word t : Text}
    (hx : ∀ c ∈ x.head?, Text.isSpace c = false)
    (hword : ∀ c ∈ word, Text.isSpace c = false) (hne : word ≠ []) :
    Text.trim (x ++ (word ++ t)) = x ++ (word ++ Text.trimEnd t) := by
  have hstart : Text.trimStart (x ++ (word ++ t)) = x ++ (word ++ t) := by
    cases x with
    | nil =>
        obtain ⟨c, word, rfl⟩ := List.exists_cons_of_ne_nil hne
        exact Text.trimStart_cons (hword c (by simp)) _
    | cons c x => exact Text.trimStart_cons (hx c rfl) _
  have hend : (word.reverse ++ x.reverse).dropWhile Text.isSpace =
      word.reverse ++ x.reverse := by
    obtain ⟨c, rest, heq⟩ :=
      List.exists_cons_of_ne_nil (List.reverse_ne_nil_iff.mpr hne)
    rw [heq, List.cons_append, List.dropWhile_cons_of_neg]
    rw [hword c (List.mem_reverse.mp (heq ▸ List.mem_cons_self))]
    decide
  rw [Text.trim, hstart, Text.trimEnd, Text.trimEnd, List.reverse_append,
    List.reverse_append, List.append_assoc, List.dropWhile_append, hend]
  split
  · next hempty =>
    rw [List.isEmpty_iff.mp hempty]
    simp
  · simp

namespace Rule

theorem Yields.capture?_bind_of {β : Type} {P : β → Prop} {m : Matcher}
    {Q : Text → Prop} {f : Option Span → Rule β}
    (hm : ∀ t rest, rest ∈ m t → Q (Span.text ⟨t, rest⟩))
    (hsome : ∀ span, Q span.text → (f (some span)).Yields P)
    (hnone : (f none).Yields P) : (capture? m >>= f).Yields P := by
  intro γ t k b h
  rw [run_bind] at h
  rcases of_run_capture? h with ⟨rest, hrest, h⟩ | h
  · exact hsome _ (hm t rest hrest) γ rest k b h
  · exact hnone γ t k b h

end Rule

namespace Source.Compound

/-- The compound was read from some text. -/
def IsRead (c : Compound) : Prop :=
  ∃ keyword t rest, read? keyword t = some (c, rest)

theorem IsRead.spelled {c : Compound} (h : c.IsRead) : c.Spelled := by
  obtain ⟨_, _, _, hread⟩ := h
  exact spelled_of_read? hread

/-- The qualifiers that a compound may be read with. -/
def IsQualifier (q : Option Text) : Prop :=
  q = none ∨ q = some ("typedef" : Text) ∨ q = some ("const" : Text)

theorem trim_qualifier {word : Text} (hword : Text.trim word = word)
    {t rest : Text}
    (h : rest ∈ Matcher.sequence [Matcher.literal word, Matcher.spaces1] t) :
    Text.trim (Span.text ⟨t, rest⟩) = word := by
  obtain ⟨mid, hmid, hrest⟩ := Matcher.mem_sequence_cons.mp h
  obtain rfl := Matcher.mem_literal.mp hmid
  obtain ⟨blanks, hblanks, rfl⟩ :=
    Matcher.within_run1 (fun _ hc => hc) mid rest hrest
  rw [← List.append_assoc, Span.text_append,
    Text.trim_append_spaces word hblanks, hword]

theorem head_qualifier (keyword : Text) :
    (head keyword).Yields fun x => IsQualifier x.1 := by
  refine .capture?_bind_of (Q := fun q => IsQualifier (some (Text.trim q)))
    ?_ (fun span hspan => ?_) ?_
  · intro t rest h
    rcases Matcher.mem_either.mp h with h | h
    · exact .inr (.inl (congrArg some (trim_qualifier (by decide) h)))
    · exact .inr (.inr (congrArg some (trim_qualifier (by decide) h)))
  · exact .skip_bind (.capture_bind fun _ => .skip_bind (.pure hspan))
  · exact .skip_bind (.capture_bind fun _ => .skip_bind (.pure (.inl rfl)))

theorem IsRead.qualifier {c : Compound} (h : c.IsRead) :
    IsQualifier c.qualifier := by
  obtain ⟨keyword, t, rest, h⟩ := h
  simp only [read?, Option.bind_eq_bind, Option.bind_eq_some_iff] at h
  obtain ⟨⟨⟨qualifier, tag⟩, t1⟩, hhead, ⟨body, t2⟩, _, ⟨declarator, t3⟩,
    _, heq⟩ := h
  simp only [Option.pure_def, Option.some.injEq, Prod.mk.injEq] at heq
  rw [← heq.1]
  exact (head_qualifier keyword).of_first? hhead

def lead (c : Compound) : Text :=
  if c.qualifier = some ("const" : Text) then "const " else []

/-- The type of a variable declared together with the compound, from the name
of the compound on, before it is trimmed. -/
def typeFrom (c : Compound) (qualifiedName : Text) : Text :=
  Text.replacePair '*' ' ' "*" (qualifiedName ++ ' ' :: c.sigils)

theorem star_notMem_lead (c : Compound) : '*' ∉ c.lead := by
  unfold lead
  split
  · decide
  · simp

theorem head_lead (c : Compound) :
    ∀ x ∈ c.lead.head?, Text.isSpace x = false := by
  unfold lead
  split
  · intro x hx
    obtain rfl : 'c' = x := Option.some.inj hx
    rfl
  · simp

theorem IsRead.nestedMemberType_eq {c : Compound} (h : c.IsRead)
    (qualifiedName : Text) :
    nestedMemberType c.qualifier qualifiedName c.sigils =
      Text.trim (c.lead ++ c.typeFrom qualifiedName) := by
  have hsigils : Text.trim c.sigils = c.sigils := Text.trim_trim _
  rw [typeFrom, ← replacePair_append c.star_notMem_lead]
  unfold nestedMemberType lead
  rcases h.qualifier with hq | hq | hq
  · simp [hq, hsigils, Text.concat]
  · have htrim : Text.trim ("typedef" : Text) = ("typedef" : Text) := by decide
    rw [hq, Option.map_some, htrim, if_neg (by decide)]
    simp only [hsigils]
    rw [if_pos (by decide)]
    simp [Text.concat]
  · have htrim : Text.trim ("const" : Text) = ("const" : Text) := by decide
    rw [hq, Option.map_some, htrim, if_pos rfl]
    simp only [hsigils]
    rw [if_neg (by decide)]
    simp [Text.concat]

theorem IsRead.nestedMemberType_append {c : Compound} (h : c.IsRead)
    {outer : List Text} (houter : ∀ name ∈ outer, Text.IsSpelled name)
    (scope : List Text) (name : Text) :
    nestedMemberType c.qualifier (qualified (outer ++ scope) name) c.sigils =
      Text.trim (c.lead ++
        (scopePrefix outer ++ c.typeFrom (qualified scope name))) := by
  have hstar : '*' ∉ scopePrefix outer :=
    fun hmem => ne_star_of_isWord_or (mem_scopePrefix houter hmem) rfl
  -- No star before the declarator, so nothing is replaced in the scope.
  rw [h.nestedMemberType_eq, qualified_append, typeFrom, List.append_assoc,
    replacePair_append hstar, typeFrom]

end Source.Compound

namespace Source.Tree

/-- All structs and enums in the tree were read from some text. -/
inductive IsRead : Tree → Prop
  | entry {doc : Option Text} {e : Entry}
    (h : ∀ c, e.compound? = some c → c.IsRead) : IsRead (.entry doc e)
  | nested {doc : Option Text} {c : Compound} {children : List Tree}
    (h : c.IsRead) (hchildren : ∀ tree ∈ children, IsRead tree) :
    IsRead (.nested doc c children)

theorem isRead_of_mem_items {d : Dialect} {body : Text}
    {x : Documented BodyItem} (h : x ∈ items d body) {c : Compound}
    (hx : x.item.compound? = some c) : c.IsRead := by
  obtain ⟨cursor, found, hfound, hpiece⟩ := exists_found_of_mem_documented h
  obtain ⟨keyword, rest, hread⟩ :=
    BodyItem.exists_read?_of_next hfound hpiece hx
  exact ⟨keyword, cursor.ahead, rest, hread⟩

theorem isRead_of_mem_readBody {d : Dialect} {body : Text} {tree : Tree}
    (h : tree ∈ readBody d body) : tree.IsRead := by
  refine of_mem_readBody (P := fun _ tree => tree.IsRead) ?_ ?_ h
  · intro body x e hx hitem
    refine .entry fun c he => isRead_of_mem_items hx ?_
    rw [hitem]
    exact he
  · intro body x c hx hitem hchildren
    refine .nested (isRead_of_mem_items hx ?_) hchildren
    rw [hitem]
    rfl

end Source.Tree

/-! ## Structs with the scope around them left open -/

/-- A member of a struct that may stand anywhere. -/
inductive Slot where
  | written (m : Member)
  /-- The variable `declared` that comes with the compound known as `name` in
  `scope`, from the struct on. -/
  | nested (c : Compound) (scope : List Text) (name declared : Text)
    (doc : Option Text)

def Slot.member (outer : List Text) : Slot → Member
  | written m => m
  | nested c scope name declared doc =>
    { category := .memberVariable
      type := some (Text.trim (c.lead ++
        (scopePrefix outer ++ c.typeFrom (qualified scope name))))
      name := declared
      description := doc }

/-- An entity that a struct contributes, wherever it stands. -/
inductive Outline where
  | array (e : Entity)
  | compound (category : Category) (scope : List Text) (name : Text)
    (doc : Option Text) (slots : List Slot)

namespace Outline

def entity (outer : List Text) : Outline → Entity
  | array e => e
  | compound category scope name doc slots =>
    { category, scope := outer ++ scope, name, description := doc
      members := slots.map (Slot.member outer) }

def slots : Outline → List Slot
  | array _ => []
  | compound _ _ _ _ slots => slots

end Outline

/-- What has been gathered from a body: entities with the names of the known
array types, and the struct that is open. -/
structure Sketch where
  outlines : List Outline := []
  arrays : List Text
  isTuple : Bool := false
  slots : List Slot := []

namespace Sketch

def push (k : Sketch) (o : Outline) : Sketch :=
  { k with outlines := k.outlines ++ [o] }

def declare (k : Sketch) (c : Compound) (scope : List Text) (name : Text)
    (doc : Option Text) : Sketch :=
  { k with slots := k.slots ++
      c.declaredVariable?.toList.map (Slot.nested c scope name · doc) }

/-- Adds an element of a body that is no compound.  Such elements do not
depend on any scope. -/
def write (k : Sketch) (doc : Option Text) (e : Entry) : Sketch :=
  let (g, f) := gatherEntry [] doc ({ arrays := k.arrays }, {}) e
  { outlines := k.outlines ++ g.entities.map .array
    arrays := g.arrays
    isTuple := k.isTuple || f.isTuple
    slots := k.slots ++ f.members.map .written }

def addEnum (k : Sketch) (scope : List Text) (doc : Option Text)
    (c : Compound) : Sketch :=
  c.resolvedName.elim k fun name =>
    (k.push (.compound .enum scope name doc
      ((enumMembers c.body).map .written))).declare c scope name doc

def outline (k : Sketch) (scope : List Text) (doc : Option Text)
    (name : Text) : Outline :=
  .compound (if k.isTuple then .tuple else .struct) scope name doc k.slots

/-- Goes on with the struct around a nested one whose body is `inner`. -/
def addStruct (k inner : Sketch) (scope : List Text) (doc : Option Text)
    (c : Compound) : Sketch :=
  let k := { k with outlines := inner.outlines, arrays := inner.arrays }
  c.resolvedName.elim k fun name =>
    (k.push (inner.outline scope doc name)).declare c scope name doc

mutual

def addTree (scope : List Text) (k : Sketch) : Tree → Sketch
  | .entry doc (.enum c) => k.addEnum scope doc c
  | .entry doc e => k.write doc e
  | .nested doc c children =>
    k.addStruct (addTrees (innerScope scope c)
      { outlines := k.outlines, arrays := k.arrays } children) scope doc c

def addTrees (scope : List Text) (k : Sketch) : List Tree → Sketch
  | [] => k
  | tree :: trees => addTrees scope (addTree scope k tree) trees

end

/-- What is gathered in the given scope, behind the entities `known`. -/
def gathered (k : Sketch) (known : List Entity) (outer : List Text) :
    Gathered :=
  { entities := known ++ k.outlines.map (Outline.entity outer)
    arrays := k.arrays }

def fields (k : Sketch) (outer : List Text) : Fields :=
  { isTuple := k.isTuple, members := k.slots.map (Slot.member outer) }

end Sketch

/-! ## Filling in a scope -/

/-- Entities and members that were there before make no difference to what an
element adds. -/
def prepend (es : List Entity) (f : Fields) (s : Gathered × Fields) :
    Gathered × Fields :=
  ({ s.1 with entities := es ++ s.1.entities },
    { isTuple := f.isTuple || s.2.isTuple
      members := f.members ++ s.2.members })

theorem prepend_add (es : List Entity) (f : Fields) (s : Gathered × Fields)
    (m : Member) :
    ((prepend es f s).1, (prepend es f s).2.add m) =
      prepend es f (s.1, s.2.add m) := by
  simp [prepend, Fields.add]

theorem prepend_pushArray (es : List Entity) (f : Fields)
    (s : Gathered × Fields) (elementType : Text) (dims : List Text) :
    ((prepend es f s).1.pushArray elementType dims, (prepend es f s).2) =
      prepend es f (s.1.pushArray elementType dims, s.2) := by
  unfold Gathered.pushArray prepend
  simp only
  split
  · rfl
  · simp

theorem gatherVariable_prepend (base : Text) (doc : Option Text)
    (es : List Entity) (f : Fields) (s : Gathered × Fields) (raw : Text) :
    gatherVariable base doc (prepend es f s) raw =
      prepend es f (gatherVariable base doc s raw) := by
  unfold gatherVariable
  cases Declarator.parse? raw with
  | none => rfl
  | some declarator =>
      simp only
      split
      · exact prepend_add es f s _
      · rw [← prepend_add es f (s.1.pushArray _ _, s.2), ← prepend_pushArray]

theorem gatherVariables_prepend (base : Text) (doc : Option Text)
    (es : List Entity) (f : Fields) (s : Gathered × Fields)
    (raws : List Text) :
    raws.foldl (gatherVariable base doc) (prepend es f s) =
      prepend es f (raws.foldl (gatherVariable base doc) s) := by
  induction raws generalizing s with
  | nil => rfl
  | cons raw raws ih =>
      rw [List.foldl_cons, gatherVariable_prepend, ih]
      rfl

theorem gatherEntry_prepend {e : Entry} (h : e.compound? = none)
    (scope : List Text) (doc : Option Text) (es : List Entity) (f : Fields)
    (s : Gathered × Fields) :
    gatherEntry scope doc (prepend es f s) e =
      prepend es f (gatherEntry [] doc s e) := by
  cases e with
  | tupleMarker => simp [gatherEntry, prepend]
  | constructor params expression => exact prepend_add es f s _
  | method signature name expression => exact prepend_add es f s _
  | ptrGetter name field => exact prepend_add es f s _
  | arrayGetter name arrayField lengthField => exact prepend_add es f s _
  | enum compound => contradiction
  | «variables» base declarators => exact gatherVariables_prepend _ _ es f s _

namespace Sketch

variable {outer : List Text} (known : List Entity)

theorem gatherEntry_write {e : Entry} (h : e.compound? = none)
    (scope : List Text) (doc : Option Text) (k : Sketch) :
    gatherEntry scope doc (k.gathered known outer, k.fields outer) e =
      ((k.write doc e).gathered known outer, (k.write doc e).fields outer) := by
  have hstart : (k.gathered known outer, k.fields outer) =
      prepend (known ++ k.outlines.map (Outline.entity outer))
        (k.fields outer) ({ arrays := k.arrays }, {}) := by
    simp [prepend, gathered, fields]
  rw [hstart, gatherEntry_prepend h]
  simp [prepend, gathered, fields, write, Outline.entity, Slot.member,
    Function.comp_def]

theorem gathered_push (k : Sketch) (o : Outline) :
    (k.push o).gathered known outer =
      (k.gathered known outer).push (o.entity outer) := by
  simp [gathered, push, Gathered.push]

theorem fields_declare (houter : ∀ name ∈ outer, Text.IsSpelled name)
    {c : Compound} (hc : c.IsRead) (k : Sketch) (scope : List Text)
    {e : Entity} (hscope : e.scope = outer ++ scope) :
    (nestedMember? c e).elim (k.fields outer) (k.fields outer).add =
      (k.declare c scope e.name e.description).fields outer := by
  have htype := hc.nestedMemberType_append houter scope e.name
  unfold nestedMember?
  rw [Entity.qualifiedName, hscope, htype]
  cases hvariable : c.declaredVariable? with
  | none => simp [declare, hvariable, fields]
  | some declared => simp [declare, hvariable, fields, Fields.add, Slot.member]

theorem push_declare (houter : ∀ name ∈ outer, Text.IsSpelled name)
    {c : Compound} (hc : c.IsRead) (k : Sketch) (category : Category)
    (scope : List Text) (name : Text) (doc : Option Text)
    (slots : List Slot) :
    let o := Outline.compound category scope name doc slots
    let k' := (k.push o).declare c scope name doc
    ((k.gathered known outer).push (o.entity outer),
        (nestedMember? c (o.entity outer)).elim (k.fields outer)
          (k.fields outer).add) =
      (k'.gathered known outer, k'.fields outer) := by
  intro o k'
  rw [fields_declare houter hc k scope rfl, ← gathered_push]
  rfl

theorem gatherEntry_addEnum (houter : ∀ name ∈ outer, Text.IsSpelled name)
    {c : Compound} (hc : c.IsRead) (scope : List Text) (doc : Option Text)
    (k : Sketch) :
    gatherEntry (outer ++ scope) doc (k.gathered known outer, k.fields outer)
        (.enum c) =
      ((k.addEnum scope doc c).gathered known outer,
        (k.addEnum scope doc c).fields outer) := by
  cases hname : c.resolvedName with
  | none => simp [gatherEntry, enumEntity?, addEnum, hname]
  | some name =>
      have hmembers : ((enumMembers c.body).map Slot.written).map
          (Slot.member outer) = enumMembers c.body := by
        simp [Slot.member, Function.comp_def]
      have hclose := push_declare known houter hc k .enum scope
        name doc ((enumMembers c.body).map .written)
      simp only [Outline.entity, hmembers] at hclose
      simp only [gatherEntry, enumEntity?, addEnum, hname, Option.map_some,
        Option.elim_some]
      exact hclose

mutual

theorem gatherTree_eq (houter : ∀ name ∈ outer, Text.IsSpelled name)
    (scope : List Text) (k : Sketch) :
    ∀ {tree : Tree}, tree.IsRead →
      gatherTree (outer ++ scope) (k.gathered known outer, k.fields outer)
          tree =
        ((k.addTree scope tree).gathered known outer,
          (k.addTree scope tree).fields outer)
  | .entry doc e, htree => by
      cases htree with
      | entry he =>
          cases e with
          | enum c =>
              exact gatherEntry_addEnum known houter (he c rfl) scope doc k
          | _ => rw [gatherTree, gatherEntry_write] <;> rfl
  | .nested doc c children, htree => by
      cases htree with
      | nested hc hchildren =>
          -- The struct around it keeps its members while this one is gathered.
          let start : Sketch := { outlines := k.outlines, arrays := k.arrays }
          let inner := start.addTrees (innerScope scope c) children
          have hbody := gatherTrees_eq houter (innerScope scope c) start
            hchildren
          have hscope : innerScope (outer ++ scope) c =
              outer ++ innerScope scope c := List.append_assoc ..
          have hstart : (start.gathered known outer, start.fields outer) =
              (k.gathered known outer, {}) := rfl
          rw [hstart, ← hscope] at hbody
          simp only [gatherTree, hbody, structEntity?, addTree, addStruct]
          cases c.resolvedName with
          | none => rfl
          | some name =>
              exact push_declare known houter hc
                { k with outlines := inner.outlines, arrays := inner.arrays }
                _ scope name doc inner.slots

theorem gatherTrees_eq (houter : ∀ name ∈ outer, Text.IsSpelled name)
    (scope : List Text) (k : Sketch) :
    ∀ {trees : List Tree}, (∀ tree ∈ trees, tree.IsRead) →
      gatherTrees (outer ++ scope) (k.gathered known outer, k.fields outer)
          trees =
        ((k.addTrees scope trees).gathered known outer,
          (k.addTrees scope trees).fields outer)
  | [], _ => rfl
  | tree :: trees, htrees => by
      simp only [List.mem_cons, forall_eq_or_imp] at htrees
      rw [gatherTrees, gatherTree_eq houter scope k htrees.1,
        gatherTrees_eq houter scope _ htrees.2]
      rfl

end

end Sketch

/-! ## Where the scope goes -/

/-- The outer scope is written in front of the qualified name of the compound,
and nothing else in the type changes. -/
def Slot.Inserts (outer : List Text) : Slot → Prop
  | written _ => True
  | slot@(nested c scope name _ _) => ∃ rest,
    (slot.member []).type = some (c.lead ++ (qualified scope name ++ rest)) ∧
    (slot.member outer).type =
      some (c.lead ++ (scopePrefix outer ++ (qualified scope name ++ rest)))

/-- The names in the slot are words, if those of `base` are. -/
def Slot.SpelledUpTo (base : List Text) : Slot → Prop
  | written _ => True
  | nested _ scope name _ _ => (∀ x ∈ scope, x ∈ base ∨ Text.IsSpelled x) ∧
    Text.IsSpelled name ∧ name ≠ []

theorem spelledUpTo_written {base : List Text} (members : List Member) :
    ∀ slot ∈ members.map Slot.written, slot.SpelledUpTo base :=
  List.forall_mem_map.mpr fun _ _ => trivial

theorem Slot.type_member_nested {outer scope : List Text} {name : Text}
    (houter : ∀ x ∈ outer, Text.IsSpelled x)
    (hscope : ∀ x ∈ scope, Text.IsSpelled x) (hname : Text.IsSpelled name)
    (hne : name ≠ []) (c : Compound) (declared : Text) (doc : Option Text) :
    ((Slot.nested c scope name declared doc).member outer).type =
      some (c.lead ++ (scopePrefix outer ++ (qualified scope name ++
        Text.trimEnd (Text.replacePair '*' ' ' "*" (' ' :: c.sigils))))) := by
  have hall : ∀ x ∈ outer ++ scope, Text.IsSpelled x :=
    List.forall_mem_append.mpr ⟨houter, hscope⟩
  have hstar : '*' ∉ qualified scope name :=
    fun hmem => ne_star_of_isWord_or (mem_qualified hscope hname hmem) rfl
  have hsolid : ∀ x ∈ qualified (outer ++ scope) name,
      Text.isSpace x = false :=
    fun _ hx => not_isSpace_of_isWord_or (mem_qualified hall hname hx)
  have hfilled : qualified (outer ++ scope) name ≠ [] := by
    simp [qualified, hne]
  rw [Slot.member, Compound.typeFrom, replacePair_append hstar,
    ← List.append_assoc (scopePrefix outer), ← qualified_append,
    trim_append_word c.head_lead hsolid hfilled, qualified_append,
    List.append_assoc]

theorem Slot.SpelledUpTo.inserts {base outer : List Text} {slot : Slot}
    (h : slot.SpelledUpTo base) (hbase : ∀ x ∈ base, Text.IsSpelled x)
    (houter : ∀ x ∈ outer, Text.IsSpelled x) : slot.Inserts outer := by
  cases slot with
  | written m => trivial
  | nested c scope name declared doc =>
      obtain ⟨hscope, hname, hne⟩ := h
      have hwords : ∀ x ∈ scope, Text.IsSpelled x :=
        fun x hx => (hscope x hx).elim (hbase x) id
      exact ⟨_, type_member_nested (by simp) hwords hname hne c declared doc,
        type_member_nested houter hwords hname hne c declared doc⟩

namespace Outline

/-- Array types belong to no scope; all else is a struct, a tuple or an
enum. -/
def Sorted : Outline → Prop
  | array e => e.category = .arrayInstance
  | compound category _ _ _ _ => category ∈ [.struct, .tuple, .enum]

def SpelledUpTo (base : List Text) (o : Outline) : Prop :=
  ∀ slot ∈ o.slots, slot.SpelledUpTo base

end Outline

theorem array_of_mem_gatherVariables (base : Text) (doc : Option Text)
    {s : Gathered × Fields}
    (h : ∀ e ∈ s.1.entities, e.category = .arrayInstance)
    (raws : List Text) :
    ∀ e ∈ (raws.foldl (gatherVariable base doc) s).1.entities,
      e.category = .arrayInstance := by
  induction raws generalizing s with
  | nil => exact h
  | cons raw raws ih =>
      apply ih
      unfold gatherVariable
      split
      · exact h
      · simp only
        split
        · exact h
        · unfold Gathered.pushArray
          simp only
          split
          · exact h
          · simpa [or_imp, forall_and] using h

theorem array_of_mem_gatherEntry {e : Entry} (h : e.compound? = none)
    (doc : Option Text) (arrays : List Text) :
    ∀ x ∈ (gatherEntry [] doc ({ arrays }, {}) e).1.entities,
      x.category = .arrayInstance := by
  cases e with
  | enum compound => contradiction
  | «variables» base declarators =>
      exact array_of_mem_gatherVariables base doc (by simp) _
  | _ => simp [gatherEntry]

namespace Sketch

theorem sorted_outline (k : Sketch) (scope : List Text) (doc : Option Text)
    (name : Text) : (k.outline scope doc name).Sorted := by
  cases hkind : k.isTuple <;> simp [outline, Outline.Sorted, hkind]

/-- Outlines and slots are of the right kind, and their names are words up to
those of `base`. -/
structure WellFormed (base : List Text) (k : Sketch) : Prop where
  outlines : ∀ o ∈ k.outlines, o.Sorted ∧ o.SpelledUpTo base
  slots : ∀ slot ∈ k.slots, slot.SpelledUpTo base

namespace WellFormed

variable {base scope : List Text} {k : Sketch}

theorem push (h : k.WellFormed base) {o : Outline} (hsorted : o.Sorted)
    (ho : o.SpelledUpTo base) : (k.push o).WellFormed base where
  outlines := List.forall_mem_append.mpr
    ⟨h.outlines, List.forall_mem_singleton.mpr ⟨hsorted, ho⟩⟩
  slots := h.slots

theorem declare (h : k.WellFormed base)
    (hscope : ∀ x ∈ scope, x ∈ base ∨ Text.IsSpelled x) {c : Compound}
    (hc : c.Spelled) {name : Text} (hname : c.resolvedName = some name)
    (doc : Option Text) : (k.declare c scope name doc).WellFormed base where
  outlines := h.outlines
  slots := by
    refine List.forall_mem_append.mpr ⟨h.slots, ?_⟩
    refine List.forall_mem_map.mpr fun declared _ => ?_
    exact ⟨hscope, hc.resolvedName hname, Compound.name_ne_nil hname⟩

theorem write (h : k.WellFormed base) (doc : Option Text) {e : Entry}
    (he : e.compound? = none) : (k.write doc e).WellFormed base where
  outlines := by
    refine List.forall_mem_append.mpr ⟨h.outlines, ?_⟩
    refine List.forall_mem_map.mpr fun x hx => ?_
    exact ⟨array_of_mem_gatherEntry he doc k.arrays x hx,
      List.forall_mem_nil _⟩
  slots := List.forall_mem_append.mpr ⟨h.slots, spelledUpTo_written _⟩

theorem addEnum (h : k.WellFormed base)
    (hscope : ∀ x ∈ scope, x ∈ base ∨ Text.IsSpelled x) {c : Compound}
    (hc : c.Spelled) (doc : Option Text) :
    (k.addEnum scope doc c).WellFormed base := by
  unfold Sketch.addEnum
  cases hname : c.resolvedName with
  | none => exact h
  | some name =>
      refine (h.push (by simp [Outline.Sorted]) ?_).declare hscope hc hname doc
      exact spelledUpTo_written (enumMembers c.body)

theorem addStruct (h : k.WellFormed base) {inner : Sketch}
    (hinner : inner.WellFormed base)
    (hscope : ∀ x ∈ scope, x ∈ base ∨ Text.IsSpelled x) {c : Compound}
    (hc : c.Spelled) (doc : Option Text) :
    (k.addStruct inner scope doc c).WellFormed base := by
  have hstart : ({ k with
      outlines := inner.outlines, arrays := inner.arrays } :
        Sketch).WellFormed base := ⟨hinner.outlines, h.slots⟩
  unfold Sketch.addStruct
  cases hname : c.resolvedName with
  | none => exact hstart
  | some name =>
      exact (hstart.push (sorted_outline inner scope doc name)
        hinner.slots).declare hscope hc hname doc

end WellFormed

mutual

theorem wellFormed_addTree {base scope : List Text} {k : Sketch}
    (h : k.WellFormed base)
    (hscope : ∀ x ∈ scope, x ∈ base ∨ Text.IsSpelled x) :
    ∀ {tree : Tree}, tree.Spelled → (k.addTree scope tree).WellFormed base
  | .entry doc e, htree => by
      cases htree with
      | entry he =>
          cases e with
          | enum c => exact h.addEnum hscope (he c rfl) doc
          | _ =>
              rw [addTree]
              · exact h.write doc rfl
              · simp
  | .nested doc c children, htree => by
      cases htree with
      | nested hc hchildren =>
          have hinner : ∀ x ∈ innerScope scope c,
              x ∈ base ∨ Text.IsSpelled x := by
            intro x hx
            rcases List.mem_append.mp hx with hx | hx
            · exact hscope x hx
            · exact .inr (hc.resolvedName (Option.mem_toList.mp hx))
          have hstart : ({ outlines := k.outlines, arrays := k.arrays } :
              Sketch).WellFormed base := ⟨h.outlines, by simp⟩
          exact h.addStruct (wellFormed_addTrees hstart hinner hchildren)
            hscope hc doc

theorem wellFormed_addTrees {base scope : List Text} {k : Sketch}
    (h : k.WellFormed base)
    (hscope : ∀ x ∈ scope, x ∈ base ∨ Text.IsSpelled x) :
    ∀ {trees : List Tree}, (∀ tree ∈ trees, tree.Spelled) →
      (k.addTrees scope trees).WellFormed base
  | [], _ => h
  | tree :: trees, htrees => by
      simp only [List.mem_cons, forall_eq_or_imp] at htrees
      exact wellFormed_addTrees (wellFormed_addTree h hscope htrees.1) hscope
        htrees.2

end

end Sketch

theorem gatherTrees_readBody (d : Dialect) (c : Compound) (g : Gathered)
    {outer : List Text} (houter : ∀ name ∈ outer, Text.IsSpelled name) :
    let k := Sketch.addTrees (innerScope [] c) { arrays := g.arrays }
      (Tree.readBody d c.body)
    gatherTrees (innerScope outer c) (g, {}) (Tree.readBody d c.body) =
      (k.gathered g.entities outer, k.fields outer) := by
  have hstart : (({ arrays := g.arrays } : Sketch).gathered g.entities outer,
      ({ arrays := g.arrays } : Sketch).fields outer) = (g, {}) := by
    simp [Sketch.gathered, Sketch.fields]
  have htrees : ∀ tree ∈ Tree.readBody d c.body, tree.IsRead :=
    fun _ htree => Tree.isRead_of_mem_readBody htree
  have hbody := Sketch.gatherTrees_eq g.entities houter (innerScope [] c)
    { arrays := g.arrays } htrees
  rw [hstart] at hbody
  exact hbody

theorem structEntity?_fields (scope : List Text) (doc : Option Text)
    (c : Compound) (k : Sketch) :
    structEntity? scope doc c (k.fields scope) =
      (c.resolvedName.map (k.outline [] doc)).map (Outline.entity scope) := by
  unfold structEntity?
  cases c.resolvedName with
  | none => rfl
  | some name =>
      simp only [Option.map_some, Sketch.outline, Outline.entity,
        List.append_nil]
      rfl

theorem wellFormed_readBody (d : Dialect) (c : Compound)
    (arrays : List Text) :
    (Sketch.addTrees (innerScope [] c) { arrays }
      (Tree.readBody d c.body)).WellFormed c.resolvedName.toList := by
  refine Sketch.wellFormed_addTrees ⟨by simp, by simp⟩ ?_
    fun _ htree => Tree.spelled_of_mem_readBody htree
  intro name hname
  exact .inl hname

/-- A struct contributes the same wherever it stands, up to its scope: the
sketch `k` of its body and the outline `own` of the struct itself do not know
the scope around it, and filling it in gives what is gathered there.  Array
types do not depend on it. -/
theorem struct_position_independent (d : Dialect) (doc : Option Text)
    (c : Compound) (g : Gathered) (outer : List Text)
    (houter : ∀ name ∈ outer, Text.IsSpelled name) :
    let trees := Tree.readBody d c.body
    let run := fun scope => gatherTrees (innerScope scope c) (g, {}) trees
    let k := Sketch.addTrees (innerScope [] c) { arrays := g.arrays } trees
    let own := c.resolvedName.map (k.outline [] doc)
    ((run []).1 = k.gathered g.entities [] ∧
      structEntity? [] doc c (run []).2 = own.map (Outline.entity [])) ∧
    ((run outer).1 = k.gathered g.entities outer ∧
      structEntity? outer doc c (run outer).2 =
        own.map (Outline.entity outer)) ∧
    (run outer).1.arrays = (run []).1.arrays ∧
    (∀ o ∈ k.outlines ++ own.toList, o.Sorted) ∧
    (c.Spelled → ∀ o ∈ k.outlines ++ own.toList, ∀ slot ∈ o.slots,
      slot.Inserts outer) := by
  intro trees run k own
  have hempty : run [] = (k.gathered g.entities [], k.fields []) :=
    gatherTrees_readBody d c g (by simp)
  have hrun : run outer = (k.gathered g.entities outer, k.fields outer) :=
    gatherTrees_readBody d c g houter
  have hk : k.WellFormed c.resolvedName.toList :=
    wellFormed_readBody d c g.arrays
  -- The struct itself is like those nested in it, but for its name, which
  -- need not be a word unless the struct was read.
  have hall : ∀ o ∈ k.outlines ++ own.toList,
      o.Sorted ∧ o.SpelledUpTo c.resolvedName.toList := by
    refine List.forall_mem_append.mpr ⟨hk.outlines, fun o ho => ?_⟩
    obtain ⟨name, _, rfl⟩ :=
      Option.map_eq_some_iff.mp (Option.mem_toList.mp ho)
    exact ⟨k.sorted_outline [] doc name, hk.slots⟩
  rw [hempty, hrun]
  refine ⟨⟨rfl, structEntity?_fields [] doc c k⟩,
    ⟨rfl, structEntity?_fields outer doc c k⟩, rfl,
    fun o ho => (hall o ho).1, ?_⟩
  intro hc o ho slot hslot
  have hbase : ∀ name ∈ c.resolvedName.toList, Text.IsSpelled name :=
    fun _ hname => hc.resolvedName (Option.mem_toList.mp hname)
  exact ((hall o ho).2 slot hslot).inserts hbase houter

/-- A nested struct with a variable, and an enum in a struct without name. -/
theorem struct_position_independent_nested :
    let c : Compound :=
      { qualifier := none, tag := "S", declarator := []
        body :=
          "const struct T\x7bint a[2];\x7d*p; struct\x7benum E\x7bX\x7d;\x7d;" }
    let outer : List Text := ["M", "N"]
    let trees := Tree.readBody {} c.body
    let run := fun scope => gatherTrees (innerScope scope c) ({}, {}) trees
    let k := Sketch.addTrees (innerScope [] c) { arrays := [] } trees
    let view := fun e : Entity =>
      e.qualifiedName :: e.members.map Member.typeText
    let found : List (List Text) :=
      [["int_array_2"], ["M::N::S::T", "int_array_2"], ["M::N::S::E", ""]]
    let alone : List Text := ["S", "const S::T *"]
    let placed : List Text := ["M::N::S", "const M::N::S::T *"]
    (∀ name ∈ outer, Text.IsSpelled name) ∧ c.Spelled ∧
    (∀ o ∈ k.outlines, ∀ slot ∈ o.slots, slot.Inserts outer) ∧
    (run outer).1.arrays = (run []).1.arrays ∧
    (run outer).1.entities.map view = found ∧
    (structEntity? [] none c (run []).2).map view = some alone ∧
    (structEntity? outer none c (run outer).2).map view = some placed := by
  intro c outer trees run k view found alone placed
  have houter : ∀ name ∈ outer, Text.IsSpelled name := by
    intro name hname
    apply List.all_eq_true.mp
    revert name
    decide
  have hc : c.Spelled :=
    ⟨List.all_eq_true.mp (by decide), List.all_eq_true.mp (by decide)⟩
  obtain ⟨⟨_, halone⟩, ⟨hrun, hplaced⟩, harrays, _, hinserts⟩ :=
    struct_position_independent {} none c {} outer houter
  have hread : Tree.readBodyWithin {} 60 c.body = some trees :=
    Tree.readBodyWithin_eq (by decide)
  have hvalue : (Tree.readBodyWithin {} 60 c.body).map (fun trees =>
      let k := Sketch.addTrees (innerScope [] c) { arrays := [] } trees
      let own := c.resolvedName.map (k.outline [] none)
      ((k.gathered [] outer).entities.map view,
        (own.map (Outline.entity [])).map view,
        (own.map (Outline.entity outer)).map view)) =
      some (found, some alone, some placed) := by
    decide +kernel
  rw [hread, Option.map_some, Option.some.injEq, Prod.mk.injEq,
    Prod.mk.injEq] at hvalue
  refine ⟨houter, hc,
    fun o ho => hinserts hc o (List.mem_append_left _ ho), harrays, ?_, ?_, ?_⟩
  · rw [hrun]
    exact hvalue.1
  · rw [halone]
    exact hvalue.2.1
  · rw [hplaced]
    exact hvalue.2.2

end Bindery
