import Bindery.Proofs.StructReading

/-!
# Written structs are read back

Gathering the tree of a written struct extends the entities found so far by
those that the items ask for, and the members of the struct around them by
those that the items declare.  Each construction of the text extends both, and
extending is additive, so the result for a struct of any depth follows by
induction over the tree.
-/

namespace Bindery

open Source

namespace Gathered

/-- Adds an entity, unless it is an array type whose name is known. -/
def record (g : Gathered) (e : Entity) : Gathered :=
  if e.category = .arrayInstance then
    if g.arrays.contains e.name then g
    else { entities := g.entities ++ [e], arrays := e.name :: g.arrays }
  else g.push e

theorem pushArray_eq_record (g : Gathered) (elementType : Text)
    (dims : List Text) :
    g.pushArray elementType dims =
      g.record
        { category := .arrayInstance
          type := some (arrayType elementType dims)
          name := arrayInstanceName elementType dims } := by
  unfold pushArray record
  rw [if_pos rfl]

/-- Among the entities that are recorded, known array types are left out. -/
theorem entities_foldl_record (g : Gathered) (es : List Entity) :
    (es.foldl record g).entities =
      g.entities ++ Written.firstArrays g.arrays es := by
  induction es generalizing g with
  | nil => simp [Written.firstArrays]
  | cons e es ih =>
      rw [List.foldl_cons, ih, Written.firstArrays, record]
      simp only [List.contains_iff_mem]
      split
      · split
        · rfl
        · simp
      · simp [push]

end Gathered

namespace Written

/-- Adds entities, and members of the struct at hand. -/
def extend (s : Gathered × Fields) (es : List Entity) (ms : List Member) :
    Gathered × Fields :=
  (es.foldl Gathered.record s.1,
    { s.2 with members := s.2.members ++ ms })

theorem extend_extend (s : Gathered × Fields) (es es' : List Entity)
    (ms ms' : List Member) :
    extend (extend s es ms) es' ms' = extend s (es ++ es') (ms ++ ms') := by
  simp [extend]

theorem extend_nil (s : Gathered × Fields) : extend s [] [] = s := by
  simp [extend]

/-! ## Lines of members -/

/-- The words of a type that is an identifier and stars. -/
theorem words_identifier (base : Identifier) {x : Text}
    (hx : ∀ c ∈ x, Text.isIdent c = false) :
    ((base.text ++ x).splitOnP (!Text.isIdent ·)).filter (!·.isEmpty) =
      [base.text] := by
  have hbase : ∀ c ∈ base.text, (!Text.isIdent c) = false := by
    intro c hc
    simp [base.isIdent c hc]
  have hempty (y : Text) (hy : ∀ c ∈ y, Text.isIdent c = false) :
      (y.splitOnP (!Text.isIdent ·)).filter (!·.isEmpty) = [] := by
    induction y with
    | nil => rfl
    | cons c y ih =>
        simp only [List.mem_cons, forall_eq_or_imp] at hy
        rw [List.splitOnP_cons_eq_if_modifyHead, if_pos (by simp [hy.1])]
        exact ih hy.2
  cases x with
  | nil =>
      rw [List.append_nil, List.splitOnP_eq_singleton hbase]
      rfl
  | cons c x =>
      simp only [List.mem_cons, forall_eq_or_imp] at hx
      rw [List.splitOnP_append_cons _ _ (by simp [hx.1]),
        List.splitOnP_eq_singleton hbase, List.filter_append,
        hempty x hx.2]
      rfl

namespace Declarator

variable (d : Declarator)

theorem memberType_eq (base : Text) :
    (Source.Declarator.mk d.sigils d.name.text
      (d.dims.map Digits.text)).memberType base = d.elementType base := by
  unfold Source.Declarator.memberType elementType sigils
  cases d.stars with
  | zero => rfl
  | succ n => simp [Text.concat, List.replicate_succ]

theorem arrayType_eq (base : Text) :
    arrayType (d.elementType base) (d.dims.map Digits.text) =
      d.elementType base ++ d.dimsText := by
  simp [arrayType, dimsText, List.flatMap_map]

/-- What stands between the base type and the name. -/
theorem elementType_split (base : Text) :
    ∃ x, d.elementType base = base ++ x ∧
      (∀ c ∈ x, Text.isIdent c = false) ∧ x.count '*' = d.stars := by
  unfold elementType sigils
  split
  · next hstars => exact ⟨[], by simp, by simp, by simp [hstars]⟩
  · refine ⟨_, rfl, ?_, by simp⟩
    intro c hc
    rcases List.mem_cons.mp hc with rfl | hc
    · decide
    · rw [List.eq_of_mem_replicate hc]
      decide

theorem arrayInstanceName_eq (base : Identifier) :
    arrayInstanceName (d.elementType base.text) (d.dims.map Digits.text) =
      d.arrayName base.text := by
  obtain ⟨x, hx, hident, hcount⟩ := d.elementType_split base.text
  have hstars : (base.text ++ x).count '*' = d.stars := by
    rw [List.count_append, List.count_eq_zero.mpr
      (base.notMem (by decide)), hcount, Nat.zero_add]
  have hdim (n : Digits) : n.text.filter Text.isIdent = n.text :=
    List.filter_eq_self.mpr n.isIdent
  unfold arrayInstanceName arrayName
  rw [hx, words_identifier base hident, hstars]
  simp [Text.concat, Text.join, List.flatMap, hdim, Function.comp_def]

theorem gatherVariable_text (base : Identifier) (s : Gathered × Fields) :
    gatherVariable base.text none s (' ' :: d.text) =
      extend s (d.arrays base.text) [d.member base.text] := by
  unfold gatherVariable
  rw [parse?_text]
  simp only [memberType_eq, arrayInstanceName_eq]
  cases hdims : d.dims with
  | nil => simp [extend, arrays, member, hdims, Fields.add]
  | cons n ns =>
      simp only [← hdims, Gathered.pushArray_eq_record, d.arrayType_eq,
        d.arrayInstanceName_eq]
      simp [extend, arrays, member, hdims, Fields.add]

end Declarator

/-- A line of members is gathered declarator by declarator. -/
theorem MemberLine.gather_text (l : MemberLine) (scope : List Text)
    (s : Gathered × Fields) :
    gatherEntry scope none s (.variables l.type.text
        (listed (l.declarators.map Declarator.text))) =
      extend s (l.declarators.flatMap (·.arrays l.type.text))
        (l.declarators.map (·.member l.type.text)) := by
  have hcomma : ∀ p ∈ l.declarators.map Declarator.text, ',' ∉ p := by
    intro p hp hmem
    obtain ⟨d, _, rfl⟩ := List.mem_map.mp hp
    have h := d.all_text (p := (· != ',')) (by decide) (by decide)
      (by decide) (fun c hc => by
        simpa using Text.ne_of_isIdent hc (by decide)) ',' hmem
    contradiction
  have hfold (ds : List Declarator) (s : Gathered × Fields) :
      (ds.map fun d => ' ' :: d.text).foldl
        (gatherVariable l.type.text none) s =
      extend s (ds.flatMap (·.arrays l.type.text))
        (ds.map (·.member l.type.text)) := by
    induction ds generalizing s with
    | nil => exact (extend_nil s).symm
    | cons d ds ih =>
        rw [List.map_cons, List.foldl_cons, d.gatherVariable_text, ih,
          extend_extend]
        rfl
  rw [gatherEntry, splitOn_listed (by simp [MemberLine.declarators]) hcomma,
    List.map_map]
  exact hfold l.declarators s

/-! ## Nested structs and enums -/

theorem join_eq_qualified (scope : List Text) (name : Text) :
    Text.join [':', ':'] (scope ++ [name]) = qualified scope name := by
  unfold qualified
  induction scope with
  | nil => simp [Text.join]
  | cons outer scope ih =>
      obtain ⟨next, others, hnext⟩ :=
        List.exists_cons_of_ne_nil (List.concat_ne_nil name scope)
      rw [List.cons_append, hnext, Text.join, List.intercalate_cons_cons,
        ← hnext, List.flatMap_cons, List.append_assoc _ _ name, ← ih]
      rfl

/-- Nothing is replaced if the first character of the pair is missing. -/
theorem replacePair_eq_self {a b : Char} {new t : Text}
    (h : a ∉ t.dropLast) : Text.replacePair a b new t = t := by
  fun_induction Text.replacePair a b new t with
  | case1 x y t hpair ih => simp [hpair.1] at h
  | case2 x y t hpair ih =>
      rw [List.dropLast_cons_cons, List.mem_cons, not_or] at h
      rw [ih h.2]
  | case3 t hshort => rfl

theorem nestedMemberType_eq {q : Text} (v : Trailer) (hne : q ≠ [])
    (hq : ∀ c ∈ q, Text.isSpace c = false ∧ c ≠ '*') :
    nestedMemberType none q v.sigils =
      q ++ if v.pointer then [' ', '*'] else [] := by
  have hstar : '*' ∉ q := fun hmem => (hq '*' hmem).2 rfl
  have hhead : ∀ c ∈ q.head?, Text.isSpace c = false :=
    fun c hc => (hq c (List.mem_of_mem_head? hc)).1
  have hlast : ∀ c ∈ q.getLast?, Text.isSpace c = false :=
    fun c hc => (hq c (List.mem_of_getLast? hc)).1
  unfold nestedMemberType Trailer.sigils
  cases v.pointer with
  | false =>
      have htext : Text.concat [[], q, (" " : Text), Text.trim []] =
          q ++ [' '] := by
        simp [Text.concat, Text.trim, Text.trimStart, Text.trimEnd]
      have hpair : Text.replacePair '*' ' ' ("*" : Text) (q ++ [' ']) =
          q ++ [' '] :=
        replacePair_eq_self (by simpa using hstar)
      have htrim : Text.trim (q ++ [' ']) = q :=
        Text.trim_append_blank hhead hlast
      simp only [Option.map_none, Bool.false_eq_true, if_false, htext, hpair,
        htrim, List.append_nil]
  | true =>
      have hsigils : Text.trim ['*'] = ['*'] := by decide
      have htext : Text.concat [[], q, (" " : Text), ['*']] =
          q ++ [' ', '*'] := by
        simp [Text.concat]
      have hpair : Text.replacePair '*' ' ' ("*" : Text) (q ++ [' ', '*']) =
          q ++ [' ', '*'] := by
        apply replacePair_eq_self
        rw [← List.singleton_append, ← List.append_assoc,
          List.dropLast_concat]
        simpa using hstar
      have htrim : Text.trim (q ++ [' ', '*']) = q ++ [' ', '*'] :=
        Text.trim_append_star hne hhead
      simp only [Option.map_none, if_true, hsigils, htext, hpair, htrim]

/-- The variable behind the closing brace becomes a member. -/
theorem Label.nestedMember?_eq (label : Label) (scope : List Identifier)
    (body : Text) {e : Entity} (hscope : e.scope = scope.map Identifier.text)
    (hname : e.name = label.name.text) (hdoc : e.description = none)
    (f : Fields) :
    (nestedMember? (label.frame.compound body) e).elim f f.add =
      { f with
        members :=
          f.members ++ label.members (scope.map Identifier.text) } := by
  have htypedef : label.frame.isTypedef = false := by
    cases label with
    | tagged tag trailer => rfl
    | untagged trailer => rfl
  have hchars : ∀ c ∈ e.qualifiedName,
      Text.isSpace c = false ∧ c ≠ '*' := by
    intro c hc
    rw [Entity.qualifiedName, qualified, hscope, hname] at hc
    rcases List.mem_append.mp hc with hc | hc
    · obtain ⟨t, ht, hc⟩ := List.mem_flatMap.mp hc
      obtain ⟨i, _, rfl⟩ := List.mem_map.mp ht
      rcases List.mem_append.mp hc with hc | hc
      · exact ⟨i.notSpace c hc,
          Text.ne_of_isIdent (i.isIdent c hc) (by decide)⟩
      · have hcolon : c = ':' := by simpa using hc
        rw [hcolon]
        decide
    · exact ⟨label.name.notSpace c hc,
        Text.ne_of_isIdent (label.name.isIdent c hc) (by decide)⟩
  have hne : e.qualifiedName ≠ [] := by
    simp [Entity.qualifiedName, qualified, hname, label.name.text_ne_nil]
  unfold nestedMember? Label.members
  rw [Frame.declaredVariable?_compound, Frame.sigils_compound, htypedef]
  cases htrailer : label.frame.trailer with
  | none => simp
  | some v =>
      have hqualifier : (label.frame.compound body).qualifier = none := by
        simp [Frame.compound, htypedef]
      have hqualified : e.qualifiedName = Text.join [':', ':']
          (scope.map Identifier.text ++ [label.name.text]) := by
        rw [join_eq_qualified, Entity.qualifiedName, hscope, hname]
      have htype := nestedMemberType_eq v hne hchars
      rw [hqualified] at htype
      rw [hqualifier, hqualified]
      simp [htype, Fields.add, hdoc]

/-! ## Trees -/

theorem Label.frame_name? (label : Label) :
    label.frame.name? = some label.name := by
  cases label with
  | tagged tag trailer => rfl
  | untagged trailer => rfl

/-- The entity of a struct whose items have been gathered. -/
theorem structEntity?_extend {c : Compound} {name : Identifier}
    (h : c.resolvedName = some name.text) (scope : List Text) (g : Gathered)
    (es : List Entity) (items : List Item) :
    structEntity? scope none c (extend (g, {}) es
        (items.flatMap (Item.members (scope ++ [name.text])))).2 =
      some (structEntity scope name items) := by
  rw [structEntity?, h]
  rfl

theorem record_structEntity (g : Gathered) (scope : List Text)
    (name : Identifier) (items : List Item) :
    g.record (structEntity scope name items) =
      g.push (structEntity scope name items) :=
  rfl

mutual

/-- An item extends what was gathered by its entities and its members. -/
theorem Item.gather_tree (width depth : Nat) :
    (item : Item) → (scope : List Identifier) → (s : Gathered × Fields) →
      gatherTree (scope.map Identifier.text) s (item.tree width depth) =
        extend s (item.entities (scope.map Identifier.text))
          (item.members (scope.map Identifier.text))
  | .line l, scope, s => by
      rw [Item.tree, gatherTree, l.gather_text, Item.entities, Item.members]
  | .enum label es, scope, s => by
      rw [Item.tree, gatherTree, gatherEntry,
        enumEntity?_text label.frame_name?]
      simp only
      rw [label.nestedMember?_eq scope _ rfl rfl rfl, Item.entities,
        Item.members]
      rfl
  | .struct label items, scope, s => by
      have hname := label.frame.resolvedName_compound label.frame_name?
        (Text.trim (linesText width (depth + 1) items ++
          '\n' :: indentation width depth))
      have hitems := gather_treesOf width (depth + 1) items
        (scope ++ [label.name]) (s.1, {})
      rw [List.map_append, List.map_singleton] at hitems
      rw [Item.tree, gatherTree, innerScope, hname, Option.toList_some,
        hitems]
      simp only [structEntity?_extend hname]
      rw [label.nestedMember?_eq scope _ rfl rfl rfl, Item.entities,
        Item.members, ← record_structEntity]
      simp [extend]

theorem gather_treesOf (width depth : Nat) :
    (items : List Item) → (scope : List Identifier) →
      (s : Gathered × Fields) →
      gatherTrees (scope.map Identifier.text) s (treesOf width depth items) =
        extend s (entitiesOf (scope.map Identifier.text) items)
          (items.flatMap (Item.members (scope.map Identifier.text)))
  | [], scope, s => by
      rw [treesOf, gatherTrees, entitiesOf]
      exact (extend_nil s).symm
  | item :: items, scope, s => by
      rw [treesOf, gatherTrees, item.gather_tree width depth,
        gather_treesOf width depth items, extend_extend, entitiesOf,
        List.flatMap_cons]

end

/-! ## Structs at file scope -/

theorem Title.frame_name? (title : Title) :
    title.frame.name? = some title.name := by
  cases title with
  | declared tag name => rfl
  | tagged tag => rfl

theorem gatherStruct_text (width : Nat) (s : Struct) :
    (gatherStruct none {}
      (s.title.frame.compound (Text.trim (linesText width 1 s.items ++
        '\n' :: indentation width 0))) (treesOf width 1 s.items)).entities =
      s.entities := by
  have hname := s.title.frame.resolvedName_compound s.title.frame_name?
    (Text.trim (linesText width 1 s.items ++ '\n' :: indentation width 0))
  have hitems := gather_treesOf width 1 s.items [s.title.name] ({}, {})
  have hentity := structEntity?_extend hname [] {}
    (entitiesOf [s.title.name.text] s.items) s.items
  have hrecorded := Gathered.entities_foldl_record {}
    (entitiesOf [s.title.name.text] s.items ++
      [structEntity [] s.title.name s.items])
  rw [List.map_singleton] at hitems
  rw [List.nil_append] at hentity
  rw [List.foldl_append] at hrecorded
  rw [gatherStruct, innerScope, hname, Option.toList_some, List.nil_append,
    hitems]
  simp only [hentity]
  exact hrecorded

/-- At the beginning of a struct, the rule for structs is the first to
apply. -/
theorem rules_struct_text (title : Title) {inside : Text}
    (hinside : Braced inside) (behind rest : Text) :
    (Declaration.rules {}).findSome?
        (· ⟨behind, title.frame.text "struct" inside ++ rest⟩) =
      some (.declared (.struct
        (title.frame.compound (Text.trim inside))), rest) := by
  have hread := title.frame.read?_text "struct" rest (.inr rfl) hinside
  have hmark := title.frame.firstOutside_text "struct" rest inside (.inr rfl)
  obtain ⟨x, htext, hx⟩ : ∃ x, title.frame.text "struct" inside ++ rest =
      ("typedef " : Text) ++ x ∧ x.head? = some 's' := by
    cases title with
    | declared tag name => exact ⟨_, rfl, rfl⟩
    | tagged tag => exact ⟨_, rfl, rfl⟩
  have hdefine := Declaration.defineRule_eq_none_of_head (d := {})
    (t := ("typedef " : Text) ++ x) (by simp)
  have hconstant := Declaration.constantRule_eq_none_of_head (d := {})
    (t := ("typedef " : Text) ++ x) (by simp)
  have henum : Compound.read? "enum" (("typedef " : Text) ++ x) = none :=
    Compound.read?_eq_none_of_typedef (a := 'e') rfl hx (by decide)
      (by decide) (by decide)
  have hhandle := Declaration.handleRule_eq_none_of_head
    (t := ("typedef " : Text) ++ x) (by simp)
  rw [htext] at hread hmark ⊢
  have htypedef := Declaration.typedefRule_eq_none hmark (by decide)
    (by decide)
  simp only [Declaration.rules, List.cons_append, List.findSome?_cons,
    Declaration.declaredBy, hdefine, hconstant, henum, htypedef, hhandle,
    hread, Option.map_none, Option.map_some]

theorem Struct.readAll_text (width : Nat) (s : Struct) :
    Declaration.readAll {} (s.text width) =
      [⟨none, .struct (s.title.frame.compound (Text.trim
        (linesText width 1 s.items ++ '\n' :: indentation width 0)))⟩] := by
  have hbraced := Braced.append (braced_linesText width 1 s.items)
    (braced_indentation width 0)
  have hne : s.text width ≠ [] := by
    obtain ⟨⟨c, t, htext, _⟩, _⟩ := s.title.frame.text_ends "struct"
      (linesText width 1 s.items ++ '\n' :: indentation width 0) (.inr rfl)
    rw [Struct.text, htext]
    simp
  have hread : Declaration.readAll {} (s.text width) =
      itemsFrom (Declaration.rules {}) none ⟨[], s.text width ++ []⟩ := by
    rw [List.append_nil]
    rfl
  rw [hread, itemsFrom_declared hne (Cursor.midWord_of_behind (by simp) _)
    (rules_struct_text s.title hbraced [] []), itemsFrom_nil]

end Written

/-- A struct of any depth that was written by the rules is read as the
entities that it stands for. -/
theorem Header.parse_struct_text (width : Nat) (s : Written.Struct) :
    Header.parse {} (s.text width) = s.entities := by
  have hbraced : Source.Braced (s.text width) :=
    s.title.frame.braced_text _ (.inr rfl)
      (.append (Written.braced_linesText width 1 s.items)
        (Written.braced_indentation width 0))
  have hbody := Written.readBody_linesText width 1 s.items
    (Written.isSpace_indentation width 0)
  rw [Header.parse, spliceLines_of_notMem hbraced.notMem.2, s.readAll_text,
    List.foldl_cons, List.foldl_nil, gatherDeclaration,
    ← Written.gatherStruct_text width s, ← hbody]
  rfl

end Bindery
