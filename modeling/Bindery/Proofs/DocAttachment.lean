import Bindery.Proofs.EntityInvariant
import Bindery.Proofs.ParamSections
import Bindery.Proofs.Progress

/-!
# Which declaration a comment documents

Sources and struct bodies are read step by step.  A documentation comment
waits for the next declared item, and what comes in between may throw it away.
`DocReaches` says when a comment gets as far as a given step, in terms of the
steps alone.  The documentation of every declared item is that of the comment
which reaches it, and no comment reaches two of them.

An item at file scope hands its documentation to one entity.  A function
shares it with its arguments: a section about a parameter describes the
argument of that name, unless a comment in front of the argument does, and the
rest describes the function.  An item of a struct body hands its documentation
to all the members that it declares and, if it is a struct or an enum, to the
nested entity as well.
-/

namespace Bindery

open Source

namespace Source

variable {α : Type}

/-! ## Comments on their way -/

/-- Documentation stays in front of an unrecognised token, unless the token
ends a statement. -/
def Piece.KeepsDoc : Piece α → Prop
  | .token text => ∀ c ∈ text.head?, c ≠ ';' ∧ c ≠ '}'
  | _ => False

/-- The step `comment` passes over a documentation comment with this text, and
all steps behind it and before `position` keep its documentation. -/
structure DocReaches (pieces : List (Piece α)) (comment : Nat) (text : Text)
    (position : Nat) : Prop where
  before : comment < position
  doc : pieces[comment]? = some (.doc text)
  between : ∀ i, comment < i → i < position →
    ∃ piece, pieces[i]? = some piece ∧ piece.KeepsDoc

/-- The documentation in front of a step, given the one in front of the step
before. -/
def Piece.pending (doc : Option Text) : Piece α → Option Text
  | .declared _ => none
  | .doc text => some text
  | .ignored => none
  | .token text => if endsStatement text then none else doc

/-- The documentation in front of a step. -/
def pendingAt (pieces : List (Piece α)) (position : Nat) : Option Text :=
  (pieces.take position).foldl Piece.pending none

theorem endsStatement_eq_false_iff {text : Text} :
    endsStatement text = false ↔ ∀ c ∈ text.head?, c ≠ ';' ∧ c ≠ '}' := by
  unfold endsStatement
  cases text.head? with
  | none => simp
  | some c => simp

theorem Piece.pending_eq_some_iff {doc : Option Text} {piece : Piece α}
    {text : Text} :
    piece.pending doc = some text ↔
      piece = .doc text ∨ piece.KeepsDoc ∧ doc = some text := by
  cases piece with
  | declared item => simp [Piece.pending, Piece.KeepsDoc]
  | doc text' => simp [Piece.pending, Piece.KeepsDoc]
  | ignored => simp [Piece.pending, Piece.KeepsDoc]
  | token token =>
      simp only [Piece.pending, Piece.KeepsDoc, reduceCtorEq, false_or,
        ← endsStatement_eq_false_iff]
      cases endsStatement token with
      | false => simp
      | true => simp

theorem exists_docReaches_succ {pieces : List (Piece α)} {position : Nat}
    {piece : Piece α} (h : pieces[position]? = some piece) {text : Text} :
    (∃ comment, DocReaches pieces comment text (position + 1)) ↔
      piece = .doc text ∨
        piece.KeepsDoc ∧
          ∃ comment, DocReaches pieces comment text position := by
  constructor
  · rintro ⟨comment, hbefore, hdoc, hbetween⟩
    by_cases hlast : comment = position
    · rw [hlast, h, Option.some.injEq] at hdoc
      exact .inl hdoc
    · obtain ⟨piece', hpiece', hkeeps⟩ :=
        hbetween position (by omega) (by omega)
      rw [h, Option.some.injEq] at hpiece'
      refine .inr ⟨hpiece' ▸ hkeeps, comment, by omega, hdoc, ?_⟩
      exact fun i hi hi' => hbetween i hi (by omega)
  · rintro (rfl | ⟨hkeeps, comment, hbefore, hdoc, hbetween⟩)
    · exact ⟨position, by omega, h, fun i hi hi' => by omega⟩
    · refine ⟨comment, by omega, hdoc, fun i hi hi' => ?_⟩
      by_cases hlast : i = position
      · exact ⟨piece, hlast ▸ h, hkeeps⟩
      · exact hbetween i hi (by omega)

theorem pendingAt_eq_some_iff {pieces : List (Piece α)} {position : Nat}
    (h : position ≤ pieces.length) {text : Text} :
    pendingAt pieces position = some text ↔
      ∃ comment, DocReaches pieces comment text position := by
  -- Each step decides as `DocReaches` does whether the comment goes on.
  induction position generalizing text with
  | zero =>
      constructor
      · intro hpending
        simp [pendingAt] at hpending
      · rintro ⟨comment, hbefore, _, _⟩
        omega
  | succ position ih =>
      have hpiece := List.getElem?_eq_getElem (Nat.lt_of_succ_le h)
      rw [exists_docReaches_succ hpiece, ← ih (by omega), pendingAt,
        List.take_add_one, hpiece, Option.toList_some, List.foldl_append,
        ← pendingAt]
      exact Piece.pending_eq_some_iff

theorem DocReaches.eq_of_declared {pieces : List (Piece α)} {comment : Nat}
    {text text' : Text} {i j : Nat} {item item' : α}
    (hi : DocReaches pieces comment text i)
    (hj : DocReaches pieces comment text' j)
    (hitem : pieces[i]? = some (.declared item))
    (hitem' : pieces[j]? = some (.declared item')) : j = i := by
  -- A declared item is no token, so no comment gets past it.
  have hnot {k l : Nat} {text : Text} {item : α}
      (hk : comment < k) (hl : DocReaches pieces comment text l)
      (hitem : pieces[k]? = some (.declared item)) : ¬ k < l := by
    intro hlt
    obtain ⟨piece, hpiece, hkeeps⟩ := hl.between k hk hlt
    rw [hitem, Option.some.injEq] at hpiece
    rw [← hpiece] at hkeeps
    exact hkeeps
  have hle := hnot hi.before hj hitem
  have hge := hnot hj.before hi hitem'
  omega

/-! ## Documented items -/

theorem documentedFrom_append (doc : Option Text) (xs ys : List (Piece α)) :
    documentedFrom doc (xs ++ ys) = documentedFrom doc xs ++
      documentedFrom (xs.foldl Piece.pending doc) ys := by
  fun_induction documentedFrom doc xs with
  | case1 => rfl
  | case2 doc item xs ih => exact congrArg (⟨doc, item⟩ :: ·) ih
  | case3 _ text xs ih => exact ih
  | case4 _ xs ih => exact ih
  | case5 doc token xs ih => exact ih

theorem documented_take_succ {pieces : List (Piece α)} {i : Nat} {item : α}
    (h : pieces[i]? = some (.declared item)) :
    documented (pieces.take (i + 1)) =
      documented (pieces.take i) ++ [⟨pendingAt pieces i, item⟩] := by
  rw [List.take_add_one, h, Option.toList_some, documented,
    documentedFrom_append]
  rfl

theorem documented_take_prefix (pieces : List (Piece α)) (n : Nat) :
    documented (pieces.take n) <+: documented pieces := by
  have hsplit := documentedFrom_append none (pieces.take n) (pieces.drop n)
  rw [List.take_append_drop] at hsplit
  exact ⟨_, hsplit.symm⟩

/-- A declared item at step `i` has the documentation `doc`: that of the
comment which reaches it, a comment that reaches no other item. -/
structure DocumentedAt (pieces : List (Piece α)) (i : Nat)
    (doc : Option Text) : Prop where
  eq_some_iff : ∀ text,
    doc = some text ↔ ∃ comment, DocReaches pieces comment text i
  unshared : ∀ comment text, DocReaches pieces comment text i →
    ∀ j text' item, pieces[j]? = some (.declared item) →
      DocReaches pieces comment text' j → j = i

theorem documentedAt_pendingAt {pieces : List (Piece α)} {i : Nat} {item : α}
    (h : pieces[i]? = some (.declared item)) :
    DocumentedAt pieces i (pendingAt pieces i) where
  eq_some_iff _ := by
    obtain ⟨hlt, _⟩ := List.getElem?_eq_some_iff.mp h
    exact pendingAt_eq_some_iff (Nat.le_of_lt hlt)
  unshared _ _ hi _ _ _ hitem hj := hi.eq_of_declared hj h hitem

/-! ## What an element of a body adds -/

/-- The names of the members that an element of a struct body declares. -/
def Entry.memberNames : Entry → List Text
  | .variables _ declarators =>
    ((declarators.splitOn ',').filterMap Declarator.parse?).map Declarator.name
  | .enum compound => compound.declaredVariable?.toList
  | e => e.name?.toList

def BodyItem.memberNames : BodyItem → List Text
  | .entry e => e.memberNames
  | .struct compound => compound.declaredVariable?.toList

namespace Tree

def doc : Tree → Option Text
  | .entry doc _ => doc
  | .nested doc _ _ => doc

def memberNames : Tree → List Text
  | .entry _ e => e.memberNames
  | .nested _ compound _ => compound.declaredVariable?.toList

end Tree

end Source

/-- Between two states, members of these names are added that all have the
documentation `doc`.  Entities are added as well. -/
structure AddsMembers (doc : Option Text) (names : List Text)
    (s s' : Gathered × Fields) : Prop where
  members : ∃ added, s'.2.members = s.2.members ++ added ∧
    added.map Member.name = names ∧ ∀ m ∈ added, m.description = doc
  entities : s.1.entities <+: s'.1.entities

namespace AddsMembers

variable {doc : Option Text} {names names' : List Text}
  {s s' s'' : Gathered × Fields}

theorem refl (doc : Option Text) (s : Gathered × Fields) :
    AddsMembers doc [] s s where
  members := ⟨[], by simp⟩
  entities := List.prefix_refl _

theorem trans (h : AddsMembers doc names s s')
    (h' : AddsMembers doc names' s' s'') :
    AddsMembers doc (names ++ names') s s'' where
  members := by
    obtain ⟨added, hadded, hnames, hdoc⟩ := h.members
    obtain ⟨added', hadded', hnames', hdoc'⟩ := h'.members
    refine ⟨added ++ added', ?_, ?_, ?_⟩
    · rw [hadded', hadded, List.append_assoc]
    · rw [List.map_append, hnames, hnames']
    · exact List.forall_mem_append.mpr ⟨hdoc, hdoc'⟩
  entities := h.entities.trans h'.entities

theorem of_add {m : Member} {name : Text} {g : Gathered}
    (hname : m.name = name) (hdoc : m.description = doc)
    (hg : s.1.entities <+: g.entities) :
    AddsMembers doc [name] s (g, s.2.add m) where
  members := ⟨[m], rfl, by simp [hname], by simpa using hdoc⟩
  entities := hg

theorem of_nestedMember {c : Compound} {e : Entity} {g : Gathered}
    (hdoc : e.description = doc) (hg : s.1.entities <+: g.entities) :
    AddsMembers doc c.declaredVariable?.toList s
      (g, (nestedMember? c e).elim s.2 s.2.add) := by
  unfold nestedMember?
  cases c.declaredVariable? with
  | none => exact ⟨(refl doc s).members, hg⟩
  | some name => exact of_add rfl hdoc hg

end AddsMembers

theorem addsMembers_gatherVariable (base : Text) (doc : Option Text)
    (s : Gathered × Fields) (raw : Text) :
    AddsMembers doc ((Declarator.parse? raw).map Declarator.name).toList s
      (gatherVariable base doc s raw) := by
  unfold gatherVariable
  cases Declarator.parse? raw with
  | none => exact .refl doc s
  | some declarator =>
      simp only [Option.map_some, Option.toList_some]
      split
      · exact .of_add rfl rfl (List.prefix_refl _)
      · exact .of_add rfl rfl (prefix_pushArray _ _ _)

theorem addsMembers_gatherVariables (base : Text) (doc : Option Text)
    (s : Gathered × Fields) (raws : List Text) :
    AddsMembers doc ((raws.filterMap Declarator.parse?).map Declarator.name) s
      (raws.foldl (gatherVariable base doc) s) := by
  induction raws generalizing s with
  | nil => exact .refl doc s
  | cons raw raws ih =>
      have h := (addsMembers_gatherVariable base doc s raw).trans (ih _)
      rw [List.filterMap_cons]
      cases hraw : Declarator.parse? raw with
      | none => simpa [hraw] using h
      | some declarator => simpa [hraw] using h

/-- A compound that declares a variable has a name. -/
theorem Source.Compound.declaredVariable?_eq_none {c : Compound}
    (h : c.resolvedName = none) : c.declaredVariable? = none := by
  unfold resolvedName at h
  have hname : c.declaredName = [] := by
    rw [List.find?_eq_none] at h
    by_cases htypedef : c.isTypedef = true
    · simpa [htypedef] using h c.declaredName (by simp [htypedef])
    · simpa [htypedef] using h c.declaredName (by simp [htypedef])
  simp [declaredVariable?, hname]

theorem exists_enumEntity {c : Compound} {name : Text}
    (h : c.resolvedName = some name) (scope : List Text) (doc : Option Text) :
    ∃ e, enumEntity? scope doc c = some e ∧ e.scope = scope ∧ e.name = name ∧
      e.description = doc :=
  ⟨_, congrArg (Option.map _) h, rfl, rfl, rfl⟩

theorem exists_structEntity {c : Compound} {name : Text}
    (h : c.resolvedName = some name) (scope : List Text) (doc : Option Text)
    (f : Fields) :
    ∃ e, structEntity? scope doc c f = some e ∧ e.scope = scope ∧
      e.name = name ∧ e.description = doc :=
  ⟨_, congrArg (Option.map _) h, rfl, rfl, rfl⟩

theorem addsMembers_gatherEntry (scope : List Text) (doc : Option Text)
    (s : Gathered × Fields) (e : Entry) :
    AddsMembers doc e.memberNames s (gatherEntry scope doc s e) := by
  have hprefix := List.prefix_refl s.1.entities
  cases e with
  | tupleMarker => exact ⟨(AddsMembers.refl doc s).members, hprefix⟩
  | constructor params expression => exact .of_add rfl rfl hprefix
  | method signature name expression => exact .of_add rfl rfl hprefix
  | ptrGetter name field => exact .of_add rfl rfl hprefix
  | arrayGetter name arrayField lengthField => exact .of_add rfl rfl hprefix
  | enum compound =>
      simp only [gatherEntry, Entry.memberNames]
      split
      · next hnone =>
        rw [Compound.declaredVariable?_eq_none
          (Option.map_eq_none_iff.mp hnone)]
        exact .refl doc s
      · next e he =>
        obtain ⟨name, _, rfl⟩ := Option.map_eq_some_iff.mp he
        exact .of_nestedMember rfl (List.prefix_append _ _)
  | «variables» base declarators =>
      exact addsMembers_gatherVariables base doc s _

mutual

theorem addsMembers_gatherTree (scope : List Text) (s : Gathered × Fields) :
    ∀ tree : Tree,
      AddsMembers tree.doc tree.memberNames s (gatherTree scope s tree)
  | .entry doc e => addsMembers_gatherEntry scope doc s e
  | .nested doc compound children => by
      have hbody := (extends_gatherTrees (innerScope scope compound)
        (s.1, {}) children).1
      simp only [gatherTree, Tree.doc, Tree.memberNames]
      split
      · next hnone =>
        rw [Compound.declaredVariable?_eq_none
          (Option.map_eq_none_iff.mp hnone)]
        exact ⟨(AddsMembers.refl doc s).members, hbody⟩
      · next e he =>
        obtain ⟨name, _, rfl⟩ := Option.map_eq_some_iff.mp he
        exact .of_nestedMember rfl (hbody.trans (List.prefix_append _ _))

theorem extends_gatherTrees (scope : List Text) (s : Gathered × Fields) :
    ∀ trees : List Tree,
      s.1.entities <+: (gatherTrees scope s trees).1.entities ∧
        s.2.members <+: (gatherTrees scope s trees).2.members
  | [] => ⟨List.prefix_refl _, List.prefix_refl _⟩
  | tree :: trees => by
      have htree := addsMembers_gatherTree scope s tree
      have htrees := extends_gatherTrees scope (gatherTree scope s tree) trees
      obtain ⟨added, hadded, _⟩ := htree.members
      exact ⟨htree.entities.trans htrees.1,
        List.IsPrefix.trans ⟨added, hadded.symm⟩ htrees.2⟩

end

theorem gatherTrees_append (scope : List Text) (s : Gathered × Fields)
    (xs ys : List Tree) :
    gatherTrees scope s (xs ++ ys) =
      gatherTrees scope (gatherTrees scope s xs) ys := by
  induction xs generalizing s with
  | nil => rfl
  | cons tree xs ih => exact ih _

/-! ## Reading a body step by step -/

namespace Source.Tree

/-- The steps of reading a body. -/
def steps (d : Dialect) (body : Text) : List (Piece BodyItem) :=
  (walk (BodyItem.next d) (.start body)).map Located.piece

/-- The element of a body that an item stands for. -/
def ofItem (d : Dialect) (x : Documented BodyItem) : Tree :=
  match x.item with
  | .entry e => .entry x.doc e
  | .struct compound => .nested x.doc compound (readBody d compound.body)

theorem readBody_eq_map (d : Dialect) (body : Text) :
    readBody d body = (documented (steps d body)).map (ofItem d) :=
  readBody_eq d body

/-- What is gathered once the first `n` steps over a body are done. -/
def gatheredAfter (d : Dialect) (body : Text) (scope : List Text)
    (s : Gathered × Fields) (n : Nat) : Gathered × Fields :=
  gatherTrees scope s ((documented ((steps d body).take n)).map (ofItem d))

variable {d : Dialect} {body : Text} {scope : List Text}
  {s : Gathered × Fields}

theorem gatheredAfter_succ {i : Nat} {item : BodyItem}
    (h : (steps d body)[i]? = some (.declared item)) :
    gatheredAfter d body scope s (i + 1) =
      gatherTree scope (gatheredAfter d body scope s i)
        (ofItem d ⟨pendingAt (steps d body) i, item⟩) := by
  rw [gatheredAfter, documented_take_succ h, List.map_append,
    gatherTrees_append]
  rfl

theorem gatheredAfter_extends (d : Dialect) (body : Text) (scope : List Text)
    (s : Gathered × Fields) (n : Nat) :
    (gatheredAfter d body scope s n).1.entities <+:
        (gatherTrees scope s (readBody d body)).1.entities ∧
      (gatheredAfter d body scope s n).2.members <+:
        (gatherTrees scope s (readBody d body)).2.members := by
  obtain ⟨rest, hrest⟩ := documented_take_prefix (steps d body) n
  rw [readBody_eq_map, ← hrest, List.map_append, gatherTrees_append]
  exact extends_gatherTrees scope _ _

theorem exists_nested_of_compound (d : Dialect) {x : Documented BodyItem}
    {compound : Compound} {name : Text}
    (hcompound : x.item.compound? = some compound)
    (hname : compound.resolvedName = some name) :
    ∃ nested e, (gatherTree scope s (ofItem d x)).1.entities =
        s.1.entities ++ nested ++ [e] ∧
      e.scope = scope ∧ e.name = name ∧ e.description = x.doc := by
  obtain ⟨doc, item⟩ := x
  cases item with
  | entry e =>
      cases e with
      | enum c =>
          obtain rfl := Option.some.inj hcompound
          obtain ⟨e, he, hfacts⟩ := exists_enumEntity hname scope doc
          simp only [ofItem, gatherTree, gatherEntry, he]
          exact ⟨[], e, by rw [List.append_nil]; rfl, hfacts⟩
      | _ => contradiction
  | struct c =>
      obtain rfl := Option.some.inj hcompound
      obtain ⟨nested, hnested⟩ := (extends_gatherTrees
        (innerScope scope c) (s.1, {}) (readBody d c.body)).1
      obtain ⟨e, he, hfacts⟩ := exists_structEntity hname scope doc
        (gatherTrees (innerScope scope c) (s.1, {}) (readBody d c.body)).2
      simp only [ofItem, gatherTree, he]
      exact ⟨nested, e, by rw [hnested]; rfl, hfacts⟩

/-- What the item at step `i` of a body adds, and which of it has the
documentation `doc`. -/
structure DocumentsItem (d : Dialect) (body : Text) (scope : List Text)
    (s : Gathered × Fields) (i : Nat) (item : BodyItem) (doc : Option Text) :
    Prop where
  /-- The members that the item declares, and only these, come next. -/
  members : ∃ added,
    (gatheredAfter d body scope s (i + 1)).2.members =
        (gatheredAfter d body scope s i).2.members ++ added ∧
      added.map Member.name = item.memberNames ∧
      ∀ m ∈ added, m.description = doc
  /-- A nested struct or enum comes last. -/
  nested : ∀ compound name, item.compound? = some compound →
    compound.resolvedName = some name →
      ∃ nested e, (gatheredAfter d body scope s (i + 1)).1.entities =
          (gatheredAfter d body scope s i).1.entities ++ nested ++ [e] ∧
        e.scope = scope ∧ e.name = name ∧ e.description = doc
  members_kept : (gatheredAfter d body scope s (i + 1)).2.members <+:
    (gatherTrees scope s (readBody d body)).2.members
  entities_kept : (gatheredAfter d body scope s (i + 1)).1.entities <+:
    (gatherTrees scope s (readBody d body)).1.entities

theorem documentsItem_pendingAt {i : Nat} {item : BodyItem}
    (h : (steps d body)[i]? = some (.declared item)) :
    DocumentsItem d body scope s i item (pendingAt (steps d body) i) where
  members := by
    rw [gatheredAfter_succ h]
    cases item with
    | entry e => exact (addsMembers_gatherTree scope _ (.entry _ e)).members
    | struct c => exact (addsMembers_gatherTree scope _ (.nested _ c _)).members
  nested compound name hcompound hname := by
    rw [gatheredAfter_succ h]
    exact exists_nested_of_compound d hcompound hname
  members_kept := (gatheredAfter_extends d body scope s (i + 1)).2
  entities_kept := (gatheredAfter_extends d body scope s (i + 1)).1

end Source.Tree

/-! ## Reading a source step by step -/

def Source.Declaration.knownName? (x : Declaration) : Option Text :=
  x.name?.or (x.compound?.bind Compound.resolvedName)

namespace Header

/-- The steps of reading a source. -/
def steps (d : Dialect) (source : Text) : List (Piece Declaration) :=
  (walk (Declaration.next d) (.start (spliceLines source))).map Located.piece

/-- What is gathered once the first `n` steps over a source are done. -/
def gatheredAfter (d : Dialect) (source : Text) (n : Nat) : Gathered :=
  (documented ((steps d source).take n)).foldl (gatherDeclaration d) {}

/-- A piece of an argument list that can be read as an argument, and the
argument.  A comment in front of it comes before what the documentation of the
function says about its name. -/
structure DescribesArgument (shared : Description) (raw : Text) (arg : Member) :
    Prop where
  split : splitArgument raw = some (arg.typeText, arg.name)
  description : arg.description =
    (leadingDescription raw).or (shared.params.lookup arg.name)

/-- The documentation of a function, in which no text counts as an empty one,
consists of what describes the function and what describes its arguments. -/
structure SharesDocumentation (doc : Option Text) (args : Text)
    (shared : Description) (e : Entity) : Prop where
  extracts : Extracts (Documents fun _ => True) (doc.getD []) shared
  description : e.description =
    if shared.general = [] then none else some shared.general
  arguments : List.Forall₂ (DescribesArgument shared)
    ((splitList ',' args).filter (splitArgument · |>.isSome)) e.members

/-- What the declaration at step `i` of a source adds, with the documentation
`doc`.  The sections of a function's documentation that are about arguments
are taken out of it. -/
structure DocumentsDeclaration (d : Dialect) (source : Text) (i : Nat)
    (item : Declaration) (name : Text) (doc : Option Text) (e : Entity) :
    Prop where
  /-- The entity of the declaration comes behind what is nested in it. -/
  last : ∃ nested, (gatheredAfter d source (i + 1)).entities =
    (gatheredAfter d source i).entities ++ nested ++ [e]
  name_eq : e.name = name
  function : ∀ returnType name args,
    item = .function returnType name args →
      e = functionEntity doc returnType name args
  shared : ∀ returnType name args,
    item = .function returnType name args →
      ∃ shared, SharesDocumentation doc args shared e
  other : (∀ returnType name args,
    item ≠ .function returnType name args) → e.description = doc
  entities_kept : (gatheredAfter d source (i + 1)).entities <+: parse d source

theorem prefix_gatherDeclaration (d : Dialect) (g : Gathered)
    (x : Documented Declaration) :
    g.entities <+: (gatherDeclaration d g x).entities := by
  obtain ⟨doc, item⟩ := x
  cases item with
  | enum compound =>
      simp only [gatherDeclaration]
      cases enumEntity? [] doc compound with
      | none => exact List.prefix_refl _
      | some e => exact List.prefix_append _ _
  | struct compound =>
      have hbody := (extends_gatherTrees (innerScope [] compound) (g, {})
        (Tree.readBody d compound.body)).1
      simp only [gatherDeclaration, gatherStruct]
      cases structEntity? [] doc compound _ with
      | none => exact hbody
      | some e => exact hbody.trans (List.prefix_append _ _)
  | _ => exact List.prefix_append _ _

theorem prefix_gatherDeclarations (d : Dialect) (g : Gathered)
    (xs : List (Documented Declaration)) :
    g.entities <+: (xs.foldl (gatherDeclaration d) g).entities := by
  induction xs generalizing g with
  | nil => exact List.prefix_refl _
  | cons x xs ih => exact (prefix_gatherDeclaration d g x).trans (ih _)

theorem gatheredAfter_succ {d : Dialect} {source : Text} {i : Nat}
    {item : Declaration}
    (h : (steps d source)[i]? = some (.declared item)) :
    gatheredAfter d source (i + 1) =
      gatherDeclaration d (gatheredAfter d source i)
        ⟨pendingAt (steps d source) i, item⟩ := by
  rw [gatheredAfter, documented_take_succ h, List.foldl_append]
  rfl

theorem gatheredAfter_prefix (d : Dialect) (source : Text) (n : Nat) :
    (gatheredAfter d source n).entities <+: parse d source := by
  obtain ⟨rest, hrest⟩ := documented_take_prefix (steps d source) n
  change _ <+: ((documented (steps d source)).foldl
    (gatherDeclaration d) {}).entities
  rw [← hrest, List.foldl_append]
  exact prefix_gatherDeclarations d _ _

theorem describesArgument_filterMap (shared : Description)
    (raws : List Text) :
    List.Forall₂ (DescribesArgument shared)
      (raws.filter (splitArgument · |>.isSome))
      (raws.filterMap (argument? shared.params)) := by
  induction raws with
  | nil => exact .nil
  | cons raw raws ih =>
      cases hraw : splitArgument raw with
      | none => simpa [argument?, hraw] using ih
      | some split =>
          rw [List.filter_cons_of_pos (by simp [hraw]),
            List.filterMap_cons_some (by rw [argument?, hraw]; rfl)]
          exact .cons ⟨hraw, rfl⟩ ih

/-- No documentation and an empty one make no difference. -/
theorem functionEntity_eq (doc : Option Text) (returnType name args : Text) :
    functionEntity doc returnType name args =
      functionEntity (some (doc.getD [])) returnType name args := by
  cases doc with
  | none => rfl
  | some text => rfl

theorem sharesDocumentation_functionEntity (doc : Option Text)
    (returnType name args : Text) :
    SharesDocumentation doc args (Description.ofText (doc.getD []))
      (functionEntity doc returnType name args) where
  extracts := Description.extracts_ofText _
  description := by
    rw [functionEntity_eq]
    simp only [functionEntity, Option.map_some, Option.filter_some,
      Bool.not_eq_true', List.isEmpty_eq_false_iff, ne_eq, ite_not]
  arguments := by
    rw [functionEntity_eq]
    exact describesArgument_filterMap _ _

theorem DocumentsDeclaration.of_push {d : Dialect} {source : Text} {i : Nat}
    {item : Declaration} {name : Text} {g : Gathered} {e : Entity}
    (h : (steps d source)[i]? = some (.declared item))
    (hpush : gatherDeclaration d (gatheredAfter d source i)
      ⟨pendingAt (steps d source) i, item⟩ = g.push e)
    (hg : (gatheredAfter d source i).entities <+: g.entities)
    (hname : e.name = name)
    (hfunction : ∀ returnType name args,
      item = .function returnType name args →
        e = functionEntity (pendingAt (steps d source) i) returnType name args)
    (hother : (∀ returnType name args,
      item ≠ .function returnType name args) →
        e.description = pendingAt (steps d source) i) :
    DocumentsDeclaration d source i item name
      (pendingAt (steps d source) i) e where
  last := by
    obtain ⟨nested, hnested⟩ := hg
    exact ⟨nested, by rw [gatheredAfter_succ h, hpush, hnested]; rfl⟩
  name_eq := hname
  function := hfunction
  shared returnType name args hitem := by
    rw [hfunction returnType name args hitem]
    exact ⟨_, sharesDocumentation_functionEntity _ _ _ _⟩
  other := hother
  entities_kept := gatheredAfter_prefix d source (i + 1)

theorem documentsDeclaration_pendingAt {d : Dialect} {source : Text} {i : Nat}
    {item : Declaration} {name : Text}
    (h : (steps d source)[i]? = some (.declared item))
    (hname : item.knownName? = some name) :
    ∃ e, DocumentsDeclaration d source i item name
      (pendingAt (steps d source) i) e := by
  have hrefl := List.prefix_refl (gatheredAfter d source i).entities
  cases item with
  | function returnType name' args =>
      obtain rfl := Option.some.inj hname
      refine ⟨_, .of_push h rfl hrefl rfl ?_ ?_⟩
      · rintro _ _ _ heq
        cases heq
        rfl
      · exact fun hother => absurd rfl (hother returnType name' args)
  | enum compound =>
      have hresolved : compound.resolvedName = some name := hname
      obtain ⟨e, he, _, hname, hdoc⟩ := exists_enumEntity hresolved []
        (pendingAt (steps d source) i)
      refine ⟨e, .of_push h ?_ hrefl hname (by simp) fun _ => hdoc⟩
      simp only [gatherDeclaration, he, Option.elim_some]
  | struct compound =>
      have hresolved : compound.resolvedName = some name := hname
      have hbody := (extends_gatherTrees (innerScope [] compound)
        (gatheredAfter d source i, {}) (Tree.readBody d compound.body)).1
      obtain ⟨e, he, _, hname, hdoc⟩ := exists_structEntity hresolved []
        (pendingAt (steps d source) i) (gatherTrees (innerScope [] compound)
          (gatheredAfter d source i, {}) (Tree.readBody d compound.body)).2
      refine ⟨e, .of_push h ?_ hbody hname (by simp) fun _ => hdoc⟩
      simp only [gatherDeclaration, gatherStruct, he, Option.elim_some]
  | _ =>
      obtain rfl := Option.some.inj hname
      exact ⟨_, .of_push h rfl hrefl rfl (by simp) fun _ => rfl⟩

end Header

/-- Whatever the text, a declaration with a name gets the documentation of the
comment that reaches it, if there is one, and a comment reaches one
declaration at most.  In a struct body the same holds of its items, and all
that an item declares gets the documentation of the item. -/
theorem documentation_attached (d : Dialect) :
    (∀ source i item name,
      (Header.steps d source)[i]? = some (.declared item) →
      item.knownName? = some name →
        ∃ doc e, Header.DocumentsDeclaration d source i item name doc e ∧
          DocumentedAt (Header.steps d source) i doc) ∧
    ∀ body scope s i item,
      (Tree.steps d body)[i]? = some (.declared item) →
        ∃ doc, Tree.DocumentsItem d body scope s i item doc ∧
          DocumentedAt (Tree.steps d body) i doc := by
  constructor
  · intro source i item name hitem hname
    obtain ⟨e, he⟩ := Header.documentsDeclaration_pendingAt hitem hname
    exact ⟨_, e, he, documentedAt_pendingAt hitem⟩
  · intro body scope s i item hitem
    exact ⟨_, Tree.documentsItem_pendingAt hitem,
      documentedAt_pendingAt hitem⟩

/-- Documentation of a function that passes an unknown word, and of a line
with two declarators.  A comment that a statement ends is lost. -/
theorem documentation_attached_across_tokens :
    let source : Text := "/// a @param x b\nfoo\nint ODE_API f(int x);"
    let body : Text := "/// a\nfoo; /** b */ int x, *y[2];"
    (∃ e, Header.DocumentsDeclaration {} source 4
        (.function "int" "f" "int x") "f" (some "a @param x b") e ∧
      e.description = some ("a" : Text) ∧
      e.members.map Member.description = [some ("b" : Text)]) ∧
    ∃ doc, doc = some ("b" : Text) ∧ Tree.DocumentsItem {} body [] ({}, {}) 7
      (.entry (.variables "int" " x, *y[2]")) doc := by
  intro source body
  have hsource : Header.steps {} source = [.doc "a @param x b", .token "\n",
      .token "foo", .token "\n",
      .declared (.function "int" "f" "int x")] := by
    decide +kernel
  have hbody : Tree.steps {} body = [.doc "a", .token "\n", .token "foo",
      .token ";", .token " ", .doc "b", .token " ",
      .declared (.entry (.variables "int" " x, *y[2]"))] := by
    decide +kernel
  obtain ⟨hfile, hstruct⟩ := documentation_attached {}
  constructor
  · obtain ⟨doc, e, he, hdoc⟩ := hfile source 4 _ "f" (by rw [hsource]; rfl) rfl
    have hreaches : DocReaches (Header.steps {} source) 0 "a @param x b" 4 := by
      rw [hsource]
      refine ⟨by decide, rfl, fun i hi hi' => ?_⟩
      interval_cases i
      all_goals exact ⟨_, rfl, by simp [Piece.KeepsDoc]⟩
    rw [(hdoc.eq_some_iff _).mpr ⟨0, hreaches⟩] at he
    obtain rfl := he.function _ _ _ rfl
    exact ⟨_, he, by decide +kernel, by decide +kernel⟩
  · obtain ⟨doc, hitem, hdoc⟩ :=
      hstruct body [] ({}, {}) 7 _ (by rw [hbody]; rfl)
    have hreaches : DocReaches (Tree.steps {} body) 5 "b" 7 := by
      rw [hbody]
      refine ⟨by decide, rfl, fun i hi hi' => ?_⟩
      obtain rfl : i = 6 := by omega
      exact ⟨_, rfl, by simp [Piece.KeepsDoc]⟩
    exact ⟨doc, (hdoc.eq_some_iff _).mpr ⟨5, hreaches⟩, hitem⟩

end Bindery
