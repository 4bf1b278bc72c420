import Bindery.Proofs.CommentEnds
import Bindery.Proofs.DocAttachment
import Bindery.Proofs.Prototype

/-!
# Where descriptions come from

A description is read from a comment in front of a declaration, an element of a
struct body, an enumerator or an argument, or from a section about a parameter.
All of these are parts of the source once its continued lines are joined:
bodies and arguments follow a brace or a parenthesis, so joining lines once
more, as the splitting of lists does, changes nothing in them.

Gathering entities copies documentation and never makes any up.  What holds of
all documentation that is read therefore holds of all descriptions, and an end
of a comment in a description is found in the source again, behind three
slashes.
-/

namespace Bindery

namespace Source

open Text Matcher

/-! ## Parts of a source -/

/-- A part of a text in which no line is continued. -/
structure SplicedPart (t part : Text) : Prop where
  inside : part <:+: t
  spliced : spliceLines part = part

theorem splicedPart_source (source : Text) :
    SplicedPart (spliceLines source) (spliceLines source) where
  inside := List.infix_rfl
  spliced := spliceLines_spliceLines source

/-- What follows a character other than a backslash is a part in turn. -/
theorem SplicedPart.behind {t part u before inside after : Text} {c : Char}
    (h : SplicedPart t part) (hu : u <:+ part)
    (hsplit : u = before ++ c :: (inside ++ after)) (hc : c ≠ '\\') :
    SplicedPart t (Text.trim inside) := by
  obtain ⟨front, hfront⟩ := hu
  have hpart : part = (front ++ before) ++ c :: (inside ++ after) := by
    rw [← hfront, hsplit, List.append_assoc]
  have hspliced : spliceLines inside = inside := by
    have hpart' := h.spliced
    rw [hpart] at hpart'
    exact spliceLines_of_append (spliceLines_of_append_cons hc hpart')
  refine ⟨(infix_trim inside).trans (List.IsInfix.trans ?_ h.inside),
    spliceLines_trim hspliced⟩
  exact ⟨front ++ before ++ [c], after, by rw [hpart]; simp⟩

theorem SplicedPart.infix_of_mem_splitList {t part piece : Text}
    {separator : Char} (h : SplicedPart t part)
    (hpiece : piece ∈ splitList separator part) : piece <:+: t := by
  obtain ⟨raw, hraw, rfl⟩ := exists_of_mem_splitList hpiece
  have hpart : raw <:+: spliceLines part := by
    rw [← join_rawPieces separator (spliceLines part)]
    exact infix_join_of_mem hraw
  rw [h.spliced] at hpart
  exact (infix_trim raw).trans (hpart.trans h.inside)

namespace Compound

/-- What is left over follows an opening brace. -/
def OpenedAt (t rest : Text) : Prop := ∃ before, t = before ++ '\x7b' :: rest

theorem OpenedAt.of_suffix {t mid rest : Text} (hmid : mid <:+ t)
    (h : OpenedAt mid rest) : OpenedAt t rest := by
  obtain ⟨front, rfl⟩ := hmid
  obtain ⟨before, rfl⟩ := h
  exact ⟨front ++ before, by rw [List.append_assoc]⟩

theorem leaves_head (keyword : Text) : (head keyword).Leaves OpenedAt := by
  have htrans (t mid rest : Text) (hmid : mid <:+ t) (h : OpenedAt mid rest) :
      OpenedAt t rest := h.of_suffix hmid
  have hbrace :
      Matcher.Leaves OpenedAt (sequence [spaces, literal "\x7b"]) := by
    intro t rest h
    simp only [mem_sequence_cons, mem_sequence_nil, mem_literal] at h
    obtain ⟨mid, hmid, rest', rfl, rfl⟩ := h
    exact OpenedAt.of_suffix (cuts_run t _ hmid) ⟨[], rfl⟩
  refine .bind (Rule.cuts_capture? (by simp [spaces1])) (fun _ =>
    .bind (Rule.cuts_skip (cuts_sequence (by simp [spaces]))) (fun _ =>
    .bind (Rule.cuts_capture cuts_run) (fun _ => ?_) htrans) htrans) htrans
  intro β t k b h
  rw [Rule.run_bind] at h
  obtain ⟨_, rest, hrest, h⟩ := Rule.leaves_skip hbrace β t _ b h
  exact ⟨_, rest, hrest, h⟩

theorem splicedPart_body {t part u keyword rest : Text} {c : Compound}
    (h : SplicedPart t part) (hu : u <:+ part)
    (hread : read? keyword u = some (c, rest)) : SplicedPart t c.body := by
  simp only [read?, Option.bind_eq_bind, Option.bind_eq_some_iff] at hread
  obtain ⟨⟨_, t1⟩, hhead, ⟨inside, t2⟩, hinside, _, _, heq⟩ := hread
  simp only [Option.pure_def, Option.some.injEq, Prod.mk.injEq] at heq
  obtain ⟨before, hbefore⟩ := (leaves_head keyword).of_first? hhead
  obtain ⟨closing, _, hclosing⟩ := enclosed_eq hinside
  have hsplit : u = before ++ '\x7b' :: (inside ++ closing :: t2) := by
    rw [hbefore, ← hclosing]
  rw [← heq.1]
  exact h.behind hu hsplit (by decide)

end Compound

/-! ## Pieces of a walk -/

section Walk

variable {α : Type} {next : (c : Cursor) → Option (Found α c)}

theorem suffix_of_mem_walk {t : Text} {x : Located α}
    (hx : x ∈ walk next (.start t)) : x.start.ahead <:+ t := by
  have htext : x.start.behind.reverse ++ x.start.ahead = t :=
    invariant_of_mem_walk (P := fun c => c.behind.reverse ++ c.ahead = t)
      (fun _ _ _ hc => Cursor.text_advance hc _)
      (fun _ hc => Cursor.text_advance hc _) rfl hx
  exact ⟨_, htext⟩

/-- What a walk comes across and is no token was recognised somewhere. -/
theorem exists_found_of_mem_pieces {t : Text} {piece : Piece α}
    (h : piece ∈ (walk next (.start t)).map Located.piece)
    (hpiece : ∀ token, piece ≠ .token token) :
    ∃ c found, c.ahead <:+ t ∧ next c = some found ∧ found.piece = piece := by
  obtain ⟨x, hx, rfl⟩ := List.mem_map.mp h
  obtain ⟨_, ⟨found, hfound, heq⟩ | htoken⟩ := mem_walk hx
  · exact ⟨x.start, found, suffix_of_mem_walk hx, hfound, heq.symm⟩
  · exact absurd htoken (hpiece _)

theorem doc_of_mem_documentedFrom {doc : Option Text} {pieces : List (Piece α)}
    {x : Documented α} {text : Text} (h : x ∈ documentedFrom doc pieces)
    (htext : x.doc = some text) : doc = some text ∨ .doc text ∈ pieces := by
  fun_induction documentedFrom doc pieces with
  | case1 => contradiction
  | case2 doc item pieces ih =>
      rcases List.mem_cons.mp h with rfl | h
      · exact .inl htext
      · exact .inr (List.mem_cons_of_mem _ ((ih h).resolve_left (by simp)))
  | case3 _ text' pieces ih =>
      rcases ih h with heq | hmem
      · rw [Option.some.inj heq]
        exact .inr List.mem_cons_self
      · exact .inr (List.mem_cons_of_mem _ hmem)
  | case4 _ pieces ih =>
      exact .inr (List.mem_cons_of_mem _ ((ih h).resolve_left (by simp)))
  | case5 doc token pieces ih =>
      rcases ih h with heq | hmem
      · split at heq
        · contradiction
        · exact .inl heq
      · exact .inr (List.mem_cons_of_mem _ hmem)

theorem accounts_of_mem_documented
    (hremark : ∀ {c : Cursor} {found : Found α c}, next c = some found →
      (¬ ∃ x, found.piece = .declared x) →
        RemarkAt c.ahead found.piece found.rest)
    {t text : Text} {x : Documented α}
    (h : x ∈ documented ((walk next (.start t)).map Located.piece))
    (htext : x.doc = some text) : Accounts t text := by
  have hmem := (doc_of_mem_documentedFrom h htext).resolve_left (by simp)
  obtain ⟨c, found, hahead, hfound, hpiece⟩ :=
    exists_found_of_mem_pieces hmem (by simp)
  rcases hremark hfound (by simp [hpiece]) with hdoc | ⟨_, hplain⟩
  · rw [hpiece] at hdoc
    exact (accounts_of_docRule hdoc).mono hahead.isInfix
  · simp only [remarkRule, Rule.first?, Rule.run_bind] at hplain
    obtain ⟨_, _, heq⟩ := Rule.of_run_skip hplain
    rw [hpiece] at heq
    simp at heq

end Walk

end Source

/-! ## Descriptions -/

open Source

/-- The descriptions of an entity and of its members. -/
def Entity.descriptions (e : Entity) : List Text :=
  e.description.toList ++ e.members.filterMap Member.description

variable {P : Text → Prop}

/-- The documentation has the property, if there is any. -/
def DocHas (P : Text → Prop) (doc : Option Text) : Prop :=
  ∀ text, doc = some text → P text

def MembersHave (P : Text → Prop) (members : List Member) : Prop :=
  ∀ m ∈ members, DocHas P m.description

theorem membersHave_nil : MembersHave P [] := by
  intro m hm
  contradiction

structure Entity.Described (P : Text → Prop) (e : Entity) : Prop where
  own : DocHas P e.description
  members : MembersHave P e.members

theorem Entity.Described.of_mem {e : Entity} (h : e.Described P) {doc : Text}
    (hdoc : doc ∈ e.descriptions) : P doc := by
  rcases List.mem_append.mp hdoc with hdoc | hdoc
  · exact h.own doc (Option.mem_toList.mp hdoc)
  · obtain ⟨m, hm, hdoc⟩ := List.mem_filterMap.mp hdoc
    exact h.members m hm doc hdoc

/-- The documentation of an element of a struct body, of the enumerators in it
and of what is nested in it has the property. -/
inductive Source.Tree.Described (P : Text → Prop) : Tree → Prop
  | entry {doc : Option Text} {e : Entry} (hdoc : DocHas P doc)
    (henum : ∀ compound, e.compound? = some compound →
      MembersHave P (enumMembers compound.body)) :
    Described P (.entry doc e)
  | nested {doc : Option Text} {compound : Compound} {children : List Tree}
    (hdoc : DocHas P doc) (hchildren : ∀ tree ∈ children, Described P tree) :
    Described P (.nested doc compound children)

def Gathered.Described (P : Text → Prop) (g : Gathered) : Prop :=
  ∀ e ∈ g.entities, e.Described P

theorem Gathered.Described.push {g : Gathered} (h : g.Described P) {e : Entity}
    (he : e.Described P) : (g.push e).Described P := by
  intro x hx
  rcases List.mem_append.mp hx with hx | hx
  · exact h x hx
  · rw [List.mem_singleton.mp hx]
    exact he

theorem Gathered.Described.gatherVariables {s : Gathered × Fields}
    (h : s.1.Described P) (base : Text) (doc : Option Text)
    (raws : List Text) :
    (raws.foldl (gatherVariable base doc) s).1.Described P := by
  induction raws generalizing s with
  | nil => exact h
  | cons raw raws ih =>
      apply ih
      unfold gatherVariable
      split
      · exact h
      · simp only
        split
        · exact h
        · unfold Gathered.pushArray
          simp only
          split
          · exact h
          · exact h.push ⟨by simp [DocHas], membersHave_nil⟩

theorem Gathered.Described.gatherEntry {s : Gathered × Fields}
    (h : s.1.Described P) (scope : List Text) {doc : Option Text}
    (hdoc : DocHas P doc) {entry : Entry}
    (henum : ∀ compound, entry.compound? = some compound →
      MembersHave P (enumMembers compound.body)) :
    (gatherEntry scope doc s entry).1.Described P := by
  cases entry with
  | tupleMarker => exact h
  | constructor params expression => exact h
  | method signature name expression => exact h
  | ptrGetter name field => exact h
  | arrayGetter name arrayField lengthField => exact h
  | enum compound =>
      simp only [Bindery.gatherEntry]
      split
      · exact h
      · next e he =>
        obtain ⟨name, _, rfl⟩ := Option.map_eq_some_iff.mp he
        exact h.push ⟨hdoc, henum compound rfl⟩
  | «variables» base declarators => exact h.gatherVariables base doc _

theorem AddsMembers.membersHave {doc : Option Text} {names : List Text}
    {s s' : Gathered × Fields} (h : AddsMembers doc names s s')
    (hdoc : DocHas P doc) (hs : MembersHave P s.2.members) :
    MembersHave P s'.2.members := by
  obtain ⟨added, hadded, _, hdescription⟩ := h.members
  rw [hadded]
  intro m hm
  rcases List.mem_append.mp hm with hm | hm
  · exact hs m hm
  · rw [hdescription m hm]
    exact hdoc

theorem Source.Tree.Described.doc {tree : Tree} (h : tree.Described P) :
    DocHas P tree.doc := by
  cases h with
  | entry hdoc _ => exact hdoc
  | nested hdoc _ => exact hdoc

mutual

theorem gatherTree_described (scope : List Text) {s : Gathered × Fields}
    (h : s.1.Described P) :
    ∀ {tree : Tree}, tree.Described P →
      (gatherTree scope s tree).1.Described P
  | .entry doc entry, htree => by
      cases htree with
      | entry hdoc henum => exact h.gatherEntry scope hdoc henum
  | .nested doc compound children, htree => by
      cases htree with
      | nested hdoc hchildren =>
          obtain ⟨hbody, hfields⟩ := gatherTrees_described
            (innerScope scope compound) (s := (s.1, {})) h membersHave_nil
            hchildren
          simp only [gatherTree]
          split
          · exact hbody
          · next e he =>
            obtain ⟨name, _, rfl⟩ := Option.map_eq_some_iff.mp he
            exact hbody.push ⟨hdoc, hfields⟩

theorem gatherTrees_described (scope : List Text) {s : Gathered × Fields}
    (h : s.1.Described P) (hs : MembersHave P s.2.members) :
    ∀ {trees : List Tree}, (∀ tree ∈ trees, tree.Described P) →
      (gatherTrees scope s trees).1.Described P ∧
        MembersHave P (gatherTrees scope s trees).2.members
  | [], _ => ⟨h, hs⟩
  | tree :: trees, htrees => by
      simp only [List.mem_cons, forall_eq_or_imp] at htrees
      simp only [gatherTrees]
      have hfields := (addsMembers_gatherTree scope s tree).membersHave
        htrees.1.doc hs
      exact gatherTrees_described scope (gatherTree_described scope h htrees.1)
        hfields htrees.2

end

/-- What a documented declaration brings in: its own documentation and that of
enumerators, of the elements of a struct body and of arguments. -/
structure Source.Documented.Described (P : Text → Prop) (d : Dialect)
    (x : Documented Declaration) : Prop where
  own : DocHas P x.doc
  enum : ∀ compound, x.item = .enum compound →
    MembersHave P (enumMembers compound.body)
  struct : ∀ compound, x.item = .struct compound →
    ∀ tree ∈ Tree.readBody d compound.body, tree.Described P
  function : ∀ returnType name args, x.item = .function returnType name args →
    (functionEntity x.doc returnType name args).Described P

theorem gatherDeclaration_described {d : Dialect} {g : Gathered}
    (h : g.Described P) {x : Documented Declaration} (hx : x.Described P d) :
    (gatherDeclaration d g x).Described P := by
  obtain ⟨doc, item⟩ := x
  cases item with
  | define name value => exact h.push ⟨hx.own, membersHave_nil⟩
  | constant type name => exact h.push ⟨hx.own, membersHave_nil⟩
  | enum compound =>
      simp only [gatherDeclaration]
      cases he : enumEntity? [] doc compound with
      | none => exact h
      | some e =>
          obtain ⟨name, _, rfl⟩ := Option.map_eq_some_iff.mp he
          exact h.push ⟨hx.own, hx.enum compound rfl⟩
  | typedef type name dims => exact h.push ⟨hx.own, membersHave_nil⟩
  | handle tag name => exact h.push ⟨hx.own, membersHave_nil⟩
  | struct compound =>
      obtain ⟨hbody, hfields⟩ := gatherTrees_described (innerScope [] compound)
        (s := (g, {})) h membersHave_nil (hx.struct compound rfl)
      simp only [gatherDeclaration, gatherStruct]
      cases he : structEntity? [] doc compound _ with
      | none => exact hbody
      | some e =>
          obtain ⟨name, _, rfl⟩ := Option.map_eq_some_iff.mp he
          exact hbody.push ⟨hx.own, hfields⟩
  | function returnType name args =>
      exact h.push (hx.function returnType name args rfl)

theorem gatherDeclarations_described {d : Dialect} {g : Gathered}
    (h : g.Described P) {xs : List (Documented Declaration)}
    (hxs : ∀ x ∈ xs, x.Described P d) :
    (xs.foldl (gatherDeclaration d) g).Described P := by
  induction xs generalizing g with
  | nil => exact h
  | cons x xs ih =>
      simp only [List.mem_cons, forall_eq_or_imp] at hxs
      exact ih (gatherDeclaration_described h hxs.1) hxs.2

/-! ## Descriptions and the source -/

section Source

variable {t body : Text}

theorem exists_enumerator {previous : Option (Option Text)}
    {es : List Enumerator} {m : Member} (h : m ∈ enumMembersFrom previous es) :
    ∃ e ∈ es, m.description = e.description := by
  induction es generalizing previous with
  | nil => contradiction
  | cons e es ih =>
      rcases List.mem_cons.mp h with rfl | h
      · exact ⟨e, List.mem_cons_self, rfl⟩
      · obtain ⟨e', he', hdescription⟩ := ih h
        exact ⟨e', List.mem_cons_of_mem _ he', hdescription⟩

theorem membersHave_enumMembers (h : SplicedPart t body) :
    MembersHave (Accounts t) (enumMembers body) := by
  intro m hm text htext
  obtain ⟨e, he, hdescription⟩ := exists_enumerator hm
  obtain ⟨piece, hpiece, hparse⟩ := List.mem_filterMap.mp he
  rw [hdescription] at htext
  exact (Enumerator.accounts_of_parse? hparse htext).mono
    (h.infix_of_mem_splitList hpiece)

theorem splicedPart_of_mem_items {d : Dialect} {x : Documented BodyItem}
    (h : SplicedPart t body) (hx : x ∈ Tree.items d body) {compound : Compound}
    (hcompound : x.item.compound? = some compound) :
    SplicedPart t compound.body := by
  obtain ⟨c, found, hahead, hfound, hpiece⟩ :=
    exists_found_of_mem_pieces (mem_of_mem_documentedFrom hx) (by simp)
  obtain ⟨_, _, hread⟩ :=
    BodyItem.exists_read?_of_next hfound hpiece hcompound
  exact Compound.splicedPart_body h hahead hread

theorem docHas_of_mem_items {d : Dialect} {x : Documented BodyItem}
    (h : SplicedPart t body) (hx : x ∈ Tree.items d body) :
    DocHas (Accounts t) x.doc := by
  intro text htext
  exact (accounts_of_mem_documented BodyItem.remark_of_next hx htext).mono
    h.inside

theorem described_of_mem_readBody {d : Dialect} {tree : Tree}
    (h : SplicedPart t body) (htree : tree ∈ Tree.readBody d body) :
    tree.Described (Accounts t) := by
  refine Tree.of_mem_readBody
    (P := fun body tree => SplicedPart t body → tree.Described (Accounts t))
    ?_ ?_ htree h
  · intro body x e hx hitem hbody
    refine .entry (docHas_of_mem_items hbody hx) fun compound hcompound => ?_
    apply membersHave_enumMembers
    exact splicedPart_of_mem_items hbody hx (by rw [hitem]; exact hcompound)
  · intro body x compound hx hitem hchildren hbody
    refine .nested (docHas_of_mem_items hbody hx) fun tree htree => ?_
    apply hchildren tree htree
    exact splicedPart_of_mem_items hbody hx (by rw [hitem]; rfl)

theorem functionEntity_described {doc : Option Text} {args : Text}
    (hdoc : DocHas (Accounts t) doc) (hargs : SplicedPart t args)
    (returnType name : Text) :
    (functionEntity doc returnType name args).Described (Accounts t) := by
  constructor
  · intro text htext
    obtain ⟨hgeneral, _⟩ := Option.filter_eq_some_iff.mp htext
    rw [Option.map_map] at hgeneral
    obtain ⟨whole, hwhole, rfl⟩ := Option.map_eq_some_iff.mp hgeneral
    exact fun hend => hdoc whole hwhole (holdsEnd_of_general hend)
  · intro m hm text htext
    obtain ⟨raw, hraw, hargument⟩ := List.mem_filterMap.mp hm
    obtain ⟨⟨type, argName⟩, _, rfl⟩ := Option.map_eq_some_iff.mp hargument
    rcases Option.or_eq_some_iff.mp htext with hleading | ⟨_, hparam⟩
    · exact (accounts_of_leadingDescription hleading).mono
        (hargs.infix_of_mem_splitList hraw)
    · cases doc with
      | none => contradiction
      | some whole =>
          obtain ⟨before, after, hparams, _⟩ :=
            List.lookup_eq_some_iff.mp hparam
          have hmem : (argName, text) ∈ (Description.ofText whole).params := by
            change (Description.ofText whole).params = _ at hparams
            simp [hparams]
          exact fun hend => hdoc whole rfl (holdsEnd_of_mem_params hmem hend)

theorem described_of_mem_readAll {d : Dialect} {x : Documented Declaration}
    (h : SplicedPart t t) (hx : x ∈ Declaration.readAll d t) :
    x.Described (Accounts t) d := by
  obtain ⟨c, found, hahead, hfound, hpiece⟩ :=
    exists_found_of_mem_pieces (mem_of_mem_documentedFrom hx) (by simp)
  have hdoc : DocHas (Accounts t) x.doc := fun text htext =>
    accounts_of_mem_documented Declaration.remark_of_next hx htext
  have hbody {compound : Compound}
      (hcompound : x.item.compound? = some compound) :
      SplicedPart t compound.body := by
    obtain ⟨_, _, hread⟩ :=
      Declaration.exists_read?_of_next hfound hpiece hcompound
    exact Compound.splicedPart_body h hahead hread
  constructor
  · exact hdoc
  · intro compound hitem
    exact membersHave_enumMembers (hbody (by rw [hitem]; rfl))
  · intro compound hitem tree htree
    exact described_of_mem_readBody (hbody (by rw [hitem]; rfl)) htree
  · intro returnType name args hitem
    rw [hitem] at hpiece
    obtain ⟨lead, inside, tail, hsplit⟩ :=
      prototypeSplit_of_functionRule (functionRule_of_next hfound hpiece)
    have hargs : SplicedPart t args := by
      rw [hsplit.args_eq]
      exact h.behind hahead hsplit.text (by decide)
    exact functionEntity_described hdoc hargs returnType name

end Source

theorem Header.described_of_mem_parse {d : Dialect} {source : Text}
    {e : Entity} (h : e ∈ Header.parse d source) :
    e.Described (Accounts (spliceLines source)) := by
  have hempty : ({} : Gathered).Described (Accounts (spliceLines source)) := by
    intro e he
    contradiction
  exact gatherDeclarations_described hempty
    (fun _ hx => described_of_mem_readAll (splicedPart_source source) hx) e h

/-- A description of an entity or a member is rendered as one comment exactly
if no end of a comment stands in it or in the padding up to the first slash.
If one stands in the description, then one stands behind three slashes on a
line of the source, once continued lines are joined. -/
theorem documentation_stays_comment_iff {d : Dialect} {source : Text}
    {e : Entity} (he : e ∈ Header.parse d source) {doc : Text}
    (hdoc : doc ∈ e.descriptions) :
    (∀ pad, TypeScript.IsDocComment pad (TypeScript.docText pad (some doc)) ↔
      ¬ Text.HoldsEnd doc ∧ ¬ Text.HoldsEnd (pad ++ ("/" : Text))) ∧
    (Text.HoldsEnd doc → Text.HoldsEndOnLine (spliceLines source)) := by
  have hdescribed := Header.described_of_mem_parse he
  exact ⟨fun pad => TypeScript.isDocComment_docText_iff pad doc,
    hdescribed.of_mem hdoc⟩

/-- A section about a parameter that goes on in a second line. -/
theorem documentation_stays_comment_iff_sections :
    let source : Text := Text.concat ["/// Scales @param s the *\n/// / b\n",
      "void ODE_API f(/** in / out */ int a, float s);"]
    let said : Text := "the *\n/ b"
    ∃ e, Header.parse {} source = [e] ∧
      e.descriptions = (["Scales", "in / out", said] : List Text) ∧
      TypeScript.docText "  " (some said) =
        "  /**\n   * the *\n   * / b\n   */\n" ∧
      TypeScript.IsDocComment "  " (TypeScript.docText "  " (some said)) := by
  intro source said
  let e : Entity :=
    { category := .function, type := some "void", name := "f"
      description := some "Scales"
      members := [
        { category := .argument, type := some "int", name := "a"
          description := some "in / out" },
        { category := .argument, type := some "float", name := "s"
          description := some said }] }
  have hparse : Header.parse {} source = [e] := by decide +kernel
  have hmem : e ∈ Header.parse {} source := by
    rw [hparse]
    exact List.mem_singleton_self e
  have hsaid : said ∈ e.descriptions := by decide
  refine ⟨e, hparse, rfl, by decide, ?_⟩
  exact ((documentation_stays_comment_iff hmem hsaid).1 "  ").mpr
    ⟨by decide, by decide⟩

/-- The end of a comment on a line of documentation ends the comment that is
rendered, and the rest of the line is left outside. -/
theorem documentation_ends_comment_early :
    let source : Text := "/// a */ b\ntypedef enum \x7b ODE_A \x7d ODE_E;"
    ∃ e, Header.parse {} source = [e] ∧
      TypeScript.docText [] e.description = "/** a */ b */\n" ∧
      ¬ TypeScript.IsDocComment [] (TypeScript.docText [] e.description) := by
  intro source
  let e : Entity :=
    { category := .enum, name := "ODE_E", description := some "a */ b"
      members := [{ category := .enumValue, name := "ODE_A"
                    value := some "0" }] }
  refine ⟨e, by decide +kernel, by decide, fun h => ?_⟩
  exact absurd h.once (by decide)

end Bindery
