import Bindery.Proofs.EntityInvariant
import Bindery.Proofs.Progress
import Bindery.Proofs.Refusal

/-!
# The characters of declared names

The rules read names as words, so no declared name holds white space or
punctuation.  The names of structs and enums come from a tag or from a
declarator, the names of array types are put together from identifiers, and
scopes are made of the names of structs.  Only the names of macros may look
different, since they start with a prefix that the dialect chooses.
-/

namespace Bindery

namespace Text

theorem isWord_of_isSpace {c : Char} (h : isSpace c = true) :
    isWord c = false := by
  by_cases hascii : c.toNat < 128
  · rw [isWord, if_pos hascii]
    by_contra hident
    rw [isSpace_of_isIdent (by simpa using hident)] at h
    contradiction
  · -- The white space beyond ASCII is a list of code points.
    have hcodes : ∀ n ∈ [0x85, 0xA0, 0x1680, 0x2028, 0x2029, 0x202F, 0x205F,
        0x3000] ++ (List.range 11).map (0x2000 + ·),
        wordRanges.any (fun range => range.1 ≤ n && n ≤ range.2) = false := by
      decide +kernel
    rw [isWord, if_neg hascii]
    apply hcodes
    simp only [isSpace, Bool.or_eq_true, Bool.and_eq_true, decide_eq_true_eq,
      beq_iff_eq] at h
    simp only [List.mem_append, List.mem_cons, List.not_mem_nil, or_false,
      List.mem_map, List.mem_range]
    by_cases hrun : 0x2000 ≤ c.toNat ∧ c.toNat ≤ 0x200A
    · exact .inr ⟨c.toNat - 0x2000, by omega, by omega⟩
    · left
      omega

theorem mem_join {separator : Text} {pieces : List Text} {c : Char}
    (h : c ∈ join separator pieces) :
    c ∈ separator ∨ ∃ piece ∈ pieces, c ∈ piece := by
  induction pieces with
  | nil => contradiction
  | cons piece pieces ih =>
      rw [join] at h ih
      by_cases hpieces : pieces = []
      · rw [hpieces, List.intercalate_singleton] at h
        exact .inr ⟨piece, List.mem_cons_self, h⟩
      · rw [List.intercalate_cons_of_ne_nil hpieces, List.mem_append,
          List.mem_append] at h
        rcases h with (h | h) | h
        · exact .inr ⟨piece, List.mem_cons_self, h⟩
        · exact .inl h
        · rcases ih h with h | ⟨other, hother, h⟩
          · exact .inl h
          · exact .inr ⟨other, List.mem_cons_of_mem _ hother, h⟩

/-- The text consists of characters of words. -/
def IsSpelled (t : Text) : Prop := ∀ c ∈ t, isWord c = true

theorem isSpelled_nil : IsSpelled [] := by
  intro c hc
  contradiction

/-- What precedes a word and is no part of it is dropped with white space at
the ends. -/
theorem isSpelled_dropWhile_trim {p : Char → Bool} {lead word : Text}
    (hlead : ∀ c ∈ lead, p c = true) (hword : IsSpelled word) :
    IsSpelled ((trim (lead ++ word)).dropWhile p) := by
  obtain ⟨blanks, blanks', _, _, hsplit⟩ := trim_split (lead ++ word)
  generalize trim (lead ++ word) = middle at hsplit ⊢
  have hmiddle : ∀ c ∈ middle.dropWhile p, c ∈ middle :=
    fun c hc => List.dropWhile_subset p hc
  rcases List.append_eq_append_iff.mp hsplit with
    ⟨part, _, hrest⟩ | ⟨part, rfl, hrest⟩
  · -- The blanks in front reach into the word.
    intro c hc
    apply hword c
    rw [hrest]
    simp [hmiddle c hc]
  · rcases List.append_eq_append_iff.mp hrest with
      ⟨lead', rfl, _⟩ | ⟨word', rfl, hword'⟩
    · have hnil : middle.dropWhile p = [] := by
        rw [List.dropWhile_eq_nil_iff]
        exact fun c hc => hlead c (by simp [hc])
      rw [hnil]
      exact isSpelled_nil
    · have hdrop : (part ++ word').dropWhile p = word'.dropWhile p :=
        List.dropWhile_append_of_pos fun c hc => hlead c (by simp [hc])
      rw [hdrop]
      intro c hc
      apply hword c
      rw [hword']
      exact List.mem_append_left _ (List.dropWhile_subset p hc)

end Text

namespace Rule

variable {β : Type} {P : β → Prop} {m : Matcher}

/-- What is captured has a property of all that the matcher takes. -/
theorem Yields.capture_bind_of {Q : Text → Prop} {f : Span → Rule β}
    (hm : ∀ t rest, rest ∈ m t → Q (Span.text ⟨t, rest⟩))
    (hf : ∀ span, Q span.text → (f span).Yields P) :
    (capture m >>= f).Yields P := by
  intro γ t k b h
  rw [run_bind] at h
  obtain ⟨rest, hrest, h⟩ := of_run_capture h
  exact hf _ (hm t rest hrest) γ rest k b h

theorem Yields.capture?_bind {f : Option Span → Rule β}
    (hf : ∀ span, (f span).Yields P) : (capture? m >>= f).Yields P := by
  intro γ t k b h
  rw [run_bind] at h
  rcases of_run_capture? h with ⟨rest, _, h⟩ | h
  · exact hf _ γ rest k b h
  · exact hf _ γ t k b h

end Rule

open Matcher

theorem Matcher.isSpelled_of_within {m : Matcher} (hm : m.Within Text.isWord)
    (t rest : Text) (h : rest ∈ m t) :
    Text.IsSpelled (Span.text ⟨t, rest⟩) := by
  obtain ⟨part, hpart, rfl⟩ := hm t rest h
  rw [Span.text_append]
  exact hpart

theorem Matcher.isSpelled_of_mem_word (t rest : Text) (h : rest ∈ word t) :
    Text.IsSpelled (Span.text ⟨t, rest⟩) :=
  isSpelled_of_within (within_run1 fun _ hc => hc) t rest h

namespace Source

/-! ## Structs and enums -/

namespace Compound

/-- Both names that a compound may be known by are words. -/
structure Spelled (c : Compound) : Prop where
  tag : Text.IsSpelled c.tag
  declaredName : Text.IsSpelled c.declaredName

theorem head_yields (keyword : Text) :
    (head keyword).Yields fun x => Text.IsSpelled x.2 :=
  .capture?_bind fun _ => .skip_bind <|
    .capture_bind_of (isSpelled_of_within (within_run fun _ hc => hc))
      fun _ htag => .skip_bind (.pure htag)

theorem tail_yields :
    tail.Yields fun declarator => Text.IsSpelled
      (declarator.dropWhile fun x => x == '*' || Text.isSpace x) := by
  refine .skip_bind (.capture_bind_of (Q := fun declarator =>
    Text.IsSpelled ((Text.trim declarator).dropWhile _)) ?_
    fun _ hdeclarator => .skip_bind (.pure hdeclarator))
  intro t rest h
  obtain ⟨mid, hmid, hrest⟩ := mem_sequence_cons.mp h
  have hlead : Text.Takes (fun x => x == '*' || Text.isSpace x) t mid := by
    rcases mem_optional.mp hmid with hmid | rfl
    · exact Within.cons (within_literal rfl)
        (within_run fun c hc => by simp [hc]) t mid hmid
    · exact Text.Takes.refl _ _
  obtain ⟨lead, hlead, rfl⟩ := hlead
  obtain ⟨word, hword, rfl⟩ := within_run (fun _ hc => hc) mid rest hrest
  rw [← List.append_assoc, Span.text_append]
  exact Text.isSpelled_dropWhile_trim hlead hword

theorem spelled_of_read? {keyword t rest : Text} {c : Compound}
    (h : read? keyword t = some (c, rest)) : c.Spelled := by
  simp only [read?, Option.bind_eq_bind, Option.bind_eq_some_iff] at h
  obtain ⟨⟨⟨qualifier, tag⟩, t1⟩, hhead, ⟨body, t2⟩, _, ⟨declarator, t3⟩,
    htail, heq⟩ := h
  simp only [Option.pure_def, Option.some.injEq, Prod.mk.injEq] at heq
  rw [← heq.1]
  exact ⟨(head_yields keyword).of_first? hhead, tail_yields.of_first? htail⟩

theorem Spelled.resolvedName {c : Compound} (h : c.Spelled) {name : Text}
    (hname : c.resolvedName = some name) : Text.IsSpelled name := by
  have hmem := List.mem_of_find?_eq_some hname
  split at hmem
  · rcases List.mem_pair.mp hmem with rfl | rfl
    · exact h.declaredName
    · exact h.tag
  · rcases List.mem_pair.mp hmem with rfl | rfl
    · exact h.tag
    · exact h.declaredName

end Compound

/-! ## Declarations -/

/-- The names that a declaration gives are words; the dialect has a say in
those of macros. -/
def Declaration.Spelled : Declaration → Prop
  | .define _ _ => True
  | .constant _ name => Text.IsSpelled name
  | .enum compound => compound.Spelled
  | .typedef _ name _ => Text.IsSpelled name
  | .handle _ name => Text.IsSpelled name
  | .struct compound => compound.Spelled
  | .function _ name _ => Text.IsSpelled name

namespace Declaration

variable {d : Dialect}

theorem constantRule_spelled : (constantRule d).Yields Spelled :=
  .skip_bind <| .capture_bind fun _ =>
    .capture_bind_of isSpelled_of_mem_word fun _ hname =>
      .skip_bind (.pure hname)

theorem typedefRule_spelled : typedefRule.Yields Spelled :=
  .skip_bind <| .capture_bind fun _ => .skip_bind <|
    .capture_bind_of isSpelled_of_mem_word fun _ hname =>
      .skip_bind <| .capture_bind fun _ => .skip_bind (.pure hname)

theorem handleRule_spelled : (handleRule d).Yields Spelled :=
  .skip_bind <| .capture_bind fun _ => .skip_bind <|
    .capture_bind_of isSpelled_of_mem_word fun _ hname =>
      .skip_bind (.pure hname)

theorem functionRule_spelled : (functionRule d).Yields Spelled :=
  .skip_bind <| .capture_bind fun _ => .skip_bind <|
    .capture_bind_of isSpelled_of_mem_word fun _ hname =>
      .skip_bind <| .capture_bind fun _ => .skip_bind (.pure hname)

theorem ReadAt.spelled {c : Cursor} {x : Declaration} {rest : Text}
    (h : ReadAt d c x rest) : x.Spelled := by
  cases h with
  | define h =>
      obtain ⟨_, _, rfl, _⟩ := defineRule_kind h
      trivial
  | constant h => exact constantRule_spelled.of_first? h
  | enum h => exact Compound.spelled_of_read? h
  | typedef h => exact typedefRule_spelled.of_first? h
  | handle h => exact handleRule_spelled.of_first? h
  | struct h => exact Compound.spelled_of_read? h
  | function _ h => exact functionRule_spelled.of_first? h

theorem spelled_of_mem_readAll {source : Text} {x : Documented Declaration}
    (h : x ∈ readAll d source) : x.item.Spelled := by
  obtain ⟨c, found, hfound, hpiece⟩ := exists_found_of_mem_documented h
  exact (readAt_of_next hfound hpiece).spelled

end Declaration

/-! ## Struct bodies -/

namespace Tree

/-- The names of all structs and enums in the tree are words. -/
inductive Spelled : Tree → Prop
  | entry {doc : Option Text} {e : Entry}
    (h : ∀ compound, e.compound? = some compound → compound.Spelled) :
    Spelled (.entry doc e)
  | nested {doc : Option Text} {compound : Compound} {children : List Tree}
    (h : compound.Spelled) (hchildren : ∀ tree ∈ children, Spelled tree) :
    Spelled (.nested doc compound children)

theorem spelled_of_mem_items {d : Dialect} {body : Text}
    {x : Documented BodyItem} (h : x ∈ items d body) {compound : Compound}
    (hx : x.item.compound? = some compound) : compound.Spelled := by
  obtain ⟨c, found, hfound, hpiece⟩ := exists_found_of_mem_documented h
  obtain ⟨_, _, hread⟩ := BodyItem.exists_read?_of_next hfound hpiece hx
  exact Compound.spelled_of_read? hread

theorem spelled_of_mem_readBody {d : Dialect} {body : Text} {tree : Tree}
    (h : tree ∈ readBody d body) : tree.Spelled := by
  refine of_mem_readBody (P := fun _ tree => tree.Spelled) ?_ ?_ h
  · intro body x e hx hitem
    refine .entry fun compound he => spelled_of_mem_items hx ?_
    rw [hitem]
    exact he
  · intro body x compound hx hitem hchildren
    refine .nested (spelled_of_mem_items hx ?_) hchildren
    rw [hitem]
    rfl

end Tree

/-- The name of an array type is put together from identifiers. -/
theorem isSpelled_arrayInstanceName (elementType : Text) (dims : List Text) :
    Text.IsSpelled (arrayInstanceName elementType dims) := by
  have hptr : ∀ c ∈ ("_ptr" : Text), Text.isIdent c = true :=
    List.all_eq_true.mp rfl
  have hsuffix : ∀ c ∈ ("_array" : Text), Text.isIdent c = true :=
    List.all_eq_true.mp rfl
  intro c hc
  apply Text.isWord_of_isIdent
  simp only [arrayInstanceName, Text.concat, List.flatten_cons,
    List.flatten_nil, List.append_nil, List.mem_append] at hc
  rcases hc with hwords | hstars | harray | hsizes
  · rcases Text.mem_join hwords with hc | ⟨word, hword, hc⟩
    · rw [List.mem_singleton.mp hc]
      rfl
    · simpa using Text.not_of_mem_splitOnP (List.mem_filter.mp hword).1 c hc
  · obtain ⟨star, hstar, hc⟩ := List.mem_flatten.mp hstars
    rw [(List.mem_replicate.mp hstar).2] at hc
    exact hptr c hc
  · exact hsuffix c harray
  · obtain ⟨size, hsize, hc⟩ := List.mem_flatten.mp hsizes
    obtain ⟨dim, _, rfl⟩ := List.mem_map.mp hsize
    rcases List.mem_cons.mp hc with rfl | hc
    · rfl
    · exact (List.mem_filter.mp hc).2

end Source

/-! ## Entities -/

open Source

/-- Scope and name are words, except that the dialect has a say in the names
of macros. -/
structure Entity.Spelled (e : Entity) : Prop where
  scope : ∀ name ∈ e.scope, Text.IsSpelled name
  name : e.category ≠ .define → Text.IsSpelled e.name

def Gathered.Spelled (g : Gathered) : Prop := ∀ e ∈ g.entities, e.Spelled

namespace Gathered.Spelled

variable {g : Gathered} {scope : List Text}

theorem push (h : g.Spelled) {e : Entity} (he : e.Spelled) :
    (g.push e).Spelled := by
  intro x hx
  rcases List.mem_append.mp hx with hx | hx
  · exact h x hx
  · rw [List.mem_singleton.mp hx]
    exact he

theorem pushArray (h : g.Spelled) (elementType : Text) (dims : List Text) :
    (g.pushArray elementType dims).Spelled := by
  unfold Gathered.pushArray
  simp only
  split
  · exact h
  · refine h.push ⟨?_, fun _ => isSpelled_arrayInstanceName elementType dims⟩
    simp

theorem gatherVariables {s : Gathered × Fields} (h : s.1.Spelled)
    (baseType : Text) (doc : Option Text) (raws : List Text) :
    (raws.foldl (gatherVariable baseType doc) s).1.Spelled := by
  induction raws generalizing s with
  | nil => exact h
  | cons raw raws ih =>
      apply ih
      unfold gatherVariable
      split
      · exact h
      · simp only
        split
        · exact h
        · exact h.pushArray _ _

theorem gatherEntry {s : Gathered × Fields} (h : s.1.Spelled)
    (hscope : ∀ name ∈ scope, Text.IsSpelled name) (doc : Option Text)
    {entry : Entry} (hentry : ∀ compound, entry.compound? = some compound →
      compound.Spelled) :
    (gatherEntry scope doc s entry).1.Spelled := by
  cases entry with
  | tupleMarker => exact h
  | constructor params expression => exact h
  | method signature name expression => exact h
  | ptrGetter name field => exact h
  | arrayGetter name arrayField lengthField => exact h
  | enum compound =>
      simp only [Bindery.gatherEntry]
      split
      · exact h
      · next e he =>
        obtain ⟨name, hname, rfl⟩ := Option.map_eq_some_iff.mp he
        have hcompound := hentry compound rfl
        exact h.push ⟨hscope, fun _ => hcompound.resolvedName hname⟩
  | «variables» baseType declarators => exact h.gatherVariables _ _ _

theorem closeStruct (h : g.Spelled)
    (hscope : ∀ name ∈ scope, Text.IsSpelled name) {c : Compound}
    (hc : c.Spelled) (doc : Option Text) (fields : Fields) :
    ((structEntity? scope doc c fields).elim g g.push).Spelled := by
  cases he : structEntity? scope doc c fields with
  | none => exact h
  | some e =>
      obtain ⟨name, hname, rfl⟩ := Option.map_eq_some_iff.mp he
      exact h.push ⟨hscope, fun _ => hc.resolvedName hname⟩

end Gathered.Spelled

theorem isSpelled_of_mem_innerScope {scope : List Text} {c : Compound}
    (hscope : ∀ name ∈ scope, Text.IsSpelled name) (hc : c.Spelled) :
    ∀ name ∈ innerScope scope c, Text.IsSpelled name := by
  intro name hname
  rcases List.mem_append.mp hname with hname | hname
  · exact hscope name hname
  · exact hc.resolvedName (Option.mem_toList.mp hname)

mutual

theorem gatherTree_spelled {scope : List Text} {s : Gathered × Fields}
    (h : s.1.Spelled) (hscope : ∀ name ∈ scope, Text.IsSpelled name) :
    ∀ {tree : Tree}, tree.Spelled → (gatherTree scope s tree).1.Spelled
  | .entry doc entry, htree => by
      cases htree with
      | entry hentry => exact h.gatherEntry hscope doc hentry
  | .nested doc compound children, htree => by
      cases htree with
      | nested hcompound hchildren =>
          have hbody := gatherTrees_spelled (s := (s.1, {})) h
            (isSpelled_of_mem_innerScope hscope hcompound) hchildren
          have hclosed := hbody.closeStruct hscope hcompound doc
            (gatherTrees (innerScope scope compound) (s.1, {}) children).2
          simp only [gatherTree]
          split
          · exact hbody
          · next e he =>
            rw [he] at hclosed
            exact hclosed

theorem gatherTrees_spelled {scope : List Text} {s : Gathered × Fields}
    (h : s.1.Spelled) (hscope : ∀ name ∈ scope, Text.IsSpelled name) :
    ∀ {trees : List Tree}, (∀ tree ∈ trees, tree.Spelled) →
      (gatherTrees scope s trees).1.Spelled
  | [], _ => h
  | tree :: trees, htrees => by
      simp only [List.mem_cons, forall_eq_or_imp] at htrees
      simp only [gatherTrees]
      exact gatherTrees_spelled (gatherTree_spelled h hscope htrees.1) hscope
        htrees.2

end

theorem gatherDeclaration_spelled {d : Dialect} {g : Gathered}
    (h : g.Spelled) {x : Documented Declaration} (hx : x.item.Spelled) :
    (gatherDeclaration d g x).Spelled := by
  obtain ⟨doc, item⟩ := x
  have hscope : ∀ name ∈ ([] : List Text), Text.IsSpelled name := by simp
  cases item with
  | define name value =>
      exact h.push ⟨hscope, fun hcategory => absurd rfl hcategory⟩
  | constant type name => exact h.push ⟨hscope, fun _ => hx⟩
  | enum compound =>
      simp only [gatherDeclaration]
      cases he : enumEntity? [] doc compound with
      | none => exact h
      | some e =>
          obtain ⟨name, hname, rfl⟩ := Option.map_eq_some_iff.mp he
          have hcompound : compound.Spelled := hx
          exact h.push ⟨hscope, fun _ => hcompound.resolvedName hname⟩
  | typedef type name dims => exact h.push ⟨hscope, fun _ => hx⟩
  | handle tag name => exact h.push ⟨hscope, fun _ => hx⟩
  | struct compound =>
      have hcompound : compound.Spelled := hx
      have htrees : ∀ tree ∈ Tree.readBody d compound.body, tree.Spelled :=
        fun _ htree => Tree.spelled_of_mem_readBody htree
      have hbody := gatherTrees_spelled (s := (g, {})) h
        (isSpelled_of_mem_innerScope hscope hcompound) htrees
      exact hbody.closeStruct hscope hcompound doc _
  | function returnType name args => exact h.push ⟨hscope, fun _ => hx⟩

theorem gatherDeclarations_spelled {d : Dialect} {g : Gathered}
    (h : g.Spelled) {xs : List (Documented Declaration)}
    (hxs : ∀ x ∈ xs, x.item.Spelled) :
    (xs.foldl (gatherDeclaration d) g).Spelled := by
  induction xs generalizing g with
  | nil => exact h
  | cons x xs ih =>
      simp only [List.mem_cons, forall_eq_or_imp] at hxs
      exact ih (gatherDeclaration_spelled h hxs.1) hxs.2

/-- Whatever the dialect and the source, names and scopes of entities are
words. -/
theorem Header.spelled_of_mem_parse {d : Dialect} {source : Text} {e : Entity}
    (h : e ∈ Header.parse d source) : e.Spelled := by
  have hempty : ({} : Gathered).Spelled := by
    intro e he
    contradiction
  exact gatherDeclarations_spelled hempty
    (fun _ hx => Declaration.spelled_of_mem_readAll hx) e h

end Bindery
