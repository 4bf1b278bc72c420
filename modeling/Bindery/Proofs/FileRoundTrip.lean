import Bindery.Proofs.FileReading
import Bindery.Proofs.MemberLines

/-!
# Written files are read back

A walk over a file stands at the start of a line in front of every statement
and every line of documentation, which is where prototypes count.  The
documentation is carried over the end of its line to the statement behind it.
Every statement then gives one entity.
-/

namespace Bindery

open Source

/-! ## Documentation -/

theorem Text.lines_of_notMem {t : Text} (hne : t ≠ []) (h : '\n' ∉ t) :
    Text.lines t = [t] := by
  obtain ⟨c, u, rfl⟩ := List.exists_cons_of_ne_nil hne
  unfold Text.lines
  rw [Text.splitOn_of_notMem h]
  rfl

namespace Written

open Source.Declaration Matcher

theorem DocLine.cleanDescription_text (d : DocLine) :
    cleanDescription d.text = d.text := by
  have hstar : Text.after? ("*" : Text) d.text = none :=
    Text.after?_eq_none (a := '*') rfl fun h => (d.start '*' h).2 rfl
  have hundecorated : undecorated d.text = d.text := by
    rw [undecorated, d.trimmed, hstar]
  rw [cleanDescription, d.trimmed, Text.lines_of_notMem d.ne_nil d.oneLine,
    List.map_singleton, hundecorated, Text.join, List.intercalate_singleton,
    d.trimmed]

/-- The line without its end. -/
def DocLine.comment (d : DocLine) : Text := ("///" : Text) ++ ' ' :: d.text

theorem DocLine.docLinesText_comment (d : DocLine) :
    docLinesText d.comment = d.text := by
  have hlines : Text.lines d.comment = [d.comment] := by
    apply Text.lines_of_notMem
    · simp [comment]
    · simpa [comment] using d.oneLine
  have hbare : Text.trim
      ((Text.trimStart d.comment).dropWhile (decide <| · = '/')) = d.text := by
    have hstart : Text.trimStart d.comment = d.comment :=
      Text.trimStart_cons (by decide) _
    have hdrop : d.comment.dropWhile (decide <| · = '/') = ' ' :: d.text := rfl
    rw [hstart, hdrop, Text.trim_cons (by decide), d.trimmed]
  simp only [docLinesText, hlines, List.map_singleton, hbare, Text.join,
    List.intercalate_singleton, d.cleanDescription_text]

theorem DocLine.prefers_docLines (d : DocLine) {rest : Text}
    (hspace : Text.Stops Text.isSpace rest) (hslash : rest.head? ≠ some '/') :
    Prefers docLines (d.comment ++ '\n' :: rest) ('\n' :: rest) := by
  have hbody : ∀ c ∈ ' ' :: d.text, notLineFeed c = true := by
    intro c hc
    rw [notLineFeed, bne_iff_ne]
    rintro rfl
    rcases List.mem_cons.mp hc with hc | hc
    · contradiction
    · exact d.oneLine hc
  have hinline : Text.Stops Text.isInlineSpace rest := by
    intro c hc
    rw [Text.isInlineSpace, hspace c hc]
    rfl
  have hnext : sequence [literal "\n", Matcher.run Text.isInlineSpace,
      literal "///", Matcher.run notLineFeed] ('\n' :: rest) = [] := by
    have hfeed : literal "\n" ('\n' :: rest) = [rest] := rfl
    have hrun : Matcher.run Text.isInlineSpace rest = [rest] := by
      rw [Matcher.run, hinline.dropWhile_eq]
    rw [sequence_cons, hfeed, List.flatMap_singleton, sequence_cons, hrun,
      List.flatMap_singleton]
    exact sequence_eq_nil (literal_eq_nil rfl hslash) _
  rw [DocLine.comment, List.append_assoc]
  exact (prefers_literal _ _).cons
    ((prefers_run hbody (Text.stops_cons (by decide) rest)).cons
      ((prefers_repeated_stop hnext).cons prefers_sequence_nil))

/-! ## The rules between statements -/

theorem rules_comment (d : DocLine) {rest : Text}
    (hspace : Text.Stops Text.isSpace rest) (hslash : rest.head? ≠ some '/')
    (behind : Text) :
    (rules {}).findSome? (· ⟨behind, d.comment ++ '\n' :: rest⟩) =
      some (.doc d.text, '\n' :: rest) := by
  have hdoc : (docRule : Rule (Piece Source.Declaration)).first?
      (d.comment ++ '\n' :: rest) = some (.doc d.text, '\n' :: rest) := by
    unfold Rule.first? docRule
    simp only
    rw [Rule.run_capture_of_prefers (d.prefers_docLines hspace hslash)
      (b := (.doc d.text, '\n' :: rest))]
    · rfl
    · rw [Span.text_append, d.docLinesText_comment]
  have hother : NotDeclared (d.comment ++ '\n' :: rest) :=
    notDeclared_of_head (by decide) (by decide) _
  have hfunction : (functionRule {}).first? (d.comment ++ '\n' :: rest) =
      none :=
    functionRule_eq_none_of_head (by decide) (by decide) _
  simp only [rules, remarkRules, List.cons_append, List.nil_append,
    List.findSome?_cons, declaredBy, hother.define, hother.constant,
    hother.enum, hother.typedef, hother.handle, hother.struct, hfunction,
    Option.map_none, ite_self, hdoc]

theorem rules_lineFeed {c : Char} (hc : c ≠ '\n') (behind rest : Text) :
    (rules {}).findSome? (· ⟨c :: behind, '\n' :: rest⟩) = none := by
  have hother : NotDeclared ('\n' :: rest) :=
    notDeclared_of_head (by decide) (by decide) rest
  have hline : (Cursor.mk (c :: behind) ('\n' :: rest)).atLineStart =
      false := by
    simpa [Cursor.atLineStart] using hc
  have hslash : ('\n' :: rest).head? ≠ some '/' := by simp
  have hsign : ('\n' :: rest).head? ≠ some '#' := by simp
  simp only [rules, remarkRules, List.cons_append, List.nil_append,
    List.findSome?_cons, List.findSome?_nil, declaredBy, hother.define,
    hother.constant, hother.enum, hother.typedef, hother.handle,
    hother.struct, hline, Option.map_none, Bool.false_eq_true, if_false,
    docRule_eq_none_of_head hslash, remarkRule_eq_none_of_head hslash hsign]

/-! ## The walk -/

theorem Statement.head_text (s : Statement) :
    ∃ c t, s.text = c :: t ∧ Text.isSpace c = false ∧ c ≠ '/' := by
  cases s with
  | define name value => exact ⟨'#', _, rfl, by decide⟩
  | constant type name => exact ⟨'e', _, rfl, by decide⟩
  | typedef type name => exact ⟨'t', _, rfl, by decide⟩
  | handle type name => exact ⟨'O', _, rfl, by decide⟩
  | enum enumerators name => exact ⟨'t', _, rfl, by decide⟩
  | function type name args =>
      exact ⟨type.head, _, rfl, Text.isSpace_of_isIdent type.head_isIdent,
        type.head_ne (by decide)⟩

/-- Statements other than macros end with a semicolon. -/
theorem Statement.remainder_cases (s : Statement) :
    (∀ rest, s.remainder rest = rest) ∨
      (∀ rest, s.remainder rest = '\n' :: rest) ∧ ∃ x, s.text = x ++ [';'] := by
  cases s with
  | define name value => exact .inl fun _ => rfl
  | constant type name => exact .inr ⟨fun _ => rfl, _, rfl⟩
  | typedef type name => exact .inr ⟨fun _ => rfl, _, rfl⟩
  | handle type name => exact .inr ⟨fun _ => rfl, _, rfl⟩
  | enum enumerators name =>
      exact .inr ⟨fun _ => rfl, ((enumFrame name).text_ends "enum"
        (enumText enumerators) (.inl rfl)).2⟩
  | function type name args => exact .inr ⟨fun _ => rfl, _, rfl⟩

theorem itemsFrom_lineFeed {doc : Option Text} {c : Char} (hc : c ≠ '\n')
    (behind rest : Text) :
    itemsFrom (rules {}) doc ⟨c :: behind, '\n' :: rest⟩ =
      itemsFrom (rules {}) doc ⟨'\n' :: c :: behind, rest⟩ :=
  itemsFrom_blank (by decide) (rules_lineFeed hc behind rest)

theorem isIdent_of_lineStart {behind : Text}
    (h : ∀ c ∈ behind.head?, c = '\n') :
    ∀ c ∈ behind.head?, Text.isIdent c = false := by
  intro c hc
  rw [h c hc]
  decide

/-- A statement at the start of a line is declared, and the next line
follows. -/
theorem itemsFrom_statement (s : Statement) {behind : Text}
    (hbehind : ∀ c ∈ behind.head?, c = '\n') (doc : Option Text)
    (rest : Text) :
    itemsFrom (rules {}) doc ⟨behind, s.text ++ '\n' :: rest⟩ =
      ⟨doc, s.declaration⟩ :: itemsFrom (rules {}) none
        ⟨'\n' :: (s.text.reverse ++ behind), rest⟩ := by
  have hrules := s.rules_text rest hbehind
  have hmid := Cursor.midWord_of_behind (isIdent_of_lineStart hbehind)
    (s.text ++ '\n' :: rest)
  obtain ⟨a, t, htext, _⟩ := s.head_text
  rcases s.remainder_cases with hrest | ⟨hrest, x, hx⟩
  · have hline : s.text ++ '\n' :: rest = (s.text ++ ['\n']) ++ rest := by
      simp
    rw [hrest, hline] at hrules
    rw [hline] at hmid ⊢
    rw [itemsFrom_declared (by simp) hmid hrules]
    simp
  · rw [hrest] at hrules
    rw [itemsFrom_declared (by simp [htext]) hmid hrules, hx,
      List.reverse_append, List.reverse_singleton, List.singleton_append,
      List.cons_append, itemsFrom_lineFeed (by decide)]

/-- A line of documentation is kept for the next line. -/
theorem itemsFrom_docLine (d : DocLine) {behind rest : Text}
    (hbehind : ∀ c ∈ behind.head?, c = '\n')
    (hspace : Text.Stops Text.isSpace rest) (hslash : rest.head? ≠ some '/') :
    itemsFrom (rules {}) none ⟨behind, d.comment ++ '\n' :: rest⟩ =
      itemsFrom (rules {}) (some d.text)
        ⟨'\n' :: (d.comment.reverse ++ behind), rest⟩ := by
  have hmid := Cursor.midWord_of_behind (isIdent_of_lineStart hbehind)
    (d.comment ++ '\n' :: rest)
  obtain ⟨c, t, hreverse⟩ : ∃ c t, d.comment.reverse = c :: t := by
    apply List.exists_cons_of_ne_nil
    simp [DocLine.comment]
  have hc : c ≠ '\n' := by
    have hmem : c ∈ d.comment := by
      rw [← List.mem_reverse, hreverse]
      exact List.mem_cons_self
    rintro rfl
    simp only [DocLine.comment, List.mem_append, List.mem_cons] at hmem
    rcases hmem with hmem | hmem | hmem
    · exact absurd hmem (by decide)
    · contradiction
    · exact d.oneLine hmem
  rw [itemsFrom_doc (by simp [DocLine.comment]) hmid
    (rules_comment d hspace hslash behind), hreverse, List.cons_append,
    itemsFrom_lineFeed hc]

theorem itemsFrom_fileText (items : List FileItem) {behind : Text}
    (hbehind : ∀ c ∈ behind.head?, c = '\n') :
    itemsFrom (rules {}) none ⟨behind, fileText items⟩ =
      items.map fun i => ⟨i.doc.map DocLine.text, i.statement.declaration⟩ := by
  have hfeed (t : Text) : ∀ c ∈ ('\n' :: t).head?, c = '\n' := by
    intro c hc
    exact (Option.mem_some_iff.mp hc).symm
  -- Every item leaves the walk behind a line feed, so what was read before
  -- may be any text that ends a line.
  induction items generalizing behind with
  | nil => exact itemsFrom_nil
  | cons item items ih =>
      have hstatement (behind : Text) (h : ∀ c ∈ behind.head?, c = '\n')
          (doc : Option Text) :
          itemsFrom (rules {}) doc ⟨behind, item.statement.text ++
            '\n' :: fileText items⟩ =
          ⟨doc, item.statement.declaration⟩ :: items.map fun i =>
            ⟨i.doc.map DocLine.text, i.statement.declaration⟩ := by
        rw [itemsFrom_statement item.statement h, ih (hfeed _)]
      rw [fileText, List.flatMap_cons, FileItem.text]
      cases hdoc : item.doc with
      | none =>
          have htext : [] ++ (item.statement.text ++ ['\n']) ++
              items.flatMap FileItem.text =
                item.statement.text ++ '\n' :: fileText items := by
            simp [fileText]
          rw [Option.map_none, Option.getD_none, htext,
            hstatement behind hbehind, List.map_cons, hdoc]
          rfl
      | some d =>
          have htext : d.line ++ (item.statement.text ++ ['\n']) ++
              items.flatMap FileItem.text = d.comment ++ '\n' ::
                (item.statement.text ++ '\n' :: fileText items) := by
            simp [fileText, DocLine.line, DocLine.comment, inWords_cons_cons,
              inWords_singleton]
          obtain ⟨c, t, hhead, hspace, hslash⟩ := item.statement.head_text
          have hnext : Text.Stops Text.isSpace
              (item.statement.text ++ '\n' :: fileText items) := by
            rw [hhead]
            exact Text.stops_cons hspace _
          have hnext' : (item.statement.text ++
              '\n' :: fileText items).head? ≠ some '/' := by
            simpa [hhead] using hslash
          rw [Option.map_some, Option.getD_some, htext,
            itemsFrom_docLine d hbehind hnext hnext',
            hstatement _ (hfeed _), List.map_cons, hdoc]
          rfl

/-! ## Entities -/

theorem stripComments_of_notMem {t : Text} (h : '/' ∉ t) :
    stripComments t = t := by
  rw [stripComments, lex_of_notMem h, strippedOf_map_code]

/-- What stands in front of an argument's name. -/
theorem Argument.lead_text (a : Argument) :
    ∃ x, a.text = (a.type.text ++ x) ++ a.name.text ∧ x ≠ [] ∧
      (∀ c ∈ x, c = ' ' ∨ c = '*') ∧
      Text.trim (a.type.text ++ x) =
        a.type.text ++ if a.pointer then [' ', '*'] else [] := by
  unfold Argument.text Argument.sigils
  cases a.pointer with
  | false =>
      refine ⟨[' '], by simp, by simp, by simp, ?_⟩
      rw [a.type.trim_text_blank]
      simp
  | true =>
      refine ⟨[' ', '*'], by simp, by simp, by simp, ?_⟩
      exact Text.trim_append_star a.type.text_ne_nil fun c hc =>
        a.type.notSpace c (List.mem_of_mem_head? hc)

theorem Argument.splitArgument_text (a : Argument) :
    splitArgument a.text =
      some (a.type.text ++ if a.pointer then [' ', '*'] else [],
        a.name.text) := by
  obtain ⟨x, htext, hne, hx, htrim⟩ := a.lead_text
  have hslash : '/' ∉ a.text := fun h => (a.isPiece_text.clean _ h).1 rfl
  have hlast {c : Char} (hc : c ∈ (a.type.text ++ x).getLast?) :
      c = ' ' ∨ c = '*' := by
    rw [List.getLast?_append_of_ne_nil _ hne] at hc
    exact hx c (List.mem_of_getLast? hc)
  have hname : trailingIdentifier a.text =
      some (a.type.text ++ x, a.name.text) := by
    rw [htext]
    apply trailingIdentifier_append
    intro c hc
    rcases hlast hc with rfl | rfl
    · decide
    · decide
  have hend : (a.type.text ++ x).getLast?.any
      (fun c => Text.isSpace c || c == '*' || c == '&') = true := by
    obtain ⟨c, hc⟩ := Option.ne_none_iff_exists'.mp
      (mt List.getLast?_eq_none_iff.mp (by simp [hne] :
        a.type.text ++ x ≠ []))
    rw [hc, Option.any_some]
    rcases hlast hc with rfl | rfl
    · decide
    · decide
  have hall : ∀ c ∈ (a.type.text ++ x).reverse,
      (Text.isIdent c || (Text.isSpace c || c == '*' || c == '&')) = true := by
    intro c hc
    rw [List.mem_reverse, List.mem_append] at hc
    rcases hc with hc | hc
    · rw [a.type.isIdent c hc, Bool.true_or]
    · rcases hx c hc with rfl | rfl
      · decide
      · decide
  unfold splitArgument
  rw [stripComments_of_notMem hslash, a.isPiece_text.trim_eq, hname]
  simp only [Option.bind_eq_bind, Option.bind_some, hend,
    List.takeWhile_eq_self_iff.mpr hall, List.reverse_reverse, htrim]
  rfl

theorem Argument.argument?_text (a : Argument) :
    argument? [] a.text = some a.member := by
  have hhead : a.text.head? = some a.type.head := rfl
  have hslash : a.type.head ≠ '/' := a.type.head_ne (by decide)
  have hlead (w : Text) (hw : w.head? = some '/') :
      Text.after? w a.text = none := by
    apply Text.after?_eq_none hw
    rw [hhead, ne_eq, Option.some.injEq]
    exact hslash
  have hdoc : leadingDescription a.text = none := by
    rw [leadingDescription, Text.startsWith, hlead "///" rfl]
    simp only [hlead "/**" rfl]
    rfl
  rw [argument?, a.splitArgument_text, Option.map_some, hdoc]
  rfl

theorem DocLine.ofText_text (d : DocLine) :
    Description.ofText d.text = ⟨d.text, []⟩ := by
  have hjoin (separator : Text) : Text.join separator [d.text] = d.text :=
    List.intercalate_singleton
  rw [Description.ofText, Text.splitOn_of_notMem d.noSection]
  simp only [List.filter_nil, List.filterMap_nil, List.reverse_nil, hjoin,
    d.trimmed]

theorem functionEntity_text (type name : Identifier) (args : List Argument)
    (doc : Option DocLine) :
    functionEntity (doc.map DocLine.text) type.text name.text
        (argsText args) =
      (Statement.function type name args).entity (doc.map DocLine.text) := by
  have hargs : (splitList ',' (argsText args)).filterMap (argument? []) =
      args.map Argument.member := by
    rw [argsText, splitList_commaed (isPiece_args args), List.filterMap_map,
      ← List.filterMap_eq_map]
    exact List.filterMap_congr fun a _ => a.argument?_text
  cases doc with
  | none =>
      rw [functionEntity, Option.map_none]
      simp only [Option.map_none, Option.getD_none, hargs]
      rfl
  | some d =>
      rw [functionEntity, Option.map_some, Option.map_some, d.ofText_text]
      simp only [Option.map_some, Option.getD_some, hargs]
      have hfilter : (some d.text).filter (!·.isEmpty) = some d.text := by
        simp [d.ne_nil]
      rw [hfilter]
      rfl

/-- A statement adds its entity. -/
theorem FileItem.gather_text (i : FileItem) (g : Gathered) :
    gatherDeclaration {} g
        ⟨i.doc.map DocLine.text, i.statement.declaration⟩ =
      g.push i.entity := by
  unfold FileItem.entity
  cases i.statement with
  | define name value => rfl
  | constant type name => rfl
  | typedef type name =>
      simp only [Statement.declaration, gatherDeclaration, List.filter_nil,
        List.append_nil]
      rfl
  | handle type name => rfl
  | enum enumerators name =>
      have hname : (enumFrame name).name? = some name := rfl
      simp only [Statement.declaration, gatherDeclaration,
        enumEntity?_text hname]
      rfl
  | function type name args =>
      exact congrArg g.push (functionEntity_text type name args i.doc)

theorem entities_foldl_gather (items : List FileItem) (g : Gathered) :
    (items.foldl (fun g i => gatherDeclaration {} g
        ⟨i.doc.map DocLine.text, i.statement.declaration⟩) g).entities =
      g.entities ++ items.map FileItem.entity := by
  induction items generalizing g with
  | nil => simp
  | cons i items ih =>
      rw [List.foldl_cons, i.gather_text, ih, List.map_cons]
      exact List.append_assoc g.entities [i.entity] _

/-! ## Lines are not continued -/

theorem notMem_inWords {c : Char} (hc : c ≠ ' ') {words : List Text}
    (h : ∀ w ∈ words, c ∉ w) : c ∉ inWords words := by
  induction words with
  | nil => exact List.not_mem_nil
  | cons w words ih =>
      have hw := h w List.mem_cons_self
      have hwords := ih fun v hv => h v (List.mem_cons_of_mem w hv)
      cases words with
      | nil => rwa [inWords_singleton]
      | cons v words =>
          rw [inWords_cons_cons]
          simp [hw, hc, hwords]

theorem MacroName.notMem_text (n : MacroName) : '\\' ∉ n.text := by
  intro h
  exact absurd (n.isDefineChar _ h) (by decide)

theorem Number.notMem_text (n : Number) : '\\' ∉ n.text := by
  intro h
  rcases List.mem_cons.mp h with h | h
  · exact absurd n.head_isDigit (h ▸ by decide)
  · exact absurd (n.tail_isNumber _ h) (by decide)

theorem Statement.notMem_text (s : Statement) : '\\' ∉ s.text := by
  have hident (i : Identifier) : '\\' ∉ i.text := i.notMem (by decide)
  cases s with
  | define name value =>
      apply notMem_inWords (by decide)
      simp [name.notMem_text, value.notMem_text]
  | constant type name =>
      rw [Statement.text, List.mem_append, not_or]
      refine ⟨notMem_inWords (by decide) ?_, by decide⟩
      simp [hident]
  | typedef type name =>
      rw [Statement.text, List.mem_append, not_or]
      refine ⟨notMem_inWords (by decide) ?_, by decide⟩
      simp [hident]
  | handle type name =>
      rw [Statement.text, List.mem_append, not_or]
      refine ⟨notMem_inWords (by decide) ?_, by decide⟩
      simp [hident]
  | enum enumerators name =>
      exact ((enumFrame name).braced_text "enum" (.inl rfl)
        (braced_enumText enumerators)).notMem.2
  | function type name args =>
      have hargs : '\\' ∉ argsText args :=
        (notMem_commaed (isPiece_args args)).2
      rw [Statement.text, List.mem_append, not_or]
      refine ⟨notMem_inWords (by decide) ?_, by decide⟩
      simp [hident, hargs]

theorem notMem_fileText (items : List FileItem) : '\\' ∉ fileText items := by
  intro h
  obtain ⟨i, _, hi⟩ := List.mem_flatMap.mp h
  have hstatement := i.statement.notMem_text
  cases hdoc : i.doc with
  | none => simp [FileItem.text, hdoc, hstatement] at hi
  | some d =>
      simp [FileItem.text, hdoc, hstatement, DocLine.line,
        inWords_cons_cons, inWords_singleton, d.noBackslash] at hi

end Written

/-- A file of any statements in any order is read as the entities that they
stand for.  Enumerators without a number are counted in words of 64 bits, which
gives the numbers as long as none has to follow the greatest word. -/
theorem Header.parse_fileText (items : List Written.FileItem) :
    Header.parse {} (Written.fileText items) =
        items.map Written.FileItem.entity ∧
      ∀ i ∈ items, ∀ es name, i.statement = .enum es name →
        Written.Countable es →
          i.entity.members.map Member.value =
            (Written.counted es).map fun x => x.1.valueText x.2 := by
  have hread : Declaration.readAll {} (Written.fileText items) =
      itemsFrom (Declaration.rules {}) none ⟨[], Written.fileText items⟩ :=
    rfl
  constructor
  · rw [Header.parse, spliceLines_of_notMem (Written.notMem_fileText items),
      hread, Written.itemsFrom_fileText items (by simp), List.foldl_map,
      Written.entities_foldl_gather]
    rfl
  · intro i _ es name hstatement hcountable
    rw [Written.FileItem.entity, hstatement]
    exact hcountable.map_value

/-- Counting reaches the greatest word, and what stands behind it has a number
of its own. -/
theorem Header.parse_fileText_greatest :
    let a : Identifier := ⟨'A', [], rfl, rfl, by simp⟩
    let b : Identifier := ⟨'B', [], rfl, rfl, by simp⟩
    let c : Identifier := ⟨'C', [], rfl, rfl, by simp⟩
    let large : Digits :=
      ⟨'9', "223372036854775806", rfl, List.all_eq_true.mp (by decide)⟩
    let zero : Digits := ⟨'0', [], rfl, by simp⟩
    let es : List Written.Enumerator :=
      [⟨a, some large⟩, ⟨b, none⟩, ⟨c, some zero⟩, ⟨a, none⟩]
    Written.Countable es ∧
      (Header.parse {} (Written.fileText [⟨none, .enum es b⟩])).map
          (fun e => e.members.map Member.value) =
        [[some ("9223372036854775806" : Text),
          some ("9223372036854775807" : Text), some ("0" : Text),
          some ("1" : Text)]] := by
  intro a b c large zero es
  have hcountable : Written.Countable es := by
    unfold Written.Countable
    decide +kernel
  obtain ⟨hparse, hvalues⟩ := parse_fileText [⟨none, .enum es b⟩]
  refine ⟨hcountable, ?_⟩
  rw [hparse, List.map_singleton, List.map_singleton,
    hvalues _ (by simp) es b rfl hcountable]
  decide +kernel

end Bindery
