import Bindery.Proofs.Boundaries
import Bindery.Proofs.Brackets
import Bindery.Source.Split

/-!
# How far a block comment reaches

A block comment ends at the first star and slash behind its opening two
characters.  Removing comments, splitting lists and matching delimiters keep
to that, since they all work on the lexemes of a text.

The grammars read comments by rules of their own.  The rule for documentation
comes first, and it looks for the end of the comment behind three characters,
not two.  That makes a difference for one comment only, the one that holds
nothing: its star serves as the second star of a documentation block, which
then goes on to the end of the next comment.
-/

namespace Bindery

namespace Text

variable {mark t before rest : Text} {c : Char}

theorem cut?_of_after? (h : after? mark (c :: t) = some rest) :
    cut? mark (c :: t) = some ([], rest) := by
  rw [cut?, h]

theorem cut?_cons (h : after? mark (c :: t) = none) :
    cut? mark (c :: t) =
      (cut? mark t).map fun (before, rest) => (c :: before, rest) := by
  rw [cut?, h]

theorem length_of_cut? (h : cut? mark t = some (before, rest)) :
    t.length = before.length + mark.length + rest.length := by
  rw [eq_of_cut? h, List.length_append, List.length_append]
  omega

end Text

namespace Source

open Matcher

/-- A text begins with a block comment that holds `body`, and `rest` follows
it. -/
def CommentAt (t body rest : Text) : Prop :=
  ∃ u, t = '/' :: '*' :: u ∧ Text.cut? "*/" u = some (body, rest)

/-! ## The comment among the lexemes -/

theorem lexFrom_of_cut? {read t body rest : Text}
    (h : Text.cut? "*/" t = some (body, rest)) :
    lexFrom (.blockComment read) t =
      .blockComment (read.reverse ++ body) true :: lex rest := by
  induction t generalizing read body with
  | nil => contradiction
  | cons c t ih =>
      cases hend : Text.after? "*/" (c :: t) with
      | some rest' =>
          rw [Text.cut?_of_after? hend] at h
          simp only [Option.some.injEq, Prod.mk.injEq] at h
          rw [Text.after?_eq_some_iff.mp hend, ← h.1, ← h.2,
            List.append_nil]
          rfl
      | none =>
          rw [Text.cut?_cons hend] at h
          obtain ⟨⟨body', rest'⟩, hcut, heq⟩ := Option.map_eq_some_iff.mp h
          simp only [Prod.mk.injEq] at heq
          rw [lexFrom, ih (heq.2 ▸ hcut), ← heq.1, List.reverse_cons,
            List.append_assoc]
          · rfl
          · rintro u rfl rfl
            contradiction

namespace CommentAt

variable {t body rest : Text}

theorem lex_eq (h : CommentAt t body rest) :
    lex t = .blockComment body true :: lex rest := by
  obtain ⟨u, rfl, hcut⟩ := h
  exact lexFrom_of_cut? hcut

theorem text_eq (h : CommentAt t body rest) :
    t = Lexeme.text (.blockComment body true) ++ rest := by
  have htext := congrArg Lexeme.textOf h.lex_eq
  rwa [textOf_lex, Lexeme.textOf, List.flatMap_cons, ← Lexeme.textOf,
    textOf_lex] at htext

end CommentAt

/-- Up to `rest` a text is passed over as one comment: it is removed as a
whole, no list is split in it, and no delimiter in it counts. -/
structure PassedOver (t rest : Text) : Prop where
  stripped : stripComments t = ' ' :: stripComments rest
  pieces : ∀ separator, rawPieces separator t =
    (rawPieces separator rest).modifyHead (Text.upTo t rest ++ ·)
  delimiter : ∀ opening, matchingDelimiter (opening :: t) 0 =
    (matchingDelimiter (opening :: rest) 0).map
      (Text.utf8Size (Text.upTo t rest) + ·)

theorem enclosed_of_lex_eq {t rest body : Text} {closed : Bool}
    (h : lex t = .blockComment body closed :: lex rest) (opening : Char) :
    enclosed opening t = (enclosed opening rest).map fun (inside, after) =>
      (Lexeme.text (.blockComment body closed) ++ inside, after) := by
  unfold enclosed
  cases closingOf opening with
  | none => rfl
  | some closing =>
      simp only [Option.bind_eq_bind, Option.bind_some, h]
      rw [enclosedLexemes_other (by simp), if_neg (by simp)]
      cases enclosedLexemes opening closing 0 (lex rest) with
      | none => rfl
      | some parts => rfl

theorem CommentAt.passedOver {t body rest : Text}
    (h : CommentAt t body rest) : PassedOver t rest := by
  have hlex := h.lex_eq
  have hupTo : Text.upTo t rest =
      Lexeme.text (.blockComment body true) := by
    rw [h.text_eq, Text.upTo_append]
  constructor
  · rw [stripComments, hlex]
    rfl
  · intro separator
    rw [rawPieces, rawPieces, hlex, List.splitOnP_cons_eq_if_modifyHead,
      if_neg (by simp), hupTo]
    cases (lex rest).splitOnP (· = .code separator) with
    | nil => rfl
    | cons piece pieces => rfl
  · intro opening
    simp only [matchingDelimiter, dropBytes?, Option.bind_eq_bind,
      Option.bind_some, enclosed_of_lex_eq hlex, hupTo]
    cases enclosed opening rest with
    | none => rfl
    | some parts =>
        simp only [Option.map_some, Option.bind_some, utf8Size_append,
          Option.pure_def, Option.some.injEq]
        omega

/-! ## The rules for comments -/

variable {α : Type} {piece : Piece α} {u v left : Text}

theorem rest_of_docRule
    (h : docRule.first? ('/' :: '*' :: u) = some (piece, left)) :
    ∃ v before, u = '*' :: v ∧ Text.cut? "*/" v = some (before, left) := by
  simp only [docRule, Rule.first?, Option.or_eq_some_iff] at h
  rcases h with h | ⟨_, h⟩
  · obtain ⟨rest, hmem, _⟩ := Rule.of_run_capture h
    obtain ⟨_, hslashes, _⟩ := mem_sequence_cons.mp hmem
    have hopen := mem_literal.mp hslashes
    simp at hopen
  · obtain ⟨rest, hmem, heq⟩ := Rule.of_run_capture h
    obtain ⟨v, hstars, hthrough⟩ := mem_sequence_cons.mp hmem
    have hopen : u = '*' :: v := by simpa using mem_literal.mp hstars
    obtain ⟨before, hcut⟩ := mem_through.mp hthrough
    simp only [Option.some.injEq, Prod.mk.injEq] at heq
    exact ⟨v, before, hopen, heq.2 ▸ hcut⟩

theorem cut?_of_docRule_eq_none
    (h : (docRule : Rule (Piece α)).first? ('/' :: '*' :: '*' :: v) = none) :
    Text.cut? "*/" v = none := by
  rw [Option.eq_none_iff_forall_ne_some]
  rintro ⟨before, rest⟩ hcut
  have hblock : Prefers docBlock ('/' :: '*' :: '*' :: v) rest :=
    (prefers_literal "/**" v).cons (.of_eq (by
      rw [Matcher.sequence, through, hcut]
      rfl))
  simp only [docRule, Rule.first?, Option.or_eq_none_iff] at h
  rw [Rule.run_capture_of_prefers hblock rfl] at h
  exact absurd h.2 (by simp)

theorem rest_of_remarkRule
    (h : remarkRule.first? ('/' :: '*' :: u) = some (piece, left)) :
    ∃ body, Text.cut? "*/" u = some (body, left) := by
  simp only [remarkRule, Rule.first?, Rule.run_bind] at h
  obtain ⟨rest, hmem, heq⟩ := Rule.of_run_skip h
  simp only [Rule.run_pure, Option.some.injEq, Prod.mk.injEq] at heq
  rcases mem_either.mp hmem with hmem | hmem
  · obtain ⟨_, hmark, _⟩ := mem_sequence_cons.mp hmem
    rcases mem_either.mp hmark with hmark | hmark
    · have hopen := mem_literal.mp hmark
      simp at hopen
    · have hopen := mem_literal.mp hmark
      simp at hopen
  · obtain ⟨v, hopen, hthrough⟩ := mem_sequence_cons.mp hmem
    have hu : u = v := by simpa using mem_literal.mp hopen
    obtain ⟨body, hcut⟩ := mem_through.mp hthrough
    exact ⟨body, by rw [hu, hcut, heq.2]⟩

/-- The rules for comments and directives read the piece, documentation
first. -/
def RemarkAt (t : Text) (piece : Piece α) (rest : Text) : Prop :=
  docRule.first? t = some (piece, rest) ∨
    (docRule : Rule (Piece α)).first? t = none ∧
      remarkRule.first? t = some (piece, rest)

/-- A piece that declares nothing is a remark. -/
theorem remark_of_recognise
    {rules : List (Cursor → Option (Piece α × Text))} {c : Cursor}
    (hrules : ∀ rule ∈ rules, ∀ piece rest,
      rule c = some (piece, rest) → ∃ x, piece = .declared x)
    {found : Found α c} (h : recognise (rules ++ remarkRules) c = some found)
    (hpiece : ¬ ∃ x, found.piece = .declared x) :
    RemarkAt c.ahead found.piece found.rest := by
  unfold RemarkAt
  have hfirst := findSome?_of_recognise h
  rw [List.findSome?_append, Option.or_eq_some_iff] at hfirst
  rcases hfirst with hdeclared | ⟨_, hremark⟩
  · obtain ⟨rule, hmem, hrule⟩ := List.exists_of_findSome?_eq_some hdeclared
    exact absurd (hrules rule hmem _ _ hrule) hpiece
  · simp only [remarkRules, List.findSome?_cons, List.findSome?_nil] at hremark
    cases hdoc : (docRule : Rule (Piece α)).first? c.ahead with
    | some x =>
        rw [hdoc] at hremark
        exact .inl hremark
    | none =>
        rw [hdoc] at hremark
        cases hplain : (remarkRule : Rule (Piece α)).first? c.ahead with
        | some x =>
            rw [hplain] at hremark
            exact .inr ⟨rfl, hremark⟩
        | none =>
            rw [hplain] at hremark
            contradiction

theorem exists_declared {β : Type} {read : Option (β × Text)} (item : β → α)
    {rest : Text}
    (h : (read.map fun (x, rest) => (Piece.declared (item x), rest)) =
      some (piece, rest)) : ∃ x, piece = .declared x := by
  obtain ⟨⟨x, _⟩, _, heq⟩ := Option.map_eq_some_iff.mp h
  exact ⟨item x, (Prod.mk.inj heq).1.symm⟩

theorem Declaration.remark_of_next {d : Dialect} {c : Cursor}
    {found : Found Declaration c} (h : next d c = some found)
    (hpiece : ¬ ∃ x, found.piece = .declared x) :
    RemarkAt c.ahead found.piece found.rest := by
  refine remark_of_recognise ?_ h hpiece
  intro rule hmem piece rest hrule
  simp only [List.mem_cons, List.not_mem_nil, or_false] at hmem
  rcases hmem with rfl | rfl | rfl | rfl | rfl | rfl | rfl
  iterate 6 exact exists_declared id hrule
  beta_reduce at hrule
  split at hrule
  · exact exists_declared id hrule
  · contradiction

theorem BodyItem.remark_of_next {d : Dialect} {c : Cursor}
    {found : Found BodyItem c} (h : next d c = some found)
    (hpiece : ¬ ∃ x, found.piece = .declared x) :
    RemarkAt c.ahead found.piece found.rest := by
  refine remark_of_recognise ?_ h hpiece
  intro rule hmem piece rest hrule
  simp only [List.mem_cons, List.not_mem_nil, or_false] at hmem
  rcases hmem with rfl | rfl | rfl | rfl | rfl | rfl | rfl | rfl
  iterate 6 exact exists_declared entry hrule
  · exact exists_declared struct hrule
  · exact exists_declared entry hrule

/-! ## Where the grammars end a comment -/

/-- What is left over is what follows the comment, unless the comment holds
nothing and another end of a comment comes later.  Then all up to that end is
taken. -/
structure EndsComment (t left body rest : Text) : Prop where
  comment : CommentAt t body rest
  passedOver : PassedOver t rest
  agrees_iff : left = rest ↔
    ¬ (body = [] ∧ Text.includes "*/" rest = true)
  swallows : ∀ swallowed rest', body = [] →
    Text.cut? "*/" rest = some (swallowed, rest') → left = rest'

theorem endsComment_of_docRule
    (h : docRule.first? ('/' :: '*' :: u) = some (piece, left)) :
    ∃ body rest, EndsComment ('/' :: '*' :: u) left body rest := by
  obtain ⟨v, before, rfl, hcut⟩ := rest_of_docRule h
  cases hend : Text.after? "*/" ('*' :: v) with
  | some rest =>
      -- The comment holds nothing, and `v` begins with its slash.
      have hv : v = '/' :: rest := by
        simpa using Text.after?_eq_some_iff.mp hend
      have hcomment : CommentAt ('/' :: '*' :: '*' :: v) [] rest :=
        ⟨_, rfl, Text.cut?_of_after? hend⟩
      rw [hv, Text.cut?_cons (by simp [Text.after?])] at hcut
      obtain ⟨⟨swallowed, left'⟩, hnext, heq⟩ :=
        Option.map_eq_some_iff.mp hcut
      simp only [Prod.mk.injEq] at heq
      rw [heq.2] at hnext
      refine ⟨[], rest, hcomment, hcomment.passedOver, ?_, ?_⟩
      · have hlength := Text.length_of_cut? hnext
        have hne : left ≠ rest := by
          rintro rfl
          simp at hlength
        rw [Text.includes, hnext]
        simp [hne]
      · intro swallowed' rest' _ hcut'
        rw [hnext, Option.some.injEq, Prod.mk.injEq] at hcut'
        exact hcut'.2
  | none =>
      have hcomment : CommentAt ('/' :: '*' :: '*' :: v) ('*' :: before) left :=
        ⟨_, rfl, by rw [Text.cut?_cons hend, hcut]; rfl⟩
      exact ⟨'*' :: before, left, hcomment, hcomment.passedOver, by simp,
        by simp⟩

theorem endsComment_of_remarkRule
    (hdoc : (docRule : Rule (Piece α)).first? ('/' :: '*' :: u) = none)
    (h : remarkRule.first? ('/' :: '*' :: u) = some (piece, left)) :
    ∃ body, EndsComment ('/' :: '*' :: u) left body left := by
  obtain ⟨body, hcut⟩ := rest_of_remarkRule h
  have hcomment : CommentAt ('/' :: '*' :: u) body left := ⟨u, rfl, hcut⟩
  have hlast : body = [] → Text.cut? "*/" left = none := by
    rintro rfl
    have hu : u = '*' :: '/' :: left := Text.eq_of_cut? hcut
    rw [hu] at hdoc
    have hnone := cut?_of_docRule_eq_none hdoc
    rw [Text.cut?_cons (by simp [Text.after?]), Option.map_eq_none_iff]
      at hnone
    exact hnone
  refine ⟨body, hcomment, hcomment.passedOver, ?_, ?_⟩
  · simp only [true_iff, not_and]
    intro hbody
    rw [Text.includes, hlast hbody]
    simp
  · intro swallowed rest' hbody hcut'
    rw [hlast hbody] at hcut'
    contradiction

theorem endsComment_of_remark {t : Text}
    (hopen : Text.startsWith "/*" t = true) (h : RemarkAt t piece left) :
    ∃ body rest, EndsComment t left body rest := by
  obtain ⟨u, hu⟩ := Option.isSome_iff_exists.mp hopen
  obtain rfl : t = '/' :: '*' :: u := Text.after?_eq_some_iff.mp hu
  rcases h with hdoc | ⟨hnone, hremark⟩
  · exact endsComment_of_docRule hdoc
  · obtain ⟨body, hends⟩ := endsComment_of_remarkRule hnone hremark
    exact ⟨body, left, hends⟩

theorem Declaration.endsComment_of_next {d : Dialect} {c : Cursor}
    (hopen : Text.startsWith "/*" c.ahead = true)
    {found : Found Declaration c} (h : next d c = some found)
    (hpiece : ¬ ∃ x, found.piece = .declared x) :
    ∃ body rest, EndsComment c.ahead found.rest body rest :=
  endsComment_of_remark hopen (remark_of_next h hpiece)

theorem BodyItem.endsComment_of_next {d : Dialect} {c : Cursor}
    (hopen : Text.startsWith "/*" c.ahead = true)
    {found : Found BodyItem c} (h : next d c = some found)
    (hpiece : ¬ ∃ x, found.piece = .declared x) :
    ∃ body rest, EndsComment c.ahead found.rest body rest :=
  endsComment_of_remark hopen (remark_of_next h hpiece)

/-- Where a block comment begins, and no declaration is read, both grammars
end it where it ends for the helpers, except after a comment that holds
nothing and has another end of a comment behind it. -/
theorem block_comment_extent (d : Dialect) (c : Cursor)
    (hopen : Text.startsWith "/*" c.ahead = true) :
    (∀ found, Declaration.next d c = some found →
      (¬ ∃ x, found.piece = .declared x) →
        ∃ body rest, EndsComment c.ahead found.rest body rest) ∧
      ∀ found, BodyItem.next d c = some found →
        (¬ ∃ x, found.piece = .declared x) →
          ∃ body rest, EndsComment c.ahead found.rest body rest :=
  ⟨fun _ => Declaration.endsComment_of_next hopen,
    fun _ => BodyItem.endsComment_of_next hopen⟩

/-- A documentation block that holds the beginning of another comment. -/
theorem block_comment_extent_nested :
    let c : Cursor := .start "/** a /* */ int b; /* c */"
    ∃ found, BodyItem.next {} c = some found ∧
      found.rest = " int b; /* c */" ∧
      ∃ body rest, EndsComment c.ahead found.rest body rest := by
  intro c
  have hread : (BodyItem.next {} c).map
      (fun found => (found.piece, found.rest)) =
        some (Piece.doc "a /*", (" int b; /* c */" : Text)) := by
    decide +kernel
  obtain ⟨found, hnext, heq⟩ := Option.map_eq_some_iff.mp hread
  simp only [Prod.mk.injEq] at heq
  have hpiece : ¬ ∃ x, found.piece = .declared x := by
    simp [heq.1]
  exact ⟨found, hnext, heq.2,
    (block_comment_extent {} c (by decide)).2 found hnext hpiece⟩

/-- A comment that holds nothing takes the declaration behind it with it, up
to the end of the next comment. -/
theorem empty_comment_swallows_declaration :
    let t : Text := "/**/typedef int A;/* x */"
    CommentAt t [] "typedef int A;/* x */" ∧
      stripComments t = " typedef int A; " ∧
      (Declaration.next {} (.start t)).map (fun found =>
        (found.piece, found.rest)) = some (.doc "/typedef int A;/* x", []) ∧
      Declaration.readAll {} t = [] := by
  refine ⟨⟨_, rfl, by decide⟩, by decide +kernel, by decide +kernel,
    by decide +kernel⟩

end Source

end Bindery
