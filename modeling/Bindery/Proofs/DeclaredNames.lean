import Bindery.Proofs.Walking
import Bindery.Source.Body

/-!
# What the rules declare

Each rule gives declarations of one kind, and what it reads as a name has at
least one character; only structs and enums may come without a name.  From
this follow the origin of a declaration, by its kind, and that no declared
name is empty.  The latter is carried through the recursion into nested
bodies.
-/

namespace Bindery

theorem Span.text_ne_nil {start rest : Text}
    (h : rest.length < start.length) : Span.text ⟨start, rest⟩ ≠ [] := by
  intro hnil
  have hlength := congrArg List.length hnil
  simp only [Span.text, Text.upTo, List.length_take, List.length_nil]
    at hlength
  omega

namespace Source

open Matcher

/-- The name that an element of a struct body gives to a member. -/
def Entry.name? : Entry → Option Text
  | .tupleMarker => none
  | .constructor _ expression => some expression
  | .method _ name _ => some name
  | .ptrGetter name _ => some name
  | .arrayGetter name _ _ => some name
  | .enum _ => none
  | .variables _ _ => none

/-- The name of a declaration that cannot be without one. -/
def Declaration.name? : Declaration → Option Text
  | .define name _ => some name
  | .constant _ name => some name
  | .enum _ => none
  | .typedef _ name _ => some name
  | .handle _ name => some name
  | .struct _ => none
  | .function _ name _ => some name

namespace BodyItem

variable {d : Dialect} {t rest : Text} {e : Entry}

theorem tupleRule_name (h : (tupleRule d).first? t = some (e, rest)) :
    e.name? ≠ some [] := by
  simp only [tupleRule, Rule.first?, Rule.run_bind] at h
  obtain ⟨t1, _, h⟩ := Rule.of_run_skip h
  simp only [Rule.run_pure, Option.some.injEq, Prod.mk.injEq] at h
  rw [← h.1]
  simp [Entry.name?]

theorem constructor_name (h : constructor? d t = some (e, rest)) :
    e.name? ≠ some [] := by
  simp only [constructor?, Option.bind_eq_bind, Option.bind_eq_some_iff] at h
  obtain ⟨⟨args, t1⟩, _, h⟩ := h
  simp only at h
  split at h
  · next params expression _ =>
    obtain ⟨⟨params', t2⟩, _, h⟩ := Option.bind_eq_some_iff.mp h
    simp only at h
    split at h
    · contradiction
    · next hexpression =>
      simp only [Option.pure_def, Option.some.injEq, Prod.mk.injEq] at h
      rw [← h.1]
      simpa [Entry.name?] using hexpression
  · contradiction

theorem method_name (h : method? d t = some (e, rest)) :
    e.name? ≠ some [] := by
  simp only [method?, Option.bind_eq_bind, Option.bind_eq_some_iff] at h
  obtain ⟨⟨args, t1⟩, _, h⟩ := h
  simp only at h
  split at h
  · next sig name expression _ =>
    obtain ⟨⟨sig', t2⟩, _, h⟩ := Option.bind_eq_some_iff.mp h
    simp only at h
    split at h
    · contradiction
    · next hname =>
      simp only [Option.pure_def, Option.some.injEq, Prod.mk.injEq] at h
      rw [← h.1]
      simp only [Bool.or_eq_true, not_or, List.isEmpty_iff] at hname
      simpa [Entry.name?] using hname.1.1
  · contradiction

theorem ptrGetterRule_name
    (h : (ptrGetterRule d).first? t = some (e, rest)) :
    e.name? ≠ some [] := by
  simp only [ptrGetterRule, Rule.first?, Rule.run_bind] at h
  obtain ⟨t1, _, h⟩ := Rule.of_run_skip h
  obtain ⟨t2, hname, h⟩ := Rule.of_run_capture h
  obtain ⟨t3, _, h⟩ := Rule.of_run_skip h
  obtain ⟨t4, _, h⟩ := Rule.of_run_capture h
  obtain ⟨t5, _, h⟩ := Rule.of_run_skip h
  simp only [Rule.run_pure, Option.some.injEq, Prod.mk.injEq] at h
  rw [← h.1]
  simpa [Entry.name?] using Span.text_ne_nil (length_lt_of_mem_word hname)

theorem arrayGetterRule_name
    (h : (arrayGetterRule d).first? t = some (e, rest)) :
    e.name? ≠ some [] := by
  simp only [arrayGetterRule, Rule.first?, Rule.run_bind] at h
  obtain ⟨t1, _, h⟩ := Rule.of_run_skip h
  obtain ⟨t2, hname, h⟩ := Rule.of_run_capture h
  obtain ⟨t3, _, h⟩ := Rule.of_run_skip h
  obtain ⟨t4, _, h⟩ := Rule.of_run_capture h
  obtain ⟨t5, _, h⟩ := Rule.of_run_skip h
  obtain ⟨t6, _, h⟩ := Rule.of_run_capture h
  obtain ⟨t7, _, h⟩ := Rule.of_run_skip h
  simp only [Rule.run_pure, Option.some.injEq, Prod.mk.injEq] at h
  rw [← h.1]
  simpa [Entry.name?] using Span.text_ne_nil (length_lt_of_mem_word hname)

theorem variablesRule_name
    (h : variablesRule.first? t = some (e, rest)) :
    e.name? ≠ some [] := by
  simp only [variablesRule, Rule.first?, Rule.run_bind] at h
  obtain ⟨t1, _, h⟩ := Rule.of_run_capture h
  obtain ⟨t2, _, h⟩ := Rule.of_run_capture h
  obtain ⟨t3, _, h⟩ := Rule.of_run_skip h
  simp only [Rule.run_pure, Option.some.injEq, Prod.mk.injEq] at h
  rw [← h.1]
  simp [Entry.name?]

end BodyItem

namespace Declaration

variable {d : Dialect} {t rest : Text} {x : Declaration}

theorem defineRule_kind (h : (defineRule d).first? t = some (x, rest)) :
    ∃ name value, x = .define name value ∧ name ≠ [] := by
  simp only [defineRule, Rule.first?, Rule.run_bind] at h
  obtain ⟨t1, _, h⟩ := Rule.of_run_skip h
  obtain ⟨t2, hname, h⟩ := Rule.of_run_capture h
  obtain ⟨t3, _, h⟩ := Rule.of_run_skip h
  obtain ⟨t4, _, h⟩ := Rule.of_run_capture h
  obtain ⟨t5, _, h⟩ := Rule.of_run_skip h
  simp only [Rule.run_pure, Option.some.injEq, Prod.mk.injEq] at h
  have hshorter : t2.length < t1.length := by
    obtain ⟨mid, hmid, hname⟩ := mem_sequence_cons.mp hname
    obtain ⟨c, tail, rfl, _, part, _, rfl⟩ := mem_many1.mp hname
    rw [mem_literal.mp hmid]
    simp only [List.length_append, List.length_cons]
    omega
  exact ⟨_, _, h.1.symm, Span.text_ne_nil hshorter⟩

theorem constantRule_kind (h : (constantRule d).first? t = some (x, rest)) :
    ∃ type name, x = .constant type name ∧ name ≠ [] := by
  simp only [constantRule, Rule.first?, Rule.run_bind] at h
  obtain ⟨t1, _, h⟩ := Rule.of_run_skip h
  obtain ⟨t2, _, h⟩ := Rule.of_run_capture h
  obtain ⟨t3, hname, h⟩ := Rule.of_run_capture h
  obtain ⟨t4, _, h⟩ := Rule.of_run_skip h
  simp only [Rule.run_pure, Option.some.injEq, Prod.mk.injEq] at h
  exact ⟨_, _, h.1.symm, Span.text_ne_nil (length_lt_of_mem_word hname)⟩

theorem typedefRule_kind (h : typedefRule.first? t = some (x, rest)) :
    ∃ type name dims, x = .typedef type name dims ∧ name ≠ [] := by
  simp only [typedefRule, Rule.first?, Rule.run_bind] at h
  obtain ⟨t1, _, h⟩ := Rule.of_run_skip h
  obtain ⟨t2, _, h⟩ := Rule.of_run_capture h
  obtain ⟨t3, _, h⟩ := Rule.of_run_skip h
  obtain ⟨t4, hname, h⟩ := Rule.of_run_capture h
  obtain ⟨t5, _, h⟩ := Rule.of_run_skip h
  obtain ⟨t6, _, h⟩ := Rule.of_run_capture h
  obtain ⟨t7, _, h⟩ := Rule.of_run_skip h
  simp only [Rule.run_pure, Option.some.injEq, Prod.mk.injEq] at h
  exact ⟨_, _, _, h.1.symm, Span.text_ne_nil (length_lt_of_mem_word hname)⟩

theorem handleRule_kind (h : (handleRule d).first? t = some (x, rest)) :
    ∃ tag name, x = .handle tag name ∧ name ≠ [] := by
  simp only [handleRule, Rule.first?, Rule.run_bind] at h
  obtain ⟨t1, _, h⟩ := Rule.of_run_skip h
  obtain ⟨t2, _, h⟩ := Rule.of_run_capture h
  obtain ⟨t3, _, h⟩ := Rule.of_run_skip h
  obtain ⟨t4, hname, h⟩ := Rule.of_run_capture h
  obtain ⟨t5, _, h⟩ := Rule.of_run_skip h
  simp only [Rule.run_pure, Option.some.injEq, Prod.mk.injEq] at h
  exact ⟨_, _, h.1.symm, Span.text_ne_nil (length_lt_of_mem_word hname)⟩

theorem functionRule_kind (h : (functionRule d).first? t = some (x, rest)) :
    ∃ returnType name args,
      x = .function returnType name args ∧ name ≠ [] := by
  simp only [functionRule, Rule.first?, Rule.run_bind] at h
  obtain ⟨t1, _, h⟩ := Rule.of_run_skip h
  obtain ⟨t2, _, h⟩ := Rule.of_run_capture h
  obtain ⟨t3, _, h⟩ := Rule.of_run_skip h
  obtain ⟨t4, hname, h⟩ := Rule.of_run_capture h
  obtain ⟨t5, _, h⟩ := Rule.of_run_skip h
  obtain ⟨t6, _, h⟩ := Rule.of_run_capture h
  obtain ⟨t7, _, h⟩ := Rule.of_run_skip h
  simp only [Rule.run_pure, Option.some.injEq, Prod.mk.injEq] at h
  exact ⟨_, _, _, h.1.symm, Span.text_ne_nil (length_lt_of_mem_word hname)⟩

/-- The rules by which a declaration may have been read at a cursor. -/
inductive ReadAt (d : Dialect) (c : Cursor) : Declaration → Text → Prop
  | define {x : Declaration} {rest : Text}
    (h : (defineRule d).first? c.ahead = some (x, rest)) : ReadAt d c x rest
  | constant {x : Declaration} {rest : Text}
    (h : (constantRule d).first? c.ahead = some (x, rest)) :
    ReadAt d c x rest
  | enum {compound : Compound} {rest : Text}
    (h : Compound.read? "enum" c.ahead = some (compound, rest)) :
    ReadAt d c (.enum compound) rest
  | typedef {x : Declaration} {rest : Text}
    (h : typedefRule.first? c.ahead = some (x, rest)) : ReadAt d c x rest
  | handle {x : Declaration} {rest : Text}
    (h : (handleRule d).first? c.ahead = some (x, rest)) : ReadAt d c x rest
  | struct {compound : Compound} {rest : Text}
    (h : Compound.read? "struct" c.ahead = some (compound, rest)) :
    ReadAt d c (.struct compound) rest
  | function {x : Declaration} {rest : Text} (hstart : c.atLineStart = true)
    (h : (functionRule d).first? c.ahead = some (x, rest)) :
    ReadAt d c x rest

theorem of_declaredBy {read : Text → Option (Declaration × Text)}
    {c : Cursor} (h : declaredBy read c = some (.declared x, rest)) :
    read c.ahead = some (x, rest) := by
  obtain ⟨⟨x', rest'⟩, hx, heq⟩ := Option.map_eq_some_iff.mp h
  simp only [Prod.mk.injEq, Piece.declared.injEq] at heq
  rw [hx, heq.1, heq.2]

theorem readAt_of_mem_rules {c : Cursor}
    {rule : Cursor → Option (Piece Declaration × Text)}
    (hmem : rule ∈ rules d) (hrule : rule c = some (.declared x, rest)) :
    ReadAt d c x rest := by
  rcases List.mem_append.mp hmem with hmem | hmem
  · simp only [List.mem_cons, List.not_mem_nil, or_false] at hmem
    rcases hmem with rfl | rfl | rfl | rfl | rfl | rfl | rfl
    · exact .define (of_declaredBy hrule)
    · exact .constant (of_declaredBy hrule)
    · obtain ⟨⟨compound, rest'⟩, hread, heq⟩ :=
        Option.map_eq_some_iff.mp (of_declaredBy hrule)
      simp only [Prod.mk.injEq] at heq
      rw [← heq.1]
      exact .enum (by rw [hread, heq.2])
    · exact .typedef (of_declaredBy hrule)
    · exact .handle (of_declaredBy hrule)
    · obtain ⟨⟨compound, rest'⟩, hread, heq⟩ :=
        Option.map_eq_some_iff.mp (of_declaredBy hrule)
      simp only [Prod.mk.injEq] at heq
      rw [← heq.1]
      exact .struct (by rw [hread, heq.2])
    · beta_reduce at hrule
      split at hrule
      · next hstart => exact .function hstart (of_declaredBy hrule)
      · contradiction
  · exact absurd hrule (not_declared_of_mem_remarkRules hmem)

/-- What is declared at a cursor was read there by one of the rules. -/
theorem readAt_of_next {c : Cursor} {found : Found Declaration c}
    (h : next d c = some found) (hpiece : found.piece = .declared x) :
    ReadAt d c x found.rest := by
  obtain ⟨rule, hmem, hrule⟩ := exists_rule_of_recognise h
  rw [hpiece] at hrule
  exact readAt_of_mem_rules hmem hrule

theorem ReadAt.name {c : Cursor} (h : ReadAt d c x rest) :
    x.name? ≠ some [] := by
  cases h with
  | define h =>
      obtain ⟨name, value, rfl, hname⟩ := defineRule_kind h
      simpa [Declaration.name?] using hname
  | constant h =>
      obtain ⟨type, name, rfl, hname⟩ := constantRule_kind h
      simpa [Declaration.name?] using hname
  | enum h => simp [Declaration.name?]
  | typedef h =>
      obtain ⟨type, name, dims, rfl, hname⟩ := typedefRule_kind h
      simpa [Declaration.name?] using hname
  | handle h =>
      obtain ⟨tag, name, rfl, hname⟩ := handleRule_kind h
      simpa [Declaration.name?] using hname
  | struct h => simp [Declaration.name?]
  | function _ h =>
      obtain ⟨returnType, name, args, rfl, hname⟩ := functionRule_kind h
      simpa [Declaration.name?] using hname

/-- Whatever the text and the dialect, no name that is read is empty. -/
theorem name_of_mem_readAll {source : Text} {x : Documented Declaration}
    (h : x ∈ readAll d source) : x.item.name? ≠ some [] := by
  obtain ⟨c, found, hfound, hpiece⟩ := exists_found_of_mem_documented h
  exact (readAt_of_next hfound hpiece).name

end Declaration

namespace Tree

/-- No element of the tree gives an empty name to a member. -/
inductive Named : Tree → Prop
  | entry {doc : Option Text} {e : Entry} (h : e.name? ≠ some []) :
    Named (.entry doc e)
  | nested {doc : Option Text} {compound : Compound} {children : List Tree}
    (h : ∀ tree ∈ children, Named tree) :
    Named (.nested doc compound children)

open BodyItem

theorem name_of_mem_items {d : Dialect} {body : Text}
    {x : Documented BodyItem} (h : x ∈ items d body) {e : Entry}
    (hitem : x.item = .entry e) : e.name? ≠ some [] := by
  obtain ⟨c, found, hfound, hpiece⟩ := exists_found_of_mem_documented h
  rw [hitem] at hpiece
  cases readAt_of_next hfound hpiece with
  | tuple h => exact tupleRule_name h
  | constructor h => exact constructor_name h
  | method h => exact method_name h
  | ptrGetter h => exact ptrGetterRule_name h
  | arrayGetter h => exact arrayGetterRule_name h
  | enum h => simp [Entry.name?]
  | «variables» h => exact variablesRule_name h

/-- What holds of the elements of a body is shown item by item, once it is
known of the bodies of nested structs. -/
theorem of_mem_readBody {d : Dialect} {P : Text → Tree → Prop}
    (hentry : ∀ {body x e}, x ∈ items d body → x.item = .entry e →
      P body (.entry x.doc e))
    (hnested : ∀ {body x compound}, x ∈ items d body →
      x.item = .struct compound →
      (∀ tree ∈ readBody d compound.body, P compound.body tree) →
      P body (.nested x.doc compound (readBody d compound.body)))
    {body : Text} {tree : Tree} (h : tree ∈ readBody d body) :
    P body tree := by
  induction hn : body.length using Nat.strong_induction_on
    generalizing body tree with
  | _ n ih =>
      rw [readBody_eq, List.mem_map] at h
      obtain ⟨x, hx, rfl⟩ := h
      cases hitem : x.item with
      | entry e => exact hentry hx hitem
      | struct compound =>
          have hlength := length_lt_of_mem_items hx hitem
          refine hnested hx hitem fun tree htree => ?_
          exact ih compound.body.length (hn ▸ hlength) htree rfl

theorem named_of_mem_readBody {d : Dialect} {body : Text} {tree : Tree}
    (h : tree ∈ readBody d body) : tree.Named :=
  of_mem_readBody (P := fun _ tree => tree.Named)
    (fun hx hitem => .entry (name_of_mem_items hx hitem))
    (fun _ _ hchildren => .nested hchildren) h

end Tree

end Source

end Bindery
