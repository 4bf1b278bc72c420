import Bindery.Proofs.MemberLines
import Bindery.Proofs.Walking

/-!
# Reading the body of a written struct

At the start of every item the rules for bodies are tried in order, and the
one that the item was written for is the first to apply; the blanks between
items are passed over one by one.  So a walk over the body comes across the
items one after another, and reading nested bodies in turn gives the tree of
what was written.
-/

namespace Bindery.Written

open Source Source.BodyItem Matcher

/-! ## Braces -/

theorem MemberLine.plain_text (l : MemberLine) :
    ∀ c ∈ l.text, isPlain c = true := by
  intro c hc
  rcases List.mem_append.mp hc with hc | hc
  · exact isPlain_of_isIdent (l.type.isIdent c hc)
  · rcases List.mem_append.mp hc with hc | hc
    · rcases mem_listed hc with rfl | rfl | ⟨p, hp, hc⟩
      · decide
      · decide
      · obtain ⟨d, _, rfl⟩ := List.mem_map.mp hp
        exact d.all_text (by decide) (by decide) (by decide)
          (fun _ => isPlain_of_isIdent) c hc
    · rw [List.mem_singleton.mp hc]
      decide

theorem braced_indentation (width depth : Nat) :
    Braced ('\n' :: indentation width depth) := by
  apply Braced.plain
  intro c hc
  rcases List.mem_cons.mp hc with rfl | hc
  · decide
  · rw [List.eq_of_mem_replicate hc]
    decide

mutual

theorem Item.braced_text (width depth : Nat) :
    (item : Item) → Braced (item.text width depth)
  | .line l => by
      rw [Item.text]
      exact .plain l.plain_text
  | .enum label es => by
      rw [Item.text]
      exact label.frame.braced_text _ (.inl rfl) (braced_enumText es)
  | .struct label items => by
      rw [Item.text]
      exact label.frame.braced_text _ (.inr rfl)
        (.append (braced_linesText width (depth + 1) items)
          (braced_indentation width depth))

theorem braced_linesText (width depth : Nat) :
    (items : List Item) → Braced (linesText width depth items)
  | [] => by
      rw [linesText]
      exact .plain (by simp)
  | item :: items => by
      rw [linesText, ← List.cons_append]
      exact .append (braced_indentation width depth)
        (.append (item.braced_text width depth)
          (braced_linesText width depth items))

end

/-- An item starts with a letter and ends with a semicolon. -/
theorem Item.text_ends (width depth : Nat) (item : Item) :
    (∃ c t, item.text width depth = c :: t ∧ Text.isSpace c = false) ∧
      ∃ x, item.text width depth = x ++ [';'] := by
  cases item with
  | line l =>
      rw [Item.text]
      constructor
      · exact ⟨l.type.head, _, rfl,
          Text.isSpace_of_isIdent l.type.head_isIdent⟩
      · exact ⟨l.type.text ++ listed (l.declarators.map Declarator.text),
          by simp [MemberLine.text]⟩
  | enum label es =>
      rw [Item.text]
      exact label.frame.text_ends _ _ (.inl rfl)
  | struct label items =>
      rw [Item.text]
      exact label.frame.text_ends _ _ (.inr rfl)

/-! ## The rules at an item -/

/-- What the rules read of an item; bodies of nested structs stay unread. -/
def Item.bodyItem (width depth : Nat) : Item → BodyItem
  | .line l =>
    .entry (.variables l.type.text
      (listed (l.declarators.map Declarator.text)))
  | .enum label es =>
    .entry (.enum (label.frame.compound (Text.trim (enumText es))))
  | .struct label items =>
    .struct (label.frame.compound (Text.trim
      (linesText width (depth + 1) items ++ '\n' :: indentation width depth)))

theorem MemberLine.noMacro (l : MemberLine) (rest : Text) :
    NoMacro (l.text ++ rest) := by
  obtain ⟨c, t, hd⟩ := List.exists_cons_of_ne_nil l.first.text_ne_nil
  have hc : c ∈ l.first.text := by simp [hd]
  have htext : l.text ++ rest = l.type.text ++ ' ' :: c :: (t ++
      (MemberLine.othersText l.others ++ ';' :: rest)) := by
    simp [MemberLine.text, MemberLine.declarators, listed_cons, hd,
      MemberLine.othersText, List.flatMap_map]
  rw [htext]
  apply noMacro_of_type l.type.isIdent l.type_ne (l.first.notSpace_text c hc)
  rcases l.first.mem_text hc with rfl | rfl | rfl | hc
  · decide
  · decide
  · decide
  · exact Text.ne_of_isIdent hc (by decide)

theorem MemberLine.read?_eq_none (l : MemberLine) (rest : Text)
    (keyword : Text) (hkeyword : keyword.all Text.isWord = true) :
    Compound.read? keyword (l.text ++ rest) = none := by
  apply Compound.read?_eq_none hkeyword
  · exact ⟨';', by simp [MemberLine.text], by decide⟩
  · intro hmem
    exact absurd (l.plain_text _ hmem) (by decide)

theorem Label.head?_text (label : Label) {keyword : Text} {a : Char}
    (hkeyword : keyword.head? = some a) (inside rest : Text) :
    (label.frame.text keyword inside ++ rest).head? = some a := by
  obtain ⟨tail, rfl⟩ := List.head?_eq_some_iff.mp hkeyword
  cases label with
  | tagged tag trailer => rfl
  | untagged trailer => rfl

/-- The first rule that applies at an item reads it. -/
theorem rules_text (width depth : Nat) (item : Item) (behind rest : Text) :
    (rules {}).findSome? (· ⟨behind, item.text width depth ++ rest⟩) =
      some (.declared (item.bodyItem width depth), rest) := by
  cases item with
  | line l =>
      have hmacro := l.noMacro rest
      have henum := l.read?_eq_none rest "enum" (by decide)
      have hstruct := l.read?_eq_none rest "struct" (by decide)
      simp only [Item.text, rules, List.cons_append, List.findSome?_cons,
        entryBy, structBy, hmacro.tuple, hmacro.constructor, hmacro.method,
        hmacro.ptrGetter, hmacro.arrayGetter, henum, hstruct,
        Option.map_none, l.variablesRule_text rest, Option.map_some]
      rfl
  | enum label es =>
      have hread := label.frame.read?_text "enum" rest (.inl rfl)
        (braced_enumText es)
      have hhead : (label.frame.text "enum" (enumText es) ++ rest).head? =
          some 'e' :=
        label.head?_text rfl _ rest
      rw [Item.text]
      generalize label.frame.text "enum" (enumText es) ++ rest = x
        at hread hhead ⊢
      have hmacro : NoMacro x := noMacro_of_head (by simp [hhead])
      simp only [rules, List.cons_append, List.findSome?_cons, entryBy,
        hmacro.tuple, hmacro.constructor, hmacro.method, hmacro.ptrGetter,
        hmacro.arrayGetter, Option.map_none, hread, Option.map_some]
      rfl
  | struct label items =>
      have hbraced := Braced.append
        (braced_linesText width (depth + 1) items)
        (braced_indentation width depth)
      have hread := label.frame.read?_text "struct" rest (.inr rfl) hbraced
      have hhead : (label.frame.text "struct"
          (linesText width (depth + 1) items ++
            '\n' :: indentation width depth) ++ rest).head? = some 's' :=
        label.head?_text rfl _ rest
      rw [Item.text]
      generalize label.frame.text "struct"
        (linesText width (depth + 1) items ++
          '\n' :: indentation width depth) ++ rest = x at hread hhead ⊢
      have hmacro : NoMacro x := noMacro_of_head (by simp [hhead])
      have henum : Compound.read? "enum" x = none :=
        Compound.read?_eq_none_of_head (a := 'e') rfl (by simp [hhead])
          (by simp [hhead]) (by simp [hhead])
      simp only [rules, List.cons_append, List.findSome?_cons, entryBy,
        structBy, hmacro.tuple, hmacro.constructor, hmacro.method,
        hmacro.ptrGetter, hmacro.arrayGetter, henum, Option.map_none, hread,
        Option.map_some]
      rfl

/-! ## Between the items -/

/-- A rule starts with a word, a slash or a number sign. -/
theorem rules_eq_none {c : Char} (hword : Text.isWord c = false)
    (hslash : c ≠ '/') (hsign : c ≠ '#') (behind rest : Text) :
    (rules {}).findSome? (· ⟨behind, c :: rest⟩) = none := by
  have hne {a : Char} (ha : Text.isWord a = true) :
      (c :: rest).head? ≠ some a := by
    rw [List.head?_cons, ne_eq, Option.some.injEq]
    rintro rfl
    rw [ha] at hword
    contradiction
  have hmacro : NoMacro (c :: rest) := noMacro_of_head (hne (by decide))
  have henum : Compound.read? "enum" (c :: rest) = none :=
    Compound.read?_eq_none_of_head (a := 'e') rfl (hne (by decide))
      (hne (by decide)) (hne (by decide))
  have hstruct : Compound.read? "struct" (c :: rest) = none :=
    Compound.read?_eq_none_of_head (a := 's') rfl (hne (by decide))
      (hne (by decide)) (hne (by decide))
  have hvariables : variablesRule.first? (c :: rest) = none := by
    have hwords : typeWords (c :: rest) = [] := by
      simp [typeWords, hword]
    rw [variablesRule, Rule.first?, Rule.run_bind,
      Rule.run_capture_of_eq_nil hwords]
  have hslash' : (c :: rest).head? ≠ some '/' := by simpa using hslash
  have hsign' : (c :: rest).head? ≠ some '#' := by simpa using hsign
  simp only [rules, remarkRules, List.cons_append, List.nil_append,
    List.findSome?_cons, List.findSome?_nil, entryBy, structBy,
    hmacro.tuple, hmacro.constructor, hmacro.method, hmacro.ptrGetter,
    hmacro.arrayGetter, henum, hstruct, hvariables, Option.map_none,
    docRule_eq_none_of_head hslash',
    remarkRule_eq_none_of_head hslash' hsign']

theorem isBlank_indentation (width depth : Nat) :
    ∀ c ∈ '\n' :: indentation width depth, c = '\n' ∨ c = ' ' := by
  intro c hc
  rcases List.mem_cons.mp hc with hc | hc
  · exact .inl hc
  · exact .inr (List.eq_of_mem_replicate hc)

theorem isSpace_indentation (width depth : Nat) :
    ∀ c ∈ '\n' :: indentation width depth, Text.isSpace c = true := by
  intro c hc
  rcases isBlank_indentation width depth c hc with rfl | rfl
  · decide
  · decide

theorem itemsFrom_blanks {blanks : Text}
    (h : ∀ c ∈ blanks, c = '\n' ∨ c = ' ') (behind rest : Text) :
    itemsFrom (rules {}) none ⟨behind, blanks ++ rest⟩ =
      itemsFrom (rules {}) none ⟨blanks.reverse ++ behind, rest⟩ := by
  induction blanks generalizing behind with
  | nil => rfl
  | cons c blanks ih =>
      simp only [List.mem_cons, forall_eq_or_imp] at h
      have hblank : Text.isSpace c = true ∧ Text.isWord c = false ∧
          c ≠ '/' ∧ c ≠ '#' := by
        rcases h.1 with rfl | rfl
        · decide
        · decide
      rw [List.cons_append, itemsFrom_blank hblank.1
        (rules_eq_none hblank.2.1 hblank.2.2.1 hblank.2.2.2 _ _), ih h.2]
      simp

/-! ## The items of a body -/

theorem itemsFrom_text (width depth : Nat) (item : Item)
    {behind : Text} (hbehind : ∀ c ∈ behind.head?, Text.isIdent c = false)
    (rest : Text) :
    itemsFrom (rules {}) none ⟨behind, item.text width depth ++ rest⟩ =
      ⟨none, item.bodyItem width depth⟩ :: itemsFrom (rules {}) none
        ⟨(item.text width depth).reverse ++ behind, rest⟩ := by
  obtain ⟨⟨c, t, htext, _⟩, _⟩ := item.text_ends width depth
  exact itemsFrom_declared (by simp [htext])
    (Cursor.midWord_of_behind hbehind _)
    (rules_text width depth item behind rest)

theorem itemsFrom_linesText (width depth : Nat) (items : List Item)
    (behind : Text) :
    itemsFrom (rules {}) none ⟨behind, linesText width depth items⟩ =
      items.map fun item => ⟨none, item.bodyItem width depth⟩ := by
  induction items generalizing behind with
  | nil =>
      rw [linesText, itemsFrom_nil]
      rfl
  | cons item items ih =>
      have hblanks := isBlank_indentation width depth
      have hbehind : ∀ c ∈ (('\n' :: indentation width depth).reverse ++
          behind).head?, Text.isIdent c = false := by
        intro c hc
        rw [List.head?_append_of_ne_nil _ (by simp)] at hc
        rcases hblanks c (List.mem_reverse.mp (List.mem_of_mem_head? hc))
          with rfl | rfl
        · decide
        · decide
      rw [linesText, ← List.cons_append, itemsFrom_blanks hblanks,
        itemsFrom_text width depth item hbehind, ih]
      rfl

theorem getLast?_linesText (width depth : Nat) (item : Item)
    (items : List Item) :
    (item.text width depth ++ linesText width depth items).getLast? =
      some ';' := by
  induction items generalizing item with
  | nil =>
      obtain ⟨_, x, htext⟩ := item.text_ends width depth
      rw [linesText, List.append_nil, htext, List.getLast?_concat]
  | cons next items ih =>
      have hsplit : item.text width depth ++
          linesText width depth (next :: items) =
          (item.text width depth ++ '\n' :: indentation width depth) ++
            (next.text width depth ++ linesText width depth items) := by
        rw [linesText, List.append_assoc, List.cons_append]
      rw [hsplit, List.getLast?_append, ih, Option.some_or]

/-- What is written between the braces, without the blanks at its ends. -/
theorem trim_linesText (width depth : Nat) (item : Item) (items : List Item)
    {blanks : Text} (hblanks : ∀ c ∈ blanks, Text.isSpace c = true) :
    Text.trim (linesText width depth (item :: items) ++ blanks) =
      item.text width depth ++ linesText width depth items := by
  rw [linesText, ← List.cons_append, List.append_assoc]
  apply Text.trim_eq_of_ends (isSpace_indentation width depth) hblanks
  · obtain ⟨⟨a, t, htext, ha⟩, _⟩ := item.text_ends width depth
    intro c hc
    rw [htext, List.cons_append, List.head?_cons, Option.mem_some_iff] at hc
    exact hc ▸ ha
  · intro c hc
    rw [getLast?_linesText, Option.mem_some_iff] at hc
    exact hc ▸ by decide

/-- The items of a body are those that were written. -/
theorem items_linesText (width depth : Nat) (items : List Item)
    {blanks : Text} (hblanks : ∀ c ∈ blanks, Text.isSpace c = true) :
    Tree.items {} (Text.trim (linesText width depth items ++ blanks)) =
      items.map fun item => ⟨none, item.bodyItem width depth⟩ := by
  have hitems (body : Text) : Tree.items {} body =
      itemsFrom (rules {}) none ⟨[], body⟩ :=
    rfl
  cases items with
  | nil =>
      have htrim : Text.trim (linesText width depth [] ++ blanks) = [] := by
        have h := Text.trim_eq_of_ends (t := []) hblanks
          (List.forall_mem_nil _) (by simp) (by simp)
        simpa [linesText] using h
      rw [htrim, hitems, itemsFrom_nil]
      rfl
  | cons item items =>
      rw [trim_linesText width depth item items hblanks, hitems,
        itemsFrom_text width depth item (by simp), itemsFrom_linesText]
      rfl

/-! ## Trees -/

mutual

def Item.tree (width depth : Nat) : Item → Tree
  | .line l =>
    .entry none (.variables l.type.text
      (listed (l.declarators.map Declarator.text)))
  | .enum label es =>
    .entry none (.enum (label.frame.compound (Text.trim (enumText es))))
  | .struct label items =>
    .nested none
      (label.frame.compound (Text.trim (linesText width (depth + 1) items ++
        '\n' :: indentation width depth)))
      (treesOf width (depth + 1) items)

def treesOf (width depth : Nat) : List Item → List Tree
  | [] => []
  | item :: items => item.tree width depth :: treesOf width depth items

end

/-- The tree of an item of a body, nested bodies read. -/
def treeOf (item : BodyItem) : Tree :=
  match item with
  | .entry e => .entry none e
  | .struct compound => .nested none compound (Tree.readBody {} compound.body)

theorem readBody_items (width depth : Nat) (items : List Item)
    {blanks : Text} (hblanks : ∀ c ∈ blanks, Text.isSpace c = true) :
    Tree.readBody {} (Text.trim (linesText width depth items ++ blanks)) =
      items.map fun item => treeOf (item.bodyItem width depth) := by
  rw [Tree.readBody_eq, items_linesText width depth items hblanks,
    List.map_map]
  rfl

mutual

theorem Item.treeOf_bodyItem (width depth : Nat) :
    (item : Item) → treeOf (item.bodyItem width depth) =
      item.tree width depth
  | .line l => by
      rw [Item.tree]
      rfl
  | .enum label es => by
      rw [Item.tree]
      rfl
  | .struct label items => by
      rw [Item.tree, ← map_treeOf width (depth + 1) items,
        ← readBody_items width (depth + 1) items
          (isSpace_indentation width depth)]
      rfl

theorem map_treeOf (width depth : Nat) :
    (items : List Item) →
      items.map (fun item => treeOf (item.bodyItem width depth)) =
        treesOf width depth items
  | [] => by
      rw [treesOf]
      rfl
  | item :: items => by
      rw [treesOf, List.map_cons, item.treeOf_bodyItem,
        map_treeOf width depth items]

end

/-- Reading a written body gives the tree of its items. -/
theorem readBody_linesText (width depth : Nat) (items : List Item)
    {blanks : Text} (hblanks : ∀ c ∈ blanks, Text.isSpace c = true) :
    Tree.readBody {} (Text.trim (linesText width depth items ++ blanks)) =
      treesOf width depth items := by
  rw [readBody_items width depth items hblanks, map_treeOf]

end Bindery.Written
