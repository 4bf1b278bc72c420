import Bindery.Source.Lexeme

/-!
# Matching delimiters

`enclosed` reads on after an opening delimiter, to the closing one that matches
it.  Delimiters inside comments do not count, and neither do those of another
kind.
-/

namespace Bindery.Source

def closingOf (opening : Char) : Option Char :=
  if opening = '{' then some '}'
  else if opening = '(' then some ')'
  else if opening = '[' then some ']'
  else none

/-- The lexemes before and after the closing delimiter that leaves `depth` open
delimiters. -/
def enclosedLexemes (opening closing : Char) :
    (depth : Nat) → List Lexeme → Option (List Lexeme × List Lexeme)
  | _, [] => none
  | depth, l :: ls =>
    if l = .code closing then
      match depth with
      | 0 => some ([], ls)
      | depth + 1 =>
        (enclosedLexemes opening closing depth ls).map fun (inside, rest) =>
          (l :: inside, rest)
    else
      let depth := if l = .code opening then depth + 1 else depth
      (enclosedLexemes opening closing depth ls).map fun (inside, rest) =>
        (l :: inside, rest)

/-- For a text that follows `opening`: the part inside the delimiters and the
part after them. -/
def enclosed (opening : Char) (t : Text) : Option (Text × Text) := do
  let closing ← closingOf opening
  let (inside, rest) ← enclosedLexemes opening closing 0 (lex t)
  return (Lexeme.textOf inside, Lexeme.textOf rest)

/-- The text from the byte offset `n` on, if a character starts or the text ends
there. -/
def dropBytes? : Nat → Text → Option Text
  | 0, t => some t
  | _ + 1, [] => none
  | n + 1, c :: t =>
    if c.utf8Size ≤ n + 1 then dropBytes? (n + 1 - c.utf8Size) t else none

def matchingDelimiter (t : Text) (start : Nat) : Option Nat := do
  match ← dropBytes? start t with
  | [] => none
  | opening :: t =>
    let (inside, _) ← enclosed opening t
    return start + opening.utf8Size + Text.utf8Size inside

theorem enclosedLexemes_eq {opening closing : Char} {depth : Nat}
    {lexemes inside rest : List Lexeme}
    (h : enclosedLexemes opening closing depth lexemes = some (inside, rest)) :
    lexemes = inside ++ .code closing :: rest := by
  induction lexemes generalizing depth inside rest with
  | nil => simp [enclosedLexemes] at h
  | cons l ls ih =>
    unfold enclosedLexemes at h
    split at h
    · next hl =>
      split at h
      · simp only [Option.some.injEq, Prod.mk.injEq] at h
        simp [← h.1, ← h.2, hl]
      · obtain ⟨⟨a, b⟩, hab, heq⟩ := Option.map_eq_some_iff.1 h
        simp only [Prod.mk.injEq] at heq
        simp [← heq.1, ← heq.2, ih hab]
    · obtain ⟨⟨a, b⟩, hab, heq⟩ := Option.map_eq_some_iff.1 h
      simp only [Prod.mk.injEq] at heq
      simp [← heq.1, ← heq.2, ih hab]

theorem enclosed_eq {opening : Char} {t inside rest : Text}
    (h : enclosed opening t = some (inside, rest)) :
    ∃ closing, closingOf opening = some closing ∧
      t = inside ++ closing :: rest := by
  simp only [enclosed, Option.bind_eq_bind, Option.bind_eq_some_iff] at h
  obtain ⟨closing, hc, ⟨a, b⟩, hab, heq⟩ := h
  refine ⟨closing, hc, ?_⟩
  have hlex := congrArg Lexeme.textOf (enclosedLexemes_eq hab)
  simp only [Option.pure_def, Option.some.injEq, Prod.mk.injEq] at heq
  rw [textOf_lex] at hlex
  rw [hlex, ← heq.1, ← heq.2]
  simp [Lexeme.textOf, Lexeme.text]

end Bindery.Source
