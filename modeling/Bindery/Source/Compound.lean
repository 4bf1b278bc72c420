import Bindery.Source.Delimiter
import Bindery.Text.Matcher

/-!
# Structs and enums with a body

A compound is what stands around and between the braces of a struct or an enum,
from an optional qualifier to the semicolon.
-/

namespace Bindery.Source

structure Compound where
  /-- `typedef` or `const` in front of the keyword. -/
  qualifier : Option Text
  tag : Text
  body : Text
  /-- What stands between the closing brace and the semicolon. -/
  declarator : Text
deriving DecidableEq

namespace Compound

def isTypedef (c : Compound) : Bool := c.qualifier = some ("typedef" : Text)

def declaredName (c : Compound) : Text :=
  c.declarator.dropWhile fun x => x == '*' || Text.isSpace x

def sigils (c : Compound) : Text :=
  Text.trim (Text.upTo c.declarator c.declaredName)

/-- The name the compound is known by.  In a typedef the declared name comes
before the tag, elsewhere the tag comes first. -/
def resolvedName (c : Compound) : Option Text :=
  let candidates :=
    if c.isTypedef then [c.declaredName, c.tag] else [c.tag, c.declaredName]
  candidates.find? (!·.isEmpty)

/-- The variable that is declared together with a compound that is not a
typedef. -/
def declaredVariable? (c : Compound) : Option Text :=
  if c.isTypedef || c.declaredName.isEmpty then none else some c.declaredName

open Matcher

def head (keyword : Text) : Rule (Option Text × Text) := do
  let qualifier ← Rule.capture? (either (sequence [literal "typedef", spaces1])
    (sequence [literal "const", spaces1]))
  Rule.skip (sequence [literal keyword, wordEnd, spaces])
  let tag ← Rule.capture (run Text.isWord)
  Rule.skip (sequence [spaces, literal "\x7b"])
  return (qualifier.map (Text.trim ·.text), tag.text)

def tail : Rule Text := do
  Rule.skip spaces
  let declarator ← Rule.capture
    (sequence [optional (sequence [literal "*", spaces]), run Text.isWord])
  Rule.skip (sequence [spaces, literal ";"])
  return Text.trim declarator.text

def read? (keyword t : Text) : Option (Compound × Text) := do
  let ((qualifier, tag), t) ← (head keyword).first? t
  let (body, t) ← enclosed '\x7b' t
  let (declarator, t) ← tail.first? t
  return ({ qualifier, tag, body := Text.trim body, declarator }, t)

theorem shrinks_head (keyword : Text) : (head keyword).Shrinks :=
  Rule.shrinks_bind
    (Rule.shrinks_capture? (shrinks_either
      (shrinks_sequence (by simp [shrinks_literal, spaces1, shrinks_run1]))
      (shrinks_sequence (by simp [shrinks_literal, spaces1, shrinks_run1]))))
    fun _ =>
  Rule.shrinks_bind
    (Rule.shrinks_skip (shrinks_sequence
      (by simp [shrinks_literal, spaces, shrinks_run, shrinks_wordEnd])))
    fun _ =>
  Rule.shrinks_bind (Rule.shrinks_capture (shrinks_run _)) fun _ =>
  Rule.shrinks_bind
    (Rule.shrinks_skip (shrinks_sequence
      (by simp [shrinks_literal, spaces, shrinks_run])))
    fun _ =>
  Rule.shrinks_pure _

theorem length_body_lt {keyword t rest : Text} {c : Compound}
    (h : read? keyword t = some (c, rest)) : c.body.length < t.length := by
  simp only [read?, Option.bind_eq_bind, Option.bind_eq_some_iff] at h
  obtain ⟨⟨⟨qualifier, tag⟩, t1⟩, h1, ⟨body, t2⟩, h2, ⟨declarator, t3⟩, h3,
    h4⟩ := h
  simp only [Option.pure_def, Option.some.injEq, Prod.mk.injEq] at h4
  have hle := (shrinks_head keyword).length_le h1
  obtain ⟨closing, _, heq⟩ := enclosed_eq h2
  have hlen := congrArg List.length heq
  have htrim := Text.length_trim_le body
  simp only [List.length_append, List.length_cons] at hlen
  simp only [← h4.1]
  omega

end Compound

end Bindery.Source
