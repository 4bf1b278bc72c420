import Bindery.Source.Cursor
import Bindery.Source.Documentation
import Bindery.Text.Matcher

/-!
# Comments and directives between declarations

These rules come last at file scope and in struct bodies alike.
-/

namespace Bindery.Source

open Matcher

def notLineFeed (c : Char) : Bool := c != '\n'

def docLines : Matcher :=
  sequence [literal "///", run notLineFeed,
    repeated (sequence
      [literal "\n", run Text.isInlineSpace, literal "///", run notLineFeed])]

def docBlock : Matcher := sequence [literal "/**", through "*/"]

def docRule : Rule (Piece α) :=
  ⟨fun t k =>
    ((Rule.capture docLines).run t fun span =>
      k (.doc (docLinesText span.text))).or
      ((Rule.capture docBlock).run t fun span =>
        k (.doc (docBlockText span.text)))⟩

/-- A directive, or a comment without documentation. -/
def remarkRule : Rule (Piece α) := do
  Rule.skip (either
    (sequence [either (literal "#") (literal "//"), run notLineFeed])
    (sequence [literal "/*", through "*/"]))
  return .ignored

def remarkRules : List (Cursor → Option (Piece α × Text)) :=
  [fun c => docRule.first? c.ahead, fun c => remarkRule.first? c.ahead]

theorem not_declared_of_mem_remarkRules
    {rule : Cursor → Option (Piece α × Text)} (hrule : rule ∈ remarkRules)
    {c : Cursor} {item : α} {rest : Text} :
    rule c ≠ some (.declared item, rest) := by
  intro h
  simp only [remarkRules, List.mem_cons, List.not_mem_nil, or_false] at hrule
  rcases hrule with rfl | rfl
  · simp only [docRule, Rule.first?, Option.or_eq_some_iff] at h
    rcases h with h | ⟨_, h⟩
    · obtain ⟨_, _, h⟩ := Rule.of_run_capture h
      simp at h
    · obtain ⟨_, _, h⟩ := Rule.of_run_capture h
      simp at h
  · simp only [remarkRule, Rule.first?, Rule.run_bind] at h
    obtain ⟨_, _, h⟩ := Rule.of_run_skip h
    simp at h

end Bindery.Source
