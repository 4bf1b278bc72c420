import Bindery.Text.WordRanges

/-!
# Classes of characters

Two notions of "part of a name" live side by side.  Identifiers of C are ASCII,
and the functions that take a declaration apart ask for `isIdent`.  The
declaration rules are more generous and read any word in the sense of Unicode,
`isWord`.  White space is that of Unicode throughout.
-/

namespace Bindery.Text

/-- The characters with the Unicode property of being white space. -/
def isSpace (c : Char) : Bool :=
  let n := c.toNat
  (9 ≤ n && n ≤ 13) || n == 0x20 || n == 0x85 || n == 0xA0 || n == 0x1680 ||
    (0x2000 ≤ n && n ≤ 0x200A) || n == 0x2028 || n == 0x2029 ||
    n == 0x202F || n == 0x205F || n == 0x3000

def isInlineSpace (c : Char) : Bool :=
  isSpace c && c != '\n'

def isIdent (c : Char) : Bool :=
  c.isAlphanum || c == '_'

/-- The characters of words in the sense of Unicode. -/
def isWord (c : Char) : Bool :=
  if c.toNat < 128 then isIdent c
  else wordRanges.any fun range => range.1 ≤ c.toNat && c.toNat ≤ range.2

theorem isWord_of_isIdent {c : Char} (h : isIdent c = true) :
    isWord c = true := by
  have hlt : c.toNat < 128 := by
    delta isIdent Char.isAlphanum Char.isAlpha Char.isUpper Char.isLower
      Char.isDigit at h
    simp only [Bool.or_eq_true, Bool.and_eq_true, decide_eq_true_eq,
      beq_iff_eq, ge_iff_le, UInt32.le_iff_toNat_le] at h
    rcases h with (h | h) | h
    · rcases h with h | h <;> exact Nat.lt_of_le_of_lt h.2 (by decide)
    · exact Nat.lt_of_le_of_lt h.2 (by decide)
    · subst h; decide
  simp [isWord, hlt, h]

end Bindery.Text
