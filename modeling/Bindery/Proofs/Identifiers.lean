import Bindery.Proofs.Choice

/-!
# Identifiers in a text

An identifier of C is read back from a text if something else than a word
follows it.  Its characters are neither white space nor punctuation, which is
why rules that ask for other characters pass over it or refuse it.
-/

namespace Bindery

namespace Text

theorem toNat_of_isIdent {c : Char} (h : isIdent c = true) :
    48 ≤ c.toNat ∧ c.toNat ≤ 122 := by
  simp only [isIdent, Char.isAlphanum, Char.isAlpha, Char.isUpper,
    Char.isLower, Char.isDigit, Bool.or_eq_true, Bool.and_eq_true,
    decide_eq_true_eq, beq_iff_eq, ge_iff_le, UInt32.le_iff_toNat_le] at h
  unfold Char.toNat
  rcases h with ((⟨h, h'⟩ | ⟨h, h'⟩) | ⟨h, h'⟩) | rfl
  · change 65 ≤ c.val.toNat at h
    change c.val.toNat ≤ 90 at h'
    omega
  · change 97 ≤ c.val.toNat at h
    change c.val.toNat ≤ 122 at h'
    omega
  · change 48 ≤ c.val.toNat at h
    change c.val.toNat ≤ 57 at h'
    omega
  · decide

theorem isSpace_of_isIdent {c : Char} (h : isIdent c = true) :
    isSpace c = false := by
  have hbounds := toNat_of_isIdent h
  simp only [isSpace, Bool.or_eq_false_iff, Bool.and_eq_false_iff,
    decide_eq_false_iff_not, beq_eq_false_iff_ne]
  omega

theorem ne_of_isIdent {c a : Char} (h : isIdent c = true)
    (ha : isIdent a = false) : c ≠ a := by
  rintro rfl
  rw [h] at ha
  contradiction

theorem isIdent_of_isDigit {c : Char} (h : c.isDigit = true) :
    isIdent c = true := by
  simp [isIdent, Char.isAlphanum, h]

end Text

/-- An identifier of C. -/
structure Identifier where
  head : Char
  tail : Text
  head_isIdent : Text.isIdent head = true
  head_notDigit : head.isDigit = false
  tail_isIdent : ∀ c ∈ tail, Text.isIdent c = true

namespace Identifier

def text (i : Identifier) : Text := i.head :: i.tail

variable (i : Identifier)

theorem text_ne_nil : i.text ≠ [] := List.cons_ne_nil _ _

theorem isIdent : ∀ c ∈ i.text, Text.isIdent c = true := by
  intro c hc
  rcases List.mem_cons.mp hc with rfl | hc
  · exact i.head_isIdent
  · exact i.tail_isIdent c hc

theorem isWord : ∀ c ∈ i.text, Text.isWord c = true :=
  fun c hc => Text.isWord_of_isIdent (i.isIdent c hc)

theorem notSpace : ∀ c ∈ i.text, Text.isSpace c = false :=
  fun c hc => Text.isSpace_of_isIdent (i.isIdent c hc)

theorem notMem {a : Char} (ha : Text.isIdent a = false) : a ∉ i.text :=
  fun hmem => Text.ne_of_isIdent (i.isIdent a hmem) ha rfl

/-- A class without identifier characters stops in front of an identifier. -/
theorem stops {p : Char → Bool}
    (hp : ∀ c, Text.isIdent c = true → p c = false) (t : Text) :
    Text.Stops p (i.text ++ t) :=
  Text.stops_cons (hp i.head i.head_isIdent) _

theorem stops_isSpace (t : Text) : Text.Stops Text.isSpace (i.text ++ t) :=
  i.stops (fun _ => Text.isSpace_of_isIdent) t

theorem trim_text_blank : Text.trim (i.text ++ [' ']) = i.text :=
  Text.trim_append_blank
    (fun c hc => i.notSpace c (List.mem_of_mem_head? hc))
    (fun c hc => i.notSpace c (List.mem_of_getLast? hc))

theorem head_ne {a : Char} (ha : Text.isIdent a = false) : i.head ≠ a :=
  Text.ne_of_isIdent i.head_isIdent ha

end Identifier

/-- A non-empty run of decimal digits. -/
structure Digits where
  head : Char
  tail : Text
  head_isDigit : head.isDigit = true
  tail_isDigit : ∀ c ∈ tail, c.isDigit = true

namespace Digits

def text (n : Digits) : Text := n.head :: n.tail

variable (n : Digits)

theorem isDigit : ∀ c ∈ n.text, c.isDigit = true := by
  intro c hc
  rcases List.mem_cons.mp hc with rfl | hc
  · exact n.head_isDigit
  · exact n.tail_isDigit c hc

theorem isIdent : ∀ c ∈ n.text, Text.isIdent c = true :=
  fun c hc => Text.isIdent_of_isDigit (n.isDigit c hc)

end Digits

namespace Matcher

theorem prefers_word (i : Identifier) {rest : Text}
    (h : Text.Stops Text.isWord rest) : Prefers word (i.text ++ rest) rest :=
  prefers_run1 i.text_ne_nil i.isWord h

theorem prefers_spaces_self {t : Text} (h : Text.Stops Text.isSpace t) :
    Prefers spaces t t :=
  prefers_run_self h

theorem prefers_semicolon (rest : Text) :
    Prefers (sequence [spaces, literal ";"]) (';' :: rest) rest :=
  (prefers_spaces_self (Text.stops_cons (by decide) rest)).cons
    ((prefers_literal (";" : Text) rest).cons prefers_sequence_nil)

/-- A word in a text that begins with an identifier is a beginning of that
identifier. -/
theorem split_word {w x t mid : Text} {c : Char}
    (hw : w.all Text.isIdent = true) (hc : Text.isIdent c = false)
    (h : x ++ c :: t = w ++ mid) :
    ∃ z, x = w ++ z ∧ mid = z ++ c :: t := by
  rcases List.append_eq_append_iff.mp h with ⟨z, hz, hz'⟩ | ⟨z, hz, hz'⟩
  · cases z with
    | nil => exact ⟨[], by simpa using hz.symm, by simpa using hz'.symm⟩
    | cons a z =>
        rw [List.cons_append, List.cons.injEq] at hz'
        have hmem : c ∈ w := by
          rw [hz, hz'.1]
          simp
        rw [List.all_eq_true.mp hw c hmem] at hc
        contradiction
  · exact ⟨z, hz, hz'⟩

end Matcher

end Bindery
