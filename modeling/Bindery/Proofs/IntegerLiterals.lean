import Bindery.Proofs.Choice
import Bindery.Source.Literal

/-!
# Integer literals of C

An integer literal is decimal, octal or hexadecimal and may have a suffix.  Its
suffix, its base and its value decide its type, by the widths of the integer
types, and the type decides what a minus in front of it does: for an unsigned
type the result is not negative.

The reader of initializers knows decimal and hexadecimal literals.  It takes an
octal literal for a decimal one, does not look behind a minus for white space
or for a base, and passes over the suffix.  `integer?_text_iff` says which
initializers it reads with the value that they have.
-/

namespace Bindery

namespace Written

/-! ## Literals and their values -/

inductive Base where
  | decimal
  | octal
  | hexadecimal
deriving DecidableEq

namespace Base

def radix : Base → Nat
  | decimal => 10
  | octal => 8
  | hexadecimal => 16

def alphabet : Base → Text
  | decimal => "0123456789"
  | octal => "01234567"
  | hexadecimal => "0123456789abcdefABCDEF"

end Base

/-- What a digit is worth: its place among the digits. -/
def worth (c : Char) : Nat := ("0123456789abcdef" : Text).idxOf c.toLower

def valueIn (radix : Nat) (digits : Text) : Nat :=
  digits.foldl (fun n c => n * radix + worth c) 0

/-- The marks `u` and `l` or `ll`, each at most once, in either order and
case. -/
structure Suffix where
  unsignedMark : Text := []
  lengthMark : Text := []
  lengthFirst : Bool := false
  unsignedMark_mem : unsignedMark ∈ ([[], "u", "U"] : List Text) := by decide
  lengthMark_mem : lengthMark ∈ ([[], "l", "L", "ll", "LL"] : List Text) := by
    decide

def Suffix.text (s : Suffix) : Text :=
  if s.lengthFirst then s.lengthMark ++ s.unsignedMark
  else s.unsignedMark ++ s.lengthMark

/-- A literal.  The zero that begins an octal literal is the first of its
digits, while `0x` or `0X` stands in front of the digits. -/
structure IntegerLiteral where
  base : Base
  digits : Text
  capital : Bool := false
  suffix : Suffix := {}
  nonempty : digits ≠ [] := by decide
  valid : digits.all (base.alphabet.contains ·) = true := by decide
  leading : base ≠ .hexadecimal →
    (digits.head? = some '0' ↔ base = .octal) := by decide

namespace IntegerLiteral

/-- What announces the base in front of the digits. -/
def announcement (l : IntegerLiteral) : Text :=
  if l.base = .hexadecimal then ['0', if l.capital then 'X' else 'x'] else []

def text (l : IntegerLiteral) : Text :=
  l.announcement ++ l.digits ++ l.suffix.text

def value (l : IntegerLiteral) : Nat := valueIn l.base.radix l.digits

end IntegerLiteral

/-- The widths of `int`, `long` and `long long` in bits. -/
structure DataModel where
  int : Nat
  long : Nat
  longLong : Nat
  int_ge : 16 ≤ int
  long_ge : 32 ≤ long
  longLong_ge : 64 ≤ longLong

structure IntegerType where
  unsigned : Bool
  width : Nat

def IntegerType.holds (t : IntegerType) (n : Nat) : Bool :=
  n < 2 ^ if t.unsigned then t.width else t.width - 1

namespace IntegerLiteral

/-- The types that a literal may have.  Those below the marks of the suffix are
left out, an unsigned mark leaves out the signed ones, and a decimal literal
without it has no unsigned type. -/
def types (m : DataModel) (l : IntegerLiteral) : List IntegerType :=
  ([m.int, m.long, m.longLong].drop l.suffix.lengthMark.length).flatMap
    fun width =>
      (if l.suffix.unsignedMark = [] then [⟨false, width⟩] else []) ++
      (if l.suffix.unsignedMark = [] ∧ l.base = .decimal then []
        else [⟨true, width⟩])

/-- The type of a literal is the first one that holds its value. -/
def type? (m : DataModel) (l : IntegerLiteral) : Option IntegerType :=
  (l.types m).find? (·.holds l.value)

end IntegerLiteral

/-- A literal, with a minus and perhaps white space in front of it. -/
structure IntegerConstant where
  literal : IntegerLiteral
  /-- The white space behind the minus. -/
  minus : Option Text := none
  blank : (minus.getD []).all Text.isSpace = true := by decide

namespace IntegerConstant

def text (k : IntegerConstant) : Text :=
  match k.minus with
  | none => k.literal.text
  | some gap => '-' :: (gap ++ k.literal.text)

/-- The value in C.  An unsigned result is reduced by the width of its type. -/
def value (m : DataModel) (k : IntegerConstant) : Int :=
  match k.minus with
  | none => k.literal.value
  | some _ =>
    match k.literal.type? m with
    | some ⟨true, width⟩ => -(k.literal.value : Int) % 2 ^ width
    | _ => -(k.literal.value : Int)

/-- The value is a number of 64 bits. -/
def Fits (m : DataModel) (k : IntegerConstant) : Prop :=
  -2 ^ 63 ≤ k.value m ∧ k.value m < 2 ^ 63

/-- Only the last digit of an octal literal counts, and a minus stands directly
in front of a literal without `0x`, which is signed or zero. -/
def IsRead (k : IntegerConstant) : Prop :=
  (k.literal.base = .octal → k.literal.value < 8) ∧
  ∀ gap ∈ k.minus, gap = [] ∧ k.literal.base ≠ .hexadecimal ∧
    (k.literal.suffix.unsignedMark = [] ∨ k.literal.value = 0)

end IntegerConstant

/-! ## Digits in two bases -/

theorem valueIn_concat (radix : Nat) (digits : Text) (c : Char) :
    valueIn radix (digits ++ [c]) = valueIn radix digits * radix + worth c := by
  rw [valueIn, List.foldl_append]
  rfl

theorem valueIn_octal_le (digits : Text) :
    valueIn 8 digits ≤ valueIn 10 digits ∧
      (valueIn 8 digits = 0 → valueIn 10 digits = 0) := by
  induction digits using List.reverseRecOn with
  | nil => exact ⟨Nat.le_refl _, fun _ => rfl⟩
  | append_singleton digits c ih =>
      rw [valueIn_concat, valueIn_concat]
      omega

/-- Digits that are read in the wrong base have their value only if all but the
last are zero. -/
theorem valueIn_octal_eq_iff {digits : Text}
    (h : ∀ c ∈ digits, c ∈ Base.octal.alphabet) :
    valueIn 10 digits = valueIn 8 digits ↔ valueIn 8 digits < 8 := by
  rcases List.eq_nil_or_concat digits with rfl | ⟨front, c, rfl⟩
  · simp [valueIn]
  · rw [List.concat_eq_append] at h ⊢
    have hc : worth c < 8 := by
      have hall : ∀ c ∈ Base.octal.alphabet, worth c < 8 := by
        simpa using List.all_eq_true.mp
          (show Base.octal.alphabet.all (worth · < 8) = true by decide)
      exact hall c (h c (by simp))
    have hfront := valueIn_octal_le front
    rw [valueIn_concat, valueIn_concat]
    omega

end Written

/-! ## Reading digits -/

namespace Source

open Written

theorem digitValue?_eq_worth (base : Base) :
    ∀ c ∈ base.alphabet, digitValue? base.radix c = some (worth c) := by
  have hall : base.alphabet.all
      (fun c => digitValue? base.radix c == some (worth c)) = true := by
    cases base
    · decide
    · decide
    · decide
  simpa using List.all_eq_true.mp hall

theorem natural?_eq_valueIn {radix : Nat} {digits : Text} (hne : digits ≠ [])
    (h : ∀ c ∈ digits, digitValue? radix c = some (worth c)) :
    natural? radix digits = some (valueIn radix digits) := by
  have hfold (n : Nat) : digits.foldlM (fun n c =>
      (digitValue? radix c).map (n * radix + ·)) n =
        some (digits.foldl (fun n c => n * radix + worth c) n) := by
    clear hne
    induction digits generalizing n with
    | nil => rfl
    | cons c digits ih =>
        rw [List.forall_mem_cons] at h
        rw [List.foldlM_cons, h.1]
        exact ih h.2 (n * radix + worth c)
  cases digits with
  | nil => contradiction
  | cons c digits => exact hfold 0

theorem natural?_eq_none {radix : Nat} {t : Text} {c : Char} (hc : c ∈ t)
    (h : digitValue? radix c = none) : natural? radix t = none := by
  have hfold (n : Nat) : t.foldlM (fun n c =>
      (digitValue? radix c).map (n * radix + ·)) n = none := by
    induction t generalizing n with
    | nil => contradiction
    | cons a t ih =>
        rw [List.foldlM_cons]
        rcases List.mem_cons.mp hc with rfl | hc
        · rw [h]
          rfl
        · cases digitValue? radix a with
          | none => rfl
          | some d => exact ih hc (n * radix + d)
  cases t with
  | nil => contradiction
  | cons a t => exact hfold 0

theorem signed?_of_natural? {radix n : Nat} {t : Text}
    (hsign : ∀ c ∈ t.head?, c ≠ '-' ∧ c ≠ '+')
    (h : natural? radix t = some n) :
    signed? radix t = if (n : Int) < 2 ^ 63 then some (n : Int) else none := by
  have hrange : (-9223372036854775808 ≤ (n : Int) ∧
      (n : Int) < 9223372036854775808) ↔ (n : Int) < 2 ^ 63 := by
    omega
  unfold signed?
  split
  · exact absurd rfl (hsign '-' rfl).1
  · exact absurd rfl (hsign '+' rfl).2
  · rw [h]
    change Option.filter _ (some (n : Int)) = _
    rw [Option.filter_some]
    simp only [hrange, decide_eq_true_eq]

theorem signed?_minus (radix : Nat) (t : Text) :
    signed? radix ('-' :: t) =
      (natural? radix t).bind fun n =>
        if -2 ^ 63 ≤ -(n : Int) then some (-(n : Int)) else none := by
  unfold signed?
  cases hnatural : natural? radix t with
  | none =>
      simp only [hnatural]
      rfl
  | some n =>
      have hrange : (-9223372036854775808 ≤ -(n : Int) ∧
          -(n : Int) < 9223372036854775808) ↔ -2 ^ 63 ≤ -(n : Int) := by
        omega
      simp only [hnatural]
      change Option.filter _ (some (-(n : Int))) = _
      rw [Option.filter_some, Option.bind_some]
      simp only [hrange, decide_eq_true_eq]

/-! ## Reading literals -/

/-- Nothing is taken off the ends of the text. -/
structure IsBare (t : Text) : Prop where
  head : ∀ c ∈ t.head?, Text.isSpace c = false
  last : ∀ c ∈ t.getLast?, Text.isSpace c = false ∧ isIntegerSuffix c = false

theorem IsBare.trim_eq {t : Text} (h : IsBare t) : Text.trim t = t :=
  Text.trim_eq_self_of_ends h.head fun c hc => (h.last c hc).1

theorem isSpace_of_isIntegerSuffix {c : Char}
    (h : isIntegerSuffix c = true) : Text.isSpace c = false := by
  simp only [isIntegerSuffix, Bool.or_eq_true, beq_iff_eq] at h
  rcases h with ((rfl | rfl) | rfl) | rfl
  · decide
  · decide
  · decide
  · decide

theorem integer?_append_suffix {t suffix : Text} (ht : IsBare t)
    (hne : t ≠ []) (hsuffix : ∀ c ∈ suffix, isIntegerSuffix c = true) :
    integer? (t ++ suffix) = integer? t := by
  have htrim : Text.trim (t ++ suffix) = t ++ suffix := by
    apply Text.trim_eq_self_of_ends
    · intro c hc
      rw [List.head?_append_of_ne_nil _ hne] at hc
      exact ht.head c hc
    · intro c hc
      by_cases hnil : suffix = []
      · rw [hnil, List.append_nil] at hc
        exact (ht.last c hc).1
      · rw [List.getLast?_append_of_ne_nil _ hnil] at hc
        exact isSpace_of_isIntegerSuffix
          (hsuffix c (List.mem_of_getLast? hc))
  have hdrop : (t ++ suffix).reverse.dropWhile isIntegerSuffix =
      t.reverse.dropWhile isIntegerSuffix := by
    rw [List.reverse_append,
      List.dropWhile_append_of_pos (by simpa using hsuffix)]
  unfold integer?
  rw [ht.trim_eq, htrim, hdrop]

theorem IsBare.integer?_eq {t : Text} (h : IsBare t) :
    integer? t =
      ((Text.after? "0x" t).or (Text.after? "0X" t)).elim (signed? 10 t)
        (signed? 16) := by
  have hstops : Text.Stops isIntegerSuffix t.reverse := by
    intro c hc
    rw [List.head?_reverse] at hc
    exact (h.last c hc).2
  unfold integer?
  simp only [h.trim_eq, hstops.dropWhile_eq, List.reverse_reverse]
  split
  · simp [Text.after?]
  · simp [Text.after?]
  · next hx hX =>
    have hnone : Text.after? "0x" t = none ∧ Text.after? "0X" t = none := by
      constructor
      · rw [Option.eq_none_iff_forall_ne_some]
        intro rest hrest
        exact hx rest (Text.after?_eq_some_iff.mp hrest)
      · rw [Option.eq_none_iff_forall_ne_some]
        intro rest hrest
        exact hX rest (Text.after?_eq_some_iff.mp hrest)
    rw [hnone.1, hnone.2]
    rfl

theorem digitValue?_of_isSpace {c : Char} (h : Text.isSpace c = true)
    (radix : Nat) : digitValue? radix c = none := by
  have hother : ¬ ('0' ≤ c ∧ c ≤ '9') ∧ ¬ ('a' ≤ c ∧ c ≤ 'z') ∧
      ¬ ('A' ≤ c ∧ c ≤ 'Z') := by
    simp only [Text.isSpace, Bool.or_eq_true, Bool.and_eq_true,
      decide_eq_true_eq, beq_iff_eq] at h
    simp only [Char.le_def, UInt32.le_iff_toNat_le]
    change ¬ (48 ≤ c.toNat ∧ c.toNat ≤ 57) ∧ ¬ (97 ≤ c.toNat ∧ c.toNat ≤ 122) ∧
      ¬ (65 ≤ c.toNat ∧ c.toNat ≤ 90)
    omega
  simp [digitValue?, hother]

end Source

namespace Written

theorem Base.alphabet_clean (base : Base) :
    ∀ c ∈ base.alphabet, Text.isSpace c = false ∧
      Source.isIntegerSuffix c = false ∧ c ≠ '-' ∧ c ≠ '+' ∧
      c ≠ 'x' ∧ c ≠ 'X' := by
  have hall : base.alphabet.all (fun c => !Text.isSpace c &&
      !Source.isIntegerSuffix c && c != '-' && c != '+' && c != 'x' &&
      c != 'X') = true := by
    cases base
    · decide
    · decide
    · decide
  simpa [and_assoc] using List.all_eq_true.mp hall

theorem Suffix.isIntegerSuffix_of_mem (s : Suffix) :
    ∀ c ∈ s.text, Source.isIntegerSuffix c = true := by
  have hunsigned : ∀ mark ∈ ([[], "u", "U"] : List Text),
      mark.all Source.isIntegerSuffix = true := by
    decide
  have hlength : ∀ mark ∈ ([[], "l", "L", "ll", "LL"] : List Text),
      mark.all Source.isIntegerSuffix = true := by
    decide
  have hunsigned' := List.all_eq_true.mp (hunsigned _ s.unsignedMark_mem)
  have hlength' := List.all_eq_true.mp (hlength _ s.lengthMark_mem)
  intro c hc
  unfold Suffix.text at hc
  split at hc
  · exact (List.mem_append.mp hc).elim (hlength' c) (hunsigned' c)
  · exact (List.mem_append.mp hc).elim (hunsigned' c) (hlength' c)

namespace IntegerLiteral

variable (l : IntegerLiteral)

theorem mem_alphabet : ∀ c ∈ l.digits, c ∈ l.base.alphabet := by
  simpa using List.all_eq_true.mp l.valid

theorem isBare_append_digits {lead : Text}
    (h : ∀ c ∈ lead.head?, Text.isSpace c = false) :
    Source.IsBare (lead ++ l.digits) where
  head := by
    intro c hc
    cases lead with
    | nil =>
        exact (l.base.alphabet_clean c
          (l.mem_alphabet c (List.mem_of_mem_head? hc))).1
    | cons a lead => exact h c hc
  last := by
    intro c hc
    rw [List.getLast?_append_of_ne_nil _ l.nonempty] at hc
    obtain ⟨hspace, hsuffix, _⟩ := l.base.alphabet_clean c
      (l.mem_alphabet c (List.mem_of_getLast? hc))
    exact ⟨hspace, hsuffix⟩

/-- The number that the digits are taken for. -/
def reading : Nat :=
  valueIn (if l.base = .hexadecimal then 16 else 10) l.digits

theorem reading_eq_value_iff :
    l.reading = l.value ↔ (l.base = .octal → l.value < 8) := by
  unfold reading value
  cases hbase : l.base with
  | decimal => simp [Base.radix]
  | hexadecimal => simp [Base.radix]
  | octal =>
      have hdigits := l.mem_alphabet
      rw [hbase] at hdigits
      simpa [Base.radix] using valueIn_octal_eq_iff hdigits

theorem value_lt_reading (h : l.reading ≠ l.value) : l.value < l.reading := by
  have hle : l.value ≤ l.reading := by
    unfold reading value
    cases l.base with
    | decimal => exact Nat.le_refl _
    | hexadecimal => exact Nat.le_refl _
    | octal => exact (valueIn_octal_le l.digits).1
  omega

theorem natural?_digits :
    Source.natural? (if l.base = .hexadecimal then 16 else 10) l.digits =
      some l.reading := by
  apply Source.natural?_eq_valueIn l.nonempty
  intro c hc
  have hmem := l.mem_alphabet c hc
  cases hbase : l.base with
  | decimal => exact Source.digitValue?_eq_worth .decimal c (hbase ▸ hmem)
  | hexadecimal =>
      exact Source.digitValue?_eq_worth .hexadecimal c (hbase ▸ hmem)
  | octal =>
      rw [hbase] at hmem
      have hdecimal : Base.octal.alphabet <+: Base.decimal.alphabet := by decide
      exact Source.digitValue?_eq_worth .decimal c (hdecimal.subset hmem)

theorem head_digits_ne_sign : ∀ c ∈ l.digits.head?, c ≠ '-' ∧ c ≠ '+' := by
  intro c hc
  obtain ⟨_, _, hminus, hplus, _⟩ := l.base.alphabet_clean c
    (l.mem_alphabet c (List.mem_of_mem_head? hc))
  exact ⟨hminus, hplus⟩

theorem integer?_text :
    Source.integer? l.text =
      if (l.reading : Int) < 2 ^ 63 then some (l.reading : Int) else none := by
  have hbare : Source.IsBare (l.announcement ++ l.digits) := by
    apply l.isBare_append_digits
    unfold announcement
    split
    · simp [Text.isSpace]
    · simp
  rw [text, Source.integer?_append_suffix hbare (by simp [l.nonempty])
    l.suffix.isIntegerSuffix_of_mem, hbare.integer?_eq]
  have hdigits := l.natural?_digits
  by_cases hbase : l.base = .hexadecimal
  · rw [if_pos hbase] at hdigits
    have hread := Source.signed?_of_natural? l.head_digits_ne_sign hdigits
    rw [announcement, if_pos hbase]
    cases l.capital with
    | false => simpa [Text.after?] using hread
    | true => simpa [Text.after?] using hread
  · rw [if_neg hbase] at hdigits
    have hnone : ∀ x, x = 'x' ∨ x = 'X' →
        Text.after? ['0', x] l.digits = none := by
      intro x hx
      rw [Option.eq_none_iff_forall_ne_some]
      intro rest hrest
      have hmem : x ∈ l.digits := by
        rw [Text.after?_eq_some_iff.mp hrest]
        simp
      obtain ⟨_, _, _, _, hlower, hupper⟩ :=
        l.base.alphabet_clean x (l.mem_alphabet x hmem)
      exact hx.elim hlower hupper
    have hread := Source.signed?_of_natural? l.head_digits_ne_sign hdigits
    rw [announcement, if_neg hbase, List.nil_append]
    rw [show Text.after? "0x" l.digits = none from hnone 'x' (.inl rfl),
      show Text.after? "0X" l.digits = none from hnone 'X' (.inr rfl)]
    exact hread

/-- Behind a minus only the digits of a decimal or octal literal are read. -/
theorem integer?_minus {gap : Text}
    (hgap : ∀ c ∈ gap, Text.isSpace c = true) :
    Source.integer? ('-' :: (gap ++ l.text)) =
      if gap = [] ∧ l.base ≠ .hexadecimal ∧ -2 ^ 63 ≤ -(l.reading : Int)
      then some (-(l.reading : Int)) else none := by
  have hbare : Source.IsBare ('-' :: (gap ++ l.announcement) ++ l.digits) :=
    l.isBare_append_digits (by simp [Text.isSpace])
  have htext : '-' :: (gap ++ l.text) =
      '-' :: (gap ++ l.announcement) ++ l.digits ++ l.suffix.text := by
    simp [text]
  rw [htext, Source.integer?_append_suffix hbare (by simp)
    l.suffix.isIntegerSuffix_of_mem, hbare.integer?_eq]
  change Source.signed? 10 ('-' :: (gap ++ l.announcement ++ l.digits)) = _
  rw [Source.signed?_minus]
  by_cases hplain : gap = [] ∧ l.base ≠ .hexadecimal
  · have hdigits := l.natural?_digits
    rw [if_neg hplain.2] at hdigits
    rw [announcement, if_neg hplain.2, hplain.1, List.nil_append,
      List.nil_append, hdigits, Option.bind_some]
    simp [hplain]
  · -- White space and the letter of a base are no decimal digits.
    have hnone : Source.natural? 10 (gap ++ l.announcement ++ l.digits) =
        none := by
      by_cases hnil : gap = []
      · have hbase : l.base = .hexadecimal :=
          not_not.mp fun hne => hplain ⟨hnil, hne⟩
        have hletter : (if l.capital then 'X' else 'x') ∈
            gap ++ l.announcement ++ l.digits := by
          simp [announcement, hbase]
        refine Source.natural?_eq_none hletter ?_
        cases l.capital with
        | false => rfl
        | true => rfl
      · obtain ⟨c, gap, rfl⟩ := List.exists_cons_of_ne_nil hnil
        have hspace := hgap c List.mem_cons_self
        exact Source.natural?_eq_none (by simp)
          (Source.digitValue?_of_isSpace hspace 10)
    rw [hnone, if_neg fun h => hplain ⟨h.1, h.2.1⟩]
    rfl

/-! ## The type of a negated literal -/

theorem signedness_of_type? {m : DataModel} {t : IntegerType}
    (h : l.type? m = some t) :
    (t.unsigned = false → l.suffix.unsignedMark = []) ∧
      (t.unsigned = true → l.suffix.unsignedMark = [] → l.base ≠ .decimal) := by
  have hmem : t ∈ l.types m := List.mem_of_find?_eq_some h
  rw [types, List.mem_flatMap] at hmem
  obtain ⟨width, _, hmem⟩ := hmem
  rcases List.mem_append.mp hmem with hsigned | hunsigned
  · rw [List.mem_ite_nil_right, List.mem_singleton] at hsigned
    rw [hsigned.2]
    exact ⟨fun _ => hsigned.1, fun h => by contradiction⟩
  · rw [List.mem_ite_nil_left, List.mem_singleton] at hunsigned
    rw [hunsigned.2]
    exact ⟨fun h => by contradiction,
      fun _ hmark hbase => hunsigned.1 ⟨hmark, hbase⟩⟩

/-- No suffix leaves out the widest types. -/
theorem widths_eq (m : DataModel) :
    ∃ width widths,
      [m.int, m.long, m.longLong].drop l.suffix.lengthMark.length =
        width :: widths ∧ 16 ≤ width ∧ m.longLong ∈ width :: widths := by
  have hint := m.int_ge
  have hlong := m.long_ge
  have hlongLong := m.longLong_ge
  have hmarks : ∀ mark ∈ ([[], "l", "L", "ll", "LL"] : List Text),
      mark.length = 0 ∨ mark.length = 1 ∨ mark.length = 2 := by
    decide
  rcases hmarks _ l.suffix.lengthMark_mem with h | h | h
  · exact ⟨m.int, [m.long, m.longLong], by rw [h]; rfl, hint, by simp⟩
  · exact ⟨m.long, [m.longLong], by rw [h]; rfl, by omega, by simp⟩
  · exact ⟨m.longLong, [], by rw [h]; rfl, by omega, by simp⟩

theorem signed_of_type?_small {m : DataModel} {t : IntegerType}
    (hmark : l.suffix.unsignedMark = []) (hsmall : l.value < 8)
    (h : l.type? m = some t) : t.unsigned = false := by
  obtain ⟨width, widths, hwidths, hwidth, _⟩ := l.widths_eq m
  have hholds : IntegerType.holds ⟨false, width⟩ l.value = true := by
    have hpow : 2 ^ 3 ≤ 2 ^ (width - 1) :=
      Nat.pow_le_pow_right (by decide) (by omega)
    simp only [IntegerType.holds, Bool.false_eq_true, if_false,
      decide_eq_true_eq]
    omega
  rw [type?, types, hwidths, List.flatMap_cons, if_pos hmark,
    List.singleton_append, List.cons_append,
    List.find?_cons_of_pos (p := fun t : IntegerType => t.holds l.value)
      hholds, Option.some.injEq] at h
  rw [← h]

theorem le_value_of_type?_none {m : DataModel}
    (hmark : l.suffix.unsignedMark ≠ []) (h : l.type? m = none) :
    2 ^ 64 ≤ l.value := by
  obtain ⟨width, widths, hwidths, _, hmem⟩ := l.widths_eq m
  have hwide : (⟨true, m.longLong⟩ : IntegerType) ∈ l.types m := by
    rw [types, hwidths, List.mem_flatMap]
    exact ⟨m.longLong, hmem, by simp [hmark]⟩
  have hnot := List.find?_eq_none.mp h _ hwide
  simp only [IntegerType.holds, if_true, decide_eq_true_eq, not_lt] at hnot
  exact le_trans (Nat.pow_le_pow_right (by decide) m.longLong_ge) hnot

end IntegerLiteral

namespace IntegerConstant

variable {m : DataModel} {k : IntegerConstant}

theorem value_minus {gap : Text} (h : k.minus = some gap) :
    k.value m = -(k.literal.value : Int) ∨ 0 ≤ k.value m := by
  simp only [value, h]
  split
  · exact .inr (Int.emod_nonneg _ (by positivity))
  · exact .inl rfl

theorem value_minus_signed {gap : Text} (h : k.minus = some gap)
    (hmark : k.literal.suffix.unsignedMark = [])
    (hbase : k.literal.base = .decimal ∨ k.literal.value < 8) :
    k.value m = -(k.literal.value : Int) := by
  simp only [value, h]
  split
  · next width htype =>
    rcases hbase with hbase | hsmall
    · exact absurd hbase
        ((k.literal.signedness_of_type? htype).2 rfl hmark)
    · have hsigned := k.literal.signed_of_type?_small hmark hsmall htype
      contradiction
  · rfl

theorem value_minus_unsigned {gap : Text} (h : k.minus = some gap)
    (hmark : k.literal.suffix.unsignedMark ≠ []) (hfits : k.Fits m) :
    0 ≤ k.value m := by
  cases htype : k.literal.type? m with
  | none =>
      have hlarge := k.literal.le_value_of_type?_none hmark htype
      have hvalue : k.value m = -(k.literal.value : Int) := by
        simp only [value, h, htype]
      have hlow := hfits.1
      rw [hvalue] at hlow
      omega
  | some t =>
      obtain ⟨unsigned, width⟩ := t
      cases unsigned with
      | false =>
          exact absurd ((k.literal.signedness_of_type? htype).1 rfl) hmark
      | true =>
          simp only [value, h, htype]
          exact Int.emod_nonneg _ (by positivity)

/-- A minus gives the negative of the value, or for an unsigned literal a
number that is not negative. -/
theorem value_minus_eq_iff {gap : Text} (h : k.minus = some gap)
    (hbase : k.literal.base ≠ .hexadecimal)
    (hsmall : k.literal.base = .octal → k.literal.value < 8)
    (hfits : k.Fits m) :
    k.value m = -(k.literal.value : Int) ↔
      k.literal.suffix.unsignedMark = [] ∨ k.literal.value = 0 := by
  by_cases hmark : k.literal.suffix.unsignedMark = []
  · have hsigned : k.literal.base = .decimal ∨ k.literal.value < 8 := by
      cases hcases : k.literal.base with
      | decimal => exact .inl rfl
      | octal => exact .inr (hsmall hcases)
      | hexadecimal => exact absurd hcases hbase
    simp [hmark, value_minus_signed h hmark hsigned]
  · have hpos := value_minus_unsigned h hmark hfits
    simp only [hmark, false_or]
    constructor
    · intro hvalue
      omega
    · intro hzero
      simp only [value, h, hzero]
      split
      · simp
      · rfl

theorem blank_of_minus {gap : Text} (h : k.minus = some gap) :
    ∀ c ∈ gap, Text.isSpace c = true := by
  have hblank := k.blank
  rw [h, Option.getD_some] at hblank
  exact List.all_eq_true.mp hblank

/-- Which constants are read with the value that they have in C. -/
theorem integer?_text_iff (hfits : k.Fits m) :
    Source.integer? k.text = some (k.value m) ↔ k.IsRead := by
  have hreading := k.literal.reading_eq_value_iff
  cases hminus : k.minus with
  | none =>
      have htext : k.text = k.literal.text := by simp only [text, hminus]
      have hvalue : k.value m = k.literal.value := by simp only [value, hminus]
      have hhigh := hfits.2
      rw [hvalue] at hhigh
      have hread : k.IsRead ↔ k.literal.reading = k.literal.value := by
        simp [IsRead, hminus, hreading]
      rw [htext, hvalue, k.literal.integer?_text, hread,
        Option.ite_none_right_eq_some, Option.some.injEq]
      omega
  | some gap =>
      have htext : k.text = '-' :: (gap ++ k.literal.text) := by
        simp only [text, hminus]
      rw [htext, k.literal.integer?_minus (blank_of_minus hminus),
        Option.ite_none_right_eq_some, Option.some.injEq]
      have hread : k.IsRead ↔ k.literal.reading = k.literal.value ∧
          gap = [] ∧ k.literal.base ≠ .hexadecimal ∧
            (k.literal.suffix.unsignedMark = [] ∨ k.literal.value = 0) := by
        simp [IsRead, hminus, hreading]
      rw [hread]
      constructor
      · rintro ⟨⟨hgap, hbase, _⟩, hvalue⟩
        have hsame : k.literal.reading = k.literal.value := by
          by_contra hne
          have hlt := k.literal.value_lt_reading hne
          rcases value_minus (m := m) hminus with h | h
          · omega
          · omega
        rw [hsame] at hvalue
        exact ⟨hsame, hgap, hbase, (value_minus_eq_iff hminus hbase
          (hreading.mp hsame) hfits).mp hvalue.symm⟩
      · rintro ⟨hsame, hgap, hbase, hmark⟩
        have hvalue := (value_minus_eq_iff hminus hbase
          (hreading.mp hsame) hfits).mpr hmark
        have hlow := hfits.1
        rw [hvalue] at hlow ⊢
        rw [hsame]
        exact ⟨⟨hgap, hbase, hlow⟩, rfl⟩

end IntegerConstant

end Written

end Bindery
