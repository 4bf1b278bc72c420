import Bindery.Header
import Bindery.Proofs.Compounds
import Bindery.Proofs.Lists

/-!
# Enumerators and their numbers

Enumerators are written with or without a number.  Those without one are
numbered after their predecessor, as long as that has a number of 64 bits; the
least of these follows the greatest.  The members of a written enumeration are
its enumerators with these numbers: `enumMembers_text`.  Where no enumerator is
numbered behind the greatest number, these are the numbers that one counts:
`Countable.map_value`.
-/

namespace Bindery.Written

structure Enumerator where
  name : Identifier
  value : Option Digits

namespace Enumerator

def text (e : Enumerator) : Text :=
  e.name.text ++
    match e.value with
    | none => []
    | some n => ' ' :: '=' :: ' ' :: n.text

/-- The number of an enumerator; `next` is the one that it has if none is
written. -/
def number (next : Option Int) (e : Enumerator) : Option Int :=
  match e.value with
  | none => next
  | some n => some (Nat.ofDigitChars 10 n.text 0)

/-- A number that is written stays as it is written. -/
def valueText (next : Option Int) (e : Enumerator) : Option Text :=
  match e.value with
  | none => next.map Text.ofInt
  | some n => some n.text

end Enumerator

/-- The number after another one.  Numbers have 64 bits: the least follows the
greatest, and none follows a number that does not fit. -/
def successor (n : Int) : Option Int :=
  if n + 1 < 2 ^ 63 then some (n + 1)
  else if n < 2 ^ 63 then some (-2 ^ 63)
  else none

def enumMembersFrom : (next : Option Int) → List Enumerator → List Member
  | _, [] => []
  | next, e :: es =>
    { category := .enumValue, name := e.name.text
      value := e.valueText next } ::
      enumMembersFrom ((e.number next).bind successor) es

/-- The numbers of enumerators if one could count past the greatest number of
64 bits. -/
def ordinalsFrom : (next : Option Int) → List Enumerator → List (Option Int)
  | _, [] => []
  | next, e :: es =>
    e.number next ::
      ordinalsFrom (((e.number next).filter (· < 2 ^ 63)).map (· + 1)) es

/-- The enumerators, each with its number, counted from zero. -/
def counted (es : List Enumerator) : List (Enumerator × Option Int) :=
  es.zip (ordinalsFrom (some 0) es)

/-- No enumerator has to be numbered behind the greatest number of 64 bits. -/
def Countable (es : List Enumerator) : Prop :=
  ∀ x ∈ counted es, x.1.value = none → x.2 ≠ some (2 ^ 63)

/-- What is written between the braces of an enumeration. -/
def enumText (es : List Enumerator) : Text :=
  listed (es.map Enumerator.text) ++ [' ']

end Bindery.Written

namespace Bindery

/-! ## Numbers -/

namespace Source

theorem digitValue?_of_isDigit {c : Char} (h : c.isDigit = true) :
    digitValue? 10 c = some (c.toNat - 48) := by
  have hbounds : '0' ≤ c ∧ c ≤ '9' := by
    simpa [Char.isDigit, Char.le_def] using h
  have hlt : c.toNat - 48 < 10 := by
    have hle : c.val.toNat ≤ 57 := UInt32.le_iff_toNat_le.mp hbounds.2
    unfold Char.toNat
    omega
  simp [digitValue?, hbounds, hlt]

theorem natural?_of_isDigit {t : Text} (hne : t ≠ [])
    (h : ∀ c ∈ t, c.isDigit = true) :
    natural? 10 t = some (Nat.ofDigitChars 10 t 0) := by
  have hfold (n : Nat) : t.foldlM (fun n c =>
      (digitValue? 10 c).map (n * 10 + ·)) n =
        some (Nat.ofDigitChars 10 t n) := by
    clear hne
    induction t generalizing n with
    | nil => rfl
    | cons c t ih =>
        simp only [List.mem_cons, forall_eq_or_imp] at h
        rw [List.foldlM_cons, digitValue?_of_isDigit h.1, Nat.ofDigitChars,
          List.foldl_cons, Nat.mul_comm 10 n]
        exact ih h.2 (n * 10 + (c.toNat - 48))
  cases t with
  | nil => contradiction
  | cons c t => exact hfold 0

theorem signed?_of_isDigit {t : Text} (hne : t ≠ [])
    (h : ∀ c ∈ t, c.isDigit = true) :
    signed? 10 t = if Nat.ofDigitChars 10 t 0 < 2 ^ 63
      then some (Nat.ofDigitChars 10 t 0 : Int) else none := by
  have hnatural := natural?_of_isDigit hne h
  unfold signed?
  split
  · exact absurd (h '-' (by simp)) (by decide)
  · exact absurd (h '+' (by simp)) (by decide)
  · rw [hnatural]
    generalize Nat.ofDigitChars 10 t 0 = n
    rw [Option.map_some, Option.filter_some]
    by_cases hn : n < 2 ^ 63
    · have hrange : -9223372036854775808 ≤ (n : Int) ∧
          (n : Int) < 9223372036854775808 := by
        omega
      rw [if_pos hn, if_pos (by simpa using hrange)]
      rfl
    · have hrange : ¬ (-9223372036854775808 ≤ (n : Int) ∧
          (n : Int) < 9223372036854775808) := by
        omega
      rw [if_neg hn, if_neg]
      simpa using hrange

/-- Digits and signs are no prefix and no suffix of a literal. -/
theorem integer?_eq_signed? {t : Text}
    (h : ∀ c ∈ t, c.isDigit = true ∨ c = '-') :
    integer? t = signed? 10 t := by
  have hclass {p : Char → Bool} (hsign : p '-' = false)
      (hdigit : ∀ c, c.isDigit = true → p c = false) :
      ∀ c ∈ t, p c = false := by
    intro c hc
    rcases h c hc with hc | rfl
    · exact hdigit c hc
    · exact hsign
  have htrim : Text.trim t = t := Text.trim_eq_self (hclass (by decide)
    fun c hc => Text.isSpace_of_isIdent (Text.isIdent_of_isDigit hc))
  have hsuffix : Text.Stops isIntegerSuffix t.reverse := by
    intro c hc
    apply hclass (p := isIntegerSuffix) (by decide) ?_ c
      (List.mem_reverse.mp (List.mem_of_mem_head? hc))
    intro a ha
    simp only [isIntegerSuffix, Bool.or_eq_false_iff, beq_eq_false_iff_ne]
    refine ⟨⟨⟨?_, ?_⟩, ?_⟩, ?_⟩
    all_goals
      rintro rfl
      contradiction
  unfold integer?
  simp only [htrim, hsuffix.dropWhile_eq, List.reverse_reverse]
  split
  · exact absurd (h 'x' (by simp)) (by decide)
  · exact absurd (h 'X' (by simp)) (by decide)
  · rfl

theorem integer?_of_isDigit {t : Text} (hne : t ≠ [])
    (h : ∀ c ∈ t, c.isDigit = true) :
    integer? t = if Nat.ofDigitChars 10 t 0 < 2 ^ 63
      then some (Nat.ofDigitChars 10 t 0 : Int) else none := by
  rw [integer?_eq_signed? fun c hc => .inl (h c hc)]
  exact signed?_of_isDigit hne h

/-! ## Printing and reading numbers -/

theorem signed?_neg {t : Text} (hne : t ≠ [])
    (h : ∀ c ∈ t, c.isDigit = true)
    (hsize : Nat.ofDigitChars 10 t 0 ≤ 2 ^ 63) :
    signed? 10 ('-' :: t) = some (-(Nat.ofDigitChars 10 t 0 : Int)) := by
  have hnatural := natural?_of_isDigit hne h
  generalize Nat.ofDigitChars 10 t 0 = n at hnatural hsize
  have hrange : -9223372036854775808 ≤ -(n : Int) ∧
      -(n : Int) < 9223372036854775808 := by
    omega
  unfold signed?
  simp only [hnatural]
  change Option.filter _ (some (-(n : Int))) = _
  rw [Option.filter_some, if_pos (by simpa using hrange)]

theorem isDigit_ofNat (n : Nat) : ∀ c ∈ Text.ofNat n, c.isDigit = true :=
  fun _ hc => Nat.isDigit_of_mem_toDigits (by decide) (by decide) hc

theorem ofDigitChars_ofNat (n : Nat) :
    Nat.ofDigitChars 10 (Text.ofNat n) 0 = n :=
  Nat.ofDigitChars_toDigits (by decide) (by decide)

theorem integer?_ofInt {n : Int} (hlow : -2 ^ 63 ≤ n) (hhigh : n < 2 ^ 63) :
    integer? (Text.ofInt n) = some n := by
  cases n with
  | ofNat n =>
      have hread := integer?_of_isDigit (t := Text.ofNat n)
        Nat.toDigits_ne_nil (isDigit_ofNat n)
      have hsize : n < 2 ^ 63 := by
        rw [Int.ofNat_eq_natCast] at hhigh
        omega
      rw [ofDigitChars_ofNat, if_pos hsize] at hread
      exact hread
  | negSucc n =>
      have hchars : ∀ c ∈ '-' :: Text.ofNat (n + 1),
          c.isDigit = true ∨ c = '-' := by
        intro c hc
        rcases List.mem_cons.mp hc with hc | hc
        · exact .inr hc
        · exact .inl (isDigit_ofNat (n + 1) c hc)
      have hsize : n + 1 ≤ 2 ^ 63 := by omega
      have hread := signed?_neg (t := Text.ofNat (n + 1))
        Nat.toDigits_ne_nil (isDigit_ofNat (n + 1))
      rw [ofDigitChars_ofNat] at hread
      rw [Text.ofInt, integer?_eq_signed? hchars, hread hsize]
      rfl

theorem integer?_range {t : Text} {n : Int} (h : integer? t = some n) :
    -2 ^ 63 ≤ n ∧ n < 2 ^ 63 := by
  have hsigned {radix : Nat} {t : Text} (h : signed? radix t = some n) :
      -2 ^ 63 ≤ n ∧ n < 2 ^ 63 := by
    unfold signed? at h
    simpa using (Option.filter_eq_some_iff.mp h).2
  unfold integer? at h
  simp only at h
  split at h
  · exact hsigned h
  · exact hsigned h
  · exact hsigned h

theorem increment_of_lt {n : Int} (hlow : -2 ^ 63 ≤ n)
    (hhigh : n + 1 < 2 ^ 63) : increment n = n + 1 := by
  have hword : increment n = (n + 1).bmod (2 ^ 64) := by
    rw [increment, Int64.toInt_add, Int64.toInt_ofInt]
    simp
  rw [hword]
  exact Int.bmod_eq_of_le (by omega) (by omega)

theorem increment_greatest : increment (2 ^ 63 - 1) = -2 ^ 63 := by decide

/-! ## Single enumerators -/

theorem strippedOf_map_code (t : Text) :
    Lexeme.strippedOf (t.map Lexeme.code) = t := by
  induction t with
  | nil => rfl
  | cons c t ih =>
      rw [List.map_cons]
      conv_rhs => rw [← ih]
      rfl

end Source

theorem Text.cut?_append {c : Char} {x : Text} (h : c ∉ x) (y : Text) :
    Text.cut? [c] (x ++ c :: y) = some (x, y) := by
  induction x with
  | nil => simp [Text.cut?, Text.after?]
  | cons a x ih =>
      simp only [List.mem_cons, not_or] at h
      simp [Text.cut?, Text.after?, h.1, ih h.2]

theorem Text.cut?_of_notMem {c : Char} {x : Text} (h : c ∉ x) :
    Text.cut? [c] x = none := by
  induction x with
  | nil => rfl
  | cons a x ih =>
      simp only [List.mem_cons, not_or] at h
      simp [Text.cut?, Text.after?, h.1, ih h.2]

namespace Written

open Source

namespace Enumerator

variable (e : Enumerator)

theorem mem_text {c : Char} (h : c ∈ e.text) :
    Text.isIdent c = true ∨ c = ' ' ∨ c = '=' := by
  unfold text at h
  rcases List.mem_append.mp h with h | h
  · exact .inl (e.name.isIdent c h)
  · cases hvalue : e.value with
    | none =>
        rw [hvalue] at h
        contradiction
    | some n =>
        rw [hvalue] at h
        simp only [List.mem_cons] at h
        rcases h with h | h | h | h
        · exact .inr (.inl h)
        · exact .inr (.inr h)
        · exact .inr (.inl h)
        · exact .inl (n.isIdent c h)

theorem getLast?_text {c : Char} (h : c ∈ e.text.getLast?) :
    Text.isIdent c = true := by
  unfold text at h
  cases hvalue : e.value with
  | none =>
      rw [hvalue, List.append_nil] at h
      exact e.name.isIdent c (List.mem_of_getLast? h)
  | some n =>
      have hsplit : e.name.text ++ ' ' :: '=' :: ' ' :: n.text =
          (e.name.text ++ [' ', '=', ' ']) ++ n.text := by
        simp
      rw [hvalue, hsplit,
        List.getLast?_append_of_ne_nil _ (by simp [Digits.text])] at h
      exact n.isIdent c (List.mem_of_getLast? h)

theorem isPiece_text : IsPiece e.text :=
  isPiece_of_identifier (by decide) e.name (fun _ => e.mem_text)
    fun _ => e.getLast?_text

theorem skipLeadingComments_text :
    skipLeadingComments none (lex e.text) = (none, e.text.map .code) := by
  have hslash : '/' ∉ e.text := fun h => (e.isPiece_text.clean _ h).1 rfl
  have hhead := Text.isSpace_of_isIdent e.name.head_isIdent
  rw [lex_of_notMem hslash, text, Identifier.text, List.cons_append,
    List.map_cons, skipLeadingComments]
  simp [hhead]

/-- A written enumerator is read back. -/
theorem parse?_text :
    Source.Enumerator.parse? e.text =
      some ⟨e.name.text, e.value.map Digits.text, none⟩ := by
  have hall : e.name.text.all Text.isIdent = true :=
    List.all_eq_true.mpr e.name.isIdent
  have hempty : e.name.text.isEmpty = false := rfl
  have hname : Text.trim e.name.text = e.name.text :=
    Text.trim_eq_self e.name.notSpace
  have hsign : '=' ∉ e.name.text := e.name.notMem (by decide)
  unfold Source.Enumerator.parse?
  simp only [skipLeadingComments_text, strippedOf_map_code]
  cases hvalue : e.value with
  | none =>
      have hcut : Text.cut? ("=" : Text) e.name.text = none :=
        Text.cut?_of_notMem hsign
      have htext : e.text = e.name.text := by
        rw [text, hvalue, List.append_nil]
      simp only [hcut, htext, hname, hall, hempty]
      rfl
  | some n =>
      have hcut : Text.cut? ("=" : Text) e.text =
          some (e.name.text ++ [' '], ' ' :: n.text) := by
        have hsplit : e.text =
            (e.name.text ++ [' ']) ++ '=' :: (' ' :: n.text) := by
          simp [text, hvalue]
        have hsign' : '=' ∉ e.name.text ++ [' '] := by simpa using hsign
        rw [hsplit]
        exact Text.cut?_append hsign' _
      have hnumber : Text.trim (' ' :: n.text) = n.text :=
        (Text.trim_cons (by decide) _).trans (Text.trim_eq_self fun c hc =>
          Text.isSpace_of_isIdent (n.isIdent c hc))
      simp only [hcut, e.name.trim_text_blank, hnumber, hall, hempty]
      rfl

end Enumerator

/-! ## Enumerations -/

def InRange (n : Int) : Prop := -2 ^ 63 ≤ n ∧ n < 2 ^ 63

theorem successor_of_lt {n : Int} (h : n + 1 < 2 ^ 63) :
    successor n = some (n + 1) := by
  rw [successor, if_pos h]

theorem successor_of_le {n : Int} (h : 2 ^ 63 ≤ n) : successor n = none := by
  rw [successor, if_neg (by omega), if_neg (by omega)]

theorem successor_eq {n : Int} (h : InRange n) :
    successor n = some (increment n) := by
  obtain ⟨hlow, hhigh⟩ := h
  by_cases hnext : n + 1 < 2 ^ 63
  · rw [successor_of_lt hnext, increment_of_lt hlow hnext]
  · have hgreatest : n = 2 ^ 63 - 1 := by omega
    rw [successor, if_neg hnext, if_pos hhigh, hgreatest, increment_greatest]

theorem inRange_of_successor {n k : Int} (hlow : -2 ^ 63 ≤ n)
    (h : successor n = some k) : InRange k := by
  unfold successor at h
  unfold InRange
  split at h
  · have hk := Option.some.inj h
    omega
  · split at h
    · have hk := Option.some.inj h
      omega
    · contradiction

theorem implicitValue_ofInt {n : Int} (h : InRange n) :
    implicitValue (some (some (Text.ofInt n))) =
      (successor n).map Text.ofInt := by
  have hread : integer? (Text.ofInt n) = some n := integer?_ofInt h.1 h.2
  rw [implicitValue, Option.bind_some, hread, successor_eq h,
    Option.map_some, Option.map_some]

theorem implicitValue_digits (d : Digits) :
    implicitValue (some (some d.text)) =
      (successor (Nat.ofDigitChars 10 d.text 0)).map Text.ofInt := by
  have hread := integer?_of_isDigit (t := d.text) (by simp [Digits.text])
    d.isDigit
  rw [implicitValue, Option.bind_some, hread]
  generalize Nat.ofDigitChars 10 d.text 0 = n
  by_cases hn : n < 2 ^ 63
  · have hrange : InRange n := ⟨by omega, by omega⟩
    rw [if_pos hn, successor_eq hrange, Option.map_some, Option.map_some]
  · rw [if_neg hn, successor_of_le (by omega), Option.map_none,
      Option.map_none]

namespace Enumerator

variable (e : Enumerator) {next : Option Int}

theorem inRange_number_successor (hnext : ∀ n ∈ next, InRange n) :
    ∀ n ∈ (e.number next).bind successor, InRange n := by
  intro k hk
  obtain ⟨n, hn, hk⟩ := Option.bind_eq_some_iff.mp hk
  refine inRange_of_successor ?_ hk
  unfold number at hn
  cases hvalue : e.value with
  | none =>
      rw [hvalue] at hn
      exact (hnext n hn).1
  | some d =>
      rw [hvalue] at hn
      have hnumber := Option.some.inj hn
      omega

/-- What follows an enumerator is numbered next, in 64 bits. -/
theorem implicitValue_valueText (hnext : ∀ n ∈ next, InRange n) :
    implicitValue (some (e.valueText next)) =
      ((e.number next).bind successor).map Text.ofInt := by
  cases hvalue : e.value with
  | none =>
      simp only [valueText, number, hvalue]
      cases next with
      | none => rfl
      | some n =>
          rw [Option.map_some, Option.bind_some]
          exact implicitValue_ofInt (hnext n (Option.mem_some_self n))
  | some d =>
      simp only [valueText, number, hvalue]
      rw [Option.bind_some]
      exact implicitValue_digits d

end Enumerator

/-- The numbering goes on from what the enumerators so far have led to. -/
theorem enumMembersFrom_eq (es : List Enumerator)
    {previous : Option (Option Text)} {next : Option Int}
    (hnext : ∀ n ∈ next, InRange n)
    (h : implicitValue previous = next.map Text.ofInt) :
    Bindery.enumMembersFrom previous (es.map fun e =>
        ⟨e.name.text, e.value.map Digits.text, none⟩) =
      enumMembersFrom next es := by
  induction es generalizing previous next with
  | nil => rfl
  | cons e es ih =>
      have hvalue : (e.value.map Digits.text).or (implicitValue previous) =
          e.valueText next := by
        rw [h]
        unfold Enumerator.valueText
        cases e.value with
        | none => rfl
        | some n => rfl
      rw [List.map_cons, Bindery.enumMembersFrom, hvalue,
        ih (e.inRange_number_successor hnext)
          (e.implicitValue_valueText hnext)]
      rfl

/-- Words of 64 bits count like numbers as long as the greatest word has no
successor.  The two counts may differ while a number that is written stands
next. -/
theorem map_value_enumMembersFrom (es : List Enumerator)
    {next ordinal : Option Int}
    (hnext : ordinal ≠ some (2 ^ 63) → next = ordinal)
    (hcountable : ∀ x ∈ es.zip (ordinalsFrom ordinal es),
      x.1.value = none → x.2 ≠ some (2 ^ 63)) :
    (enumMembersFrom next es).map Member.value =
      (es.zip (ordinalsFrom ordinal es)).map fun x => x.1.valueText x.2 := by
  induction es generalizing next ordinal with
  | nil => rfl
  | cons e es ih =>
      rw [ordinalsFrom, List.zip_cons_cons] at hcountable ⊢
      simp only [List.mem_cons, forall_eq_or_imp] at hcountable
      have hnumber : e.number next = e.number ordinal := by
        cases hvalue : e.value with
        | some d => simp only [Enumerator.number, hvalue]
        | none =>
            have hordinal := hcountable.1 hvalue
            simp only [Enumerator.number, hvalue] at hordinal ⊢
            exact hnext hordinal
      have hvalue : e.valueText next = e.valueText (e.number ordinal) := by
        rw [← hnumber]
        cases hvalue : e.value with
        | some d => simp only [Enumerator.valueText, hvalue]
        | none => simp only [Enumerator.valueText, Enumerator.number, hvalue]
      rw [enumMembersFrom, List.map_cons, List.map_cons, hvalue, hnumber]
      refine congrArg _ (ih ?_ hcountable.2)
      cases e.number ordinal with
      | none => exact fun _ => rfl
      | some n =>
          intro hbound
          rw [Option.bind_some]
          by_cases hn : n < 2 ^ 63
          · have hcount : (some n).filter (· < 2 ^ 63) = some n := by
              rw [Option.filter_some, if_pos (decide_eq_true hn)]
            rw [hcount, Option.map_some] at hbound ⊢
            exact successor_of_lt (by
              have hne : n + 1 ≠ 2 ^ 63 := fun h => hbound (congrArg some h)
              omega)
          · have hcount : (some n).filter (· < 2 ^ 63) = none := by
              rw [Option.filter_some, if_neg (by simpa using hn)]
            rw [hcount, Option.map_none]
            exact successor_of_le (by omega)

theorem Countable.map_value {es : List Enumerator} (h : Countable es) :
    (enumMembersFrom (some 0) es).map Member.value =
      (counted es).map fun x => x.1.valueText x.2 :=
  map_value_enumMembersFrom es (fun _ => rfl) h

theorem braced_enumText (es : List Enumerator) : Braced (enumText es) := by
  apply Braced.plain
  intro c hc
  rcases List.mem_append.mp hc with hc | hc
  · rcases mem_listed hc with rfl | rfl | ⟨p, hp, hc⟩
    · decide
    · decide
    · obtain ⟨e, _, rfl⟩ := List.mem_map.mp hp
      rcases e.mem_text hc with hc | rfl | rfl
      · exact isPlain_of_isIdent hc
      · decide
      · decide
  · rw [List.mem_singleton.mp hc]
    decide

/-- The members of a written enumeration are its enumerators. -/
theorem enumMembers_text (es : List Enumerator) :
    enumMembers (Text.trim (enumText es)) = enumMembersFrom (some 0) es := by
  have hpieces : ∀ p ∈ es.map Enumerator.text, IsPiece p := by
    intro p hp
    obtain ⟨e, _, rfl⟩ := List.mem_map.mp hp
    exact e.isPiece_text
  have hparsed : (es.map Enumerator.text).filterMap
      Source.Enumerator.parse? = es.map fun e =>
        ⟨e.name.text, e.value.map Digits.text, none⟩ := by
    rw [List.filterMap_map, ← List.filterMap_eq_map]
    exact List.filterMap_congr fun e _ => e.parse?_text
  rw [enumMembers, enumText, trim_listed hpieces, splitList_commaed hpieces,
    hparsed]
  have hzero : ∀ n ∈ some (0 : Int), InRange n := by
    intro n hn
    rw [← Option.mem_some.mp hn]
    exact ⟨by decide, by decide⟩
  exact enumMembersFrom_eq es hzero rfl

theorem enumEntity?_text {f : Frame} {name : Identifier}
    (h : f.name? = some name) (scope : List Text) (doc : Option Text)
    (es : List Enumerator) :
    enumEntity? scope doc (f.compound (Text.trim (enumText es))) =
      some
        { category := .enum
          scope
          name := name.text
          description := doc
          members := enumMembersFrom (some 0) es } := by
  have hmembers : enumMembers
      (f.compound (Text.trim (enumText es))).body =
        enumMembersFrom (some 0) es :=
    enumMembers_text es
  rw [enumEntity?, f.resolvedName_compound h, Option.map_some, hmembers]

end Written

end Bindery
