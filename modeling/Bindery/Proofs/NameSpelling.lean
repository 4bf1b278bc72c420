import Bindery.Proofs.SharedBeginnings
import Mathlib

/-!
# When a beginning spells a name

`spellsName` moves through the name and the beginning at once.  Underscores of
the name are passed over first, and the comparison stops where either side
ends, so the underscores at the two ends are treated differently.  If the
beginning ends with underscores, those at the end of the name are all passed
over before the first of them is, and only one may be left.  If it does not,
the comparison stops behind its last letter, and at most one underscore of the
name may be left.

The comparison works in the same way over every alphabet with a mark that is
passed over.  Over the bytes of two texts it gives the same answer as over
their characters.
-/

namespace Bindery

namespace EnumPrefix

/-! ## Comparisons over an alphabet -/

section Alphabet

variable {α : Type} [DecidableEq α] (mark : α) (lower : α → α)

/-- What counts in a comparison. -/
def letters (s : List α) : List α := (s.filter (· ≠ mark)).map lower

/-- The number of marks that a sequence ends with. -/
def trailingMarks (s : List α) : Nat := (s.rtakeWhile (· = mark)).length

def dropMark : List α → List α
  | [] => []
  | c :: s => if c = mark then s else c :: s

/-- The comparison that `spellsName` makes. -/
def spells : (name lead : List α) → Bool
  | a :: name, b :: lead =>
    if a = mark then spells name (b :: lead)
    else if b = mark then spells (a :: name) lead
    else lower a = lower b && spells name lead
  | name, lead =>
    (dropMark mark name).isEmpty && (dropMark mark lead).isEmpty
termination_by name lead => name.length + lead.length

/-- The letters agree.  The beginning ends with one mark, or with none and the
name with at most one. -/
def Spelled (name lead : List α) : Prop :=
  letters mark lower name = letters mark lower lead ∧
    (trailingMarks mark lead = 1 ∨
      trailingMarks mark lead = 0 ∧ trailingMarks mark name ≤ 1)

variable {mark lower} {name lead s : List α} {a b c : α}

@[simp] theorem letters_nil : letters mark lower [] = [] := rfl

@[simp] theorem letters_mark_cons :
    letters mark lower (mark :: s) = letters mark lower s := by
  simp [letters]

theorem letters_cons (hc : c ≠ mark) :
    letters mark lower (c :: s) = lower c :: letters mark lower s := by
  simp [letters, hc]

theorem letters_append {r : List α} (h : ∀ c ∈ r, c ≠ mark ∧ lower c = c) :
    letters mark lower (r ++ s) = r ++ letters mark lower s := by
  induction r with
  | nil => rfl
  | cons c r ih =>
      obtain ⟨hc, hr⟩ := List.forall_mem_cons.mp h
      rw [List.cons_append, letters_cons hc.1, hc.2, ih hr, List.cons_append]

theorem letters_eq_nil_iff : letters mark lower s = [] ↔ ∀ c ∈ s, c = mark := by
  simp [letters]

@[simp] theorem trailingMarks_nil : trailingMarks mark [] = 0 := rfl

theorem trailingMarks_of_forall (h : ∀ c ∈ s, c = mark) :
    trailingMarks mark s = s.length := by
  have hall : s.rtakeWhile (· = mark) = s := by
    rw [List.rtakeWhile_eq_self_iff]
    simpa using h
  rw [trailingMarks, hall]

/-- A symbol at the beginning does not count among the marks at the end if it
is no mark, or if something else follows. -/
theorem trailingMarks_cons (h : c ≠ mark ∨ ¬ ∀ x ∈ s, x = mark) :
    trailingMarks mark (c :: s) = trailingMarks mark s := by
  rw [trailingMarks, trailingMarks, List.rtakeWhile, List.rtakeWhile,
    List.reverse_cons, List.takeWhile_append]
  split
  · next hlength =>
    have hself := (List.takeWhile_prefix _).eq_of_length hlength
    have hall : ∀ x ∈ s, x = mark := by
      simpa [List.takeWhile_eq_self_iff] using hself
    have hc : c ≠ mark := h.resolve_right fun hnot => hnot hall
    rw [hself]
    simp [hc]
  · rfl

theorem trailingMarks_concat_mark :
    trailingMarks mark (s ++ [mark]) = trailingMarks mark s + 1 := by
  simp [trailingMarks]

theorem trailingMarks_concat (hc : c ≠ mark) :
    trailingMarks mark (s ++ [c]) = 0 := by
  simp [trailingMarks, hc]

/-! ## One step of the comparison -/

theorem spelled_mark_cons_left :
    Spelled mark lower (mark :: name) (b :: lead) ↔
      Spelled mark lower name (b :: lead) := by
  unfold Spelled
  rw [letters_mark_cons]
  refine and_congr_right fun hletters => ?_
  by_cases hname : ∀ c ∈ name, c = mark
  · -- All is marks on both sides, so the beginning does not end without one.
    have hlead : ∀ c ∈ b :: lead, c = mark :=
      letters_eq_nil_iff.mp (hletters ▸ letters_eq_nil_iff.mpr hname)
    have hsome : trailingMarks mark (b :: lead) ≠ 0 := by
      rw [trailingMarks_of_forall hlead, List.length_cons]
      omega
    simp [hsome]
  · rw [trailingMarks_cons (.inr hname)]

theorem spelled_mark_cons_right (ha : a ≠ mark) :
    Spelled mark lower (a :: name) (mark :: lead) ↔
      Spelled mark lower (a :: name) lead := by
  unfold Spelled
  rw [letters_mark_cons]
  refine and_congr_right fun hletters => ?_
  have hlead : ¬ ∀ c ∈ lead, c = mark := by
    intro hall
    rw [letters_eq_nil_iff.mpr hall, letters_cons ha] at hletters
    exact List.cons_ne_nil _ _ hletters
  rw [trailingMarks_cons (.inr hlead)]

theorem spelled_cons_cons (ha : a ≠ mark) (hb : b ≠ mark) :
    Spelled mark lower (a :: name) (b :: lead) ↔
      lower a = lower b ∧ Spelled mark lower name lead := by
  unfold Spelled
  rw [letters_cons ha, letters_cons hb, trailingMarks_cons (.inl ha),
    trailingMarks_cons (.inl hb), List.cons.injEq, and_assoc]

theorem isEmpty_dropMark_iff :
    (dropMark mark s).isEmpty = true ↔
      (∀ c ∈ s, c = mark) ∧ trailingMarks mark s ≤ 1 := by
  have hlength : (∀ c ∈ s, c = mark) ∧ trailingMarks mark s ≤ 1 ↔
      (∀ c ∈ s, c = mark) ∧ s.length ≤ 1 :=
    and_congr_right fun h => by rw [trailingMarks_of_forall h]
  rw [hlength]
  rcases s with _ | ⟨c, _ | ⟨c', s⟩⟩
  · simp [dropMark]
  · by_cases hc : c = mark <;> simp [dropMark, hc]
  · by_cases hc : c = mark <;> simp [dropMark, hc]

/-- Where one side has ended, at most one mark may be left on the other. -/
theorem spelled_iff_of_end (h : name = [] ∨ lead = []) :
    Spelled mark lower name lead ↔
      (dropMark mark name).isEmpty = true ∧
        (dropMark mark lead).isEmpty = true := by
  unfold Spelled
  rw [isEmpty_dropMark_iff, isEmpty_dropMark_iff]
  rcases h with rfl | rfl
  · rw [letters_nil, eq_comm, letters_eq_nil_iff, trailingMarks_nil]
    constructor
    · rintro ⟨hlead, hmarks⟩
      exact ⟨⟨List.forall_mem_nil _, by omega⟩, hlead, by omega⟩
    · rintro ⟨_, hlead, hmarks⟩
      exact ⟨hlead, by omega⟩
  · rw [letters_nil, letters_eq_nil_iff, trailingMarks_nil]
    constructor
    · rintro ⟨hname, hmarks⟩
      exact ⟨⟨hname, by omega⟩, List.forall_mem_nil _, by omega⟩
    · rintro ⟨⟨hname, hmarks⟩, _⟩
      exact ⟨hname, .inr ⟨rfl, hmarks⟩⟩

theorem spells_iff :
    spells mark lower name lead = true ↔ Spelled mark lower name lead := by
  fun_induction spells mark lower name lead with
  | case1 name b lead ih => rw [ih, spelled_mark_cons_left]
  | case2 a name lead ha ih => rw [ih, spelled_mark_cons_right ha]
  | case3 a name b lead ha hb ih =>
      rw [Bool.and_eq_true, decide_eq_true_iff, ih, spelled_cons_cons ha hb]
  | case4 name lead hend =>
      rw [Bool.and_eq_true, spelled_iff_of_end]
      cases name with
      | nil => exact .inl rfl
      | cons a name =>
          cases lead with
          | nil => exact .inr rfl
          | cons b lead => exact absurd rfl (hend a name b lead rfl)

end Alphabet

theorem dropUnderscore_eq_dropMark (t : Text) :
    dropUnderscore t = dropMark '_' t := by
  unfold dropUnderscore
  split
  · simp [dropMark]
  · next hother =>
    cases t with
    | nil => rfl
    | cons c t =>
        have hc : c ≠ '_' := fun heq => hother t (by rw [heq])
        simp [dropMark, hc]

theorem spellsName_eq_spells (name lead : Text) :
    spellsName name lead = spells '_' Char.toLower name lead := by
  fun_induction spellsName name lead with
  | case1 name b lead ih => rw [ih, spells, if_pos rfl]
  | case2 a name lead ha ih => rw [ih, spells, if_neg ha, if_pos rfl]
  | case3 a name b lead ha hb ih =>
      rw [ih, spells, if_neg ha, if_neg hb]
  | case4 name lead hend =>
      rw [dropUnderscore_eq_dropMark, dropUnderscore_eq_dropMark, spells]
      exact hend

/-! ## Characters and bytes -/

abbrev underscore : UInt8 := '_'.toUInt8

/-- A byte with the letters of ASCII in lower case. -/
def lowerOctet (b : UInt8) : UInt8 :=
  if 'A'.toUInt8 ≤ b ∧ b ≤ 'Z'.toUInt8 then b + 32 else b

/-- The comparison of `spellsName`, byte by byte. -/
def spellsOctets (name lead : List UInt8) : Bool :=
  spells underscore lowerOctet name lead

open Text

theorem lowerOctet_ascii {c : Char} (hc : c.toNat < 128) :
    c.toLower.toNat < 128 ∧ lowerOctet c.toUInt8 = c.toLower.toUInt8 := by
  have hcodes : ∀ n < 128, (Char.ofNat n).toLower.toNat < 128 ∧
      lowerOctet (Char.ofNat n).toUInt8 = (Char.ofNat n).toLower.toUInt8 := by
    decide
  simpa using hcodes c.toNat hc

theorem toLower_of_le {c : Char} (hc : 128 ≤ c.toNat) : c.toLower = c := by
  have hupper : ¬ c.val ≤ 'Z'.val := by
    rw [UInt32.le_iff_toNat_le]
    exact Nat.not_le.mpr (Nat.lt_of_lt_of_le (by decide) hc)
  rw [Char.toLower, dif_neg fun h => hupper h.2]

theorem lowerOctet_of_le {b : UInt8} (hb : 128 ≤ b.toNat) :
    lowerOctet b = b := by
  have hupper : ¬ b ≤ 'Z'.toUInt8 := by
    rw [UInt8.le_iff_toNat_le]
    exact Nat.not_le.mpr (Nat.lt_of_lt_of_le (by decide) hb)
  rw [lowerOctet, if_neg fun h => hupper h.2]

theorem toUInt8_ne_underscore {c : Char} (hascii : c.toNat < 128)
    (hc : c ≠ '_') : c.toUInt8 ≠ underscore := by
  intro heq
  have hmem : '_'.toUInt8 ∈ String.utf8EncodeChar c := by
    rw [utf8EncodeChar_ascii hascii, heq]
    exact List.mem_singleton_self _
  exact hc (eq_of_mem_utf8EncodeChar (by decide) hmem)

theorem ne_underscore_of_mem {c : Char} (hc : 128 ≤ c.toNat) {b : UInt8}
    (hb : b ∈ String.utf8EncodeChar c) : b ≠ underscore := by
  rintro rfl
  exact absurd (le_of_mem_utf8EncodeChar hc hb) (by decide)

theorem letters_octets (t : Text) :
    letters underscore lowerOctet (octets t) =
      octets (letters '_' Char.toLower t) := by
  induction t with
  | nil => rfl
  | cons c t ih =>
      by_cases hascii : c.toNat < 128
      · rw [octets_cons_ascii hascii]
        by_cases hc : c = '_'
        · subst hc
          rw [letters_mark_cons, letters_mark_cons, ih]
        · obtain ⟨hlower, heq⟩ := lowerOctet_ascii hascii
          rw [letters_cons (toUInt8_ne_underscore hascii hc), letters_cons hc,
            octets_cons_ascii hlower, heq, ih]
      · have hle : 128 ≤ c.toNat := Nat.le_of_not_lt hascii
        have hc : c ≠ '_' := by
          rintro rfl
          exact hascii (by decide)
        rw [octets_cons, letters_cons hc, octets_cons, toLower_of_le hle, ← ih]
        exact letters_append fun b hb => ⟨ne_underscore_of_mem hle hb,
          lowerOctet_of_le (le_of_mem_utf8EncodeChar hle hb)⟩

theorem trailingMarks_octets (t : Text) :
    trailingMarks underscore (octets t) = trailingMarks '_' t := by
  -- The marks at the end are counted from the right, so the text grows there.
  induction t using List.reverseRecOn with
  | nil => rfl
  | append_singleton t c ih =>
      rw [octets_append, octets_cons, octets_nil, List.append_nil]
      by_cases hc : c = '_'
      · subst hc
        rw [utf8EncodeChar_ascii (by decide), trailingMarks_concat_mark,
          trailingMarks_concat_mark, ih]
      · obtain ⟨front, b, hencode⟩ :=
          (List.eq_nil_or_concat (String.utf8EncodeChar c)).resolve_left
            String.utf8EncodeChar_ne_nil
        have hb : b ≠ underscore := by
          rintro rfl
          exact hc (eq_of_mem_utf8EncodeChar (by decide) (by simp [hencode]))
        rw [hencode, List.concat_eq_append, ← List.append_assoc,
          trailingMarks_concat hb, trailingMarks_concat hc]

theorem octets_injective : Function.Injective octets := by
  intro x y h
  have hencode : x.utf8Encode = y.utf8Encode :=
    congrArg List.toByteArray h
  have hdecode := congrArg ByteArray.utf8Decode? hencode
  rw [List.utf8Decode?_utf8Encode, List.utf8Decode?_utf8Encode,
    Option.some.injEq] at hdecode
  exact congrArg Array.toList hdecode

/-- A beginning spells a name if the two have the same letters, underscores and
case apart, and the beginning ends with one underscore, or with none while the
name ends with at most one.  So it is for all sequences of bytes, and for texts
this is the comparison of their bytes. -/
theorem spellsName_compares_letters :
    (∀ name lead : List UInt8, spellsOctets name lead = true ↔
      letters underscore lowerOctet name = letters underscore lowerOctet lead ∧
        (trailingMarks underscore lead = 1 ∨
          trailingMarks underscore lead = 0 ∧
            trailingMarks underscore name ≤ 1)) ∧
    ∀ name lead : Text,
      spellsName name lead = spellsOctets (octets name) (octets lead) := by
  refine ⟨fun name lead => spells_iff, fun name lead => ?_⟩
  rw [spellsName_eq_spells, Bool.eq_iff_iff, spellsOctets, spells_iff,
    spells_iff]
  unfold Spelled
  rw [letters_octets, letters_octets, octets_injective.eq_iff,
    trailingMarks_octets, trailingMarks_octets]

end EnumPrefix

end Bindery
