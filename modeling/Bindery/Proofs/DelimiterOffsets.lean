import Bindery.Proofs.CodeBytes

/-!
# The offset of the matching delimiter

From an opening delimiter on, the bytes of code are counted: the delimiter
that matches is the first byte up to which there are as many closing
delimiters as opening ones.  In front of it more are opened than closed, so
the number of those that are open is never less than one.

The lexemes are followed one by one.  A delimiter changes the number of open
ones, and all other lexemes, comments among them, only take up bytes.
-/

namespace Bindery.Source

/-- The bytes of the delimiters, opening ones with those that close them. -/
def delimiters : List (UInt8 × UInt8) :=
  [('{'.toUInt8, '}'.toUInt8), ('('.toUInt8, ')'.toUInt8),
    ('['.toUInt8, ']'.toUInt8)]

/-- The byte at the index is code, and up to it all delimiters are closed:
those that were opened and `depth` more. -/
def ClosesAt (opening closing : UInt8) (depth : Nat)
    (code : List (Option UInt8)) (n : Nat) : Prop :=
  (∃ b, code[n]? = some (some b)) ∧
    depth + (code.take (n + 1)).count (some opening) =
      (code.take (n + 1)).count (some closing)

/-! ## One byte after another -/

section Counting

variable {opening closing : UInt8} {depth depth' n m : Nat}
  {x : Option UInt8} {code : List (Option UInt8)}

theorem closesAt_zero :
    ClosesAt opening closing depth (x :: code) 0 ↔
      (∃ b, x = some b) ∧
        depth + [x].count (some opening) = [x].count (some closing) := by
  simp [ClosesAt]

theorem closesAt_succ
    (h : depth + [x].count (some opening) =
      depth' + [x].count (some closing)) :
    ClosesAt opening closing depth (x :: code) (n + 1) ↔
      ClosesAt opening closing depth' code n := by
  unfold ClosesAt
  rw [List.getElem?_cons_succ, List.take_succ_cons,
    ← List.singleton_append, List.count_append, List.count_append]
  constructor
  · rintro ⟨hcode, hcount⟩
    exact ⟨hcode, by omega⟩
  · rintro ⟨hcode, hcount⟩
    exact ⟨hcode, by omega⟩

theorem isLeast_closesAt_cons
    (h : depth + [x].count (some opening) =
      depth' + [x].count (some closing)) (hdepth : 0 < depth') :
    IsLeast {n | ClosesAt opening closing depth (x :: code) n} m ↔
      ∃ k, m = k + 1 ∧
        IsLeast {n | ClosesAt opening closing depth' code n} k := by
  have hzero : ¬ ClosesAt opening closing depth (x :: code) 0 := by
    rw [closesAt_zero]
    rintro ⟨_, hcount⟩
    omega
  constructor
  · rintro ⟨hm, hleast⟩
    cases m with
    | zero => exact absurd hm hzero
    | succ k =>
        refine ⟨k, rfl, (closesAt_succ h).mp hm, ?_⟩
        intro n hn
        have hle := hleast ((closesAt_succ h).mpr hn)
        omega
  · rintro ⟨k, rfl, hk, hleast⟩
    refine ⟨(closesAt_succ h).mpr hk, ?_⟩
    intro n hn
    cases n with
    | zero => exact absurd hn hzero
    | succ n =>
        have hle := hleast ((closesAt_succ h).mp hn)
        omega

/-- Bytes that are no delimiters are passed over while something is open. -/
theorem isLeast_closesAt_append {others : List (Option UInt8)}
    (hopening : some opening ∉ others) (hclosing : some closing ∉ others) :
    IsLeast {n | ClosesAt opening closing (depth + 1) (others ++ code) n} m ↔
      ∃ k, m = others.length + k ∧
        IsLeast {n | ClosesAt opening closing (depth + 1) code n} k := by
  induction others generalizing m with
  | nil => simp
  | cons x others ih =>
      simp only [List.mem_cons, not_or] at hopening hclosing
      have hcount : depth + 1 + [x].count (some opening) =
          depth + 1 + [x].count (some closing) := by
        rw [List.count_eq_zero_of_not_mem (by simpa using hopening.1),
          List.count_eq_zero_of_not_mem (by simpa using hclosing.1)]
      rw [List.cons_append, isLeast_closesAt_cons hcount (Nat.succ_pos depth)]
      constructor
      · rintro ⟨k, rfl, hk⟩
        obtain ⟨k', rfl, hk'⟩ := (ih hopening.2 hclosing.2).mp hk
        exact ⟨k', by rw [List.length_cons]; omega, hk'⟩
      · rintro ⟨k, rfl, hk⟩
        exact ⟨others.length + k, by rw [List.length_cons]; omega,
          (ih hopening.2 hclosing.2).mpr ⟨k, rfl, hk⟩⟩

/-- As the number of open delimiters changes by one at a time, it comes to
zero before there are too many closing ones. -/
theorem exists_closesAt (hdepth : 0 < depth)
    (h : depth + (code.take (n + 1)).count (some opening) ≤
      (code.take (n + 1)).count (some closing)) :
    ∃ k ≤ n, ClosesAt opening closing depth code k := by
  induction code generalizing depth n with
  | nil =>
      simp only [List.take_nil, List.count_nil] at h
      omega
  | cons x code ih =>
      have hone : [x].count (some closing) ≤ 1 := List.count_le_length
      rw [List.take_succ_cons, ← List.singleton_append, List.count_append,
        List.count_append] at h
      by_cases hhere : depth + [x].count (some opening) =
          [x].count (some closing)
      · have hx : x = some closing := by
          by_contra hne
          rw [List.count_eq_zero_of_not_mem (a := some closing)
            (by simpa using Ne.symm hne)] at hhere
          omega
        exact ⟨0, Nat.zero_le n, closesAt_zero.mpr ⟨⟨closing, hx⟩, hhere⟩⟩
      · cases n with
        | zero =>
            simp only [List.take_zero, List.count_nil] at h
            omega
        | succ n =>
            obtain ⟨depth', hdepth'⟩ : ∃ depth',
                depth + [x].count (some opening) =
                  depth' + [x].count (some closing) :=
              ⟨depth + [x].count (some opening) - [x].count (some closing),
                by omega⟩
            obtain ⟨k, hk, hcloses⟩ := ih (by omega : 0 < depth')
              (by omega : depth' + (code.take (n + 1)).count (some opening) ≤
                (code.take (n + 1)).count (some closing))
            exact ⟨k + 1, by omega, (closesAt_succ hdepth').mpr hcloses⟩

end Counting

/-! ## One lexeme after another -/

/-- What matters about the characters of two delimiters. -/
structure IsPair (opening closing : Char) : Prop where
  opening_ascii : opening.toNat < 128
  closing_ascii : closing.toNat < 128
  ne : opening ≠ closing
  opening_ne : opening ≠ '\n' ∧ opening ≠ '/'
  closing_ne : closing ≠ '\n'
  mem : (opening.toUInt8, closing.toUInt8) ∈ delimiters

theorem isPair_of_closingOf {opening closing : Char}
    (h : closingOf opening = some closing) : IsPair opening closing := by
  unfold closingOf at h
  split at h
  · next hopening =>
    obtain rfl := Option.some.inj h
    rw [hopening]
    constructor <;> decide
  · split at h
    · next hopening =>
      obtain rfl := Option.some.inj h
      rw [hopening]
      constructor <;> decide
    · split at h
      · next hopening =>
        obtain rfl := Option.some.inj h
        rw [hopening]
        constructor <;> decide
      · contradiction

theorem exists_closingOf {opening closing : UInt8}
    (h : (opening, closing) ∈ delimiters) :
    ∃ a a' : Char, closingOf a = some a' ∧ opening = a.toUInt8 ∧
      closing = a'.toUInt8 := by
  simp only [delimiters, List.mem_cons, Prod.mk.injEq, List.not_mem_nil,
    or_false] at h
  rcases h with ⟨rfl, rfl⟩ | ⟨rfl, rfl⟩ | ⟨rfl, rfl⟩
  · exact ⟨'{', '}', rfl, rfl, rfl⟩
  · exact ⟨'(', ')', rfl, rfl, rfl⟩
  · exact ⟨'[', ']', rfl, rfl, rfl⟩

namespace IsPair

variable {opening closing : Char} (h : IsPair opening closing)

include h

theorem byte_ne : opening.toUInt8 ≠ closing.toUInt8 := by
  intro heq
  have hnat := congrArg UInt8.toNat heq
  rw [Text.toNat_toUInt8 h.opening_ascii, Text.toNat_toUInt8 h.closing_ascii]
    at hnat
  exact h.ne (Char.toNat_inj.mp hnat)

theorem count_opening (depth : Nat) :
    depth + [some opening.toUInt8].count (some opening.toUInt8) =
      depth + 1 + [some opening.toUInt8].count (some closing.toUInt8) := by
  have hne : some opening.toUInt8 ≠ some closing.toUInt8 := by
    simpa using h.byte_ne
  simp [hne]

theorem count_closing (depth : Nat) :
    depth + 1 + [some closing.toUInt8].count (some opening.toUInt8) =
      depth + [some closing.toUInt8].count (some closing.toUInt8) := by
  have hne : some closing.toUInt8 ≠ some opening.toUInt8 := by
    simpa using Ne.symm h.byte_ne
  simp [hne]

/-- A lexeme that does not end the search is passed over.  The search goes on
behind its bytes with another number of open delimiters. -/
theorem passes {l : Lexeme} {depth : Nat}
    (hl : l = .code closing → depth ≠ 0) (ls : List Lexeme) :
    ∃ depth',
      (∀ inside rest,
        enclosedLexemes opening closing depth (l :: ls) = some (inside, rest) ↔
          ∃ inside', inside = l :: inside' ∧
            enclosedLexemes opening closing depth' ls = some (inside', rest)) ∧
      ∀ m, IsLeast {n | ClosesAt opening.toUInt8 closing.toUInt8 (depth + 1)
          (Lexeme.codeBytesOf (l :: ls)) n} m ↔
        ∃ k, m = l.codeBytes.length + k ∧
          IsLeast {n | ClosesAt opening.toUInt8 closing.toUInt8 (depth' + 1)
            (Lexeme.codeBytesOf ls) n} k := by
  have hcomm (k : Nat) : k + 1 = 1 + k := Nat.add_comm k 1
  by_cases hclosing : l = .code closing
  · obtain ⟨depth', rfl⟩ := Nat.exists_eq_succ_of_ne_zero (hl hclosing)
    refine ⟨depth', fun inside rest => ?_, fun m => ?_⟩
    · rw [hclosing, enclosedLexemes_closing_succ, Option.map_eq_some_iff]
      grind
    · rw [hclosing, codeBytesOf_cons, codeBytes_code h.closing_ascii,
        List.singleton_append, isLeast_closesAt_cons
          (h.count_closing (depth' + 1)) (Nat.succ_pos depth')]
      simp only [hcomm, List.length_singleton]
  · by_cases hopening : l = .code opening
    · refine ⟨depth + 1, fun inside rest => ?_, fun m => ?_⟩
      · rw [enclosedLexemes_other hclosing, if_pos hopening,
          Option.map_eq_some_iff]
        grind
      · rw [hopening, codeBytesOf_cons, codeBytes_code h.opening_ascii,
          List.singleton_append, isLeast_closesAt_cons
            (h.count_opening (depth + 1)) (Nat.succ_pos (depth + 1))]
        simp only [hcomm, List.length_singleton]
    · refine ⟨depth, fun inside rest => ?_, fun m => ?_⟩
      · rw [enclosedLexemes_other hclosing, if_neg hopening,
          Option.map_eq_some_iff]
        grind
      · rw [codeBytesOf_cons]
        exact isLeast_closesAt_append
          (notMem_codeBytes h.opening_ascii h.opening_ne.1 hopening)
          (notMem_codeBytes h.closing_ascii h.closing_ne hclosing)

/-- The closing delimiter that leaves `depth` open ones stands behind the
lexemes that it encloses. -/
theorem isLeast_closesAt_iff {depth m : Nat} {ls : List Lexeme} :
    IsLeast {n | ClosesAt opening.toUInt8 closing.toUInt8 (depth + 1)
        (Lexeme.codeBytesOf ls) n} m ↔
      ∃ inside rest,
        enclosedLexemes opening closing depth ls = some (inside, rest) ∧
        m = (Lexeme.codeBytesOf inside).length := by
  induction ls generalizing depth m with
  | nil =>
      constructor
      · rintro ⟨⟨⟨b, hb⟩, _⟩, _⟩
        simp [Lexeme.codeBytesOf] at hb
      · rintro ⟨_, _, hnone, _⟩
        simp [enclosedLexemes] at hnone
  | cons l ls ih =>
      by_cases hfound : l = .code closing ∧ depth = 0
      · obtain ⟨rfl, rfl⟩ := hfound
        rw [codeBytesOf_cons, codeBytes_code h.closing_ascii,
          List.singleton_append, enclosedLexemes_closing_zero]
        have hzero : ClosesAt opening.toUInt8 closing.toUInt8 (0 + 1)
            (some closing.toUInt8 :: Lexeme.codeBytesOf ls) 0 :=
          closesAt_zero.mpr ⟨⟨_, rfl⟩, by rw [h.count_closing, Nat.zero_add]⟩
        constructor
        · intro hm
          exact ⟨[], ls, rfl, Nat.le_zero.mp (hm.2 hzero)⟩
        · rintro ⟨inside, rest, heq, rfl⟩
          simp only [Option.some.injEq, Prod.mk.injEq] at heq
          rw [← heq.1]
          exact ⟨hzero, fun n _ => Nat.zero_le n⟩
      · obtain ⟨depth', hscan, hshift⟩ :=
          h.passes (fun hl hzero => hfound ⟨hl, hzero⟩) ls
        simp only [hshift, hscan]
        constructor
        · rintro ⟨k, rfl, hk⟩
          obtain ⟨inside, rest, hrec, rfl⟩ := ih.mp hk
          refine ⟨l :: inside, rest, ⟨inside, rfl, hrec⟩, ?_⟩
          rw [codeBytesOf_cons, List.length_append]
        · rintro ⟨_, rest, ⟨inside, rfl, hrec⟩, rfl⟩
          rw [codeBytesOf_cons, List.length_append]
          exact ⟨_, rfl, ih.mpr ⟨inside, rest, hrec, rfl⟩⟩

end IsPair

/-! ## Offsets into a text -/

theorem exists_of_dropBytes? {n : Nat} {t u : Text}
    (h : dropBytes? n t = some u) :
    ∃ lead, t = lead ++ u ∧ Text.utf8Size lead = n := by
  fun_induction dropBytes? n t with
  | case1 t => exact ⟨[], by simpa using h, rfl⟩
  | case2 n => contradiction
  | case3 n c t hle ih =>
      obtain ⟨lead, rfl, hsize⟩ := ih h
      refine ⟨c :: lead, rfl, ?_⟩
      rw [Text.utf8Size, hsize]
      omega
  | case4 n c t hlt => contradiction

/-- The delimiter at an offset and the text on both sides of it. -/
structure DelimiterAt (t : Text) (start : Nat) (opening closing : Char)
    (lead after : Text) : Prop where
  text_eq : t = lead ++ opening :: after
  size_eq : Text.utf8Size lead = start
  closing_eq : closingOf opening = some closing

theorem exists_delimiterAt_of_match {t : Text} {start offset : Nat}
    (h : matchingDelimiter t start = some offset) :
    ∃ opening closing lead after,
      DelimiterAt t start opening closing lead after := by
  simp only [matchingDelimiter, Option.bind_eq_bind, Option.bind_eq_some_iff]
    at h
  obtain ⟨u, hdrop, h⟩ := h
  obtain ⟨lead, htext, hsize⟩ := exists_of_dropBytes? hdrop
  cases u with
  | nil => contradiction
  | cons opening after =>
      simp only [Option.bind_eq_some_iff] at h
      obtain ⟨⟨inside, rest⟩, henclosed, _⟩ := h
      obtain ⟨closing, hclosing, _⟩ := enclosed_eq henclosed
      exact ⟨opening, closing, lead, after, htext, hsize, hclosing⟩

theorem exists_delimiterAt_of_byte {t : Text} {start : Nat}
    {opening closing : UInt8} (hpair : (opening, closing) ∈ delimiters)
    (hbyte : t.octets[start]? = some opening) :
    ∃ a a' lead after, DelimiterAt t start a a' lead after ∧
      opening = a.toUInt8 ∧ closing = a'.toUInt8 := by
  obtain ⟨a, a', hclosing, rfl, rfl⟩ := exists_closingOf hpair
  obtain ⟨hlt, hget⟩ := List.getElem?_eq_some_iff.mp hbyte
  have hsplit : t.octets = t.octets.take start ++
      a.toUInt8 :: t.octets.drop (start + 1) := by
    rw [← hget, ← List.drop_eq_getElem_cons hlt, List.take_append_drop]
  obtain ⟨lead, after, htext, hlead, _⟩ := Text.cut_of_octets
    (isPair_of_closingOf hclosing).opening_ascii hsplit
  refine ⟨a, a', lead, after, ⟨htext, ?_, hclosing⟩, rfl, rfl⟩
  rw [← Text.length_octets, hlead, List.length_take]
  omega

namespace DelimiterAt

variable {t lead after : Text} {start : Nat} {opening closing : Char}
  (h : DelimiterAt t start opening closing lead after)

include h

theorem octets_eq :
    t.octets = lead.octets ++ opening.toUInt8 :: after.octets := by
  rw [h.text_eq, Text.octets_append, Text.octets_cons_ascii
    (isPair_of_closingOf h.closing_eq).opening_ascii]

theorem byte_eq : t.octets[start]? = some opening.toUInt8 := by
  rw [h.octets_eq, ← h.size_eq, ← Text.length_octets,
    List.getElem?_append_right (Nat.le_refl _), Nat.sub_self]
  rfl

theorem uncommented {code : List (Option UInt8)}
    (hcode : Uncommented (t.octets.drop start) code) :
    code = some opening.toUInt8 :: Lexeme.codeBytesOf (lex after) := by
  have hpair := isPair_of_closingOf h.closing_eq
  have hdrop : t.octets.drop start = Text.octets (opening :: after) := by
    rw [h.octets_eq, ← h.size_eq, ← Text.length_octets, List.drop_left,
      Text.octets_cons_ascii hpair.opening_ascii]
  rw [hdrop, uncommented_octets_iff, lex_cons_of_ne hpair.opening_ne.2,
    codeBytesOf_cons, codeBytes_code hpair.opening_ascii] at hcode
  exact hcode

/-- The match of a delimiter is the first byte of code up to which as many are
closed as are opened. -/
theorem match_iff {offset : Nat} :
    matchingDelimiter t start = some offset ↔
      ∃ n, offset = start + n ∧
        IsLeast {n | ClosesAt opening.toUInt8 closing.toUInt8 0
          (some opening.toUInt8 :: Lexeme.codeBytesOf (lex after)) n} n := by
  have hpair := isPair_of_closingOf h.closing_eq
  have hsize (inside : List Lexeme) :
      Text.utf8Size (lead ++ opening :: Lexeme.textOf inside) =
        start + (1 + (Lexeme.codeBytesOf inside).length) := by
    rw [← Text.length_octets, Text.octets_append,
      Text.octets_cons_ascii hpair.opening_ascii, List.length_append,
      List.length_cons, Text.length_octets, Text.length_octets,
      length_codeBytesOf, h.size_eq]
    omega
  have hmatch : matchingDelimiter t start = some offset ↔
      ∃ inside rest,
        enclosedLexemes opening closing 0 (lex after) = some (inside, rest) ∧
        offset = start + (1 + (Lexeme.codeBytesOf inside).length) := by
    rw [h.text_eq, ← h.size_eq, matchingDelimiter_append, h.size_eq]
    simp only [enclosed, h.closing_eq, Option.bind_eq_bind, Option.bind_some]
    constructor
    · intro hfound
      obtain ⟨parts, hparts, rfl⟩ := Option.map_eq_some_iff.mp hfound
      obtain ⟨⟨inside, rest⟩, hlexemes, heq⟩ :=
        Option.bind_eq_some_iff.mp hparts
      obtain rfl := Option.some.inj heq
      exact ⟨inside, rest, hlexemes, hsize inside⟩
    · rintro ⟨inside, rest, hlexemes, rfl⟩
      rw [hlexemes, ← hsize]
      rfl
  rw [hmatch]
  simp only [isLeast_closesAt_cons (hpair.count_opening 0) Nat.one_pos,
    hpair.isLeast_closesAt_iff]
  constructor
  · rintro ⟨inside, rest, hfound, rfl⟩
    exact ⟨_, by rw [Nat.add_comm 1], _, rfl, inside, rest, hfound, rfl⟩
  · rintro ⟨_, rfl, _, rfl, inside, rest, hfound, rfl⟩
    exact ⟨inside, rest, hfound, by rw [Nat.add_comm 1]⟩

theorem match_range {offset : Nat}
    (hmatch : matchingDelimiter t start = some offset) :
    start < offset ∧ offset < t.octets.length := by
  have hpair := isPair_of_closingOf h.closing_eq
  have hlength : t.octets.length = start + (1 + Text.utf8Size after) := by
    rw [h.octets_eq, List.length_append, List.length_cons, Text.length_octets,
      Text.length_octets, h.size_eq, Nat.add_comm 1]
  obtain ⟨n, rfl, hcloses, _⟩ := h.match_iff.mp hmatch
  obtain ⟨b, hb⟩ := hcloses.1
  have hlt := (List.getElem?_eq_some_iff.mp hb).1
  rw [List.length_cons, length_codeBytesOf, textOf_lex] at hlt
  cases n with
  | zero =>
      have hfirst := hpair.count_opening 0
      have hcount := (closesAt_zero.mp hcloses).2
      omega
  | succ n => omega

/-- As long as the match has not been reached, more delimiters are opened than
closed. -/
theorem count_lt {n : Nat}
    (hbefore : ∀ offset, matchingDelimiter t start = some offset →
      start + n < offset) :
    ((some opening.toUInt8 :: Lexeme.codeBytesOf (lex after)).take
        (n + 1)).count (some closing.toUInt8) <
      ((some opening.toUInt8 :: Lexeme.codeBytesOf (lex after)).take
        (n + 1)).count (some opening.toUInt8) := by
  have hpair := isPair_of_closingOf h.closing_eq
  have hfirst := hpair.count_opening 0
  by_contra hnot
  -- Then all delimiters are closed somewhere up to `n`.
  obtain ⟨k, hk, hcloses⟩ : ∃ k ≤ n,
      ClosesAt opening.toUInt8 closing.toUInt8 0
        (some opening.toUInt8 :: Lexeme.codeBytesOf (lex after)) k := by
    rw [List.take_succ_cons, ← List.singleton_append, List.count_append,
      List.count_append] at hnot
    cases n with
    | zero =>
        simp only [List.take_zero, List.count_nil] at hnot
        omega
    | succ n =>
        obtain ⟨k, hk, hcloses⟩ := exists_closesAt Nat.one_pos
          (by omega : 1 + ((Lexeme.codeBytesOf (lex after)).take
              (n + 1)).count (some opening.toUInt8) ≤
            ((Lexeme.codeBytesOf (lex after)).take
              (n + 1)).count (some closing.toUInt8))
        exact ⟨k + 1, by omega, (closesAt_succ hfirst).mpr hcloses⟩
  classical
  have hexists : ∃ k, ClosesAt opening.toUInt8 closing.toUInt8 0
      (some opening.toUInt8 :: Lexeme.codeBytesOf (lex after)) k :=
    ⟨k, hcloses⟩
  have hleast := Nat.isLeast_find hexists
  have hfound := hbefore _ (h.match_iff.mpr ⟨_, rfl, hleast⟩)
  have hle := hleast.2 hcloses
  omega

end DelimiterAt

/-- The bytes from an offset on can be taken apart into code and comments in
one way.  A delimiter is matched exactly if there is an opening one at the
offset, and its match is the least offset outside comments up to which as many
are closed as are opened, counted in code.  It lies inside the text, and at
every offset in front of it at least one delimiter is open. -/
theorem matchingDelimiter_least (t : Text) (start : Nat) :
    (∃! code, Uncommented (t.octets.drop start) code) ∧
    ∀ code, Uncommented (t.octets.drop start) code →
      (∀ offset, matchingDelimiter t start = some offset ↔
        ∃ opening closing n, (opening, closing) ∈ delimiters ∧
          t.octets[start]? = some opening ∧ offset = start + n ∧
          IsLeast {n | ClosesAt opening closing 0 code n} n) ∧
      (∀ offset, matchingDelimiter t start = some offset →
        start < offset ∧ offset < t.octets.length) ∧
      ∀ opening closing, (opening, closing) ∈ delimiters →
        t.octets[start]? = some opening →
        ∀ n, (∀ offset, matchingDelimiter t start = some offset →
            start + n < offset) →
          (code.take (n + 1)).count (some closing) <
            (code.take (n + 1)).count (some opening) := by
  constructor
  · obtain ⟨code, hcode⟩ := exists_uncommented (t.octets.drop start)
    exact ⟨code, hcode, fun _ hcode' => hcode'.unique hcode⟩
  · intro code hcode
    have hiff : ∀ offset, matchingDelimiter t start = some offset ↔
        ∃ opening closing n, (opening, closing) ∈ delimiters ∧
          t.octets[start]? = some opening ∧ offset = start + n ∧
          IsLeast {n | ClosesAt opening closing 0 code n} n := by
      intro offset
      constructor
      · intro hmatch
        obtain ⟨a, a', lead, after, hat⟩ := exists_delimiterAt_of_match hmatch
        obtain ⟨n, hoffset, hleast⟩ := hat.match_iff.mp hmatch
        rw [← hat.uncommented hcode] at hleast
        exact ⟨_, _, n, (isPair_of_closingOf hat.closing_eq).mem, hat.byte_eq,
          hoffset, hleast⟩
      · rintro ⟨opening, closing, n, hpair, hbyte, hoffset, hleast⟩
        obtain ⟨a, a', lead, after, hat, rfl, rfl⟩ :=
          exists_delimiterAt_of_byte hpair hbyte
        rw [hat.uncommented hcode] at hleast
        exact hat.match_iff.mpr ⟨n, hoffset, hleast⟩
    refine ⟨hiff, ?_, ?_⟩
    · intro offset hmatch
      obtain ⟨a, a', lead, after, hat⟩ := exists_delimiterAt_of_match hmatch
      exact hat.match_range hmatch
    · intro opening closing hpair hbyte n hbefore
      obtain ⟨a, a', lead, after, hat, rfl, rfl⟩ :=
        exists_delimiterAt_of_byte hpair hbyte
      rw [hat.uncommented hcode]
      exact hat.count_lt hbefore

/-- Offsets count bytes, and delimiters in comments do not count. -/
theorem matchingDelimiter_least_nested :
    let t : Text := "é(a /*)*/, (b) // )\n)"
    matchingDelimiter t 2 = some 21 ∧
      ∃ code, Uncommented (t.octets.drop 2) code ∧
        IsLeast {n | ClosesAt '('.toUInt8 ')'.toUInt8 0 code n} 19 := by
  intro t
  have hmatch : matchingDelimiter t 2 = some 21 := by decide +kernel
  have hbyte : t.octets[2]? = some '('.toUInt8 := by decide +kernel
  obtain ⟨⟨code, hcode, _⟩, hall⟩ := matchingDelimiter_least t 2
  obtain ⟨opening, closing, n, hpair, hopening, hoffset, hleast⟩ :=
    ((hall code hcode).1 21).mp hmatch
  rw [hbyte, Option.some.injEq] at hopening
  subst opening
  obtain rfl : n = 19 := by omega
  have hclosing : closing = ')'.toUInt8 := by
    have hbrace : '('.toUInt8 ≠ '{'.toUInt8 := by decide
    have hbracket : '('.toUInt8 ≠ '['.toUInt8 := by decide
    simpa [delimiters, hbrace, hbracket] using hpair
  rw [hclosing] at hleast
  exact ⟨hmatch, code, hcode, hleast⟩

end Bindery.Source
