import Bindery.Proofs.Brackets

/-!
# Code and comments, byte by byte

Offsets into a text count bytes.  `Uncommented` says which bytes of a sequence
are code, by rules of its own: what begins a comment, and where the comment
ends.  Every sequence of bytes can be taken apart by these rules in one way
only, and for the bytes of a text this is how `lex` takes the text apart.  The
line feed behind a line comment is code here, while `lex` keeps it with the
comment.

Only characters of ASCII matter to comments.  In UTF-8 their bytes stand for
nothing else.
-/

namespace Bindery

namespace Text

/-- The bytes of a text in UTF-8. -/
def octets (t : Text) : List UInt8 := t.flatMap String.utf8EncodeChar

@[simp] theorem octets_nil : octets [] = [] := rfl

@[simp] theorem octets_cons (c : Char) (t : Text) :
    octets (c :: t) = String.utf8EncodeChar c ++ octets t :=
  List.flatMap_cons

@[simp] theorem octets_append (x y : Text) :
    octets (x ++ y) = octets x ++ octets y :=
  List.flatMap_append

@[simp] theorem length_octets (t : Text) : (octets t).length = utf8Size t := by
  induction t with
  | nil => rfl
  | cons c t ih =>
      rw [octets_cons, List.length_append, String.length_utf8EncodeChar, ih,
        utf8Size]

theorem utf8EncodeChar_ascii {a : Char} (ha : a.toNat < 128) :
    String.utf8EncodeChar a = [a.toUInt8] := by
  apply String.utf8EncodeChar_eq_singleton
  rw [Char.utf8Size_eq_one_iff, UInt32.le_iff_toNat_le]
  exact Nat.le_of_lt_succ ha

theorem octets_cons_ascii {a : Char} (ha : a.toNat < 128) (t : Text) :
    octets (a :: t) = a.toUInt8 :: octets t := by
  rw [octets_cons, utf8EncodeChar_ascii ha, List.singleton_append]

theorem le_of_mem_utf8EncodeChar {c : Char} (hc : 128 ≤ c.toNat) {b : UInt8}
    (hb : b ∈ String.utf8EncodeChar c) : 128 ≤ b.toNat := by
  have hbyte {n : Nat} (hlow : 128 ≤ n) (hhigh : n < 256) :
      128 ≤ (UInt8.ofNat n).toNat := by
    rw [UInt8.toNat_ofNat', Nat.mod_eq_of_lt hhigh]
    exact hlow
  have hlarge : ¬ c.val.toNat ≤ 127 := by
    change ¬ c.toNat ≤ 127
    omega
  unfold String.utf8EncodeChar at hb
  simp only [hlarge, if_false] at hb
  split at hb
  · simp only [List.mem_cons, List.not_mem_nil, or_false] at hb
    rcases hb with rfl | rfl
    all_goals exact hbyte (by omega) (by omega)
  · split at hb
    · simp only [List.mem_cons, List.not_mem_nil, or_false] at hb
      rcases hb with rfl | rfl | rfl
      all_goals exact hbyte (by omega) (by omega)
    · simp only [List.mem_cons, List.not_mem_nil, or_false] at hb
      rcases hb with rfl | rfl | rfl | rfl
      all_goals exact hbyte (by omega) (by omega)

theorem toNat_toUInt8 {a : Char} (ha : a.toNat < 128) :
    a.toUInt8.toNat = a.toNat := by
  change a.toNat % 256 = a.toNat
  omega

/-- The byte of a character of ASCII stands for no other character. -/
theorem eq_of_mem_utf8EncodeChar {a c : Char} (ha : a.toNat < 128)
    (h : a.toUInt8 ∈ String.utf8EncodeChar c) : c = a := by
  have hsame := toNat_toUInt8 ha
  by_cases hc : c.toNat < 128
  · rw [utf8EncodeChar_ascii hc, List.mem_singleton] at h
    rw [h, toNat_toUInt8 hc] at hsame
    exact Char.toNat_inj.mp hsame
  · have hle := le_of_mem_utf8EncodeChar (by omega) h
    omega

/-- Where the byte of a character of ASCII stands, the text can be cut. -/
theorem cut_of_octets {a : Char} (ha : a.toNat < 128) {t : Text}
    {s r : List UInt8} (h : octets t = s ++ a.toUInt8 :: r) :
    ∃ x y, t = x ++ a :: y ∧ octets x = s ∧ octets y = r := by
  induction t generalizing s with
  | nil => simp at h
  | cons c t ih =>
      rw [octets_cons] at h
      rcases List.append_eq_append_iff.mp h with ⟨z, hs, hz⟩ | ⟨z, hs, hz⟩
      · obtain ⟨x, y, rfl, rfl, rfl⟩ := ih hz
        exact ⟨c :: x, y, rfl, by rw [octets_cons, hs], rfl⟩
      · cases z with
        | nil =>
            rw [List.nil_append] at hz
            obtain ⟨x, y, rfl, hx, rfl⟩ := ih (s := []) hz.symm
            rw [List.append_nil] at hs
            exact ⟨c :: x, y, rfl, by rw [octets_cons, hx, List.append_nil, hs],
              rfl⟩
        | cons b z =>
            rw [List.cons_append, List.cons.injEq] at hz
            obtain ⟨rfl, rfl⟩ := hz
            have hc : c = a := eq_of_mem_utf8EncodeChar ha (by rw [hs]; simp)
            subst c
            rw [utf8EncodeChar_ascii ha] at hs
            have hlength := congrArg List.length hs
            simp only [List.length_append, List.length_cons,
              List.length_nil] at hlength
            obtain rfl : s = [] := List.length_eq_zero_iff.mp (by omega)
            obtain rfl : z = [] := List.length_eq_zero_iff.mp (by omega)
            exact ⟨[], t, rfl, rfl, rfl⟩

theorem mem_of_mem_octets {a : Char} (ha : a.toNat < 128) {t : Text}
    (h : a.toUInt8 ∈ octets t) : a ∈ t := by
  obtain ⟨s, r, hsplit⟩ := List.append_of_mem h
  obtain ⟨x, y, rfl, _, _⟩ := cut_of_octets ha hsplit
  simp

/-- Neighbours of ASCII among the bytes are neighbours in the text. -/
theorem infix_of_infix_octets {a b : Char} (ha : a.toNat < 128)
    (hb : b.toNat < 128) {t : Text}
    (h : [a.toUInt8, b.toUInt8] <:+: octets t) : [a, b] <:+: t := by
  obtain ⟨s, r, hsplit⟩ := h
  rw [List.append_assoc] at hsplit
  obtain ⟨x, y, rfl, _, hy⟩ := cut_of_octets ha hsplit.symm
  obtain ⟨x', y', rfl, hx', _⟩ := cut_of_octets (s := []) hb hy
  have hnil : x' = [] := by
    apply Source.eq_nil_of_utf8Size
    rw [← length_octets, hx', List.length_nil]
  rw [hnil]
  exact ⟨x, y', by simp⟩

end Text

namespace Source

abbrev slash : UInt8 := '/'.toUInt8

abbrev star : UInt8 := '*'.toUInt8

abbrev lineFeed : UInt8 := '\n'.toUInt8

def StartsComment (bytes : List UInt8) : Prop :=
  [slash, slash] <+: bytes ∨ [slash, star] <+: bytes

/-- What is left of a sequence of bytes that begins in code, if the bytes of
comments are blanked out.  A line comment goes up to the next line feed or the
end, a block comment to the first star and slash behind its opening two bytes
or to the end. -/
inductive Uncommented : List UInt8 → List (Option UInt8) → Prop
  | done : Uncommented [] []
  | code {b : UInt8} {bytes : List UInt8} {code : List (Option UInt8)} :
      ¬ StartsComment (b :: bytes) → Uncommented bytes code →
      Uncommented (b :: bytes) (some b :: code)
  | lineComment {body bytes : List UInt8} {code : List (Option UInt8)} :
      lineFeed ∉ body → (∀ b ∈ bytes.head?, b = lineFeed) →
      Uncommented bytes code →
      Uncommented (slash :: slash :: (body ++ bytes))
        (List.replicate (body.length + 2) none ++ code)
  | blockComment {body bytes : List UInt8} {code : List (Option UInt8)} :
      ¬ [star, slash] <:+: body → Uncommented bytes code →
      Uncommented (slash :: star :: (body ++ star :: slash :: bytes))
        (List.replicate (body.length + 4) none ++ code)
  | openComment {body : List UInt8} :
      ¬ [star, slash] <:+: body →
      Uncommented (slash :: star :: body)
        (List.replicate (body.length + 2) none)

/-! ## One way to take bytes apart -/

theorem exists_first_end {bytes : List UInt8}
    (h : [star, slash] <:+: bytes) :
    ∃ body rest, bytes = body ++ star :: slash :: rest ∧
      ¬ [star, slash] <:+: body := by
  induction bytes with
  | nil => simp at h
  | cons b bytes ih =>
      by_cases hhere : [star, slash] <+: b :: bytes
      · obtain ⟨rest, hrest⟩ := hhere
        exact ⟨[], rest, hrest.symm, by simp⟩
      · have hlater := (List.infix_cons_iff.mp h).resolve_left hhere
        obtain ⟨body, rest, rfl, hbody⟩ := ih hlater
        refine ⟨b :: body, rest, rfl, ?_⟩
        intro hinfix
        rcases List.infix_cons_iff.mp hinfix with hstart | hinfix
        · exact hhere (hstart.trans (List.prefix_append (b :: body) _))
        · exact hbody hinfix

theorem exists_uncommented (bytes : List UInt8) :
    ∃ code, Uncommented bytes code := by
  induction hn : bytes.length using Nat.strong_induction_on
    generalizing bytes with
  | _ n ih =>
      by_cases hline : [slash, slash] <+: bytes
      · obtain ⟨u, rfl⟩ := hline
        have hshort : (u.dropWhile (· != lineFeed)).length < n := by
          have hle := (List.dropWhile_suffix (l := u) (· != lineFeed)).length_le
          simp only [List.cons_append, List.nil_append, List.length_cons] at hn
          omega
        have hbody : lineFeed ∉ u.takeWhile (· != lineFeed) := by
          intro hmem
          have hne := List.mem_takeWhile_imp hmem
          simp at hne
        have hend : ∀ b ∈ (u.dropWhile (· != lineFeed)).head?,
            b = lineFeed := by
          intro b hb
          have hstop := List.head?_dropWhile_not (· != lineFeed) u
          rw [Option.mem_def.mp hb] at hstop
          simpa using hstop
        obtain ⟨code, hcode⟩ := ih _ hshort _ rfl
        have hcomment := Uncommented.lineComment hbody hend hcode
        rw [List.takeWhile_append_dropWhile] at hcomment
        exact ⟨_, hcomment⟩
      · by_cases hblock : [slash, star] <+: bytes
        · obtain ⟨u, rfl⟩ := hblock
          by_cases hend : [star, slash] <:+: u
          · obtain ⟨body, rest, rfl, hbody⟩ := exists_first_end hend
            have hshort : rest.length < n := by
              simp only [List.cons_append, List.length_cons,
                List.length_append] at hn
              omega
            obtain ⟨code, hcode⟩ := ih _ hshort _ rfl
            exact ⟨_, .blockComment hbody hcode⟩
          · exact ⟨_, .openComment hend⟩
        · cases bytes with
          | nil => exact ⟨[], .done⟩
          | cons b bytes =>
              obtain ⟨code, hcode⟩ := ih bytes.length
                (by rw [← hn, List.length_cons]; omega) bytes rfl
              exact ⟨_, .code (not_or.mpr ⟨hline, hblock⟩) hcode⟩

namespace Uncommented

variable {b : UInt8} {bytes : List UInt8} {code : List (Option UInt8)}

theorem of_code (h : Uncommented (b :: bytes) code)
    (hb : ¬ StartsComment (b :: bytes)) :
    ∃ code', code = some b :: code' ∧ Uncommented bytes code' := by
  cases h with
  | code _ h => exact ⟨_, rfl, h⟩
  | lineComment => exact absurd (.inl ⟨_, rfl⟩) hb
  | blockComment => exact absurd (.inr ⟨_, rfl⟩) hb
  | openComment => exact absurd (.inr ⟨_, rfl⟩) hb

theorem of_line (h : Uncommented (slash :: slash :: bytes) code) :
    ∃ body rest code', bytes = body ++ rest ∧ lineFeed ∉ body ∧
      (∀ b ∈ rest.head?, b = lineFeed) ∧ Uncommented rest code' ∧
      code = List.replicate (body.length + 2) none ++ code' := by
  cases h with
  | code hb _ => exact absurd (.inl ⟨bytes, rfl⟩) hb
  | lineComment hbody hend h => exact ⟨_, _, _, rfl, hbody, hend, h, rfl⟩

theorem of_block (h : Uncommented (slash :: star :: bytes) code) :
    (∃ body rest code', bytes = body ++ star :: slash :: rest ∧
      ¬ [star, slash] <:+: body ∧ Uncommented rest code' ∧
      code = List.replicate (body.length + 4) none ++ code') ∨
    (¬ [star, slash] <:+: bytes ∧
      code = List.replicate (bytes.length + 2) none) := by
  cases h with
  | code hb _ => exact absurd (.inr ⟨bytes, rfl⟩) hb
  | blockComment hbody h => exact .inl ⟨_, _, _, rfl, hbody, h, rfl⟩
  | openComment hbody => exact .inr ⟨hbody, rfl⟩

theorem line_end_unique {body body' rest rest' : List UInt8}
    (hbody : lineFeed ∉ body) (hbody' : lineFeed ∉ body')
    (hrest : ∀ b ∈ rest.head?, b = lineFeed)
    (hrest' : ∀ b ∈ rest'.head?, b = lineFeed)
    (h : body ++ rest = body' ++ rest') : body = body' ∧ rest = rest' := by
  have hnil {x y z : List UInt8} (hx : lineFeed ∉ y ++ x)
      (hz : ∀ b ∈ (x ++ z).head?, b = lineFeed) : x = [] := by
    cases x with
    | nil => rfl
    | cons b x =>
        have hb := hz b rfl
        simp [hb] at hx
  rcases List.append_eq_append_iff.mp h with ⟨x, rfl, rfl⟩ | ⟨x, rfl, rfl⟩
  · obtain rfl := hnil hbody' hrest
    simp
  · obtain rfl := hnil hbody hrest'
    simp

theorem block_end_unique {body body' rest rest' : List UInt8}
    (hbody : ¬ [star, slash] <:+: body) (hbody' : ¬ [star, slash] <:+: body')
    (h : body ++ star :: slash :: rest = body' ++ star :: slash :: rest') :
    body = body' ∧ rest = rest' := by
  have hnil {x y z z' : List UInt8} (hx : ¬ [star, slash] <:+: y ++ x)
      (hz : star :: slash :: z = x ++ star :: slash :: z') : x = [] := by
    match x with
    | [] => rfl
    | [a] =>
        simp only [List.cons_append, List.nil_append, List.cons.injEq] at hz
        exact absurd hz.2.1 (by decide)
    | a :: a' :: x =>
        simp only [List.cons_append, List.cons.injEq] at hz
        obtain ⟨rfl, rfl, _⟩ := hz
        exact absurd ⟨y, x, by simp⟩ hx
  rcases List.append_eq_append_iff.mp h with ⟨x, rfl, hx⟩ | ⟨x, rfl, hx⟩
  · obtain rfl := hnil hbody' hx
    simpa using hx
  · obtain rfl := hnil hbody hx
    simpa using hx.symm

protected theorem unique {code' : List (Option UInt8)}
    (h : Uncommented bytes code) (h' : Uncommented bytes code') :
    code = code' := by
  induction h generalizing code' with
  | done =>
      cases h'
      rfl
  | code hb _ ih =>
      obtain ⟨code'', rfl, h''⟩ := h'.of_code hb
      rw [ih h'']
  | lineComment hbody hend _ ih =>
      obtain ⟨body', rest', code'', hsplit, hbody', hend', h'', rfl⟩ :=
        h'.of_line
      obtain ⟨rfl, rfl⟩ := line_end_unique hbody hbody' hend hend' hsplit
      rw [ih h'']
  | @blockComment body rest _ hbody _ ih =>
      rcases h'.of_block with ⟨body', rest', code'', hsplit, hbody', h'', rfl⟩ |
        ⟨hnone, _⟩
      · obtain ⟨rfl, rfl⟩ := block_end_unique hbody hbody' hsplit
        rw [ih h'']
      · exact absurd ⟨body, rest, by simp⟩ hnone
  | openComment hbody =>
      rcases h'.of_block with ⟨body', rest', _, rfl, _⟩ | ⟨_, rfl⟩
      · exact absurd ⟨body', rest', by simp⟩ hbody
      · rfl

end Uncommented

/-! ## Lexemes as bytes -/

/-- The bytes of a lexeme; those of a comment are blanked out. -/
def Lexeme.codeBytes : Lexeme → List (Option UInt8)
  | .code c => (String.utf8EncodeChar c).map some
  | .lineComment body ended =>
    List.replicate (body.octets.length + 2) none ++
      if ended then [some lineFeed] else []
  | .blockComment body closed =>
    List.replicate (body.octets.length + if closed then 4 else 2) none

def Lexeme.codeBytesOf (ls : List Lexeme) : List (Option UInt8) :=
  ls.flatMap codeBytes

@[simp] theorem codeBytesOf_cons (l : Lexeme) (ls : List Lexeme) :
    Lexeme.codeBytesOf (l :: ls) = l.codeBytes ++ Lexeme.codeBytesOf ls :=
  List.flatMap_cons

theorem codeBytes_code {a : Char} (ha : a.toNat < 128) :
    Lexeme.codeBytes (.code a) = [some a.toUInt8] := by
  rw [Lexeme.codeBytes, Text.utf8EncodeChar_ascii ha, List.map_singleton]

theorem octets_line (t : Text) :
    Text.octets ('/' :: '/' :: t) = slash :: slash :: t.octets := by
  rw [Text.octets_cons_ascii (by decide), Text.octets_cons_ascii (by decide)]

theorem octets_block (t : Text) :
    Text.octets ('/' :: '*' :: t) = slash :: star :: t.octets := by
  rw [Text.octets_cons_ascii (by decide), Text.octets_cons_ascii (by decide)]

theorem octets_blockEnd (t : Text) :
    Text.octets ('*' :: '/' :: t) = star :: slash :: t.octets := by
  rw [Text.octets_cons_ascii (by decide), Text.octets_cons_ascii (by decide)]

theorem octets_lineFeed (t : Text) :
    Text.octets ('\n' :: t) = lineFeed :: t.octets :=
  Text.octets_cons_ascii (by decide) t

theorem length_codeBytes (l : Lexeme) :
    l.codeBytes.length = Text.utf8Size l.text := by
  rw [← Text.length_octets]
  cases l with
  | code c => simp [Lexeme.codeBytes, Lexeme.text]
  | lineComment body ended =>
      rw [Lexeme.text, List.cons_append, List.cons_append, octets_line,
        Text.octets_append]
      cases ended with
      | false => simp [Lexeme.codeBytes]
      | true => simp [Lexeme.codeBytes, octets_lineFeed, -Text.octets_cons]
  | blockComment body closed =>
      rw [Lexeme.text, List.cons_append, List.cons_append, octets_block,
        Text.octets_append]
      cases closed with
      | false => simp [Lexeme.codeBytes]
      | true => simp [Lexeme.codeBytes, octets_blockEnd, -Text.octets_cons]

theorem length_codeBytesOf (ls : List Lexeme) :
    (Lexeme.codeBytesOf ls).length = Text.utf8Size (Lexeme.textOf ls) := by
  induction ls with
  | nil => rfl
  | cons l ls ih =>
      rw [codeBytesOf_cons, List.length_append, length_codeBytes, ih,
        ← utf8Size_append]
      rfl

/-- The byte of a character of code, other than a line feed, is among the
bytes of no other lexeme. -/
theorem notMem_codeBytes {a : Char} (ha : a.toNat < 128) (hfeed : a ≠ '\n')
    {l : Lexeme} (hl : l ≠ .code a) : some a.toUInt8 ∉ l.codeBytes := by
  cases l with
  | code c =>
      intro hmem
      simp only [Lexeme.codeBytes, List.mem_map, Option.some.injEq,
        exists_eq_right] at hmem
      exact hl (by rw [Text.eq_of_mem_utf8EncodeChar ha hmem])
  | lineComment body ended =>
      have hne : a.toUInt8 ≠ lineFeed := by
        intro heq
        have hmem : a.toUInt8 ∈ String.utf8EncodeChar '\n' := by
          rw [heq]
          decide
        exact hfeed (Text.eq_of_mem_utf8EncodeChar ha hmem).symm
      cases ended
      all_goals simp [Lexeme.codeBytes, hne]
  | blockComment body closed => simp [Lexeme.codeBytes]

theorem uncommented_append {xs bytes : List UInt8} (hxs : slash ∉ xs)
    {code : List (Option UInt8)} (h : Uncommented bytes code) :
    Uncommented (xs ++ bytes) (xs.map some ++ code) := by
  induction xs with
  | nil => exact h
  | cons b xs ih =>
      simp only [List.mem_cons, not_or] at hxs
      refine .code ?_ (ih hxs.2)
      rintro (⟨u, hu⟩ | ⟨u, hu⟩)
      · exact hxs.1 (List.cons.inj hu).1
      · exact hxs.1 (List.cons.inj hu).1

theorem uncommented_cons {c : Char} {t : Text}
    (hline : ∀ u, c = '/' → t = '/' :: u → False)
    (hblock : ∀ u, c = '/' → t = '*' :: u → False)
    {code : List (Option UInt8)} (h : Uncommented t.octets code) :
    Uncommented (Text.octets (c :: t))
      (Lexeme.codeBytes (.code c) ++ code) := by
  by_cases hc : c = '/'
  · -- The text behind the slash begins with the byte of the second character
    -- only if it begins with that character.
    have hhead {a : Char} (ha : a.toNat < 128) {u : List UInt8}
        (hu : [slash, a.toUInt8] ++ u = slash :: t.octets) :
        ∃ u, t = a :: u := by
      obtain ⟨x, y, rfl, hx, _⟩ := Text.cut_of_octets (s := []) ha
        (List.cons.inj hu).2.symm
      obtain rfl : x = [] := by
        apply eq_nil_of_utf8Size
        rw [← Text.length_octets, hx, List.length_nil]
      exact ⟨y, rfl⟩
    rw [hc, Text.octets_cons_ascii (by decide), codeBytes_code (by decide)]
    refine .code ?_ h
    rintro (⟨u, hu⟩ | ⟨u, hu⟩)
    · obtain ⟨y, hy⟩ := hhead (by decide) hu
      exact hline y hc hy
    · obtain ⟨y, hy⟩ := hhead (by decide) hu
      exact hblock y hc hy
  · rw [Text.octets_cons]
    apply uncommented_append _ h
    intro hmem
    exact hc (Text.eq_of_mem_utf8EncodeChar (by decide) hmem)

/-- What a mode has read so far is no whole comment. -/
def LexMode.Open : LexMode → Text → Prop
  | .code, _ => True
  | .lineComment read, _ => '\n' ∉ read
  | .blockComment read, t => ¬ ['*', '/'] <:+: read.reverse ++ t.take 1

theorem open_block_cons {read t : Text} {c : Char}
    (h : LexMode.Open (.blockComment read) (c :: t))
    (hend : ∀ u, c = '*' → t = '/' :: u → False) :
    LexMode.Open (.blockComment (c :: read)) t := by
  simp only [LexMode.Open, List.take_succ_cons, List.take_zero] at h ⊢
  cases t with
  | nil => simpa using h
  | cons d t =>
      rw [List.reverse_cons, List.take_succ_cons, List.take_zero,
        List.infix_concat_iff]
      rintro (hlast | hinfix)
      · obtain ⟨u, hu⟩ := hlast
        have hsplit : (u ++ ['*']) ++ ['/'] = (read.reverse ++ [c]) ++ [d] := by
          simpa using hu
        obtain ⟨hfront, hd⟩ := List.append_inj' hsplit rfl
        obtain ⟨_, hc⟩ := List.append_inj' hfront rfl
        simp only [List.cons.injEq, and_true] at hc hd
        exact hend t hc.symm (by rw [hd])
      · exact h hinfix

theorem notMem_octets_of_open {read t : Text}
    (h : LexMode.Open (.lineComment read) t) :
    lineFeed ∉ Text.octets read.reverse := by
  intro hmem
  have hread := Text.mem_of_mem_octets (by decide) hmem
  exact h (List.mem_reverse.mp hread)

theorem not_infix_octets_of_open {read t : Text}
    (h : LexMode.Open (.blockComment read) t) :
    ¬ [star, slash] <:+: Text.octets read.reverse := by
  intro hinfix
  have hread := Text.infix_of_infix_octets (by decide) (by decide) hinfix
  exact h (hread.trans (List.prefix_append _ _).isInfix)

theorem uncommented_lexFrom {mode : LexMode} {t : Text} (h : mode.Open t) :
    Uncommented (Text.octets (mode.pending ++ t))
      (Lexeme.codeBytesOf (lexFrom mode t)) := by
  fun_induction lexFrom mode t with
  | case1 => exact .done
  | case2 t ih => exact ih (by simp [LexMode.Open])
  | case3 t ih =>
      apply ih
      intro hinfix
      have hle := hinfix.length_le
      simp at hle
  | case4 c t hline hblock ih =>
      rw [codeBytesOf_cons]
      exact uncommented_cons hline hblock (ih trivial)
  | case5 read =>
      have hcomment := Uncommented.lineComment (notMem_octets_of_open h)
        (by simp) .done
      rw [LexMode.pending, List.append_nil, octets_line]
      simpa [Lexeme.codeBytesOf, Lexeme.codeBytes] using hcomment
  | case6 read t ih =>
      have hfeed : Uncommented ([lineFeed] ++ Text.octets t)
          ([lineFeed].map some ++ Lexeme.codeBytesOf (lexFrom .code t)) :=
        uncommented_append (by decide) (ih trivial)
      have hcomment := Uncommented.lineComment (notMem_octets_of_open h)
        (by simp) hfeed
      rw [LexMode.pending, List.cons_append, List.cons_append, octets_line,
        Text.octets_append, octets_lineFeed, codeBytesOf_cons]
      simpa [Lexeme.codeBytes] using hcomment
  | case7 read c t hc ih =>
      have hopen : LexMode.Open (.lineComment (c :: read)) t := by
        simp only [LexMode.Open, List.mem_cons, not_or]
        exact ⟨fun heq => hc heq.symm, h⟩
      simpa [LexMode.pending] using ih hopen
  | case8 read =>
      have hcomment := Uncommented.openComment (not_infix_octets_of_open h)
      rw [LexMode.pending, List.append_nil, octets_block]
      simpa [Lexeme.codeBytesOf, Lexeme.codeBytes] using hcomment
  | case9 read t ih =>
      have hcomment := Uncommented.blockComment (not_infix_octets_of_open h)
        (ih trivial)
      rw [LexMode.pending, List.cons_append, List.cons_append, octets_block,
        Text.octets_append, octets_blockEnd, codeBytesOf_cons]
      simpa [Lexeme.codeBytes, LexMode.pending] using hcomment
  | case10 read c t hend ih =>
      simpa [LexMode.pending] using ih (open_block_cons h hend)

/-- The bytes of a text are taken apart as the text is. -/
theorem uncommented_lex (t : Text) :
    Uncommented t.octets (Lexeme.codeBytesOf (lex t)) :=
  @uncommented_lexFrom .code t trivial

theorem uncommented_octets_iff {t : Text} {code : List (Option UInt8)} :
    Uncommented t.octets code ↔ code = Lexeme.codeBytesOf (lex t) := by
  constructor
  · intro h
    exact h.unique (uncommented_lex t)
  · rintro rfl
    exact uncommented_lex t

end Source

end Bindery
