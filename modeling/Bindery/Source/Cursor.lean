import Bindery.Text.Basic

/-!
# Walking over a source

A source is walked from left to right.  At each position of the cursor the rules
of the grammar are tried in order; what the first of them recognises is passed
over as a piece, and where none applies a single token is.  Rules never start in
the middle of an identifier.

A documentation comment belongs to the next declaration.  It is lost when
something other than unrecognised tokens comes in between, or when a token ends
a statement; `documented` pairs every declared item with its documentation.
-/

namespace Bindery.Source

/-- A position in a text: what was read, in reverse, and what is still to
come. -/
structure Cursor where
  behind : Text
  ahead : Text
deriving DecidableEq

namespace Cursor

def start (t : Text) : Cursor := ⟨[], t⟩

def atEnd (c : Cursor) : Bool := c.ahead.isEmpty

def atLineStart (c : Cursor) : Bool := c.behind.head?.all (· = '\n')

def midWord (c : Cursor) : Bool :=
  c.behind.head?.any Text.isIdent && c.ahead.head?.any Text.isIdent

def advance (c : Cursor) (n : Nat) : Cursor :=
  ⟨(c.ahead.take n).reverse ++ c.behind, c.ahead.drop n⟩

def advanceTo (c : Cursor) (rest : Text) : Cursor :=
  c.advance (c.ahead.length - rest.length)

/-- The number of characters at the beginning of a text that fit into `n`
bytes. -/
def charsWithin : (n : Nat) → Text → Nat
  | _, [] => 0
  | n, c :: t =>
    if c.utf8Size ≤ n then charsWithin (n - c.utf8Size) t + 1 else 0

def advanceBytes (c : Cursor) (n : Nat) : Cursor :=
  c.advance (charsWithin n c.ahead)

def token (c : Cursor) : Text :=
  match c.ahead.takeWhile Text.isIdent with
  | [] => c.ahead.take 1
  | identifier => identifier

def skipToken (c : Cursor) : Cursor := c.advance c.token.length

theorem length_advanceTo (c : Cursor) (rest : Text) :
    (c.advanceTo rest).ahead.length = min c.ahead.length rest.length := by
  simp only [advanceTo, advance, List.length_drop]
  omega

theorem token_ne_nil {c : Cursor} (h : c.ahead ≠ []) : c.token ≠ [] := by
  unfold token
  split
  · simp [h]
  · next hne => exact hne

theorem length_skipToken_lt {c : Cursor} (h : c.ahead ≠ []) :
    c.skipToken.ahead.length < c.ahead.length := by
  have h1 := List.length_pos_iff.2 h
  have h2 := List.length_pos_iff.2 (token_ne_nil h)
  simp only [skipToken, advance, List.length_drop]
  omega

end Cursor

inductive Piece (α : Type) where
  | declared (item : α)
  | doc (text : Text)
  /-- A plain comment or a directive. -/
  | ignored
  | token (text : Text)
deriving DecidableEq

structure Found (α : Type) (c : Cursor) where
  piece : Piece α
  rest : Text
  shorter : rest.length < c.ahead.length

/-- The first rule that applies decides; it has to take something. -/
def recognise (rules : List (Cursor → Option (Piece α × Text))) (c : Cursor) :
    Option (Found α c) :=
  if c.midWord then none
  else
    match rules.findSome? (· c) with
    | none => none
    | some (piece, rest) =>
      if h : rest.length < c.ahead.length then some ⟨piece, rest, h⟩ else none

theorem findSome?_of_recognise
    {rules : List (Cursor → Option (Piece α × Text))} {c : Cursor}
    {found : Found α c} (h : recognise rules c = some found) :
    rules.findSome? (· c) = some (found.piece, found.rest) := by
  unfold recognise at h
  split at h
  · contradiction
  · split at h
    · contradiction
    · next piece rest hrules =>
      split at h
      · simp only [Option.some.injEq] at h
        subst found
        exact hrules
      · contradiction

theorem exists_rule_of_recognise
    {rules : List (Cursor → Option (Piece α × Text))} {c : Cursor}
    {found : Found α c} (h : recognise rules c = some found) :
    ∃ rule ∈ rules, rule c = some (found.piece, found.rest) :=
  List.exists_of_findSome?_eq_some (findSome?_of_recognise h)

structure Located (α : Type) where
  start : Cursor
  piece : Piece α

def walk (next : (c : Cursor) → Option (Found α c)) (c : Cursor) :
    List (Located α) :=
  if _h : c.ahead = [] then []
  else
    match next c with
    | some found => ⟨c, found.piece⟩ :: walk next (c.advanceTo found.rest)
    | none => ⟨c, .token c.token⟩ :: walk next c.skipToken
termination_by c.ahead.length
decreasing_by
  · have := found.shorter
    rw [Cursor.length_advanceTo]
    omega
  · exact Cursor.length_skipToken_lt _h

structure Documented (α : Type) where
  doc : Option Text
  item : α
deriving DecidableEq

def endsStatement (token : Text) : Bool :=
  token.head?.any fun c => c == ';' || c == '}'

def documentedFrom : (doc : Option Text) → List (Piece α) → List (Documented α)
  | _, [] => []
  | doc, .declared item :: pieces => ⟨doc, item⟩ :: documentedFrom none pieces
  | _, .doc text :: pieces => documentedFrom (some text) pieces
  | _, .ignored :: pieces => documentedFrom none pieces
  | doc, .token t :: pieces =>
    documentedFrom (if endsStatement t then none else doc) pieces

def documented (pieces : List (Piece α)) : List (Documented α) :=
  documentedFrom none pieces

theorem mem_of_mem_documentedFrom {doc : Option Text} {pieces : List (Piece α)}
    {x : Documented α} (h : x ∈ documentedFrom doc pieces) :
    .declared x.item ∈ pieces := by
  fun_induction documentedFrom doc pieces with
  | case1 => simp at h
  | case2 doc item pieces ih =>
    rcases List.mem_cons.1 h with rfl | h
    · exact List.mem_cons_self
    · exact List.mem_cons_of_mem _ (ih h)
  | case3 _ _ _ ih => exact List.mem_cons_of_mem _ (ih h)
  | case4 _ _ ih => exact List.mem_cons_of_mem _ (ih h)
  | case5 _ _ _ ih => exact List.mem_cons_of_mem _ (ih h)

theorem mem_walk {next : (c : Cursor) → Option (Found α c)} {c : Cursor}
    {x : Located α} (h : x ∈ walk next c) :
    x.start.ahead.length ≤ c.ahead.length ∧
      ((∃ found, next x.start = some found ∧ x.piece = found.piece) ∨
        x.piece = .token x.start.token) := by
  fun_induction walk next c with
  | case1 => simp at h
  | case2 c _ found hfound ih =>
    rcases List.mem_cons.1 h with rfl | h
    · exact ⟨Nat.le_refl _, .inl ⟨found, hfound, rfl⟩⟩
    · obtain ⟨hle, hx⟩ := ih h
      rw [Cursor.length_advanceTo] at hle
      exact ⟨by omega, hx⟩
  | case3 c hne _ ih =>
    rcases List.mem_cons.1 h with rfl | h
    · exact ⟨Nat.le_refl _, .inr rfl⟩
    · obtain ⟨hle, hx⟩ := ih h
      have := Cursor.length_skipToken_lt hne
      exact ⟨by omega, hx⟩

end Bindery.Source
