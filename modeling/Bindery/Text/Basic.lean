import Bindery.Text.CharClass

/-!
# Texts

Header sources, names, types and generated code are all texts, and a text is the
list of its characters.  Every function below is a recursion on that list or a
combination of list functions, so that facts about texts are facts about lists.
-/

namespace Bindery

abbrev Text := List Char

instance : Coe String Text := ⟨String.toList⟩

namespace Text

def concat (parts : List Text) : Text := parts.flatten

def join (separator : Text) (pieces : List Text) : Text :=
  separator.intercalate pieces

def trimStart (t : Text) : Text := t.dropWhile isSpace

def trimEnd (t : Text) : Text := (t.reverse.dropWhile isSpace).reverse

def trim (t : Text) : Text := trimEnd (trimStart t)

/-- What follows `lead` in a text that starts with it. -/
def after? : (lead t : Text) → Option Text
  | [], t => some t
  | _ :: _, [] => none
  | a :: lead, c :: t => if a = c then after? lead t else none

def before? (tail t : Text) : Option Text :=
  (after? tail.reverse t.reverse).map List.reverse

def startsWith (lead t : Text) : Bool := (after? lead t).isSome

def endsWith (tail t : Text) : Bool := (before? tail t).isSome

theorem after?_eq_some_iff {lead t rest : Text} :
    after? lead t = some rest ↔ t = lead ++ rest := by
  fun_induction after? lead t with
  | case1 t => simp [eq_comm]
  | case2 => simp
  | case3 a lead t ih => simp [ih]
  | case4 a lead c t hne =>
    simp only [reduceCtorEq, List.cons_append, List.cons.injEq, false_iff,
      not_and]
    exact fun h => absurd h.symm hne

theorem before?_eq_some_iff {tail t rest : Text} :
    before? tail t = some rest ↔ t = rest ++ tail := by
  simp only [before?, Option.map_eq_some_iff, after?_eq_some_iff]
  constructor
  · rintro ⟨r, hr, rfl⟩
    have := congrArg List.reverse hr
    simpa using this
  · rintro rfl
    exact ⟨rest.reverse, by simp, by simp⟩

/-- The text before and after the first occurrence of `mark`. -/
def cut? (mark : Text) : Text → Option (Text × Text)
  | [] => (after? mark []).map fun rest => ([], rest)
  | c :: t =>
    match after? mark (c :: t) with
    | some rest => some ([], rest)
    | none => (cut? mark t).map fun (before, rest) => (c :: before, rest)

def includes (mark t : Text) : Bool := (cut? mark t).isSome

def cutLast? (c : Char) (t : Text) : Option (Text × Text) :=
  match t.reverse.dropWhile (· != c) with
  | [] => none
  | _ :: outer => some (outer.reverse, (t.reverse.takeWhile (· != c)).reverse)

theorem eq_of_cutLast? {c : Char} {t outer inner : Text}
    (h : cutLast? c t = some (outer, inner)) : t = outer ++ c :: inner := by
  unfold cutLast? at h
  split at h
  · simp at h
  · next d rest hdrop =>
    have hd := List.head?_dropWhile_not (· != c) t.reverse
    rw [hdrop] at hd
    obtain rfl : d = c := by simpa using hd
    have hsplit :=
      List.takeWhile_append_dropWhile (p := (· != d)) (l := t.reverse)
    rw [hdrop] at hsplit
    have ht := congrArg List.reverse hsplit
    rw [List.reverse_reverse] at ht
    obtain ⟨rfl, rfl⟩ := Prod.mk.inj (Option.some.inj h)
    exact ht.symm.trans (by simp)

theorem length_of_cutLast? {c : Char} {t outer inner : Text}
    (h : cutLast? c t = some (outer, inner)) : outer.length < t.length := by
  rw [eq_of_cutLast? h, List.length_append, List.length_cons]
  omega

/-- The lines of a text.  A line ends at a line feed, which may follow a
carriage return; a text that ends with a line feed has no further, empty
line. -/
def lines (t : Text) : List Text :=
  match t.splitOn '\n' with
  | [] => []
  | pieces =>
    let ended := pieces.dropLast.map fun line => (before? ['\r'] line).getD line
    match pieces.getLast? with
    | some (c :: last) => ended ++ [c :: last]
    | _ => ended

/-- Every occurrence of `a` followed by `b`, from left to right, gives way to
`new`. -/
def replacePair (a b : Char) (new : Text) : Text → Text
  | x :: y :: t =>
    if x = a ∧ y = b then new ++ replacePair a b new t
    else x :: replacePair a b new (y :: t)
  | t => t

/-- The part of `t` that a reader consumed when it left `rest` over. -/
def upTo (t rest : Text) : Text := t.take (t.length - rest.length)

def utf8Size : Text → Nat
  | [] => 0
  | c :: t => c.utf8Size + utf8Size t

def ofNat (n : Nat) : Text := Nat.toDigits 10 n

def ofInt : Int → Text
  | .ofNat n => ofNat n
  | .negSucc n => '-' :: ofNat (n + 1)

theorem length_trimStart_le (t : Text) : (trimStart t).length ≤ t.length :=
  (List.dropWhile_suffix _).length_le

theorem length_trimEnd_le (t : Text) : (trimEnd t).length ≤ t.length := by
  have h := (List.dropWhile_suffix (l := t.reverse) isSpace).length_le
  simpa [trimEnd] using h

theorem length_trim_le (t : Text) : (trim t).length ≤ t.length :=
  Nat.le_trans (length_trimEnd_le _) (length_trimStart_le t)

end Text

end Bindery
