import Bindery.Text.Basic

/-!
# Number literals

The type of a literal is guessed from its spelling alone.  Integers are read so
that enumerators without an initializer can be numbered; only those that fit
into 64 bits count.
-/

namespace Bindery.Source

/-- The C type suggested by the letters and points of a literal.  Suffixes may
stand anywhere, and the letters `f` and `e` are digits once there is an `x`. -/
def guessNumberType (literal : Text) : Text :=
  let s := literal.map Char.toLower
  let hexadecimal := s.contains 'x'
  if Text.includes "lf" s then "double"
  else if s.contains 'f' && !hexadecimal then "float"
  else if s.contains '.' || (s.contains 'e' && !hexadecimal) then "double"
  else if Text.includes "ull" s then "unsigned long long"
  else if Text.includes "ll" s then "long long"
  else if s.contains 'u' then "unsigned"
  else "int"

def digitValue? (radix : Nat) (c : Char) : Option Nat :=
  let value? :=
    if '0' ≤ c ∧ c ≤ '9' then some (c.toNat - '0'.toNat)
    else if 'a' ≤ c ∧ c ≤ 'z' then some (c.toNat - 'a'.toNat + 10)
    else if 'A' ≤ c ∧ c ≤ 'Z' then some (c.toNat - 'A'.toNat + 10)
    else none
  value?.filter (· < radix)

def natural? (radix : Nat) : Text → Option Nat
  | [] => none
  | digits =>
    digits.foldlM (fun n c => (digitValue? radix c).map (n * radix + ·)) 0

/-- Digits with at most one sign in front, for a number of 64 bits. -/
def signed? (radix : Nat) (t : Text) : Option Int :=
  let value? : Option Int :=
    match t with
    | '-' :: digits => (natural? radix digits).map fun n => -(n : Int)
    | '+' :: digits => (natural? radix digits).map Int.ofNat
    | digits => (natural? radix digits).map Int.ofNat
  value?.filter fun n => -9223372036854775808 ≤ n ∧ n < 9223372036854775808

def isIntegerSuffix (c : Char) : Bool :=
  c == 'u' || c == 'U' || c == 'l' || c == 'L'

def integer? (literal : Text) : Option Int :=
  let s := ((Text.trim literal).reverse.dropWhile isIntegerSuffix).reverse
  match s with
  | '0' :: 'x' :: digits => signed? 16 digits
  | '0' :: 'X' :: digits => signed? 16 digits
  | digits => signed? 10 digits

/-- One more, in 64 bits: the greatest number is followed by the least. -/
def increment (n : Int) : Int := (Int64.ofInt n + 1).toInt

end Bindery.Source
