import Bindery.Text.CaseRanges

/-!
# Changing the case of a letter

A letter may turn into several characters, so both functions give a list.  ASCII
letters are handled first; the tables list the others.
-/

namespace Bindery.Text

def mapCase (runs : List CaseRun) (expansions : List (Nat × List Nat))
    (c : Char) : List Char :=
  match expansions.lookup c.toNat with
  | some codes => codes.map Char.ofNat
  | none =>
    match runs.find? (·.covers c.toNat) with
    | some run => [Char.ofNat (c.toNat + run.shift).toNat]
    | none => [c]

def lower (c : Char) : List Char :=
  if c.toNat < 128 then [c.toLower] else mapCase lowerRuns lowerExpansions c

def upper (c : Char) : List Char :=
  if c.toNat < 128 then [c.toUpper] else mapCase upperRuns upperExpansions c

end Bindery.Text
