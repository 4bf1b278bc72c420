import Bindery.Text.Basic

/-!
# Documentation comments

Documentation is written as a run of `///` lines or as a block that opens with a
slash and two stars.  These functions recover its text: decoration at the start
of lines and blanks around lines go, the lines stay.  The documentation of a
function may carry sections that start with `@param`; `Description.ofText` sorts
them out.
-/

namespace Bindery.Source

/-- A line without the blanks around it and without one leading star. -/
def undecorated (line : Text) : Text :=
  let line := Text.trim line
  match Text.after? "*" line with
  | some rest => Text.trim rest
  | none => line

def cleanDescription (t : Text) : Text :=
  Text.trim (Text.join "\n" ((Text.lines (Text.trim t)).map undecorated))

def docLinesText (t : Text) : Text :=
  let bare (line : Text) : Text :=
    Text.trim ((Text.trimStart line).dropWhile (· = '/'))
  cleanDescription (Text.join "\n" ((Text.lines t).map bare))

/-- The text of a documentation block.  What is not such a block is taken as it
is. -/
def docBlockText (t : Text) : Text :=
  cleanDescription (((Text.after? "/**" t).bind (Text.before? "*/")).getD t)

def leadingDescription (t : Text) : Option Text :=
  if Text.startsWith "///" t then
    some (docLinesText ((Text.lines t).headD []))
  else do
    let body ← Text.after? "/**" t
    let (inside, _) ← Text.cut? "*/" body
    return docBlockText (Text.concat ["/**", inside, "*/"])

/-- A section `param name - text`, read after its `@`. -/
def paramSection? (part : Text) : Option (Text × Text) := do
  let rest := Text.trimStart (← Text.after? "param" part)
  let name := rest.takeWhile Text.isIdent
  if name.isEmpty then none
  else
    let rest := Text.trimStart (rest.dropWhile Text.isIdent)
    return (name, Text.trim ((Text.after? "-" rest).getD rest))

/-- What a function's documentation says about the function and about its
parameters.  A name that occurs more than once among the parameters counts with
its first entry, which is the last one of the documentation. -/
structure Description where
  general : Text
  params : List (Text × Text)
deriving DecidableEq

def Description.ofText (t : Text) : Description :=
  match t.splitOn '@' with
  | [] => ⟨[], []⟩
  | first :: sections =>
    { general := Text.trim (Text.join "@"
        (first :: sections.filter (paramSection? · |>.isNone)))
      params := (sections.filterMap paramSection?).reverse }

end Bindery.Source
