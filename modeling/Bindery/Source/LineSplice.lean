import Bindery.Text.Basic

/-!
# Continued lines

A backslash right before a line feed continues the line: both disappear.
Backslashes pair up from the left, and only one that is left over by the pairing
continues a line, so that an escaped backslash at the end of a line keeps its
line feed.
-/

namespace Bindery.Source

def spliceLines : Text → Text
  | '\\' :: '\\' :: t => '\\' :: '\\' :: spliceLines t
  | '\\' :: '\n' :: t => spliceLines t
  | c :: t => c :: spliceLines t
  | [] => []

end Bindery.Source
