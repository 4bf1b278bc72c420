import Bindery.Text.Basic

/-!
# Failures of the file system
-/

namespace Bindery

inductive Fault where
  | notFound
  | alreadyExists
  | notADirectory
  | isADirectory
  | nameTooLong
  /-- A path contains the character that ends names on the machine. -/
  | nulInName
  /-- The bytes of a file are not the UTF-8 form of a text. -/
  | notText
  | other (description : Text)
deriving DecidableEq

def Fault.message : Fault → Text
  | notFound => "No such file or directory (os error 2)"
  | alreadyExists => "File exists (os error 17)"
  | notADirectory => "Not a directory (os error 20)"
  | isADirectory => "Is a directory (os error 21)"
  | nameTooLong => "File name too long (os error 36)"
  | nulInName => "file name contained an unexpected NUL byte"
  | notText => "stream did not contain valid UTF-8"
  | other description => description

end Bindery
