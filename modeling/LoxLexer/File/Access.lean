/-!
# What comes of asking for a file

A file is there with its bytes, is not there, or something else went wrong on the way to it, which
the operating system has a description and a number for. An `Access` is what `try_exists` and the
reading of the file come to together; a file that is gone between the two is out of scope.
-/

namespace LoxLexer

/-- An error of the operating system. -/
structure SystemError where
  description : String
  code : Nat
deriving DecidableEq, Repr

namespace SystemError

/-- The text of a system error: `Is a directory (os error 21)`. -/
def message (e : SystemError) : String := s!"{e.description} (os error {e.code})"

/-- A path leads on through a plain file. -/
def notADirectory : SystemError := ⟨"Not a directory", 20⟩

/-- A directory is to be read as a file. -/
def isADirectory : SystemError := ⟨"Is a directory", 21⟩

/-- A path, or a name in it, has too many bytes. -/
def nameTooLong : SystemError := ⟨"File name too long", 36⟩

/-- A file or directory may not be looked into. -/
def permissionDenied : SystemError := ⟨"Permission denied", 13⟩

/-- The error of a number, described in other words where it is none of the above. -/
def ofCode (code : Nat) (otherwise : String) : SystemError :=
  ([notADirectory, isADirectory, nameTooLong, permissionDenied].find? (·.code = code)).getD
    ⟨otherwise, code⟩

end SystemError

/-- What comes of asking for a file. -/
inductive Access where
  | contents (bytes : ByteArray)
  | missing
  | failed (e : SystemError)

end LoxLexer
