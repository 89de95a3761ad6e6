import SitePatch.Text

/-! # File errors — why a path cannot be used

The ways in which reading or changing what a path leads to fails, with the wording and the number
that the operating system gives them. -/

namespace SitePatch

/-- **Why a path cannot be used.** -/
inductive FileError
  /-- Nothing is there. -/
  | notFound
  /-- The mode of an entry on the way or at its end does not allow it. -/
  | permissionDenied
  /-- An entry stands where one is to be made. -/
  | alreadyExists
  /-- The path goes on below something that is no directory. -/
  | notADirectory
  /-- A directory stands where a file is read. -/
  | isADirectory
  /-- The way to the path leads through more links than are followed. -/
  | tooManyLinks
  /-- A name or the whole path is longer than is accepted. -/
  | nameTooLong
  /-- A NUL character stands in the path. -/
  | nulInPath
  /-- The file does not hold text. -/
  | notText
  /-- The path names no entry of a directory. -/
  | noParent
deriving DecidableEq, Repr

/-- The wording of a file error. -/
def FileError.message : FileError → Text
  | notFound => "No such file or directory (os error 2)"
  | permissionDenied => "Permission denied (os error 13)"
  | alreadyExists => "File exists (os error 17)"
  | notADirectory => "Not a directory (os error 20)"
  | isADirectory => "Is a directory (os error 21)"
  | tooManyLinks => "Too many levels of symbolic links (os error 40)"
  | nameTooLong => "File name too long (os error 36)"
  | nulInPath => "file name contained an unexpected NUL byte"
  | notText => "stream did not contain valid UTF-8"
  | noParent => "path has no parent directory"

end SitePatch
