import SitePatch.Edit
import SitePatch.FileTree

/-! # Edits of files

`Edit.applyIn` carries an edit out on the file that it names: the file is read again, its stretch is
verified again, and the whole file is replaced in one step. An edit that finds its new text in place
leaves the tree as it is. -/

namespace SitePatch

/-- **What an edit did.** -/
inductive EditOutcome
  /-- The new text, of so many bytes, was written. -/
  | applied (bytes : Nat)
  /-- The new text was already there. -/
  | alreadyApplied
deriving DecidableEq, Repr

namespace Edit

/-- The tree after the edit of its file, and what the edit did. -/
def applyIn (e : Edit) (t : FileTree) : FileTree × Except EditError EditOutcome :=
  match t.read e.file with
  | .error cause => (t, .error (.io cause))
  | .ok bytes =>
    match Utf8.decode bytes with
    | .error fault => (t, .error (.notText fault))
    | .ok content =>
      match e.verify content with
      | .error err => (t, .error err)
      | .ok c =>
        if c.stretch = e.newText then (t, .ok .alreadyApplied)
        else
          match t.replaceFile e.file (Utf8.encode (c.before ++ e.newText ++ c.after)) with
          | .error cause => (t, .error (.io cause))
          | .ok t' => (t', .ok (.applied e.newText.byteSize))

end Edit

end SitePatch
