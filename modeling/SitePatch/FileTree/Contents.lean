import SitePatch.FileTree

/-! # What file trees hold

`FileTree.contents` lists what the files and links of a directory hold, and `changes` compares two
such lists. Dates and modes do not count; a directory only counts for what is in it. -/

namespace SitePatch

/-- **What a file or a link holds.** -/
inductive Content
  | file (bytes : ByteArray)
  | link (target : Text)
deriving BEq

namespace FileTree

/-- Whether the listing of the directory `here` shows the directory that the names lead to from
there, and what is in it. A directory that cannot be listed looks empty. -/
def isListed (t : FileTree) : (here : Location) → (names : List Text) → Bool
  | here, names =>
    match t.get? here with
    | some (.directory a) =>
      a.isReadable &&
        match names with
        | [] => true
        | name :: rest => a.isSearchable && t.isListed (here ++ [name]) rest
    | _ => false

/-- What the file or the link at a location holds. -/
def contentAt (t : FileTree) (l : Location) : Except FileError Content :=
  match t.walk [] l with
  | .arrived l =>
    match t.readIn l with
    | .ok bytes => .ok (.file bytes)
    | .error cause => .error cause
  | .link _ target _ => .ok (.link target)
  | .blocked cause => .error cause

/-- What the listed entries hold, by the names from the directory `base`. -/
def contentsOf (t : FileTree) (base : Location) :
    List (Location × Entry) → Except FileError (List (Location × Content))
  | [] => .ok []
  | (_, .directory _) :: rest => t.contentsOf base rest
  | (l, .file _) :: rest | (l, .link _) :: rest =>
    let names := l.drop base.length
    if base.isPrefixOf l && t.isListed base names.dropLast then
      match t.contentAt l, t.contentsOf base rest with
      | .ok content, .ok found => .ok ((names, content) :: found)
      | .error cause, _ | _, .error cause => .error cause
    else t.contentsOf base rest

/-- **What the files and links below the directory `base` hold**, by the names from there. One that
is listed but cannot be read ends it. -/
def contents (t : FileTree) (base : Location) : Except FileError (List (Location × Content)) :=
  t.contentsOf base t.entries

end FileTree

/-- What is held at the locations where two lists differ, and nothing where an entry is gone. -/
def changes (old new : List (Location × Content)) : List (Location × Option Content) :=
  let written := new.filterMap fun (l, c) =>
    if old.lookup l == some c then none else some (l, some c)
  let removed := old.filterMap fun (l, _) =>
    if (new.lookup l).isNone then some (l, none) else none
  written ++ removed

end SitePatch
