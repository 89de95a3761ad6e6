import SitePatch.FileTree

/-! # Building file trees

The operations with which a tree is set up. Each gives the tree after it, or why it cannot be done.
-/

namespace SitePatch.FileTree

/-! ## New entries -/

/-- The mode of a new file. -/
def fileMode : Nat := 0o644

/-- The tree with a new entry in a directory, which is dated by that. -/
def place (t : FileTree) (directory : Location) (name : Text) (e : Entry) :
    Except FileError FileTree :=
  match t.walk directory [name] with
  | .blocked .notFound =>
    if t.isOpenAt directory then .ok ((t.touch directory).put (directory ++ [name]) e)
    else .error .permissionDenied
  | .blocked cause => .error cause
  | _ => .error .alreadyExists

/-- The tree in which the parts of a path lead from the directory `here` to a directory, and the
location of that directory. What is missing on the way is made. -/
def makeWay (t : FileTree) : (here : Location) → (parts : List Text) →
    Except FileError (FileTree × Location)
  | here, [] => .ok (t, here)
  | here, part :: rest =>
    match t.follow maxLinks here [part] with
    | .ok l =>
      match t.get? l with
      | some (.directory _) => makeWay t l rest
      | _ => .error (if rest = [] then .alreadyExists else .notADirectory)
    | .error cause =>
      -- where nothing stands a directory is made; a link that leads nowhere stands in the way
      if cause = .notFound ∨ rest = [] then
        match t.place here part (.directory ⟨directoryMode, t.clock⟩) with
        | .ok t => makeWay t (here ++ [part]) rest
        | .error cause => .error cause
      else .error cause

/-- The tree in which the path leads to a directory. -/
def addDirectory (t : FileTree) (path : Text) : Except FileError FileTree :=
  match t.makeWay [] (Path.names path) with
  | .ok (t, _) => .ok t
  | .error cause => .error cause

/-- The tree in which the directory of the path's last name exists, the location of that directory,
and the name. -/
def makeSlot (t : FileTree) (path : Text) : Except FileError (FileTree × Location × Text) :=
  match Path.lastName? path with
  | none => .error .noParent
  | some name =>
    match t.makeWay [] (Path.way path) with
    | .ok (t, directory) => .ok (t, directory, name)
    | .error cause => .error cause

/-- The tree with a link at the path. -/
def addLink (t : FileTree) (path target : Text) : Except FileError FileTree :=
  match t.makeSlot path with
  | .ok (t, directory, name) => t.place directory name (.link target)
  | .error cause => .error cause

/-! ## Writing -/

/-- The location that is written to along the parts of a path, through at most `links` links: the
one to which they lead, or the free place that their last name stands for. -/
def landing (t : FileTree) (links : Nat) (here : Location) (parts : List Text) :
    Except FileError Location :=
  match t.walk here parts with
  | .arrived l => .ok l
  | .blocked .notFound =>
    match t.walk here parts.dropLast, parts.getLast? with
    | .arrived directory, some name => .ok (directory ++ [name])
    | _, _ => .error .notFound
  | .blocked cause => .error cause
  | .link directory target rest =>
    match links with
    | 0 => .error .tooManyLinks
    | links + 1 => t.landing links (directory.start target) (Path.parts target ++ rest)

/-- The tree in which the path leads to a file with the content. A file that was there keeps its
mode. -/
def addFile (t : FileTree) (path : Text) (content : ByteArray) : Except FileError FileTree :=
  match t.makeSlot path with
  | .error cause => .error cause
  | .ok (t, directory, name) =>
    match t.landing maxLinks directory [name] with
    | .error cause => .error cause
    | .ok l =>
      match t.get? l with
      | some (.file f) =>
        if f.isWritable then .ok (t.writeAt l content f.mode) else .error .permissionDenied
      | some _ => .error .isADirectory
      | none =>
        if t.isOpenAt l.dropLast then .ok ((t.touch l.dropLast).writeAt l content fileMode)
        else .error .permissionDenied

/-! ## Removing -/

/-- Whether the entry at a location can be taken out with what is below it: every directory that
loses an entry must be open, and every directory that is lost must be readable. -/
def isRemovable (t : FileTree) (l : Location) : Bool :=
  t.entries.all fun (k, e) =>
    !l.isPrefixOf k || t.isOpenAt k.dropLast &&
      match e with
      | .directory a => a.isReadable
      | .file _ | .link _ => true

/-- The tree without the entry at the path, and without what is below it. -/
def remove (t : FileTree) (path : Text) : Except FileError FileTree :=
  match t.slot path with
  | .error cause => .error cause
  | .ok (directory, name) =>
    match t.walk directory [name] with
    | .blocked cause => .error cause
    | .arrived _ | .link _ _ _ =>
      let l := directory ++ [name]
      if t.isRemovable l then
        let t := t.touch directory
        .ok { t with entries := t.entries.filter fun entry => !l.isPrefixOf entry.1 }
      else .error .permissionDenied

/-! ## Attributes -/

/-- The attributes of the file or the directory to which the path leads. -/
def attributesAt (t : FileTree) (path : Text) : Except FileError Attributes :=
  match t.resolve path with
  | .error cause => .error cause
  | .ok l =>
    match (t.get? l).bind Entry.attributes? with
    | some a => .ok a
    | none => .error .notFound

/-- The tree in which the attributes of the file or the directory to which the path leads have
changed. -/
def changeAttributes (t : FileTree) (path : Text) (change : Attributes → Attributes) :
    Except FileError FileTree :=
  match t.resolve path with
  | .error cause => .error cause
  | .ok l =>
    match t.get? l with
    | some e => .ok (t.put l (e.mapAttributes change))
    | none => .error .notFound

end SitePatch.FileTree
