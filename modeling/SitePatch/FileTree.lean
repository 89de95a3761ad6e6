import SitePatch.FileError
import SitePatch.Path
import SitePatch.Text.Utf8

/-! # File trees

A `FileTree` holds directories, files and symbolic links. Every entry has a `Location`, the names on
the way to it from the top, free of links and dots. `FileTree.resolve` follows a written path to the
location it leads to, through links, as an operating system does. Whoever uses a tree owns its
entries, so the owner's part of their modes tells what may be done. A tree changes one location at a
time (`FileTree.get?_put`), the top directory included; dating a directory changes no file
(`FileTree.fileIn_touch`). -/

namespace SitePatch

/-! ## Entries -/

/-- **The place of an entry**: the names on the way to it from the top. -/
abbrev Location := List Text

/-- The path that leads to a location. -/
def Location.path (l : Location) : Text := if l = [] then "/" else l.flatMap fun name => '/' :: name

/-- Where a path starts that is followed from `here`. -/
def Location.start (here : Location) (path : Text) : Location :=
  if Path.isAbsolute path then [] else here

/-- What files and directories bear: their mode bits, and when they were last changed. -/
structure Attributes where
  mode : Nat
  modified : Nat
deriving DecidableEq

namespace Attributes

/-- Whether the content of the file may be read, or the directory listed. -/
def isReadable (a : Attributes) : Bool := a.mode.testBit 8

/-- Whether the content of the file may be changed. -/
def isWritable (a : Attributes) : Bool := a.mode.testBit 7

/-- Whether names may be looked up in the directory. -/
def isSearchable (a : Attributes) : Bool := a.mode.testBit 6

/-- Whether entries may be added to the directory and taken from it. -/
def isOpen (a : Attributes) : Bool := a.isWritable && a.isSearchable

end Attributes

/-- A file: its bytes and its attributes. -/
structure File extends Attributes where
  content : ByteArray

/-- **An entry of a tree.** -/
inductive Entry
  | directory (a : Attributes)
  | file (f : File)
  /-- A symbolic link, which stands for the path `target`. -/
  | link (target : Text)

/-- The attributes of an entry. A link has none of its own. -/
def Entry.attributes? : Entry → Option Attributes
  | .directory a => some a
  | .file f => some f.toAttributes
  | .link _ => none

/-- The entry with its attributes changed. -/
def Entry.mapAttributes (e : Entry) (change : Attributes → Attributes) : Entry :=
  match e with
  | .directory a => .directory (change a)
  | .file f => .file { f with toAttributes := change f.toAttributes }
  | .link target => .link target

/-- The mode of a new directory. -/
def FileTree.directoryMode : Nat := 0o755

/-- **A file tree.** The clock counts the writes; it dates files and directories. -/
structure FileTree where
  /-- The attributes of the top directory, which stands in no other one. -/
  top : Attributes := ⟨FileTree.directoryMode, 0⟩
  /-- The entries below the top. -/
  entries : List (Location × Entry)
  clock : Nat

namespace FileTree

/-- The tree that holds nothing but its top directory. -/
def empty : FileTree where
  entries := []
  clock := 0

/-- The entry at a location. The top is a directory. -/
def get? (t : FileTree) (l : Location) : Option Entry :=
  if l = [] then some (.directory t.top) else t.entries.lookup l

/-- The tree with an entry at a location, in place of the one that was there. The top stays a
directory, so nothing but a directory takes its place. -/
def put (t : FileTree) (l : Location) (e : Entry) : FileTree :=
  if l = [] then
    match e with
    | .directory a => { t with top := a }
    | .file _ | .link _ => t
  else { t with entries := (l, e) :: t.entries.filter fun entry => entry.1 != l }

/-- Every other location keeps its entry. -/
theorem get?_put_of_ne (t : FileTree) {l k : Location} (e : Entry) (h : k ≠ l) :
    (t.put l e).get? k = t.get? k := by
  by_cases hl : l = []
  · subst hl
    cases e <;> simp only [put, if_true, get?, if_neg h]
  by_cases hk : k = []
  · simp only [put, if_neg hl, get?, if_pos hk]
  have hkl : (k == l) = false := by simpa using h
  simp only [put, if_neg hl, get?, if_neg hk, List.lookup_cons, hkl]
  generalize t.entries = entries
  induction entries with
  | nil => simp
  | cons entry rest ih =>
    obtain ⟨m, x⟩ := entry
    by_cases hm : m = l
    · subst hm
      rw [List.lookup_cons, hkl]
      simpa using ih
    · have hml : (m != l) = true := by simpa using hm
      simp only [List.filter_cons, hml, if_true, List.lookup_cons, ih]

/-- What is put at a location below the top is there, and every other location keeps its entry. -/
theorem get?_put (t : FileTree) {l : Location} (k : Location) (e : Entry) (hl : l ≠ []) :
    (t.put l e).get? k = if k = l then some e else t.get? k := by
  by_cases h : k = l
  · subst h
    simp [put, get?, hl]
  · rw [if_neg h, get?_put_of_ne t e h]

/-- A directory that is put at a location is there, be it the top. -/
theorem get?_put_directory (t : FileTree) (l k : Location) (a : Attributes) :
    (t.put l (.directory a)).get? k = if k = l then some (.directory a) else t.get? k := by
  by_cases hl : l = []
  · subst hl
    by_cases hk : k = [] <;> simp [put, get?, hk]
  · exact get?_put t k _ hl

/-! ## Resolution -/

/-- How a walk along names ends: at a location, at a link with names left, or at an obstacle. -/
inductive Stop
  | arrived (l : Location)
  | link (directory : Location) (target : Text) (rest : List Text)
  | blocked (cause : FileError)

/-- The longest name, in bytes. -/
def maxName : Nat := 255

/-- The longest path, in bytes. -/
def maxPath : Nat := 4095

/-- The walk from a location along the parts of a path, up to the first link. -/
def walk (t : FileTree) : (here : Location) → (parts : List Text) → Stop
  | here, [] => .arrived here
  | here, part :: rest =>
    match t.get? here with
    | none => .blocked .notFound
    | some (.file _) | some (.link _) => .blocked .notADirectory
    | some (.directory a) =>
      -- an empty part asks for a directory only, and the top directory is its own parent
      if part = [] then walk t here rest
      else if !a.isSearchable then .blocked .permissionDenied
      else if part = ".".toList then walk t here rest
      else if part = "..".toList then walk t here.dropLast rest
      else if maxName < part.byteSize then .blocked .nameTooLong
      else
        match t.get? (here ++ [part]) with
        | none => .blocked .notFound
        | some (.link target) => .link here target rest
        | some _ => walk t (here ++ [part]) rest

/-- How many links the way to a path may lead through. -/
def maxLinks : Nat := 40

/-- The location to which the parts of a path lead, through at most `links` links. A link stands for
the path in it, which starts at the top or else at the directory of the link. -/
def follow (t : FileTree) (links : Nat) (here : Location) (parts : List Text) :
    Except FileError Location :=
  match t.walk here parts with
  | .arrived l => .ok l
  | .blocked cause => .error cause
  | .link directory target rest =>
    match links with
    | 0 => .error .tooManyLinks
    | links + 1 =>
      t.follow links (directory.start target) (Path.parts target ++ rest)

/-- **The location** to which a path leads from the directory `here`. -/
def resolveFrom (t : FileTree) (here : Location) (path : Text) : Except FileError Location :=
  if path = [] then .error .notFound
  else if path.contains '\x00' then .error .nulInPath
  else if maxPath < path.byteSize then .error .nameTooLong
  else t.follow maxLinks (here.start path) (Path.parts path)

/-- The location to which a path leads from the top. -/
def resolve (t : FileTree) (path : Text) : Except FileError Location := t.resolveFrom [] path

/-- **The canonical location** to which a path leads. The location's own path is looked up in its turn,
so it has to be one that is followed. -/
def canonicalize (t : FileTree) (path : Text) : Except FileError Location :=
  match t.resolve path with
  | .error cause => .error cause
  | .ok l =>
    match t.resolve l.path with
    | .error cause => .error cause
    | .ok _ => .ok l

/-- The entry to which a path leads. -/
def entryAt? (t : FileTree) (path : Text) : Option Entry :=
  match t.resolve path with
  | .ok l => t.get? l
  | .error _ => none

/-- Whether the path leads to a directory. -/
def isDirectory (t : FileTree) (path : Text) : Bool :=
  match t.entryAt? path with
  | some (.directory _) => true
  | _ => false

/-- Whether the path leads to a file. -/
def isFile (t : FileTree) (path : Text) : Bool :=
  match t.entryAt? path with
  | some (.file _) => true
  | _ => false

/-- Where a path leads that has a canonical location. -/
theorem resolve_of_canonicalize {t : FileTree} {path : Text} {l : Location}
    (h : t.canonicalize path = .ok l) : t.resolve path = .ok l := by
  unfold canonicalize at h
  split at h
  · simp at h
  · rename_i k hk
    split at h
    · simp at h
    · rw [hk, Except.ok.inj h]

/-- A path leads to a file if a file is at the location to which it leads. -/
theorem isFile_iff {t : FileTree} {path : Text} :
    t.isFile path = true ↔ ∃ l f, t.resolve path = .ok l ∧ t.get? l = some (.file f) := by
  unfold isFile entryAt?
  cases t.resolve path with
  | error cause => simp
  | ok l => cases hl : t.get? l with
    | none => simp [hl]
    | some e => cases e <;> simp [hl]

/-- A path leads to a directory if a directory is at the location to which it leads. -/
theorem isDirectory_iff {t : FileTree} {path : Text} :
    t.isDirectory path = true ↔
      ∃ l a, t.resolve path = .ok l ∧ t.get? l = some (.directory a) := by
  unfold isDirectory entryAt?
  cases t.resolve path with
  | error cause => simp
  | ok l => cases hl : t.get? l with
    | none => simp [hl]
    | some e => cases e <;> simp [hl]

/-- The location of the directory in which the path's last name stands, and that name. Only the way
to the name follows links; the name itself may stand for a link, or for nothing yet. -/
def slot (t : FileTree) (path : Text) : Except FileError (Location × Text) :=
  match Path.lastName? path with
  | none => .error .noParent
  | some name =>
    match t.follow maxLinks [] (Path.way path) with
    | .ok directory => .ok (directory, name)
    | .error cause => .error cause

/-! ## Reading files -/

/-- The file at a location. -/
def fileIn (t : FileTree) (l : Location) : Except FileError File :=
  match t.get? l with
  | some (.file f) => .ok f
  | some (.directory _) => .error .isADirectory
  | some (.link _) | none => .error .notFound

/-- The file to which a path leads. -/
def fileAt (t : FileTree) (path : Text) : Except FileError File :=
  match t.resolve path with
  | .ok l => t.fileIn l
  | .error cause => .error cause

/-- The bytes of the file at a location. What may not be read is not even told to be a directory. -/
def readIn (t : FileTree) (l : Location) : Except FileError ByteArray :=
  match t.get? l with
  | some (.file f) => if f.isReadable then .ok f.content else .error .permissionDenied
  | some (.directory a) => .error (if a.isReadable then .isADirectory else .permissionDenied)
  | some (.link _) | none => .error .notFound

/-- The bytes of the file to which a path leads from the directory `here`. -/
def readFrom (t : FileTree) (here : Location) (path : Text) : Except FileError ByteArray :=
  match t.resolveFrom here path with
  | .ok l => t.readIn l
  | .error cause => .error cause

/-- The bytes of the file to which a path leads from the top. -/
def read (t : FileTree) (path : Text) : Except FileError ByteArray := t.readFrom [] path

/-- The text of the file to which a path leads from the directory `here`. -/
def readTextFrom (t : FileTree) (here : Location) (path : Text) : Except FileError Text :=
  match t.readFrom here path with
  | .error cause => .error cause
  | .ok bytes =>
    match Utf8.decode bytes with
    | .ok text => .ok text
    | .error _ => .error .notText

/-- The text of the file to which a path leads from the top. -/
def readText (t : FileTree) (path : Text) : Except FileError Text := t.readTextFrom [] path

/-! ## Replacing files -/

/-- The tree in which the directory at a location is dated now, for one of its entries has changed.
-/
def touch (t : FileTree) (l : Location) : FileTree :=
  match t.get? l with
  | some (.directory a) => t.put l (.directory { a with modified := t.clock })
  | _ => t

/-- Dating a directory leaves every file as it is. -/
theorem fileIn_touch (t : FileTree) (d l : Location) : (t.touch d).fileIn l = t.fileIn l := by
  unfold touch
  split
  · rename_i a hd
    simp only [fileIn, get?_put_directory]
    by_cases h : l = d
    · rw [if_pos h, h, hd]
    · rw [if_neg h]
  · rfl

/-- The tree with a file at a location, dated now. -/
def writeAt (t : FileTree) (l : Location) (content : ByteArray) (mode : Nat) : FileTree :=
  { t.put l (.file ⟨⟨mode, t.clock⟩, content⟩) with clock := t.clock + 1 }

/-- Whether entries may be added to the directory at a location and taken from it. -/
def isOpenAt (t : FileTree) (l : Location) : Bool :=
  match t.get? l with
  | some (.directory a) => a.isOpen
  | _ => false

/-- The tree in which the entry that the path's last name stands for has been replaced in one step
by a file with the new content and the mode of the file to which the path led. The file itself need
not be writable, but its directory must be open. The name under which the new file is made before it
takes the place of the entry is free, and neither it nor its path is too long. -/
def replaceFile (t : FileTree) (path : Text) (content : ByteArray) : Except FileError FileTree :=
  match t.slot path with
  | .error cause => .error cause
  | .ok (directory, name) =>
    match t.fileAt path with
    | .error cause => .error cause
    | .ok f =>
      if t.isOpenAt directory then
        .ok ((t.touch directory).writeAt (directory ++ [name]) content f.mode)
      else .error .permissionDenied

end FileTree

end SitePatch
