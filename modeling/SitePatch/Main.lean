import SitePatch.CommandLine.Session
import SitePatch.FileTree.Build
import SitePatch.FileTree.Contents

/-! # The program

The outer layer: it captures the part of the disk that a call looks at as a `FileTree`, carries the
call out on the tree, and writes the files back that the call has changed. -/

namespace SitePatch.Disk

/-- The path without links and dots, if something is there. -/
def realPath? (path : Text) : IO (Option Text) := do
  try
    let real ← IO.FS.realPath (String.ofList path)
    return some real.toString.toList
  catch _ => return none

/-- What the disk has at a path without links. A file that cannot be read gets a mode that does not
allow it. -/
def entry (path : Text) : IO Entry := do
  let real ← IO.FS.realPath (String.ofList path)
  if ← real.isDir then return .directory ⟨FileTree.directoryMode, 0⟩
  try return .file ⟨⟨FileTree.fileMode, 0⟩, ← IO.FS.readBinFile real⟩
  catch _ => return .file ⟨⟨0, 0⟩, .empty⟩

/-- The tree with what the disk has at a location, and the directories on the way to it. -/
def captureEntry (t : FileTree) (l : Location) : IO FileTree := do
  let way := match t.makeWay [] l.dropLast with
    | .ok (t, _) => t
    | .error _ => t
  return way.put l (← entry l.path)

/-- The tree with what the disk has at the path and on the way to it. -/
def capture (t : FileTree) (path : Text) : IO FileTree := do
  let mut tree := t
  let mut here : Location := []
  for name in Path.names path do
    if name = "..".toList then here := here.dropLast
    else
      match ← realPath? (here ++ [name]).path with
      | none => return tree
      | some real =>
        if Path.names real ≠ here ++ [name] then
          tree := tree.put (here ++ [name]) (.link real)
        here := Path.names real
        tree ← captureEntry tree here
  return tree

/-- The part of the disk that a run looks at: the configuration, the root, and the sites' files. -/
def captureRun (s : Session) (a : Arguments) : IO FileTree := do
  let t ← capture FileTree.empty s.cwd
  let t ← capture t (Path.join s.cwd (a.config.getD configFileName))
  match s.settings a t with
  | .error _ => return t
  | .ok settings =>
    let t ← capture t settings.luauRoot
    Registry.luau.sites.foldlM (fun t site => capture t (Path.join settings.luauRoot site.path)) t

/-- Writes the files in which the trees differ. -/
def write (old new : FileTree) : IO Unit := do
  match old.contents [], new.contents [] with
  | .ok old, .ok new =>
    for (names, content) in changes old new do
      match content with
      | some (.file bytes) => IO.FS.writeBinFile (String.ofList (Location.path names)) bytes
      | _ => return
  | _, _ => return

/-- The values of the environment variables that a call looks at. -/
def environment : IO (List (Text × Text)) := do
  let mut found := []
  for name in [rootVariable, Session.colourVariable] do
    match ← IO.getEnv (String.ofList name) with
    | some value => found := (name, value.toList) :: found
    | none => pure ()
  return found

/-- What surrounds this call. -/
def session : IO Session := do
  return ⟨Path.names (← IO.currentDir).toString.toList, ← environment⟩

end SitePatch.Disk

open SitePatch in
/-- Carries a call out on the disk. -/
def main (arguments : List String) : IO UInt32 := do
  let s ← Disk.session
  let words := arguments.map String.toList
  let old ← match Request.ofArguments words with
    | .run a => Disk.captureRun s a
    | _ => pure FileTree.empty
  let (new, shown) := s.run words old
  Disk.write old new
  IO.print (String.ofList (Line.renderAll s.coloured shown.stdout))
  IO.eprint (String.ofList (Line.renderAll s.coloured shown.stderr))
  return UInt32.ofNat shown.code
