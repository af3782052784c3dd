import BuildScript.Command.Execute

/-!
# The program

Takes a picture of the directory that a command line is about, carries the command line out on the
picture, and writes back what has changed in it.
-/

namespace BuildScript

/-- The location that a path without links spells out. -/
def locationOf (path : String) : FileTree.Location :=
  (FileTree.steps path).filter fun name => !name.isEmpty

/-- What has been pictured, and the paths that were looked at. -/
structure Picture where
  tree : FileTree
  seen : List String

/-- Adds the file or directory at a path without links. A link is pictured with what it leads to;
one that leads nowhere is pictured as a link to itself. Skipped directories stay empty. -/
partial def Picture.add (p : Picture) (path : String) : IO Picture := do
  if p.seen.contains path then return p
  let p := { p with seen := path :: p.seen }
  let here ← IO.FS.realPath path
  if ← here.isDir then
    let mut p := { p with tree := p.tree.put (locationOf path) (.directory []) }
    for entry in ← here.readDir do
      let name := entry.fileName
      let below := path ++ "/" ++ name
      let location := locationOf below
      match (← entry.path.symlinkMetadata).type with
      | .symlink =>
        let target ← try pure (some (← IO.FS.realPath below).toString) catch _ => pure none
        p := { p with tree := p.tree.put location (.link (target.getD name)) }
        if let some target := target then p ← p.add target
      | .dir =>
        if isSkippedDirectoryName name && name ≠ ".config" then
          p := { p with tree := p.tree.put location (.directory []) }
        else p ← p.add below
      | _ => p ← p.add below
    return p
  else
    let content ← try IO.FS.readBinFile path catch _ => pure ⟨#[255]⟩
    return { p with tree := p.tree.put (locationOf path) (.file content) }

/-- The root at a path, with a picture of it. -/
def pictureOf (path : String) : IO (Root × FileTree) := do
  let empty : FileTree := .directory []
  let real ← try pure (some (← IO.FS.realPath path).toString) catch _ => pure none
  match real with
  | none => return (⟨path, none⟩, empty)
  | some real =>
    let picture ← Picture.add ⟨empty, []⟩ real
    return ({ Root.find picture.tree [] real with path }, picture.tree)

end BuildScript

open BuildScript in
def main (arguments : List String) : IO UInt32 := do
  let request := Request.parse arguments
  let path := request.path?.getD (← IO.currentDir).toString
  let (root, before) ← if request.needsFiles then pictureOf path
    else pure (⟨path, none⟩, .directory [])
  let (outcome, after) := request.execute before root
  for (location, content) in before.changes after do
    IO.FS.writeBinFile ("/" ++ Path.ofNames location) content
  let answer := outcome.answer
  IO.print answer.output
  IO.eprint answer.diagnostics
  return answer.status.toUInt32
