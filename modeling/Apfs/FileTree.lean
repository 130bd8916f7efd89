import Apfs.Source.Basic

/-!
# File trees

A file is opened by its path. The path is a row of names between slashes, which are walked one
after the other from the working directory, or from the root if the path starts with a slash. A
dot stays where it is, as the empty name does, and two dots lead to the directory above. Every
name is looked up in a directory: behind the name of a file, not even a dot can stand. The empty
path leads nowhere.
-/

namespace Apfs

inductive FileTree
  | file (bytes : ByteArray)
  | directory (entries : List (String × FileTree))

/-- A file or directory, below the directories that lead to it, the nearest one first. -/
structure Place where
  tree : FileTree
  above : List FileTree

namespace Place

/-- The size in bytes that a name may have. -/
def longestName : Nat := 255

/-- The size in bytes that a path may have. -/
def longestPath : Nat := 4095

def root (p : Place) : Place := ⟨p.above.getLast?.getD p.tree, []⟩

/-- The directory above, which for the root is the root. -/
def parent (p : Place) : Place :=
  match p.above with
  | [] => p
  | tree :: above => ⟨tree, above⟩

/-- The place that a name leads to. -/
def enter (p : Place) (name : String) : Except Fault Place :=
  match p.tree with
  | .file _ => .error .notDirectory
  | .directory entries =>
    if name = "" ∨ name = "." then .ok p
    else if name = ".." then .ok p.parent
    else if longestName < name.utf8ByteSize then .error .nameTooLong
    else
      match entries.lookup name with
      | none => .error .notFound
      | some tree => .ok ⟨tree, p.tree :: p.above⟩

/-- The place that a path leads to. -/
def walk (p : Place) (path : String) : Except Fault Place :=
  if path = "" then .error .notFound
  else if longestPath < path.utf8ByteSize then .error .nameTooLong
  else
    let start := if path.startsWith "/" then p.root else p
    (path.splitOn "/").foldlM enter start

/-- Opens the file or directory that a path leads to. -/
def openFile (p : Place) (path : String) : Except Fault Source := do
  match (← p.walk path).tree with
  | .file bytes => return .ofFile bytes
  | .directory _ => return .ofDirectory

end Place

end Apfs
