import BundleConf.Files.Lookup
import BundleConf.Text.Offset

/-!
# File trees

A file tree in memory, and what its paths lead to.  A path is followed part by part from the working directory, or
from the root if it is absolute.  A silent part stays where it is and a `..` goes up, but both only from a directory;
so a slash after a regular file leads nowhere.  Names are compared character by character, and no entry has a name of
more than 255 bytes or one with a NUL character.
-/

namespace BundleConf

/-- An entry of a file tree: a regular file with what there is to read in it, or a directory. -/
inductive FileEntry where
  | file (content : Lookup)
  | directory

/-- The entries of a file tree, each under the names that lead to it from the root.  The directories on the way to an
entry need no entries of their own. -/
structure FileTree where
  entries : List (List (List Char) × FileEntry) := []

namespace FileTree

/-- The entry under the given names: one that was added, or a directory on the way to one. -/
def find? (t : FileTree) (names : List (List Char)) : Option FileEntry :=
  match t.entries.find? (·.1 == names) with
  | some (_, entry) => some entry
  | none => if names.isEmpty || t.entries.any (names.isPrefixOf ·.1) then some .directory else none

/-- The names that a path leads through from a directory, as far as its text tells. -/
def names (directory : List (List Char)) (path : Path) : List (List Char) :=
  directory ++ (Path.parts path.text.toList).filter fun part => !Path.isSilent part

/-- The tree with one more entry, at a path seen from a directory. -/
def add (t : FileTree) (directory : List (List Char)) (path : Path) (entry : FileEntry) : FileTree :=
  ⟨t.entries ++ [(names directory path, entry)]⟩

def isName (part : List Char) : Bool :=
  Text.byteLength part ≤ 255 && !part.contains '\x00'

/-- The names that the next part of a path leads to. -/
def follow (t : FileTree) (names : List (List Char)) (part : List Char) : Except ReadError (List (List Char)) :=
  match t.find? names with
  | some .directory =>
    if Path.isSilent part then .ok names
    else if part = ['.', '.'] then .ok names.dropLast
    else
      let next := names ++ [part]
      if isName part && (t.find? next).isSome then .ok next else .error .notFound
  | some (.file _) => .error .notDirectory
  | none => .error .notFound

/-- What there is to read at a path, seen from a working directory. -/
def lookup (t : FileTree) (directory : List (List Char)) (path : Path) : Lookup :=
  if path.text = "" then .error .notFound
  else
    let start := if path.isAbsolute then [] else directory
    match (Path.parts path.text.toList).foldlM t.follow start with
    | .error cause => .error cause
    | .ok names =>
      match t.find? names with
      | some (.file content) => content
      | some .directory => .error .isDirectory
      | none => .error .notFound

end FileTree

end BundleConf
