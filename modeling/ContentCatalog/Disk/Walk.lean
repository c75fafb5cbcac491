import ContentCatalog.Disk.Tree
import ContentCatalog.Exclusion

/-!
# Walking a folder

The files below a folder in a fixed order: a folder's own files by name, then its
subfolders by name, each walked in the same way.  Folders can be left out by
name, by path and by rule, and then nothing below them is looked at.
-/

namespace ContentCatalog.Disk

/-- The names of folders that are never walked unless that is asked for. -/
def closedFolders : List String := ["node_modules", ".git"]

/-- What is left out of a walk, and which files are taken. -/
structure Filter where
  accept : List Char → Bool
  skip : List Char → Bool := fun _ => false
  leftOut : List String := closedFolders
  rules : List Exclusion.Rule := []

/-- A file by its path from where the walk began, with its bytes. -/
structure Found where
  path : List Char
  content : ByteArray

/-- A path and a further name. -/
def joinName (folder : List Char) (name : String) : List Char :=
  if folder.isEmpty then name.toList else folder ++ '/' :: name.toList

/-- The file is taken. -/
def Filter.takes (filter : Filter) (path : List Char) : Bool :=
  !Exclusion.excludes filter.rules path false && filter.accept path

/-- The folder is walked. -/
def Filter.enters (filter : Filter) (name : String) (path : List Char) : Bool :=
  !filter.leftOut.contains name && !filter.skip path && !Exclusion.excludes filter.rules path true

/-- What one entry contributes: itself if it is a file, or what is below it. -/
structure Share where
  name : String
  own : List Found
  below : List Found

/-- The shares in the order of their names. -/
def inOrder (shares : List Share) : List Share :=
  shares.mergeSort fun a b => decide (a.name ≤ b.name)

mutual

/-- The files below a folder whose path is `folder`. -/
def walkFrom (filter : Filter) (folder : List Char) : Tree → List Found
  | .file _ => []
  | .folder entries =>
    let shares := inOrder (sharesOf filter folder entries)
    shares.flatMap Share.own ++ shares.flatMap Share.below

/-- What each entry of a folder contributes. -/
def sharesOf (filter : Filter) (folder : List Char) : List (String × Tree) → List Share
  | [] => []
  | (name, .file content) :: rest =>
    let path := joinName folder name
    ⟨name, if filter.takes path then [⟨path, content⟩] else [], []⟩ :: sharesOf filter folder rest
  | (name, .folder entries) :: rest =>
    let path := joinName folder name
    ⟨name, [], if filter.enters name path then walkFrom filter path (.folder entries) else []⟩
      :: sharesOf filter folder rest

end

/-- The files below a folder. -/
def walk (filter : Filter) (root : Tree) : List Found :=
  walkFrom filter [] root

end ContentCatalog.Disk
