import ContentCatalog.Place
import ContentCatalog.Dictionary
import ContentCatalog.Text.Quoted

/-!
# File trees

Folders and files as one value, and what can be asked of a tree about a place.
Places are followed name by name: a double dot leads back to the folder above,
and only from a folder that exists.
-/

namespace ContentCatalog

/-- A file with its bytes, or a folder with its entries in any order. -/
inductive Tree where
  | file (content : ByteArray)
  | folder (entries : List (String × Tree))
  deriving Inhabited

namespace Disk

/-- Why a place cannot be used as asked. -/
inductive Cause where
  | notFound
  | exists
  | notFolder
  | isFolder
  | nameTooLong
  deriving DecidableEq, Repr

/-- The number of a cause. -/
def Cause.number : Cause → Nat
  | .notFound => 2
  | .exists => 17
  | .notFolder => 20
  | .isFolder => 21
  | .nameTooLong => 36

/-- The words for a cause. -/
def Cause.text : Cause → String
  | .notFound => "No such file or directory"
  | .exists => "File exists"
  | .notFolder => "Not a directory"
  | .isFolder => "Is a directory"
  | .nameTooLong => "File name too long"

/-- Why an operation at a place failed. -/
inductive Fault where
  | refused (cause : Cause) (place : Place)
  /-- A name with a null character. -/
  | nullByte
  deriving DecidableEq, Repr

/-- The report of a fault. -/
def Fault.message : Fault → String
  | .refused cause place =>
    "[Errno " ++ toString cause.number ++ "] " ++ cause.text ++ ": "
      ++ Text.quotedText place.text
  | .nullByte => "embedded null byte"

/-- The greatest number of bytes of a name. -/
def nameLimit : Nat := 255

/-- The greatest number of bytes of a path. -/
def pathLimit : Nat := 4095

/-- The entry of a folder. -/
def entry? (name : String) (entries : List (String × Tree)) : Except Cause Tree :=
  if nameLimit < name.utf8ByteSize then .error .nameTooLong
  else
    match Dictionary.lookup? name entries with
    | some tree => .ok tree
    | none => .error .notFound

/-- Follow names from a tree.  `above` holds the folders on the way with the names
that were taken from them, the last one first.  The result is the way in names
and the tree found there. -/
def follow : (above : List (String × Tree)) → Tree → List String →
    Except Cause (List String × Tree)
  | above, tree, [] => .ok ((above.map (·.1)).reverse, tree)
  | above, tree, name :: names =>
    match tree with
    | .file _ => .error .notFolder
    | .folder entries =>
      if name = ".." then
        match above with
        | [] => follow [] tree names
        | (_, upper) :: above => follow above upper names
      else
        match entry? name entries with
        | .ok next => follow ((name, tree) :: above) next names
        | .error cause => .error cause

/-- An operation on a place whose path can be given to a disk at all. -/
def guarded {α : Type} (place : Place) (result : Except Cause α) : Except Fault α :=
  if place.holdsNull then .error .nullByte
  else if pathLimit < place.text.utf8ByteSize then .error (.refused .nameTooLong place)
  else result.mapError (.refused · place)

/-- The tree at a place. -/
def find (root : Tree) (place : Place) : Except Fault Tree :=
  guarded place ((follow [] root place.parts).map (·.2))

/-- A question about a place has a negative answer if nothing is there, but a
name that is too long cannot be asked about. -/
def ask (root : Tree) (place : Place) (question : Tree → Bool) : Except Fault Bool :=
  match find root place with
  | .ok tree => .ok (question tree)
  | .error (.refused .nameTooLong place) => .error (.refused .nameTooLong place)
  | .error _ => .ok false

/-- Something is at the place. -/
def present (root : Tree) (place : Place) : Except Fault Bool :=
  ask root place fun _ => true

/-- A folder is at the place. -/
def isFolder (root : Tree) (place : Place) : Except Fault Bool :=
  ask root place fun
    | .folder _ => true
    | .file _ => false

/-- A file is at the place. -/
def isFile (root : Tree) (place : Place) : Except Fault Bool :=
  ask root place fun
    | .file _ => true
    | .folder _ => false

/-- The bytes of the file at a place. -/
def readBytes (root : Tree) (place : Place) : Except Fault ByteArray := do
  match ← find root place with
  | .file content => return content
  | .folder _ => throw (.refused .isFolder place)

/-- The folder at a place. -/
def findFolder (root : Tree) (place : Place) : Except Fault Tree := do
  match ← find root place with
  | .folder entries => return .folder entries
  | .file _ => throw (.refused .notFolder place)

end Disk

end ContentCatalog
