import ContentCatalog.Text.Space
import ContentCatalog.Text.Pieces
import ContentCatalog.Text.Lowercase

/-!
# Paths of a project

A path is read with forward slashes only.  Its suffix, in any case of letters,
says what the file holds; the directories on the way say which region of the
project it belongs to.  A segment that begins with an underscore or a dot keeps a
path out of the catalog.

* `relativeTo_of_under` : a path under the root loses exactly the root and a slash.
-/

namespace ContentCatalog.Path

open Text

/-- The path with forward slashes only. -/
def normalize (path : List Char) : List Char :=
  path.map fun c => if c = '\\' then '/' else c

/-- The path without slashes at its end. -/
def withoutEndSlashes (path : List Char) : List Char :=
  trimRight (· == '/') path

/-- The path as seen from the root.  A path outside the root stays as it is. -/
def relativeTo (root path : List Char) : List Char :=
  let base := withoutEndSlashes (normalize root)
  let target := normalize path
  if target = base then []
  else (afterStart? (base ++ ['/']) target).getD target

/-- What a tracked file holds. -/
inductive Kind where
  | component
  | markdown
  | dataset
  deriving DecidableEq, Repr

/-- The suffix of components. -/
def componentSuffix : List Char := ".astro".toList

/-- The suffixes of Markdown pages. -/
def markdownSuffixes : List (List Char) := [".md".toList, ".mdoc".toList, ".markdown".toList]

/-- The suffixes of datasets. -/
def datasetSuffixes : List (List Char) := [".yml".toList, ".yaml".toList]

/-- The path in lower case ends with one of the suffixes. -/
def hasSuffix (suffixes : List (List Char)) (path : List Char) : Bool :=
  suffixes.any fun suffix => endsWith suffix (lower (normalize path))

/-- The path names a component. -/
def isComponent (path : List Char) : Bool :=
  hasSuffix [componentSuffix] path

/-- The path names a Markdown page. -/
def isMarkdown (path : List Char) : Bool :=
  hasSuffix markdownSuffixes path

/-- The path names a dataset. -/
def isDataset (path : List Char) : Bool :=
  hasSuffix datasetSuffixes path

/-- What the file holds, if it is tracked. -/
def kind? (path : List Char) : Option Kind :=
  if isComponent path then some .component
  else if isMarkdown path then some .markdown
  else if isDataset path then some .dataset
  else none

/-- The file is of some kind. -/
def isTracked (path : List Char) : Bool :=
  (kind? path).isSome

/-- A segment that is private or hidden. -/
def isHiddenSegment : List Char → Bool
  | '_' :: _ => true
  | '.' :: _ => true
  | _ => false

/-- Some segment of the path is private or hidden. -/
def isHidden (path : List Char) : Bool :=
  (segments '/' (normalize path)).any isHiddenSegment

/-- The path with a slash in front. -/
def anchored (path : List Char) : List Char :=
  match normalize path with
  | '/' :: rest => '/' :: rest
  | other => '/' :: other

/-- The directories that sources, pages and datasets lie under. -/
def sourceRegion : List Char := "/src/".toList

/-- The directory that pages lie under. -/
def pageRegion : List Char := "/src/pages/".toList

/-- The directory that datasets lie under. -/
def dataRegion : List Char := "/src/data/".toList

/-- The path lies under a source directory. -/
def isUnderSource (path : List Char) : Bool :=
  occurs sourceRegion (anchored path)

/-- The path lies under a page directory. -/
def isUnderPages (path : List Char) : Bool :=
  occurs pageRegion (anchored path)

/-- The path lies under a data directory. -/
def isUnderData (path : List Char) : Bool :=
  occurs dataRegion (anchored path)

/-- The path is that of a page. -/
def isPage (path : List Char) : Bool :=
  isUnderPages path && (isComponent path || isMarkdown path)

/-- The last segment of a path that may end in slashes; empty for a path of
slashes only. -/
def lastSegment (path : List Char) : List Char :=
  ((segments '/' (withoutEndSlashes (normalize path))).getLast?).getD []

/-- The name of the project at a root. -/
def projectName (root : List Char) : List Char :=
  match lastSegment root with
  | [] => "project".toList
  | name => name

/-- A path under the root loses exactly the root and a slash. -/
theorem relativeTo_of_under {root path : List Char} {rest : List Char}
    (h : normalize path = withoutEndSlashes (normalize root) ++ '/' :: rest) :
    relativeTo root path = rest := by
  have hne : normalize path ≠ withoutEndSlashes (normalize root) := by
    rw [h]; intro heq
    have := congrArg List.length heq
    simp at this
  have ha : afterStart? (withoutEndSlashes (normalize root) ++ ['/']) (normalize path)
      = some rest := by
    rw [afterStart?_eq_some_iff, h]; simp
  simp [relativeTo, hne, ha]

end ContentCatalog.Path
