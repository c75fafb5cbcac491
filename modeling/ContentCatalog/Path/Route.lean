import ContentCatalog.Path.Region
import ContentCatalog.Distinct

/-!
# Routes and identifiers

What is derived from a path's name: the route of a page, the identifier of a
dataset, and the file in which a component is looked for.  A suffix is cut
without regard to case, and also where one line feed follows it.
-/

namespace ContentCatalog.Path

open Text

/-- The character is the given small letter in either case.  The long s is a form
of s, and what lower-casing turns into the letter counts too. -/
def isLetterForm (letter c : Char) : Bool :=
  lowerChar c == letter || (letter == 's' && c == '\u017F')

/-- The text is the given word of small letters in any case. -/
def isWordForm : List Char → List Char → Bool
  | [], [] => true
  | letter :: word, c :: text => isLetterForm letter c && isWordForm word text
  | _, _ => false

/-- The text before its last dot, if one of the words follows the dot. -/
def beforeSuffix? (words : List (List Char)) (text : List Char) : Option (List Char) :=
  let extension := (text.reverse.takeWhile (· != '.')).reverse
  match text.reverse.dropWhile (· != '.') with
  | [] => none
  | _ :: before =>
    if words.any fun word => isWordForm word extension then some before.reverse else none

/-- The text without its suffix, if the suffix is one of the words.  A line feed
at the very end stays. -/
def cutSuffix (words : List (List Char)) (text : List Char) : List Char :=
  match beforeEnd? ['\n'] text with
  | some line => ((beforeSuffix? words line).map (· ++ ['\n'])).getD text
  | none => (beforeSuffix? words text).getD text

/-- The suffixes of pages. -/
def pageWords : List (List Char) :=
  ["astro".toList, "md".toList, "mdoc".toList, "markdown".toList]

/-- The suffixes of datasets. -/
def datasetWords : List (List Char) :=
  ["yaml".toList, "yml".toList]

/-- What follows the first page directory in a path. -/
def underPages? (path : List Char) : Option (List Char) :=
  (cut? pageRegion (anchored path)).map (·.2)

/-- The route of a page by its path below the page directory, suffix removed: a
page named `index` stands for its directory. -/
def routeOfStem (stem : List Char) : List Char :=
  if stem = "index".toList then ['/']
  else '/' :: (beforeEnd? "/index".toList stem).getD stem

/-- The route of a page; the root for a path outside the page directories. -/
def route (path : List Char) : List Char :=
  match underPages? path with
  | some below => routeOfStem (cutSuffix pageWords below)
  | none => ['/']

/-- The identifier of a dataset: its file's name without the suffix. -/
def datasetName (path : List Char) : List Char :=
  match lastSegment path with
  | [] => cutSuffix datasetWords (normalize path)
  | name => cutSuffix datasetWords name

/-- The file in which the component of a tag is looked for. -/
def componentFile (tag : List Char) : List Char :=
  "src/components/".toList ++ tag.takeWhile (· != '.') ++ componentSuffix

/-- The files of components in the order of their tags, each once. -/
def componentFiles (tags : List (List Char)) : List (List Char) :=
  distinct (tags.map componentFile)

end ContentCatalog.Path
