import ContentCatalog.Source.Frontmatter
import ContentCatalog.Source.Props
import ContentCatalog.Path.Route

/-!
# Component sources

The script of a component is its front matter; the rest is its markup.  The
script declares props, the markup uses other components by capitalised tags.

* `usedTags_nodup` : no tag is listed twice.
-/

namespace ContentCatalog.Source

open Text

/-- The capitalised name at the front, and what follows it. -/
def tagName? : List Char → Option (List Char × List Char)
  | c :: rest =>
    if isAsciiCapital c then
      some (c :: rest.takeWhile isAsciiWord, rest.dropWhile isAsciiWord)
    else none
  | [] => none

/-- The name of the opening tag whose bracket stands in front.  A name that runs
on in another script is none. -/
def openingTag? (text : List Char) : Option (List Char) :=
  match tagName? text with
  | some (name, []) => some name
  | some (name, next :: _) => if isWord next then none else some name
  | none => none

/-- The names of all opening tags in their order. -/
def openingTags : List Char → List (List Char)
  | [] => []
  | c :: rest =>
    if c = '<' then
      match openingTag? rest with
      | some name => name :: openingTags rest
      | none => openingTags rest
    else openingTags rest

/-- The names of the components that markup uses. -/
def usedTags (markup : List Char) : List (List Char) :=
  distinct (openingTags markup)

/-- What a component's source tells. -/
structure ComponentSource where
  props : List Field
  tags : List (List Char)

/-- Read a component's source.  A prop that is declared twice counts as declared
first, the interface before the destructuring. -/
def component (text : List Char) : Except Number.Fault ComponentSource := do
  let parts := split text
  let script := parts.frontmatter.getD []
  let destructured ← destructuredFields script
  return {
    props := Field.firstByKey (interfaceFields script ++ destructured)
    tags := usedTags parts.body }

/-- Each tag is told once. -/
theorem usedTags_nodup (markup : List Char) : (usedTags markup).Nodup :=
  nodup_distinct _

end ContentCatalog.Source
