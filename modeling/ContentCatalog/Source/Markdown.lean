import ContentCatalog.Source.Frontmatter
import ContentCatalog.Catalog.Field
import ContentCatalog.Yaml.Document

/-!
# Markdown pages

The front matter of a page is a YAML mapping whose keys are taken as they are
written.  Anything but a mapping counts as an empty one, and an empty key names
no field.
-/

namespace ContentCatalog.Source

/-- What a Markdown page tells. -/
structure MarkdownSource where
  frontmatter : List (String × Value)
  body : List Char

/-- The entries of decoded front matter. -/
def frontmatterEntries (decoded : Value) : List (String × Value) :=
  match decoded with
  | .map entries =>
    entries.filterMap fun entry =>
      match entry with
      | (.text key, value) => if key = "" then none else some (key, value)
      | _ => none
  | _ => []

/-- Read a Markdown page. -/
def markdownPage (text : List Char) : Except Yaml.Failure MarkdownSource :=
  let parts := split text
  match parts.frontmatter with
  | none => .ok ⟨[], parts.body⟩
  | some [] => .ok ⟨[], parts.body⟩
  | some block => do
    let decoded ← Yaml.load .sourceText block
    return ⟨frontmatterEntries decoded, parts.body⟩

/-- The fields of a Markdown page. -/
def MarkdownSource.fields (page : MarkdownSource) : List Field :=
  Field.inferred page.frontmatter

end ContentCatalog.Source
