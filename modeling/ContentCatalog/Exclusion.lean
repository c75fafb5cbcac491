import ContentCatalog.Text.Glob
import ContentCatalog.Text.Pieces
import ContentCatalog.Text.Space

/-!
# Exclusion rules

A pattern that keeps paths out of a scan.  A pattern with a slash at its front or
inside describes a whole path; any other describes single segments.  A slash at
the end confines it to folders.

* `pattern_ne_nil` : a rule made from a pattern has something to match.
-/

namespace ContentCatalog.Exclusion

open Text

/-- A rule. -/
structure Rule where
  pattern : List Char
  foldersOnly : Bool
  anchored : Bool
  hasSlash : Bool
  deriving DecidableEq, Repr

/-- The rule that a pattern stands for. -/
def ofPattern? (written : List Char) : Option Rule :=
  let pattern := strip written
  if pattern.isEmpty || startsWith ['#'] pattern then none
  else
    let stem := trimRight (· == '/') pattern
    let bare := trimLeft (· == '/') stem
    if bare.isEmpty then none
    else
      some {
        pattern := bare
        foldersOnly := endsWith ['/'] pattern
        anchored := startsWith ['/'] stem
        hasSlash := bare.contains '/' }

/-- The rules that patterns stand for. -/
def ofPatterns (patterns : List (List Char)) : List Rule :=
  patterns.filterMap ofPattern?

/-- The rule hits a path, which is that of a folder or of a file. -/
def Rule.hits (rule : Rule) (path : List Char) (isFolder : Bool) : Bool :=
  if rule.pattern.isEmpty then false
  else if rule.anchored || rule.hasSlash then
    if Glob.isMatch rule.pattern path then !rule.foldersOnly || isFolder
    else startsWith (rule.pattern ++ ['/']) path
  else
    let names := segments '/' path
    let candidates := if isFolder || !rule.foldersOnly then names else names.dropLast
    candidates.any (Glob.isMatch rule.pattern)

/-- Some rule hits the path. -/
def excludes (rules : List Rule) (path : List Char) (isFolder : Bool) : Bool :=
  rules.any fun rule => rule.hits path isFolder

/-- A pattern that gives a rule leaves it something to match. -/
theorem pattern_ne_nil {written : List Char} {rule : Rule} (h : ofPattern? written = some rule) :
    rule.pattern ≠ [] := by
  unfold ofPattern? at h
  simp only at h
  split at h
  · cases h
  · split at h
    · cases h
    · next hb =>
      cases h
      simpa [List.isEmpty_iff] using hb

end ContentCatalog.Exclusion
