import ContentCatalog.Text.Pieces

/-!
# Places

The path of a file or folder as a list of names below an anchor.  Reading a path
drops empty names and single dots; double dots stay until the place is resolved,
which takes them out together with the name before.

* `resolve_parts_no_dots` : a resolved place has no double dot.
-/

namespace ContentCatalog

/-- What a place is reckoned from.  Two slashes at the front are kept apart from
one. -/
inductive Anchor where
  | relative
  | root
  | doubleRoot
  deriving DecidableEq, Repr

/-- A place. -/
structure Place where
  anchor : Anchor
  parts : List String
  deriving DecidableEq, Repr

namespace Place

/-- The anchor that a path begins with. -/
def anchorOf : List Char → Anchor
  | '/' :: '/' :: '/' :: _ => .root
  | '/' :: '/' :: _ => .doubleRoot
  | '/' :: _ => .root
  | _ => .relative

/-- The place that a path names. -/
def ofText (path : String) : Place where
  anchor := anchorOf path.toList
  parts := ((Text.segments '/' path.toList).filter fun name => name != [] && name != ['.']).map
    String.ofList

/-- The path of a place. -/
def text (place : Place) : String :=
  let joined := "/".intercalate place.parts
  match place.anchor with
  | .relative => if place.parts.isEmpty then "." else joined
  | .root => "/" ++ joined
  | .doubleRoot => "//" ++ joined

/-- The place does not depend on where one stands. -/
def isAbsolute (place : Place) : Bool :=
  place.anchor != .relative

/-- A place seen from another one. -/
def join (base place : Place) : Place :=
  if place.isAbsolute then place else { base with parts := base.parts ++ place.parts }

/-- A place below another one. -/
def child (base : Place) (name : String) : Place :=
  { base with parts := base.parts ++ [name] }

/-- The place that a path names, seen from another one. -/
def below (base : Place) (path : String) : Place :=
  base.join (ofText path)

/-- The last name of a place; empty for an anchor. -/
def name (place : Place) : String :=
  place.parts.getLast?.getD ""

/-- The place without its last name. -/
def parent (place : Place) : Place :=
  { place with parts := place.parts.dropLast }

/-- The names, double dots taken out; those above the anchor are void. -/
def withoutDots (parts : List String) : List String :=
  parts.foldl (fun kept name => if name = ".." then kept.dropLast else kept ++ [name]) []

/-- A character that no path can hold. -/
def holdsNull (place : Place) : Bool :=
  place.parts.any fun name => name.contains '\x00'

/-- The absolute place without double dots, for someone who stands at `here`. -/
def resolve (here place : Place) : Place :=
  ⟨.root, withoutDots (here.join place).parts⟩

/-- The path of a place as seen from another one, if it lies there. -/
def relativeTo? (base place : Place) : Option Place :=
  if base.anchor = place.anchor ∧ base.parts.isPrefixOf place.parts then
    some ⟨.relative, place.parts.drop base.parts.length⟩
  else none

/-- No double dot is left by taking them out. -/
theorem withoutDots_no_dots (parts : List String) : ".." ∉ withoutDots parts := by
  have step : ∀ (parts kept : List String), ".." ∉ kept →
      ".." ∉ parts.foldl
        (fun kept name => if name = ".." then kept.dropLast else kept ++ [name]) kept := by
    intro parts
    induction parts with
    | nil => exact fun _ h => h
    | cons name rest ih =>
      intro kept h
      simp only [List.foldl_cons]
      refine ih _ ?_
      by_cases hn : name = ".."
      · rw [if_pos hn]; exact fun hm => h ((List.dropLast_sublist kept).subset hm)
      · rw [if_neg hn, List.mem_append, List.mem_singleton]
        rintro (hm | hm)
        · exact h hm
        · exact hn hm.symm
  exact step parts [] (by simp)

/-- A resolved place has no double dot. -/
theorem resolve_parts_no_dots (here place : Place) : ".." ∉ (resolve here place).parts :=
  withoutDots_no_dots _

end Place

end ContentCatalog
