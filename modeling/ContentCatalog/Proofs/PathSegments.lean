import ContentCatalog.Place
import ContentCatalog.Path.Route

/-!
# Segments of a path

Cutting a path into segments and putting the segments together again, and what
this says about places and about paths as seen from a root.

* `segments_append`, `segments_intercalate` : segments of joined texts;
* `relativeTo_cases` : a path as seen from a root is an end of the path;
* `lastSegment_eq`, `text_concat` : the last segment of a path and the last name of
  a place;
* `isTracked_iff` : a file is tracked by its suffix;
* `Resolved.resolve_eq` : a resolved place is not changed by resolving it.
-/

namespace ContentCatalog

namespace Text

/-- A separator ends a segment, whatever stands on either side. -/
theorem segments_append (s : Char) (a b : List Char) :
    segments s (a ++ s :: b) = segments s a ++ segments s b := by
  induction a with
  | nil => simp [segments]
  | cons c a ih =>
      by_cases hc : c = s
      · simp [segments, hc, ih]
      · rw [List.cons_append, segments, segments, if_neg hc, if_neg hc, ih]
        cases hs : segments s a with
        | nil => exact absurd hs (segments_ne_nil s a)
        | cons first others => rfl

/-- A text without the separator is one segment. -/
theorem segments_of_not_mem {s : Char} {text : List Char} (h : s ∉ text) :
    segments s text = [text] := by
  induction text with
  | nil => rfl
  | cons c text ih =>
      rw [List.mem_cons, not_or] at h
      rw [segments, if_neg (Ne.symm h.1), ih h.2]

/-- The separator occurs in no segment. -/
theorem not_mem_of_mem_segments {s : Char} {text segment : List Char}
    (h : segment ∈ segments s text) : s ∉ segment := by
  induction text generalizing segment with
  | nil =>
      rw [segments, List.mem_singleton] at h
      simp [h]
  | cons c text ih =>
      rw [segments] at h
      split at h
      · rcases List.mem_cons.mp h with rfl | h
        · simp
        · exact ih h
      · next hc =>
          split at h
          · next heq => exact absurd heq (segments_ne_nil s text)
          · next first others heq =>
              rw [heq] at ih
              rcases List.mem_cons.mp h with rfl | h
              · rw [List.mem_cons, not_or]
                exact ⟨Ne.symm hc, ih List.mem_cons_self⟩
              · exact ih (List.mem_cons_of_mem _ h)

/-- Segments that are joined are the segments of the whole. -/
theorem segments_intercalate {s : Char} {names : List (List Char)} (hne : names ≠ [])
    (h : ∀ name ∈ names, s ∉ name) : segments s ([s].intercalate names) = names := by
  induction names with
  | nil => exact absurd rfl hne
  | cons name names ih =>
      obtain ⟨hn, hr⟩ := List.forall_mem_cons.mp h
      by_cases hnil : names = []
      · subst hnil
        rw [List.intercalate_singleton, segments_of_not_mem hn]
      · rw [List.intercalate_cons_of_ne_nil hnil, List.append_assoc, List.singleton_append,
          segments_append, segments_of_not_mem hn, ih hnil hr]
        rfl

/-- Names joined, and one more. -/
theorem intercalate_concat (s : Char) {names : List (List Char)} (hne : names ≠ [])
    (name : List Char) :
    [s].intercalate (names ++ [name]) = [s].intercalate names ++ s :: name := by
  induction names with
  | nil => exact absurd rfl hne
  | cons first names ih =>
      by_cases hnil : names = []
      · subst hnil
        simp
      · rw [List.cons_append, List.intercalate_cons_of_ne_nil (by simp), ih hnil,
          List.intercalate_cons_of_ne_nil hnil, List.append_assoc (first ++ [s])]

/-- The last segment of a text is that of its end. -/
theorem getLast?_segments_append (s : Char) (a b : List Char) :
    (segments s (a ++ s :: b)).getLast? = (segments s b).getLast? := by
  rw [segments_append, List.getLast?_append]
  cases h : (segments s b).getLast? with
  | none => exact absurd (List.getLast?_eq_none_iff.mp h) (segments_ne_nil s b)
  | some last => rfl

/-- A text without the separator is its own last segment. -/
theorem getLast?_segments_of_not_mem {s : Char} {text : List Char} (h : s ∉ text) :
    (segments s text).getLast? = some text := by
  rw [segments_of_not_mem h]
  rfl

/-- A text is one segment, or its last segment follows a separator. -/
theorem not_mem_or_last (s : Char) (text : List Char) :
    s ∉ text ∨ ∃ before last, text = before ++ s :: last ∧ s ∉ last := by
  induction text with
  | nil => exact .inl (by simp)
  | cons c text ih =>
      rcases ih with h | ⟨before, last, rfl, hl⟩
      · by_cases hc : s = c
        · subst hc
          exact .inr ⟨[], text, rfl, h⟩
        · exact .inl (by simp [hc, h])
      · exact .inr ⟨c :: before, last, rfl, hl⟩

/-- Every text has a last segment. -/
theorem exists_getLast?_segments (s : Char) (text : List Char) :
    ∃ last, (segments s text).getLast? = some last :=
  Option.ne_none_iff_exists'.mp fun hn =>
    segments_ne_nil s text (List.getLast?_eq_none_iff.mp hn)

/-- A text is its last segment, or that follows a separator. -/
theorem eq_or_append_of_getLast? {s : Char} {text last : List Char}
    (h : (segments s text).getLast? = some last) :
    text = last ∨ ∃ before, text = before ++ s :: last := by
  rcases not_mem_or_last s text with hn | ⟨before, finish, heq, hn⟩
  · rw [getLast?_segments_of_not_mem hn, Option.some.injEq] at h
    exact .inl h
  · rw [heq, getLast?_segments_append, getLast?_segments_of_not_mem hn, Option.some.injEq] at h
    exact .inr ⟨before, by rw [heq, h]⟩

/-- A text occurs where it stands between two others. -/
theorem occurs_iff {needle text : List Char} :
    occurs needle text = true ↔ ∃ before after, text = before ++ needle ++ after := by
  constructor
  · intro h
    obtain ⟨⟨before, after⟩, hcut⟩ := Option.isSome_iff_exists.mp h
    exact ⟨before, after, append_of_cut? hcut⟩
  · intro h
    obtain ⟨before, after, heq⟩ := h
    subst heq
    rw [occurs]
    induction before with
    | nil =>
        have hstart := afterStart?_append needle after
        cases hall : needle ++ after with
        | nil =>
            rw [hall] at hstart
            rw [List.nil_append, hall, cut?, hstart]
            rfl
        | cons c rest =>
            rw [hall] at hstart
            rw [List.nil_append, hall, cut?, hstart]
            rfl
    | cons c before ih =>
        rw [List.cons_append, List.cons_append, cut?]
        split
        · rfl
        · rw [Option.isSome_map]
          exact ih

end Text

namespace Path

open Text

/-! ### Normal paths -/

/-- A path is normalized part by part. -/
@[simp] theorem normalize_append (a b : List Char) :
    normalize (a ++ b) = normalize a ++ normalize b :=
  List.map_append

@[simp] theorem normalize_slash (path : List Char) :
    normalize ('/' :: path) = '/' :: normalize path := rfl

/-- No backslash is left. -/
theorem backslash_not_mem_normalize (path : List Char) : '\\' ∉ normalize path := by
  intro hm
  obtain ⟨c, -, hc⟩ := List.mem_map.mp hm
  split at hc
  · cases hc
  · next hne => exact hne hc

/-- A path without backslashes is normalized already. -/
theorem normalize_of_no_backslash {path : List Char} (h : '\\' ∉ path) : normalize path = path := by
  have hid : ∀ c ∈ path, (if c = '\\' then '/' else c) = c := by
    intro c hc
    rw [if_neg]
    intro heq
    subst heq
    exact h hc
  rw [normalize, List.map_congr_left hid, List.map_id']

/-- The last segment of a normal path is found in the last segment of the path. -/
theorem getLast?_normalize {path raw : List Char}
    (h : path = raw ∨ ∃ before, path = before ++ '/' :: raw) :
    (segments '/' (normalize path)).getLast? = (segments '/' (normalize raw)).getLast? := by
  rcases h with h | ⟨before, h⟩
  · rw [h]
  · rw [h, normalize_append, normalize_slash, getLast?_segments_append]

/-- **A path as seen from a root** is empty, or the whole path, or what follows one
of its slashes. -/
theorem relativeTo_cases (root path : List Char) :
    relativeTo root path = [] ∨ relativeTo root path = normalize path ∨
      ∃ before, normalize path = before ++ '/' :: relativeTo root path := by
  rw [relativeTo]
  split
  · exact .inl rfl
  · cases h : afterStart? (withoutEndSlashes (normalize root) ++ ['/']) (normalize path) with
    | none => exact .inr (.inl rfl)
    | some rest =>
        rw [afterStart?_eq_some_iff, List.append_assoc] at h
        exact .inr (.inr ⟨_, h⟩)

/-- A path that was made relative is normalized. -/
theorem normalize_relativeTo (root path : List Char) :
    normalize (relativeTo root path) = relativeTo root path := by
  refine normalize_of_no_backslash ?_
  have hb := backslash_not_mem_normalize path
  rcases relativeTo_cases root path with h | h | ⟨before, h⟩
  · simp [h]
  · rwa [h]
  · intro hm
    exact hb (by rw [h]; simp [hm])

/-! ### Last segments -/

/-- The last segment of a path with a last segment to speak of. -/
theorem lastSegment_eq {path last : List Char}
    (h : (segments '/' (normalize path)).getLast? = some last) (hne : last ≠ []) :
    lastSegment path = last := by
  have hend : withoutEndSlashes (normalize path) = normalize path := by
    have hl : '/' ∉ last := not_mem_of_mem_segments (List.mem_of_getLast? h)
    obtain ⟨start, c, rfl⟩ := List.eq_nil_or_concat last |>.resolve_left hne
    have hc : (c == '/') = false := by
      rw [beq_eq_false_iff_ne]
      intro heq
      subst heq
      exact hl (by simp)
    rcases eq_or_append_of_getLast? h with heq | ⟨before, heq⟩
    · rw [heq, List.concat_eq_append]
      exact trimRight_append_single start hc
    · rw [heq, List.concat_eq_append, ← List.cons_append, ← List.append_assoc]
      exact trimRight_append_single _ hc
  rw [lastSegment, hend, h]
  rfl

/-- Lower case keeps a word at the end that it does not change behind anything. -/
theorem lower_append {word : List Char} (h : ∀ before, lowerAfter before word = word)
    (text : List Char) : ∃ start, lower (text ++ word) = start ++ word := by
  have step : ∀ (text before : List Char),
      ∃ start, lowerAfter before (text ++ word) = start ++ word := by
    intro text
    induction text with
    | nil => exact fun before => ⟨[], h before⟩
    | cons c text ih =>
        intro before
        obtain ⟨start, hs⟩ := ih (c :: before)
        rw [List.cons_append, lowerAfter, hs, ← List.append_assoc]
        exact ⟨_, rfl⟩
  exact step text []

/-- The suffixes of tracked files. -/
def trackedSuffixes : List (List Char) :=
  componentSuffix :: (markdownSuffixes ++ datasetSuffixes)

/-- A path has a suffix if its lower case ends in one. -/
theorem hasSuffix_iff {suffixes : List (List Char)} {path : List Char} :
    hasSuffix suffixes path = true ↔
      ∃ suffix ∈ suffixes, ∃ start, lower (normalize path) = start ++ suffix := by
  simp only [hasSuffix, List.any_eq_true, endsWith, Option.isSome_iff_exists,
    beforeEnd?_eq_some_iff]

/-- A file is tracked by its suffix in lower case. -/
theorem isTracked_iff {path : List Char} :
    isTracked path = true ↔
      ∃ suffix ∈ trackedSuffixes, ∃ start, lower (normalize path) = start ++ suffix := by
  have hkind : isTracked path =
      (isComponent path || (isMarkdown path || isDataset path)) := by
    unfold isTracked kind?
    cases isComponent path <;> cases isMarkdown path <;> cases isDataset path <;> rfl
  rw [hkind, ← hasSuffix_iff, trackedSuffixes, hasSuffix, List.any_cons, List.any_append]
  simp only [isComponent, isMarkdown, isDataset, hasSuffix, List.any_cons, List.any_nil,
    Bool.or_false]

/-- The path of a tracked file does not end in a slash. -/
theorem last_ne_nil_of_isTracked {path last : List Char} (ht : isTracked path = true)
    (h : (segments '/' (normalize path)).getLast? = some last) : last ≠ [] := by
  intro heq
  subst heq
  have hlast : ∀ suffix ∈ trackedSuffixes, suffix ≠ [] ∧ suffix.getLast? ≠ some '/' := by
    decide
  obtain ⟨suffix, hm, start, hs⟩ := isTracked_iff.mp ht
  obtain ⟨hne, hslash⟩ := hlast suffix hm
  rcases eq_or_append_of_getLast? h with heq | ⟨before, heq⟩
  · rw [heq] at hs
    exact hne (List.append_eq_nil_iff.mp hs.symm).2
  · have hslashes : ∀ before, lowerAfter before ['/'] = ['/'] := fun _ => rfl
    obtain ⟨front, hf⟩ := lower_append hslashes before
    rw [heq, hf] at hs
    have hend := congrArg List.getLast? hs
    rw [List.getLast?_append, List.getLast?_append] at hend
    cases hsl : suffix.getLast? with
    | none => exact hne (List.getLast?_eq_none_iff.mp hsl)
    | some c =>
        rw [hsl] at hend
        exact hslash (hsl.trans (by simpa using hend.symm))

end Path

/-! ### Places -/

/-- What a path begins with, by its anchor. -/
def Anchor.lead : Anchor → List Char
  | .relative => []
  | .root => ['/']
  | .doubleRoot => ['/', '/']

namespace Place

open Text

/-- The path of a place with names. -/
theorem text_toList {place : Place} (h : place.parts ≠ []) :
    place.text.toList =
      place.anchor.lead ++ ['/'].intercalate (place.parts.map String.toList) := by
  obtain ⟨anchor, parts⟩ := place
  have hsep : "/".toList = ['/'] := rfl
  cases anchor <;> simp [text, Anchor.lead, h, hsep]

/-- The path of a place ends with its last name. -/
theorem text_concat (anchor : Anchor) (names : List String) (name : String) :
    (Place.text ⟨anchor, names ++ [name]⟩).toList = name.toList ∨
      ∃ before, (Place.text ⟨anchor, names ++ [name]⟩).toList = before ++ '/' :: name.toList := by
  rw [text_toList (by simp), List.map_append]
  by_cases hnil : names = []
  · subst hnil
    cases anchor with
    | relative => exact .inl (by simp [Anchor.lead])
    | root => exact .inr ⟨[], by simp [Anchor.lead]⟩
    | doubleRoot => exact .inr ⟨['/'], by simp [Anchor.lead]⟩
  · refine .inr ⟨anchor.lead ++ ['/'].intercalate (names.map String.toList), ?_⟩
    rw [List.map_singleton, intercalate_concat '/' (by simpa using hnil), List.append_assoc]

/-- The last segment of a path is its last name, if it is a name. -/
theorem ofText_parts_concat {path : String} {last : List Char}
    (h : (segments '/' path.toList).getLast? = some last) (hne : last ≠ []) (hdot : last ≠ ['.']) :
    ∃ names, (ofText path).parts = names ++ [String.ofList last] := by
  obtain ⟨others, heq⟩ := List.getLast?_eq_some_iff.mp h
  refine ⟨(others.filter fun name => name != [] && name != ['.']).map String.ofList, ?_⟩
  simp [ofText, heq, List.filter_append, hne, hdot]

/-- A path below a place leads to the name of its last segment. -/
theorem below_parts_concat {base : Place} {path : String} {last : List Char}
    (h : (segments '/' path.toList).getLast? = some last) (hne : last ≠ []) (hdot : last ≠ ['.']) :
    ∃ anchor names, base.below path = ⟨anchor, names ++ [String.ofList last]⟩ := by
  obtain ⟨names, hn⟩ := ofText_parts_concat h hne hdot
  rw [below, join]
  split
  · exact ⟨_, names, by rw [← hn]⟩
  · exact ⟨_, base.parts ++ names, by rw [hn, List.append_assoc]⟩

/-- The last segment of a place below another one is that of the path, if it is
neither empty nor hidden. -/
theorem getLast?_below (base : Place) {path last : List Char}
    (h : (segments '/' (Path.normalize path)).getLast? = some last) (hne : last ≠ [])
    (hvis : Path.isHiddenSegment last = false) :
    (segments '/' (Path.normalize (base.below (String.ofList path)).text.toList)).getLast? =
      some last := by
  obtain ⟨raw, hraw⟩ := exists_getLast?_segments '/' path
  rw [Path.getLast?_normalize (eq_or_append_of_getLast? hraw)] at h
  have hrawNil : raw ≠ [] := by
    intro hr
    rw [hr] at h
    exact hne (Option.some.inj h).symm
  have hrawDot : raw ≠ ['.'] := by
    intro hr
    rw [hr] at h
    have heq : ['.'] = last := Option.some.inj h
    rw [← heq] at hvis
    exact absurd hvis (by decide)
  obtain ⟨anchor, names, heq⟩ : ∃ anchor names, base.below (String.ofList path) =
      ⟨anchor, names ++ [String.ofList raw]⟩ :=
    below_parts_concat (by simpa using hraw) hrawNil hrawDot
  rw [heq, Path.getLast?_normalize (text_concat anchor names (String.ofList raw)),
    String.toList_ofList]
  exact h

/-- The parent of a child is the place itself. -/
@[simp] theorem parent_child (place : Place) (name : String) :
    (place.child name).parent = place := by
  simp [parent, child]

/-- An absolute place is joined to any base as it is. -/
theorem join_of_isAbsolute {place : Place} (h : place.isAbsolute = true) (base : Place) :
    base.join place = place := by
  rw [join, if_pos h]

/-- Seen from an absolute place, every place is absolute. -/
theorem isAbsolute_join {base : Place} (h : base.isAbsolute = true) (place : Place) :
    (base.join place).isAbsolute = true := by
  rw [join]
  split
  · next habsolute => exact habsolute
  · exact h

/-- Without double dots there is nothing to take out. -/
theorem withoutDots_of_not_mem {parts : List String} (h : ".." ∉ parts) :
    withoutDots parts = parts := by
  have step : ∀ (parts kept : List String), ".." ∉ parts →
      parts.foldl (fun kept name => if name = ".." then kept.dropLast else kept ++ [name]) kept =
        kept ++ parts := by
    intro parts
    induction parts with
    | nil => simp
    | cons name parts ih =>
        intro kept hdots
        rw [List.mem_cons, not_or] at hdots
        rw [List.foldl_cons, if_neg (Ne.symm hdots.1), ih _ hdots.2, List.append_assoc]
        rfl
  exact step parts [] h

/-- The place is reckoned from the top of the disk and has no double dots. -/
structure Resolved (place : Place) : Prop where
  anchor : place.anchor = .root
  noDots : ".." ∉ place.parts

/-- A resolved place is absolute. -/
theorem Resolved.isAbsolute {place : Place} (h : place.Resolved) : place.isAbsolute = true := by
  rw [Place.isAbsolute, h.anchor]
  rfl

/-- Resolving gives such a place. -/
theorem resolved_resolve (here place : Place) : (resolve here place).Resolved :=
  ⟨rfl, resolve_parts_no_dots here place⟩

/-- Resolving leaves a resolved place as it is. -/
theorem Resolved.resolve_eq {place : Place} (h : place.Resolved) (here : Place) :
    resolve here place = place := by
  rw [resolve, join_of_isAbsolute h.isAbsolute, withoutDots_of_not_mem h.noDots, ← h.anchor]

/-- A null character in a place stands in one of its names. -/
theorem holdsNull_eq (place : Place) :
    place.holdsNull = place.parts.any fun name => name.toList.contains '\x00' := by
  simp [holdsNull]

end Place

end ContentCatalog
