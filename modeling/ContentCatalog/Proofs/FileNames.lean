import ContentCatalog.Proofs.PathSegments
import ContentCatalog.Proofs.TreeFiles
import Mathlib.Data.List.Induction

/-!
# Names of files

A file below a folder is given by the names that lead to it.  As long as these are
names that files can have, its path says the same, and what is asked of a path is
asked of the names.

* `namesOf_pathOf`, `ofText_pathOf` : the names are read off a path again;
* `pathBelow_eq_pathOf` : the path that a walk makes of names;
* `isUnderSource_pathOf`, `isHidden_pathOf` : regions and hidden segments by names;
* `text_eq_stem` : the text of a canonical place, every name behind a slash;
* `names_of_follow` : the names that lead to something on a disk.
-/

namespace ContentCatalog

open Text

/-- A file or folder can have the name. -/
def IsName (name : String) : Prop :=
  name ≠ "" ∧ name ≠ "." ∧ name ≠ ".." ∧ '/' ∉ name.toList

instance (name : String) : Decidable (IsName name) :=
  inferInstanceAs (Decidable (name ≠ "" ∧ name ≠ "." ∧ name ≠ ".." ∧ '/' ∉ name.toList))

/-- The path that the names make. -/
def pathOf (names : List String) : List Char :=
  ['/'].intercalate (names.map String.toList)

/-- The names that a path is made of. -/
def namesOf (path : List Char) : List String :=
  (segments '/' path).map String.ofList

/-- Each of the names behind a slash. -/
def stem (names : List String) : List Char :=
  names.flatMap fun name => '/' :: name.toList

section Names

variable {names : List String}

/-- A name has a character. -/
theorem toList_ne_nil {name : String} (h : IsName name) : name.toList ≠ [] := by
  intro hnil
  exact h.1 (String.toList_eq_nil_iff.mp hnil)

/-- The segments of a path are its names. -/
theorem segments_pathOf (h : ∀ name ∈ names, IsName name) (hne : names ≠ []) :
    segments '/' (pathOf names) = names.map String.toList := by
  refine segments_intercalate (by simpa using hne) ?_
  intro segment hs
  obtain ⟨name, hm, heq⟩ := List.mem_map.mp hs
  rw [← heq]
  exact (h name hm).2.2.2

/-- **The names are read off the path** that they make. -/
theorem namesOf_pathOf (h : ∀ name ∈ names, IsName name) (hne : names ≠ []) :
    namesOf (pathOf names) = names := by
  rw [namesOf, segments_pathOf h hne, List.map_map]
  refine (List.map_congr_left fun name _ => ?_).trans (List.map_id names)
  exact String.ofList_toList

/-- A slash stands behind the first name. -/
theorem pathOf_cons (name : String) (hne : names ≠ []) :
    pathOf (name :: names) = name.toList ++ '/' :: pathOf names := by
  rw [pathOf, List.map_cons, List.intercalate_cons_of_ne_nil (by simpa using hne),
    List.append_assoc]
  rfl

/-- And in front of the last one. -/
theorem pathOf_concat (name : String) (hne : names ≠ []) :
    pathOf (names ++ [name]) = pathOf names ++ '/' :: name.toList := by
  rw [pathOf, List.map_append]
  exact intercalate_concat '/' (by simpa using hne) name.toList

/-- The path of some names is not empty. -/
theorem pathOf_ne_nil (h : ∀ name ∈ names, IsName name) (hne : names ≠ []) :
    pathOf names ≠ [] := by
  intro hnil
  have hs := segments_pathOf h hne
  rw [hnil] at hs
  cases names with
  | nil => exact hne rfl
  | cons name names =>
      obtain ⟨hfirst, -⟩ := List.cons.inj hs
      exact toList_ne_nil (h name List.mem_cons_self) hfirst.symm

/-- The path that a walk makes of names. -/
theorem pathBelow_eq_pathOf (h : ∀ name ∈ names, IsName name) :
    Disk.pathBelow [] names = pathOf names := by
  induction names using List.reverseRecOn with
  | nil => rfl
  | append_singleton names name ih =>
      have hnames : ∀ other ∈ names, IsName other := by
        intro other hm
        exact h other (List.mem_append_left [name] hm)
      rw [Disk.pathBelow, List.foldl_append]
      show Disk.joinName (Disk.pathBelow [] names) name = _
      rw [ih hnames]
      by_cases hne : names = []
      · subst hne
        simp [Disk.joinName, pathOf]
      · have hj := pathOf_ne_nil hnames hne
        rw [Disk.joinName, pathOf_concat name hne, if_neg (by simpa using hj)]

/-- Behind a first slash, the names are joined by slashes. -/
theorem stem_eq_pathOf (hne : names ≠ []) : stem names = '/' :: pathOf names := by
  induction names with
  | nil => exact absurd rfl hne
  | cons name names ih =>
      by_cases hnil : names = []
      · subst hnil
        simp [stem, pathOf]
      · rw [pathOf_cons name hnil, ← ih hnil]
        rfl

/-- The stem of a way in two parts is that of both. -/
theorem stem_append (above below : List String) :
    stem (above ++ below) = stem above ++ stem below :=
  List.flatMap_append

/-- Names with slashes between them are a path. -/
theorem toList_intercalate (names : List String) :
    ("/".intercalate names).toList = pathOf names := by
  rw [String.toList_intercalate]
  rfl

/-- Different names make different paths. -/
theorem stem_injective {others : List String} (h : ∀ name ∈ names, IsName name)
    (ho : ∀ name ∈ others, IsName name) (heq : stem names = stem others) : names = others := by
  by_cases hn : names = []
  · subst hn
    cases others with
    | nil => rfl
    | cons other others => cases heq
  · by_cases hother : others = []
    · subst hother
      rw [stem_eq_pathOf hn] at heq
      cases heq
    · rw [stem_eq_pathOf hn, stem_eq_pathOf hother, List.cons.injEq] at heq
      rw [← namesOf_pathOf h hn, heq.2, namesOf_pathOf ho hother]

/-! ### Questions about paths -/

/-- A path by names does not begin with a slash. -/
theorem head_pathOf (h : ∀ name ∈ names, IsName name) : (pathOf names).head? ≠ some '/' := by
  cases names with
  | nil => simp [pathOf]
  | cons name names =>
      have hname := h name List.mem_cons_self
      have hslash : name.toList.head? ≠ some '/' := by
        intro hhead
        exact hname.2.2.2 (List.mem_of_mem_head? hhead)
      have hchars := toList_ne_nil hname
      by_cases hnil : names = []
      · subst hnil
        simpa [pathOf] using hslash
      · rw [pathOf_cons name hnil, List.head?_append_of_ne_nil _ hchars]
        exact hslash

/-- The path names the place of these names. -/
theorem ofText_pathOf (h : ∀ name ∈ names, IsName name) (hne : names ≠ []) :
    Place.ofText (String.ofList (pathOf names)) = ⟨.relative, names⟩ := by
  have hanchor : Place.anchorOf (pathOf names) = .relative := by
    have hhead := head_pathOf h
    cases hpath : pathOf names with
    | nil => rfl
    | cons c rest =>
        rw [hpath] at hhead
        have hc : c ≠ '/' := by simpa using hhead
        unfold Place.anchorOf
        split
        · next heq => exact absurd (List.cons.inj heq).1 hc
        · next heq => exact absurd (List.cons.inj heq).1 hc
        · next heq => exact absurd (List.cons.inj heq).1 hc
        · rfl
  have hkept : (segments '/' (pathOf names)).filter (fun name => name != [] && name != ['.']) =
      names.map String.toList := by
    rw [segments_pathOf h hne, List.filter_eq_self]
    intro segment hs
    obtain ⟨name, hm, heq⟩ := List.mem_map.mp hs
    have hname := h name hm
    have hdot : segment ≠ ['.'] := by
      intro hd
      have hback := String.ofList_toList (s := name)
      rw [heq, hd] at hback
      exact hname.2.1 hback.symm
    have hfull : segment ≠ [] := by
      rw [← heq]
      exact toList_ne_nil hname
    simp [hdot, hfull]
  rw [Place.ofText, String.toList_ofList, hanchor, hkept, List.map_map]
  congr 1
  refine (List.map_congr_left fun name _ => ?_).trans (List.map_id names)
  exact String.ofList_toList

/-- An item before the last one is followed by something. -/
theorem mem_dropLast_iff {α : Type} {a : α} {items : List α} :
    a ∈ items.dropLast ↔ ∃ above rest, items = above ++ a :: rest ∧ rest ≠ [] := by
  constructor
  · intro h
    have hne : items ≠ [] := by
      intro hnil
      rw [hnil] at h
      cases h
    obtain ⟨above, rest, heq⟩ := List.append_of_mem h
    refine ⟨above, rest ++ [items.getLast hne], ?_, by simp⟩
    rw [← List.cons_append, ← List.append_assoc, ← heq, List.dropLast_append_getLast hne]
  · intro h
    obtain ⟨above, rest, heq, hne⟩ := h
    rw [heq, List.dropLast_append_of_ne_nil (List.cons_ne_nil a rest),
      List.dropLast_cons_of_ne_nil hne]
    simp

/-- No backslash comes with names without one. -/
theorem normalize_pathOf (h : ∀ name ∈ names, '\\' ∉ name.toList) :
    Path.normalize (pathOf names) = pathOf names := by
  refine Path.normalize_of_no_backslash ?_
  induction names with
  | nil => simp [pathOf]
  | cons name names ih =>
      obtain ⟨hname, hnames⟩ := List.forall_mem_cons.mp h
      by_cases hnil : names = []
      · subst hnil
        simpa [pathOf] using hname
      · rw [pathOf_cons name hnil, List.mem_append, List.mem_cons]
        intro hm
        rcases hm with hm | hm | hm
        · exact hname hm
        · cases hm
        · exact ih hnames hm

/-- A path is hidden if one of its names is. -/
theorem isHidden_pathOf (h : ∀ name ∈ names, IsName name)
    (hback : ∀ name ∈ names, '\\' ∉ name.toList) (hne : names ≠ []) :
    Path.isHidden (pathOf names) = false ↔
      ∀ name ∈ names, Path.isHiddenSegment name.toList = false := by
  rw [Path.isHidden, normalize_pathOf hback, segments_pathOf h hne, List.any_eq_false]
  simp

/-- With a slash in front, a path has each of its names behind a slash. -/
theorem anchored_pathOf (h : ∀ name ∈ names, IsName name)
    (hback : ∀ name ∈ names, '\\' ∉ name.toList) (hne : names ≠ []) :
    Path.anchored (pathOf names) = stem names := by
  have hhead := head_pathOf h
  rw [Path.anchored, normalize_pathOf hback, stem_eq_pathOf hne]
  split
  · next heq =>
      rw [heq] at hhead
      exact absurd rfl hhead
  · rfl

/-- A stem begins with an empty segment. -/
theorem segments_stem (h : ∀ name ∈ names, IsName name) (hne : names ≠ []) :
    segments '/' (stem names) = [] :: names.map String.toList := by
  rw [stem_eq_pathOf hne, ← List.nil_append ('/' :: pathOf names), segments_append,
    segments_pathOf h hne]
  rfl

/-- Names around a folder stand in the path around the folder's name in slashes. -/
theorem exists_stem_iff {folder : List Char} (hfolder : '/' ∉ folder)
    (h : ∀ name ∈ names, IsName name) (hne : names ≠ []) :
    (∃ before after, stem names = before ++ '/' :: (folder ++ '/' :: after)) ↔
      String.ofList folder ∈ names.dropLast := by
  rw [mem_dropLast_iff]
  constructor
  · intro hsplit
    obtain ⟨before, after, heq⟩ := hsplit
    have hsegments := segments_stem h hne
    rw [heq, segments_append, segments_append, segments_of_not_mem hfolder] at hsegments
    cases hbefore : segments '/' before with
    | nil => exact absurd hbefore (segments_ne_nil '/' before)
    | cons first others =>
        rw [hbefore, List.cons_append] at hsegments
        have hnames : (others ++ folder :: segments '/' after).map String.ofList =
            namesOf (pathOf names) := by
          rw [namesOf, segments_pathOf h hne, ← (List.cons.inj hsegments).2]
          rfl
        rw [namesOf_pathOf h hne, List.map_append, List.map_cons] at hnames
        exact ⟨_, _, hnames.symm, by simpa using segments_ne_nil '/' after⟩
  · intro hsplit
    obtain ⟨above, rest, heq, hrest⟩ := hsplit
    refine ⟨stem above, pathOf rest, ?_⟩
    rw [heq, stem_append, show stem (String.ofList folder :: rest) =
      '/' :: (String.ofList folder).toList ++ stem rest from rfl, stem_eq_pathOf hrest,
      String.toList_ofList]
    rfl

/-- **A path is under a source folder** if one of the folders on the way is named so. -/
theorem isUnderSource_pathOf (h : ∀ name ∈ names, IsName name)
    (hback : ∀ name ∈ names, '\\' ∉ name.toList) (hne : names ≠ []) :
    Path.isUnderSource (pathOf names) = true ↔ "src" ∈ names.dropLast := by
  have hregion : ∀ before after, before ++ Path.sourceRegion ++ after =
      before ++ '/' :: ("src".toList ++ '/' :: after) := by
    intro before after
    rw [List.append_assoc]
    rfl
  rw [Path.isUnderSource, anchored_pathOf h hback hne, occurs_iff]
  simp only [hregion]
  exact exists_stem_iff (by decide) h hne

end Names

/-! ### Canonical places -/

/-- An absolute place whose names are names of files, without a double dot. -/
structure Place.Canonical (place : Place) : Prop where
  anchor : place.anchor = .root
  names : ∀ name ∈ place.parts, IsName name

/-- Every name of a canonical place follows a slash. -/
theorem text_eq_stem {place : Place} (h : place.Canonical) (hne : place.parts ≠ []) :
    place.text.toList = stem place.parts := by
  rw [Place.text_toList hne, h.anchor, stem_eq_pathOf hne]
  rfl

/-- A canonical place without its slash at the end, if it is the root of the disk. -/
theorem withoutEndSlashes_text {place : Place} (h : place.Canonical) :
    Path.withoutEndSlashes place.text.toList = stem place.parts := by
  by_cases hne : place.parts = []
  · obtain ⟨anchor, parts⟩ := place
    obtain ⟨hanchor, -⟩ := h
    simp only at hanchor hne
    rw [hanchor, hne]
    rfl
  · obtain ⟨names, name, heq⟩ := List.eq_nil_or_concat place.parts |>.resolve_left hne
    rw [List.concat_eq_append] at heq
    have hname : IsName name := h.names name (by rw [heq]; simp)
    obtain ⟨front, c, hchars⟩ :=
      List.eq_nil_or_concat name.toList |>.resolve_left (toList_ne_nil hname)
    rw [List.concat_eq_append] at hchars
    have hc : (c == '/') = false := by
      rw [beq_eq_false_iff_ne]
      intro hslash
      exact hname.2.2.2 (by rw [hchars, hslash]; simp)
    have hstem : stem place.parts = stem names ++ '/' :: front ++ [c] := by
      rw [heq, stem_append]
      simp [stem, hchars]
    rw [text_eq_stem h hne, hstem]
    exact trimRight_append_single _ hc

/-- A canonical place is resolved. -/
theorem Place.Canonical.resolved {place : Place} (h : place.Canonical) : place.Resolved :=
  ⟨h.anchor, fun hm => (h.names ".." hm).2.2.1 rfl⟩

/-- A place below a canonical one. -/
theorem canonical_append {place : Place} (h : place.Canonical) {names : List String}
    (hn : ∀ name ∈ names, IsName name) : Place.Canonical ⟨.root, place.parts ++ names⟩ := by
  refine ⟨rfl, ?_⟩
  intro name hm
  rcases List.mem_append.mp hm with hm | hm
  · exact h.names name hm
  · exact hn name hm

/-- The place of a path below a canonical one. -/
theorem below_pathOf {root : Place} (hroot : root.Canonical) {names : List String}
    (hn : ∀ name ∈ names, IsName name) (hne : names ≠ []) :
    root.below (String.ofList (pathOf names)) = ⟨.root, root.parts ++ names⟩ := by
  rw [Place.below, ofText_pathOf hn hne, Place.join, ← hroot.anchor]
  rfl

/-- The names that lead to something on a disk are names of its folders. -/
theorem names_of_follow {p : String → Prop} {tree found : Tree} {above : List (String × Tree)}
    {names way : List String} (htree : tree.Named p) (hdots : ".." ∉ names)
    (h : Disk.follow above tree names = .ok (way, found)) :
    (∀ name ∈ names, p name) ∧ found.Named p := by
  induction names generalizing tree above with
  | nil =>
      obtain ⟨-, heq⟩ := Prod.mk.inj (Except.ok.inj h)
      rw [← heq]
      exact ⟨by simp, htree⟩
  | cons name names ih =>
      rw [List.mem_cons, not_or] at hdots
      cases tree with
      | file content => cases h
      | folder entries =>
          simp only [Disk.follow, Ne.symm hdots.1, if_false] at h
          cases hentry : Disk.entry? name entries with
          | error cause =>
              rw [hentry] at h
              cases h
          | ok next =>
              rw [hentry] at h
              have hmem := Dictionary.mem_of_lookup? (Disk.lookup?_of_entry hentry)
              cases htree with
              | folder hd hp hn =>
                  obtain ⟨hnames, hfound⟩ := ih (hn _ hmem) hdots.2 h
                  exact ⟨List.forall_mem_cons.mpr ⟨hp _ hmem, hnames⟩, hfound⟩

end ContentCatalog
