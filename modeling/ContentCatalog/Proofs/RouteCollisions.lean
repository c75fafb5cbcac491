import ContentCatalog.Proofs.PageSuffixes

/-!
# Collisions of routes

Two pages with one route overwrite each other.  A route is made of the stem of a page, that is,
of its path below the page directory without the suffix, and a stem loses an `index` at its end.
So a page and the index of the directory of that name collide, and so do pages with one stem;
no other two pages do, unless their paths have empty or hidden segments.

* `routeOfStem_eq_cons` : a route is a slash and the directory that the stem stands for;
* `ShownPage.beginsName` : the stem of a page begins with a name of its own;
* `routeOfStem_eq_iff` : which stems have one route;
* `route_eq_iff` : which pages have one route.
-/

namespace ContentCatalog.Path

open Text

variable {path stem ext : List Char}

/-! ### Routes of stems -/

/-- The index of a directory. -/
def indexOf (dir : List Char) : List Char :=
  dir ++ "/index".toList

/-- The stem is an index: the one of the page directory, or that of a directory below it. -/
def IsIndex (stem : List Char) : Prop :=
  stem = "index".toList ∨ ∃ dir, stem = indexOf dir

/-- The index of a directory is an index. -/
theorem isIndex_indexOf (dir : List Char) : IsIndex (indexOf dir) :=
  .inr ⟨dir, rfl⟩

/-- It has six characters more than the directory. -/
theorem length_indexOf (dir : List Char) : (indexOf dir).length = dir.length + 6 := by
  simp [indexOf]

/-- The first index is not the index of a directory below it. -/
theorem index_ne_indexOf (dir : List Char) : "index".toList ≠ indexOf dir := by
  intro h
  have hlength := congrArg List.length h
  rw [length_indexOf] at hlength
  simp at hlength

theorem routeOfStem_index : routeOfStem "index".toList = ['/'] := by
  decide

/-- The index of a directory has the route of the directory. -/
theorem routeOfStem_indexOf (dir : List Char) : routeOfStem (indexOf dir) = '/' :: dir := by
  have hend : beforeEnd? "/index".toList (indexOf dir) = some dir :=
    beforeEnd?_eq_some_iff.mpr rfl
  rw [routeOfStem, if_neg (index_ne_indexOf dir).symm, hend, Option.getD_some]

/-- Any other stem is its own route. -/
theorem routeOfStem_of_not_isIndex (h : ¬ IsIndex stem) : routeOfStem stem = '/' :: stem := by
  unfold IsIndex at h
  rw [not_or] at h
  have hend : beforeEnd? "/index".toList stem = none := by
    rw [Option.eq_none_iff_forall_ne_some]
    intro dir hdir
    exact h.2 ⟨dir, beforeEnd?_eq_some_iff.mp hdir⟩
  rw [routeOfStem, if_neg h.1, hend, Option.getD_none]

/-- **A route** is a slash and the directory that the stem stands for. -/
theorem routeOfStem_eq_cons (stem : List Char) :
    ∃ dir, routeOfStem stem = '/' :: dir ∧
      (stem = "index".toList ∧ dir = [] ∨ stem = indexOf dir ∨ ¬ IsIndex stem ∧ stem = dir) := by
  by_cases h : IsIndex stem
  · rcases h with rfl | ⟨dir, rfl⟩
    · exact ⟨[], routeOfStem_index, .inl ⟨rfl, rfl⟩⟩
    · exact ⟨dir, routeOfStem_indexOf dir, .inr (.inl rfl)⟩
  · exact ⟨stem, routeOfStem_of_not_isIndex h, .inr (.inr ⟨h, rfl⟩)⟩

/-- The text begins with a character of a name. -/
def BeginsName (text : List Char) : Prop :=
  ∃ c rest, text = c :: rest ∧ c ≠ '/'

/-- A text that begins a name is not empty. -/
theorem BeginsName.ne_nil {text : List Char} (h : BeginsName text) : text ≠ [] := by
  obtain ⟨c, rest, rfl, -⟩ := h
  exact List.cons_ne_nil c rest

/-- Only the page directory itself would have the index with nothing in front. -/
theorem dir_ne_nil_of_beginsName {dir : List Char} (h : BeginsName (indexOf dir)) : dir ≠ [] := by
  rintro rfl
  obtain ⟨c, rest, heq, hc⟩ := h
  exact hc (List.cons.inj heq).1.symm

section Stems

variable {s t : List Char}

/-- Two indexes have one route only if they are the same. -/
theorem routeOfStem_eq_iff_of_isIndex (hs : BeginsName s) (ht : BeginsName t) (his : IsIndex s)
    (hit : IsIndex t) : routeOfStem s = routeOfStem t ↔ s = t := by
  refine ⟨fun h => ?_, fun h => by rw [h]⟩
  rcases his with rfl | ⟨dir, rfl⟩ <;> rcases hit with rfl | ⟨other, rfl⟩
  · rfl
  · rw [routeOfStem_index, routeOfStem_indexOf] at h
    exact absurd (List.cons.inj h).2.symm (dir_ne_nil_of_beginsName ht)
  · rw [routeOfStem_index, routeOfStem_indexOf] at h
    exact absurd (List.cons.inj h).2 (dir_ne_nil_of_beginsName hs)
  · rw [routeOfStem_indexOf, routeOfStem_indexOf] at h
    rw [(List.cons.inj h).2]

/-- With a page that is no index, only the page of that stem and the index of the directory of
that name share their route. -/
theorem routeOfStem_eq_iff_of_not_isIndex (hs : BeginsName s) (his : ¬ IsIndex s) :
    routeOfStem s = routeOfStem t ↔ s = t ∨ t = indexOf s := by
  rw [routeOfStem_of_not_isIndex his]
  constructor
  · intro h
    obtain ⟨dir, hroute, hcases⟩ := routeOfStem_eq_cons t
    rw [hroute] at h
    obtain rfl : s = dir := (List.cons.inj h).2
    rcases hcases with ⟨-, hnil⟩ | hindex | ⟨-, hself⟩
    · exact absurd hnil hs.ne_nil
    · exact .inr hindex
    · exact .inl hself.symm
  · rintro (rfl | rfl)
    · rw [routeOfStem_of_not_isIndex his]
    · rw [routeOfStem_indexOf]

/-- **Stems with one route** are equal, or one is the index of the directory of the other. -/
theorem routeOfStem_eq_iff (hs : BeginsName s) (ht : BeginsName t) :
    routeOfStem s = routeOfStem t ↔
      s = t ∨ (¬ IsIndex s ∧ t = indexOf s) ∨ (¬ IsIndex t ∧ s = indexOf t) := by
  by_cases his : IsIndex s
  · by_cases hit : IsIndex t
    · simp [routeOfStem_eq_iff_of_isIndex hs ht his hit, his, hit]
    · rw [eq_comm, routeOfStem_eq_iff_of_not_isIndex ht hit, eq_comm]
      simp [his, hit]
  · rw [routeOfStem_eq_iff_of_not_isIndex hs his]
    have hnot : s ≠ indexOf t := fun h => his (h ▸ isIndex_indexOf t)
    simp [his, hnot]

/-- The route is a slash for the first index only. -/
theorem routeOfStem_eq_root_iff (hs : BeginsName s) :
    routeOfStem s = ['/'] ↔ s = "index".toList := by
  constructor
  · intro h
    obtain ⟨dir, hroute, hcases⟩ := routeOfStem_eq_cons s
    rw [hroute] at h
    obtain rfl : dir = [] := (List.cons.inj h).2
    rcases hcases with ⟨hindex, -⟩ | rfl | ⟨-, hnil⟩
    · exact hindex
    · exact absurd rfl (dir_ne_nil_of_beginsName hs)
    · exact absurd hnil hs.ne_nil
  · rintro rfl
    exact routeOfStem_index

end Stems

/-! ### Pages that are shown -/

/-- The path is that of a page, and none of its segments is private, hidden or empty.  So it does
not begin with a slash either. -/
structure ShownPage (path : List Char) : Prop where
  isPage : isPage path = true
  shown : isHidden path = false
  filled : [] ∉ segments '/' (normalize path)

/-- The segments below the page directory are segments of the path. -/
theorem segments_below {before below : List Char}
    (h : anchored path = before ++ pageRegion ++ below) :
    ∀ segment ∈ segments '/' below, segment ∈ segments '/' (normalize path) := by
  have hregion : pageRegion = "/src/pages".toList ++ ['/'] := by decide
  obtain ⟨lead, hlead, hshort⟩ := exists_anchored path
  rw [hlead, hregion, ← List.append_assoc, List.append_assoc, List.singleton_append,
    List.append_eq_append_iff] at h
  intro segment hsegment
  rcases h with ⟨middle, -, hpath⟩ | ⟨middle, hlong, -⟩
  · rw [hpath, segments_append]
    exact List.mem_append_right _ hsegment
  · have hlength := congrArg List.length hlong
    have hword : "/src/pages".toList.length = 10 := by decide
    rw [List.length_append, List.length_append, hword] at hlength
    omega

/-- A text that begins with a character has a segment that does. -/
theorem exists_first_segment {s c : Char} (hc : c ≠ s) (rest : List Char) :
    ∃ others, c :: others ∈ segments s (c :: rest) := by
  rw [segments, if_neg hc]
  cases h : segments s rest with
  | nil => exact absurd h (segments_ne_nil s rest)
  | cons first others => exact ⟨first, List.mem_cons_self⟩

/-- **The stem of a page that is shown** begins with a name of its own. -/
theorem ShownPage.beginsName (h : ShownPage path) (hstem : HasStem path stem ext) :
    BeginsName stem := by
  obtain ⟨before, ⟨hsplit, -⟩, hext⟩ := hstem
  have hbelow := segments_below hsplit
  cases stem with
  | nil =>
      -- The suffix alone would be a hidden segment.
      obtain ⟨word, -, hword, heq⟩ := areSuffixes_pages _ hext
      obtain ⟨letters, rfl, -⟩ := exists_letters hword heq
      obtain ⟨others, hfirst⟩ := exists_first_segment (s := '/') (c := '.') (by decide) letters
      have hshown := List.any_eq_false.mp h.shown _ (hbelow _ hfirst)
      exact absurd rfl hshown
  | cons c rest =>
      refine ⟨c, rest, rfl, ?_⟩
      rintro rfl
      apply h.filled
      apply hbelow
      rw [List.cons_append, segments, if_pos rfl]
      exact List.mem_cons_self

/-- **Pages that overwrite each other.**  Let `s` and `t` be the stems of two pages.  Their routes
are equal exactly if the stems are, or if one stem is no index and the other one is the index of
the directory of that name.  A route begins with a slash, and it is that slash only for the
index of the page directory. -/
theorem route_eq_iff {p q : List Char} (hp : ShownPage p) (hq : ShownPage q) :
    ∃ s t, (∀ stem, (∃ ext, HasStem p stem ext) ↔ stem = s) ∧
      (∀ stem, (∃ ext, HasStem q stem ext) ↔ stem = t) ∧
      (route p = route q ↔
        s = t ∨ (¬ IsIndex s ∧ t = indexOf s) ∨ (¬ IsIndex t ∧ s = indexOf t)) ∧
      (∃ rest, route p = '/' :: rest) ∧
      (route p = ['/'] ↔ s = "index".toList) := by
  obtain ⟨s, sExt, hs⟩ := exists_stem hp.isPage
  obtain ⟨t, tExt, ht⟩ := exists_stem hq.isPage
  have hsName := hp.beginsName hs
  have htName := hq.beginsName ht
  refine ⟨s, t, hs.stem_iff, ht.stem_iff, ?_, ?_, ?_⟩
  · rw [hs.route_eq, ht.route_eq]
    exact routeOfStem_eq_iff hsName htName
  · obtain ⟨dir, hroute, -⟩ := routeOfStem_eq_cons s
    exact ⟨dir, hs.route_eq.trans hroute⟩
  · rw [hs.route_eq]
    exact routeOfStem_eq_root_iff hsName

/-- A page, and the index of the directory of its name. -/
def blogPage : List Char := "src/pages/blog.md".toList

@[inherit_doc blogPage]
def blogIndex : List Char := "src\\pages/blog/index.ASTRO".toList

/-- A page and the index of the directory with its name have one route. -/
theorem route_eq_iff_sample :
    ShownPage blogPage ∧ ShownPage blogIndex ∧
    (∃ ext, HasStem blogPage "blog".toList ext) ∧
    (∃ ext, HasStem blogIndex (indexOf "blog".toList) ext) ∧
    route blogPage = route blogIndex ∧ (∃ rest, route blogPage = '/' :: rest) ∧
    route blogPage ≠ ['/'] := by
  have hp : ShownPage blogPage := ⟨by decide, by decide, by decide⟩
  have hq : ShownPage blogIndex := ⟨by decide, by decide, by decide⟩
  have hpStem : HasStem blogPage "blog".toList ".md".toList :=
    ⟨[], cut?_eq_some_iff.mp (by decide), by decide⟩
  have hqStem : HasStem blogIndex (indexOf "blog".toList) ".ASTRO".toList :=
    ⟨[], cut?_eq_some_iff.mp (by decide), by decide⟩
  have hblog : ¬ IsIndex "blog".toList := by
    rintro (h | ⟨dir, h⟩)
    · exact absurd h (by decide)
    · have hlength := congrArg List.length h
      rw [length_indexOf] at hlength
      simp at hlength
  obtain ⟨s, t, hs, ht, hroute, hslash, hroot⟩ := route_eq_iff hp hq
  obtain rfl := (hs _).mp ⟨_, hpStem⟩
  obtain rfl := (ht _).mp ⟨_, hqStem⟩
  refine ⟨hp, hq, ⟨_, hpStem⟩, ⟨_, hqStem⟩, ?_, hslash, ?_⟩
  · exact hroute.mpr (.inr (.inl ⟨hblog, rfl⟩))
  · exact fun h => absurd (hroot.mp h) (by decide)

end ContentCatalog.Path
