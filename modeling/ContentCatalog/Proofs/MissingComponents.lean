import ContentCatalog.Proofs.SameEntries
import ContentCatalog.Proofs.TreeFiles
import ContentCatalog.Proofs.UsedTags

/-!
# Missing components

A page names the files of its components by convention.  A reference holds if the build has
a component under that key or if a file is there, and a component of the build is always a
file of the project.  So a scan that looks for components reports exactly the references to
files that are not there.

* `exists_tag_of_component` : what a page refers to is the file of a component;
* `isFile_below` : the answer of the disk about such a path;
* `missingReports_eq` : what a search that comes to an end reports;
* `exists_file_of_component` : a component of the build is a file of the project;
* `missing_components` : the statement about whole scans.
-/

namespace ContentCatalog

open Text

/-! ### Names of components -/

/-- The path is made of names, none of them with a null character. -/
def IsFilePath (path : List Char) : Prop :=
  ∃ names, names ≠ [] ∧ (∀ name ∈ names, IsName name) ∧
    (∀ name ∈ names, '\x00' ∉ name.toList) ∧ path = pathOf names

namespace Source

/-- The tag is made of letters, digits and underscores. -/
def IsTag (tag : List Char) : Prop :=
  tag ≠ [] ∧ ∀ c ∈ tag, isAsciiWord c = true

/-- The name of a tag is a tag. -/
theorem IsTagName.isTag {name : List Char} (h : IsTagName name) : IsTag name := by
  refine ⟨?_, h.isAsciiWord⟩
  obtain ⟨first, rest, rfl, -⟩ := h
  exact List.cons_ne_nil first rest

/-- The tags of a component's source. -/
theorem isTag_of_component {text : List Char} {source : ComponentSource}
    (h : component text = .ok source) {tag : List Char} (htag : tag ∈ source.tags) : IsTag tag := by
  obtain ⟨destructured, -, h⟩ := bind_eq_ok_iff.mp h
  cases h
  obtain ⟨before, hname, -⟩ := mem_openingTags_iff.mp (mem_distinct.mp htag)
  exact hname.isTag

end Source

/-- The names that lead to the file of a component. -/
def componentNames (tag : List Char) : List String :=
  ["src", "components", String.ofList (tag ++ Path.componentSuffix)]

/-- The file of a component lies in the folder of components, under the tag's name. -/
theorem componentFile_eq {tag : List Char} (h : Source.IsTag tag) :
    Path.componentFile tag = pathOf (componentNames tag) := by
  have hdot : '.' ∉ tag := fun hc => absurd (h.2 _ hc) (by decide)
  have hlast : pathOf [String.ofList (tag ++ Path.componentSuffix)] =
      tag ++ Path.componentSuffix := by
    simp [pathOf]
  rw [Path.componentFile_of_dotless hdot, componentNames,
    pathOf_cons "src" (List.cons_ne_nil _ _), pathOf_cons "components" (List.cons_ne_nil _ _),
    hlast]
  simp

/-- These are names without a null character. -/
theorem isName_of_mem_componentNames {tag : List Char} (h : Source.IsTag tag) {name : String}
    (hname : name ∈ componentNames tag) : IsName name ∧ '\x00' ∉ name.toList := by
  have hsuffix : ∀ c ∈ Path.componentSuffix, c ≠ '/' ∧ c ≠ '\x00' := by
    simp [Path.componentSuffix]
  have hchars : ∀ c ∈ tag ++ Path.componentSuffix, c ≠ '/' ∧ c ≠ '\x00' := by
    intro c hc
    rcases List.mem_append.mp hc with hc | hc
    · have hword := h.2 c hc
      constructor <;>
        · rintro rfl
          exact absurd hword (by decide)
    · exact hsuffix c hc
  have hlong : 2 < (tag ++ Path.componentSuffix).length := by
    have hlength : Path.componentSuffix.length = 6 := by decide
    rw [List.length_append]
    omega
  have hne : ∀ s : String, s.toList.length ≤ 2 →
      String.ofList (tag ++ Path.componentSuffix) ≠ s := by
    rintro s hs rfl
    rw [String.toList_ofList] at hs
    omega
  rw [componentNames, List.mem_cons, List.mem_cons, List.mem_singleton] at hname
  rcases hname with rfl | rfl | rfl
  · decide
  · decide
  · refine ⟨⟨hne _ (by decide), hne _ (by decide), hne _ (by decide), ?_⟩, ?_⟩
    · rw [String.toList_ofList]
      exact fun hmem => (hchars _ hmem).1 rfl
    · rw [String.toList_ofList]
      exact fun hmem => (hchars _ hmem).2 rfl

/-- The file of a component is a path of names. -/
theorem isFilePath_componentFile {tag : List Char} (h : Source.IsTag tag) :
    IsFilePath (Path.componentFile tag) :=
  ⟨componentNames tag, List.cons_ne_nil _ _,
    fun _ hname => (isName_of_mem_componentNames h hname).1,
    fun _ hname => (isName_of_mem_componentNames h hname).2, componentFile_eq h⟩

namespace Scan

/-- What was read of a component is what its source tells. -/
theorem exists_source_of_reading {item : Item} {source : Source.ComponentSource}
    (h : item.reading.component = some source) : ∃ text, Source.component text = .ok source := by
  rw [Item.reading] at h
  cases hreading : readingOf item with
  | error failure =>
      rw [hreading] at h
      cases h
  | ok reading =>
      rw [hreading] at h
      have hcomponent : reading.component = some source := h
      rw [readingOf] at hreading
      split at hreading
      · obtain ⟨other, hother, rfl⟩ := map_eq_ok_iff.mp hreading
        obtain ⟨text, -, htext⟩ := bind_eq_ok_iff.mp hother
        rw [← Option.some.inj hcomponent]
        exact ⟨text, mapError_eq_ok_iff.mp htext⟩
      · rw [← Except.ok.inj hreading] at hcomponent
        cases hcomponent

/-- **What a page refers to** is the file of a component. -/
theorem exists_tag_of_component {item : Item} {page : Page} (h : item.page? = some page)
    {file : String} (hfile : file ∈ page.components) :
    ∃ tag, Source.IsTag tag ∧ file = String.ofList (Path.componentFile tag) := by
  rw [Item.page?] at h
  split at h
  · rw [pageOf] at h
    split at h
    · next source hsource =>
        rw [← Option.some.inj h] at hfile
        obtain ⟨path, hpath, rfl⟩ := List.mem_map.mp hfile
        obtain ⟨tag, htag, rfl⟩ := List.mem_map.mp (mem_distinct.mp hpath)
        obtain ⟨text, htext⟩ := exists_source_of_reading hsource
        exact ⟨tag, Source.isTag_of_component htext htag, rfl⟩
    · cases hsource : markdownOf item.reading.item with
      | error failure =>
          rw [hsource] at h
          cases h
      | ok source =>
          rw [hsource] at h
          rw [← Option.some.inj h] at hfile
          cases hfile
  · cases h

/-- So it is with the pages of a build that a scan puts together. -/
theorem exists_tag_of_build {items : List Item} {readings : List Read}
    {paged : List (Attempt Page)} {loaded : List (Attempt Dataset)}
    (records : Records items readings paged loaded) {generatedAt : Int} {project : Project}
    {page : Page} (hpage : page ∈ (buildOf generatedAt project readings paged loaded).pages)
    {file : String} (hfile : file ∈ page.components) :
    ∃ tag, Source.IsTag tag ∧ file = String.ofList (Path.componentFile tag) := by
  rw [buildOf, records.pages] at hpage
  obtain ⟨item, -, hitem⟩ := List.mem_filterMap.mp hpage
  exact exists_tag_of_component hitem hfile

/-! ### Files that are looked for -/

/-- The names of a root that is found lead to its folder. -/
theorem at?_root {disk folder : Tree} {root : Place} (hroot : root.Canonical)
    (hfound : Disk.findFolder disk root = .ok folder) : disk.at? root.parts = some folder := by
  obtain ⟨-, way, hway⟩ := follow_of_find (find_of_findFolder hfound).1
  rcases Disk.follow_of_no_dots hroot.resolved.noDots [] disk with
    ⟨found, hfoundAt, heq⟩ | heq | ⟨-, cause, heq⟩
  · rw [hway] at heq
    rw [hfoundAt, (Prod.mk.inj (Except.ok.inj heq)).2]
  all_goals
    rw [hway] at heq
    cases heq

/-- So a file below the root is one of the folder. -/
theorem fileAt?_root {disk folder : Tree} {root : Place} (hroot : root.Canonical)
    (hfound : Disk.findFolder disk root = .ok folder) (names : List String) :
    disk.fileAt? (root.parts ++ names) = folder.fileAt? names := by
  rw [Tree.fileAt?, Tree.at?_append, at?_root hroot hfound, Option.bind_some, Tree.fileAt?]

section Answers

variable {disk : Tree} {place : Place}

/-- The disk refuses to look for a name that is too long. -/
theorem isFile_of_tooLong (hnull : place.holdsNull = false)
    (hlong : ¬ Disk.pathLimit < place.text.utf8ByteSize)
    (h : Disk.follow [] disk place.parts = .error .nameTooLong) :
    Disk.isFile disk place = .error (.refused .nameTooLong place) := by
  rw [Disk.isFile, Disk.ask, Disk.find, Disk.guarded, if_neg (by rw [hnull]; decide),
    if_neg hlong, h]
  rfl

/-- **Otherwise it answers** whether a file is there. -/
theorem isFile_of_short (hdots : ".." ∉ place.parts) (hnull : place.holdsNull = false)
    (hlong : ¬ Disk.pathLimit < place.text.utf8ByteSize)
    (h : Disk.follow [] disk place.parts ≠ .error .nameTooLong) :
    Disk.isFile disk place = .ok (disk.fileAt? place.parts).isSome := by
  rw [Disk.isFile, Disk.ask, Disk.find, Disk.guarded, if_neg (by rw [hnull]; decide),
    if_neg hlong]
  rcases Disk.follow_of_no_dots hdots [] disk with
    ⟨found, hfound, heq⟩ | heq | ⟨hnone, cause, heq⟩
  · rw [heq, Tree.fileAt?, hfound]
    cases found <;> rfl
  · exact absurd heq h
  · rw [heq] at h
    rw [heq, Tree.fileAt?, hnone]
    cases cause with
    | nameTooLong => exact absurd rfl h
    | _ => rfl

/-- Where it answers, nothing was too long. -/
theorem short_of_isFile {held : Bool} (hnull : place.holdsNull = false)
    (h : Disk.isFile disk place = .ok held) :
    ¬ Disk.pathLimit < place.text.utf8ByteSize ∧
      Disk.follow [] disk place.parts ≠ .error .nameTooLong := by
  have hlong : ¬ Disk.pathLimit < place.text.utf8ByteSize := by
    intro hlong
    rw [Disk.isFile, Disk.ask, Disk.find, Disk.guarded, if_neg (by rw [hnull]; decide),
      if_pos hlong] at h
    cases h
  refine ⟨hlong, fun hfollow => ?_⟩
  rw [isFile_of_tooLong hnull hlong hfollow] at h
  cases h

end Answers

/-- A place below a root that is found has no null character if its path has none. -/
theorem holdsNull_below {disk folder : Tree} {root : Place}
    (hfound : Disk.findFolder disk root = .ok folder) {names : List String}
    (hnull : ∀ name ∈ names, '\x00' ∉ name.toList) :
    Place.holdsNull ⟨.root, root.parts ++ names⟩ = false := by
  obtain ⟨hroot, -⟩ := follow_of_find (find_of_findFolder hfound).1
  rw [Place.holdsNull_eq, List.any_eq_false] at hroot ⊢
  intro name hmem
  rcases List.mem_append.mp hmem with hmem | hmem
  · exact hroot name hmem
  · simpa using hnull name hmem

/-- **The answer of the disk** about a path below a root tells whether the folder has a file
there. -/
theorem isFile_below {disk folder : Tree} {root : Place} (hroot : root.Canonical)
    (hfound : Disk.findFolder disk root = .ok folder) {path : List Char} (hpath : IsFilePath path)
    {held : Bool} (h : Disk.isFile disk (root.below (String.ofList path)) = .ok held) :
    held = (folder.fileAt? (namesOf path)).isSome := by
  obtain ⟨names, hne, hn, hnull, rfl⟩ := hpath
  rw [below_pathOf hroot hn hne] at h
  have hplain := holdsNull_below hfound hnull
  obtain ⟨hlong, hfollow⟩ := short_of_isFile hplain h
  rw [isFile_of_short (canonical_append hroot hn).resolved.noDots hplain hlong hfollow,
    fileAt?_root hroot hfound] at h
  rw [namesOf_pathOf hn hne]
  exact (Except.ok.inj h).symm

/-! ### Reports -/

/-- **What a search reports** that comes to an end, of references by pages' identifiers. -/
theorem missingReports_eq {isFile : String → Except Failure Bool} (there : String → Bool)
    {references : List (String × String)} {reports : List String}
    (hid : ∀ reference ∈ references, reference.1 ≠ "")
    (hthere : ∀ reference ∈ references, ∀ held, isFile reference.2 = .ok held →
      held = there reference.2)
    (h : missingReports isFile (references.map fun reference => ⟨.text reference.1, reference.2⟩) =
      .ok reports) :
    reports = (references.filter fun reference => !there reference.2).map fun reference =>
      "Page(" ++ reference.1 ++ ") references missing component " ++ reference.2 := by
  induction references generalizing reports with
  | nil =>
      cases h
      rfl
  | cons reference references ih =>
      obtain ⟨hfirst, hothers⟩ := List.forall_mem_cons.mp hid
      obtain ⟨hheld, hthere⟩ := List.forall_mem_cons.mp hthere
      rw [List.map_cons, missingReports] at h
      obtain ⟨held, hask, h⟩ := bind_eq_ok_iff.mp h
      rw [List.filter_cons, ← hheld held hask]
      cases held with
      | true => exact ih hothers hthere h
      | false =>
          rw [if_neg Bool.false_ne_true, message_of_reference hfirst, bind_ok] at h
          obtain ⟨others, hrest, h⟩ := bind_eq_ok_iff.mp h
          cases h
          rw [ih hothers hthere hrest]
          rfl

/-- The references of the pages of a build that are looked for: those to components that the
build does not have. -/
def askedReferences (build : Build) : List (String × String) :=
  (build.pages.flatMap fun page => page.components.map fun file => (page.id, file)).filter
    fun reference => !(Dictionary.keys build.components).contains reference.2

/-- What is asked about are the files that a page names and no component has. -/
theorem mem_askedReferences {build : Build} {reference : String × String} :
    reference ∈ askedReferences build ↔ ∃ page ∈ build.pages, ∃ file ∈ page.components,
      file ∉ Dictionary.keys build.components ∧ reference = (page.id, file) := by
  rw [askedReferences, List.mem_filter, List.mem_flatMap, Bool.not_eq_true',
    List.contains_eq_mem, decide_eq_false_iff_not]
  constructor
  · rintro ⟨⟨page, hpage, hmapped⟩, hkey⟩
    obtain ⟨file, hfile, rfl⟩ := List.mem_map.mp hmapped
    exact ⟨page, hpage, file, hfile, hkey, rfl⟩
  · rintro ⟨page, hpage, file, hfile, hkey, rfl⟩
    exact ⟨⟨page, hpage, List.mem_map_of_mem hfile⟩, hkey⟩

/-- The search goes through these references. -/
theorem missingReferencesAt_eq_missingReports (disk : Tree) (root : Place) (build : Build) :
    missingReferencesAt disk root build.toValue =
      missingReports (fun file => (Disk.isFile disk (root.below file)).mapError .disk)
        ((askedReferences build).map fun reference => ⟨.text reference.1, reference.2⟩) := by
  have hreferences : (build.pages.map Page.toValue).flatMap pageReferences =
      (build.pages.flatMap fun page => page.components.map fun file => (page.id, file)).map
        fun reference => ⟨.text reference.1, reference.2⟩ := by
    rw [List.flatMap_map, List.map_flatMap]
    simp only [pageReferences_toValue, List.map_map]
    rfl
  have hindex : textsAmong ((entriesOf (memberOrNull "componentsIndex"
      (entriesOf build.toValue))).map (·.1)) = Dictionary.keys build.components := by
    rw [build.member_componentsIndex, Value.record, entriesOf, textsAmong, List.map_map,
      List.map_map, List.filterMap_map, Dictionary.keys]
    exact congrFun List.filterMap_eq_map build.components
  rw [missingReferencesAt, missingReferences]
  simp only [build.member_pages, ContentCatalog.itemsOf, hreferences, hindex, List.filter_map,
    askedReferences]
  rfl

/-- **The missing components of a build**, where all components of the build are there. -/
theorem missingReferencesAt_eq {disk : Tree} {root : Place} {build : Build} {missing : List String}
    {there : String → Bool} (hid : ∀ page ∈ build.pages, page.id ≠ "")
    (hthere : ∀ page ∈ build.pages, ∀ file ∈ page.components, ∀ held,
      Disk.isFile disk (root.below file) = .ok held → held = there file)
    (hknown : ∀ entry ∈ build.components, there entry.1 = true)
    (h : missingReferencesAt disk root build.toValue = .ok missing) :
    missing = build.pages.flatMap fun page =>
      (page.components.filter fun file => !there file).map fun file =>
        "Page(" ++ page.id ++ ") references missing component " ++ file := by
  rw [missingReferencesAt_eq_missingReports] at h
  -- What the build knows is there, so the first filter leaves out nothing more.
  have hknown' : ∀ reference : String × String,
      (!there reference.2 && !(Dictionary.keys build.components).contains reference.2) =
        !there reference.2 := by
    intro reference
    cases hheld : there reference.2 with
    | true => rfl
    | false =>
        rw [Bool.not_false, Bool.true_and, Bool.not_eq_true', List.contains_eq_mem,
          decide_eq_false_iff_not]
        intro hkey
        obtain ⟨entry, hentry, heq⟩ := List.mem_map.mp hkey
        rw [← heq, hknown entry hentry] at hheld
        cases hheld
  rw [missingReports_eq there ?_ ?_ h, askedReferences, List.filter_filter]
  · simp only [hknown', List.filter_flatMap, List.map_flatMap, List.filter_map, List.map_map]
    rfl
  · intro reference hreference
    obtain ⟨page, hpage, file, -, -, rfl⟩ := mem_askedReferences.mp hreference
    exact hid page hpage
  · intro reference hreference held hask
    obtain ⟨page, hpage, file, hfile, -, rfl⟩ := mem_askedReferences.mp hreference
    exact hthere page hpage file hfile held (mapError_eq_ok_iff.mp hask)

end Scan

/-! ### A page with two components -/

namespace Sample

open ContentCatalog.Scan

/-- A page that uses two components, of which one is there. -/
def markupFolder : Tree :=
  .folder [("src", .folder [("components", .folder [("Card.astro", .file ⟨#[]⟩)]),
    ("pages", .folder [("p.astro", .file "<Card/><Gone/>".toUTF8)])])]

/-- The disk with the project. -/
def markupDisk : Tree :=
  .folder [("site", markupFolder)]

/-- A scan that looks for components. -/
def markupRequest : Scan.Request :=
  { request .report with verify := some true }

theorem markupOpened :
    Opened around markupDisk markupRequest root out markupFolder (settings .report) where
  located := by
    simp only [markupRequest, request, Surroundings.locate, Surroundings.resolve,
      Place.holdsNull_eq]
    rfl
  found := by
    simp only [Disk.findFolder, Disk.find, Disk.guarded, Place.holdsNull_eq]
    rfl
  settled := rfl
  placed := by
    simp only [markupRequest, request, Request.outAt, Settings.outPlace, Surroundings.resolve,
      Place.holdsNull_eq]
    rfl

/-- The names of the sample have every property that its five names have. -/
theorem named_markupFolder {p : String → Prop}
    (h : ∀ name ∈ ["src", "components", "Card.astro", "pages", "p.astro"], p name) :
    markupFolder.Named p := by
  simp only [List.forall_mem_cons] at h
  obtain ⟨hsrc, hcomponents, hcard, hpages, hp, -⟩ := h
  simp [markupFolder, Tree.named_folder_iff, Tree.Named.file, hsrc, hcomponents, hcard, hpages, hp]

/-- The two files, as they are found. -/
theorem walk_markupFolder : Disk.walk (filter root out (settings .report)) markupFolder =
    [⟨"src/components/Card.astro".toList, ⟨#[]⟩⟩,
      ⟨"src/pages/p.astro".toList, "<Card/><Gone/>".toUTF8⟩] := by
  rw [Disk.walk, markupFolder, Disk.walkFrom_subfolder (by decide +kernel),
    Disk.walkFrom_folder, Disk.sorted_of_pairwise (by decide)]
  simp only [List.flatMap_cons, List.flatMap_nil, Disk.shareOf]
  rw [if_pos (by decide +kernel), if_pos (by decide +kernel), Disk.walkFrom_folder,
    Disk.walkFrom_folder, Disk.sorted_of_pairwise (by simp), Disk.sorted_of_pairwise (by simp)]
  simp only [List.flatMap_cons, List.flatMap_nil, Disk.shareOf]
  rw [if_pos (by decide +kernel), if_pos (by decide +kernel)]
  rfl

/-- One of the two components that the page names is reported. -/
theorem exists_markupResult :
    ∃ result, (run around markupDisk markupRequest).result = .ok result ∧
      result.errors =
        ["Page(src/pages/p.astro) references missing component src/components/Gone.astro"] := by
  refine exists_ended ?_
  rw [run_of_opened markupOpened, result_scanFolder, walk_markupFolder]
  simp only [missingOf, missingReferencesAt, Disk.isFile, Disk.ask, Disk.find, Disk.guarded,
    Place.holdsNull_eq]
  decide +kernel

end Sample

namespace Scan

/-! ### Whole scans -/

/-- What a scan has as an item is a file of its folder, under the item's key. -/
theorem Finished.file_of_item (scan : Finished) {item : Item}
    (h : item ∈ scannedItems scan.root scan.out scan.settings scan.folder) :
    scan.folder.fileAt? (namesOf item.key) = some item.content := by
  obtain ⟨hroot, hnamed⟩ := canonical_root scan.opened scan.names
  rw [scannedItems_eq hroot scan.plainRoot hnamed scan.plainNames] at h
  obtain ⟨found, hfound, rfl⟩ := List.mem_map.mp h
  obtain ⟨names, hne, hn, hholds, -, hpath⟩ :=
    Disk.exists_names_of_mem_walk hnamed (List.mem_filter.mp hfound).1
  obtain ⟨path, content⟩ := found
  obtain rfl : path = pathOf names := hpath
  rw [key_itemAt hroot scan.plainRoot hn (scan.plainNames.of_holds hholds) hne,
    namesOf_pathOf hn hne]
  exact (Tree.fileAt?_eq_some_iff hnamed).mpr hholds

/-- **A component of the build** is a file of the project. -/
theorem Finished.exists_file_of_component (scan : Finished) {entry : String × Component}
    (h : entry ∈ scan.result.build.components) :
    (scan.folder.fileAt? (namesOf entry.1.toList)).isSome = true := by
  obtain ⟨readings, paged, loaded, others, records, hresult, -⟩ :=
    exists_records_of_run scan.opened scan.ended
  rw [hresult, resultOf, buildOf, records.components] at h
  obtain ⟨item, hitem, hentry⟩ := List.mem_filterMap.mp h
  rw [(component_of_item hentry).1, item.toList_name, scan.file_of_item hitem]
  rfl

/-- **A scan that looks for components** reports exactly the references of its pages to files
that are not in the project, page by page, behind the files that could not be decoded. -/
theorem missing_components (scan : Finished)
    (hverify : scan.request.verify.getD scan.settings.verify = true) :
    ∃ undecoded, (∀ report ∈ undecoded, IsUndecoded report) ∧
      scan.result.errors = undecoded ++ scan.result.build.pages.flatMap fun page =>
        (page.components.filter fun file =>
          (scan.folder.fileAt? (namesOf file.toList)).isNone).map fun file =>
            "Page(" ++ page.id ++ ") references missing component " ++ file := by
  obtain ⟨hroot, -⟩ := canonical_root scan.opened scan.names
  have hended := scan.ended
  rw [run_of_opened scan.opened] at hended
  obtain ⟨readings, paged, loaded, missing, stages, -, hmissing, hresult, -⟩ :=
    reports_of_report scan.opened hended
  have hsound := sound_of_stages scan.opened stages (milliseconds scan.request.micros)
  have hbuild : scan.result.build = buildOf (milliseconds scan.request.micros)
      (projectAt scan.root) readings paged loaded := by
    rw [hresult]
    rfl
  rw [← hbuild] at hmissing hsound
  rw [missingOf, if_pos hverify] at hmissing
  have hanswers : ∀ page ∈ scan.result.build.pages, ∀ file ∈ page.components, ∀ held,
      Disk.isFile scan.disk (scan.root.below file) = .ok held →
        held = (scan.folder.fileAt? (namesOf file.toList)).isSome := by
    intro page hpage file hfile held hask
    rw [hbuild] at hpage
    obtain ⟨tag, htag, rfl⟩ := exists_tag_of_build (records_of_stages stages) hpage hfile
    rw [String.toList_ofList]
    exact isFile_below hroot scan.opened.found (isFilePath_componentFile htag) hask
  have hreports := missingReferencesAt_eq (fun page hpage => (hsound.pages page hpage).id) hanswers
    (fun entry => scan.exists_file_of_component) hmissing
  simp only [Option.not_isSome] at hreports
  refine ⟨undecodedReports paged loaded, fun report => isUndecoded_of_mem stages, ?_⟩
  rw [← hreports, hresult]
  rfl

/-- Of the two components that the page of the sample project uses, one is missing. -/
theorem missing_components_sample :
    ∃ scan : Finished, scan.folder = Sample.markupFolder ∧ scan.result.errors =
        ["Page(src/pages/p.astro) references missing component src/components/Gone.astro"] ∧
      ∃ undecoded, (∀ report ∈ undecoded, IsUndecoded report) ∧
        scan.result.errors = undecoded ++ scan.result.build.pages.flatMap fun page =>
          (page.components.filter fun file =>
            (Sample.markupFolder.fileAt? (namesOf file.toList)).isNone).map fun file =>
              "Page(" ++ page.id ++ ") references missing component " ++ file := by
  obtain ⟨result, hended, herrors⟩ := Sample.exists_markupResult
  let scan : Finished := ⟨_, _, _, _, _, _, _, _, Sample.markupOpened,
    .folder (by simp) (by decide) (by simpa using Sample.named_markupFolder (by decide)),
    Sample.named_markupFolder (by decide), by decide, hended⟩
  exact ⟨scan, rfl, herrors, missing_components scan rfl⟩

end Scan

end ContentCatalog
