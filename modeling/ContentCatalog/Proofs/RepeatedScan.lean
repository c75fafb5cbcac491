import ContentCatalog.Proofs.DiskNames
import ContentCatalog.Proofs.MissingComponents
import ContentCatalog.Proofs.ReportedScan
import Mathlib.Data.String.Basic

/-!
# Scans behind a writing

Results can be written to any folder, also to one of the project.  Their files are of no kind
that a scan tracks, so a scan behind the writing finds the same sources and makes the same of
them.  Only the search for components can tell a difference: the disk notices that a name is too
long as soon as there is a folder to look into, and the writing may have made that folder.

* `isTracked_of_json` : the files of results are not tracked;
* `keptSources_of_write` : a writing changes no other files;
* `answersAgain_of_kept` : what the disk answers about a component behind it;
* `missing_of_kept`, `missing_of_refused` : and what a search for components comes to;
* `repeated_scan` : the statement about whole scans.
-/

namespace ContentCatalog

open Text

/-! ### Files of results -/

/-- The suffix of the files of results. -/
def jsonSuffix : List Char := ".json".toList

/-- The names lead to a file with this suffix. -/
def IsJson (names : List String) : Prop :=
  ∃ name, names.getLast? = some name ∧ jsonSuffix <:+ name.toList

/-- No text with this suffix has the suffix of a tracked file. -/
theorem not_suffix_of_json {text suffix : List Char} (hjson : jsonSuffix <:+ text)
    (hsuffix : suffix ∈ Path.trackedSuffixes) : ¬ suffix <:+ text := by
  have hdistinct : ∀ suffix ∈ Path.trackedSuffixes,
      ¬ jsonSuffix <:+ suffix ∧ ¬ suffix <:+ jsonSuffix := by decide
  obtain ⟨hlonger, hshorter⟩ := hdistinct suffix hsuffix
  intro h
  rcases List.suffix_or_suffix_of_suffix hjson h with hends | hends
  · exact hlonger hends
  · exact hshorter hends

/-- **The files of results are not tracked.** -/
theorem isTracked_of_json {path : List Char} (h : jsonSuffix <:+ path) :
    Path.isTracked path = false := by
  obtain ⟨front, rfl⟩ := h
  rw [Bool.eq_false_iff]
  intro htracked
  obtain ⟨suffix, hsuffix, start, hstart⟩ := Path.isTracked_iff.mp htracked
  have hkept : ∀ before, lowerAfter before jsonSuffix = jsonSuffix := fun _ => rfl
  obtain ⟨lowered, hlowered⟩ := Path.lower_append hkept (Path.normalize front)
  rw [Path.normalize_append, show Path.normalize jsonSuffix = jsonSuffix from rfl,
    hlowered] at hstart
  exact not_suffix_of_json ⟨lowered, rfl⟩ hsuffix ⟨start, hstart.symm⟩

/-- Whether a way ends at a file of results is seen at its last names. -/
theorem isJson_append {above names : List String} (hne : names ≠ []) :
    IsJson (above ++ names) ↔ IsJson names := by
  rw [IsJson, IsJson, List.getLast?_append_of_ne_nil _ hne]

/-- The path of such a way ends in the suffix of these files. -/
theorem suffix_pathOf {names : List String} (h : IsJson names) : jsonSuffix <:+ pathOf names := by
  obtain ⟨name, hlast, hsuffix⟩ := h
  obtain ⟨front, rfl⟩ := List.getLast?_eq_some_iff.mp hlast
  by_cases hne : front = []
  · subst hne
    simpa [pathOf] using hsuffix
  · rw [pathOf_concat name hne]
    exact hsuffix.trans ⟨pathOf front ++ ['/'], by simp⟩

/-- The file of a component is none of them. -/
theorem not_isJson_componentNames (tag : List Char) : ¬ IsJson (componentNames tag) := by
  rintro ⟨name, hlast, hsuffix⟩
  obtain rfl : String.ofList (tag ++ Path.componentSuffix) = name := Option.some.inj hlast
  rw [String.toList_ofList] at hsuffix
  exact not_suffix_of_json hsuffix (List.mem_cons_self) (List.suffix_append _ _)

/-! ### Changes of other files -/

/-- Between two trees only files of results were changed, and no folder was lost. -/
structure KeptSources (before after : Tree) : Prop where
  files : ∀ names, ¬ IsJson names → after.fileAt? names = before.fileAt? names
  folders : ∀ names, before.FolderAt names → after.FolderAt names

/-- **A writing of results** changes no other files. -/
theorem keptSources_of_write {result : Scan.Result} {place : Place} {disk : Disk.State}
    {written : Output.Written}
    (h : (Output.write result place disk).2.result = .ok written) :
    KeptSources disk.tree (Output.write result place disk).1.tree := by
  obtain ⟨-, way, files, -, hreplaced, hfiles⟩ := Output.stored_of_write h
  have hjson : ∀ names ∈ Output.resultFiles way, IsJson names := by
    refine List.forall_mem_map.mpr fun name hname => ⟨name, List.getLast?_concat, ?_⟩
    revert name
    decide
  refine ⟨fun names hnames => hreplaced.others names ?_, hreplaced.folders⟩
  rw [hfiles]
  exact fun hmem => hnames (hjson names hmem)

namespace Scan

/-! ### The walk -/

/-- A scan reaches no file of results. -/
theorem not_isJson_of_reaches {root out : Place} {settings : Settings} {names : List String}
    (hn : ∀ name ∈ names, IsName name)
    (h : (filter root out settings).reaches [] names = true) : ¬ IsJson names := by
  intro hjson
  obtain ⟨-, htakes, -⟩ := Disk.reaches_iff.mp h
  rw [pathBelow_eq_pathOf hn, Disk.Filter.takes, Bool.and_eq_true] at htakes
  have haccept : (!Path.isHidden (pathOf names) && Path.isTracked (pathOf names)) = true := htakes.2
  rw [isTracked_of_json (suffix_pathOf hjson), Bool.and_false] at haccept
  cases haccept

section Kept

variable {around : Surroundings} {before after folder other : Tree} {request : Request}
  {root out : Place} {settings : Settings}

/-- A scan with settings of its own gets as far as the folder again. -/
theorem opened_of_kept (kept : KeptSources before after)
    (opened : Opened around before request root out folder settings)
    (hsettings : request.settings = some settings) :
    ∃ other, Opened around after request root out other settings := by
  obtain ⟨hfind, entries, rfl⟩ := find_of_findFolder opened.found
  obtain ⟨hnull, hlong, hfound⟩ := Disk.guarded_eq_ok_iff.mp hfind
  obtain ⟨⟨way, tree⟩, hway, rfl⟩ := map_eq_ok_iff.mp hfound
  obtain ⟨others, hothers⟩ := Disk.follow_of_kept kept.folders hway
  have hagain : Disk.find after root = .ok (.folder others) :=
    Disk.guarded_eq_ok_iff.mpr ⟨hnull, hlong, by rw [hothers]; rfl⟩
  refine ⟨.folder others, opened.located, ?_, ?_, opened.placed⟩
  · rw [Disk.findFolder, hagain]
    rfl
  · rw [Request.settingsAt, hsettings]

/-- **It finds the same sources.** -/
theorem walk_of_kept (kept : KeptSources before after) (hbefore : before.Named IsName)
    (hafter : after.Named IsName)
    (opened : Opened around before request root out folder settings)
    (again : Opened around after request root out other settings) :
    Disk.walk (filter root out settings) other = Disk.walk (filter root out settings) folder := by
  obtain ⟨hroot, hfolder⟩ := canonical_root opened hbefore
  obtain ⟨-, hother⟩ := canonical_root again hafter
  refine Disk.walk_eq_of_holds hother hfolder fun names hn hreaches content => ?_
  have hne : names ≠ [] := (Disk.reaches_iff.mp hreaches).1
  have hsource : ¬ IsJson (root.parts ++ names) := by
    rw [isJson_append hne]
    exact not_isJson_of_reaches hn hreaches
  rw [← Tree.fileAt?_eq_some_iff hother, ← Tree.fileAt?_eq_some_iff hfolder,
    ← fileAt?_root hroot again.found, ← fileAt?_root hroot opened.found, kept.files _ hsource]

end Kept

/-! ### Answers about components -/

/-- The name of the place is too long, and its folder is there to look into. -/
def TooLongIn (disk : Tree) (place : Place) : Prop :=
  disk.FolderAt place.parent.parts ∧ Disk.nameLimit < place.name.utf8ByteSize

section Component

variable {before after folder : Tree} {root : Place} {tag : List Char}

/-- The place of a component's file below a root. -/
theorem below_componentFile (hroot : root.Canonical) (htag : Source.IsTag tag) :
    root.below (String.ofList (Path.componentFile tag)) =
      ⟨.root, root.parts ++ componentNames tag⟩ := by
  rw [componentFile_eq htag]
  exact below_pathOf hroot (fun _ hname => (isName_of_mem_componentNames htag hname).1)
    (List.cons_ne_nil _ _)

/-- It is a canonical place. -/
theorem canonical_componentNames (hroot : root.Canonical) (htag : Source.IsTag tag) :
    Place.Canonical ⟨.root, root.parts ++ componentNames tag⟩ :=
  canonical_append hroot fun _ hname => (isName_of_mem_componentNames htag hname).1

/-- A disk can be asked about it. -/
theorem holdsNull_componentNames (hfound : Disk.findFolder before root = .ok folder)
    (htag : Source.IsTag tag) :
    Place.holdsNull ⟨.root, root.parts ++ componentNames tag⟩ = false :=
  holdsNull_below hfound fun _ hname => (isName_of_mem_componentNames htag hname).2

/-- **A component's name that is too long** is noticed in its folder only. -/
theorem follow_component_iff (hroot : root.Canonical)
    (hfound : Disk.findFolder before root = .ok folder) (htag : Source.IsTag tag) (disk : Tree) :
    Disk.follow [] disk (root.parts ++ componentNames tag) = .error .nameTooLong ↔
      TooLongIn disk ⟨.root, root.parts ++ componentNames tag⟩ := by
  obtain ⟨-, way, hway⟩ := follow_of_find (find_of_findFolder hfound).1
  have hdots : ".." ∉ root.parts ++ componentNames tag :=
    (canonical_componentNames hroot htag).resolved.noDots
  have hfixed : ∀ name ∈ ["src", "components"], name.utf8ByteSize ≤ Disk.nameLimit := by decide
  have hshort : ∀ name ∈ root.parts ++ ["src", "components"],
      name.utf8ByteSize ≤ Disk.nameLimit := by
    intro name hname
    rcases List.mem_append.mp hname with hname | hname
    · exact Disk.short_of_follow hroot.resolved.noDots hway name hname
    · exact hfixed name hname
  have hparts : root.parts ++ componentNames tag = (root.parts ++ ["src", "components"]) ++
      [String.ofList (tag ++ Path.componentSuffix)] := by
    rw [List.append_assoc]
    rfl
  rw [hparts] at hdots ⊢
  rw [Disk.follow_eq_tooLong_iff hdots hshort, TooLongIn, Place.parent, Place.name]
  simp only [List.dropLast_concat, List.getLast?_concat, Option.getD_some]

/-- A disk that answered about a place answers the same again, or it refuses because the name is
too long for a folder that was not there before. -/
structure AnswersAgain (before after : Tree) (place : Place) (held : Bool) : Prop where
  kept : ¬ TooLongIn after place → Disk.isFile after place = .ok held
  refused : TooLongIn after place → Disk.isFile after place = .error (.refused .nameTooLong place)
  fresh : TooLongIn after place → ¬ before.FolderAt place.parent.parts

/-- **So does every disk** on which only files of results were changed, about a component. -/
theorem answersAgain_of_kept (kept : KeptSources before after) (hroot : root.Canonical)
    (hfound : Disk.findFolder before root = .ok folder) (htag : Source.IsTag tag) {held : Bool}
    (h : Disk.isFile before (root.below (String.ofList (Path.componentFile tag))) = .ok held) :
    AnswersAgain before after (root.below (String.ofList (Path.componentFile tag))) held := by
  rw [below_componentFile hroot htag] at h ⊢
  have hnull := holdsNull_componentNames hfound htag
  have hdots := (canonical_componentNames hroot htag).resolved.noDots
  have hsource : ¬ IsJson (root.parts ++ componentNames tag) := fun hjson =>
    not_isJson_componentNames tag ((isJson_append (List.cons_ne_nil _ _)).mp hjson)
  obtain ⟨hlong, hfollow⟩ := short_of_isFile hnull h
  refine ⟨fun hshort => ?_, fun htooLong => ?_, fun htooLong hfolder => ?_⟩
  · have hagain : Disk.follow [] after (root.parts ++ componentNames tag) ≠ .error .nameTooLong :=
      fun hagain => hshort ((follow_component_iff hroot hfound htag after).mp hagain)
    rw [isFile_of_short hdots hnull hlong hfollow] at h
    rw [isFile_of_short hdots hnull hlong hagain, kept.files _ hsource]
    exact h
  · refine isFile_of_tooLong hnull hlong ?_
    exact (follow_component_iff hroot hfound htag after).mpr htooLong
  · refine hfollow ?_
    exact (follow_component_iff hroot hfound htag before).mpr ⟨hfolder, htooLong.2⟩

end Component

/-! ### Searches for components -/

/-- A search that comes to an end was answered about every file. -/
theorem answered_of_missingReports {isFile : String → Except Failure Bool}
    {references : List MissingReference} {reports : List String}
    (h : missingReports isFile references = .ok reports) :
    ∀ reference ∈ references, ∃ held, isFile reference.file = .ok held := by
  induction references generalizing reports with
  | nil => simp
  | cons reference references ih =>
      rw [missingReports] at h
      obtain ⟨held, hask, h⟩ := bind_eq_ok_iff.mp h
      refine List.forall_mem_cons.mpr ⟨⟨held, hask⟩, ?_⟩
      cases held with
      | true => exact ih h
      | false =>
          obtain ⟨report, -, h⟩ := bind_eq_ok_iff.mp h
          obtain ⟨others, hrest, -⟩ := bind_eq_ok_iff.mp h
          exact ih hrest

/-- With the same answers it comes to the same. -/
theorem missingReports_congr {isFile other : String → Except Failure Bool}
    {references : List MissingReference}
    (h : ∀ reference ∈ references, other reference.file = isFile reference.file) :
    missingReports other references = missingReports isFile references := by
  induction references with
  | nil => rfl
  | cons reference references ih =>
      obtain ⟨hfirst, hothers⟩ := List.forall_mem_cons.mp h
      rw [missingReports, missingReports, hfirst, ih hothers]

/-- The disk refuses to look for the file, which a page names and the build does not have. -/
def Refused (disk : Tree) (root : Place) (build : Build) (file : String) : Prop :=
  (∃ page ∈ build.pages, file ∈ page.components) ∧ file ∉ Dictionary.keys build.components ∧
    TooLongIn disk (root.below file)

/-- The files that a disk refuses are asked about, and a name in them is too long. -/
theorem refused_iff {disk : Tree} {root : Place} {build : Build} {file : String} :
    Refused disk root build file ↔
      (∃ reference ∈ askedReferences build, reference.2 = file) ∧
        TooLongIn disk (root.below file) := by
  constructor
  · rintro ⟨⟨page, hpage, hfile⟩, hkey, hlong⟩
    exact ⟨⟨_, mem_askedReferences.mpr ⟨page, hpage, file, hfile, hkey, rfl⟩, rfl⟩, hlong⟩
  · rintro ⟨⟨reference, hreference, rfl⟩, hlong⟩
    obtain ⟨page, hpage, file, hfile, hkey, rfl⟩ := mem_askedReferences.mp hreference
    exact ⟨⟨page, hpage, hfile⟩, hkey, hlong⟩

section Search

variable {before after : Tree} {root : Place} {build : Build} {missing : List String}

/-- What was asked for was answered, and is answered again. -/
theorem answersAgain_of_asked
    (hanswers : ∀ page ∈ build.pages, ∀ file ∈ page.components, ∀ held,
      Disk.isFile before (root.below file) = .ok held →
        AnswersAgain before after (root.below file) held)
    (h : missingReferencesAt before root build.toValue = .ok missing) :
    ∀ reference ∈ askedReferences build, ∃ held,
      Disk.isFile before (root.below reference.2) = .ok held ∧
        AnswersAgain before after (root.below reference.2) held := by
  intro reference hreference
  rw [missingReferencesAt_eq_missingReports] at h
  obtain ⟨held, hheld⟩ := answered_of_missingReports h _ (List.mem_map_of_mem hreference)
  have hask := mapError_eq_ok_iff.mp hheld
  obtain ⟨page, hpage, file, hfile, -, rfl⟩ := mem_askedReferences.mp hreference
  exact ⟨held, hask, hanswers page hpage file hfile held hask⟩

variable (hanswers : ∀ reference ∈ askedReferences build, ∃ held,
    Disk.isFile before (root.below reference.2) = .ok held ∧
      AnswersAgain before after (root.below reference.2) held)

include hanswers

/-- **The search comes to the same** if no file is refused. -/
theorem missing_of_kept (h : missingReferencesAt before root build.toValue = .ok missing)
    (hnone : ∀ file, ¬ Refused after root build file) :
    missingReferencesAt after root build.toValue = .ok missing := by
  have hkept : ∀ reference ∈ askedReferences build,
      Disk.isFile after (root.below reference.2) = Disk.isFile before (root.below reference.2) := by
    intro reference hreference
    obtain ⟨held, hask, hagain⟩ := hanswers reference hreference
    rw [hask]
    exact hagain.kept fun hlong => hnone _ (refused_iff.mpr ⟨⟨reference, hreference, rfl⟩, hlong⟩)
  rw [← h, missingReferencesAt_eq_missingReports, missingReferencesAt_eq_missingReports]
  refine missingReports_congr (List.forall_mem_map.mpr fun reference hreference => ?_)
  rw [hkept reference hreference]

/-- **Else it fails** at such a file, in a folder that was not there before. -/
theorem missing_of_refused (hid : ∀ page ∈ build.pages, page.id ≠ "") {file : String}
    (hfile : Refused after root build file) :
    ∃ file, Refused after root build file ∧ ¬ before.FolderAt (root.below file).parent.parts ∧
      missingReferencesAt after root build.toValue =
        .error (.disk (.refused .nameTooLong (root.below file))) := by
  rw [missingReferencesAt_eq_missingReports]
  cases hsearch : missingReports
      (fun file => (Disk.isFile after (root.below file)).mapError .disk)
      ((askedReferences build).map fun reference => ⟨.text reference.1, reference.2⟩) with
  | ok reports =>
      obtain ⟨⟨reference, hreference, rfl⟩, hlong⟩ := refused_iff.mp hfile
      obtain ⟨_, -, hagain⟩ := hanswers reference hreference
      obtain ⟨held, hheld⟩ := answered_of_missingReports hsearch _ (List.mem_map_of_mem hreference)
      rw [hagain.refused hlong] at hheld
      cases hheld
  | error failure =>
      obtain ⟨_, hmem, hfails⟩ := exists_of_missingReports_error hsearch
      obtain ⟨reference, hreference, rfl⟩ := List.mem_map.mp hmem
      obtain ⟨held, -, hagain⟩ := hanswers reference hreference
      rcases hfails with hdisk | hmessage
      -- The search stops at the first such file, which need not be the given one.
      · by_cases hlong : TooLongIn after (root.below reference.2)
        · rw [hagain.refused hlong] at hdisk
          refine ⟨reference.2, refused_iff.mpr ⟨⟨reference, hreference, rfl⟩, hlong⟩,
            hagain.fresh hlong, ?_⟩
          rw [← Except.error.inj hdisk]
        · rw [hagain.kept hlong] at hdisk
          cases hdisk
      · obtain ⟨page, hpage, _, -, -, rfl⟩ := mem_askedReferences.mp hreference
        rw [message_of_reference (hid page hpage)] at hmessage
        cases hmessage

end Search

end Scan

/-! ### A page with a long tag -/

/-- A text without a carriage return has its line ends already. -/
theorem Text.unifyBreaks_of_no_return {text : List Char} (h : '\r' ∉ text) :
    unifyBreaks text = text := by
  fun_induction unifyBreaks text <;> simp_all

namespace Sample

open ContentCatalog.Scan Output

/-- A tag that makes the name of a component's file too long. -/
def longTag : List Char :=
  List.replicate 250 'A'

/-- The file of its component. -/
def longFile : String :=
  String.ofList (Path.componentFile longTag)

/-- The source of a page that uses this component. -/
def longText : List Char :=
  '<' :: (longTag ++ ['/', '>'])

def longContent : ByteArray :=
  ⟨⟨longText.map fun c => c.val.toUInt8⟩⟩

/-- A project with this page that has no components. -/
def longFolder : Tree :=
  .folder [("src", .folder [("pages", .folder [("p.astro", .file longContent)])])]

/-- The disk with the project. -/
def longDisk : Disk.State :=
  { tree := .folder [("site", longFolder)] }

/-- The folder of components, to which results are written. -/
def componentsOut : Place :=
  ⟨.root, ["site", "src", "components"]⟩

theorem longOpened :
    Opened around longDisk.tree markupRequest root out longFolder (settings .report) where
  located := markupOpened.located
  found := by
    simp only [Disk.findFolder, Disk.find, Disk.guarded, Place.holdsNull_eq]
    rfl
  settled := rfl
  placed := markupOpened.placed

theorem named_longDisk : longDisk.tree.Named IsName := by
  refine .folder (by simp) (by decide) (List.forall_mem_singleton.mpr ?_)
  refine .folder (by simp) (by decide) (List.forall_mem_singleton.mpr ?_)
  refine .folder (by simp) (by decide) (List.forall_mem_singleton.mpr ?_)
  exact .folder (by simp) (by decide) (List.forall_mem_singleton.mpr (.file _))

/-- The page, as it is found. -/
def longItem : Item :=
  itemAt root ⟨"src/pages/p.astro".toList, longContent⟩

theorem scannedItems_long : scannedItems root out (settings .report) longFolder = [longItem] := by
  rw [scannedItems, Disk.walk, longFolder, Disk.walkFrom_subfolder (by decide +kernel),
    Disk.walkFrom_subfolder (by decide +kernel), Disk.walkFrom_folder,
    Disk.sorted_of_pairwise (by simp)]
  simp only [List.flatMap_cons, List.flatMap_nil, Disk.shareOf]
  rw [if_pos (by decide +kernel)]
  rfl

/-- What its source tells. -/
def longReading : Read :=
  ⟨longItem, some ⟨[], [longTag]⟩⟩

/-- The page of the build. -/
def longPage : Page where
  id := longItem.name
  file := longItem.name
  route := String.ofList (Path.route longItem.key)
  components := [longFile]
  fields := []
  sourceType := some FieldSource.component.name

theorem decodeText_long : Disk.decodeText longContent = .ok longText := by
  have hbytes : longContent.toList = longText.map fun c => c.val.toUInt8 := by decide +kernel
  have hdecode : ∃ chars, Utf8.decode (longText.map fun c => c.val.toUInt8) = .ok chars ∧
      chars = longText := exists_ended (by decide +kernel)
  obtain ⟨chars, hdecode, rfl⟩ := hdecode
  rw [Disk.decodeText, hbytes, hdecode]
  exact congrArg Except.ok (unifyBreaks_of_no_return (by decide +kernel))

theorem readingOf_long : readingOf longItem = .ok longReading := by
  have hkind : Path.isComponent longItem.key = true := by decide +kernel
  have hsource : ∃ source, Source.component longText = .ok source ∧
      (source.props.isEmpty, source.tags) = (true, [longTag]) := exists_ended (by decide +kernel)
  obtain ⟨⟨props, tags⟩, hsource, hparts⟩ := hsource
  obtain ⟨hprops, rfl⟩ := Prod.mk.inj hparts
  obtain rfl := List.isEmpty_iff.mp hprops
  rw [readingOf, if_pos hkind, show longItem.content = longContent from rfl, decodeText_long,
    bind_ok, hsource]
  rfl

/-- What the scan results in. -/
def longResult : Scan.Result :=
  resultOf root markupRequest [longItem] [longReading] [.done longPage] []
    ["Page(" ++ longItem.name ++ ") references missing component " ++ longFile]

/-- The stages of the scan give the one page. -/
theorem stages_long :
    Stages .report (scannedItems root out (settings .report) longFolder) [longReading]
      [.done longPage] [] := by
  have hpage : Path.isPage longItem.key = true := by decide +kernel
  have hdata : (Path.isDataset longItem.key && Path.isUnderData longItem.key) = false := by
    decide +kernel
  have hfiles : Path.componentFiles [longTag] = [Path.componentFile longTag] := by decide +kernel
  have hpageOf : pageOf longReading = .ok longPage := by
    rw [longPage, longFile, ← List.map_singleton, ← hfiles]
    rfl
  have hpages : pageReadings [longReading] = [longReading] := List.filter_cons_of_pos hpage
  have hdatasets : datasetItems [longItem] = [] :=
    List.filter_cons_of_neg (by rw [hdata]; decide)
  rw [scannedItems_long]
  refine ⟨mapM_eq_ok_iff.mpr (.cons readingOf_long .nil), ?_, ?_⟩
  · rw [hpages]
    exact mapM_eq_ok_iff.mpr (.cons (hpageOf ▸ settle_ok _ _ _) .nil)
  · rw [hdatasets]
    rfl

theorem isTag_long : Source.IsTag longTag := by
  refine ⟨by decide, fun c hc => ?_⟩
  rw [List.eq_of_mem_replicate hc]
  decide

theorem root_canonical : root.Canonical :=
  ⟨rfl, by decide⟩

/-- The folder of components is not there, so the disk does not notice the name. -/
theorem isFile_long : Disk.isFile longDisk.tree (root.below longFile) = .ok false := by
  have hnull := holdsNull_componentNames longOpened.found isTag_long
  have hdots := (canonical_componentNames root_canonical isTag_long).resolved.noDots
  have hpath : ¬ Disk.pathLimit <
      (Place.text ⟨.root, root.parts ++ componentNames longTag⟩).utf8ByteSize := by
    have hnames : (root.parts ++ componentNames longTag).map String.toList =
        ["site".toList, "src".toList, "components".toList, longTag ++ Path.componentSuffix] := by
      simp [root, componentNames]
    rw [← String.ofList_toList (s := Place.text _), Place.text_toList (by simp [root]), hnames,
      String.utf8ByteSize_ofList]
    decide +kernel
  rw [longFile, below_componentFile root_canonical isTag_long]
  refine isFile_of_short hdots hnull hpath fun hfollow => ?_
  obtain ⟨⟨entries, hfolder⟩, -⟩ :=
    (follow_component_iff root_canonical longOpened.found isTag_long _).mp hfollow
  cases hfolder

/-- No component of the build has the file's name. -/
theorem unknown_long : longFile ∉ Dictionary.keys longResult.build.components := by
  have hkeys : Dictionary.keys longResult.build.components = [longItem.name] := rfl
  have hpaths : Path.componentFile longTag ≠ longItem.key := by decide +kernel
  rw [hkeys, List.mem_singleton]
  exact fun heq => hpaths (String.ofList_injective heq)

theorem asked_long : askedReferences longResult.build = [(longItem.name, longFile)] := by
  have hnew : (Dictionary.keys longResult.build.components).contains longFile = false := by
    rw [List.contains_eq_mem, decide_eq_false_iff_not]
    exact unknown_long
  have hall : (longResult.build.pages.flatMap fun page =>
      page.components.map fun file => (page.id, file)) = [(longItem.name, longFile)] := by
    simp [longResult, resultOf, buildOf, Attempt.value?, longPage]
  rw [askedReferences, hall, List.filter_singleton, hnew]
  rfl

/-- The scan has a result, since there is no folder of components yet. -/
theorem run_long : (run around longDisk.tree markupRequest).result = .ok longResult := by
  have hsound := sound_of_stages longOpened stages_long (milliseconds markupRequest.micros)
  have hid : longItem.name ≠ "" := (hsound.pages longPage (List.mem_singleton_self _)).id
  have hmissing : missingOf longDisk.tree root (settings .report) markupRequest longResult.build =
      .ok ["Page(" ++ longItem.name ++ ") references missing component " ++ longFile] := by
    have hverify : markupRequest.verify.getD (settings .report).verify = true := rfl
    rw [missingOf, if_pos hverify, missingReferencesAt_eq_missingReports, asked_long,
      List.map_singleton, missingReports, isFile_long, message_of_reference hid]
    rfl
  rw [run_of_opened longOpened,
    scanFolder_of_stages stages_long (defectReports_of_sound hsound) hmissing, scannedItems_long]
  rfl

/-- The writing into the components comes to its end and makes a folder of them. -/
theorem write_long :
    (∃ written, (write longResult componentsOut longDisk).2.result = .ok written) ∧
      ((write longResult componentsOut longDisk).1.tree.at? componentsOut.parts).any
        (fun found => found.content?.isNone) = true := by
  have hruns : (write longResult componentsOut longDisk).2.result.toOption.isSome = true ∧
      ((write longResult componentsOut longDisk).1.tree.at? componentsOut.parts).any
        (fun found => found.content?.isNone) = true := by
    simp only [write, writeOn, writeCatalog, writeErrors, writeValue, componentsOut,
      Place.parent_child, Disk.ensureFolder, List.length_cons, List.length_nil, Disk.makeFolders,
      Disk.tryFolder, Disk.acceptFolder, Disk.writeFile, Disk.openFile, Disk.fillFile,
      Disk.removeFile, Disk.Medium.slot, Disk.isFolder, Disk.ask, Disk.find, Disk.guarded,
      Place.holdsNull_eq]
    decide +kernel
  exact ⟨exists_eq_ok hruns.1, hruns.2⟩

/-- Behind the writing there is a folder of components, so the disk notices the name. -/
theorem refused_long :
    Refused (write longResult componentsOut longDisk).1.tree root longResult.build longFile := by
  refine ⟨⟨longPage, List.mem_singleton_self _, List.mem_singleton_self _⟩, unknown_long, ?_⟩
  rw [longFile, below_componentFile root_canonical isTag_long]
  constructor
  · obtain ⟨found, hfound, hfolder⟩ := (Option.any_eq_true _ _).mp write_long.2
    cases found with
    | file content => cases hfolder
    | folder entries => exact ⟨entries, hfound⟩
  · show Disk.nameLimit < (String.ofList (longTag ++ Path.componentSuffix)).utf8ByteSize
    rw [String.utf8ByteSize_ofList]
    decide +kernel

end Sample

namespace Scan

/-! ### Whole scans -/

section Kept

variable {around : Surroundings} {before after folder other : Tree} {request : Request}
  {root out : Place} {settings : Settings} {result : Result}

/-- The files that the pages of a scan name are those of components, and the disk answers about
them again. -/
theorem answersAgain_of_run (kept : KeptSources before after) (hbefore : before.Named IsName)
    (opened : Opened around before request root out folder settings)
    (h : (run around before request).result = .ok result) :
    (∀ page ∈ result.build.pages, page.id ≠ "") ∧
      ∀ page ∈ result.build.pages, ∀ file ∈ page.components, ∀ held,
        Disk.isFile before (root.below file) = .ok held →
          AnswersAgain before after (root.below file) held := by
  obtain ⟨hroot, -⟩ := canonical_root opened hbefore
  rw [run_of_opened opened] at h
  obtain ⟨readings, paged, loaded, -, -, stages, -, -, rfl⟩ := stages_of_scanFolder h
  have hsound := sound_of_stages opened stages (milliseconds request.micros)
  refine ⟨fun page hpage => (hsound.pages page hpage).id, fun page hpage file hfile held hask => ?_⟩
  obtain ⟨tag, htag, rfl⟩ := exists_tag_of_build (records_of_stages stages) hpage hfile
  exact answersAgain_of_kept kept hroot opened.found htag hask

/-- **Behind the change a scan differs** in nothing but the search for components. -/
theorem run_of_kept (kept : KeptSources before after) (hbefore : before.Named IsName)
    (hafter : after.Named IsName)
    (opened : Opened around before request root out folder settings)
    (again : Opened around after request root out other settings)
    (h : (run around before request).result = .ok result) :
    ∃ reports missing, missingOf before root settings request result.build = .ok missing ∧
      result = { result with errors := reports ++ missing } ∧
      (run around after request).result =
        (missingOf after root settings request result.build).map fun missing =>
          { result with errors := reports ++ missing } := by
  rw [run_of_opened opened] at h
  obtain ⟨readings, paged, loaded, defects, missing, stages, hdefects, hmissing, rfl⟩ :=
    stages_of_scanFolder h
  have hsame : scannedItems root out settings other = scannedItems root out settings folder := by
    rw [scannedItems, scannedItems, walk_of_kept kept hbefore hafter opened again]
  -- The same items go through the same stages, whatever the disk has besides them.
  have hrun : (scanFolder after other root out settings request).result = _ :=
    result_of_stages (hsame ▸ stages) hdefects
  refine ⟨undecodedReports paged loaded ++ defects, missing, hmissing, ?_, ?_⟩
  · rw [List.append_assoc]
    rfl
  · rw [run_of_opened again, hrun, hsame]
    simp only [List.append_assoc]
    rfl

end Kept

/-- **A scan behind a writing** of its own results, to any folder, comes to the same result, as
long as it does not look for a component whose name is too long in a folder that the writing has
made.  There the disk refuses to look, and the scan fails. -/
theorem repeated_scan {around : Surroundings} {disk : Disk.State} {request : Request}
    {settings : Settings} {result : Result} {place : Place} {written : Output.Written}
    (hsettings : request.settings = some settings) (hdisk : disk.tree.Named IsName)
    (h : (run around disk.tree request).result = .ok result) (hplace : place.IsPath)
    (hwrite : (Output.write result place disk).2.result = .ok written) :
    ∃ root, around.locate request.root = .ok root ∧
      ((request.verify.getD settings.verify = true →
          ∀ file, ¬ Refused (Output.write result place disk).1.tree root result.build file) →
        (run around (Output.write result place disk).1.tree request).result = .ok result) ∧
      (request.verify.getD settings.verify = true →
        (∃ file, Refused (Output.write result place disk).1.tree root result.build file) →
        ∃ file, Refused (Output.write result place disk).1.tree root result.build file ∧
          ¬ disk.tree.FolderAt (root.below file).parent.parts ∧
          (run around (Output.write result place disk).1.tree request).result =
            .error (.disk (.refused .nameTooLong (root.below file)))) := by
  have kept := keptSources_of_write hwrite
  have hafter := Output.named_write hplace hdisk hwrite
  generalize (Output.write result place disk).1.tree = after at kept hafter ⊢
  obtain ⟨root, out, folder, others, opened⟩ := opened_of_run h
  obtain rfl : others = settings := by
    have hsettled := opened.settled
    rw [Request.settingsAt, hsettings] at hsettled
    exact (Except.ok.inj hsettled).symm
  obtain ⟨other, again⟩ := opened_of_kept kept opened hsettings
  obtain ⟨hid, hanswers⟩ := answersAgain_of_run kept hdisk opened h
  obtain ⟨reports, missing, hmissing, hresult, hrun⟩ := run_of_kept kept hdisk hafter opened again h
  rw [missingOf] at hmissing
  rw [hrun, missingOf]
  refine ⟨root, opened.located, fun hnone => ?_, fun hverify hrefused => ?_⟩
  · have hagain : (if request.verify.getD others.verify = true then
        missingReferencesAt after root result.build.toValue else .ok []) = .ok missing := by
      split_ifs at hmissing ⊢ with hverify
      · exact missing_of_kept (answersAgain_of_asked hanswers hmissing) hmissing (hnone hverify)
      · exact hmissing
    rw [hagain]
    exact congrArg Except.ok hresult.symm
  · obtain ⟨file, hrefused⟩ := hrefused
    rw [if_pos hverify] at hmissing ⊢
    obtain ⟨file, hrefused, hfresh, hfails⟩ :=
      missing_of_refused (answersAgain_of_asked hanswers hmissing) hid hrefused
    exact ⟨file, hrefused, hfresh, by rw [hfails]; rfl⟩

/-- Results are written to the folder of components, where the name of one is too long. -/
theorem repeated_scan_sample :
    ∃ result written,
      (run Sample.around Sample.longDisk.tree Sample.markupRequest).result = .ok result ∧
      (Output.write result Sample.componentsOut Sample.longDisk).2.result = .ok written ∧
      ∃ file, (run Sample.around (Output.write result Sample.componentsOut Sample.longDisk).1.tree
        Sample.markupRequest).result =
          .error (.disk (.refused .nameTooLong (Sample.root.below file))) := by
  obtain ⟨written, hwrite⟩ := Sample.write_long.1
  have hplace : Sample.componentsOut.IsPath :=
    (by decide : Place.ofText "/site/src/components" = Sample.componentsOut) ▸ isPath_ofText _
  obtain ⟨root, hroot, -, hfails⟩ :=
    repeated_scan rfl Sample.named_longDisk Sample.run_long hplace hwrite
  obtain rfl : Sample.root = root := Except.ok.inj (Sample.longOpened.located.symm.trans hroot)
  obtain ⟨file, -, -, hagain⟩ := hfails rfl ⟨_, Sample.refused_long⟩
  exact ⟨_, written, Sample.run_long, hwrite, file, hagain⟩

end Scan

end ContentCatalog
