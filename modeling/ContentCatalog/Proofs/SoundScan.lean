import ContentCatalog.Proofs.ScannedItems
import ContentCatalog.Proofs.SourceFields

/-!
# Scans are sound

Whatever a project holds, the build of a scan that comes to an end has no defect.
What such a scan reports is therefore of two kinds only: files that could not be
decoded, and components that pages name and that are missing.

* `sound_buildOf` : the build of named items is sound;
* `sound_of_stages` : the build of a scan is sound;
* `mem_undecodedReports`, `mem_missingOf` : the two kinds of reports;
* `run_sound` : the statement about whole scans.
-/

namespace ContentCatalog.Scan

/-! ### Items -/

/-- The item has a key, and a name as a dataset. -/
structure Item.Keyed (item : Item) : Prop where
  key : item.key ≠ []
  dataset : Path.datasetName item.key ≠ []

/-- An item with a key has a name. -/
theorem Item.Keyed.name_ne {item : Item} (h : item.Keyed) : item.name ≠ "" :=
  Source.ofList_ne h.key

/-- The items of a scan have keys. -/
theorem keyed_of_mem_scannedItems {root out : Place} {settings : Settings} {folder : Tree}
    {item : Item} (h : item ∈ scannedItems root out settings folder) : item.Keyed := by
  obtain ⟨hu, file, hf, heq⟩ := mem_itemsOf h
  obtain ⟨hh, ht⟩ := accept_of_mem_walk hf
  have hk := ne_nil_of_isUnderSource hu
  rw [heq] at hk ⊢
  exact ⟨hk, datasetName_ne_nil hh ht hk⟩

/-! ### Records -/

/-- What has been read belongs to the item, and the props of a component are
sound. -/
theorem sound_readingOf {item : Item} {reading : Read} (h : readingOf item = .ok reading) :
    reading.item = item ∧
      ∀ source, reading.component = some source → SoundFields source.props := by
  rw [readingOf] at h
  split at h
  · obtain ⟨source, hs, heq⟩ := map_eq_ok_iff.mp h
    obtain ⟨text, -, hc⟩ := bind_eq_ok_iff.mp hs
    rw [← heq]
    refine ⟨rfl, ?_⟩
    intro other ho
    rw [← Option.some.inj ho]
    exact Source.sound_component (mapError_eq_ok_iff.mp hc)
  · have heq := Except.ok.inj h
    rw [← heq]
    refine ⟨rfl, ?_⟩
    intro other ho
    cases ho

/-- A route begins with a slash. -/
theorem route_ne_nil (path : List Char) : Path.route path ≠ [] := by
  rw [Path.route]
  split
  · rw [Path.routeOfStem]
    split <;> exact List.cons_ne_nil _ _
  · exact List.cons_ne_nil _ _

/-- The page of a named item is sound. -/
theorem sound_pageOf {reading : Read} {page : Page} (hk : reading.item.Keyed)
    (hprops : ∀ source, reading.component = some source → SoundFields source.props)
    (h : pageOf reading = .ok page) : page.Sound := by
  have hroute : String.ofList (Path.route reading.item.key) ≠ "" :=
    Source.ofList_ne (route_ne_nil _)
  rw [pageOf] at h
  split at h
  · next source hs =>
      have heq := Except.ok.inj h
      rw [← heq]
      exact ⟨hk.name_ne, hk.name_ne, hroute, fun _ hsource => .inl (Option.some.inj hsource).symm,
        hprops source hs⟩
  · obtain ⟨source, -, heq⟩ := map_eq_ok_iff.mp h
    rw [← heq]
    exact ⟨hk.name_ne, hk.name_ne, hroute, fun _ hsource => .inr (Option.some.inj hsource).symm,
      Source.sound_markdown source⟩

/-- The dataset of a named item is sound. -/
theorem sound_datasetOf {item : Item} {dataset : Dataset} (hk : item.Keyed)
    (h : datasetOf item = .ok dataset) : dataset.Sound := by
  obtain ⟨data, -, heq⟩ := map_eq_ok_iff.mp h
  rw [← heq]
  refine ⟨Source.ofList_ne hk.dataset, hk.name_ne, rfl, ?_⟩
  intro hempty
  have hlength := Sha256.digest_length item.content
  rw [show Sha256.digest item.content = "" from hempty] at hlength
  exact absurd hlength (by decide)

/-! ### The build -/

/-- A record that was kept has been decoded. -/
theorem mem_decoded {α : Type} {attempts : List (Attempt α)} {value : α}
    (h : value ∈ attempts.filterMap Attempt.value?) : .done value ∈ attempts := by
  obtain ⟨attempt, hm, hv⟩ := List.mem_filterMap.mp h
  cases attempt with
  | done other => rwa [← Option.some.inj hv]
  | skipped report => cases hv

/-- What is reported was skipped. -/
theorem mem_reported {α : Type} {attempts : List (Attempt α)} {report : String}
    (h : report ∈ attempts.filterMap Attempt.report?) : .skipped report ∈ attempts := by
  obtain ⟨attempt, hm, hr⟩ := List.mem_filterMap.mp h
  cases attempt with
  | done value => cases hr
  | skipped other => rwa [← Option.some.inj hr]

/-- Every record of a run under a policy comes from an item that has it. -/
theorem exists_of_mem_decoded {α β : Type} {policy : Policy} {item : α → Item}
    {recordOf : α → Except Failure β} {sources : List α} {attempts : List (Attempt β)}
    (h : sources.mapM (fun source => settle policy (item source) (recordOf source)) = .ok attempts)
    {value : β} (hv : value ∈ attempts.filterMap Attempt.value?) :
    ∃ source ∈ sources, recordOf source = .ok value := by
  obtain ⟨source, hm, hs⟩ := exists_of_mem_mapM h (mem_decoded hv)
  rcases settle_eq_ok_iff.mp hs with ⟨other, ho, heq⟩ | ⟨place, fault, -, -, heq⟩
  · cases heq
    exact ⟨source, hm, ho⟩
  · cases heq

/-- Every report of such a run names an item and says why it is no document. -/
theorem exists_of_mem_reported {α β : Type} {policy : Policy} {item : α → Item}
    {recordOf : α → Except Failure β} {sources : List α} {attempts : List (Attempt β)}
    (h : sources.mapM (fun source => settle policy (item source) (recordOf source)) = .ok attempts)
    {report : String} (hr : report ∈ attempts.filterMap Attempt.report?) :
    ∃ source ∈ sources, ∃ fault : Yaml.Fault,
      report = "Failed to decode " ++ (item source).name ++ ": " ++ fault.message := by
  obtain ⟨source, hm, hs⟩ := exists_of_mem_mapM h (mem_reported hr)
  rcases settle_eq_ok_iff.mp hs with ⟨other, -, heq⟩ | ⟨place, fault, -, -, heq⟩
  · cases heq
  · cases heq
    exact ⟨source, hm, fault, rfl⟩

section Stages

variable {policy : Policy} {items : List Item} {readings : List Read}
  {pages : List (Attempt Page)} {datasets : List (Attempt Dataset)}

/-- What has been read belongs to an item. -/
theorem Stages.item_of_reading (stages : Stages policy items readings pages datasets)
    {reading : Read} (h : reading ∈ readings) :
    reading.item ∈ items ∧
      ∀ source, reading.component = some source → SoundFields source.props := by
  obtain ⟨item, hm, hr⟩ := exists_of_mem_mapM stages.read h
  obtain ⟨hi, hprops⟩ := sound_readingOf hr
  rw [hi]
  exact ⟨hm, hprops⟩

/-- **The build of named items** is sound, if that of an empty project is. -/
theorem sound_buildOf (stages : Stages policy items readings pages datasets)
    (hkeyed : ∀ item ∈ items, item.Keyed) {project : Project} (hroot : project.root ≠ "")
    (hname : project.name ≠ "") (generatedAt : Int) :
    (buildOf generatedAt project readings pages datasets).Sound := by
  refine ⟨rfl, hroot, hname, ?_, ?_, ?_⟩
  · intro page hp
    obtain ⟨reading, hm, hpage⟩ := exists_of_mem_decoded stages.paged hp
    obtain ⟨hitem, hprops⟩ := stages.item_of_reading (List.mem_filter.mp hm).1
    exact sound_pageOf (hkeyed _ hitem) hprops hpage
  · intro entry he
    obtain ⟨reading, hm, hentry⟩ := List.mem_filterMap.mp he
    obtain ⟨hitem, hprops⟩ := stages.item_of_reading hm
    obtain ⟨source, hs, heq⟩ := Option.map_eq_some_iff.mp hentry
    rw [← heq]
    exact ⟨(hkeyed _ hitem).name_ne, rfl, hprops source hs⟩
  · intro dataset hd
    obtain ⟨item, hm, hdataset⟩ := exists_of_mem_decoded stages.loaded hd
    exact sound_datasetOf (hkeyed _ (List.mem_filter.mp hm).1) hdataset

/-- The reports of what was left out name items and say why. -/
theorem mem_undecodedReports (stages : Stages policy items readings pages datasets)
    {report : String} (h : report ∈ undecodedReports pages datasets) :
    ∃ item ∈ items, ∃ fault : Yaml.Fault,
      report = "Failed to decode " ++ item.name ++ ": " ++ fault.message := by
  rcases List.mem_append.mp h with h | h
  · obtain ⟨reading, hm, fault, heq⟩ := exists_of_mem_reported stages.paged h
    exact ⟨reading.item, (stages.item_of_reading (List.mem_filter.mp hm).1).1, fault, heq⟩
  · obtain ⟨item, hm, fault, heq⟩ := exists_of_mem_reported stages.loaded h
    exact ⟨item, (List.mem_filter.mp hm).1, fault, heq⟩

end Stages

/-! ### Missing components -/

/-- A report of a missing component is that of a reference that was looked at. -/
theorem mem_missingReports {isFile : String → Except Failure Bool}
    {references : List MissingReference} {reports : List String}
    (h : missingReports isFile references = .ok reports) {report : String} (hr : report ∈ reports) :
    ∃ reference ∈ references, reference.message = .ok report := by
  induction references generalizing reports with
  | nil =>
      cases h
      cases hr
  | cons reference references ih =>
      rw [missingReports] at h
      obtain ⟨there, -, h⟩ := bind_eq_ok_iff.mp h
      split at h
      · obtain ⟨other, hm, ho⟩ := ih h hr
        exact ⟨other, List.mem_cons_of_mem _ hm, ho⟩
      · obtain ⟨first, hfirst, h⟩ := bind_eq_ok_iff.mp h
        obtain ⟨others, hothers, h⟩ := bind_eq_ok_iff.mp h
        cases h
        rcases List.mem_cons.mp hr with heq | hr
        · rw [heq]
          exact ⟨reference, List.mem_cons_self, hfirst⟩
        · obtain ⟨other, hm, ho⟩ := ih hothers hr
          exact ⟨other, List.mem_cons_of_mem _ hm, ho⟩

/-- The references of a page's record are those of the page. -/
theorem pageReferences_toValue (page : Page) :
    pageReferences page.toValue =
      page.components.map fun file => ⟨.text page.id, file⟩ := by
  have hc : memberOrNull "components" (entriesOf page.toValue) =
      .list (page.components.map Value.text) := by
    simp [Page.toValue]
  rw [show page.toValue = .map (entriesOf page.toValue) from rfl, pageReferences, page.member_id,
    hc]
  simp [ContentCatalog.itemsOf, textsAmong, List.filterMap_map]

/-- A reference is reported with the page's identifier. -/
theorem message_of_reference {id file : String} (hid : id ≠ "") :
    MissingReference.message ⟨.text id, file⟩ =
      .ok ("Page(" ++ id ++ ") references missing component " ++ file) := by
  have hpresent : orUnknown (.text id) = .text id := by
    rw [orUnknown, truthy_text, bne_iff_ne.mpr hid]
    rfl
  rw [MissingReference.message, hpresent, Value.display_text]
  rfl

/-- A report of a missing component names a page and a file that it refers to. -/
theorem mem_missingOf {disk : Tree} {root : Place} {settings : Settings} {request : Request}
    {build : Build} {missing : List String} (hsound : build.Sound)
    (h : missingOf disk root settings request build = .ok missing) {report : String}
    (hr : report ∈ missing) :
    ∃ page ∈ build.pages, ∃ file ∈ page.components,
      report = "Page(" ++ page.id ++ ") references missing component " ++ file := by
  rw [missingOf] at h
  split at h
  · obtain ⟨reference, hm, hmessage⟩ := mem_missingReports h hr
    obtain ⟨record, hrecord, hreference⟩ := List.mem_flatMap.mp (List.mem_filter.mp hm).1
    rw [build.member_pages] at hrecord
    obtain ⟨page, hp, heq⟩ := List.mem_map.mp hrecord
    rw [← heq, pageReferences_toValue] at hreference
    obtain ⟨file, hf, hfile⟩ := List.mem_map.mp hreference
    rw [← hfile, message_of_reference (hsound.pages page hp).id] at hmessage
    exact ⟨page, hp, file, hf, (Except.ok.inj hmessage).symm⟩
  · cases h
    cases hr

/-! ### Whole scans -/

/-- A project has a root and a name. -/
theorem projectAt_ne {root : Place} (h : root.anchor = .root) :
    (projectAt root).root ≠ "" ∧ (projectAt root).name ≠ "" := by
  refine ⟨Source.ofList_ne ?_, Source.ofList_ne ?_⟩
  · obtain ⟨anchor, parts⟩ := root
    simp only at h
    subst h
    simp [Place.text, Path.normalize]
  · rw [Path.projectName]
    split
    · decide
    · next hne => exact hne

/-- A sound build has no defects to report. -/
theorem defectReports_of_sound {build : Build} (h : build.Sound) :
    defectReports build.toValue = .ok [] := by
  rw [defectReports, defects_toValue_eq_nil_iff.mpr h]
  rfl

/-- **The build of a scan is sound.** -/
theorem sound_of_stages {around : Surroundings} {disk : Tree} {request : Request}
    {root out : Place} {folder : Tree} {settings : Settings} {readings : List Read}
    {pages : List (Attempt Page)} {datasets : List (Attempt Dataset)}
    (opened : Opened around disk request root out folder settings)
    (stages : Stages settings.policy (scannedItems root out settings folder) readings pages
      datasets) (generatedAt : Int) :
    (buildOf generatedAt (projectAt root) readings pages datasets).Sound := by
  obtain ⟨hroot, hname⟩ := projectAt_ne (resolved_of_locate opened.located).anchor
  exact sound_buildOf stages (fun _ hm => keyed_of_mem_scannedItems hm) hroot hname generatedAt

/-- **A scan that comes to an end has a build without defects.**  So it reports
only files that could not be decoded, and then components that pages name and that
are missing. -/
theorem run_sound {around : Surroundings} {disk : Tree} {request : Request} {result : Result}
    (h : (run around disk request).result = .ok result) :
    defectReports result.build.toValue = .ok [] ∧
      ∃ undecoded dangling, result.errors = undecoded ++ dangling ∧
        (∀ message ∈ undecoded, ∃ file ∈ result.manifest.files.map Prod.fst,
          ∃ fault : Yaml.Fault,
            message = "Failed to decode " ++ file ++ ": " ++ fault.message) ∧
        ∀ message ∈ dangling, ∃ page ∈ result.build.pages, ∃ file ∈ page.components,
          message = "Page(" ++ page.id ++ ") references missing component " ++ file := by
  obtain ⟨root, out, folder, settings, opened⟩ := opened_of_run h
  rw [run_of_opened opened] at h
  obtain ⟨readings, pages, datasets, defects, missing, stages, hdefects, hmissing, hresult⟩ :=
    stages_of_scanFolder h
  have hsound : result.build.Sound := by
    rw [hresult]
    exact sound_of_stages opened stages _
  have hnone := defectReports_of_sound hsound
  have hdefectsNil : defects = [] := Except.ok.inj (hdefects.symm.trans hnone)
  refine ⟨hnone, undecodedReports pages datasets, missing, ?_, ?_, ?_⟩
  · rw [hresult, hdefectsNil]
    rfl
  · intro message hm
    obtain ⟨item, hitem, fault, heq⟩ := mem_undecodedReports stages hm
    refine ⟨item.name, ?_, fault, heq⟩
    rw [hresult]
    exact List.mem_map_of_mem (f := Prod.fst) (List.mem_map_of_mem hitem)
  · intro message hm
    exact mem_missingOf hsound hmissing hm

/-- The scan of the sample comes to an end, with one file left out. -/
theorem run_sound_sample :
    ∃ result, (run Sample.around Sample.disk (Sample.request .report)).result = .ok result ∧
      defectReports result.build.toValue = .ok [] ∧
      ∃ undecoded dangling, result.errors = undecoded ++ dangling ∧
        (∀ message ∈ undecoded, ∃ file ∈ result.manifest.files.map Prod.fst,
          ∃ fault : Yaml.Fault,
            message = "Failed to decode " ++ file ++ ": " ++ fault.message) ∧
        ∀ message ∈ dangling, ∃ page ∈ result.build.pages, ∃ file ∈ page.components,
          message = "Page(" ++ page.id ++ ") references missing component " ++ file := by
  obtain ⟨result, h, -⟩ := Sample.exists_result
  exact ⟨result, h, run_sound h⟩

end ContentCatalog.Scan
