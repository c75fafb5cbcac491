import ContentCatalog.Proofs.FileEntries
import ContentCatalog.Proofs.PropDefaults

/-!
# What a scan that reports comes to

A scan that reports goes on at a Markdown page or dataset that is no document, but
not at one with a scalar that is no value of its kind, nor at one whose collections
are nested too deep to be composed: such a defect ends it.  Nothing else that these
files hold can end it.

* `stages_of_sound_files` : the runs over the files come to an end, or stop at the
  first defect;
* `filter_undecodedOf` : a file is reported once if it is no document;
* `run_reported` : the statement about whole scans.
-/

namespace ContentCatalog.Scan

/-! ### Files that are no documents -/

/-- The defect that decoding ended with. -/
def defect? {α : Type} : Except Failure α → Option Yaml.Defect
  | .error (.defect cause) => some cause
  | _ => none

/-- The fault that decoding ended with. -/
def fault? {α : Type} : Except Failure α → Option Yaml.Fault
  | .error (.document _ fault) => some fault
  | _ => none

namespace Item

/-- The item is a page in Markdown. -/
def isMarkdownPage (item : Item) : Bool :=
  Path.isPage item.key && !Path.isComponent item.key

/-- The defect of a page in Markdown. -/
def pageDefect? (item : Item) : Option Yaml.Defect :=
  if item.isMarkdownPage then defect? (markdownOf item) else none

/-- The defect of a dataset. -/
def datasetDefect? (item : Item) : Option Yaml.Defect :=
  if item.isData then defect? (documentOf item) else none

/-- Why a page in Markdown or a dataset is no document. -/
def fault? (item : Item) : Option Yaml.Fault :=
  if item.isMarkdownPage then Scan.fault? (markdownOf item)
  else if item.isData then Scan.fault? (documentOf item) else none

end Item

/-- The first defect of a page in Markdown, or else of a dataset. -/
def firstDefect? (items : List Item) : Option Yaml.Defect :=
  (items.filterMap Item.pageDefect?).head?.or (items.filterMap Item.datasetDefect?).head?

/-- Decoding gave a value, or it found a fault or a defect. -/
def Decoding {α : Type} (result : Except Failure α) : Prop :=
  ∀ failure, result = .error failure →
    (∃ place fault, failure = .document place fault) ∨ ∃ cause, failure = .defect cause

theorem decoding_ok {α : Type} (value : α) : Decoding (.ok value : Except Failure α) := by
  intro failure h
  cases h

/-- Decoding a text gives a value, a fault or a defect. -/
theorem decoding_ofYaml {α : Type} {content : ByteArray} {text : List Char} {place : Option Place}
    {read : List Char → Except Yaml.Failure α} (h : Disk.decodeText content = .ok text) :
    Decoding (Disk.decodeText content >>= fun text =>
      (read text).mapError (Failure.ofYaml place)) := by
  intro failure hfail
  rw [h, bind_ok] at hfail
  cases hread : read text with
  | ok value =>
      rw [hread] at hfail
      cases hfail
  | error cause =>
      rw [hread] at hfail
      have heq := (Except.error.inj hfail).symm
      cases cause with
      | fault fault => exact .inl ⟨place, fault, heq⟩
      | defect defect => exact .inr ⟨defect, heq⟩

/-- What is made of the value changes nothing about it. -/
theorem decoding_map {α β : Type} {result : Except Failure α} (f : α → β) (h : Decoding result) :
    Decoding (result.map f) := by
  intro failure hfail
  exact h failure (map_eq_error_iff.mp hfail)

/-- Nor about the defect. -/
theorem defect?_map {α β : Type} (f : α → β) (result : Except Failure α) :
    defect? (result.map f) = defect? result := by
  cases result with
  | ok value => rfl
  | error failure => cases failure <;> rfl

/-- What is not decoded is told with its fault. -/
theorem undecoded?_eq_fault? {α : Type} (item : Item) (result : Except Failure α) :
    undecoded? item result = (fault? result).map fun fault => ⟨item.name, fault.message⟩ := by
  cases result with
  | ok value => rfl
  | error failure => cases failure <;> rfl

/-! ### One run -/

/-- A scan that reports goes on at a file that is decoded or no document, and stops at
a defect. -/
theorem settle_decoding {α : Type} (item : Item) {result : Except Failure α}
    (h : Decoding result) :
    (∃ attempt, settle .report item result = .ok attempt ∧ defect? result = none) ∨
      ∃ cause, settle .report item result = .error (.defect cause) ∧
        defect? result = some cause := by
  cases result with
  | ok value => exact .inl ⟨.done value, settle_ok _ _ value, rfl⟩
  | error failure =>
      rcases h failure rfl with ⟨place, fault, heq⟩ | ⟨cause, heq⟩
      · rw [heq]
        exact .inl ⟨_, settle_document item place fault, rfl⟩
      · rw [heq]
        exact .inr ⟨cause, rfl, rfl⟩

section Runs

variable {α β : Type} (item : α → Item) {recordOf : α → Except Failure β} {sources : List α}

/-- **A run that reports** stops at the first defect. -/
theorem mapM_settle_stops (h : ∀ source ∈ sources, Decoding (recordOf source))
    {cause : Yaml.Defect}
    (hfirst : (sources.filterMap fun source => defect? (recordOf source)).head? = some cause) :
    sources.mapM (fun source => settle .report (item source) (recordOf source)) =
      .error (.defect cause) := by
  induction sources with
  | nil => cases hfirst
  | cons source sources ih =>
      obtain ⟨hsource, hrest⟩ := List.forall_mem_cons.mp h
      rw [List.filterMap_cons] at hfirst
      rw [List.mapM_cons]
      rcases settle_decoding (item source) hsource with ⟨attempt, ha, hd⟩ | ⟨other, ha, hd⟩
      · rw [hd] at hfirst
        rw [ha, bind_ok, ih hrest hfirst]
        rfl
      · rw [hd] at hfirst
        rw [ha, ← Option.some.inj hfirst]
        rfl

/-- Without a defect it comes to an end. -/
theorem mapM_settle_ends (h : ∀ source ∈ sources, Decoding (recordOf source))
    (hnone : (sources.filterMap fun source => defect? (recordOf source)).head? = none) :
    ∃ attempts, sources.mapM (fun source => settle .report (item source) (recordOf source)) =
      .ok attempts := by
  refine exists_mapM ?_
  intro source hm
  rcases settle_decoding (item source) (h source hm) with ⟨attempt, ha, -⟩ | ⟨cause, -, hd⟩
  · exact ⟨attempt, ha⟩
  · rw [List.head?_eq_none_iff, List.filterMap_eq_nil_iff] at hnone
    rw [hnone source hm] at hd
    cases hd

end Runs

/-! ### All runs -/

section Files

variable {items : List Item}

/-- The items that are read as components are those with the path of one. -/
theorem component_reading {item : Item} (h : ∃ reading, readingOf item = .ok reading) :
    item.reading.component.isSome = Path.isComponent item.key := by
  obtain ⟨reading, hr⟩ := h
  rw [← isSome_component? hr, Item.component?, Read.entry?, Option.isSome_map]

/-- A page is decoded from Markdown, unless it is a component. -/
theorem pageOf_reading {item : Item} (h : ∃ reading, readingOf item = .ok reading)
    (hpage : Path.isPage item.key = true) :
    (item.isMarkdownPage = false ∧ ∃ page, pageOf item.reading = .ok page) ∨
      item.isMarkdownPage = true ∧ ∃ f, pageOf item.reading = (markdownOf item).map f := by
  have hcomponent := component_reading h
  rw [Item.isMarkdownPage, hpage, Bool.true_and, ← hcomponent, pageOf]
  cases item.reading.component with
  | some source => exact .inl ⟨rfl, _, rfl⟩
  | none => exact .inr ⟨rfl, _, rfl⟩

/-- **The runs over files that can be read** come to an end, or stop at the first
defect of a page or dataset. -/
theorem stages_of_sound_files (hread : ∀ item ∈ items, ∃ reading, readingOf item = .ok reading)
    (htexts : ∀ item ∈ items, ∃ text, Disk.decodeText item.content = .ok text) :
    (∀ cause, firstDefect? items = some cause →
      ∀ trace generatedAt project,
        (assemble .report trace generatedAt project items).result = .error (.defect cause)) ∧
    (firstDefect? items = none →
      ∃ readings pages datasets, Stages .report items readings pages datasets) := by
  obtain ⟨readings, hreadings⟩ := exists_mapM hread
  have hmarkdown : ∀ item ∈ items, Decoding (markdownOf item) := by
    intro item hm
    obtain ⟨text, ht⟩ := htexts item hm
    exact decoding_ofYaml ht
  have hdocument : ∀ item ∈ items, Decoding (datasetOf item) := by
    intro item hm
    obtain ⟨text, ht⟩ := htexts item hm
    exact decoding_map _ (decoding_ofYaml ht)
  have hpage : ∀ item ∈ items, Path.isPage item.key = true →
      Decoding (pageOf item.reading) ∧ defect? (pageOf item.reading) = item.pageDefect? := by
    intro item hm hpage
    rw [Item.pageDefect?]
    rcases pageOf_reading (hread item hm) hpage with ⟨hno, page, heq⟩ | ⟨hyes, f, heq⟩
    · rw [heq, hno]
      exact ⟨decoding_ok page, rfl⟩
    · rw [heq, hyes, defect?_map]
      exact ⟨decoding_map f (hmarkdown item hm), rfl⟩
  have hpages : ∀ item ∈ items.filter fun item => Path.isPage item.key,
      Decoding (pageOf item.reading) := by
    intro item hm
    obtain ⟨hm, hp⟩ := List.mem_filter.mp hm
    exact (hpage item hm hp).1
  have hdatasets : ∀ item ∈ datasetItems items, Decoding (datasetOf item) := by
    intro item hm
    exact hdocument item (List.mem_filter.mp hm).1
  have hpageDefects : (items.filter fun item => Path.isPage item.key).filterMap
      (fun item => defect? (pageOf item.reading)) = items.filterMap Item.pageDefect? := by
    rw [List.filterMap_filter]
    refine List.filterMap_congr ?_
    intro item hm
    split
    · next hp => exact (hpage item hm hp).2
    · next hp =>
        rw [Item.pageDefect?, Item.isMarkdownPage, Bool.eq_false_iff.mpr hp]
        rfl
  have hdatasetDefects : (datasetItems items).filterMap (fun item => defect? (datasetOf item)) =
      items.filterMap Item.datasetDefect? := by
    rw [datasetItems, List.filterMap_filter]
    refine List.filterMap_congr ?_
    intro item hm
    rw [Item.datasetDefect?, datasetOf, defect?_map]
    rfl
  have hpagedRun : (pageReadings readings).mapM (fun r => settle .report r.item (pageOf r)) =
      (items.filter fun item => Path.isPage item.key).mapM
        (fun item => settle .report item.reading.item (pageOf item.reading)) := by
    rw [readings_of_mapM hreadings, pageReadings_map_reading, List.mapM_map]
    rfl
  rw [firstDefect?, ← hpageDefects, ← hdatasetDefects]
  cases hp : ((items.filter fun item => Path.isPage item.key).filterMap
      fun item => defect? (pageOf item.reading)).head? with
  | some first =>
      refine ⟨?_, fun hnone => by cases hnone⟩
      intro cause hc trace generatedAt project
      rw [result_assemble, hreadings, bind_ok, hpagedRun, mapM_settle_stops _ hpages hp,
        ← Option.some.inj hc]
      rfl
  | none =>
      obtain ⟨pages, hpaged⟩ := mapM_settle_ends (fun item => item.reading.item) hpages hp
      rw [Option.none_or]
      refine ⟨?_, ?_⟩
      · intro cause hc trace generatedAt project
        rw [result_assemble, hreadings, bind_ok, hpagedRun, hpaged, bind_ok,
          mapM_settle_stops (fun item => item) hdatasets hc]
        rfl
      · intro hnone
        obtain ⟨datasets, hloaded⟩ := mapM_settle_ends (fun item => item) hdatasets hnone
        exact ⟨readings, pages, datasets, ⟨hreadings, hpagedRun.trans hpaged, hloaded⟩⟩

end Files

/-! ### Reports -/

/-- What items amount to, as far as it has the name of one of them. -/
theorem filter_filterMap_name {β : Type} {items : List Item} {f : Item → Option β}
    {nameOf : β → String} (hf : ∀ item b, f item = some b → nameOf b = item.name)
    (hnodup : (items.map Item.name).Nodup) {item : Item} (hm : item ∈ items) :
    (items.filterMap f).filter (fun b => nameOf b == item.name) = (f item).toList := by
  induction items with
  | nil => cases hm
  | cons first items ih =>
      rw [List.map_cons, List.nodup_cons] at hnodup
      obtain ⟨hfirst, hrest⟩ := hnodup
      rcases List.mem_cons.mp hm with heq | hm
      · subst heq
        have hothers : (items.filterMap f).filter (fun b => nameOf b == item.name) = [] := by
          rw [List.filter_eq_nil_iff]
          intro b hb
          obtain ⟨other, ho, hb⟩ := List.mem_filterMap.mp hb
          have hne : other.name ≠ item.name := fun heq =>
            hfirst (heq ▸ List.mem_map_of_mem ho)
          simpa [hf other b hb] using hne
        cases hitem : f item with
        | none => rw [List.filterMap_cons_none hitem, hothers, Option.toList_none]
        | some b =>
            rw [List.filterMap_cons_some hitem, List.filter_cons_of_pos, hothers,
              Option.toList_some]
            simpa using hf item b hitem
      · have hne : first.name ≠ item.name := fun heq =>
          hfirst (heq ▸ List.mem_map_of_mem hm)
        cases hitem : f first with
        | none => rw [List.filterMap_cons_none hitem, ih hrest hm]
        | some b =>
            rw [List.filterMap_cons_some hitem, List.filter_cons_of_neg, ih hrest hm]
            simpa [hf first b hitem] using hne

/-- **A file is reported once** if it is no document, and else not at all. -/
theorem filter_undecodedOf {items : List Item}
    (hread : ∀ item ∈ items, ∃ reading, readingOf item = .ok reading)
    (hnodup : (items.map Item.name).Nodup) {item : Item} (hm : item ∈ items) :
    (undecodedOf items).filter (fun undecoded => undecoded.file == item.name) =
      (item.fault?.map fun fault => ⟨item.name, fault.message⟩).toList := by
  rw [undecodedOf, List.filter_append, filter_filterMap_name undecodedPage?_file hnodup hm,
    filter_filterMap_name undecodedDataset?_file hnodup hm, Item.fault?, Item.undecodedPage?,
    Item.undecodedDataset?]
  cases hpage : Path.isPage item.key with
  | true =>
      have hdata : item.isData = false := by
        rw [Item.isData, not_isDataset_of_isPage hpage, Bool.false_and]
      rw [hdata]
      rcases pageOf_reading (hread item hm) hpage with ⟨hno, page, heq⟩ | ⟨hyes, f, heq⟩
      · rw [heq, hno]
        rfl
      · rw [heq, hyes, undecoded?_map, undecoded?_eq_fault?]
        exact List.append_nil _
  | false =>
      have hno : item.isMarkdownPage = false := by
        rw [Item.isMarkdownPage, hpage, Bool.false_and]
      rw [hno]
      cases item.isData with
      | true =>
          rw [if_neg Bool.false_ne_true, if_pos rfl, if_neg Bool.false_ne_true, if_pos rfl,
            datasetOf, undecoded?_map, undecoded?_eq_fault?]
          rfl
      | false => rfl

/-! ### References -/

/-- The search for missing components fails where it fails for one reference. -/
theorem exists_of_missingReports_error {isFile : String → Except Failure Bool}
    {references : List MissingReference} {failure : Failure}
    (h : missingReports isFile references = .error failure) :
    ∃ reference ∈ references,
      isFile reference.file = .error failure ∨ reference.message = .error failure := by
  induction references with
  | nil => cases h
  | cons reference references ih =>
      have hrest : missingReports isFile references = .error failure →
          ∃ other ∈ reference :: references,
            isFile other.file = .error failure ∨ other.message = .error failure := by
        intro hr
        obtain ⟨other, hm, ho⟩ := ih hr
        exact ⟨other, List.mem_cons_of_mem _ hm, ho⟩
      rw [missingReports] at h
      rcases bind_eq_error_iff.mp h with hfile | ⟨there, -, h⟩
      · exact ⟨reference, List.mem_cons_self, .inl hfile⟩
      · split at h
        · exact hrest h
        · rcases bind_eq_error_iff.mp h with hmessage | ⟨report, -, h⟩
          · exact ⟨reference, List.mem_cons_self, .inr hmessage⟩
          · rcases bind_eq_error_iff.mp h with hothers | ⟨others, -, h⟩
            · exact hrest hothers
            · cases h

/-- It fails only where the disk refuses to look for a file that a page names. -/
theorem exists_of_missingOf_error {disk : Tree} {root : Place} {settings : Settings}
    {request : Request} {build : Build} {failure : Failure} (hsound : build.Sound)
    (h : missingOf disk root settings request build = .error failure) :
    ∃ page ∈ build.pages, ∃ file ∈ page.components, ∃ fault,
      Disk.isFile disk (root.below file) = .error fault ∧ failure = .disk fault := by
  rw [missingOf] at h
  split at h
  · obtain ⟨reference, hm, hfail⟩ := exists_of_missingReports_error h
    obtain ⟨record, hrecord, hreference⟩ := List.mem_flatMap.mp (List.mem_filter.mp hm).1
    rw [build.member_pages] at hrecord
    obtain ⟨page, hp, heq⟩ := List.mem_map.mp hrecord
    rw [← heq, pageReferences_toValue] at hreference
    obtain ⟨file, hf, hfile⟩ := List.mem_map.mp hreference
    rw [← hfile, message_of_reference (hsound.pages page hp).id] at hfail
    rcases hfail with hdisk | hmessage
    · refine ⟨page, hp, file, hf, ?_⟩
      cases hask : Disk.isFile disk (root.below file) with
      | ok there =>
          rw [hask] at hdisk
          cases hdisk
      | error fault =>
          rw [hask] at hdisk
          exact ⟨fault, rfl, (Except.error.inj hdisk).symm⟩
    · cases hmessage
  · cases h

/-! ### Whole scans -/

/-- What a scan that reports makes of its items, before it looks for the components
that pages name. -/
structure Reported (items : List Item) (result : Result) : Prop where
  aligned : result.Aligned (undecodedOf items)
  keys : result.keys = items.map Item.name
  errors : result.errors = (undecodedOf items).map Undecoded.report
  /-- A page or dataset that is no document is reported once, with the reason. -/
  once : ∀ item ∈ items,
    (undecodedOf items).filter (fun undecoded => undecoded.file == item.name) =
      (item.fault?.map fun fault => ⟨item.name, fault.message⟩).toList
  /-- It is left out of the pages and the datasets. -/
  leftOut : ∀ item ∈ items, item.fault?.isSome = true →
    item.name ∉ result.build.pages.map Page.id ∧
      item.name ∉ result.build.datasets.map Dataset.file

/-- The records of a run are what is reported. -/
theorem reported_of_records {root : Place} {request : Request} {items : List Item}
    {readings : List Read} {paged : List (Attempt Page)} {loaded : List (Attempt Dataset)}
    (hread : ∀ item ∈ items, ∃ reading, readingOf item = .ok reading)
    (hnodup : (items.map Item.name).Nodup) (records : Records items readings paged loaded) :
    Reported items (resultOf root request items readings paged loaded []) := by
  have haligned : (resultOf root request items readings paged loaded []).Aligned
      (undecodedOf items) :=
    aligned_resultOf records hnodup root request (List.forall_mem_nil _)
  have honce : ∀ item ∈ items,
      (undecodedOf items).filter (fun undecoded => undecoded.file == item.name) =
        (item.fault?.map fun fault => ⟨item.name, fault.message⟩).toList :=
    fun _ hm => filter_undecodedOf hread hnodup hm
  refine ⟨haligned, ?_, ?_, honce, ?_⟩
  · rw [Result.keys, resultOf, Dictionary.keys, fingerprints, List.map_map]
    rfl
  · rw [resultOf, List.append_nil]
    exact records.reports
  · intro item hm hfault
    have hnamed : ((undecodedOf items).map Undecoded.file).contains item.name = true := by
      obtain ⟨fault, hf⟩ := Option.isSome_iff_exists.mp hfault
      have hmem : (⟨item.name, fault.message⟩ : Undecoded) ∈ (undecodedOf items).filter
          (fun undecoded => undecoded.file == item.name) := by
        rw [honce item hm, hf]
        exact List.mem_singleton_self _
      rw [List.contains_iff_mem]
      exact List.mem_map.mpr ⟨_, (List.mem_filter.mp hmem).1, rfl⟩
    rw [haligned.pages, haligned.datasets, List.mem_filter, List.mem_filter, hnamed]
    simp

/-- **What a scan that reports comes to**, where the source files are texts and no
default of a component is a whole number of too many digits.  A scalar of a Markdown
page or dataset that is no value of its kind ends the scan, though it is asked to
report, and so do collections that are nested too deep.  Otherwise each such file that
is no document is reported once and left out, and the scan has a result, unless the
disk refuses to look for a file that a page names. -/
theorem run_reported {around : Surroundings} {disk : Tree} {request : Request} {root out : Place}
    {folder : Tree} {settings : Settings}
    (opened : Opened around disk request root out folder settings)
    (hpolicy : settings.policy = .report)
    (htexts : ∀ item ∈ scannedItems root out settings folder,
      ∃ text, Disk.decodeText item.content = .ok text)
    (hshort : ∀ item ∈ scannedItems root out settings folder,
      Path.isComponent item.key = true → ∀ text, Disk.decodeText item.content = .ok text →
        ∀ default ∈ Source.defaultTexts ((Source.split text).frontmatter.getD []),
          ¬ Source.LongNumeral default) :
    (∀ cause, firstDefect? (scannedItems root out settings folder) = some cause →
      (run around disk request).result = .error (.defect cause)) ∧
    (firstDefect? (scannedItems root out settings folder) = none →
      ∃ result, Reported (scannedItems root out settings folder) result ∧
        (run around disk request).result =
          (missingOf disk root settings request result.build).map
            (fun missing => { result with errors := result.errors ++ missing }) ∧
        ∀ failure, missingOf disk root settings request result.build = .error failure →
          ∃ page ∈ result.build.pages, ∃ file ∈ page.components, ∃ fault,
            Disk.isFile disk (root.below file) = .error fault ∧ failure = .disk fault) := by
  have hread : ∀ item ∈ scannedItems root out settings folder,
      ∃ reading, readingOf item = .ok reading := by
    intro item hm
    obtain ⟨text, ht⟩ := htexts item hm
    rw [readingOf]
    split
    · next hc =>
        obtain ⟨source, hs⟩ := Source.component_of_short (hshort item hm hc text ht)
        rw [ht, bind_ok, hs]
        exact ⟨_, rfl⟩
    · exact ⟨_, rfl⟩
  obtain ⟨hstops, hends⟩ := stages_of_sound_files hread htexts
  rw [run_of_opened opened, result_scanFolder]
  simp only
  rw [show itemsOf root (Disk.walk (filter root out settings) folder) =
    scannedItems root out settings folder from rfl, hpolicy]
  refine ⟨?_, ?_⟩
  · intro cause hc
    rw [hstops cause hc]
    rfl
  · intro hnone
    obtain ⟨readings, pages, datasets, stages⟩ := hends hnone
    have hsound := sound_of_stages opened (hpolicy ▸ stages) (milliseconds request.micros)
    have hmade : (assemble .report (traceLevel request.verbose) (milliseconds request.micros)
        (projectAt root) (scannedItems root out settings folder)).result =
          .ok (buildOf (milliseconds request.micros) (projectAt root) readings pages datasets,
            undecodedReports pages datasets) :=
      assemble_eq_ok_iff.mpr ⟨readings, pages, datasets, stages, rfl⟩
    refine ⟨resultOf root request (scannedItems root out settings folder) readings pages datasets
      [], reported_of_records hread (nodup_names_scannedItems root out settings folder)
        (records_of_stages stages), ?_, ?_⟩
    · rw [hmade, bind_ok, defectReports_of_sound hsound]
      simp only [Except.mapError, bind_ok, resultOf]
      cases missingOf disk root settings request (buildOf (milliseconds request.micros)
        (projectAt root) readings pages datasets) with
      | error failure => rfl
      | ok missing => rfl
    · intro failure hfail
      exact exists_of_missingOf_error hsound hfail

end ContentCatalog.Scan

/-! ### A project with a day that no month has -/

namespace ContentCatalog.Sample

open ContentCatalog.Scan

/-- One data file: a day in February, `a: 2024-02-30`. -/
def leapFolder : Tree :=
  .folder [("src", .folder [("data", .folder [("a.yaml",
    .file ⟨#[97, 58, 32, 50, 48, 50, 52, 45, 48, 50, 45, 51, 48, 10]⟩)])])]

/-- The disk with the project. -/
def leapDisk : Tree :=
  .folder [("site", leapFolder)]

theorem leapOpened : Opened around leapDisk (request .report) root out leapFolder
    (settings .report) where
  located := by
    simp only [request, Surroundings.locate, Surroundings.resolve, Place.holdsNull_eq]
    rfl
  found := by
    simp only [Disk.findFolder, Disk.find, Disk.guarded, Place.holdsNull_eq]
    rfl
  settled := rfl
  placed := by
    simp only [request, Request.outAt, Settings.outPlace, Surroundings.resolve,
      Place.holdsNull_eq]
    rfl

/-- Every item is a text, and none is a component. -/
def plainTexts (items : List Item) : Bool :=
  items.all fun item =>
    (Disk.decodeText item.content).toOption.isSome && !Path.isComponent item.key

/-- Where all items are plain texts each of them has a text. -/
theorem exists_decodeText {items : List Item} (h : plainTexts items = true) :
    ∀ item ∈ items, ∃ text, Disk.decodeText item.content = .ok text := by
  intro item hm
  have hitem := List.all_eq_true.mp h item hm
  rw [Bool.and_eq_true] at hitem
  exact exists_eq_ok hitem.1

theorem not_isComponent {items : List Item} (h : plainTexts items = true) :
    ∀ item ∈ items, Path.isComponent item.key = true → False := by
  intro item hm hc
  have hitem := List.all_eq_true.mp h item hm
  rw [hc, Bool.not_true, Bool.and_false] at hitem
  cases hitem

theorem plainTexts_leap :
    plainTexts (scannedItems root out (settings .report) leapFolder) = true := by
  rw [scannedItems, Disk.walk, leapFolder, Disk.walkFrom_folder,
    Disk.sorted_of_pairwise (by simp)]
  decide +kernel

theorem plainTexts_folder :
    plainTexts (scannedItems root out (settings .report) folder) = true := by
  rw [scannedItems, Disk.walk, folder, Disk.walkFrom_subfolder (by decide +kernel),
    Disk.walkFrom_folder, Disk.sorted_of_pairwise (by decide)]
  decide +kernel

/-- The first sample has a day that no month has. -/
theorem firstDefect?_leap :
    (firstDefect? (scannedItems root out (settings .report) leapFolder)).map
      Yaml.Defect.message = some "day is out of range for month" := by
  rw [scannedItems, Disk.walk, leapFolder, Disk.walkFrom_folder,
    Disk.sorted_of_pairwise (by simp)]
  decide +kernel

theorem firstDefect?_folder :
    (firstDefect? (scannedItems root out (settings .report) folder)).isNone = true := by
  rw [scannedItems, Disk.walk, folder, Disk.walkFrom_subfolder (by decide +kernel),
    Disk.walkFrom_folder, Disk.sorted_of_pairwise (by decide)]
  decide +kernel

end ContentCatalog.Sample

namespace ContentCatalog.Scan

/-- The day that no month has ends the scan; the file that is no document is
reported. -/
theorem run_reported_sample :
    (∃ cause : Yaml.Defect, cause.message = "day is out of range for month" ∧
      (run Sample.around Sample.leapDisk (Sample.request .report)).result =
        .error (.defect cause)) ∧
    ∃ result, Reported (scannedItems Sample.root Sample.out (Sample.settings .report)
      Sample.folder) result := by
  have hleap := Sample.plainTexts_leap
  have hplain := Sample.plainTexts_folder
  obtain ⟨hstops, -⟩ := run_reported Sample.leapOpened rfl (Sample.exists_decodeText hleap)
    (fun item hm hc => (Sample.not_isComponent hleap item hm hc).elim)
  obtain ⟨-, hends⟩ := run_reported (Sample.opened .report) rfl (Sample.exists_decodeText hplain)
    (fun item hm hc => (Sample.not_isComponent hplain item hm hc).elim)
  obtain ⟨cause, hcause, hmessage⟩ := Option.map_eq_some_iff.mp Sample.firstDefect?_leap
  obtain ⟨result, hreported, -⟩ := hends (Option.isNone_iff_eq_none.mp Sample.firstDefect?_folder)
  exact ⟨⟨cause, hmessage, hstops cause hcause⟩, result, hreported⟩

end ContentCatalog.Scan
