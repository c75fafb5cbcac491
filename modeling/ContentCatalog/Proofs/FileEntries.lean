import ContentCatalog.Proofs.DecodePolicy
import Mathlib.Data.List.Nodup

/-!
# Entries of files

A scan runs over its files three times: for the components, for the pages and for the
datasets.  What it records of a file in all of these runs is worked out from that
file alone.  So its result is the list of what its files amount to, one by one, and
the manifest and the build cover the same files.

* `records_of_stages` : what the runs give, file by file;
* `nodup_names_scannedItems` : no key is in a manifest twice;
* `run_aligned` : the statement about whole scans.
-/

namespace ContentCatalog.Scan

/-- A file that was left out, with the reason. -/
structure Undecoded where
  file : String
  reason : String

/-- The report of a file that was left out. -/
def Undecoded.report (undecoded : Undecoded) : String :=
  "Failed to decode " ++ undecoded.file ++ ": " ++ undecoded.reason

/-- What is said of an item that is no document. -/
def undecoded? {α : Type} (item : Item) : Except Failure α → Option Undecoded
  | .error (.document _ fault) => some ⟨item.name, fault.message⟩
  | _ => none

@[simp] theorem undecoded?_ok {α : Type} (item : Item) (value : α) :
    undecoded? item (.ok value) = none := rfl

/-- An item that is no document is not decoded. -/
@[simp] theorem undecoded?_document {α : Type} (item : Item) (place : Option Place)
    (fault : Yaml.Fault) :
    undecoded? (α := α) item (.error (.document place fault)) =
      some ⟨item.name, fault.message⟩ := rfl

/-- What is made of the value makes no difference. -/
theorem undecoded?_map {α β : Type} (item : Item) (f : α → β) (result : Except Failure α) :
    undecoded? item (result.map f) = undecoded? item result := by
  cases result with
  | ok value => rfl
  | error failure => cases failure <;> rfl

@[simp] theorem value?_done {α : Type} (value : α) : (Attempt.done value).value? = some value :=
  rfl

@[simp] theorem value?_skipped {α : Type} (report : String) :
    (Attempt.skipped (α := α) report).value? = none := rfl

@[simp] theorem report?_done {α : Type} (value : α) : (Attempt.done value).report? = none := rfl

@[simp] theorem report?_skipped {α : Type} (report : String) :
    (Attempt.skipped (α := α) report).report? = some report := rfl

/-! ### What one file amounts to -/

namespace Item

/-- The item with what its source tells if it is a component. -/
def reading (item : Item) : Read :=
  ⟨item, (readingOf item).toOption.bind Read.component⟩

/-- The item is taken as a dataset. -/
def isData (item : Item) : Bool :=
  Path.isDataset item.key && Path.isUnderData item.key

/-- The component of an item under its key. -/
def component? (item : Item) : Option (String × Component) :=
  item.reading.entry?

/-- The page of an item. -/
def page? (item : Item) : Option Page :=
  if Path.isPage item.key then (pageOf item.reading).toOption else none

/-- The dataset of an item. -/
def dataset? (item : Item) : Option Dataset :=
  if item.isData then (datasetOf item).toOption else none

/-- What is said of a page that is left out. -/
def undecodedPage? (item : Item) : Option Undecoded :=
  if Path.isPage item.key then undecoded? item (pageOf item.reading) else none

/-- What is said of a dataset that is left out. -/
def undecodedDataset? (item : Item) : Option Undecoded :=
  if item.isData then undecoded? item (datasetOf item) else none

end Item

/-- What is said of the items that are left out: the pages first. -/
def undecodedOf (items : List Item) : List Undecoded :=
  items.filterMap Item.undecodedPage? ++ items.filterMap Item.undecodedDataset?

/-! ### One run -/

section Runs

variable {α β : Type} {policy : Policy} {item : α → Item} {recordOf : α → Except Failure β}
  {sources : List α} {attempts : List (Attempt β)}

/-- **One run over files**, file by file: what it keeps and what it reports. -/
theorem filterMap_of_mapM_settle
    (h : sources.mapM (fun source => settle policy (item source) (recordOf source)) =
      .ok attempts) :
    attempts.filterMap Attempt.value? = sources.filterMap (fun s => (recordOf s).toOption) ∧
      attempts.filterMap Attempt.report? =
        (sources.filterMap fun s => undecoded? (item s) (recordOf s)).map Undecoded.report := by
  have hall := mapM_eq_ok_iff.mp h
  clear h
  induction hall with
  | nil => exact ⟨rfl, rfl⟩
  | cons hfirst _ ih =>
      obtain ⟨hvalues, hreports⟩ := ih
      rcases settle_eq_ok_iff.mp hfirst with ⟨value, hv, heq⟩ | ⟨place, fault, -, hd, heq⟩
      · subst heq
        simp only [List.filterMap_cons, value?_done, report?_done, hv, undecoded?_ok, hvalues,
          Except.toOption]
        exact ⟨trivial, hreports⟩
      · subst heq
        simp only [List.filterMap_cons, value?_skipped, report?_skipped, hd, undecoded?_document,
          List.map_cons, hvalues, hreports, Except.toOption]
        exact ⟨trivial, rfl⟩

/-- In a run that comes to an end a file is kept or reported. -/
theorem kept_or_reported
    (h : sources.mapM (fun source => settle policy (item source) (recordOf source)) =
      .ok attempts) {source : α} (hm : source ∈ sources) :
    (∃ value, recordOf source = .ok value) ∨
      ∃ place fault, recordOf source = .error (.document place fault) := by
  have hall := mapM_eq_ok_iff.mp h
  clear h
  induction hall with
  | nil => cases hm
  | cons hfirst _ ih =>
      rcases List.mem_cons.mp hm with heq | hm
      · subst heq
        rcases settle_eq_ok_iff.mp hfirst with ⟨value, hv, -⟩ | ⟨place, fault, -, hd, -⟩
        · exact .inl ⟨value, hv⟩
        · exact .inr ⟨place, fault, hd⟩
      · exact ih hm

end Runs

/-! ### All runs -/

/-- What has been read of an item is its reading. -/
theorem reading_of_readingOf {item : Item} {reading : Read} (h : readingOf item = .ok reading) :
    reading = item.reading := by
  obtain ⟨hitem, -⟩ := sound_readingOf h
  rw [Item.reading, h]
  obtain ⟨other, component⟩ := reading
  simp only at hitem
  rw [hitem]
  rfl

/-- A run that comes to an end gives something for each item. -/
theorem exists_ok_of_mapM {ε α β : Type} {f : α → Except ε β} {items : List α}
    {results : List β} (h : items.mapM f = .ok results) {item : α} (hm : item ∈ items) :
    ∃ result, f item = .ok result := by
  have hall := mapM_eq_ok_iff.mp h
  clear h
  induction hall with
  | nil => cases hm
  | cons hfirst _ ih =>
      rcases List.mem_cons.mp hm with heq | hm
      · exact ⟨_, heq ▸ hfirst⟩
      · exact ih hm

/-- The readings of a run are those of its items. -/
theorem readings_of_mapM {items : List Item} {readings : List Read}
    (h : items.mapM readingOf = .ok readings) : readings = items.map Item.reading := by
  have hall := mapM_eq_ok_iff.mp h
  clear h
  induction hall with
  | nil => rfl
  | cons hfirst _ ih => rw [List.map_cons, ← reading_of_readingOf hfirst, ih]

/-- A component that was read has an entry in the build. -/
theorem isSome_component? {item : Item} {reading : Read} (h : readingOf item = .ok reading) :
    item.component?.isSome = Path.isComponent item.key := by
  rw [Item.component?, ← reading_of_readingOf h, Read.entry?, Option.isSome_map]
  rw [readingOf] at h
  split at h
  · next hc =>
      obtain ⟨source, -, heq⟩ := map_eq_ok_iff.mp h
      rw [← heq, hc]
      rfl
  · next hc =>
      rw [← Except.ok.inj h]
      simpa using hc

/-- The readings of pages are those of the items that are pages. -/
theorem pageReadings_map_reading (items : List Item) :
    pageReadings (items.map Item.reading) =
      (items.filter fun item => Path.isPage item.key).map Item.reading := by
  rw [pageReadings, List.filter_map]
  rfl

/-- The result of a scan says of each file what the file amounts to. -/
structure Records (items : List Item) (readings : List Read) (paged : List (Attempt Page))
    (loaded : List (Attempt Dataset)) : Prop where
  components : readings.filterMap Read.entry? = items.filterMap Item.component?
  pages : paged.filterMap Attempt.value? = items.filterMap Item.page?
  datasets : loaded.filterMap Attempt.value? = items.filterMap Item.dataset?
  reports : undecodedReports paged loaded = (undecodedOf items).map Undecoded.report
  isComponent : ∀ item ∈ items, item.component?.isSome = Path.isComponent item.key
  isPage : ∀ item ∈ items, item.page?.isSome =
    (Path.isPage item.key && item.undecodedPage?.isNone)
  isData : ∀ item ∈ items, item.dataset?.isSome = (item.isData && item.undecodedDataset?.isNone)

/-- **What the runs give, file by file.** -/
theorem records_of_stages {policy : Policy} {items : List Item} {readings : List Read}
    {pages : List (Attempt Page)} {datasets : List (Attempt Dataset)}
    (stages : Stages policy items readings pages datasets) :
    Records items readings pages datasets := by
  have hreadings := readings_of_mapM stages.read
  have hpaged := stages.paged
  rw [hreadings, pageReadings_map_reading, List.mapM_map] at hpaged
  obtain ⟨hpages, hpageReports⟩ := filterMap_of_mapM_settle hpaged
  obtain ⟨hdatasets, hdatasetReports⟩ := filterMap_of_mapM_settle stages.loaded
  refine ⟨?_, ?_, ?_, ?_, ?_, ?_, ?_⟩
  · rw [hreadings, List.filterMap_map]
    rfl
  · rw [hpages, List.filterMap_filter]
    rfl
  · rw [hdatasets, datasetItems, List.filterMap_filter]
    rfl
  · rw [undecodedReports, hpageReports, hdatasetReports, undecodedOf, List.map_append,
      datasetItems, List.filterMap_filter, List.filterMap_filter]
    rfl
  · intro item hm
    obtain ⟨reading, hr⟩ := exists_ok_of_mapM stages.read hm
    exact isSome_component? hr
  · intro item hm
    rw [Item.page?, Item.undecodedPage?]
    cases hpage : Path.isPage item.key with
    | false => rfl
    | true =>
        have hmem : item ∈ items.filter fun item => Path.isPage item.key :=
          List.mem_filter.mpr ⟨hm, hpage⟩
        rcases kept_or_reported hpaged hmem with ⟨page, hp⟩ | ⟨place, fault, hd⟩
        · simp [hp, Except.toOption]
        · simp [hd, Except.toOption]
  · intro item hm
    rw [Item.dataset?, Item.undecodedDataset?]
    cases hdata : item.isData with
    | false => rfl
    | true =>
        have hmem : item ∈ datasetItems items := List.mem_filter.mpr ⟨hm, hdata⟩
        rcases kept_or_reported stages.loaded hmem with ⟨dataset, hd⟩ | ⟨place, fault, hd⟩
        · simp [hd, Except.toOption]
        · simp [hd, Except.toOption]

/-! ### Keys -/

/-- The name of an item is its key as a text. -/
theorem Item.toList_name (item : Item) : item.name.toList = item.key :=
  String.toList_ofList

/-- **No key is in a manifest twice**, whatever the files are called. -/
theorem nodup_names_scannedItems (root out : Place) (settings : Settings) (folder : Tree) :
    ((scannedItems root out settings folder).map Item.name).Nodup := by
  have step : ∀ {keyed : List (List Char × Item)}, (∀ entry ∈ keyed, entry.2.key = entry.1) →
      ((Dictionary.ofEntries keyed).map fun entry => entry.2.key).Nodup := by
    intro keyed hkeyed
    have hkeys := Dictionary.nodup_keys_ofEntries keyed
    rw [Dictionary.keys] at hkeys
    rwa [List.map_congr_left fun entry hm => hkeyed entry (Dictionary.mem_ofEntries hm)]
  rw [scannedItems, itemsOf]
  refine List.Nodup.sublist (List.filter_sublist.map _) ?_
  rw [List.map_map]
  refine List.Nodup.of_map String.toList ?_
  rw [List.map_map, List.map_congr_left fun entry _ => Item.toList_name entry.2]
  apply step
  intro entry hm
  obtain ⟨file, -, heq⟩ := List.mem_map.mp hm
  rw [← heq]

/-- A page is known by its suffix, which is not that of a dataset. -/
theorem not_isDataset_of_isPage {path : List Char} (h : Path.isPage path = true) :
    Path.isDataset path = false := by
  rw [Path.isPage, Bool.and_eq_true, Bool.or_eq_true] at h
  have hlast : ∀ suffix ∈ Path.componentSuffix :: Path.markdownSuffixes,
      ∀ other ∈ Path.datasetSuffixes, suffix ≠ [] ∧ other ≠ [] ∧
        suffix.getLast? ≠ other.getLast? := by
    decide
  have hpage : ∃ suffix ∈ Path.componentSuffix :: Path.markdownSuffixes, ∃ start,
      Text.lower (Path.normalize path) = start ++ suffix := by
    rcases h.2 with hc | hm
    · obtain ⟨suffix, hs, start, heq⟩ := Path.hasSuffix_iff.mp hc
      rw [List.mem_singleton] at hs
      exact ⟨suffix, hs ▸ List.mem_cons_self, start, heq⟩
    · obtain ⟨suffix, hs, start, heq⟩ := Path.hasSuffix_iff.mp hm
      exact ⟨suffix, List.mem_cons_of_mem _ hs, start, heq⟩
  obtain ⟨suffix, hs, start, heq⟩ := hpage
  rw [Bool.eq_false_iff]
  intro hd
  obtain ⟨other, ho, front, hother⟩ := Path.hasSuffix_iff.mp hd
  obtain ⟨hne, hotherNe, hdiffer⟩ := hlast suffix hs other ho
  refine hdiffer ?_
  have hends := congrArg List.getLast? (heq.symm.trans hother)
  rwa [List.getLast?_append_of_ne_nil _ hne, List.getLast?_append_of_ne_nil _ hotherNe] at hends

section Names

variable {β γ : Type} {items : List Item} {f : Item → Option β} {g : Item → Option γ}
  {nameOf : β → String} {otherName : γ → String}

/-- What items amount to has the names of the items that amount to something. -/
theorem map_filterMap_name (hf : ∀ item b, f item = some b → nameOf b = item.name) :
    (items.filterMap f).map nameOf = (items.filter fun item => (f item).isSome).map Item.name := by
  induction items with
  | nil => rfl
  | cons item items ih =>
      cases hitem : f item with
      | none => simp [hitem, ih]
      | some b => simp [hitem, ih, hf item b hitem]

/-- Items with different keys are found by their names. -/
theorem find?_filterMap_name (hf : ∀ item b, f item = some b → nameOf b = item.name)
    (hnodup : (items.map Item.name).Nodup) {item : Item} (hm : item ∈ items) :
    (items.filterMap f).find? (fun b => nameOf b == item.name) = f item := by
  induction items with
  | nil => cases hm
  | cons first items ih =>
      rw [List.map_cons, List.nodup_cons] at hnodup
      obtain ⟨hfirst, hrest⟩ := hnodup
      rcases List.mem_cons.mp hm with heq | hm
      · subst heq
        cases hitem : f item with
        | some b => simp [hitem, hf item b hitem]
        | none =>
            rw [List.filterMap_cons_none hitem, List.find?_eq_none]
            intro b hb
            obtain ⟨other, hother, hb⟩ := List.mem_filterMap.mp hb
            have hne : other.name ≠ item.name := fun heq =>
              hfirst (heq ▸ List.mem_map_of_mem hother)
            simpa [hf other b hb] using hne
      · have hne : first.name ≠ item.name := fun heq =>
          hfirst (heq ▸ List.mem_map_of_mem hm)
        cases hitem : f first with
        | none => rw [List.filterMap_cons_none hitem, ih hrest hm]
        | some b =>
            rw [List.filterMap_cons_some hitem, List.find?_cons_of_neg, ih hrest hm]
            simpa [hf first b hitem] using hne

/-- An item has a name that comes up exactly if it amounts to something itself. -/
theorem contains_name_iff (hf : ∀ item b, f item = some b → nameOf b = item.name)
    (hnodup : (items.map Item.name).Nodup) {item : Item} (hm : item ∈ items) :
    ((items.filterMap f).map nameOf).contains item.name = (f item).isSome := by
  rw [map_filterMap_name hf, Bool.eq_iff_iff, List.contains_iff_mem, List.mem_map]
  constructor
  · intro h
    obtain ⟨other, ho, heq⟩ := h
    obtain ⟨hother, hsome⟩ := List.mem_filter.mp ho
    rwa [List.inj_on_of_nodup_map hnodup hother hm heq] at hsome
  · intro h
    exact ⟨item, List.mem_filter.mpr ⟨hm, h⟩, rfl⟩

end Names

/-! ### Manifest and build -/

/-- The keys of a manifest. -/
def Result.keys (result : Result) : List String :=
  Dictionary.keys result.manifest.files

/-- The manifest and the build cover the same files, less the ones that are left out
and named by the first reports. -/
structure Result.Aligned (result : Result) (leftOut : List Undecoded) : Prop where
  nodup : result.keys.Nodup
  reports : ∃ others, result.errors = leftOut.map Undecoded.report ++ others ∧
    ∀ report ∈ others, ¬ IsUndecoded report
  named : leftOut.map Undecoded.file =
    (result.keys.filter fun key =>
      Path.isPage key.toList && !(result.build.pages.map Page.id).contains key) ++
    result.keys.filter fun key =>
      Path.isDataset key.toList && Path.isUnderData key.toList &&
        !(result.build.datasets.map Dataset.file).contains key
  components : Dictionary.keys result.build.components =
    result.keys.filter fun key => Path.isComponent key.toList
  pages : result.build.pages.map Page.id =
    result.keys.filter fun key =>
      Path.isPage key.toList && !(leftOut.map Undecoded.file).contains key
  datasets : result.build.datasets.map Dataset.file =
    result.keys.filter fun key =>
      Path.isDataset key.toList && Path.isUnderData key.toList &&
        !(leftOut.map Undecoded.file).contains key
  ownFiles : (∀ page ∈ result.build.pages, page.file = page.id) ∧
    ∀ entry ∈ result.build.components, entry.2.id = entry.1 ∧ entry.2.file = entry.1
  hashes : ∀ dataset ∈ result.build.datasets,
    Dictionary.lookup? dataset.file result.manifest.files = some dataset.hash
  componentPages : ∀ page ∈ result.build.pages, Path.isComponent page.id.toList = true →
    page.sourceType = some FieldSource.component.name ∧
      ∃ component, Dictionary.lookup? page.id result.build.components = some component ∧
        page.fields = component.props
  markdownPages : ∀ page ∈ result.build.pages, Path.isComponent page.id.toList = false →
    Path.isMarkdown page.id.toList = true ∧
      page.sourceType = some FieldSource.markdown.name ∧ page.components = []

/-- The page of an item carries the item's name, and the rest is told by its source. -/
theorem page_of_item {item : Item} {page : Page} (h : item.page? = some page) :
    page.id = item.name ∧ page.file = item.name ∧ Path.isPage item.key = true ∧
      (∀ source, item.reading.component = some source →
        page.sourceType = some FieldSource.component.name ∧ page.fields = source.props) ∧
      (item.reading.component = none →
        page.sourceType = some FieldSource.markdown.name ∧ page.components = []) := by
  rw [Item.page?] at h
  split at h
  · next hpage =>
      rw [pageOf] at h
      split at h
      · next source hs =>
          have heq := Option.some.inj h
          rw [← heq]
          refine ⟨rfl, rfl, hpage, ?_, ?_⟩
          · intro other ho
            rw [← Option.some.inj (hs.symm.trans ho)]
            exact ⟨rfl, rfl⟩
          · intro hnone
            rw [hs] at hnone
            cases hnone
      · next hs =>
          cases hsource : markdownOf item.reading.item with
          | error failure =>
              rw [hsource] at h
              cases h
          | ok source =>
              rw [hsource] at h
              have heq := Option.some.inj h
              rw [← heq]
              refine ⟨rfl, rfl, hpage, ?_, fun _ => ⟨rfl, rfl⟩⟩
              intro other ho
              rw [hs] at ho
              cases ho
  · cases h

/-- The dataset of an item carries the item's name and its fingerprint. -/
theorem dataset_of_item {item : Item} {dataset : Dataset} (h : item.dataset? = some dataset) :
    dataset.file = item.name ∧ dataset.hash = Sha256.digest item.content := by
  rw [Item.dataset?] at h
  split at h
  · rw [datasetOf] at h
    cases hdata : documentOf item with
    | error failure =>
        rw [hdata] at h
        cases h
    | ok data =>
        rw [hdata] at h
        have heq := Option.some.inj h
        rw [← heq]
        exact ⟨rfl, rfl⟩
  · cases h

/-- The record of a component has the name of its item and the props of its source. -/
theorem component_of_item {item : Item} {entry : String × Component}
    (h : item.component? = some entry) :
    entry.1 = item.name ∧ entry.2.id = item.name ∧ entry.2.file = item.name ∧
      ∃ source, item.reading.component = some source ∧ entry.2.props = source.props := by
  obtain ⟨source, hs, heq⟩ := Option.map_eq_some_iff.mp h
  rw [← heq]
  exact ⟨rfl, rfl, rfl, source, hs, rfl⟩

/-- What is not decoded is told by the name of its item. -/
theorem undecoded?_file {α : Type} {item : Item} {result : Except Failure α}
    {undecoded : Undecoded} (h : undecoded? item result = some undecoded) :
    undecoded.file = item.name := by
  unfold undecoded? at h
  split at h
  · rw [← Option.some.inj h]
  · cases h

theorem undecodedPage?_file (item : Item) (undecoded : Undecoded)
    (h : item.undecodedPage? = some undecoded) : undecoded.file = item.name := by
  rw [Item.undecodedPage?] at h
  split at h
  · exact undecoded?_file h
  · cases h

theorem undecodedDataset?_file (item : Item) (undecoded : Undecoded)
    (h : item.undecodedDataset? = some undecoded) : undecoded.file = item.name := by
  rw [Item.undecodedDataset?] at h
  split at h
  · exact undecoded?_file h
  · cases h

/-- An item whose name is its own has the fingerprint of its bytes. -/
theorem lookup?_fingerprints {items : List Item} (hnodup : (items.map Item.name).Nodup)
    {item : Item} (hm : item ∈ items) :
    Dictionary.lookup? item.name (fingerprints items) = some (Sha256.digest item.content) := by
  have hnames : ∀ (item : Item) (entry : String × String),
      some (item.name, Sha256.digest item.content) = some entry → entry.1 = item.name := by
    intro item entry heq
    rw [← Option.some.inj heq]
  rw [Dictionary.lookup?, fingerprints, ← List.filterMap_eq_map',
    find?_filterMap_name hnames hnodup hm]
  rfl

section Aligned

variable {items : List Item} {readings : List Read} {paged : List (Attempt Page)}
  {loaded : List (Attempt Dataset)}

/-- A page is left out if it is reported, and so is a dataset. -/
theorem contains_undecodedOf (hnodup : (items.map Item.name).Nodup) {item : Item}
    (hm : item ∈ items) :
    ((undecodedOf items).map Undecoded.file).contains item.name =
      (item.undecodedPage?.isSome || item.undecodedDataset?.isSome) := by
  rw [undecodedOf, List.map_append, Bool.eq_iff_iff, List.contains_iff_mem, List.mem_append,
    ← List.contains_iff_mem, ← List.contains_iff_mem,
    contains_name_iff undecodedPage?_file hnodup hm,
    contains_name_iff undecodedDataset?_file hnodup hm, Bool.or_eq_true]

/-- No item is a page and a dataset. -/
theorem undecodedDataset?_of_isPage {item : Item} (h : Path.isPage item.key = true) :
    item.undecodedDataset? = none := by
  rw [Item.undecodedDataset?, Item.isData, not_isDataset_of_isPage h]
  rfl

/-- A dataset is no page that cannot be decoded. -/
theorem undecodedPage?_of_isData {item : Item} (h : item.isData = true) :
    item.undecodedPage? = none := by
  rw [Item.isData, Bool.and_eq_true] at h
  rw [Item.undecodedPage?, if_neg]
  intro hpage
  rw [not_isDataset_of_isPage hpage] at h
  cases h.1

/-- What the items amount to that have a property by their names. -/
theorem map_filterMap_eq_filter {β : Type} {f : Item → Option β} {nameOf : β → String}
    {p : String → Bool} (hf : ∀ item b, f item = some b → nameOf b = item.name)
    (hp : ∀ item ∈ items, (f item).isSome = p item.name) :
    (items.filterMap f).map nameOf = (items.map Item.name).filter p := by
  rw [map_filterMap_name hf, List.filter_map]
  exact congrArg (List.map Item.name) (List.filter_congr hp)

/-- **What is recorded file by file is aligned.** -/
theorem aligned_of_records (records : Records items readings paged loaded)
    (hnodup : (items.map Item.name).Nodup) {result : Result} {others : List String}
    (hfiles : result.manifest.files = fingerprints items)
    (hpages : result.build.pages = paged.filterMap Attempt.value?)
    (hcomponents : result.build.components = readings.filterMap Read.entry?)
    (hdatasets : result.build.datasets = loaded.filterMap Attempt.value?)
    (herrors : result.errors = undecodedReports paged loaded ++ others)
    (hothers : ∀ report ∈ others, ¬ IsUndecoded report) :
    result.Aligned (undecodedOf items) := by
  have hkeys : result.keys = items.map Item.name := by
    rw [Result.keys, hfiles, Dictionary.keys, fingerprints, List.map_map]
    rfl
  rw [records.components] at hcomponents
  rw [records.pages] at hpages
  rw [records.datasets] at hdatasets
  rw [records.reports] at herrors
  have hpageName : ∀ (item : Item) (page : Page), item.page? = some page → page.id = item.name :=
    fun item page h => (page_of_item h).1
  have hdataName : ∀ (item : Item) (dataset : Dataset), item.dataset? = some dataset →
      dataset.file = item.name := fun item dataset h => (dataset_of_item h).1
  refine ⟨hkeys ▸ hnodup, ⟨others, herrors, hothers⟩, ?_, ?_, ?_, ?_, ⟨?_, ?_⟩, ?_, ?_, ?_⟩
  · rw [hkeys, hpages, hdatasets, undecodedOf, List.map_append]
    congr 1
    · refine map_filterMap_eq_filter undecodedPage?_file ?_
      intro item hm
      rw [contains_name_iff hpageName hnodup hm, records.isPage item hm, Item.toList_name]
      cases hpage : Path.isPage item.key with
      | false => simp [Item.undecodedPage?, hpage]
      | true => cases item.undecodedPage? <;> rfl
    · refine map_filterMap_eq_filter undecodedDataset?_file ?_
      intro item hm
      rw [contains_name_iff hdataName hnodup hm, records.isData item hm, Item.toList_name]
      change _ = (item.isData && _)
      cases hdata : item.isData with
      | false => simp [Item.undecodedDataset?, hdata]
      | true => cases item.undecodedDataset? <;> rfl
  · rw [hkeys, hcomponents]
    refine map_filterMap_eq_filter (fun item entry h => (component_of_item h).1) ?_
    intro item hm
    rw [records.isComponent item hm, Item.toList_name]
  · rw [hkeys, hpages]
    refine map_filterMap_eq_filter hpageName ?_
    intro item hm
    rw [contains_undecodedOf hnodup hm, records.isPage item hm, Item.toList_name]
    cases hpage : Path.isPage item.key with
    | false => rfl
    | true =>
        rw [undecodedDataset?_of_isPage hpage]
        cases item.undecodedPage? <;> rfl
  · rw [hkeys, hdatasets]
    refine map_filterMap_eq_filter hdataName ?_
    intro item hm
    rw [contains_undecodedOf hnodup hm, records.isData item hm, Item.toList_name]
    change _ = (item.isData && _)
    cases hdata : item.isData with
    | false => rfl
    | true =>
        rw [undecodedPage?_of_isData hdata]
        cases item.undecodedDataset? <;> rfl
  · intro page hp
    rw [hpages] at hp
    obtain ⟨item, -, hitem⟩ := List.mem_filterMap.mp hp
    obtain ⟨hid, hfile, -⟩ := page_of_item hitem
    rw [hid, hfile]
  · intro entry he
    rw [hcomponents] at he
    obtain ⟨item, -, hitem⟩ := List.mem_filterMap.mp he
    obtain ⟨hkey, hid, hfile, -⟩ := component_of_item hitem
    exact ⟨hid.trans hkey.symm, hfile.trans hkey.symm⟩
  · intro dataset hd
    rw [hdatasets] at hd
    obtain ⟨item, hm, hitem⟩ := List.mem_filterMap.mp hd
    obtain ⟨hfile, hhash⟩ := dataset_of_item hitem
    rw [hfiles, hfile, hhash, lookup?_fingerprints hnodup hm]
  · intro page hp hcomponent
    rw [hpages] at hp
    obtain ⟨item, hm, hitem⟩ := List.mem_filterMap.mp hp
    obtain ⟨hid, -, -, htold, -⟩ := page_of_item hitem
    rw [hid, Item.toList_name, ← records.isComponent item hm] at hcomponent
    obtain ⟨entry, hentry⟩ := Option.isSome_iff_exists.mp hcomponent
    obtain ⟨hkey, -, -, source, hsource, hprops⟩ := component_of_item hentry
    obtain ⟨htype, hfields⟩ := htold source hsource
    refine ⟨htype, entry.2, ?_, hfields.trans hprops.symm⟩
    rw [Dictionary.lookup?, hcomponents, hid,
      find?_filterMap_name (fun item entry h => (component_of_item h).1) hnodup hm, hentry]
    rfl
  · intro page hp hcomponent
    rw [hpages] at hp
    obtain ⟨item, hm, hitem⟩ := List.mem_filterMap.mp hp
    obtain ⟨hid, -, hpage, -, htold⟩ := page_of_item hitem
    rw [hid, Item.toList_name] at hcomponent ⊢
    rw [Path.isPage, hcomponent, Bool.false_or, Bool.and_eq_true] at hpage
    refine ⟨hpage.2, htold ?_⟩
    rw [← records.isComponent item hm, Item.component?, Read.entry?, Option.isSome_map,
      Option.isSome_eq_false_iff, Option.isNone_iff_eq_none] at hcomponent
    exact hcomponent

/-- A result that is made of such records is aligned. -/
theorem aligned_resultOf (records : Records items readings paged loaded)
    (hnodup : (items.map Item.name).Nodup) (root : Place) (request : Request)
    {others : List String} (hothers : ∀ report ∈ others, ¬ IsUndecoded report) :
    (resultOf root request items readings paged loaded others).Aligned (undecodedOf items) :=
  aligned_of_records records hnodup rfl rfl rfl rfl rfl hothers

end Aligned

/-! ### Whole scans -/

/-- What a scan that comes to an end says of its items. -/
theorem exists_records_of_run {around : Surroundings} {disk : Tree} {request : Request}
    {root out : Place} {folder : Tree} {settings : Settings} {result : Result}
    (opened : Opened around disk request root out folder settings)
    (h : (run around disk request).result = .ok result) :
    ∃ readings paged loaded others,
      Records (scannedItems root out settings folder) readings paged loaded ∧
      result = resultOf root request (scannedItems root out settings folder) readings paged loaded
        others ∧ ∀ report ∈ others, ¬ IsUndecoded report := by
  rw [run_of_opened opened] at h
  obtain ⟨readings, paged, loaded, missing, stages, -, -, hresult, hmissing⟩ :=
    reports_of_report opened h
  exact ⟨readings, paged, loaded, missing, records_of_stages stages, hresult, hmissing⟩

/-- **The manifest and the build of a scan cover the same files**, less the ones that
could not be decoded, in the same order. -/
theorem run_aligned {around : Surroundings} {disk : Tree} {request : Request} {result : Result}
    (h : (run around disk request).result = .ok result) : ∃ leftOut, result.Aligned leftOut := by
  obtain ⟨root, out, folder, settings, opened⟩ := opened_of_run h
  obtain ⟨readings, paged, loaded, others, records, hresult, hothers⟩ :=
    exists_records_of_run opened h
  subst hresult
  exact ⟨_, aligned_resultOf records (nodup_names_scannedItems root out settings folder) root
    request hothers⟩

/-- The sample's manifest has both files, and its build all but the one that is no
document. -/
theorem run_aligned_sample :
    ∃ result, (run Sample.around Sample.disk (Sample.request .report)).result = .ok result ∧
      ∃ leftOut, result.Aligned leftOut := by
  obtain ⟨result, h, -⟩ := Sample.exists_result
  exact ⟨result, h, run_aligned h⟩

end ContentCatalog.Scan
