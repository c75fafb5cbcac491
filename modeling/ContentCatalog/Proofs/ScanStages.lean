import ContentCatalog.Scan
import Mathlib.Data.List.Forall2

/-!
# Stages of a scan

A scan leaves records while it works.  Its result does not depend on them, and
this file says what the result of each stage is without them.

Pages and datasets go through the same two steps: a file gives a record or a
failure, and the policy settles what becomes of the failure.

* `result_mapM`, `mapM_eq_ok_iff`, `mapM_eq_error_iff` : a run over a list, what it gives, and
  where it stops;
* `result_assemble` : the build of a scan and the reports of what was left out;
* `result_scanFolder` : the scan of a folder;
* `run_of_opened`, `opened_of_run` : a scan that comes to an end is the scan of the
  folder at its root;
* `stages_of_scanFolder` : what the stages of such a scan have given.
-/

namespace ContentCatalog

/-! ### Computations with records -/

namespace Logged

theorem id_map {α : Type} (x : Logged α) : id <$> x = x := by
  show andThen x (fun a => ⟨[], .ok a⟩) = x
  obtain ⟨records, result⟩ := x
  cases result <;> simp [andThen]

theorem bind_assoc {α β γ : Type} (x : Logged α) (f : α → Logged β) (g : β → Logged γ) :
    x >>= f >>= g = x >>= fun a => f a >>= g := by
  show andThen (andThen x f) g = andThen x fun a => andThen (f a) g
  obtain ⟨records, result⟩ := x
  cases result with
  | error failure => rfl
  | ok a =>
      cases hf : (f a).result <;> simp [andThen, hf]

instance : LawfulMonad Logged :=
  LawfulMonad.mk' Logged id_map (fun _ _ => rfl) bind_assoc

theorem result_lift {α : Type} (result : Except Failure α) : (lift result).result = result := rfl

/-- A computation goes on with a result that was lifted. -/
theorem result_lift_bind {α β : Type} (result : Except Failure α) (next : α → Logged β) :
    (lift result >>= next).result = result >>= fun a => (next a).result := by
  rw [result_bind, result_lift]

/-- The result of a run over items depends on the results of its steps only. -/
theorem result_mapM {α β : Type} (f : α → Logged β) (items : List α) :
    (items.mapM f).result = items.mapM fun item => (f item).result := by
  induction items with
  | nil => rfl
  | cons item items ih =>
      simp only [List.mapM_cons, result_bind, ih]
      rfl

end Logged

theorem bind_ok {ε α β : Type} (a : α) (second : α → Except ε β) :
    (Except.ok a >>= second) = second a := rfl

/-- What is no failure is a result. -/
theorem exists_eq_ok {ε α : Type} {result : Except ε α} (h : result.toOption.isSome = true) :
    ∃ a, result = .ok a := by
  cases result with
  | ok a => exact ⟨a, rfl⟩
  | error fault => cases h

/-- A computation comes to an end if its evaluation gives something of its result. -/
theorem exists_ended {ε α β : Type} {part : α → β} {outcome : Except ε α} {b : β}
    (h : outcome.toOption.map part = some b) : ∃ a, outcome = .ok a ∧ part a = b := by
  cases outcome with
  | error fault => cases h
  | ok a => exact ⟨a, rfl, Option.some.inj h⟩

/-- A second computation succeeds on what a first one gives. -/
theorem bind_eq_ok_iff {ε α β : Type} {first : Except ε α} {second : α → Except ε β} {b : β} :
    first >>= second = .ok b ↔ ∃ a, first = .ok a ∧ second a = .ok b := by
  cases first with
  | error fault => simp [bind, Except.bind]
  | ok a => simp [bind, Except.bind]

/-- A second computation fails on what a first one gives, if that did not fail itself. -/
theorem bind_eq_error_iff {ε α β : Type} {first : Except ε α} {f : α → Except ε β}
    {failure : ε} :
    first >>= f = .error failure ↔
      first = .error failure ∨ ∃ a, first = .ok a ∧ f a = .error failure := by
  cases first with
  | ok a => simp [bind_ok]
  | error cause => simp [bind, Except.bind]

/-- A run over a list comes to an end exactly if each item gives something. -/
theorem mapM_eq_ok_iff {ε α β : Type} {f : α → Except ε β} {items : List α} {results : List β} :
    items.mapM f = .ok results ↔
      List.Forall₂ (fun item result => f item = .ok result) items results := by
  induction items generalizing results with
  | nil => cases results <;> simp [pure, Except.pure]
  | cons item items ih =>
      simp only [List.mapM_cons, bind_eq_ok_iff, ih, List.forall₂_cons_left_iff]
      constructor
      · intro hand
        obtain ⟨first, hf, others, ho, heq⟩ := hand
        cases heq
        exact ⟨first, others, hf, ho, rfl⟩
      · intro hand
        obtain ⟨first, others, hf, ho, rfl⟩ := hand
        exact ⟨first, hf, others, ho, rfl⟩

/-- A run over a list comes to an end if no item stops it. -/
theorem exists_mapM {ε α β : Type} {f : α → Except ε β} {items : List α}
    (h : ∀ item ∈ items, ∃ b, f item = .ok b) : ∃ results, items.mapM f = .ok results := by
  induction items with
  | nil => exact ⟨[], rfl⟩
  | cons item items ih =>
      obtain ⟨hfirst, hrest⟩ := List.forall_mem_cons.mp h
      obtain ⟨b, hb⟩ := hfirst
      obtain ⟨results, hr⟩ := ih hrest
      exact ⟨b :: results, by rw [List.mapM_cons, hb, hr]; rfl⟩

/-- A run over a list fails as the first item that stops it. -/
theorem mapM_eq_error_iff {ε α β : Type} {f : α → Except ε β} {items : List α} {failure : ε} :
    items.mapM f = .error failure ↔
      ∃ before item behind, items = before ++ item :: behind ∧ f item = .error failure ∧
        ∀ other ∈ before, ∃ b, f other = .ok b := by
  constructor
  · intro h
    induction items with
    | nil => cases h
    | cons item items ih =>
        rw [List.mapM_cons] at h
        rcases bind_eq_error_iff.mp h with hfirst | ⟨b, hb, h⟩
        · exact ⟨[], item, items, rfl, hfirst, List.forall_mem_nil _⟩
        · rcases bind_eq_error_iff.mp h with hrest | ⟨results, -, h⟩
          · obtain ⟨before, found, behind, rfl, hfound, hbefore⟩ := ih hrest
            exact ⟨item :: before, found, behind, rfl, hfound,
              List.forall_mem_cons.mpr ⟨⟨b, hb⟩, hbefore⟩⟩
          · cases h
  · rintro ⟨before, item, behind, rfl, hitem, hbefore⟩
    obtain ⟨results, hresults⟩ := exists_mapM hbefore
    rw [List.mapM_append, hresults, bind_ok, List.mapM_cons, hitem]
    rfl

/-- What a run over a list gives comes from the items. -/
theorem exists_of_mem_mapM {ε α β : Type} {f : α → Except ε β} {items : List α}
    {results : List β} (h : items.mapM f = .ok results) {result : β} (hr : result ∈ results) :
    ∃ item ∈ items, f item = .ok result := by
  have hall := mapM_eq_ok_iff.mp h
  clear h
  induction hall with
  | nil => cases hr
  | cons hf _ ih =>
      rcases List.mem_cons.mp hr with heq | hr
      · rw [heq]
        exact ⟨_, List.mem_cons_self, hf⟩
      · obtain ⟨item, hm, hf⟩ := ih hr
        exact ⟨item, List.mem_cons_of_mem _ hm, hf⟩

theorem mapError_eq_ok_iff {ε φ α : Type} {f : ε → φ} {result : Except ε α} {a : α} :
    result.mapError f = .ok a ↔ result = .ok a := by
  cases result <;> simp [Except.mapError]

/-- What is made of a result comes from its value. -/
theorem map_eq_ok_iff {ε α β : Type} {f : α → β} {result : Except ε α} {b : β} :
    result.map f = .ok b ↔ ∃ a, result = .ok a ∧ f a = b := by
  cases result <;> simp [Except.map]

/-- And a failure stays as it is. -/
theorem map_eq_error_iff {ε α β : Type} {f : α → β} {result : Except ε α} {failure : ε} :
    result.map f = .error failure ↔ result = .error failure := by
  cases result <;> simp [Except.map]

namespace Scan

/-! ### Single files -/

/-- What reading an item comes to. -/
def readingOf (item : Item) : Except Failure Read :=
  if Path.isComponent item.key then
    ((Disk.decodeText item.content) >>= fun text =>
      (Source.component text).mapError .number).map fun source => ⟨item, some source⟩
  else .ok ⟨item, none⟩

/-- The page of a component, or of what the source of a Markdown page tells. -/
def pageOf (reading : Read) : Except Failure Page :=
  match reading.component with
  | some source =>
    .ok {
      id := reading.item.name
      file := reading.item.name
      route := String.ofList (Path.route reading.item.key)
      components := (Path.componentFiles source.tags).map String.ofList
      fields := source.props
      sourceType := some FieldSource.component.name }
  | none =>
    (markdownOf reading.item).map fun source => {
      id := reading.item.name
      file := reading.item.name
      route := String.ofList (Path.route reading.item.key)
      components := []
      fields := source.fields
      sourceType := some FieldSource.markdown.name }

/-- The dataset of an item. -/
def datasetOf (item : Item) : Except Failure Dataset :=
  (documentOf item).map fun data => {
    id := String.ofList (Path.datasetName item.key)
    file := item.name
    data := data
    hash := Sha256.digest item.content }

/-- What becomes of a file under a policy. -/
def settle {α : Type} (policy : Policy) (item : Item) (result : Except Failure α) :
    Except Failure (Attempt α) :=
  (decodeUnder policy item result).result

/-- An item is read as its reading, whatever is told of it. -/
theorem result_read (trace : Log.Level) (item : Item) :
    (read trace item).result = readingOf item := by
  unfold read readingOf
  split
  · rw [Logged.result_lift_bind]
    cases (Disk.decodeText item.content) >>= fun text =>
      (Source.component text).mapError Failure.number <;> rfl
  · rfl

/-- Under either policy a record goes on and a failure that is no document's ends
the scan; the policies differ on documents only. -/
theorem settle_ok {α : Type} (policy : Policy) (item : Item) (value : α) :
    settle policy item (.ok value) = .ok (.done value) := by
  cases policy <;> rfl

/-- A scan that reports leaves out a file that is no document. -/
theorem settle_document {α : Type} (item : Item) (place : Option Place) (fault : Yaml.Fault) :
    settle (α := α) .report item (.error (.document place fault)) =
      .ok (.skipped ("Failed to decode " ++ item.name ++ ": " ++ fault.message)) := rfl

/-- Any other failure stays. -/
theorem settle_error {α : Type} {policy : Policy} {failure : Failure} (item : Item)
    (h : policy = .report → ∀ place fault, failure ≠ .document place fault) :
    settle (α := α) policy item (.error failure) = .error failure := by
  cases policy with
  | abort => cases failure <;> rfl
  | report =>
      cases failure with
      | document place fault => exact absurd rfl (h rfl place fault)
      | _ => rfl

/-- What a policy makes of a file: its record, or the report of a file that could
not be decoded. -/
theorem settle_eq_ok_iff {α : Type} {policy : Policy} {item : Item} {result : Except Failure α}
    {attempt : Attempt α} :
    settle policy item result = .ok attempt ↔
      (∃ value, result = .ok value ∧ attempt = .done value) ∨
        ∃ place fault, policy = .report ∧ result = .error (.document place fault) ∧
          attempt = .skipped ("Failed to decode " ++ item.name ++ ": " ++ fault.message) := by
  cases result with
  | ok value => simp [settle_ok, eq_comm]
  | error failure =>
      by_cases h : policy = .report → ∀ place fault, failure ≠ .document place fault
      · rw [settle_error item h]
        constructor
        · intro heq
          cases heq
        · intro hor
          obtain ⟨value, hv, -⟩ | ⟨place, fault, hp, hd, -⟩ := hor
          · cases hv
          · exact absurd (Except.error.inj hd) (h hp place fault)
      · push Not at h
        obtain ⟨hp, place, fault, hd⟩ := h
        rw [hp, hd, settle_document]
        simp [eq_comm]

/-- A page is settled as the policy says. -/
theorem result_page (policy : Policy) (trace : Log.Level) (reading : Read) :
    (page policy trace reading).result = settle policy reading.item (pageOf reading) := by
  unfold page pageOf
  cases reading.component with
  | some source => rw [settle_ok]; rfl
  | none =>
      rw [Logged.result_bind]
      cases markdownOf reading.item with
      | ok source => cases policy <;> rfl
      | error failure => cases policy <;> cases failure <;> rfl

theorem result_dataset (policy : Policy) (trace : Log.Level) (item : Item) :
    (dataset policy trace item).result = settle policy item (datasetOf item) := by
  unfold dataset datasetOf
  rw [Logged.result_bind]
  cases documentOf item with
  | ok data => cases policy <;> rfl
  | error failure => cases policy <;> cases failure <;> rfl

/-! ### The build -/

/-- The pages among what was read. -/
def pageReadings (readings : List Read) : List Read :=
  readings.filter fun reading => Path.isPage reading.item.key

/-- The datasets among the items. -/
def datasetItems (items : List Item) : List Item :=
  items.filter fun item => Path.isDataset item.key && Path.isUnderData item.key

/-- The build of what was decoded. -/
def buildOf (generatedAt : Int) (project : Project) (readings : List Read)
    (pages : List (Attempt Page)) (datasets : List (Attempt Dataset)) : Build where
  generatedAt := generatedAt
  project := project
  pages := pages.filterMap Attempt.value?
  components := readings.filterMap Read.entry?
  datasets := datasets.filterMap Attempt.value?

/-- The reports of what was left out. -/
def undecodedReports (pages : List (Attempt Page)) (datasets : List (Attempt Dataset)) :
    List String :=
  pages.filterMap Attempt.report? ++ datasets.filterMap Attempt.report?

/-- **The build of a scan** comes from a run over the items, one over the pages and
one over the datasets. -/
theorem result_assemble (policy : Policy) (trace : Log.Level) (generatedAt : Int)
    (project : Project) (items : List Item) :
    (assemble policy trace generatedAt project items).result =
      (items.mapM readingOf >>= fun readings =>
        (pageReadings readings).mapM (fun r => settle policy r.item (pageOf r)) >>= fun pages =>
          (datasetItems items).mapM (fun i => settle policy i (datasetOf i)) >>= fun datasets =>
            .ok (buildOf generatedAt project readings pages datasets,
              undecodedReports pages datasets)) := by
  unfold assemble
  simp only [Logged.result_bind, Logged.result_mapM, result_read, result_page, result_dataset]
  rfl

/-! ### The whole scan -/

/-- The project at a root. -/
def projectAt (root : Place) : Project where
  root := String.ofList (Path.normalize root.text.toList)
  name := String.ofList (Path.projectName root.text.toList)

/-- The reports of missing components, if they are asked for. -/
def missingOf (disk : Tree) (root : Place) (settings : Settings) (request : Request)
    (build : Build) : Except Failure (List String) :=
  if request.verify.getD settings.verify then missingReferencesAt disk root build.toValue
  else .ok []

/-- **The scan of a folder** assembles a build, checks it, and looks for the
components that its pages name. -/
theorem result_scanFolder (disk folder : Tree) (root out : Place) (settings : Settings)
    (request : Request) :
    (scanFolder disk folder root out settings request).result =
      let items := itemsOf root (Disk.walk (filter root out settings) folder)
      (assemble settings.policy (traceLevel request.verbose) (milliseconds request.micros)
          (projectAt root) items).result >>= fun made =>
        (defectReports made.1.toValue).mapError Failure.number >>= fun defects =>
          missingOf disk root settings request made.1 >>= fun missing =>
            .ok {
              manifest := {
                generatedAt := milliseconds request.micros
                project := projectAt root
                files := fingerprints items }
              build := made.1
              errors := made.2 ++ defects ++ missing } := by
  unfold scanFolder missingOf
  simp only [Logged.result_bind, Logged.result_lift]
  congr 1
  funext made
  congr 1
  funext defects
  split
  · rw [Logged.result_lift_bind]; rfl
  · rfl

/-- The settings that a scan goes by. -/
def Request.settingsAt (around : Surroundings) (disk : Tree) (request : Request) (root : Place) :
    Except Failure Settings :=
  match request.settings with
  | some settings => .ok settings
  | none => Settings.load around disk root

/-- The place for results, which a scan leaves out. -/
def Request.outAt (around : Surroundings) (request : Request) (settings : Settings) :
    Except Failure Place :=
  match request.out with
  | some out => around.expand out >>= around.resolve
  | none => settings.outPlace around

/-- Two computations that go on in the same way come to the same end. -/
theorem bind_congr_ok {ε α β : Type} {first : Except ε α} {f g : α → Except ε β}
    (h : ∀ a, f a = g a) : first >>= f = first >>= g :=
  congrArg _ (funext h)

/-- **A whole scan** looks for the folder at the root, for the settings and for the
place of the results, in this order, and scans the folder. -/
theorem result_run (around : Surroundings) (disk : Tree) (request : Request) :
    (run around disk request).result =
      (around.locate request.root >>= fun root =>
        (Disk.present disk root).mapError Failure.disk >>= fun present =>
          if !present then .error (.rootMissing request.root)
          else (Disk.isFolder disk root).mapError Failure.disk >>= fun isFolder =>
            if !isFolder then .error (.rootNotFolder request.root)
            else request.settingsAt around disk root >>= fun settings =>
              request.outAt around settings >>= fun out =>
                (Disk.findFolder disk root).mapError Failure.disk >>= fun folder =>
                  (scanFolder disk folder root out settings request).result) := by
  unfold run Request.settingsAt Request.outAt
  simp only [Logged.result_lift_bind]
  refine bind_congr_ok fun root => bind_congr_ok fun present => ?_
  split
  · rfl
  · rw [Logged.result_lift_bind]
    refine bind_congr_ok fun isFolder => ?_
    split
    · rfl
    · cases request.settings <;> cases request.out <;>
        simp only [Logged.result_lift_bind, pure_bind] <;> rfl

/-- The scan gets as far as the folder of the project. -/
structure Opened (around : Surroundings) (disk : Tree) (request : Request) (root out : Place)
    (folder : Tree) (settings : Settings) : Prop where
  located : around.locate request.root = .ok root
  found : Disk.findFolder disk root = .ok folder
  settled : request.settingsAt around disk root = .ok settings
  placed : request.outAt around settings = .ok out

/-- A folder that is found is one. -/
theorem find_of_findFolder {disk folder : Tree} {root : Place}
    (h : Disk.findFolder disk root = .ok folder) :
    Disk.find disk root = .ok folder ∧ ∃ entries, folder = .folder entries := by
  unfold Disk.findFolder at h
  obtain ⟨tree, hf, ht⟩ := bind_eq_ok_iff.mp h
  cases tree with
  | file content => cases ht
  | folder entries =>
      cases ht
      exact ⟨hf, entries, rfl⟩

/-- A scan that gets as far as the folder is the scan of that folder. -/
theorem run_of_opened {around : Surroundings} {disk : Tree} {request : Request}
    {root out : Place} {folder : Tree} {settings : Settings}
    (h : Opened around disk request root out folder settings) :
    (run around disk request).result =
      (scanFolder disk folder root out settings request).result := by
  obtain ⟨hf, entries, rfl⟩ := find_of_findFolder h.found
  have hp : Disk.present disk root = .ok true := by simp [Disk.present, Disk.ask, hf]
  have hd : Disk.isFolder disk root = .ok true := by simp [Disk.isFolder, Disk.ask, hf]
  rw [result_run, h.located, bind_ok, hp, hd, h.found]
  simp only [Except.mapError, bind_ok, Bool.not_true, Bool.false_eq_true, if_false, h.settled,
    h.placed]

/-- A scan that comes to an end gets as far as the folder. -/
theorem opened_of_run {around : Surroundings} {disk : Tree} {request : Request} {result : Result}
    (h : (run around disk request).result = .ok result) :
    ∃ root out folder settings, Opened around disk request root out folder settings := by
  rw [result_run] at h
  obtain ⟨root, hl, h⟩ := bind_eq_ok_iff.mp h
  obtain ⟨present, -, h⟩ := bind_eq_ok_iff.mp h
  split at h
  · cases h
  · obtain ⟨isFolder, -, h⟩ := bind_eq_ok_iff.mp h
    split at h
    · cases h
    · obtain ⟨settings, hs, h⟩ := bind_eq_ok_iff.mp h
      obtain ⟨out, ho, h⟩ := bind_eq_ok_iff.mp h
      obtain ⟨folder, hf, -⟩ := bind_eq_ok_iff.mp h
      exact ⟨root, out, folder, settings, hl, mapError_eq_ok_iff.mp hf, hs, ho⟩

/-- The items of an opened folder. -/
def scannedItems (root out : Place) (settings : Settings) (folder : Tree) : List Item :=
  itemsOf root (Disk.walk (filter root out settings) folder)

/-- What the three runs over the items give. -/
structure Stages (policy : Policy) (items : List Item) (readings : List Read)
    (pages : List (Attempt Page)) (datasets : List (Attempt Dataset)) : Prop where
  read : items.mapM readingOf = .ok readings
  paged : (pageReadings readings).mapM (fun r => settle policy r.item (pageOf r)) = .ok pages
  loaded : (datasetItems items).mapM (fun i => settle policy i (datasetOf i)) = .ok datasets

/-- A build is assembled if all stages come to their end, and from what they give. -/
theorem assemble_eq_ok_iff {policy : Policy} {trace : Log.Level} {generatedAt : Int}
    {project : Project} {items : List Item} {made : Build × List String} :
    (assemble policy trace generatedAt project items).result = .ok made ↔
      ∃ readings pages datasets, Stages policy items readings pages datasets ∧
        made = (buildOf generatedAt project readings pages datasets,
          undecodedReports pages datasets) := by
  rw [result_assemble]
  constructor
  · intro h
    obtain ⟨readings, hr, h⟩ := bind_eq_ok_iff.mp h
    obtain ⟨pages, hp, h⟩ := bind_eq_ok_iff.mp h
    obtain ⟨datasets, hd, h⟩ := bind_eq_ok_iff.mp h
    cases h
    exact ⟨readings, pages, datasets, ⟨hr, hp, hd⟩, rfl⟩
  · intro hand
    obtain ⟨readings, pages, datasets, ⟨hr, hp, hd⟩, rfl⟩ := hand
    rw [hr, bind_ok, hp, bind_ok, hd, bind_ok]

/-- The result of a scan from what its stages give. -/
def resultOf (root : Place) (request : Request) (items : List Item) (readings : List Read)
    (pages : List (Attempt Page)) (datasets : List (Attempt Dataset))
    (found : List String) : Result where
  manifest := {
    generatedAt := milliseconds request.micros
    project := projectAt root
    files := fingerprints items }
  build := buildOf (milliseconds request.micros) (projectAt root) readings pages datasets
  errors := undecodedReports pages datasets ++ found

/-- **A scan of a folder that comes to an end** has gone through all stages. -/
theorem stages_of_scanFolder {disk folder : Tree} {root out : Place} {settings : Settings}
    {request : Request} {result : Result}
    (h : (scanFolder disk folder root out settings request).result = .ok result) :
    ∃ readings pages datasets defects missing,
      Stages settings.policy (scannedItems root out settings folder) readings pages datasets ∧
      defectReports result.build.toValue = .ok defects ∧
      missingOf disk root settings request result.build = .ok missing ∧
      result = resultOf root request (scannedItems root out settings folder) readings pages
        datasets (defects ++ missing) := by
  rw [result_scanFolder] at h
  obtain ⟨made, ha, h⟩ := bind_eq_ok_iff.mp h
  obtain ⟨defects, hd, h⟩ := bind_eq_ok_iff.mp h
  obtain ⟨missing, hm, h⟩ := bind_eq_ok_iff.mp h
  obtain ⟨readings, pages, datasets, stages, rfl⟩ := assemble_eq_ok_iff.mp ha
  cases h
  refine ⟨readings, pages, datasets, defects, missing, stages, mapError_eq_ok_iff.mp hd, hm, ?_⟩
  rw [resultOf, ← List.append_assoc]
  rfl

/-- **Behind its stages**, a scan of a folder depends on the search for missing components. -/
theorem result_of_stages {disk folder : Tree} {root out : Place} {settings : Settings}
    {request : Request} {readings : List Read} {pages : List (Attempt Page)}
    {datasets : List (Attempt Dataset)} {defects : List String}
    (stages : Stages settings.policy (scannedItems root out settings folder) readings pages
      datasets)
    (hdefects : defectReports (buildOf (milliseconds request.micros) (projectAt root) readings
      pages datasets).toValue = .ok defects) :
    (scanFolder disk folder root out settings request).result =
      (missingOf disk root settings request (buildOf (milliseconds request.micros)
        (projectAt root) readings pages datasets)).map fun missing =>
          resultOf root request (scannedItems root out settings folder) readings pages datasets
            (defects ++ missing) := by
  have hmade : (assemble settings.policy (traceLevel request.verbose)
      (milliseconds request.micros) (projectAt root)
      (scannedItems root out settings folder)).result =
        .ok (buildOf (milliseconds request.micros) (projectAt root) readings pages datasets,
          undecodedReports pages datasets) :=
    assemble_eq_ok_iff.mpr ⟨readings, pages, datasets, stages, rfl⟩
  rw [result_scanFolder]
  simp only
  rw [show itemsOf root (Disk.walk (filter root out settings) folder) =
    scannedItems root out settings folder from rfl, hmade, bind_ok, hdefects]
  simp only [Except.mapError, bind_ok, resultOf, ← List.append_assoc]
  rfl

/-- A scan of a folder comes to an end if its stages do. -/
theorem scanFolder_of_stages {disk folder : Tree} {root out : Place} {settings : Settings}
    {request : Request} {readings : List Read} {pages : List (Attempt Page)}
    {datasets : List (Attempt Dataset)} {defects missing : List String}
    (stages : Stages settings.policy (scannedItems root out settings folder) readings pages
      datasets)
    (hdefects : defectReports (buildOf (milliseconds request.micros) (projectAt root) readings
      pages datasets).toValue = .ok defects)
    (hmissing : missingOf disk root settings request (buildOf (milliseconds request.micros)
      (projectAt root) readings pages datasets) = .ok missing) :
    (scanFolder disk folder root out settings request).result =
      .ok (resultOf root request (scannedItems root out settings folder) readings pages datasets
        (defects ++ missing)) := by
  rw [result_of_stages stages hdefects, hmissing]
  rfl

end Scan

end ContentCatalog
