import ContentCatalog.Proofs.SoundScan

/-!
# Policies for undecodable files

The two policies differ only on a page or dataset that is no document.  Where a
scan that reports leaves out such files, a scan that aborts ends at the first one,
and where there is none both give the same.

* `mapM_settle_abort`, `mapM_settle_report` : one run over files under the two
  policies;
* `policies_agree` : whole scans under the two policies.
-/

namespace ContentCatalog.Scan

/-! ### One run under the two policies -/

section Runs

variable {α β : Type} {item : α → Item} {recordOf : α → Except Failure β} {sources : List α}
  {attempts : List (Attempt β)}

/-- What stops the run that aborts: the first file that the other run reports. -/
structure StopsAt (item : α → Item) (recordOf : α → Except Failure β) (sources : List α)
    (report : String) (place : Option Place) (fault : Yaml.Fault) : Prop where
  source : ∃ source ∈ sources, recordOf source = .error (.document place fault) ∧
    report = "Failed to decode " ++ (item source).name ++ ": " ++ fault.message
  stops : sources.mapM (fun source => settle .abort (item source) (recordOf source)) =
    .error (.document place fault)

/-- **From reporting to aborting.**  A run that reports nothing gives the same under
either policy, and otherwise the first report names the file that stops the other
run. -/
theorem mapM_settle_abort
    (h : sources.mapM (fun source => settle .report (item source) (recordOf source)) =
      .ok attempts) :
    (attempts.filterMap Attempt.report? = [] →
      sources.mapM (fun source => settle .abort (item source) (recordOf source)) =
        .ok attempts) ∧
    ∀ report others, attempts.filterMap Attempt.report? = report :: others →
      ∃ place fault, StopsAt item recordOf sources report place fault := by
  induction sources generalizing attempts with
  | nil =>
      cases h
      refine ⟨fun _ => rfl, ?_⟩
      intro report others heq
      cases heq
  | cons source sources ih =>
      rw [List.mapM_cons] at h
      obtain ⟨attempt, hfirst, h⟩ := bind_eq_ok_iff.mp h
      obtain ⟨rest, hrest, h⟩ := bind_eq_ok_iff.mp h
      cases h
      obtain ⟨hquiet, hloud⟩ := ih hrest
      rcases settle_eq_ok_iff.mp hfirst with ⟨value, hv, heq⟩ | ⟨place, fault, -, hd, heq⟩
      · subst heq
        refine ⟨?_, ?_⟩
        · intro hnone
          rw [List.mapM_cons, hv, settle_ok, bind_ok, hquiet hnone, bind_ok]
          rfl
        · intro report others hreports
          obtain ⟨place, fault, ⟨stopped, hm, hs⟩, hstops⟩ := hloud report others hreports
          refine ⟨place, fault, ⟨stopped, List.mem_cons_of_mem _ hm, hs⟩, ?_⟩
          rw [List.mapM_cons, hv, settle_ok, bind_ok, hstops]
          rfl
      · subst heq
        refine ⟨?_, ?_⟩
        · intro hnone
          cases hnone
        · intro report others hreports
          refine ⟨place, fault, ⟨source, List.mem_cons_self, hd, ?_⟩, ?_⟩
          · exact (List.cons.inj hreports).1.symm
          · rw [List.mapM_cons, hd]
            rfl

/-- **From aborting to reporting.**  A run that comes to an end without skipping
anything gives the same if it may skip files. -/
theorem mapM_settle_report
    (h : sources.mapM (fun source => settle .abort (item source) (recordOf source)) =
      .ok attempts) :
    sources.mapM (fun source => settle .report (item source) (recordOf source)) =
      .ok attempts := by
  rw [mapM_eq_ok_iff] at h ⊢
  refine h.imp ?_
  intro source attempt hs
  obtain ⟨value, hv, heq⟩ | ⟨place, fault, hp, -⟩ := settle_eq_ok_iff.mp hs
  · exact settle_eq_ok_iff.mpr (.inl ⟨value, hv, heq⟩)
  · cases hp

end Runs

/-! ### Where documents fail -/

/-- Bytes that are no text are not a document that cannot be decoded. -/
theorem decodeText_ne_document {content : ByteArray} {place : Option Place} {fault : Yaml.Fault} :
    Disk.decodeText content ≠ .error (.document place fault) := by
  rw [Disk.decodeText]
  split <;> simp

/-- A text that is no document is reported with the place that it was read for. -/
theorem place_of_document {α : Type} {content : ByteArray} {place : Option Place}
    {read : List Char → Except Yaml.Failure α} {here : Place} {fault : Yaml.Fault}
    (h : (Disk.decodeText content >>= fun text =>
      (read text).mapError (Failure.ofYaml (some here))) = .error (.document place fault)) :
    place = some here := by
  cases htext : Disk.decodeText content with
  | error failure =>
      rw [htext] at h
      have heq : failure = .document place fault := Except.error.inj h
      rw [heq] at htext
      exact absurd htext decodeText_ne_document
  | ok text =>
      rw [htext, bind_ok] at h
      cases hread : read text with
      | ok a =>
          rw [hread] at h
          cases h
      | error failure =>
          rw [hread] at h
          cases failure with
          | fault other =>
              cases h
              rfl
          | defect cause => cases h

/-- A page fails as a document at its own place. -/
theorem place_of_pageOf {reading : Read} {place : Option Place} {fault : Yaml.Fault}
    (h : pageOf reading = .error (.document place fault)) : place = some reading.item.place := by
  rw [pageOf] at h
  split at h
  · cases h
  · exact place_of_document (map_eq_error_iff.mp h)

/-- A dataset fails as a document at its own place. -/
theorem place_of_datasetOf {item : Item} {place : Option Place} {fault : Yaml.Fault}
    (h : datasetOf item = .error (.document place fault)) : place = some item.place :=
  place_of_document (map_eq_error_iff.mp h)

/-! ### The stages under the two policies -/

section Stages

variable {items : List Item} {readings : List Read} {pages : List (Attempt Page)}
  {datasets : List (Attempt Dataset)}

/-- Without a report the stages are those of the scan that aborts. -/
theorem Stages.to_abort (stages : Stages .report items readings pages datasets)
    (h : undecodedReports pages datasets = []) : Stages .abort items readings pages datasets := by
  obtain ⟨hpages, hdatasets⟩ := List.append_eq_nil_iff.mp h
  exact ⟨stages.read, (mapM_settle_abort stages.paged).1 hpages,
    (mapM_settle_abort stages.loaded).1 hdatasets⟩

/-- The stages of a scan that aborts are those of the scan that reports. -/
theorem Stages.to_report (stages : Stages .abort items readings pages datasets) :
    Stages .report items readings pages datasets :=
  ⟨stages.read, mapM_settle_report stages.paged, mapM_settle_report stages.loaded⟩

/-- **The first report stops the scan that aborts**: the pages come before the
datasets in either scan. -/
theorem Stages.stops (stages : Stages .report items readings pages datasets) {report : String}
    {others : List String} (h : undecodedReports pages datasets = report :: others)
    (trace : Log.Level) (generatedAt : Int) (project : Project) :
    ∃ item ∈ items, ∃ fault : Yaml.Fault,
      report = "Failed to decode " ++ item.name ++ ": " ++ fault.message ∧
      (assemble .abort trace generatedAt project items).result =
        .error (.document (some item.place) fault) := by
  obtain ⟨hquiet, hloud⟩ := mapM_settle_abort stages.paged
  rw [result_assemble, stages.read, bind_ok]
  cases hpages : pages.filterMap Attempt.report? with
  | cons first rest =>
      rw [undecodedReports, hpages] at h
      have hfirst : first = report := (List.cons.inj h).1
      obtain ⟨place, fault, ⟨reading, hm, hfail, hreport⟩, hstops⟩ := hloud first rest hpages
      have hplace := place_of_pageOf hfail
      have hitem := (stages.item_of_reading (List.mem_filter.mp hm).1).1
      refine ⟨reading.item, hitem, fault, hfirst.symm.trans hreport, ?_⟩
      rw [hstops, hplace]
      rfl
  | nil =>
      rw [undecodedReports, hpages] at h
      obtain ⟨place, fault, ⟨item, hm, hfail, hreport⟩, hstops⟩ :=
        (mapM_settle_abort stages.loaded).2 report others h
      have hplace := place_of_datasetOf hfail
      refine ⟨item, (List.mem_filter.mp hm).1, fault, hreport, ?_⟩
      rw [hquiet hpages, bind_ok, hstops, hplace]
      rfl

end Stages

/-! ### Whole scans under the two policies -/

/-- The report is one of a file that could not be decoded. -/
def IsUndecoded (report : String) : Prop :=
  "Failed to decode ".toList <+: report.toList

/-- The report of a file that cannot be decoded is told apart by its beginning. -/
theorem isUndecoded_report (file : String) (reason : String) :
    IsUndecoded ("Failed to decode " ++ file ++ ": " ++ reason) := by
  rw [IsUndecoded, String.append_assoc, String.append_assoc, String.toList_append]
  exact List.prefix_append _ _

/-- No report of a missing component is one of a file that could not be decoded. -/
theorem not_isUndecoded_missing (page file : String) :
    ¬ IsUndecoded ("Page(" ++ page ++ ") references missing component " ++ file) := by
  intro h
  rw [IsUndecoded, String.append_assoc, String.append_assoc, String.toList_append] at h
  obtain ⟨rest, heq⟩ := h
  have hfirst : some 'F' = some 'P' := congrArg List.head? heq
  exact absurd hfirst (by decide)

/-- The request with settings under a policy. -/
def Request.under (request : Request) (settings : Settings) (policy : Policy) : Request :=
  { request with settings := some { settings with policy := policy } }

/-- A scan knows the file at this absolute place by this name: the file is found
below the root, and its name is its path as seen from there. -/
structure NamedAt (around : Surroundings) (disk : Tree) (path file : String) (place : Place) :
    Prop where
  absolute : place.isAbsolute = true
  below : ∃ root folder names content, around.locate path = .ok root ∧
    Disk.findFolder disk root = .ok folder ∧ folder.Holds names content ∧
    place = root.below (String.ofList (Disk.pathBelow [] names)) ∧
    file = String.ofList (Path.relativeTo root.text.toList place.text.toList)

section Policies

variable {around : Surroundings} {disk : Tree} {request : Request} {settings : Settings}

/-- How far a scan gets before it looks at files does not depend on the policy. -/
theorem opened_under {policy : Policy} {root out : Place} {folder : Tree} {given : Settings}
    (h : Opened around disk (request.under settings policy) root out folder given)
    (other : Policy) :
    given = { settings with policy := policy } ∧
      Opened around disk (request.under settings other) root out folder
        { settings with policy := other } := by
  have hgiven : given = { settings with policy := policy } := (Except.ok.inj h.settled).symm
  subst hgiven
  exact ⟨rfl, ⟨h.located, h.found, rfl, h.placed⟩⟩

/-- The items of an opened folder are files below the root. -/
theorem namedAt_of_mem {root out : Place} {folder : Tree} {given : Settings}
    (h : Opened around disk request root out folder given) {item : Item}
    (hm : item ∈ scannedItems root out given folder) :
    NamedAt around disk request.root item.name item.place := by
  obtain ⟨-, file, hfile, heq⟩ := mem_itemsOf hm
  obtain ⟨names, hholds, -, hpath⟩ := Disk.mem_walkFrom.mp hfile
  subst heq
  refine ⟨?_, root, folder, names, file.content, h.located, h.found, hholds, ?_, ?_⟩
  · rw [itemAt_place]
    exact Place.isAbsolute_join (resolved_of_locate h.located).isAbsolute _
  · rw [itemAt_place, hpath]
  · rw [Item.name, itemAt_key, itemAt_place]

/-- The reports of a scan under the policy that reports, those of undecodable files
first. -/
theorem reports_of_report {root out : Place} {folder : Tree} {given : Settings} {result : Result}
    (h : Opened around disk request root out folder given)
    (hr : (scanFolder disk folder root out given request).result = .ok result) :
    ∃ readings pages datasets missing,
      Stages given.policy (scannedItems root out given folder) readings pages datasets ∧
      defectReports (buildOf (milliseconds request.micros) (projectAt root) readings pages
        datasets).toValue = .ok [] ∧
      missingOf disk root given request (buildOf (milliseconds request.micros) (projectAt root)
        readings pages datasets) = .ok missing ∧
      result = resultOf root request (scannedItems root out given folder) readings pages datasets
        missing ∧
      ∀ report ∈ missing, ¬ IsUndecoded report := by
  obtain ⟨readings, pages, datasets, defects, missing, stages, hdefects, hmissing, hresult⟩ :=
    stages_of_scanFolder hr
  have hbuild : result.build =
      buildOf (milliseconds request.micros) (projectAt root) readings pages datasets := by
    rw [hresult]
    rfl
  rw [hbuild] at hdefects hmissing
  have hsound := sound_of_stages h stages (milliseconds request.micros)
  have hnone := defectReports_of_sound hsound
  have hnil : defects = [] := Except.ok.inj (hdefects.symm.trans hnone)
  rw [hnil, List.nil_append] at hresult
  refine ⟨readings, pages, datasets, missing, stages, hnone, hmissing, hresult, ?_⟩
  intro report hm
  obtain ⟨page, -, file, -, heq⟩ := mem_missingOf hsound hmissing hm
  rw [heq]
  exact not_isUndecoded_missing page.id file

/-- Every report of what was left out is one of an undecodable file. -/
theorem isUndecoded_of_mem {policy : Policy} {items : List Item} {readings : List Read}
    {pages : List (Attempt Page)} {datasets : List (Attempt Dataset)}
    (stages : Stages policy items readings pages datasets) {report : String}
    (h : report ∈ undecodedReports pages datasets) : IsUndecoded report := by
  obtain ⟨item, -, fault, heq⟩ := mem_undecodedReports stages h
  rw [heq]
  exact isUndecoded_report item.name fault.message

/-- Where the scan that reports names no undecodable file, the other one gives the
same. -/
theorem abort_of_quiet {result : Result}
    (h : (run around disk (request.under settings .report)).result = .ok result)
    (hquiet : ∀ report ∈ result.errors, ¬ IsUndecoded report) :
    (run around disk (request.under settings .abort)).result = .ok result := by
  obtain ⟨root, out, folder, given, opened⟩ := opened_of_run h
  obtain ⟨hgiven, aborting⟩ := opened_under opened .abort
  subst hgiven
  rw [run_of_opened opened] at h
  obtain ⟨readings, pages, datasets, missing, stages, hdefects, hmissing, hresult, -⟩ :=
    reports_of_report opened h
  have hnone : undecodedReports pages datasets = [] := by
    rw [List.eq_nil_iff_forall_not_mem]
    intro report hm
    refine hquiet report ?_ (isUndecoded_of_mem stages hm)
    rw [hresult]
    exact List.mem_append_left missing hm
  rw [run_of_opened aborting, hresult]
  exact scanFolder_of_stages (stages.to_abort hnone) hdefects hmissing

/-- Where the scan that reports names undecodable files, the other one fails for the
first of them. -/
theorem abort_of_reported {result : Result} {earlier later : List String} {report : String}
    (h : (run around disk (request.under settings .report)).result = .ok result)
    (herrors : result.errors = earlier ++ report :: later)
    (hearlier : ∀ other ∈ earlier, ¬ IsUndecoded other) (hreport : IsUndecoded report) :
    ∃ file place fault, NamedAt around disk request.root file place ∧
      report = "Failed to decode " ++ file ++ ": " ++ Yaml.Fault.message fault ∧
      (run around disk (request.under settings .abort)).result =
        .error (.document (some place) fault) := by
  obtain ⟨root, out, folder, given, opened⟩ := opened_of_run h
  obtain ⟨hgiven, aborting⟩ := opened_under opened .abort
  subst hgiven
  rw [run_of_opened opened] at h
  obtain ⟨readings, pages, datasets, missing, stages, -, -, hresult, hmissing⟩ :=
    reports_of_report opened h
  have hsplit : undecodedReports pages datasets ++ missing = earlier ++ report :: later := by
    rw [← herrors, hresult]
    rfl
  cases hall : undecodedReports pages datasets with
  | nil =>
      rw [hall, List.nil_append] at hsplit
      exact absurd hreport (hmissing report (by rw [hsplit]; simp))
  | cons first others =>
      have hfirst : IsUndecoded first := isUndecoded_of_mem stages (by rw [hall]; simp)
      rw [hall, List.cons_append] at hsplit
      have hsame : first = report := by
        cases earlier with
        | nil => exact (List.cons.inj hsplit).1
        | cons other earlier =>
            have heq : first = other := (List.cons.inj hsplit).1
            rw [heq] at hfirst
            exact absurd hfirst (hearlier other List.mem_cons_self)
      obtain ⟨item, hitem, fault, hmessage, hstops⟩ := stages.stops hall
        (traceLevel request.verbose) (milliseconds request.micros) (projectAt root)
      refine ⟨item.name, item.place, fault, namedAt_of_mem opened hitem,
        hsame.symm.trans hmessage, ?_⟩
      rw [run_of_opened aborting, result_scanFolder]
      exact congrArg (· >>= _) hstops

/-- Where the scan that aborts comes to an end, the other one gives the same. -/
theorem report_of_abort {result : Result}
    (h : (run around disk (request.under settings .abort)).result = .ok result) :
    (run around disk (request.under settings .report)).result = .ok result := by
  obtain ⟨root, out, folder, given, opened⟩ := opened_of_run h
  obtain ⟨hgiven, reporting⟩ := opened_under opened .report
  subst hgiven
  rw [run_of_opened opened] at h
  obtain ⟨readings, pages, datasets, missing, stages, hdefects, hmissing, hresult, -⟩ :=
    reports_of_report opened h
  rw [run_of_opened reporting, hresult]
  exact scanFolder_of_stages stages.to_report hdefects hmissing

end Policies

/-- **The two policies agree.**  Where the scan that reports names no undecodable
file, the scan that aborts has the same result.  Otherwise that scan fails for the
file that is named first, for the same reason, at the file's absolute place.  And
where the scan that aborts has a result, the scan that reports has the same. -/
theorem policies_agree (around : Surroundings) (disk : Tree) (request : Request)
    (settings : Settings) :
    (∀ result, (run around disk (request.under settings .report)).result = .ok result →
      (∀ report ∈ result.errors, ¬ IsUndecoded report) →
        (run around disk (request.under settings .abort)).result = .ok result) ∧
    (∀ result earlier report later,
      (run around disk (request.under settings .report)).result = .ok result →
      result.errors = earlier ++ report :: later → (∀ other ∈ earlier, ¬ IsUndecoded other) →
      IsUndecoded report →
        ∃ file place fault, NamedAt around disk request.root file place ∧
          report = "Failed to decode " ++ file ++ ": " ++ Yaml.Fault.message fault ∧
          (run around disk (request.under settings .abort)).result =
            .error (.document (some place) fault) ∧
          (Failure.document (some place) fault).message =
            place.text ++ ": " ++ fault.message) ∧
    ∀ result, (run around disk (request.under settings .abort)).result = .ok result →
      (run around disk (request.under settings .report)).result = .ok result := by
  refine ⟨fun _ h hquiet => abort_of_quiet h hquiet, ?_, fun _ h => report_of_abort h⟩
  intro result earlier report later h herrors hearlier hreport
  obtain ⟨file, place, fault, hnamed, hmessage, hstops⟩ :=
    abort_of_reported h herrors hearlier hreport
  exact ⟨file, place, fault, hnamed, hmessage, hstops, rfl⟩

/-- The scan of the sample that aborts fails for the file that the other one leaves
out. -/
theorem policies_agree_sample :
    ∃ file place fault, NamedAt Sample.around Sample.disk "/site" file place ∧
      (run Sample.around Sample.disk (Sample.request .abort)).result =
        .error (.document (some place) fault) := by
  obtain ⟨result, h, report, herrors, hreport⟩ := Sample.exists_result
  obtain ⟨-, hstops, -⟩ := policies_agree Sample.around Sample.disk (Sample.request .report)
    (Sample.settings .report)
  obtain ⟨file, place, fault, hnamed, -, habort, -⟩ :=
    hstops result [] report [] h herrors (by simp) hreport
  exact ⟨file, place, fault, hnamed, habort⟩

end ContentCatalog.Scan
