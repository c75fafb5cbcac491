import ContentCatalog.Proofs.ReportedDefects
import ContentCatalog.Proofs.SoundBuild
import ContentCatalog.Proofs.WrittenValues

/-!
# Persisted builds

A build is checked when it was just made, and it can be checked again after it was written
and read back.  Only words and the shapes of lists and mappings enter into the check, and
these are what a text keeps.  So both checks find the same, whatever is wrong with the
build.

* `sameMembers_field`, `sameMembers_page`, ... : the records of a build, name by name;
* `fieldDefects_readsAs`, `pageDefects_readsAs`, ... : the checks of the parts;
* `defects_readsAs` : the check of the whole;
* `same_reports` : the reports on a build and on what its text is read as.
-/

namespace ContentCatalog

/-! ### Doubles of a build -/

/-- The doubles in a build, which are in the data of its datasets and the defaults of its
fields, are in the form that rounding gives. -/
structure Build.Rounded (build : Build) : Prop where
  pages : ∀ page ∈ build.pages, ∀ field ∈ page.fields, ∀ value ∈ field.default, value.Rounded
  components : ∀ entry ∈ build.components, ∀ field ∈ entry.2.props, ∀ value ∈ field.default,
    value.Rounded
  datasets : ∀ dataset ∈ build.datasets, dataset.data.Rounded

/-- An optional member is there if it has a value. -/
theorem forall_mem_optionalMember {name : String} {value : Option Value}
    {p : String × Value → Prop} :
    (∀ member ∈ Field.optionalMember name value, p member) ↔ ∀ v ∈ value, p (name, v) := by
  cases value <;> simp [Field.optionalMember]

/-- The doubles in the record of fields are those of their defaults. -/
theorem rounded_fieldValues {fields : List Field}
    (h : ∀ field ∈ fields, ∀ value ∈ field.default, value.Rounded) :
    (fieldValues fields).Rounded := by
  rw [fieldValues, rounded_list, List.forall_mem_map]
  intro field hfield
  rw [Field.toValue, rounded_record]
  simp only [List.forall_mem_append, List.forall_mem_cons, forall_mem_optionalMember]
  refine ⟨⟨⟨?_, h field hfield⟩, ?_⟩, ?_⟩ <;> simp

/-- Everything else in a build's record is a word. -/
theorem Build.Rounded.toValue {build : Build} (h : build.Rounded) : build.toValue.Rounded := by
  have hpage : ∀ page ∈ build.pages, page.toValue.Rounded := by
    intro page hpage
    rw [Page.toValue, rounded_record]
    simp only [List.forall_mem_append, List.forall_mem_cons, forall_mem_optionalMember]
    simp [rounded_fieldValues (h.pages page hpage)]
  have hcomponent : ∀ entry ∈ build.components, entry.2.toValue.Rounded := by
    intro entry hentry
    rw [Component.toValue, rounded_record]
    simp [rounded_fieldValues (h.components entry hentry)]
  have hdataset : ∀ dataset ∈ build.datasets, dataset.toValue.Rounded := by
    intro dataset hdataset
    rw [Dataset.toValue, rounded_record]
    simp [h.datasets dataset hdataset]
  rw [Build.toValue, rounded_record]
  simp only [List.forall_mem_cons, rounded_list, rounded_record, List.forall_mem_map,
    Project.toValue]
  simpa using ⟨hpage, fun name component => hcomponent (name, component), hdataset⟩

/-! ### Records of a build -/

/-- The record of a field is read with the same members. -/
theorem sameMembers_field {field : Field} {other : Value} (h : ReadsAs field.toValue other) :
    ∃ others, other = .map others ∧ SameMembers (entriesOf field.toValue) others := by
  refine sameMembers_record ?_ h
  obtain ⟨key, type, required, default, rawType, source⟩ := field
  cases default <;> cases rawType <;> cases source <;>
    simp [Dictionary.keys, Field.optionalMember]

theorem sameMembers_page {page : Page} {other : Value} (h : ReadsAs page.toValue other) :
    ∃ others, other = .map others ∧ SameMembers (entriesOf page.toValue) others := by
  refine sameMembers_record ?_ h
  cases page.sourceType <;> simp [Dictionary.keys, Field.optionalMember]

theorem sameMembers_component {component : Component} {other : Value}
    (h : ReadsAs component.toValue other) :
    ∃ others, other = .map others ∧ SameMembers (entriesOf component.toValue) others :=
  sameMembers_record (by simp [Dictionary.keys]) h

theorem sameMembers_dataset {dataset : Dataset} {other : Value}
    (h : ReadsAs dataset.toValue other) :
    ∃ others, other = .map others ∧ SameMembers (entriesOf dataset.toValue) others :=
  sameMembers_record (by simp [Dictionary.keys]) h

theorem sameMembers_project {project : Project} {other : Value}
    (h : ReadsAs project.toValue other) :
    ∃ others, other = .map others ∧ SameMembers (entriesOf project.toValue) others :=
  sameMembers_record (by simp [Dictionary.keys]) h

/-- So is the record of a whole build. -/
theorem sameMembers_build {build : Build} {other : Value} (h : ReadsAs build.toValue other) :
    ∃ others, other = .map others ∧ SameMembers (entriesOf build.toValue) others :=
  sameMembers_record (by simp [Dictionary.keys]) h

/-! ### Checks of the parts -/

/-- The keys seen before are the same in both lists, since the keys are. -/
theorem fieldDefects_readsAs {seen : List String} {fields : List Field} {others : List Value}
    (h : List.Forall₂ ReadsAs (fields.map Field.toValue) others) :
    fieldDefects seen others = fieldDefects seen (fields.map Field.toValue) := by
  rw [List.forall₂_map_left_iff] at h
  induction h generalizing seen with
  | nil => rfl
  | @cons field other fields others hfirst _ ih =>
      obtain ⟨entries, rfl, hsame⟩ := sameMembers_field hfirst
      have hkey := hsame.word "key" (by simp [Field.toValue, Value.IsWord])
      have htype := hsame.word "type" (by simp [Field.toValue, Value.IsWord])
      have hrequired := hsame.word "required" (by simp [Field.toValue, Value.IsWord])
      rw [List.map_cons, show field.toValue = .map (entriesOf field.toValue) from rfl, fieldDefects,
        fieldDefects, hkey, htype, hrequired]
      simp only [ih]

/-- Reading back changes nothing about the defects of fields. -/
theorem fieldListDefects_readsAs {subject : Subject} {name : String} {fields : List Field}
    {other : Value} (h : ReadsAs (fieldValues fields) other) :
    fieldListDefects subject name other = fieldListDefects subject name (fieldValues fields) := by
  obtain ⟨others, rfl, hall⟩ := readsAs_list h
  rw [fieldListDefects, fieldDefects_readsAs hall, fieldValues, fieldListDefects]

/-- Nor about those of a page. -/
theorem pageDefects_readsAs {page : Page} {other : Value} (h : ReadsAs page.toValue other) :
    pageDefects other = pageDefects page.toValue := by
  obtain ⟨entries, rfl, hsame⟩ := sameMembers_page h
  have hid := hsame.word "id" (by simp [Page.toValue, Value.IsWord])
  have hfile := hsame.word "file" (by simp [Page.toValue, Value.IsWord])
  have hroute := hsame.word "route" (by simp [Page.toValue, Value.IsWord])
  have hsource := hsame.word "sourceType" (by
    cases hcase : page.sourceType <;>
      simp [Page.toValue, Field.optionalMember, Value.IsWord, hcase])
  have hmember : memberOrNull "fields" (entriesOf page.toValue) = fieldValues page.fields := by
    simp [Page.toValue]
  have hfields := hsame.member "fields"
  rw [hmember] at hfields
  rw [show page.toValue = .map (entriesOf page.toValue) from rfl, pageDefects, pageDefects, hid,
    hfile, hroute, hsource, hmember, fieldListDefects_readsAs hfields]

theorem componentDefects_readsAs {key : Value} {component : Component} {other : Value}
    (h : ReadsAs component.toValue other) :
    componentDefects key other = componentDefects key component.toValue := by
  obtain ⟨entries, rfl, hsame⟩ := sameMembers_component h
  have hfile := hsame.word "file" (by simp [Component.toValue, Value.IsWord])
  have hmember : memberOrNull "exportedProps" (entriesOf component.toValue) =
      fieldValues component.props := by
    simp [Component.toValue]
  have hprops := hsame.member "exportedProps"
  rw [hmember] at hprops
  rw [show component.toValue = .map (entriesOf component.toValue) from rfl, componentDefects,
    componentDefects, hfile, hmember, fieldListDefects_readsAs hprops]

/-- Of a dataset's data nothing is asked but that it is there. -/
theorem datasetDefects_readsAs {dataset : Dataset} {other : Value}
    (h : ReadsAs dataset.toValue other) :
    datasetDefects other = datasetDefects dataset.toValue := by
  obtain ⟨entries, rfl, hsame⟩ := sameMembers_dataset h
  have hid := hsame.word "id" (by simp [Dataset.toValue, Value.IsWord])
  have hfile := hsame.word "file" (by simp [Dataset.toValue, Value.IsWord])
  have hformat := hsame.word "format" (by simp [Dataset.toValue, Value.IsWord])
  have hhash := hsame.word "hash" (by simp [Dataset.toValue, Value.IsWord])
  rw [show dataset.toValue = .map (entriesOf dataset.toValue) from rfl, datasetDefects,
    datasetDefects, hid, hfile, hformat, hhash, hsame.absent "data"]

/-! ### The check of the whole -/

/-- A list of parts is a list again, and its parts are checked one by one. -/
theorem listDefects_readsAs {α : Type} {make : α → Value} {check : Value → List Defect}
    (hcheck : ∀ {part : α} {other : Value}, ReadsAs (make part) other →
      check other = check (make part))
    {parts : List α} {other : Value} (h : ReadsAs (.list (parts.map make)) other) :
    isList other = true ∧ (itemsOf other).flatMap check = (parts.map make).flatMap check := by
  obtain ⟨others, rfl, hall⟩ := readsAs_list h
  refine ⟨rfl, ?_⟩
  rw [List.forall₂_map_left_iff] at hall
  rw [itemsOf]
  clear h
  induction hall with
  | nil => rfl
  | cons hfirst _ ih => rw [List.flatMap_cons, List.map_cons, List.flatMap_cons, hcheck hfirst, ih]

/-- The components are a mapping again, with the same keys. -/
theorem indexDefects_readsAs {components : List (String × Component)} {other : Value}
    (hkeys : (Dictionary.keys components).Nodup)
    (h : ReadsAs (.record (components.map fun entry => (entry.1, entry.2.toValue))) other) :
    isMap other = true ∧
      (entriesOf other).flatMap (fun entry => componentDefects entry.1 entry.2) =
        (entriesOf (.record (components.map fun entry => (entry.1, entry.2.toValue)))).flatMap
          fun entry => componentDefects entry.1 entry.2 := by
  have hnodup : (Dictionary.keys
      (components.map fun entry => (entry.1, entry.2.toValue))).Nodup := by
    rwa [Dictionary.keys, List.map_map]
  obtain ⟨others, rfl, hall⟩ := readsAs_record hnodup h
  refine ⟨rfl, ?_⟩
  rw [NameByName, List.forall₂_map_left_iff] at hall
  clear h hnodup hkeys
  simp only [Value.record, entriesOf, List.map_map, List.flatMap_map]
  induction hall with
  | nil => rfl
  | cons hfirst _ ih =>
      rw [List.flatMap_cons, List.flatMap_cons, ih]
      simp only [Function.comp, hfirst.1, componentDefects_readsAs hfirst.2]

/-- **A build has the same defects as what it is read as.** -/
theorem defects_readsAs {build : Build} {other : Value}
    (hkeys : (Dictionary.keys build.components).Nodup) (h : ReadsAs build.toValue other) :
    defects other = defects build.toValue := by
  obtain ⟨entries, rfl, hsame⟩ := sameMembers_build h
  have hversion := hsame.word "schemaVersion" (by simp [Build.toValue, Value.IsWord])
  have hprojectMember : memberOrNull "project" (entriesOf build.toValue) =
      build.project.toValue := by
    simp [Build.toValue]
  have hproject := hsame.member "project"
  rw [hprojectMember] at hproject
  obtain ⟨project, hprojectRead, hprojectSame⟩ := sameMembers_project hproject
  have hroot := hprojectSame.word "root" (by simp [Project.toValue, Value.IsWord])
  have hname := hprojectSame.word "name" (by simp [Project.toValue, Value.IsWord])
  have hdatasetsMember : memberOrNull "datasets" (entriesOf build.toValue) =
      .list (build.datasets.map Dataset.toValue) := by
    simp [Build.toValue]
  obtain ⟨hpages, hpage⟩ := listDefects_readsAs pageDefects_readsAs
    (build.member_pages ▸ hsame.member "pages")
  obtain ⟨hdatasets, hdataset⟩ := listDefects_readsAs datasetDefects_readsAs
    (hdatasetsMember ▸ hsame.member "datasets")
  obtain ⟨hindex, hcomponent⟩ := indexDefects_readsAs hkeys
    (build.member_componentsIndex ▸ hsame.member "componentsIndex")
  rw [show build.toValue = .map (entriesOf build.toValue) from rfl, defects, defects, hversion,
    hprojectRead, hprojectMember, build.member_pages, build.member_componentsIndex,
    hdatasetsMember]
  simp only [hpages, hdatasets, hindex, hpage, hdataset, hcomponent]
  rw [show entriesOf (.map project) = project from rfl, hroot, hname]
  rfl

/-- **A build and what its text is read as have the same reports.**  There is such a list of
reports for every build that has a text, sound or not. -/
theorem same_reports {build : Build} {text : String}
    (hkeys : (Dictionary.keys build.components).Nodup) (hrounded : build.Rounded)
    (hwrite : Json.write build.toValue = .ok text) :
    ∃ document reports, Json.read text.toList = .ok document ∧
      defectReports build.toValue = .ok reports ∧ defectReports document.toValue = .ok reports := by
  obtain ⟨document, hread, hreads⟩ := read_of_write hrounded.toValue hwrite
  obtain ⟨reports, hreports⟩ := exists_defectReports ⟨document, Json.short_of_read hread, rfl⟩
  refine ⟨document, reports, hread, ?_, hreports⟩
  rw [defectReports, ← defects_readsAs hkeys hreads]
  exact hreports

/-- A build with a page that has no identifier, a route with a control character, and two
fields under one key. -/
def unsoundBuild : Build where
  generatedAt := 0
  project := { root := "/", name := "site" }
  pages := [{
    id := ""
    file := "a.md"
    route := "\u0001\""
    components := []
    fields := [{ key := "k", type := "string", required := false, default := some (.list [.null]) },
      { key := "k", type := "", required := true }]
    sourceType := some "html" }]
  components := [("b", { id := "b", file := "", props := [] })]
  datasets := [{ id := "d", file := "d.yaml", data := .date ⟨2024, 1, 2⟩, hash := "" }]

/-- The sample holds no doubles at all. -/
theorem rounded_unsoundBuild : unsoundBuild.Rounded where
  pages := by simp [unsoundBuild]
  components := by simp [unsoundBuild]
  datasets := List.forall_mem_singleton.mpr (.scalar _ trivial)

/-- The reports of the sample are the same before and behind its file. -/
theorem same_reports_sample :
    ∃ text document, Json.write unsoundBuild.toValue = .ok text ∧
      Json.read text.toList = .ok document ∧
      defectReports unsoundBuild.toValue = defectReports document.toValue := by
  have hwritten : (Json.write unsoundBuild.toValue).toOption.isSome = true := by decide +kernel
  obtain ⟨text, hwrite⟩ := exists_eq_ok hwritten
  obtain ⟨document, reports, hread, hmade, hpersisted⟩ :=
    same_reports (by decide) rounded_unsoundBuild hwrite
  exact ⟨text, document, hwrite, hread, hmade.trans hpersisted.symm⟩

end ContentCatalog
