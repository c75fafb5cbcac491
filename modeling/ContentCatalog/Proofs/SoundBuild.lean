import ContentCatalog.Catalog.Defect

/-!
# Sound builds

The rules for the structure of a build are checked on its record.  Here they are
said of the build itself, and the check is shown to be exact: the record of a
build has no defect if and only if the build is sound.

* `fieldDefects_eq_nil_iff` : the rules for a list of fields, the keys seen before
  taken into account;
* `defects_toValue_eq_nil_iff` : the rules for a whole build.
-/

namespace ContentCatalog

/-- Every field has a key and a type, and no key comes twice. -/
def SoundFields (fields : List Field) : Prop :=
  (∀ field ∈ fields, field.key ≠ "" ∧ field.type ≠ "") ∧ (fields.map Field.key).Nodup

/-- What is asked of a page. -/
structure Page.Sound (page : Page) : Prop where
  id : page.id ≠ ""
  file : page.file ≠ ""
  route : page.route ≠ ""
  sourceType : ∀ source, page.sourceType = some source →
    source = FieldSource.component.name ∨ source = FieldSource.markdown.name
  fields : SoundFields page.fields

/-- What is asked of a component under its key. -/
structure Component.Sound (key : String) (component : Component) : Prop where
  file : component.file ≠ ""
  own : component.file = key
  props : SoundFields component.props

/-- What is asked of a dataset. -/
structure Dataset.Sound (dataset : Dataset) : Prop where
  id : dataset.id ≠ ""
  file : dataset.file ≠ ""
  format : dataset.format = datasetFormat
  hash : dataset.hash ≠ ""

/-- What is asked of a build. -/
structure Build.Sound (build : Build) : Prop where
  version : build.version = schemaVersion
  root : build.project.root ≠ ""
  name : build.project.name ≠ ""
  pages : ∀ page ∈ build.pages, page.Sound
  components : ∀ entry ∈ build.components, entry.2.Sound entry.1
  datasets : ∀ dataset ∈ build.datasets, dataset.Sound

/-- Nothing is reported exactly where the condition fails. -/
@[simp] theorem defectIf_eq_nil_iff {α : Type} {condition : Bool} {defect : α} :
    defectIf condition defect = [] ↔ condition = false := by
  cases condition <;> simp [defectIf]

@[simp] theorem truthy_text (s : String) : (Value.text s).truthy = (s != "") := rfl

/-- A member of a record is the first one of its name. -/
@[simp] theorem memberOrNull_record_cons (name key : String) (value : Value)
    (members : List (String × Value)) :
    memberOrNull name (entriesOf (.record ((key, value) :: members))) =
      if key = name then value else memberOrNull name (entriesOf (.record members)) := by
  by_cases h : key = name <;> simp [Value.record, entriesOf, memberOrNull, Value.member?, h]

/-- A record without members has none of any name. -/
@[simp] theorem memberOrNull_record_nil (name : String) :
    memberOrNull name (entriesOf (.record [])) = .null := rfl

/-- The record of a page has its identifier. -/
theorem Page.member_id (page : Page) :
    memberOrNull "id" (entriesOf page.toValue) = .text page.id := by
  simp [Page.toValue]

theorem Build.member_pages (build : Build) :
    memberOrNull "pages" (entriesOf build.toValue) = .list (build.pages.map Page.toValue) := by
  simp [Build.toValue]

/-- And those of its components under their keys. -/
theorem Build.member_componentsIndex (build : Build) :
    memberOrNull "componentsIndex" (entriesOf build.toValue) =
      .record (build.components.map fun entry => (entry.1, entry.2.toValue)) := by
  simp [Build.toValue]

/-! ### Fields -/

/-- Whether a field's key is a defect depends on the keys before only. -/
theorem keyDefects_text (seen : List String) (key : String) :
    ((keyDefects seen (.text key)).1 = [] ↔ key ≠ "" ∧ key ∉ seen) ∧
      (key ≠ "" → key ∉ seen → (keyDefects seen (.text key)).2 = key :: seen) := by
  by_cases hk : key = ""
  · simp [keyDefects, hk]
  · by_cases hs : key ∈ seen <;> simp [keyDefects, hk, hs]

/-- The defects of the first field, and those of the others with its key seen. -/
theorem fieldDefects_cons (seen : List String) (field : Field) (rest : List Value) :
    fieldDefects seen (field.toValue :: rest) =
      (keyDefects seen (.text field.key)).1
        ++ defectIf (field.type == "") (.typeMissing (orUnknown (.text field.key)))
        ++ fieldDefects (keyDefects seen (.text field.key)).2 rest := by
  have hk : memberOrNull "key" (entriesOf field.toValue) = .text field.key := by
    simp [Field.toValue]
  have ht : memberOrNull "type" (entriesOf field.toValue) = .text field.type := by
    simp [Field.toValue]
  have hr : memberOrNull "required" (entriesOf field.toValue) = .bool field.required := by
    simp [Field.toValue]
  rw [show field.toValue = .map (entriesOf field.toValue) from rfl, fieldDefects, hk, ht, hr]
  simp [isBoolean, defectIf, bne]

/-- A list of fields has no defect exactly if it is sound and repeats no key seen
before. -/
theorem fieldDefects_eq_nil_iff {seen : List String} {fields : List Field} :
    fieldDefects seen (fields.map Field.toValue) = [] ↔
      SoundFields fields ∧ ∀ field ∈ fields, field.key ∉ seen := by
  induction fields generalizing seen with
  | nil => simp [fieldDefects, SoundFields]
  | cons field fields ih =>
      obtain ⟨hnil, hseen⟩ := keyDefects_text seen field.key
      rw [List.map_cons, fieldDefects_cons]
      simp only [List.append_eq_nil_iff, hnil, defectIf_eq_nil_iff, beq_eq_false_iff_ne]
      constructor
      · intro hand
        obtain ⟨⟨⟨hk, hs⟩, ht⟩, hrest⟩ := hand
        rw [hseen hk hs, ih] at hrest
        obtain ⟨⟨hall, hnd⟩, hnot⟩ := hrest
        refine ⟨⟨List.forall_mem_cons.mpr ⟨⟨hk, ht⟩, hall⟩, ?_⟩,
          List.forall_mem_cons.mpr ⟨hs, fun f hf hm => hnot f hf (List.mem_cons_of_mem _ hm)⟩⟩
        rw [List.map_cons, List.nodup_cons]
        refine ⟨?_, hnd⟩
        intro hm
        obtain ⟨f, hf, heq⟩ := List.mem_map.mp hm
        exact hnot f hf (heq ▸ List.mem_cons_self)
      · intro hand
        obtain ⟨⟨hall, hnd⟩, hnot⟩ := hand
        obtain ⟨⟨hk, ht⟩, hall⟩ := List.forall_mem_cons.mp hall
        obtain ⟨hs, hnot⟩ := List.forall_mem_cons.mp hnot
        rw [List.map_cons, List.nodup_cons] at hnd
        refine ⟨⟨⟨hk, hs⟩, ht⟩, ?_⟩
        rw [hseen hk hs, ih]
        refine ⟨⟨hall, hnd.2⟩, ?_⟩
        intro f hf hm
        rcases List.mem_cons.mp hm with heq | hm
        · exact hnd.1 (heq ▸ List.mem_map_of_mem hf)
        · exact hnot f hf hm

/-- A list of fields has no defect if they are sound. -/
theorem fieldListDefects_eq_nil_iff {subject : Subject} {name : String} {fields : List Field} :
    fieldListDefects subject name (fieldValues fields) = [] ↔ SoundFields fields := by
  simp [fieldListDefects, fieldValues, fieldDefects_eq_nil_iff]

/-! ### Pages, components and datasets -/

/-- A source type has none if it is left out or one of the two names. -/
theorem sourceTypeDefects_eq_nil_iff {subject : Subject} {sourceType : Option String} :
    sourceTypeDefects subject ((sourceType.map Value.text).getD .null) = [] ↔
      ∀ source, sourceType = some source →
        source = FieldSource.component.name ∨ source = FieldSource.markdown.name := by
  cases sourceType with
  | none => simp [sourceTypeDefects]
  | some source =>
      by_cases hc : source = FieldSource.component.name <;>
        simp [sourceTypeDefects, hc]

/-- A page's record is checked by the rules for pages. -/
theorem pageDefects_eq_nil_iff {page : Page} : pageDefects page.toValue = [] ↔ page.Sound := by
  have hf : memberOrNull "file" (entriesOf page.toValue) = .text page.file := by
    simp [Page.toValue]
  have hr : memberOrNull "route" (entriesOf page.toValue) = .text page.route := by
    simp [Page.toValue]
  have hs : memberOrNull "sourceType" (entriesOf page.toValue) =
      (page.sourceType.map Value.text).getD .null := by
    cases hst : page.sourceType <;>
      simp [Page.toValue, hst,
        Field.optionalMember]
  have hl : memberOrNull "fields" (entriesOf page.toValue) = fieldValues page.fields := by
    simp [Page.toValue]
  rw [show page.toValue = .map (entriesOf page.toValue) from rfl, pageDefects, page.member_id, hf,
    hr, hs, hl]
  simp only [List.append_eq_nil_iff, defectIf_eq_nil_iff, truthy_text, Bool.not_eq_false',
    bne_iff_ne, sourceTypeDefects_eq_nil_iff, fieldListDefects_eq_nil_iff]
  constructor
  · intro hand
    obtain ⟨⟨⟨⟨hid, hfile⟩, hroute⟩, hsource⟩, hfields⟩ := hand
    exact ⟨hid, hfile, hroute, hsource, hfields⟩
  · intro hand
    obtain ⟨hid, hfile, hroute, hsource, hfields⟩ := hand
    exact ⟨⟨⟨⟨hid, hfile⟩, hroute⟩, hsource⟩, hfields⟩

/-- A component's record is checked under its key. -/
theorem componentDefects_eq_nil_iff {key : String} {component : Component} :
    componentDefects (.text key) component.toValue = [] ↔ component.Sound key := by
  have hf : memberOrNull "file" (entriesOf component.toValue) = .text component.file := by
    simp [Component.toValue]
  have hp : memberOrNull "exportedProps" (entriesOf component.toValue) =
      fieldValues component.props := by
    simp [Component.toValue]
  rw [show component.toValue = .map (entriesOf component.toValue) from rfl, componentDefects,
    hf, hp]
  by_cases he : component.file = ""
  · simp only [truthy_text, he, List.append_eq_nil_iff]
    constructor
    · intro hand
      obtain ⟨h, -⟩ := hand
      simp at h
    · intro h
      exact absurd he h.file
  · simp only [truthy_text, bne_iff_ne.mpr he, Bool.not_true, Bool.false_eq_true, if_false,
      List.append_eq_nil_iff, defectIf_eq_nil_iff, isOwnKey, Bool.not_eq_false', beq_iff_eq,
      fieldListDefects_eq_nil_iff]
    constructor
    · intro hand
      obtain ⟨hown, hprops⟩ := hand
      exact ⟨he, hown.symm, hprops⟩
    · intro hand
      obtain ⟨-, hown, hprops⟩ := hand
      exact ⟨hown.symm, hprops⟩

/-- A dataset's record is checked by the rules for datasets. -/
theorem datasetDefects_eq_nil_iff {dataset : Dataset} :
    datasetDefects dataset.toValue = [] ↔ dataset.Sound := by
  have hi : memberOrNull "id" (entriesOf dataset.toValue) = .text dataset.id := by
    simp [Dataset.toValue]
  have hf : memberOrNull "file" (entriesOf dataset.toValue) = .text dataset.file := by
    simp [Dataset.toValue]
  have hd : Value.member? "data" (entriesOf dataset.toValue) = some dataset.data := by
    simp [Dataset.toValue, Value.record, entriesOf, Value.member?]
  have ht : memberOrNull "format" (entriesOf dataset.toValue) = .text dataset.format := by
    simp [Dataset.toValue]
  have hh : memberOrNull "hash" (entriesOf dataset.toValue) = .text dataset.hash := by
    simp [Dataset.toValue]
  rw [show dataset.toValue = .map (entriesOf dataset.toValue) from rfl, datasetDefects, hi, hf,
    hd, ht, hh]
  simp only [List.append_eq_nil_iff, defectIf_eq_nil_iff, truthy_text, Bool.not_eq_false',
    bne_iff_ne, Option.isNone_some, isText, beq_iff_eq, isFilledText, and_true]
  constructor
  · intro hand
    obtain ⟨⟨⟨hid, hfile⟩, hformat⟩, hhash⟩ := hand
    exact ⟨hid, hfile, hformat, hhash⟩
  · intro hand
    obtain ⟨hid, hfile, hformat, hhash⟩ := hand
    exact ⟨⟨⟨hid, hfile⟩, hformat⟩, hhash⟩

/-! ### Builds -/

/-- **The check of a build is exact.**  The record of a build has no defect if and
only if the build is sound. -/
theorem defects_toValue_eq_nil_iff {build : Build} :
    defects build.toValue = [] ↔ build.Sound := by
  have hv : memberOrNull "schemaVersion" (entriesOf build.toValue) = .int build.version := by
    simp [Build.toValue]
  have hj : memberOrNull "project" (entriesOf build.toValue) = build.project.toValue := by
    simp [Build.toValue]
  have hr : memberOrNull "root" (entriesOf build.project.toValue) = .text build.project.root := by
    simp [Project.toValue]
  have hn : memberOrNull "name" (entriesOf build.project.toValue) = .text build.project.name := by
    simp [Project.toValue]
  have hc : memberOrNull "componentsIndex" (entriesOf build.toValue) =
      .record (build.components.map fun entry => (entry.1, entry.2.toValue)) := by
    simp [Build.toValue]
  have hd : memberOrNull "datasets" (entriesOf build.toValue) =
      .list (build.datasets.map Dataset.toValue) := by
    simp [Build.toValue]
  rw [show build.toValue = .map (entriesOf build.toValue) from rfl, defects, hv, hj, hr, hn,
    build.member_pages, hc, hd]
  simp only [List.append_eq_nil_iff, defectIf_eq_nil_iff, truthy_text, Bool.not_eq_false',
    bne_iff_ne, isSchemaVersion, beq_iff_eq, isList, isMap, Value.record, itemsOf, entriesOf,
    List.flatMap_eq_nil_iff, List.forall_mem_map, pageDefects_eq_nil_iff,
    componentDefects_eq_nil_iff, datasetDefects_eq_nil_iff, and_true]
  constructor
  · intro hand
    obtain ⟨⟨⟨⟨⟨hversion, hroot⟩, hname⟩, hpages⟩, hcomponents⟩, hdatasets⟩ := hand
    exact ⟨hversion, hroot, hname, hpages, hcomponents, hdatasets⟩
  · intro hand
    obtain ⟨hversion, hroot, hname, hpages, hcomponents, hdatasets⟩ := hand
    exact ⟨⟨⟨⟨⟨hversion, hroot⟩, hname⟩, hpages⟩, hcomponents⟩, hdatasets⟩

end ContentCatalog
