import ContentCatalog.Catalog.Defect
import ContentCatalog.Proofs.KeyNames
import ContentCatalog.Proofs.ReadDocuments

/-!
# Reports of defects

A report shows some of the values that it is about, and only a whole number with too many
digits cannot be shown.  What was read holds no such number, and every value in a report
of a record's defects is a part of that record.  So the check of a record that was read
always comes to its end.

* `Value.IsRead` : the values of documents that were read, closed under their parts;
* `Value.IsRead.shown` : such a value can be shown;
* `ofRead_defects` : what the reports of a record's defects show;
* `exists_defectReports` : a record that was read has a list of reports.
-/

namespace ContentCatalog

/-- The value is that of a document that was read. -/
def Value.IsRead (value : Value) : Prop :=
  ∃ j : Json, j.Short ∧ value = j.toValue

namespace Value

theorem isRead_null : IsRead .null :=
  ⟨.null, .null, rfl⟩

theorem isRead_text (s : String) : IsRead (.text s) :=
  ⟨.text s, .text s, rfl⟩

/-- The items of a list that was read. -/
theorem IsRead.item {items : List Value} (h : IsRead (.list items)) :
    ∀ item ∈ items, item.IsRead := by
  obtain ⟨j, hshort, heq⟩ := h
  cases hshort with
  | array parts hparts =>
      rw [Json.toValue, Json.toValues_eq_map, Value.list.injEq] at heq
      intro item hitem
      rw [heq] at hitem
      obtain ⟨part, hpart, rfl⟩ := List.mem_map.mp hitem
      exact ⟨part, hparts part hpart, rfl⟩
  | _ => cases heq

/-- The entries of a mapping that was read have texts for keys. -/
theorem IsRead.entry {entries : List (Value × Value)} (h : IsRead (.map entries)) :
    ∀ entry ∈ entries, (∃ name, entry.1 = .text name) ∧ entry.2.IsRead := by
  obtain ⟨j, hshort, heq⟩ := h
  cases hshort with
  | object members hparts =>
      rw [Json.toValue, Json.toEntries_eq_map, Value.map.injEq] at heq
      intro entry hentry
      rw [heq] at hentry
      obtain ⟨member, hmember, rfl⟩ := List.mem_map.mp hentry
      exact ⟨⟨member.1, rfl⟩, member.2, hparts member hmember, rfl⟩
  | _ => cases heq

/-- A member that is found is an entry. -/
theorem mem_of_member? {name : String} {entries : List (Value × Value)} {value : Value}
    (h : member? name entries = some value) : (.text name, value) ∈ entries := by
  fun_induction member? name entries with
  | case1 => cases h
  | case2 v rest =>
      rw [Option.some.inj h]
      exact List.mem_cons_self
  | case3 k v rest hne ih => exact List.mem_cons_of_mem _ (ih h)
  | case4 entry rest hkey ih => exact List.mem_cons_of_mem _ (ih h)

/-- The member of a mapping that was read, or null in place of it. -/
theorem IsRead.member {entries : List (Value × Value)} (h : IsRead (.map entries))
    (name : String) : (memberOrNull name entries).IsRead := by
  rw [memberOrNull]
  cases hmember : member? name entries with
  | none => exact isRead_null
  | some value => exact (h.entry _ (mem_of_member? hmember)).2

/-- A value that was read can be shown in place of an unknown one. -/
theorem IsRead.orUnknown {value : Value} (h : value.IsRead) : (orUnknown value).IsRead := by
  rw [ContentCatalog.orUnknown]
  split
  · exact h
  · exact isRead_text "?"

/-- **What was read can be shown.** -/
theorem IsRead.shown {value : Value} (h : value.IsRead) :
    ∃ text, ContentCatalog.shown value = .ok text := by
  obtain ⟨j, hshort, rfl⟩ := h
  cases hshort with
  | int i hdigits => exact (IsKey.int i hdigits).form_ok []
  | _ => exact ⟨_, rfl⟩

end Value

/-! ### The values in a report -/

/-- The value that a label shows. -/
def Subject.value : Subject → Value
  | .page id => id
  | .component key => key
  | .dataset id => id

/-- The values that the report of a field's defect shows. -/
def FieldDefect.values : FieldDefect → List Value
  | .notObject found => [found]
  | .keyMissing => []
  | .keyNotText key | .keyRepeated key | .typeMissing key | .requiredNotBoolean key => [key]

/-- The values that the report of a defect shows. -/
def Defect.values : Defect → List Value
  | .schemaVersion found | .pageNotObject found | .datasetNotObject found => [found]
  | .subjectNotObject subject | .memberMissing subject _ | .memberNotArray subject _ =>
    [subject.value]
  | .sourceType subject found | .fileOtherThanKey subject found | .format subject found =>
    [subject.value, found]
  | .field subject defect => subject.value :: defect.values
  | _ => []

/-- A subject that can be shown has a label. -/
theorem Subject.exists_label {subject : Subject} (h : ∃ text, shown subject.value = .ok text) :
    ∃ text, subject.label = .ok text := by
  obtain ⟨text, htext⟩ := h
  cases subject <;>
    · rw [value] at htext
      exact ⟨_, by rw [label, htext]; rfl⟩

/-- A defect of a field whose values can be shown has a message. -/
theorem FieldDefect.exists_message {defect : FieldDefect}
    (h : ∀ value ∈ defect.values, ∃ text, shown value = .ok text) :
    ∃ report, defect.message = .ok report := by
  cases defect with
  | keyMissing => exact ⟨_, rfl⟩
  | _ value =>
      obtain ⟨text, htext⟩ := h value (List.mem_singleton_self _)
      exact ⟨_, by rw [message, htext]; rfl⟩

/-- **A defect is reported** if the values in its report can be shown. -/
theorem Defect.exists_message {defect : Defect}
    (h : ∀ value ∈ defect.values, ∃ text, shown value = .ok text) :
    ∃ report, defect.message = .ok report := by
  cases defect with
  | schemaVersion found | pageNotObject found | datasetNotObject found =>
      obtain ⟨text, htext⟩ := h found (List.mem_singleton_self _)
      exact ⟨_, by rw [message, htext]; rfl⟩
  | subjectNotObject subject | memberMissing subject name | memberNotArray subject name =>
      obtain ⟨label, hlabel⟩ := Subject.exists_label (h _ (List.mem_singleton_self _))
      exact ⟨_, by rw [message, hlabel]; rfl⟩
  | sourceType subject found | fileOtherThanKey subject found | format subject found =>
      obtain ⟨label, hlabel⟩ := Subject.exists_label (h _ List.mem_cons_self)
      obtain ⟨text, htext⟩ := h found (List.mem_cons_of_mem _ (List.mem_singleton_self _))
      exact ⟨_, by rw [message, hlabel, bind_ok, htext]; rfl⟩
  | field subject defect =>
      obtain ⟨label, hlabel⟩ := Subject.exists_label (h _ List.mem_cons_self)
      obtain ⟨report, hreport⟩ := FieldDefect.exists_message fun value hvalue =>
        h value (List.mem_cons_of_mem _ hvalue)
      exact ⟨_, by rw [message, hlabel, bind_ok, hreport]; rfl⟩
  | _ => exact ⟨_, rfl⟩

/-! ### The defects of records that were read -/

/-- The reports of the defects show nothing but values that were read. -/
def OfRead (found : List Defect) : Prop :=
  ∀ defect ∈ found, ∀ value ∈ defect.values, value.IsRead

/-- Defects of two lists show what was read if those of both do. -/
theorem ofRead_append {found others : List Defect} :
    OfRead (found ++ others) ↔ OfRead found ∧ OfRead others :=
  List.forall_mem_append

/-- So does one that shows what was read. -/
theorem ofRead_single {defect : Defect} (h : ∀ value ∈ defect.values, value.IsRead) :
    OfRead [defect] :=
  List.forall_mem_singleton.mpr h

/-- And one that is reported on a condition. -/
theorem ofRead_defectIf {condition : Bool} {defect : Defect}
    (h : ∀ value ∈ defect.values, value.IsRead) : OfRead (defectIf condition defect) := by
  rw [defectIf]
  split
  · exact ofRead_single h
  · exact List.forall_mem_nil _

/-- Checks of many items do so if each check does. -/
theorem ofRead_flatMap {α : Type} {items : List α} {check : α → List Defect}
    (h : ∀ item ∈ items, OfRead (check item)) : OfRead (items.flatMap check) := by
  intro defect hdefect
  obtain ⟨item, hitem, hmem⟩ := List.mem_flatMap.mp hdefect
  exact h item hitem defect hmem

/-- The defects of a key show the key. -/
theorem isRead_of_mem_keyDefects {seen : List String} {key : Value} (h : key.IsRead) :
    ∀ defect ∈ (keyDefects seen key).1, ∀ value ∈ defect.values, value.IsRead := by
  intro defect hdefect value hvalue
  have hkey : value ∈ [key] := by
    unfold keyDefects at hdefect
    split at hdefect
    · rw [List.mem_singleton.mp hdefect] at hvalue
      cases hvalue
    · split at hdefect
      · split at hdefect
        · rwa [List.mem_singleton.mp hdefect] at hvalue
        · cases hdefect
      · rwa [List.mem_singleton.mp hdefect] at hvalue
  rw [List.mem_singleton.mp hkey]
  exact h

/-- What the reports of fields show, whatever keys were seen before. -/
theorem isRead_of_mem_fieldDefects {seen : List String} {items : List Value}
    (h : ∀ item ∈ items, item.IsRead) :
    ∀ defect ∈ fieldDefects seen items, ∀ value ∈ defect.values, value.IsRead := by
  have hif : ∀ {condition : Bool} {defect other : FieldDefect} {key : Value}, key.IsRead →
      other.values = [key] → defect ∈ defectIf condition other →
      ∀ value ∈ defect.values, value.IsRead := by
    intro condition defect other key hkey hvalues hdefect value hvalue
    unfold defectIf at hdefect
    split at hdefect
    · rw [List.mem_singleton.mp hdefect, hvalues] at hvalue
      rwa [List.mem_singleton.mp hvalue]
    · cases hdefect
  induction items generalizing seen with
  | nil =>
      rw [fieldDefects]
      exact List.forall_mem_nil _
  | cons item items ih =>
      obtain ⟨hitem, hitems⟩ := List.forall_mem_cons.mp h
      cases item with
      | map entries =>
          rw [fieldDefects]
          simp only [List.forall_mem_append]
          have hkey := hitem.member "key"
          exact ⟨⟨⟨isRead_of_mem_keyDefects hkey, fun _ => hif hkey.orUnknown rfl⟩,
            fun _ => hif hkey.orUnknown rfl⟩, ih hitems⟩
      | _ =>
          rw [fieldDefects]
          · refine List.forall_mem_cons.mpr ⟨?_, ih hitems⟩
            intro value hvalue
            rwa [List.mem_singleton.mp hvalue]
          · intro entries heq
            cases heq

/-- Those of fields show what was read of the fields. -/
theorem ofRead_fieldListDefects {subject : Subject} {name : String} {fields : Value}
    (hsubject : subject.value.IsRead) (h : fields.IsRead) :
    OfRead (fieldListDefects subject name fields) := by
  cases fields with
  | list items =>
      intro defect hdefect
      obtain ⟨fieldDefect, hmem, rfl⟩ := List.mem_map.mp hdefect
      exact List.forall_mem_cons.mpr ⟨hsubject, isRead_of_mem_fieldDefects h.item fieldDefect hmem⟩
  | _ => exact ofRead_single (List.forall_mem_singleton.mpr hsubject)

/-- Those of a source type show the type. -/
theorem ofRead_sourceTypeDefects {subject : Subject} {sourceType : Value}
    (hsubject : subject.value.IsRead) (h : sourceType.IsRead) :
    OfRead (sourceTypeDefects subject sourceType) := by
  have hboth : ∀ value ∈ [subject.value, sourceType], value.IsRead :=
    List.forall_mem_cons.mpr ⟨hsubject, List.forall_mem_singleton.mpr h⟩
  cases sourceType with
  | null => exact List.forall_mem_nil _
  | text s => exact ofRead_defectIf hboth
  | _ => exact ofRead_single hboth

/-- Those of a page show what was read of it. -/
theorem ofRead_pageDefects {page : Value} (h : page.IsRead) : OfRead (pageDefects page) := by
  cases page with
  | map entries =>
      have hid := (h.member "id").orUnknown
      rw [pageDefects]
      simp only [ofRead_append]
      exact ⟨⟨⟨⟨ofRead_defectIf (List.forall_mem_nil _),
        ofRead_defectIf (List.forall_mem_singleton.mpr hid)⟩,
        ofRead_defectIf (List.forall_mem_singleton.mpr hid)⟩,
        ofRead_sourceTypeDefects hid (h.member _)⟩, ofRead_fieldListDefects hid (h.member _)⟩
  | _ => exact ofRead_single (List.forall_mem_singleton.mpr h)

theorem ofRead_componentDefects {key component : Value} (hkey : key.IsRead)
    (h : component.IsRead) : OfRead (componentDefects key component) := by
  cases component with
  | map entries =>
      rw [componentDefects]
      simp only [ofRead_append]
      refine ⟨?_, ofRead_fieldListDefects hkey (h.member _)⟩
      split
      · exact ofRead_single (List.forall_mem_singleton.mpr hkey)
      · exact ofRead_defectIf
          (List.forall_mem_cons.mpr ⟨hkey, List.forall_mem_singleton.mpr (h.member _)⟩)
  | _ => exact ofRead_single (List.forall_mem_singleton.mpr hkey)

theorem ofRead_datasetDefects {dataset : Value} (h : dataset.IsRead) :
    OfRead (datasetDefects dataset) := by
  cases dataset with
  | map entries =>
      have hid := (h.member "id").orUnknown
      have hmissing : ∀ {condition : Bool} {name : String},
          OfRead (defectIf condition
            (.memberMissing (.dataset (orUnknown (memberOrNull "id" entries))) name)) :=
        ofRead_defectIf (List.forall_mem_singleton.mpr hid)
      rw [datasetDefects]
      simp only [ofRead_append]
      exact ⟨⟨⟨⟨ofRead_defectIf (List.forall_mem_nil _), hmissing⟩, hmissing⟩,
        ofRead_defectIf (List.forall_mem_cons.mpr
          ⟨hid, List.forall_mem_singleton.mpr (h.member _)⟩)⟩, hmissing⟩
  | _ => exact ofRead_single (List.forall_mem_singleton.mpr h)

/-- **What the reports of a record's defects show** is a part of the record, or a question
mark in place of it. -/
theorem ofRead_defects {record : Value} (h : record.IsRead) : OfRead (defects record) := by
  cases record with
  | map entries =>
      have hnone : ∀ {condition : Bool} {defect : Defect}, defect.values = [] →
          OfRead (defectIf condition defect) := by
        intro condition defect hvalues
        refine ofRead_defectIf ?_
        rw [hvalues]
        exact List.forall_mem_nil _
      have hitems : ∀ name, ∀ item ∈ itemsOf (memberOrNull name entries), item.IsRead := by
        intro name
        have hmember := h.member name
        cases hcase : memberOrNull name entries with
        | list items =>
            rw [hcase] at hmember
            exact hmember.item
        | _ => exact List.forall_mem_nil _
      have hcomponents : ∀ entry ∈ entriesOf (memberOrNull "componentsIndex" entries),
          entry.1.IsRead ∧ entry.2.IsRead := by
        have hmember := h.member "componentsIndex"
        cases hcase : memberOrNull "componentsIndex" entries with
        | map components =>
            rw [hcase] at hmember
            intro entry hentry
            obtain ⟨⟨name, hname⟩, hvalue⟩ := hmember.entry entry hentry
            exact ⟨hname ▸ Value.isRead_text name, hvalue⟩
        | _ => exact List.forall_mem_nil _
      rw [defects]
      simp only [ofRead_append]
      exact ⟨⟨⟨⟨⟨⟨⟨⟨ofRead_defectIf (List.forall_mem_singleton.mpr (h.member _)), hnone rfl⟩,
        hnone rfl⟩, hnone rfl⟩, hnone rfl⟩, hnone rfl⟩,
        ofRead_flatMap fun page hpage => ofRead_pageDefects (hitems _ page hpage)⟩,
        ofRead_flatMap fun entry hentry =>
          ofRead_componentDefects (hcomponents entry hentry).1 (hcomponents entry hentry).2⟩,
        ofRead_flatMap fun dataset hdataset => ofRead_datasetDefects (hitems _ dataset hdataset)⟩
  | _ => exact ofRead_single (List.forall_mem_nil _)

/-- **The check of a record that was read comes to its end.** -/
theorem exists_defectReports {record : Value} (h : record.IsRead) :
    ∃ reports, defectReports record = .ok reports := by
  refine exists_mapM fun defect hdefect => Defect.exists_message fun value hvalue => ?_
  exact (ofRead_defects h defect hdefect value hvalue).shown

end ContentCatalog
