import ContentCatalog.Output
import ContentCatalog.Proofs.PathSegments
import ContentCatalog.Proofs.ReportedDefects
import ContentCatalog.Proofs.Rounding
import ContentCatalog.Proofs.SoundBuild

/-!
# Records of builds

What is asked of a record that was read for it to be a build's, said member by member.
Any value may stand at any place of such a record, so each condition names the kind of
value that it asks for.  The check of a record reports nothing exactly if all of the
conditions hold.

* `Value.number?`, `Double.eqInt_iff` : the number that a value is, whatever its kind;
* `IsFieldList`, `IsPage`, `IsComponent`, `IsDataset`, `IsBuild` : the conditions;
* `fieldDefects_nil_iff` : lists of fields, the keys seen before taken into account;
* `defects_nil_iff` : whole records;
* `readBuild_checked` : builds that are read from a disk.
-/

namespace ContentCatalog

/-! ### Numbers -/

/-- The rational number that a finite double is. -/
def Double.toRat? : Double → Option ℚ
  | .finite negative significand exponent =>
    some ((if negative then -1 else 1) * significand * 2 ^ exponent)
  | _ => none

/-- The exact comparison with a whole number. -/
theorem Double.eqInt_iff {x : Double} {i : Int} : x.eqInt i = true ↔ x.toRat? = some (i : ℚ) := by
  cases x with
  | notNumber => simp [eqInt, toRat?]
  | infinite negative => simp [eqInt, toRat?]
  | finite negative significand exponent =>
      have hpower : (2 : ℚ) ^ exponent ≠ 0 := (two_zpow_pos exponent).ne'
      have hscaled : ((scaled significand 1 (-exponent)).1 : ℚ) =
          significand * 2 ^ exponent * (scaled significand 1 (-exponent)).2 := by
        rw [scaled]
        split
        · next hle =>
            have hexponent : ((-exponent).toNat : Int) = -exponent := Int.toNat_of_nonneg hle
            rw [one_mul, twoTo_eq, hexponent, zpow_neg, mul_assoc, mul_inv_cancel₀ hpower, mul_one]
        · next hlt =>
            have hexponent : ((- -exponent).toNat : Int) = exponent := by omega
            rw [Nat.cast_mul, twoTo_eq, hexponent, Nat.cast_one, mul_one]
      have hpositive : ((scaled significand 1 (-exponent)).2 : ℚ) ≠ 0 := by
        rw [scaled]
        split <;> simp [(twoTo_pos _).ne']
      simp only [eqInt, toRat?, beq_iff_eq, Option.some.injEq]
      rw [← Int.cast_inj (α := ℚ)]
      cases negative with
      | false => simp [hscaled, hpositive]
      | true => simp [hscaled, ← neg_mul, mul_left_inj' hpositive, neg_one_mul]

/-- The number that a value is; truth values are none. -/
def Value.number? : Value → Option ℚ
  | .int i => some i
  | .float x => x.toRat?
  | _ => none

/-- The schema version is the number two, in whatever form. -/
theorem isSchemaVersion_iff {value : Value} :
    isSchemaVersion value = true ↔ value.number? = some 2 := by
  cases value with
  | int i =>
      rw [isSchemaVersion, beq_iff_eq, Value.number?, schemaVersion, Option.some.injEq]
      exact_mod_cast Iff.rfl
  | float x => exact Double.eqInt_iff
  | _ => simp [isSchemaVersion, Value.number?]

/-! ### The conditions -/

/-- The entries of a mapping. -/
abbrev Members := List (Value × Value)

/-- There is a member of this name, and it is not null, false, zero or empty. -/
def Present (name : String) (members : Members) : Prop :=
  ∃ value, Value.member? name members = some value ∧ value.truthy = true

/-- What is asked of a field under a key. -/
structure IsField (name : String) (members : Members) : Prop where
  key : Value.member? "key" members = some (.text name)
  filled : name ≠ ""
  type : Present "type" members
  required : ∃ b, Value.member? "required" members = some (.bool b)

/-- The value is a list of fields with different keys. -/
def IsFieldList (value : Value) : Prop :=
  ∃ fields : List (String × Members), value = .list (fields.map fun field => .map field.2) ∧
    (∀ field ∈ fields, IsField field.1 field.2) ∧ (fields.map Prod.fst).Nodup

/-- What is asked of a page. -/
structure IsPage (members : Members) : Prop where
  id : Present "id" members
  file : Present "file" members
  route : Present "route" members
  sourceType : Value.member? "sourceType" members ∈
    [none, some .null, some (.text "astro"), some (.text "markdown")]
  fields : ∃ value, Value.member? "fields" members = some value ∧ IsFieldList value

/-- What is asked of a component under its key. -/
structure IsComponent (name : String) (members : Members) : Prop where
  file : Value.member? "file" members = some (.text name)
  filled : name ≠ ""
  props : ∃ value, Value.member? "exportedProps" members = some value ∧ IsFieldList value

/-- What is asked of a dataset: its data may be null. -/
structure IsDataset (members : Members) : Prop where
  id : Present "id" members
  file : Present "file" members
  data : ∃ value, Value.member? "data" members = some value
  format : Value.member? "format" members = some (.text "yaml")
  hash : ∃ digest, Value.member? "hash" members = some (.text digest) ∧ digest ≠ ""

/-- What is asked of a build. -/
structure IsBuild (members : Members) : Prop where
  version : ∃ value, Value.member? "schemaVersion" members = some value ∧ value.number? = some 2
  project : ∃ project, Value.member? "project" members = some (.map project) ∧
    Present "root" project ∧ Present "name" project
  pages : ∃ pages : List Members,
    Value.member? "pages" members = some (.list (pages.map Value.map)) ∧
      ∀ page ∈ pages, IsPage page
  components : ∃ components : List (String × Members),
    Value.member? "componentsIndex" members =
        some (.map (components.map fun component => (.text component.1, .map component.2))) ∧
      ∀ component ∈ components, IsComponent component.1 component.2
  datasets : ∃ datasets : List Members,
    Value.member? "datasets" members = some (.list (datasets.map Value.map)) ∧
      ∀ dataset ∈ datasets, IsDataset dataset

/-! ### Members -/

section Members

variable {name : String} {members : Members}

/-- A member that counts as true is present. -/
theorem truthy_memberOrNull_iff : (memberOrNull name members).truthy = true ↔
    Present name members := by
  rw [Present, memberOrNull]
  cases Value.member? name members <;> simp [Value.truthy]

/-- A member of a kind that null is not of. -/
theorem memberOrNull_eq_iff {value : Value} (h : value ≠ .null) :
    memberOrNull name members = value ↔ Value.member? name members = some value := by
  rw [memberOrNull]
  cases Value.member? name members with
  | none => simpa using h.symm
  | some other => simp

/-- A member with a property that null does not have. -/
theorem memberOrNull_iff {p : Value → Prop} (h : ¬ p .null) :
    p (memberOrNull name members) ↔ ∃ value, Value.member? name members = some value ∧ p value := by
  rw [memberOrNull]
  cases Value.member? name members <;> simp [h]

/-- The truth values are the booleans. -/
theorem isBoolean_iff {value : Value} : isBoolean value = true ↔ ∃ b, value = .bool b := by
  cases value <;> simp [isBoolean]

/-- A value is a given text if it is that text. -/
theorem isText_iff {text : String} {value : Value} :
    isText text value = true ↔ value = .text text := by
  cases value <;> simp [isText]

/-- A filled text is one that is not empty. -/
theorem isFilledText_iff {value : Value} :
    isFilledText value = true ↔ ∃ s, value = .text s ∧ s ≠ "" := by
  cases value <;> simp [isFilledText]

end Members

/-! ### Fields -/

/-- A key is no defect if it is a text that is not empty and was not seen before. -/
theorem keyDefects_nil_iff {seen : List String} {key : Value} :
    (keyDefects seen key).1 = [] ↔ ∃ s, key = .text s ∧ s ≠ "" ∧ s ∉ seen := by
  cases key with
  | text s => simp [(keyDefects_text seen s).1]
  | _ =>
      unfold keyDefects
      split <;> simp

/-- A field without a defect is well formed, and its key was not seen before. -/
theorem fieldDefects_map_cons (seen : List String) (members : Members) (rest : List Value) :
    fieldDefects seen (.map members :: rest) = [] ↔
      ∃ key, IsField key members ∧ key ∉ seen ∧ fieldDefects (key :: seen) rest = [] := by
  rw [fieldDefects]
  simp only [List.append_eq_nil_iff, keyDefects_nil_iff, defectIf_eq_nil_iff,
    Bool.not_eq_false', truthy_memberOrNull_iff, isBoolean_iff]
  constructor
  · intro h
    obtain ⟨⟨⟨⟨key, hkey, hfilled, hseen⟩, htype⟩, b, hrequired⟩, hrest⟩ := h
    rw [hkey, (keyDefects_text seen key).2 hfilled hseen] at hrest
    exact ⟨key, ⟨(memberOrNull_eq_iff (by simp)).mp hkey, hfilled, htype, b,
      (memberOrNull_eq_iff (by simp)).mp hrequired⟩, hseen, hrest⟩
  · intro h
    obtain ⟨key, ⟨hmember, hfilled, htype, b, hrequired⟩, hseen, hrest⟩ := h
    have hkey : memberOrNull "key" members = .text key :=
      (memberOrNull_eq_iff (by simp)).mpr hmember
    rw [hkey, (keyDefects_text seen key).2 hfilled hseen]
    exact ⟨⟨⟨⟨key, rfl, hfilled, hseen⟩, htype⟩, b, (memberOrNull_eq_iff (by simp)).mpr hrequired⟩,
      hrest⟩

/-- **A list of fields has no defect** exactly if each item is a field, the keys are
different, and none of them was seen before. -/
theorem fieldDefects_nil_iff {seen : List String} {items : List Value} :
    fieldDefects seen items = [] ↔
      ∃ fields : List (String × Members), items = fields.map (fun field => .map field.2) ∧
        (∀ field ∈ fields, IsField field.1 field.2) ∧ (fields.map Prod.fst).Nodup ∧
        ∀ field ∈ fields, field.1 ∉ seen := by
  induction items generalizing seen with
  | nil =>
      rw [fieldDefects]
      simp
  | cons item items ih =>
      cases item with
      | map members =>
          rw [fieldDefects_map_cons]
          constructor
          · intro h
            obtain ⟨key, hfield, hseen, hrest⟩ := h
            obtain ⟨fields, rfl, hfields, hnodup, hothers⟩ := ih.mp hrest
            refine ⟨(key, members) :: fields, rfl, List.forall_mem_cons.mpr ⟨hfield, hfields⟩, ?_,
              List.forall_mem_cons.mpr ⟨hseen, fun field hmem hold =>
                hothers field hmem (List.mem_cons_of_mem _ hold)⟩⟩
            rw [List.map_cons, List.nodup_cons]
            refine ⟨fun hmem => ?_, hnodup⟩
            obtain ⟨field, hfield, heq⟩ := List.mem_map.mp hmem
            exact hothers field hfield (heq ▸ List.mem_cons_self)
          · intro h
            obtain ⟨fields, hitems, hfields, hnodup, hseen⟩ := h
            cases fields with
            | nil => cases hitems
            | cons field fields =>
                obtain ⟨key, others⟩ := field
                rw [List.map_cons, List.cons.injEq, Value.map.injEq] at hitems
                obtain ⟨rfl, rfl⟩ := hitems
                rw [List.map_cons, List.nodup_cons] at hnodup
                rw [List.forall_mem_cons] at hfields hseen
                refine ⟨key, hfields.1, hseen.1, ih.mpr ⟨fields, rfl, hfields.2, hnodup.2, ?_⟩⟩
                intro field hmem hold
                rcases List.mem_cons.mp hold with heq | hold
                · exact hnodup.1 (List.mem_map.mpr ⟨field, hmem, heq⟩)
                · exact hseen.2 field hmem hold
      | _ =>
          -- An item that is no mapping is a defect, and no field.
          constructor
          · intro h
            rw [fieldDefects] at h
            · cases h
            · intro entries heq
              cases heq
          · intro h
            obtain ⟨fields, hitems, -⟩ := h
            cases fields with
            | nil => cases hitems
            | cons field fields => cases (List.cons.inj hitems).1

/-- A list of fields without a defect is there and well formed. -/
theorem fieldListDefects_nil_iff {subject : Subject} {name other : String} {members : Members} :
    fieldListDefects subject name (memberOrNull other members) = [] ↔
      ∃ value, Value.member? other members = some value ∧ IsFieldList value := by
  have hlist : ∀ {value : Value}, fieldListDefects subject name value = [] ↔
      IsFieldList value := by
    intro value
    cases value with
    | list items =>
        rw [fieldListDefects, List.map_eq_nil_iff, fieldDefects_nil_iff, IsFieldList]
        simp
    | _ => simp [fieldListDefects, IsFieldList]
  rw [hlist]
  exact memberOrNull_iff (p := IsFieldList) (by simp [IsFieldList])

/-! ### Pages, components and datasets -/

/-- A source type is left out, or null, or one of two words. -/
theorem sourceTypeDefects_nil_iff {subject : Subject} {members : Members} :
    sourceTypeDefects subject (memberOrNull "sourceType" members) = [] ↔
      Value.member? "sourceType" members ∈
        [none, some .null, some (.text "astro"), some (.text "markdown")] := by
  rw [memberOrNull]
  cases Value.member? "sourceType" members with
  | none => simp [sourceTypeDefects]
  | some value =>
      cases value with
      | text s =>
          by_cases hs : s = "astro" <;>
            simp [sourceTypeDefects, defectIf_eq_nil_iff, FieldSource.name, hs]
      | _ => simp [sourceTypeDefects]

/-- A page has no defect exactly if the conditions for pages hold. -/
theorem pageDefects_nil_iff {page : Value} :
    pageDefects page = [] ↔ ∃ members, page = .map members ∧ IsPage members := by
  cases page with
  | map members =>
      rw [pageDefects]
      simp only [List.append_eq_nil_iff, defectIf_eq_nil_iff, Bool.not_eq_false',
        truthy_memberOrNull_iff, sourceTypeDefects_nil_iff, fieldListDefects_nil_iff,
        Value.map.injEq, exists_eq_left']
      constructor
      · intro h
        obtain ⟨⟨⟨⟨hid, hfile⟩, hroute⟩, hsource⟩, hfields⟩ := h
        exact ⟨hid, hfile, hroute, hsource, hfields⟩
      · intro h
        exact ⟨⟨⟨⟨h.id, h.file⟩, h.route⟩, h.sourceType⟩, h.fields⟩
  | _ => simp [pageDefects]

/-- A component has no defect exactly if the conditions for components hold under its
key. -/
theorem componentDefects_nil_iff {key component : Value} (hkey : ∃ name, key = .text name) :
    componentDefects key component = [] ↔
      ∃ name members, key = .text name ∧ component = .map members ∧ IsComponent name members := by
  obtain ⟨name, rfl⟩ := hkey
  cases component with
  | map members =>
      have hfile : ∀ {subject : Subject} {file : Value},
          (if !file.truthy then [Defect.memberMissing subject "file"]
            else defectIf (!isOwnKey (.text name) file) (.fileOtherThanKey subject file)) = [] ↔
          file = .text name ∧ name ≠ "" := by
        intro subject file
        cases file with
        | text s =>
            by_cases hempty : s = ""
            · simp only [Value.truthy, hempty]
              constructor
              · intro h
                cases h
              · intro h
                exact absurd (Value.text.inj h.1).symm h.2
            · simp only [Value.truthy, bne_iff_ne.mpr hempty, Bool.not_true, Bool.false_eq_true,
                if_false, defectIf_eq_nil_iff, isOwnKey, Bool.not_eq_false', beq_iff_eq,
                Value.text.injEq]
              constructor
              · rintro rfl
                exact ⟨rfl, hempty⟩
              · intro h
                exact h.1.symm
        | _ => split <;> simp [defectIf, isOwnKey]
      rw [componentDefects]
      simp only [List.append_eq_nil_iff, hfile, fieldListDefects_nil_iff, Value.text.injEq,
        Value.map.injEq, exists_eq_left', exists_and_left]
      rw [memberOrNull_eq_iff (by simp)]
      constructor
      · intro h
        exact ⟨h.1.1, h.1.2, h.2⟩
      · intro h
        exact ⟨⟨h.file, h.filled⟩, h.props⟩
  | _ => simp [componentDefects]

/-- A dataset has no defect exactly if the conditions for datasets hold. -/
theorem datasetDefects_nil_iff {dataset : Value} :
    datasetDefects dataset = [] ↔ ∃ members, dataset = .map members ∧ IsDataset members := by
  cases dataset with
  | map members =>
      have hdata : (Value.member? "data" members).isNone = false ↔
          ∃ value, Value.member? "data" members = some value := by
        cases Value.member? "data" members <;> simp
      have hformat : memberOrNull "format" members = .text "yaml" ↔
          Value.member? "format" members = some (.text "yaml") := memberOrNull_eq_iff (by simp)
      have hhash : (∃ s, memberOrNull "hash" members = .text s ∧ s ≠ "") ↔
          ∃ s, Value.member? "hash" members = some (.text s) ∧ s ≠ "" := by
        simp only [memberOrNull_eq_iff (show Value.text _ ≠ .null by simp)]
      rw [datasetDefects]
      simp only [List.append_eq_nil_iff, defectIf_eq_nil_iff, Bool.not_eq_false',
        truthy_memberOrNull_iff, hdata, isText_iff, isFilledText_iff, datasetFormat, hformat, hhash,
        Value.map.injEq, exists_eq_left']
      constructor
      · intro h
        obtain ⟨⟨⟨⟨hid, hfile⟩, hdata⟩, hformat⟩, hhash⟩ := h
        exact ⟨hid, hfile, hdata, hformat, hhash⟩
      · intro h
        exact ⟨⟨⟨⟨h.id, h.file⟩, h.data⟩, h.format⟩, h.hash⟩
  | _ => simp [datasetDefects]

/-! ### Builds -/

/-- Values that are all made in one way, as the list of what they are made from. -/
theorem forall_exists_iff_map {α β : Type} {make : α → β} {p : α → Prop} {items : List β} :
    (∀ item ∈ items, ∃ part, item = make part ∧ p part) ↔
      ∃ parts : List α, items = parts.map make ∧ ∀ part ∈ parts, p part := by
  constructor
  · intro h
    induction items with
    | nil => exact ⟨[], rfl, List.forall_mem_nil _⟩
    | cons item items ih =>
        obtain ⟨⟨part, rfl, hpart⟩, hitems⟩ := List.forall_mem_cons.mp h
        obtain ⟨parts, rfl, hparts⟩ := ih hitems
        exact ⟨part :: parts, rfl, List.forall_mem_cons.mpr ⟨hpart, hparts⟩⟩
  · rintro ⟨parts, rfl, hparts⟩ item hitem
    obtain ⟨part, hpart, rfl⟩ := List.mem_map.mp hitem
    exact ⟨part, rfl, hparts part hpart⟩

/-- The version of a record. -/
theorem versionDefects_nil_iff {members : Members} :
    isSchemaVersion (memberOrNull "schemaVersion" members) = true ↔
      ∃ value, Value.member? "schemaVersion" members = some value ∧ value.number? = some 2 := by
  rw [isSchemaVersion_iff]
  exact memberOrNull_iff (p := fun value => value.number? = some 2) (by simp [Value.number?])

/-- What is no mapping has no members, so a project with members is a mapping. -/
theorem projectDefects_nil_iff {members : Members} :
    (Present "root" (entriesOf (memberOrNull "project" members)) ∧
        Present "name" (entriesOf (memberOrNull "project" members))) ↔
      ∃ project, Value.member? "project" members = some (.map project) ∧
        Present "root" project ∧ Present "name" project := by
  have hproject : ∀ {value : Value},
      (Present "root" (entriesOf value) ∧ Present "name" (entriesOf value)) ↔
        ∃ project, value = .map project ∧ Present "root" project ∧ Present "name" project := by
    intro value
    cases value <;> simp [entriesOf, Present, Value.member?]
  rw [hproject]
  simp only [memberOrNull_eq_iff (show Value.map _ ≠ .null by simp)]

/-- A member that is a list of mappings, each of them without a defect. -/
theorem listDefects_nil_iff {name : String} {members : Members} {check : Value → List Defect}
    {p : Members → Prop} (h : ∀ {value}, check value = [] ↔ ∃ part, value = .map part ∧ p part) :
    (isList (memberOrNull name members) = true ∧
        (itemsOf (memberOrNull name members)).flatMap check = []) ↔
      ∃ parts : List Members, Value.member? name members = some (.list (parts.map Value.map)) ∧
        ∀ part ∈ parts, p part := by
  have hlist : ∀ {value : Value}, (isList value = true ∧ (itemsOf value).flatMap check = []) ↔
      ∃ parts : List Members, value = .list (parts.map Value.map) ∧ ∀ part ∈ parts, p part := by
    intro value
    cases value with
    | list items =>
        simp only [isList, itemsOf, List.flatMap_eq_nil_iff, h, true_and, forall_exists_iff_map,
          Value.list.injEq]
    | _ => simp [isList]
  rw [hlist]
  simp only [memberOrNull_eq_iff (show Value.list _ ≠ .null by simp)]

/-- The member with the components, each of them without a defect under its key. -/
theorem indexDefects_nil_iff {members : Members}
    (hkeys : ∀ entry ∈ entriesOf (memberOrNull "componentsIndex" members),
      ∃ name, entry.1 = .text name) :
    (isMap (memberOrNull "componentsIndex" members) = true ∧
        (entriesOf (memberOrNull "componentsIndex" members)).flatMap
          (fun entry => componentDefects entry.1 entry.2) = []) ↔
      ∃ components : List (String × Members),
        Value.member? "componentsIndex" members =
            some (.map (components.map fun component => (.text component.1, .map component.2))) ∧
          ∀ component ∈ components, IsComponent component.1 component.2 := by
  have hindex : ∀ {value : Value}, (∀ entry ∈ entriesOf value, ∃ name, entry.1 = .text name) →
      ((isMap value = true ∧
        (entriesOf value).flatMap (fun entry => componentDefects entry.1 entry.2) = []) ↔
      ∃ components : List (String × Members),
        value = .map (components.map fun component => (.text component.1, .map component.2)) ∧
          ∀ component ∈ components, IsComponent component.1 component.2) := by
    intro value hkeys
    cases value with
    | map entries =>
        have hentry : ∀ entry ∈ entries, (componentDefects entry.1 entry.2 = [] ↔
            ∃ component : String × Members, entry = (.text component.1, .map component.2) ∧
              IsComponent component.1 component.2) := by
          intro entry hmem
          rw [componentDefects_nil_iff (hkeys entry hmem), Prod.exists]
          obtain ⟨key, value⟩ := entry
          simp only [Prod.mk.injEq, and_assoc]
        simp only [isMap, entriesOf, List.flatMap_eq_nil_iff, true_and, Value.map.injEq]
        rw [← forall_exists_iff_map]
        exact forall₂_congr hentry
    | _ => simp [isMap]
  rw [hindex hkeys]
  simp only [memberOrNull_eq_iff (show Value.map _ ≠ .null by simp)]

/-- **A record that was read has no defect** exactly if it is a build's: a mapping all of
whose members are what is asked for. -/
theorem defects_nil_iff {record : Value} (h : record.IsRead) :
    defects record = [] ↔ ∃ members, record = .map members ∧ IsBuild members := by
  cases record with
  | map members =>
      have hkeys : ∀ entry ∈ entriesOf (memberOrNull "componentsIndex" members),
          ∃ name, entry.1 = .text name := by
        have hindex := h.member "componentsIndex"
        cases hcase : memberOrNull "componentsIndex" members with
        | map entries =>
            rw [hcase] at hindex
            exact fun entry hentry => (hindex.entry entry hentry).1
        | _ => exact List.forall_mem_nil _
      rw [defects]
      simp only [List.append_eq_nil_iff, defectIf_eq_nil_iff, Bool.not_eq_false',
        truthy_memberOrNull_iff, Value.map.injEq, exists_eq_left']
      constructor
      · intro hnone
        obtain ⟨⟨⟨⟨⟨⟨⟨⟨hversion, hroot⟩, hname⟩, hpages⟩, hindex⟩, hdatasets⟩, hpage⟩, hcomponent⟩,
          hdataset⟩ := hnone
        exact ⟨versionDefects_nil_iff.mp hversion, projectDefects_nil_iff.mp ⟨hroot, hname⟩,
          (listDefects_nil_iff pageDefects_nil_iff).mp ⟨hpages, hpage⟩,
          (indexDefects_nil_iff hkeys).mp ⟨hindex, hcomponent⟩,
          (listDefects_nil_iff datasetDefects_nil_iff).mp ⟨hdatasets, hdataset⟩⟩
      · intro hbuild
        have hversion := versionDefects_nil_iff.mpr hbuild.version
        obtain ⟨hroot, hname⟩ := projectDefects_nil_iff.mpr hbuild.project
        obtain ⟨hpages, hpage⟩ := (listDefects_nil_iff pageDefects_nil_iff).mpr hbuild.pages
        obtain ⟨hindex, hcomponent⟩ := (indexDefects_nil_iff hkeys).mpr hbuild.components
        obtain ⟨hdatasets, hdataset⟩ :=
          (listDefects_nil_iff datasetDefects_nil_iff).mpr hbuild.datasets
        exact ⟨⟨⟨⟨⟨⟨⟨⟨hversion, hroot⟩, hname⟩, hpages⟩, hindex⟩, hdatasets⟩, hpage⟩, hcomponent⟩,
          hdataset⟩
  | _ => simp [defects]

namespace Output

/-- **The check of a build that was read** always comes to its end, and it reports nothing
exactly if the record is a build's. -/
theorem readBuild_checked {disk : Tree} {out : Place} {record : Value}
    (h : readBuild disk out = .ok record) :
    ∃ reports, defectReports record = .ok reports ∧
      (reports = [] ↔ ∃ members, record = .map members ∧ IsBuild members) := by
  obtain ⟨chars, -, h⟩ := bind_eq_ok_iff.mp h
  obtain ⟨document, hdocument, h⟩ := bind_eq_ok_iff.mp h
  cases h
  have hread : document.toValue.IsRead :=
    ⟨document, Json.short_of_read (mapError_eq_ok_iff.mp hdocument), rfl⟩
  obtain ⟨reports, hreports⟩ := exists_defectReports hread
  refine ⟨reports, hreports, ?_⟩
  have hlength : (defects document.toValue).length = reports.length :=
    (mapM_eq_ok_iff.mp hreports).length_eq
  rw [← defects_nil_iff hread, ← List.length_eq_zero_iff, ← hlength, List.length_eq_zero_iff]

/-- A folder of results.  The version in the build is a double, and the one component has
one prop. -/
def persistedBuild : Tree :=
  .folder [("out", .folder [(buildFile, .file
    ("\x7b\"schemaVersion\": 2.0, \"project\": \x7b\"root\": \"/\", \"name\": \"a\"\x7d, "
      ++ "\"pages\": [], \"componentsIndex\": \x7b\"b\": \x7b\"file\": \"b\", "
      ++ "\"exportedProps\": [\x7b\"key\": \"k\", \"type\": \"t\", \"required\": true\x7d]"
      ++ "\x7d\x7d, \"datasets\": []\x7d").toUTF8)])]

/-- A build that was persisted is read back and has no defect. -/
theorem readBuild_checked_sample :
    ∃ record members, readBuild persistedBuild ⟨.root, ["out"]⟩ = .ok record ∧
      defectReports record = .ok [] ∧ record = .map members ∧ IsBuild members := by
  have hsample : (readBuild persistedBuild ⟨.root, ["out"]⟩).toOption.bind
      (fun record => (defectReports record).toOption) = some [] := by
    rw [readBuild, Disk.readText, Disk.readBytes, Disk.find, Disk.guarded, Place.holdsNull_eq]
    decide +kernel
  cases hread : readBuild persistedBuild ⟨.root, ["out"]⟩ with
  | error failure =>
      rw [hread] at hsample
      cases hsample
  | ok record =>
      obtain ⟨reports, hreports, hiff⟩ := readBuild_checked hread
      have hnil : reports = [] := by
        rw [hread, Except.toOption, Option.bind_some, hreports] at hsample
        exact Option.some.inj hsample
      obtain ⟨members, hmembers, hbuild⟩ := hiff.mp hnil
      exact ⟨record, members, rfl, hnil ▸ hreports, hmembers, hbuild⟩

end Output

end ContentCatalog
