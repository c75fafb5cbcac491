import ContentCatalog.Proofs.DeclaredNames
import ContentCatalog.Proofs.SoundBuild
import ContentCatalog.Proofs.ScanStages

/-!
# Fields of sources

Every way in which a field is found gives it a key and a type, and of equal keys
only the first one is kept.  So what is found in a source is always sound.

* `sound_firstByKey` : the first fields of their keys are sound;
* `sound_component` : the props of a component that could be read;
* `sound_markdown` : the fields of a Markdown page.
-/

namespace ContentCatalog

/-- Every type has a name. -/
theorem FieldType.name_ne (type : FieldType) : type.name ≠ "" := by
  cases type <;> decide

/-- The field has a key and a type. -/
def Field.IsNamed (field : Field) : Prop :=
  field.key ≠ "" ∧ field.type ≠ ""

/-- The first fields of their keys are sound, if all fields are named. -/
theorem sound_firstByKey {fields : List Field} (h : ∀ field ∈ fields, field.IsNamed) :
    SoundFields (Field.firstByKey fields) := by
  refine ⟨?_, nodup_map_firstBy Field.key fields⟩
  intro field hf
  exact h field (firstByAfter_subset Field.key [] fields hf)

namespace Source

open Text

/-- A text with a character is not empty. -/
theorem ofList_ne {text : List Char} (h : text ≠ []) : String.ofList text ≠ "" := by
  intro heq
  have hl := congrArg String.toList heq
  rw [String.toList_ofList] at hl
  exact h hl

/-- A member of an interface declares a named field. -/
theorem named_of_interfaceField? {member : List Char} {field : Field}
    (h : interfaceField? member = some field) : field.IsNamed := by
  rw [interfaceField?] at h
  obtain ⟨⟨key, rest⟩, hid, h⟩ := Option.bind_eq_some_iff.mp h
  obtain ⟨written, -, h⟩ := Option.bind_eq_some_iff.mp h
  simp only at h
  split at h
  · cases h
  · have hf := Option.some.inj h
    rw [← hf]
    exact ⟨ofList_ne (isIdentifier_of_identifier? hid).ne_nil, FieldType.name_ne _⟩

/-- The fields of an interface are named. -/
theorem named_interfaceFields (script : List Char) :
    ∀ field ∈ interfaceFields script, field.IsNamed := by
  intro field hf
  rw [interfaceFields] at hf
  split at hf
  · obtain ⟨member, -, hm⟩ := List.mem_filterMap.mp hf
    exact named_of_interfaceField? hm
  · cases hf

/-- An entry of a destructuring begins with the key's identifier. -/
theorem isIdentifier_of_entry {text key : List Char} {default : Option (List Char)}
    (h : destructuringEntry? text = some (key, default)) : IsIdentifier key := by
  rw [ destructuringEntry?] at h
  obtain ⟨⟨name, rest⟩, hid, h⟩ := Option.bind_eq_some_iff.mp h
  have hkey : name = key := by
    simp only at h
    split at h
    · exact (Prod.mk.inj (Option.some.inj h)).1
    · split at h
      · cases h
      · exact (Prod.mk.inj (Option.some.inj h)).1
    · cases h
  rw [← hkey]
  exact isIdentifier_of_identifier? hid

/-- The field of an entry is named after its key. -/
theorem named_of_destructuringField {key : List Char} {default : Option (List Char)}
    {field : Field} (hk : key ≠ []) (h : destructuringField key default = .ok field) :
    field.IsNamed := by
  cases default with
  | none =>
      have hf := Except.ok.inj h
      rw [← hf]
      exact ⟨ofList_ne hk, FieldType.name_ne .unknown⟩
  | some text =>
      obtain ⟨⟨value, type⟩, -, h⟩ := bind_eq_ok_iff.mp h
      have hf := Except.ok.inj h
      rw [← hf]
      exact ⟨ofList_ne hk, FieldType.name_ne _⟩

/-- The fields of a destructuring are named, if it can be read. -/
theorem named_destructuredFields {script : List Char} {fields : List Field}
    (h : destructuredFields script = .ok fields) : ∀ field ∈ fields, field.IsNamed := by
  intro field hf
  rw [destructuredFields] at h
  split at h
  · obtain ⟨⟨key, default⟩, he, hfield⟩ := exists_of_mem_mapM h hf
    obtain ⟨text, -, hentry⟩ := List.mem_filterMap.mp he
    exact named_of_destructuringField (isIdentifier_of_entry hentry).ne_nil hfield
  · have heq := Except.ok.inj h
    rw [← heq] at hf
    cases hf

/-- **The props of a component** are sound. -/
theorem sound_component {text : List Char} {source : ComponentSource}
    (h : component text = .ok source) : SoundFields source.props := by
  obtain ⟨destructured, hd, h⟩ := bind_eq_ok_iff.mp h
  have hs := Except.ok.inj h
  rw [← hs]
  refine sound_firstByKey ?_
  intro field hf
  rcases List.mem_append.mp hf with hf | hf
  · exact named_interfaceFields _ field hf
  · exact named_destructuredFields hd field hf

/-- **The fields of a Markdown page** are sound. -/
theorem sound_markdown (page : MarkdownSource) : SoundFields page.fields := by
  refine sound_firstByKey ?_
  intro field hf
  obtain ⟨entry, he, heq⟩ := List.mem_map.mp hf
  have hk := (List.mem_filter.mp he).2
  rw [bne_iff_ne] at hk
  rw [← heq]
  exact ⟨hk, FieldType.name_ne _⟩

end Source

end ContentCatalog
