import ContentCatalog.Proofs.KeyNames
import ContentCatalog.Proofs.PrintedJson

/-!
# The images of values

A value that documents can have always has an image: what JSON has no kind for becomes a
text or an array, and a mapping becomes an object, in which the entries of one name share
a member.

The entries of a mapping are merged twice, by the comparison of keys before the image is
taken and by their names when the text is read.  The first merging changes nothing, since
the names tell all other keys apart.

* `Value.Encodable` : the values that documents can have;
* `imageOf` : the image, with the entries of a mapping merged once, by their names;
* `imageOf_set`, `imageOf_map` : the images of sets and of mappings;
* `passes_map`, `passes_encodable` : both passes succeed, and what is read is the image;
* `ofValue_encodable` : the image of a value, over both passes.
-/

namespace ContentCatalog

/-- A value that documents can have.  The keys of a mapping are different. -/
inductive Value.Encodable : Value → Prop
  | key (value : Value) (h : value.IsKey) : Encodable value
  | list (items : List Value) (parts : ∀ item ∈ items, Encodable item) : Encodable (.list items)
  | tuple (items : List Value) (parts : ∀ item ∈ items, Encodable item) : Encodable (.tuple items)
  | set (items : List Value) (parts : ∀ item ∈ items, item.IsKey) : Encodable (.set items)
  | map (entries : List (Value × Value)) (keys : ∀ entry ∈ entries, entry.1.IsKey)
      (values : ∀ entry ∈ entries, Encodable entry.2)
      (distinct : entries.Pairwise fun a b => Value.sameKey a.1 b.1 = false) :
      Encodable (.map entries)

namespace Json

open Value (IsKey Encodable displayText sameKey)

/-! ### The image -/

mutual

/-- The image of a value; kinds that documents do not have are passed over. -/
def imageOf : Value → Json
  | .null => .null
  | .bool b => .bool b
  | .int i => .int i
  | .float x => .float x
  | .text s => .text s
  | .bytes octets => .text (String.ofList (Text.Base64.encode octets))
  | .date d => .text d.iso
  | .moment m => .text m.iso
  | .time t => .text t.iso
  | .list items => .array (imagesOf items)
  | .tuple items => .array (imagesOf items)
  | .set items => .array (sortedByText ((items.map displayText).zip (imagesOf items)))
  | .map entries => objectOf (membersOf entries)
  | .foreign _ => .null
  | .cycle _ => .null

/-- The images of the items of a container. -/
def imagesOf : List Value → List Json
  | [] => []
  | item :: items => imageOf item :: imagesOf items

/-- The entries of a mapping by their names, none merged yet. -/
def membersOf : List (Value × Value) → List (String × Json)
  | [] => []
  | (key, value) :: entries => (keyName key, imageOf value) :: membersOf entries

end

/-- Items have their images one by one. -/
theorem imagesOf_eq_map (items : List Value) : imagesOf items = items.map imageOf := by
  induction items with
  | nil => rfl
  | cons item items ih => rw [imagesOf, ih, List.map_cons]

theorem membersOf_eq_map (entries : List (Value × Value)) :
    membersOf entries = entries.map fun entry => (keyName entry.1, imageOf entry.2) := by
  induction entries with
  | nil => rfl
  | cons entry entries ih => rw [membersOf, ih, List.map_cons]

/-- Items are sorted before their parts are taken, or after it. -/
theorem sortedByText_map {α β : Type} (text : α → String) (part : α → β) (items : List α) :
    sortedByText (items.map fun item => (text item, part item)) =
      (items.mergeSort fun a b => decide (text a ≤ text b)).map part := by
  have hsorted := List.map_mergeSort (l := items) (f := fun item => (text item, part item))
    (r := fun a b => decide (text a ≤ text b)) (s := fun a b => decide (a.1 ≤ b.1))
    fun _ _ _ _ => rfl
  rw [sortedByText, ← hsorted, List.map_map]
  rfl

/-- Sorting adds nothing. -/
theorem mem_sortedByText {α : Type} {items : List (String × α)} {value : α}
    (h : value ∈ sortedByText items) : value ∈ items.map (·.2) := by
  rw [sortedByText, List.mem_map] at h
  obtain ⟨item, hitem, heq⟩ := h
  exact List.mem_map.mpr ⟨item, List.mem_mergeSort.mp hitem, heq⟩

/-- **The image of a set** has its items in the order of their displays. -/
theorem imageOf_set (items : List Value) :
    imageOf (.set items) = .array ((items.mergeSort fun a b =>
      decide (a.displayText ≤ b.displayText)).map imageOf) := by
  rw [imageOf, imagesOf_eq_map, List.zip_map', sortedByText_map]

/-- **The image of a mapping** has the entries of one name merged. -/
theorem imageOf_map (entries : List (Value × Value)) :
    imageOf (.map entries) = .object (Dictionary.ofEntries
      (entries.map fun entry => (keyName entry.1, imageOf entry.2))) := by
  rw [imageOf, membersOf_eq_map, objectOf]

/-! ### The second pass -/

/-- The value has an image that can be read back. -/
def HasImage (value : Value) : Prop :=
  ∃ j, image value = .ok j ∧ Writable j

/-- The document that is read for a value with plain keys. -/
def readImage (value : Value) : Json :=
  ((image value).toOption.map merged).getD .null

/-- What is read for a value is its image, with members of one name merged. -/
theorem readImage_eq {value : Value} {j : Json} (h : image value = .ok j) :
    readImage value = merged j := by
  rw [readImage, h]
  rfl

/-- Items that all have an image have their images in order. -/
theorem images_ok {items : List Value} (h : ∀ item ∈ items, HasImage item) :
    ∃ js, images items = .ok js ∧ (∀ j ∈ js, Writable j) ∧
      mergedItems js = items.map readImage := by
  induction items with
  | nil => exact ⟨[], rfl, fun _ h => absurd h List.not_mem_nil, rfl⟩
  | cons item items ih =>
      obtain ⟨⟨j, hj, hwritable⟩, hitems⟩ := List.forall_mem_cons.mp h
      obtain ⟨js, hjs, hall, hmerged⟩ := ih hitems
      refine ⟨j :: js, ?_, List.forall_mem_cons.mpr ⟨hwritable, hall⟩, ?_⟩
      · rw [images, hj]
        simp only [bind, Except.bind, hjs]
        rfl
      · rw [mergedItems, hmerged, List.map_cons, readImage_eq hj]

/-- So do entries with plain keys. -/
theorem imageMembers_ok {entries : List (Value × Value)}
    (hkeys : ∀ entry ∈ entries, keyText entry.1 = .ok (keyName entry.1))
    (hvalues : ∀ entry ∈ entries, HasImage entry.2) :
    ∃ members, imageMembers entries = .ok members ∧ (∀ member ∈ members, Writable member.2) ∧
      mergedMembers members = entries.map fun entry => (keyName entry.1, readImage entry.2) := by
  induction entries with
  | nil => exact ⟨[], rfl, fun _ h => absurd h List.not_mem_nil, rfl⟩
  | cons entry entries ih =>
      obtain ⟨key, value⟩ := entry
      obtain ⟨hkey, hotherKeys⟩ := List.forall_mem_cons.mp hkeys
      obtain ⟨⟨j, hj, hwritable⟩, hotherValues⟩ := List.forall_mem_cons.mp hvalues
      obtain ⟨members, hmembers, hall, hmerged⟩ := ih hotherKeys hotherValues
      refine ⟨(keyName key, j) :: members, ?_, List.forall_mem_cons.mpr ⟨hwritable, hall⟩, ?_⟩
      · rw [imageMembers, hkey]
        simp only [bind, Except.bind, hj, hmembers]
        rfl
      · rw [mergedMembers, hmerged, List.map_cons, readImage_eq hj]

/-- Lists and tuples become arrays. -/
theorem image_sequence {items : List Value} (h : ∀ item ∈ items, HasImage item) :
    (HasImage (.list items) ∧ readImage (.list items) = .array (items.map readImage)) ∧
      (HasImage (.tuple items) ∧ readImage (.tuple items) = .array (items.map readImage)) := by
  obtain ⟨js, hjs, hall, hmerged⟩ := images_ok h
  have hlist : image (.list items) = .ok (.array js) := by
    rw [image, hjs]
    rfl
  have htuple : image (.tuple items) = .ok (.array js) := by
    rw [image, hjs]
    rfl
  rw [readImage_eq hlist, readImage_eq htuple, merged, hmerged]
  exact ⟨⟨⟨_, hlist, .array js hall⟩, rfl⟩, ⟨_, htuple, .array js hall⟩, rfl⟩

/-- A key is its own image, or has a text. -/
theorem readImage_key {key : Value} (h : key.IsKey) :
    HasImage key ∧ readImage key = imageOf key := by
  induction h with
  | int i hshort =>
      have himage : image (.int i) = .ok (.int i) := by
        rw [image, intText, Value.writeInteger_ok hshort]
        rfl
      exact ⟨⟨_, himage, .int i hshort⟩, readImage_eq himage⟩
  | tuple items _ ih =>
      obtain ⟨-, himage, hread⟩ := image_sequence fun item hitem => (ih item hitem).1
      refine ⟨himage, ?_⟩
      rw [hread, imageOf, imagesOf_eq_map, List.map_congr_left fun item hitem => (ih item hitem).2]
  | null => exact ⟨⟨_, rfl, .null⟩, rfl⟩
  | bool b => exact ⟨⟨_, rfl, .bool b⟩, rfl⟩
  | float x hproper => exact ⟨⟨_, rfl, .float x hproper⟩, rfl⟩
  | text s => exact ⟨⟨_, rfl, .text s⟩, rfl⟩
  | bytes octets => exact ⟨⟨_, rfl, .text _⟩, rfl⟩
  | date d => exact ⟨⟨_, rfl, .text _⟩, rfl⟩
  | moment m => exact ⟨⟨_, rfl, .text _⟩, rfl⟩
  | time t => exact ⟨⟨_, rfl, .text _⟩, rfl⟩

/-- Keys are all displayed. -/
theorem mapM_displayed {items : List Value} (h : ∀ item ∈ items, item.IsKey) :
    items.mapM displayed = .ok (items.map displayText) := by
  induction items with
  | nil => rfl
  | cons item items ih =>
      obtain ⟨hitem, hitems⟩ := List.forall_mem_cons.mp h
      rw [List.mapM_cons, displayed, hitem.display_eq]
      simp only [Except.mapError, bind, Except.bind, ih hitems]
      rfl

/-- The items of a set are sorted before they are read or after it. -/
theorem image_set {items : List Value} (h : ∀ item ∈ items, item.IsKey) :
    HasImage (.set items) ∧ readImage (.set items) = imageOf (.set items) := by
  obtain ⟨js, hjs, hall, hmerged⟩ := images_ok fun item hitem => (readImage_key (h item hitem)).1
  have himage : image (.set items) =
      .ok (.array (sortedByText ((items.map displayText).zip js))) := by
    rw [image, mapM_displayed h, hjs]
    rfl
  have hread : js.map merged = imagesOf items := by
    rw [← mergedItems_eq_map, hmerged, imagesOf_eq_map,
      List.map_congr_left fun item hitem => (readImage_key (h item hitem)).2]
  refine ⟨⟨_, himage, .array _ ?_⟩, ?_⟩
  · intro j hj
    obtain ⟨pair, hpair, rfl⟩ := List.mem_map.mp (mem_sortedByText hj)
    exact hall _ (List.of_mem_zip hpair).2
  · have hsorted := sortedByText_map (fun pair : String × Json => pair.1)
      (fun pair => merged pair.2) ((items.map displayText).zip js)
    rw [readImage_eq himage, merged, mergedItems_eq_map, imageOf, ← hread, List.zip_map_right]
    rw [sortedByText, List.map_map]
    exact congrArg Json.array hsorted.symm

/-! ### Both passes -/

/-- The value passes: its keys can be made plain, and what is read then is its image. -/
def Passes (value : Value) : Prop :=
  ∃ made, plain value = .ok made ∧ HasImage made ∧ readImage made = imageOf value

/-- Items that all pass are made plain in order. -/
theorem plainItems_ok {items : List Value} (h : ∀ item ∈ items, Passes item) :
    ∃ made, plainItems items = .ok made ∧ (∀ value ∈ made, HasImage value) ∧
      made.map readImage = imagesOf items := by
  induction items with
  | nil => exact ⟨[], rfl, fun _ h => absurd h List.not_mem_nil, rfl⟩
  | cons item items ih =>
      obtain ⟨⟨first, hfirst, himage, hread⟩, hitems⟩ := List.forall_mem_cons.mp h
      obtain ⟨others, hothers, hall, hreads⟩ := ih hitems
      refine ⟨first :: others, ?_, List.forall_mem_cons.mpr ⟨himage, hall⟩, ?_⟩
      · rw [plainItems, hfirst]
        simp only [bind, Except.bind, hothers]
        rfl
      · rw [List.map_cons, hread, hreads, imagesOf]

/-- So are entries, whose keys keep their names. -/
theorem plainEntries_ok {entries : List (Value × Value)}
    (hkeys : ∀ entry ∈ entries, entry.1.IsKey) (hvalues : ∀ entry ∈ entries, Passes entry.2) :
    ∃ made, plainEntries entries = .ok made ∧ (∀ entry ∈ made, HasImage entry.2) ∧
      Dictionary.keys made = (Dictionary.keys entries).map plainOf ∧
      (made.map fun entry => (keyName entry.1, readImage entry.2)) = membersOf entries := by
  induction entries with
  | nil => exact ⟨[], rfl, fun _ h => absurd h List.not_mem_nil, rfl, rfl⟩
  | cons entry entries ih =>
      obtain ⟨key, value⟩ := entry
      obtain ⟨hkey, hotherKeys⟩ := List.forall_mem_cons.mp hkeys
      obtain ⟨⟨first, hfirst, himage, hread⟩, hotherValues⟩ := List.forall_mem_cons.mp hvalues
      obtain ⟨others, hothers, hall, hnames, hreads⟩ := ih hotherKeys hotherValues
      refine ⟨(plainOf key, first) :: others, ?_, List.forall_mem_cons.mpr ⟨himage, hall⟩, ?_, ?_⟩
      · rw [plainEntries, plainKey_eq hkey]
        simp only [bind, Except.bind, hfirst, hothers]
        rfl
      · simp only [Dictionary.keys, List.map_cons] at hnames ⊢
        rw [hnames]
      · rw [List.map_cons, hreads, hread, keyName_plainOf, membersOf]

/-- Lists and tuples of values that pass do so too. -/
theorem passes_sequence {items : List Value} (h : ∀ item ∈ items, Passes item) :
    Passes (.list items) ∧ Passes (.tuple items) := by
  obtain ⟨made, hmade, hall, hreads⟩ := plainItems_ok h
  obtain ⟨⟨himage, hread⟩, -⟩ := image_sequence hall
  refine ⟨⟨.list made, ?_, himage, ?_⟩, .list made, ?_, himage, ?_⟩
  · rw [plain, hmade]
    rfl
  · rw [hread, hreads, imageOf]
  · rw [plain, hmade]
    rfl
  · rw [hread, hreads, imageOf]

/-- **A mapping passes.**  The first merging is left out by the names of its keys. -/
theorem passes_map {entries : List (Value × Value)} (hkeys : ∀ entry ∈ entries, entry.1.IsKey)
    (hvalues : ∀ entry ∈ entries, Passes entry.2)
    (hdistinct : entries.Pairwise fun a b => sameKey a.1 b.1 = false) :
    Passes (.map entries) := by
  obtain ⟨made, hmade, hall, hnames, hreads⟩ := plainEntries_ok hkeys hvalues
  have hunmistaken : Dictionary.Unmistaken sameKey keyName (Dictionary.keys made) := by
    rw [hnames]
    refine unmistaken_plainOf ?_ (List.pairwise_map.mpr hdistinct)
    intro key hkey
    obtain ⟨entry, hentry, rfl⟩ := List.mem_map.mp hkey
    exact hkeys entry hentry
  have htexts : ∀ entry ∈ Dictionary.ofEntriesBy sameKey made,
      keyText entry.1 = .ok (keyName entry.1) := by
    intro entry hentry
    have hkey := (Dictionary.mem_ofEntriesBy hentry).1
    rw [hnames] at hkey
    obtain ⟨key, hmem, heq⟩ := List.mem_map.mp hkey
    obtain ⟨original, horiginal, rfl⟩ := List.mem_map.mp hmem
    rw [← heq, keyText_plainOf (hkeys original horiginal), keyName_plainOf]
  have himages : ∀ entry ∈ Dictionary.ofEntriesBy sameKey made, HasImage entry.2 := by
    intro entry hentry
    obtain ⟨other, hother, heq⟩ := List.mem_map.mp (Dictionary.mem_ofEntriesBy hentry).2
    rw [← heq]
    exact hall other hother
  obtain ⟨members, hmembers, hwritable, hmerged⟩ := imageMembers_ok htexts himages
  have himage : image (Value.mapOf made) = .ok (.object members) := by
    rw [Value.mapOf, image, hmembers]
    rfl
  refine ⟨Value.mapOf made, ?_, ⟨_, himage, .object members hwritable⟩, ?_⟩
  · rw [plain, hmade]
    rfl
  · rw [readImage_eq himage, merged, hmerged, objectOf,
      Dictionary.ofEntries_ofEntriesBy readImage hunmistaken, hreads, imageOf, objectOf]

/-- Every key passes. -/
theorem passes_key {key : Value} (h : key.IsKey) : Passes key := by
  induction h with
  | tuple items _ ih => exact (passes_sequence ih).2
  | int i hshort => exact ⟨_, rfl, readImage_key (.int i hshort)⟩
  | float x hproper => exact ⟨_, rfl, readImage_key (.float x hproper)⟩
  | null => exact ⟨_, rfl, readImage_key .null⟩
  | bool b => exact ⟨_, rfl, readImage_key (.bool b)⟩
  | text s => exact ⟨_, rfl, readImage_key (.text s)⟩
  | bytes octets => exact ⟨_, rfl, readImage_key (.bytes octets)⟩
  | date d => exact ⟨_, rfl, readImage_key (.date d)⟩
  | moment m => exact ⟨_, rfl, readImage_key (.moment m)⟩
  | time t => exact ⟨_, rfl, readImage_key (.time t)⟩

/-- **Every value that documents can have passes.** -/
theorem passes_encodable {value : Value} (h : value.Encodable) : Passes value := by
  induction h with
  | key value hkey => exact passes_key hkey
  | list items _ ih => exact (passes_sequence ih).1
  | tuple items _ ih => exact (passes_sequence ih).2
  | set items hparts => exact ⟨_, rfl, image_set hparts⟩
  | map entries hkeys _ hdistinct ih => exact passes_map hkeys ih hdistinct

/-- **Every value that documents can have has an image**, which can be printed and is read as the
image of the value. -/
theorem ofValue_encodable {value : Value} (h : value.Encodable) :
    ∃ document, ofValue value = .ok document ∧ Writable document ∧
      merged document = imageOf value := by
  obtain ⟨made, hmade, ⟨document, hdocument, hwritable⟩, hread⟩ := passes_encodable h
  refine ⟨document, ?_, hwritable, ?_⟩
  · rw [ofValue, hmade]
    exact hdocument
  · rw [← readImage_eq hdocument, hread]

end Json

end ContentCatalog
