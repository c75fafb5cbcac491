import ContentCatalog.Catalog.Defect
import ContentCatalog.Proofs.MergedKeys
import ContentCatalog.Proofs.PrintedJson
import ContentCatalog.Proofs.ScanStages

/-!
# Values that were written

Not every value has a text.  Of one that has, this file says what the text is read as,
part by part: words such as texts and whole numbers are read as themselves, lists item by
item, and a record with different names is read as a mapping with the same names.

* `plain_rounded`, `writable_of_image` : the two passes of the writer;
* `read_of_write` : what a text is read as;
* `readsAs_word`, `readsAs_list`, `readsAs_record` : words, and the parts of containers;
* `sameMembers_record` : a record and what it is read as have the same members.
-/

namespace ContentCatalog

open Number

/-! ### Values with a text -/

/-- The value is neither a double nor a container. -/
def Value.IsScalar : Value → Prop
  | .float _ | .list _ | .tuple _ | .set _ | .map _ => False
  | _ => True

/-- The doubles in the value are in the form that rounding gives.  Keys are left out, since
they are written as texts. -/
inductive Value.Rounded : Value → Prop
  | scalar (value : Value) (h : value.IsScalar) : Rounded value
  | float (x : Double) (proper : x.IsProper) : Rounded (.float x)
  | list (items : List Value) (parts : ∀ item ∈ items, Rounded item) : Rounded (.list items)
  | tuple (items : List Value) (parts : ∀ item ∈ items, Rounded item) : Rounded (.tuple items)
  | set (items : List Value) (parts : ∀ item ∈ items, Rounded item) : Rounded (.set items)
  | map (entries : List (Value × Value)) (parts : ∀ entry ∈ entries, Rounded entry.2) :
      Rounded (.map entries)

@[simp] theorem rounded_null : Value.null.Rounded := .scalar _ trivial

@[simp] theorem rounded_bool (b : Bool) : (Value.bool b).Rounded := .scalar _ trivial

@[simp] theorem rounded_int (i : Int) : (Value.int i).Rounded := .scalar _ trivial

@[simp] theorem rounded_text (s : String) : (Value.text s).Rounded := .scalar _ trivial

/-- The doubles of a list are those of its items. -/
@[simp] theorem rounded_list {items : List Value} :
    (Value.list items).Rounded ↔ ∀ item ∈ items, item.Rounded := by
  refine ⟨fun h => ?_, .list items⟩
  cases h with
  | scalar _ h => exact h.elim
  | list _ h => exact h

/-- Those of a record are those of its members. -/
@[simp] theorem rounded_record {members : List (String × Value)} :
    (Value.record members).Rounded ↔ ∀ member ∈ members, member.2.Rounded := by
  constructor
  · intro h
    cases h with
    | scalar _ h => exact h.elim
    | map _ h => exact fun member hmember => h _ (List.mem_map_of_mem hmember)
  · exact fun h => .map _ (List.forall_mem_map.mpr h)

namespace Json

/-! ### The two passes over lists -/

/-- Items are made plain one by one. -/
theorem plainItems_eq_mapM (items : List Value) : plainItems items = items.mapM plain := by
  induction items with
  | nil => rfl
  | cons item items ih => rw [plainItems, ih, List.mapM_cons]

/-- An entry after the first pass. -/
def plainEntry (entry : Value × Value) : Except WriteFault (Value × Value) := do
  let name ← plainKey entry.1
  let value ← plain entry.2
  return (name, value)

theorem plainEntries_eq_mapM (entries : List (Value × Value)) :
    plainEntries entries = entries.mapM plainEntry := by
  induction entries with
  | nil => rfl
  | cons entry entries ih =>
      rw [plainEntries, ih, List.mapM_cons, plainEntry]
      simp only [bind_assoc, pure_bind]

/-- Items have their images one by one. -/
theorem images_eq_mapM (items : List Value) : images items = items.mapM image := by
  induction items with
  | nil => rfl
  | cons item items ih => rw [images, ih, List.mapM_cons]

/-- An entry after the second pass. -/
def imageMember (entry : Value × Value) : Except WriteFault (String × Json) := do
  let name ← keyText entry.1
  let part ← image entry.2
  return (name, part)

theorem imageMembers_eq_mapM (entries : List (Value × Value)) :
    imageMembers entries = entries.mapM imageMember := by
  induction entries with
  | nil => rfl
  | cons entry entries ih =>
      rw [imageMembers, ih, List.mapM_cons, imageMember]
      simp only [bind_assoc, pure_bind]

/-- What an entry is after the first pass. -/
theorem plainEntry_eq_ok_iff {entry made : Value × Value} :
    plainEntry entry = .ok made ↔ plainKey entry.1 = .ok made.1 ∧ plain entry.2 = .ok made.2 := by
  simp only [plainEntry, bind_eq_ok_iff]
  constructor
  · rintro ⟨name, hname, value, hvalue, heq⟩
    cases heq
    exact ⟨hname, hvalue⟩
  · exact fun h => ⟨made.1, h.1, made.2, h.2, rfl⟩

/-- What an entry is after the second pass. -/
theorem imageMember_eq_ok_iff {entry : Value × Value} {member : String × Json} :
    imageMember entry = .ok member ↔
      keyText entry.1 = .ok member.1 ∧ image entry.2 = .ok member.2 := by
  simp only [imageMember, bind_eq_ok_iff]
  constructor
  · rintro ⟨name, hname, part, hpart, heq⟩
    cases heq
    exact ⟨hname, hpart⟩
  · exact fun h => ⟨member.1, h.1, member.2, h.2, rfl⟩

/-! ### Texts that can be read -/

/-- The first pass leaves doubles as they are. -/
theorem plain_rounded {value : Value} (h : value.Rounded) {made : Value}
    (hmade : plain value = .ok made) : made.Rounded := by
  induction h generalizing made with
  | scalar value hscalar =>
      have heq : made = value := by
        cases value with
        | float | list | tuple | set | map => exact hscalar.elim
        | cycle => cases hmade
        | _ =>
            cases hmade
            rfl
      rw [heq]
      exact .scalar value hscalar
  | float x hproper =>
      cases hmade
      exact .float x hproper
  | list items _ ih | tuple items _ ih =>
      rw [plain, plainItems_eq_mapM] at hmade
      obtain ⟨others, hothers, rfl⟩ := map_eq_ok_iff.mp hmade
      refine .list others fun other hother => ?_
      obtain ⟨item, hitem, heq⟩ := exists_of_mem_mapM hothers hother
      exact ih item hitem heq
  | set items hparts =>
      cases hmade
      exact .set items hparts
  | map entries _ ih =>
      rw [plain, plainEntries_eq_mapM] at hmade
      obtain ⟨others, hothers, rfl⟩ := map_eq_ok_iff.mp hmade
      refine .map _ fun other hother => ?_
      obtain ⟨held, hheld, heq⟩ := List.mem_map.mp (Dictionary.mem_ofEntriesBy hother).2
      obtain ⟨entry, hentry, hplain⟩ := exists_of_mem_mapM hothers hheld
      rw [← heq]
      exact ih entry hentry (plainEntry_eq_ok_iff.mp hplain).2

/-- The image of a whole number can be read back. -/
theorem writable_int {i : Int} {j : Json} (h : image (.int i) = .ok j) : Writable j := by
  rw [image, intText] at h
  obtain ⟨text, htext, rfl⟩ := map_eq_ok_iff.mp h
  have hwrite : writeInteger i = .ok text := mapError_eq_ok_iff.mp htext
  rw [writeInteger] at hwrite
  split at hwrite
  · cases hwrite
  · next hlarge => exact .int i (Nat.not_le.mp hlarge)

/-- An image can be printed so that it is read back. -/
theorem writable_of_image {value : Value} (h : value.Rounded) {j : Json}
    (hj : image value = .ok j) : Writable j := by
  have hitems : ∀ {items : List Value} {js : List Json},
      (∀ item ∈ items, ∀ {j}, image item = .ok j → Writable j) → images items = .ok js →
      ∀ j ∈ js, Writable j := by
    intro items js hall hjs j hmem
    rw [images_eq_mapM] at hjs
    obtain ⟨item, hitem, himage⟩ := exists_of_mem_mapM hjs hmem
    exact hall item hitem himage
  induction h generalizing j with
  | scalar value hscalar =>
      cases value with
      | int i => exact writable_int hj
      | null => cases hj; exact .null
      | bool b => cases hj; exact .bool b
      | text s => cases hj; exact .text s
      | bytes | date | moment | time => cases hj; exact .text _
      | foreign | cycle => cases hj
      | float | list | tuple | set | map => exact hscalar.elim
  | float x hproper =>
      cases hj
      exact .float x hproper
  | list items _ ih | tuple items _ ih =>
      rw [image] at hj
      obtain ⟨js, hjs, rfl⟩ := map_eq_ok_iff.mp hj
      exact .array js (hitems ih hjs)
  | set items _ ih =>
      rw [image] at hj
      obtain ⟨texts, -, hj⟩ := bind_eq_ok_iff.mp hj
      obtain ⟨js, hjs, hj⟩ := bind_eq_ok_iff.mp hj
      cases hj
      refine .array _ fun j hmem => hitems ih hjs j ?_
      rw [sortedByText, List.mem_map] at hmem
      obtain ⟨pair, hpair, rfl⟩ := hmem
      exact (List.of_mem_zip (List.mem_mergeSort.mp hpair)).2
  | map entries _ ih =>
      rw [image, imageMembers_eq_mapM] at hj
      obtain ⟨members, hmembers, rfl⟩ := map_eq_ok_iff.mp hj
      refine .object members fun member hmember => ?_
      obtain ⟨entry, hentry, heq⟩ := exists_of_mem_mapM hmembers hmember
      exact ih entry hentry (imageMember_eq_ok_iff.mp heq).2

end Json

/-! ### What a value is read as -/

/-- The value has a text, and the other one is what that is read as. -/
def ReadsAs (value other : Value) : Prop :=
  ∃ j, Json.ofValue value = .ok j ∧ other = (Json.merged j).toValue

open Json in
/-- **A text is read** as what its value is said to be read as. -/
theorem read_of_write {value : Value} (h : value.Rounded) {text : String}
    (hwrite : write value = .ok text) :
    ∃ document, read text.toList = .ok document ∧ ReadsAs value document.toValue := by
  obtain ⟨-, j, hj, rfl⟩ := writeWithin_eq_ok_iff.mp hwrite
  obtain ⟨made, hmade, himage⟩ := bind_eq_ok_iff.mp hj
  exact ⟨merged j, read_render (writable_of_image (plain_rounded h hmade) himage), j, hj, rfl⟩

/-- The value is null, a truth value, a whole number or a text. -/
def Value.IsWord : Value → Prop
  | .null | .bool _ | .int _ | .text _ => True
  | _ => False

/-- **Words are read as themselves.** -/
theorem readsAs_word {value other : Value} (hword : value.IsWord) (h : ReadsAs value other) :
    other = value := by
  obtain ⟨j, hj, rfl⟩ := h
  cases value with
  | int i =>
      have hplain : Json.plain (.int i) = .ok (.int i) := rfl
      rw [Json.ofValue, hplain, bind_ok, Json.image] at hj
      obtain ⟨text, -, rfl⟩ := map_eq_ok_iff.mp hj
      rfl
  | null | bool | text =>
      cases hj
      rfl
  | _ => exact hword.elim

/-- Two runs one after the other, item by item. -/
theorem forall₂_comp {α β γ : Type} {R : α → β → Prop} {S : β → γ → Prop} {T : α → γ → Prop}
    (h : ∀ a b c, R a b → S b c → T a c) {as : List α} {bs : List β} {cs : List γ}
    (hfirst : List.Forall₂ R as bs) (hsecond : List.Forall₂ S bs cs) : List.Forall₂ T as cs := by
  induction hfirst generalizing cs with
  | nil =>
      cases hsecond
      exact .nil
  | cons hr _ ih =>
      cases hsecond with
      | cons hs hrest => exact .cons (h _ _ _ hr hs) (ih hrest)

/-- What is related to the items can be judged by what the items are. -/
theorem forall₂_imp_mem {α β : Type} {R S : α → β → Prop} {as : List α} {bs : List β}
    (h : ∀ a ∈ as, ∀ b, R a b → S a b) (hall : List.Forall₂ R as bs) : List.Forall₂ S as bs :=
  ((List.forall₂_and_left _ _).mpr ⟨fun _ ha => ha, hall⟩).imp fun a b hab => h a hab.1 b hab.2

/-- Each item is related to something. -/
theorem exists_of_forall₂ {α β : Type} {R : α → β → Prop} {as : List α} {bs : List β}
    (h : List.Forall₂ R as bs) {a : α} (ha : a ∈ as) : ∃ b ∈ bs, R a b := by
  induction h with
  | nil => cases ha
  | cons hr _ ih =>
      rcases List.mem_cons.mp ha with rfl | ha
      · exact ⟨_, List.mem_cons_self, hr⟩
      · obtain ⟨b, hb, hrelated⟩ := ih ha
        exact ⟨b, List.mem_cons_of_mem _ hb, hrelated⟩

/-- **A list is read item by item.** -/
theorem readsAs_list {items : List Value} {other : Value} (h : ReadsAs (.list items) other) :
    ∃ others, other = .list others ∧ List.Forall₂ ReadsAs items others := by
  obtain ⟨j, hj, rfl⟩ := h
  obtain ⟨made, hmade, himage⟩ := bind_eq_ok_iff.mp hj
  rw [Json.plain, Json.plainItems_eq_mapM] at hmade
  obtain ⟨plains, hplains, rfl⟩ := map_eq_ok_iff.mp hmade
  rw [Json.image, Json.images_eq_mapM] at himage
  obtain ⟨js, hjs, rfl⟩ := map_eq_ok_iff.mp himage
  refine ⟨js.map fun j => (Json.merged j).toValue, ?_, ?_⟩
  · rw [Json.merged, Json.toValue, Json.toValues_eq_map, Json.mergedItems_eq_map, List.map_map]
    rfl
  · rw [List.forall₂_map_right_iff]
    refine forall₂_comp ?_ (mapM_eq_ok_iff.mp hplains) (mapM_eq_ok_iff.mp hjs)
    intro item plain j hplain hj
    exact ⟨j, by rw [Json.ofValue, hplain, bind_ok, hj], rfl⟩

/-! ### Records -/

/-- The members have the same names in the same order, and what stands under a name is
related. -/
def NameByName {α β : Type} (R : α → β → Prop) (members : List (String × α))
    (others : List (String × β)) : Prop :=
  List.Forall₂ (fun member other => other.1 = member.1 ∧ R member.2 other.2) members others

/-- What is related name by name has the same names. -/
theorem NameByName.keys_eq {α β : Type} {R : α → β → Prop} {members : List (String × α)}
    {others : List (String × β)} (h : NameByName R members others) :
    Dictionary.keys others = Dictionary.keys members := by
  induction h with
  | nil => rfl
  | cons hfirst _ ih =>
      rw [Dictionary.keys, List.map_cons, hfirst.1]
      exact congrArg _ ih

/-- Texts are the same key if they are equal. -/
theorem sameKey_text (a b : String) : Value.sameKey (.text a) (.text b) = (a == b) := by
  rw [Value.sameKey]

/-- A record with different names stays a record in the first pass. -/
theorem plain_record {members : List (String × Value)} {made : Value}
    (hnodup : (Dictionary.keys members).Nodup) (h : Json.plain (.record members) = .ok made) :
    ∃ plains, made = .record plains ∧
      NameByName (fun value plain => Json.plain value = .ok plain) members plains := by
  rw [Value.record, Json.plain, Json.plainEntries_eq_mapM] at h
  obtain ⟨entries, hentries, rfl⟩ := map_eq_ok_iff.mp h
  have hparts : ∃ plains : List (String × Value),
      entries = plains.map (fun plain => (.text plain.1, plain.2)) ∧
        NameByName (fun value plain => Json.plain value = .ok plain) members plains := by
    have hall := List.forall₂_map_left_iff.mp (mapM_eq_ok_iff.mp hentries)
    clear hentries h hnodup
    induction hall with
    | nil => exact ⟨[], rfl, .nil⟩
    | @cons member entry members entries hentry _ ih =>
        obtain ⟨plains, rfl, hplains⟩ := ih
        obtain ⟨hkey, hvalue⟩ := Json.plainEntry_eq_ok_iff.mp hentry
        obtain ⟨key, value⟩ := entry
        cases hkey
        exact ⟨(member.1, value) :: plains, rfl, .cons ⟨rfl, hvalue⟩ hplains⟩
  obtain ⟨plains, rfl, hplains⟩ := hparts
  refine ⟨plains, ?_, hplains⟩
  have hdistinct : (plains.map fun plain => Value.text plain.1).Pairwise
      fun a b => Value.sameKey a b = false := by
    rw [← hplains.keys_eq, Dictionary.keys, List.Nodup, List.pairwise_map] at hnodup
    rw [List.pairwise_map]
    refine hnodup.imp fun hne => ?_
    rw [sameKey_text]
    exact beq_false_of_ne hne
  rw [Value.mapOf, Dictionary.ofEntriesBy_of_pairwise, Value.record]
  rwa [Dictionary.keys, List.map_map]

/-- The second pass takes the members of a record one by one. -/
theorem image_record {members : List (String × Value)} {j : Json}
    (h : Json.image (.record members) = .ok j) :
    ∃ parts, j = .object parts ∧
      NameByName (fun value part => Json.image value = .ok part) members parts := by
  rw [Value.record, Json.image, Json.imageMembers_eq_mapM] at h
  obtain ⟨parts, hparts, rfl⟩ := map_eq_ok_iff.mp h
  refine ⟨parts, rfl, ?_⟩
  refine (List.forall₂_map_left_iff.mp (mapM_eq_ok_iff.mp hparts)).imp ?_
  intro member part hpart
  obtain ⟨hname, hvalue⟩ := Json.imageMember_eq_ok_iff.mp hpart
  exact ⟨(Except.ok.inj hname).symm, hvalue⟩

/-- **A record with different names is read name by name.** -/
theorem readsAs_record {members : List (String × Value)} {other : Value}
    (hnodup : (Dictionary.keys members).Nodup) (h : ReadsAs (.record members) other) :
    ∃ others, other = .record others ∧ NameByName ReadsAs members others := by
  obtain ⟨j, hj, rfl⟩ := h
  obtain ⟨made, hmade, himage⟩ := bind_eq_ok_iff.mp hj
  obtain ⟨plains, rfl, hplains⟩ := plain_record hnodup hmade
  obtain ⟨parts, rfl, hparts⟩ := image_record himage
  have hreads : NameByName (fun value part => Json.ofValue value = .ok part) members parts := by
    refine forall₂_comp ?_ hplains hparts
    intro member plain part hplain hpart
    refine ⟨hpart.1.trans hplain.1, ?_⟩
    show Json.ofValue member.2 = .ok part.2
    rw [Json.ofValue, hplain.2, bind_ok, hpart.2]
  refine ⟨parts.map fun part => (part.1, (Json.merged part.2).toValue), ?_, ?_⟩
  · have hkeys : (Dictionary.keys (parts.map fun part => (part.1, Json.merged part.2))).Nodup := by
      rw [Dictionary.keys, List.map_map]
      rwa [← hreads.keys_eq] at hnodup
    rw [Json.merged, Json.mergedMembers_eq_map, Json.objectOf, Dictionary.ofEntries_of_nodup hkeys,
      Json.toValue, Json.toEntries_eq_map, Value.record, List.map_map, List.map_map]
    rfl
  · refine List.forall₂_map_right_iff.mpr (hreads.imp ?_)
    exact fun member part hpart => ⟨hpart.1, part.2, hpart.2, rfl⟩

/-- Under each name, the second mapping has what the value in the first one is read as. -/
structure SameMembers (entries others : List (Value × Value)) : Prop where
  member : ∀ name, ReadsAs (memberOrNull name entries) (memberOrNull name others)
  absent : ∀ name, (Value.member? name others).isNone = (Value.member? name entries).isNone

/-- Nothing is read as nothing, and counts as null. -/
theorem readsAs_getD {value other : Option Value} (h : Option.Rel ReadsAs value other) :
    ReadsAs (value.getD .null) (other.getD .null) ∧ other.isNone = value.isNone := by
  cases h with
  | some h => exact ⟨h, rfl⟩
  | none => exact ⟨⟨.null, rfl, rfl⟩, rfl⟩

/-- Words are the same under each name. -/
theorem SameMembers.word {entries others : List (Value × Value)} (h : SameMembers entries others)
    (name : String) (hword : (memberOrNull name entries).IsWord) :
    memberOrNull name others = memberOrNull name entries :=
  readsAs_word hword (h.member name)

/-- **A record has the members that it is read with.** -/
theorem sameMembers_record {members : List (String × Value)} {other : Value}
    (hnodup : (Dictionary.keys members).Nodup) (h : ReadsAs (.record members) other) :
    ∃ others, other = .map others ∧ SameMembers (entriesOf (.record members)) others := by
  obtain ⟨others, rfl, hall⟩ := readsAs_record hnodup h
  clear h hnodup
  have hmember : ∀ name, Option.Rel ReadsAs
      (Value.member? name (members.map fun member => (.text member.1, member.2)))
      (Value.member? name (others.map fun other => (.text other.1, other.2))) := by
    intro name
    induction hall with
    | nil => exact .none
    | @cons member other members others hfirst _ ih =>
        rw [List.map_cons, List.map_cons, Value.member?, Value.member?, hfirst.1]
        split
        · exact .some hfirst.2
        · exact ih
  exact ⟨_, rfl, fun name => (readsAs_getD (hmember name)).1, fun name =>
    (readsAs_getD (hmember name)).2⟩

end ContentCatalog
