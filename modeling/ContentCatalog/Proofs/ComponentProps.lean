import ContentCatalog.Proofs.LongDefaults
import ContentCatalog.Proofs.SourceFields
import Mathlib.Data.List.TakeDrop

/-!
# Props and tags of components

A component lists its props as its interface and its destructuring declare them, one after the
other, without every field whose key was declared before.  Its tags are those of its body alone.

* `firstBy_eq_withoutRepeats` : keeping the first items of their keys is leaving out repeats;
* `find?_of_mem_firstBy`, `find?_of_mem_firstBy_append` : what is kept is the first item of its
  key, in the first of two lists if it is there;
* `declaresType_of_interfaceFields`, `isIdentifier_of_destructuredFields` : what is declared;
* `component_lists` : which props and tags a component lists.
-/

namespace ContentCatalog

/-! ### Repeats -/

section Repeats

variable {α κ : Type} [DecidableEq κ] {key : α → κ}

/-- The items without every item whose key an earlier one has. -/
def withoutRepeats (key : α → κ) (items : List α) : List α :=
  (items.zipIdx.filter fun item =>
    !((items.take item.2).map key).contains (key item.1)).map Prod.fst

/-- The items behind some others, of all of which the keys are known. -/
theorem firstByAfter_eq_filter {before items : List α} {seen : List κ}
    (hseen : ∀ k, k ∈ seen ↔ k ∈ before.map key) :
    firstByAfter key seen items =
      ((items.zipIdx before.length).filter fun item =>
        !(((before ++ items).take item.2).map key).contains (key item.1)).map Prod.fst := by
  induction items generalizing before seen with
  | nil => rfl
  | cons item items ih =>
      have hhere : ((before ++ item :: items).take before.length).map key = before.map key := by
        rw [List.take_left']
        rfl
      have hnext := @ih (before ++ [item])
      simp only [List.length_append, List.length_singleton, List.append_assoc,
        List.singleton_append] at hnext
      rw [firstByAfter, List.zipIdx_cons, List.filter_cons, hhere]
      by_cases hold : key item ∈ seen
      · have hbefore : key item ∈ before.map key := (hseen _).mp hold
        rw [if_pos (by simpa using hold), if_neg (by simpa using hbefore)]
        apply hnext
        intro k
        rw [hseen, List.map_append, List.mem_append, List.map_singleton, List.mem_singleton]
        exact ⟨Or.inl, fun h => h.elim id fun hk => hk ▸ hbefore⟩
      · have hbefore : key item ∉ before.map key := fun h => hold ((hseen _).mpr h)
        rw [if_neg (by simpa using hold), if_pos (by simpa using hbefore), List.map_cons]
        congr 1
        apply hnext
        intro k
        rw [List.mem_cons, hseen, List.map_append, List.mem_append, List.map_singleton,
          List.mem_singleton, or_comm]

/-- **Keeping the first items** of their keys is leaving out the repeats. -/
theorem firstBy_eq_withoutRepeats (key : α → κ) (items : List α) :
    firstBy key items = withoutRepeats key items := by
  have hnone : ∀ k, k ∈ ([] : List κ) ↔ k ∈ ([] : List α).map key := fun _ => Iff.rfl
  exact firstByAfter_eq_filter hnone

/-- An item that is left is the first one of its key. -/
theorem find?_of_mem_firstByAfter {seen : List κ} {items : List α} {item : α}
    (h : item ∈ firstByAfter key seen items) :
    items.find? (fun other => key other == key item) = some item := by
  induction items generalizing seen with
  | nil => cases h
  | cons head items ih =>
      have hlater : ∀ {kept}, key head ∈ kept → item ∈ firstByAfter key kept items →
          (head :: items).find? (fun other => key other == key item) = some item := by
        intro kept hkept hitem
        have hne : key head ≠ key item := fun heq =>
          (mem_map_firstByAfter.mp (List.mem_map_of_mem hitem)).2 (heq ▸ hkept)
        rw [List.find?_cons_of_neg (by simpa using hne)]
        exact ih hitem
      rw [firstByAfter] at h
      split at h
      · next hseen => exact hlater (by simpa using hseen) h
      · rcases List.mem_cons.mp h with rfl | h
        · exact List.find?_cons_of_pos (by simp)
        · exact hlater List.mem_cons_self h

/-- What is kept is the first item of its key. -/
theorem find?_of_mem_firstBy {items : List α} {item : α} (h : item ∈ firstBy key items) :
    items.find? (fun other => key other == key item) = some item :=
  find?_of_mem_firstByAfter h

/-- What is kept of two lists is the first item of its key in front, or behind if there is none
in front. -/
theorem find?_of_mem_firstBy_append {front behind : List α} {item : α}
    (h : item ∈ firstBy key (front ++ behind)) :
    (key item ∈ front.map key →
      front.find? (fun other => key other == key item) = some item) ∧
    (key item ∉ front.map key →
      behind.find? (fun other => key other == key item) = some item) := by
  have hfound := find?_of_mem_firstBy h
  rw [List.find?_append] at hfound
  constructor
  · intro hkey
    obtain ⟨other, hother, hsame⟩ := List.mem_map.mp hkey
    have hsome : (front.find? fun other => key other == key item).isSome :=
      List.find?_isSome.mpr ⟨other, hother, beq_iff_eq.mpr hsame⟩
    rwa [Option.or_of_isSome hsome] at hfound
  · intro hkey
    have hnone : front.find? (fun other => key other == key item) = none :=
      List.find?_eq_none.mpr fun other hother hsame =>
        hkey (List.mem_map.mpr ⟨other, hother, beq_iff_eq.mp hsame⟩)
    rwa [hnone, Option.none_or] at hfound

end Repeats

namespace Source

open Text

/-! ### Keys -/

/-- A member of an interface declares a type as it is written, and no default. -/
structure DeclaresType (field : Field) : Prop where
  key_isIdentifier : IsIdentifier field.key.toList
  rawType_isSome : field.rawType.isSome = true
  default_eq_none : field.default = none

/-- A member of an interface gives a field with a type. -/
theorem declaresType_of_interfaceField? {member : List Char} {field : Field}
    (h : interfaceField? member = some field) : DeclaresType field := by
  rw [interfaceField?] at h
  obtain ⟨⟨key, rest⟩, hkey, h⟩ := Option.bind_eq_some_iff.mp h
  obtain ⟨written, -, h⟩ := Option.bind_eq_some_iff.mp h
  simp only at h
  split at h
  · cases h
  · obtain rfl := Option.some.inj h
    refine ⟨?_, rfl, rfl⟩
    rw [String.toList_ofList]
    exact isIdentifier_of_identifier? hkey

/-- So do all members of an interface. -/
theorem declaresType_of_interfaceFields {script : List Char} {field : Field}
    (h : field ∈ interfaceFields script) : DeclaresType field := by
  rw [interfaceFields] at h
  split at h
  · obtain ⟨member, -, hmember⟩ := List.mem_filterMap.mp h
    exact declaresType_of_interfaceField? hmember
  · cases h

/-- The field of an entry has its key. -/
theorem key_of_destructuringField {key : List Char} {default : Option (List Char)} {field : Field}
    (h : destructuringField key default = .ok field) : field.key.toList = key := by
  cases default with
  | none =>
      obtain rfl := Except.ok.inj h
      exact String.toList_ofList
  | some text =>
      obtain ⟨⟨value, type⟩, -, h⟩ := bind_eq_ok_iff.mp h
      obtain rfl := Except.ok.inj h
      exact String.toList_ofList

/-- The keys of entries that are taken apart are identifiers. -/
theorem isIdentifier_of_destructuredFields {script : List Char} {fields : List Field}
    (h : destructuredFields script = .ok fields) :
    ∀ field ∈ fields, IsIdentifier field.key.toList := by
  intro field hfield
  rw [destructuredFields] at h
  split at h
  · obtain ⟨⟨key, default⟩, hentry, hread⟩ := exists_of_mem_mapM h hfield
    obtain ⟨text, -, htext⟩ := List.mem_filterMap.mp hentry
    rw [key_of_destructuringField hread]
    exact isIdentifier_of_entry htext
  · obtain rfl := Except.ok.inj h
    cases hfield

/-! ### What a component lists -/

/-- **What a component lists.**  Its props are the fields of its interface and then those of its
destructuring, without every field whose key was declared before: each declared key once, an
identifier, in the order of the first declarations, with what the interface says of it and no
default where the interface declares it.  Its tags are those that its body opens, whatever
its script holds. -/
theorem component_lists {text : List Char} {source : ComponentSource}
    (h : component text = .ok source) :
    ∃ destructured, destructuredFields (scriptOf text) = .ok destructured ∧
      source.props =
        withoutRepeats Field.key (interfaceFields (scriptOf text) ++ destructured) ∧
      (source.props.map Field.key).Nodup ∧
      (∀ prop ∈ source.props, IsIdentifier prop.key.toList) ∧
      (∀ key, key ∈ source.props.map Field.key ↔
        key ∈ (interfaceFields (scriptOf text) ++ destructured).map Field.key) ∧
      (source.props.Pairwise fun prop later => ∀ before other after,
        interfaceFields (scriptOf text) ++ destructured = before ++ other :: after →
          other.key = later.key → ∃ first ∈ before, first.key = prop.key) ∧
      (∀ prop ∈ source.props, prop.key ∈ (interfaceFields (scriptOf text)).map Field.key →
        (interfaceFields (scriptOf text)).find? (fun field => field.key == prop.key) = some prop ∧
          prop.rawType.isSome = true ∧ prop.default = none) ∧
      (∀ prop ∈ source.props, prop.key ∉ (interfaceFields (scriptOf text)).map Field.key →
        destructured.find? (fun field => field.key == prop.key) = some prop) ∧
      source.tags = usedTags (split text).body ∧
      (∀ tag, tag ∈ source.tags ↔ ∃ before, OpensTag (split text).body before tag) ∧
      ∀ other otherSource, component other = .ok otherSource →
        (split other).body = (split text).body → otherSource.tags = source.tags := by
  have htags : ∀ {text source}, component text = .ok source →
      source.tags = usedTags (split text).body := by
    intro text source h
    obtain ⟨fields, -, hsource⟩ := bind_eq_ok_iff.mp h
    exact (congrArg ComponentSource.tags (Except.ok.inj hsource)).symm
  obtain ⟨destructured, hread, hsource⟩ := bind_eq_ok_iff.mp h
  have hprops : source.props =
      firstBy Field.key (interfaceFields (scriptOf text) ++ destructured) :=
    (congrArg ComponentSource.props (Except.ok.inj hsource)).symm
  have hfirst : ∀ prop ∈ source.props,
      prop ∈ firstBy Field.key (interfaceFields (scriptOf text) ++ destructured) :=
    fun prop hprop => hprops ▸ hprop
  refine ⟨destructured, hread, ?_, ?_, ?_, ?_, ?_, ?_, ?_, htags h, ?_, ?_⟩
  · rw [hprops, firstBy_eq_withoutRepeats]
  · rw [hprops]
    exact nodup_map_firstBy Field.key _
  · intro prop hprop
    rcases List.mem_append.mp (firstByAfter_subset _ _ _ (hfirst prop hprop)) with hdeclared | hdeclared
    · exact (declaresType_of_interfaceFields hdeclared).key_isIdentifier
    · exact isIdentifier_of_destructuredFields hread prop hdeclared
  · intro key
    rw [hprops]
    exact mem_map_firstBy
  · rw [hprops]
    exact pairwise_firstByAfter Field.key [] _
  · intro prop hprop hkey
    have hfound := (find?_of_mem_firstBy_append (hfirst prop hprop)).1 hkey
    obtain ⟨-, hraw, hdefault⟩ :=
      declaresType_of_interfaceFields (List.mem_of_find?_eq_some hfound)
    exact ⟨hfound, hraw, hdefault⟩
  · intro prop hprop hkey
    exact (find?_of_mem_firstBy_append (hfirst prop hprop)).2 hkey
  · intro tag
    rw [htags h]
    exact mem_distinct.trans mem_openingTags_iff
  · intro other otherSource hother hbody
    rw [htags hother, htags h, hbody]

/-- Both forms declare a prop, and both the script and the body open tags. -/
def twiceDeclared : List Char :=
  ("---\nexport interface Props \x7b a?: string; a: B \x7d\n" ++
    "const \x7b a = 1, b = '<C>' \x7d = Astro.props;\n---\n<D/><D>").toList

/-- What the destructuring of the sample declares. -/
def destructuredTwice : List Field :=
  [{ key := "a", type := "number", required := false, default := some (.int 1),
     source := some "astro" },
   { key := "b", type := "string", required := false, default := some (.text "<C>"),
     source := some "astro" }]

/-- A prop that is declared three times is told once, as the interface has it. -/
theorem component_lists_sample :
    ∃ source, component twiceDeclared = .ok source ∧
      (interfaceFields (scriptOf twiceDeclared) ++ destructuredTwice).map Field.key =
        ["a", "a", "a", "b"] ∧
      source.props =
        { key := "a", type := "string", required := false, rawType := some "string",
          source := some "astro" } :: destructuredTwice.drop 1 ∧
      source.tags = [['D']] := by
  have hdestructured : destructuredFields (scriptOf twiceDeclared) = .ok destructuredTwice := rfl
  have hread : component twiceDeclared =
      .ok ⟨Field.firstByKey (interfaceFields (scriptOf twiceDeclared) ++ destructuredTwice),
        usedTags (split twiceDeclared).body⟩ := rfl
  obtain ⟨destructured, hdeclared, hprops, -, -, -, -, -, -, htags, -, -⟩ := component_lists hread
  obtain rfl := Except.ok.inj (hdestructured.symm.trans hdeclared)
  exact ⟨_, hread, rfl, hprops.trans rfl, htags.trans rfl⟩

end Source

end ContentCatalog
