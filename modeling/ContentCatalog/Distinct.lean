/-!
# First occurrences

The items of a list with every item left out whose key came before.

* `nodup_map_firstBy` : the keys of what is left are pairwise different;
* `mem_map_firstBy` : no key is lost;
* `firstBy_of_nodup` : nothing is left out where no key comes twice;
* `pairwise_firstByAfter` : what is left stands in the order of the first places of the keys.
-/

namespace ContentCatalog

variable {α κ : Type} [DecidableEq κ]

/-- The items whose keys are not among those seen, each key once. -/
def firstByAfter (key : α → κ) : (seen : List κ) → List α → List α
  | _, [] => []
  | seen, item :: items =>
    if seen.contains (key item) then firstByAfter key seen items
    else item :: firstByAfter key (key item :: seen) items

/-- The items in their order, of those with the same key the first one. -/
def firstBy (key : α → κ) (items : List α) : List α :=
  firstByAfter key [] items

/-- The items in their order, each once. -/
def distinct (items : List κ) : List κ :=
  firstBy id items

/-- The keys that are left are those that were not seen before. -/
theorem mem_map_firstByAfter {key : α → κ} {seen : List κ} {items : List α} {k : κ} :
    k ∈ (firstByAfter key seen items).map key ↔ k ∈ items.map key ∧ k ∉ seen := by
  induction items generalizing seen with
  | nil => simp [firstByAfter]
  | cons item items ih =>
    rw [firstByAfter]
    split
    · next h =>
      simp only [List.contains_eq_mem, decide_eq_true_eq] at h
      rw [ih, List.map_cons, List.mem_cons]
      constructor
      · rintro ⟨hm, hs⟩; exact ⟨Or.inr hm, hs⟩
      · rintro ⟨rfl | hm, hs⟩
        · exact absurd h hs
        · exact ⟨hm, hs⟩
    · next h =>
      simp only [List.contains_eq_mem, decide_eq_true_eq] at h
      rw [List.map_cons, List.mem_cons, ih, List.map_cons, List.mem_cons, List.mem_cons]
      constructor
      · rintro (rfl | ⟨hm, hs⟩)
        · exact ⟨Or.inl rfl, h⟩
        · exact ⟨Or.inr hm, fun hk => hs (Or.inr hk)⟩
      · rintro ⟨rfl | hm, hs⟩
        · exact Or.inl rfl
        · by_cases hk : k = key item
          · exact Or.inl hk
          · exact Or.inr ⟨hm, fun h' => h'.elim hk hs⟩

/-- No two items that are left have the same key. -/
theorem nodup_map_firstByAfter (key : α → κ) (seen : List κ) (items : List α) :
    ((firstByAfter key seen items).map key).Nodup := by
  induction items generalizing seen with
  | nil => simp [firstByAfter]
  | cons item items ih =>
    rw [firstByAfter]
    split
    · exact ih seen
    · rw [List.map_cons, List.nodup_cons]
      exact ⟨fun h => (mem_map_firstByAfter.mp h).2 (by simp), ih _⟩

/-- No key is lost. -/
theorem mem_map_firstBy {key : α → κ} {items : List α} {k : κ} :
    k ∈ (firstBy key items).map key ↔ k ∈ items.map key := by
  simp [firstBy, mem_map_firstByAfter]

/-- Each key is left once. -/
theorem nodup_map_firstBy (key : α → κ) (items : List α) :
    ((firstBy key items).map key).Nodup :=
  nodup_map_firstByAfter key [] items

/-- Leaving out items leaves nothing new. -/
theorem firstByAfter_subset (key : α → κ) (seen : List κ) (items : List α) :
    firstByAfter key seen items ⊆ items := by
  induction items generalizing seen with
  | nil => exact List.Subset.refl []
  | cons item items ih =>
      rw [firstByAfter]
      split
      · exact List.subset_cons_of_subset item (ih seen)
      · exact List.cons_subset_cons item (ih (key item :: seen))

/-- Where all keys are different and new, nothing is left out. -/
theorem firstByAfter_of_nodup {key : α → κ} {items : List α}
    (h : (items.map key).Nodup) {seen : List κ} (hseen : ∀ item ∈ items, key item ∉ seen) :
    firstByAfter key seen items = items := by
  induction items generalizing seen with
  | nil => rfl
  | cons item items ih =>
      obtain ⟨hitem, hitems⟩ := List.nodup_cons.mp h
      obtain ⟨hfirst, hrest⟩ := List.forall_mem_cons.mp hseen
      rw [firstByAfter, if_neg (by simpa using hfirst), ih hitems]
      intro other hother
      rw [List.mem_cons, not_or]
      exact ⟨fun heq => hitem (List.mem_map.mpr ⟨other, hother, heq⟩), hrest other hother⟩

/-- Where no key comes twice, nothing is left out. -/
theorem firstBy_of_nodup {key : α → κ} {items : List α} (h : (items.map key).Nodup) :
    firstBy key items = items :=
  firstByAfter_of_nodup h fun _ _ => List.not_mem_nil

/-- **The first items of their keys** stand in the order of the first places of the keys. -/
theorem pairwise_firstByAfter (key : α → κ) (seen : List κ) (items : List α) :
    (firstByAfter key seen items).Pairwise fun item later =>
      ∀ before other after, items = before ++ other :: after → key other = key later →
        ∃ first ∈ before, key first = key item := by
  induction items generalizing seen with
  | nil => exact List.Pairwise.nil
  | cons head items ih =>
    have hnew : ∀ {kept later}, key head ∈ kept → later ∈ firstByAfter key kept items →
        key head ≠ key later := by
      intro kept later hkept hlater hkey
      exact (mem_map_firstByAfter.mp (List.mem_map_of_mem hlater)).2 (hkey ▸ hkept)
    -- Behind the head the order is that of the rest, as the key of the head does not come again.
    have hlift : ∀ kept, key head ∈ kept → (firstByAfter key kept items).Pairwise fun item later =>
        ∀ before other after, head :: items = before ++ other :: after → key other = key later →
          ∃ first ∈ before, key first = key item := by
      intro kept hkept
      refine (ih kept).imp_of_mem fun {item later} _ hlater h before other after heq hkey => ?_
      cases before with
      | nil =>
        obtain ⟨rfl, -⟩ := List.cons.inj heq
        exact absurd hkey (hnew hkept hlater)
      | cons first before =>
        obtain ⟨found, hfound, hsame⟩ := h before other after (List.cons.inj heq).2 hkey
        exact ⟨found, List.mem_cons_of_mem _ hfound, hsame⟩
    rw [firstByAfter]
    split
    · next hseen => exact hlift seen (by simpa using hseen)
    · refine List.pairwise_cons.mpr ⟨?_, hlift _ List.mem_cons_self⟩
      intro later hlater before other after heq hkey
      cases before with
      | nil =>
        obtain ⟨rfl, -⟩ := List.cons.inj heq
        exact absurd hkey (hnew List.mem_cons_self hlater)
      | cons first before =>
        obtain ⟨rfl, -⟩ := List.cons.inj heq
        exact ⟨head, List.mem_cons_self, rfl⟩

/-- Distinct items are listed once. -/
theorem nodup_distinct (items : List κ) : (distinct items).Nodup := by
  simpa [distinct] using nodup_map_firstBy id items

/-- And none of them is lost. -/
theorem mem_distinct {a : κ} {items : List κ} : a ∈ distinct items ↔ a ∈ items := by
  have h : a ∈ (firstBy id items).map id ↔ a ∈ items.map id := mem_map_firstBy
  rwa [List.map_id, List.map_id] at h

/-- A list without repeats is left as it is. -/
theorem distinct_of_nodup {items : List κ} (h : items.Nodup) : distinct items = items :=
  firstBy_of_nodup (by rwa [List.map_id])

/-- Every place of an item lies behind a place of each item that is listed before it. -/
theorem pairwise_distinct (items : List κ) :
    (distinct items).Pairwise fun item later =>
      ∀ before after, items = before ++ later :: after → item ∈ before := by
  refine (pairwise_firstByAfter id [] items).imp fun {item later} h before after heq => ?_
  obtain ⟨first, hfirst, rfl⟩ := h before later after heq rfl
  exact hfirst

end ContentCatalog
