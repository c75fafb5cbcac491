import ContentCatalog.Proofs.KeptEntries
import ContentCatalog.Proofs.NestedValues

/-!
# Sets in other orders

The elements of a set are listed in some order.  A value with its sets listed in another order
goes through both passes in the same way, and takes as many calls.

* `Value.Reordered` : the elements of sets listed in another order;
* `plain_reordered` : the first pass keeps the orders;
* `Imaged` : the images of a value over the orders;
* `image_reordered` : whether there is an image does not depend on the order;
* `writeCalls_reordered` : nor do the calls for a value.
-/

namespace ContentCatalog

/-- The second value is the first one with the elements of its sets listed in another order, which
is one that the relation allows. -/
inductive Value.Reordered (R : List Value → List Value → Prop) : Value → Value → Prop
  | scalar (value : Value) (h : value.IsLeaf) : Reordered R value value
  | list {items others : List Value} (parts : List.Forall₂ (Reordered R) items others) :
      Reordered R (.list items) (.list others)
  | tuple {items others : List Value} (parts : List.Forall₂ (Reordered R) items others) :
      Reordered R (.tuple items) (.tuple others)
  | set {items others : List Value} (order : R items others) :
      Reordered R (.set items) (.set others)
  | map {entries others : List (Value × Value)}
      (keys : Dictionary.keys others = Dictionary.keys entries)
      (values : List.Forall₂ (fun entry other => Reordered R entry.2 other.2) entries others) :
      Reordered R (.map entries) (.map others)
  | cycle (levels : Nat) : Reordered R (.cycle levels) (.cycle levels)

/-- What is related to each item, as a list. -/
theorem exists_forall₂ {α β : Type} {R : α → β → Prop} {as : List α}
    (h : ∀ a ∈ as, ∃ b, R a b) : ∃ bs, List.Forall₂ R as bs := by
  induction as with
  | nil => exact ⟨[], .nil⟩
  | cons a as ih =>
      obtain ⟨⟨b, hb⟩, hrest⟩ := List.forall_mem_cons.mp h
      obtain ⟨bs, hbs⟩ := ih hrest
      exact ⟨b :: bs, .cons hb hbs⟩

/-- Two lists that are related to one item by item are related to a fourth one, if this is so of
single items. -/
theorem exists_square {α β γ δ : Type} {R : α → β → Prop} {S : α → γ → Prop} {T : β → δ → Prop}
    {U : γ → δ → Prop} {as : List α} {bs : List β} {cs : List γ}
    (h : ∀ a ∈ as, ∀ b c, R a b → S a c → ∃ d, T b d ∧ U c d) (hfirst : List.Forall₂ R as bs)
    (hsecond : List.Forall₂ S as cs) : ∃ ds, List.Forall₂ T bs ds ∧ List.Forall₂ U cs ds := by
  induction hfirst generalizing cs with
  | nil =>
      cases hsecond
      exact ⟨[], .nil, .nil⟩
  | cons hr _ ih =>
      cases hsecond with
      | cons hs hrest =>
          obtain ⟨d, ht, hu⟩ := h _ List.mem_cons_self _ _ hr hs
          obtain ⟨ds, hts, hus⟩ := ih (fun a ha => h a (List.mem_cons_of_mem _ ha)) hrest
          exact ⟨d :: ds, .cons ht hts, .cons hu hus⟩

/-- Two lists that are related to one item by item are one, if this is so of single items. -/
theorem forall₂_unique {α β : Type} {R S : α → β → Prop} {as : List α} {bs cs : List β}
    (h : ∀ a ∈ as, ∀ b c, R a b → S a c → b = c) (hfirst : List.Forall₂ R as bs)
    (hsecond : List.Forall₂ S as cs) : bs = cs := by
  induction hfirst generalizing cs with
  | nil =>
      cases hsecond
      rfl
  | cons hr _ ih =>
      cases hsecond with
      | cons hs hrest =>
          rw [h _ List.mem_cons_self _ _ hr hs,
            ih (fun a ha => h a (List.mem_cons_of_mem _ ha)) hrest]

/-- Each item is related twice to what stands in its place. -/
theorem exists_of_forall₂_both {α β : Type} {R S : α → β → Prop} {as : List α} {bs : List β}
    (hfirst : List.Forall₂ R as bs) (hsecond : List.Forall₂ S as bs) {a : α} (ha : a ∈ as) :
    ∃ b, R a b ∧ S a b := by
  induction hfirst with
  | nil => cases ha
  | cons hr _ ih =>
      cases hsecond with
      | cons hs hrest =>
          rcases List.mem_cons.mp ha with rfl | ha
          · exact ⟨_, hr, hs⟩
          · exact ih hrest ha

namespace Value

section

variable {R S : List Value → List Value → Prop} {value other : Value}

/-- A scalar has no order to change. -/
theorem Reordered.of_leaf (h : Reordered R value other) (hleaf : value.IsLeaf) :
    other = value := by
  cases h <;> first | rfl | cases hleaf

/-- A list keeps its order, and its items may be reordered inside. -/
theorem Reordered.of_list {items : List Value} (h : Reordered R (.list items) other) :
    ∃ others, other = .list others ∧ List.Forall₂ (Reordered R) items others := by
  cases h with
  | scalar _ hleaf => cases hleaf
  | list hparts => exact ⟨_, rfl, hparts⟩

theorem Reordered.of_tuple {items : List Value} (h : Reordered R (.tuple items) other) :
    ∃ others, other = .tuple others ∧ List.Forall₂ (Reordered R) items others := by
  cases h with
  | scalar _ hleaf => cases hleaf
  | tuple hparts => exact ⟨_, rfl, hparts⟩

/-- The elements of a set come in another order that is allowed. -/
theorem Reordered.of_set {items : List Value} (h : Reordered R (.set items) other) :
    ∃ others, other = .set others ∧ R items others := by
  cases h with
  | scalar _ hleaf => cases hleaf
  | set horder => exact ⟨_, rfl, horder⟩

/-- A mapping is reordered in its values. -/
theorem reordered_map {entries others : List (Value × Value)}
    (h : Dictionary.KeyByKey (Reordered R) entries others) :
    Reordered R (.map entries) (.map others) := by
  obtain ⟨hkeys, hvalues⟩ := Dictionary.keyByKey_iff.mp h
  exact .map hkeys hvalues

/-- And in nothing else, so its keys are the same in the same order. -/
theorem Reordered.of_map {entries : List (Value × Value)} (h : Reordered R (.map entries) other) :
    ∃ others, other = .map others ∧ Dictionary.KeyByKey (Reordered R) entries others := by
  cases h with
  | scalar _ hleaf => cases hleaf
  | map hkeys hvalues => exact ⟨_, rfl, Dictionary.keyByKey_iff.mpr ⟨hkeys, hvalues⟩⟩

theorem Reordered.of_cycle {levels : Nat} (h : Reordered R (.cycle levels) other) :
    other = .cycle levels := by
  cases h <;> rfl

/-- Every value has its sets listed in an order that is at hand for all lists. -/
theorem Loaded.exists_reordered (h : value.Loaded) (horder : ∀ items, ∃ others, R items others) :
    ∃ other, Reordered R value other := by
  induction h with
  | leaf value hleaf => exact ⟨value, .scalar value hleaf⟩
  | list items _ ih =>
      obtain ⟨others, hothers⟩ := exists_forall₂ ih
      exact ⟨.list others, .list hothers⟩
  | tuple items _ ih =>
      obtain ⟨others, hothers⟩ := exists_forall₂ ih
      exact ⟨.tuple others, .tuple hothers⟩
  | set items =>
      obtain ⟨others, hothers⟩ := horder items
      exact ⟨.set others, .set hothers⟩
  | map entries _ _ _ ih =>
      obtain ⟨others, hothers⟩ : ∃ others, Dictionary.KeyByKey (Reordered R) entries others := by
        apply exists_forall₂
        intro entry hentry
        obtain ⟨value, hvalue⟩ := ih entry hentry
        exact ⟨(entry.1, value), rfl, hvalue⟩
      exact ⟨.map others, reordered_map hothers⟩
  | cycle levels => exact ⟨.cycle levels, .cycle levels⟩

/-- An order that one relation allows may be allowed by another. -/
theorem Loaded.reordered_mono (hvalue : value.Loaded)
    (horder : ∀ items others, R items others → S items others) (h : Reordered R value other) :
    Reordered S value other := by
  induction hvalue generalizing other with
  | leaf value hleaf =>
      obtain rfl := h.of_leaf hleaf
      exact .scalar other hleaf
  | list items _ ih =>
      obtain ⟨others, rfl, hparts⟩ := h.of_list
      exact .list (forall₂_imp_mem (fun item hitem _ => ih item hitem) hparts)
  | tuple items _ ih =>
      obtain ⟨others, rfl, hparts⟩ := h.of_tuple
      exact .tuple (forall₂_imp_mem (fun item hitem _ => ih item hitem) hparts)
  | set items =>
      obtain ⟨others, rfl, hset⟩ := h.of_set
      exact .set (horder items others hset)
  | map entries _ _ _ ih =>
      obtain ⟨others, rfl, hentries⟩ := h.of_map
      apply reordered_map
      exact forall₂_imp_mem (fun entry hentry _ hother => ⟨hother.1, ih entry hentry hother.2⟩)
        hentries
  | cycle levels =>
      obtain rfl := h.of_cycle
      exact .cycle levels

/-- Every value is listed as it is. -/
theorem Loaded.reordered_refl (h : value.Loaded) (hrefl : ∀ items, R items items) :
    Reordered R value value := by
  induction h with
  | leaf value hleaf => exact .scalar value hleaf
  | list items _ ih => exact .list (List.forall₂_same.mpr ih)
  | tuple items _ ih => exact .tuple (List.forall₂_same.mpr ih)
  | set items => exact .set (hrefl items)
  | map entries _ _ _ ih => exact .map rfl (List.forall₂_same.mpr ih)
  | cycle levels => exact .cycle levels

/-- What holds of each item in every order holds of the items in theirs. -/
theorem forall_mem_reordered {P : Value → Prop} {items others : List Value}
    (h : ∀ item ∈ items, ∀ {other}, Reordered R item other → P other)
    (hparts : List.Forall₂ (Reordered R) items others) : ∀ other ∈ others, P other := by
  intro other hother
  obtain ⟨item, hitem, hrelated⟩ := exists_of_forall₂ hparts.flip hother
  exact h item hitem hrelated

/-- Doubles are the same in every order. -/
theorem Loaded.rounded_reordered (hvalue : value.Loaded) (h : Reordered List.Perm value other) :
    other.Rounded := by
  induction hvalue generalizing other with
  | leaf value hleaf =>
      obtain rfl := h.of_leaf hleaf
      exact Json.rounded_of_loaded (.leaf other hleaf)
  | list items _ ih =>
      obtain ⟨others, rfl, hparts⟩ := h.of_list
      exact .list others (forall_mem_reordered ih hparts)
  | tuple items _ ih =>
      obtain ⟨others, rfl, hparts⟩ := h.of_tuple
      exact .tuple others (forall_mem_reordered ih hparts)
  | set items hleaves _ =>
      obtain ⟨others, rfl, hperm⟩ := h.of_set
      refine .set others fun item hitem => Json.rounded_of_loaded (.leaf item ?_)
      exact hleaves item (hperm.mem_iff.mpr hitem)
  | map entries _ _ _ ih =>
      obtain ⟨others, rfl, hentries⟩ := h.of_map
      refine .map others fun other hother => ?_
      obtain ⟨entry, hentry, -, hrelated⟩ := exists_of_forall₂ hentries.flip hother
      exact ih entry hentry hrelated
  | cycle levels =>
      obtain rfl := h.of_cycle
      exact .scalar _ trivial

end

end Value

namespace Json

open Value (IsLeaf Loaded Reordered Within displayText sameKey)

variable {R S : List Value → List Value → Prop}

/-! ### The first pass -/

/-- A scalar key stays a scalar. -/
theorem isLeaf_plainOf {key : Value} (h : key.IsLeaf) : (plainOf key).IsLeaf := by
  cases h with
  | null => exact .null
  | bool b => exact .bool b
  | int i => exact .int i
  | float x hproper => exact .float x hproper
  | _ => exact .text _

/-- What the first pass gives is as documents have it. -/
theorem loaded_plain {value made : Value} (h : value.Loaded) (hmade : plain value = .ok made) :
    made.Loaded := by
  induction h generalizing made with
  | leaf value hleaf =>
      rw [plain_leaf hleaf] at hmade
      obtain rfl := Except.ok.inj hmade
      exact .leaf value hleaf
  | list items _ ih | tuple items _ ih =>
      rw [plain, plainItems_eq_mapM] at hmade
      obtain ⟨others, hothers, rfl⟩ := map_eq_ok_iff.mp hmade
      refine .list others fun other hother => ?_
      obtain ⟨item, hitem, heq⟩ := exists_of_mem_mapM hothers hother
      exact ih item hitem heq
  | set items hparts hdistinct =>
      obtain rfl := Except.ok.inj hmade
      exact .set items hparts hdistinct
  | map entries hkeys _ _ ih =>
      rw [plain, plainEntries_eq_mapM] at hmade
      obtain ⟨plains, hplains, rfl⟩ := map_eq_ok_iff.mp hmade
      refine .map _ (fun made hmade => ?_) (fun made hmade => ?_)
        (List.pairwise_map.mp (Dictionary.pairwise_ofEntriesBy sameKey plains))
      · obtain ⟨held, hheld, heq⟩ := List.mem_map.mp (Dictionary.mem_ofEntriesBy hmade).1
        obtain ⟨entry, hentry, hplain⟩ := exists_of_mem_mapM hplains hheld
        have hkey := (plainEntry_eq_ok_iff.mp hplain).1
        rw [plainKey_leaf (hkeys entry hentry)] at hkey
        rw [← heq, ← Except.ok.inj hkey]
        exact isLeaf_plainOf (hkeys entry hentry)
      · obtain ⟨held, hheld, heq⟩ := List.mem_map.mp (Dictionary.mem_ofEntriesBy hmade).2
        obtain ⟨entry, hentry, hplain⟩ := exists_of_mem_mapM hplains hheld
        rw [← heq]
        exact ih entry hentry (plainEntry_eq_ok_iff.mp hplain).2
  | cycle levels => cases hmade

/-- The items keep their orders if each of them does. -/
theorem plainItems_reordered {items others mades : List Value}
    (h : ∀ item ∈ items, ∀ {other made}, Reordered R item other → plain item = .ok made →
      ∃ otherMade, plain other = .ok otherMade ∧ Reordered R made otherMade)
    (hparts : List.Forall₂ (Reordered R) items others) (hmades : plainItems items = .ok mades) :
    ∃ otherMades, plainItems others = .ok otherMades ∧
      List.Forall₂ (Reordered R) mades otherMades := by
  rw [plainItems_eq_mapM] at hmades
  obtain ⟨otherMades, hplain, hrelated⟩ := exists_square
    (S := fun item made => plain item = .ok made) (T := fun other made => plain other = .ok made)
    (fun item hitem _ _ => h item hitem) hparts (mapM_eq_ok_iff.mp hmades)
  exact ⟨otherMades, by rw [plainItems_eq_mapM, mapM_eq_ok_iff.mpr hplain], hrelated⟩

/-- An entry has the same key in the first pass, and a value that is reordered. -/
theorem plainEntry_reordered {entry other made : Value × Value}
    (h : ∀ {value made}, Reordered R entry.2 value → plain entry.2 = .ok made →
      ∃ otherMade, plain value = .ok otherMade ∧ Reordered R made otherMade)
    (hother : entry.1 = other.1 ∧ Reordered R entry.2 other.2)
    (hmade : plainEntry entry = .ok made) :
    ∃ otherMade, plainEntry other = .ok otherMade ∧
      (made.1 = otherMade.1 ∧ Reordered R made.2 otherMade.2) := by
  obtain ⟨hkey, hvalue⟩ := plainEntry_eq_ok_iff.mp hmade
  obtain ⟨value, hplain, hrelated⟩ := h hother.2 hvalue
  rw [hother.1] at hkey
  exact ⟨(made.1, value), plainEntry_eq_ok_iff.mpr ⟨hkey, hplain⟩, rfl, hrelated⟩

/-- **The first pass** keeps the orders of the sets, and merges the same entries whatever they
are. -/
theorem plain_reordered {value other made : Value} (hvalue : value.Loaded)
    (h : Reordered R value other) (hmade : plain value = .ok made) :
    ∃ otherMade, plain other = .ok otherMade ∧ Reordered R made otherMade := by
  induction hvalue generalizing other made with
  | leaf value hleaf =>
      rw [plain_leaf hleaf] at hmade
      obtain rfl := Except.ok.inj hmade
      obtain rfl := h.of_leaf hleaf
      exact ⟨other, plain_leaf hleaf, .scalar other hleaf⟩
  | list items _ ih =>
      rw [plain] at hmade
      obtain ⟨mades, hmades, rfl⟩ := map_eq_ok_iff.mp hmade
      obtain ⟨others, rfl, hparts⟩ := h.of_list
      obtain ⟨otherMades, hplain, hrelated⟩ := plainItems_reordered ih hparts hmades
      exact ⟨.list otherMades, by rw [plain, hplain, Except.map], .list hrelated⟩
  | tuple items _ ih =>
      rw [plain] at hmade
      obtain ⟨mades, hmades, rfl⟩ := map_eq_ok_iff.mp hmade
      obtain ⟨others, rfl, hparts⟩ := h.of_tuple
      obtain ⟨otherMades, hplain, hrelated⟩ := plainItems_reordered ih hparts hmades
      exact ⟨.list otherMades, by rw [plain, hplain, Except.map], .list hrelated⟩
  | set items =>
      obtain rfl := Except.ok.inj hmade
      obtain ⟨others, rfl, horder⟩ := h.of_set
      exact ⟨.set others, rfl, .set horder⟩
  | map entries _ _ _ ih =>
      rw [plain, plainEntries_eq_mapM] at hmade
      obtain ⟨plains, hplains, rfl⟩ := map_eq_ok_iff.mp hmade
      obtain ⟨others, rfl, hentries⟩ := h.of_map
      obtain ⟨otherPlains, hplain, hmerged⟩ : ∃ otherPlains,
          List.Forall₂ (fun other plain => plainEntry other = .ok plain) others otherPlains ∧
            Dictionary.KeyByKey (Reordered R) plains otherPlains :=
        exists_square (S := fun entry plain => plainEntry entry = .ok plain)
          (fun entry hentry _ _ => plainEntry_reordered (ih entry hentry)) hentries
          (mapM_eq_ok_iff.mp hplains)
      refine ⟨Value.mapOf otherPlains, ?_, Value.reordered_map (hmerged.ofEntriesBy sameKey)⟩
      rw [plain, plainEntries_eq_mapM, mapM_eq_ok_iff.mpr hplain, Except.map]
  | cycle levels => cases hmade

/-! ### Images over the orders -/

/-- The document is the image of the value with the elements of its sets in some order that is
allowed. -/
def Imaged (R : List Value → List Value → Prop) (value : Value) (j : Json) : Prop :=
  ∃ other, Reordered R value other ∧ image other = .ok j

/-- A scalar has one image. -/
theorem imaged_leaf {value : Value} (hleaf : value.IsLeaf) {j : Json} (h : Imaged R value j) :
    j = imageOf value := by
  obtain ⟨other, horder, himage⟩ := h
  obtain rfl := horder.of_leaf hleaf
  exact (image_leaf hleaf himage).1

/-- Items have images one by one, each with an order of its own. -/
theorem imaged_items {items others : List Value} {js : List Json}
    (hparts : List.Forall₂ (Reordered R) items others) (himage : images others = .ok js) :
    List.Forall₂ (Imaged R) items js := by
  rw [images_eq_mapM] at himage
  exact forall₂_comp (fun item other j hother hj => ⟨other, hother, hj⟩) hparts
    (mapM_eq_ok_iff.mp himage)

/-- A list becomes an array of such images. -/
theorem imaged_list {items : List Value} {j : Json} (h : Imaged R (.list items) j) :
    ∃ js, j = .array js ∧ List.Forall₂ (Imaged R) items js := by
  obtain ⟨other, horder, himage⟩ := h
  obtain ⟨others, rfl, hparts⟩ := horder.of_list
  rw [image] at himage
  obtain ⟨js, hjs, rfl⟩ := map_eq_ok_iff.mp himage
  exact ⟨js, rfl, imaged_items hparts hjs⟩

theorem imaged_tuple {items : List Value} {j : Json} (h : Imaged R (.tuple items) j) :
    ∃ js, j = .array js ∧ List.Forall₂ (Imaged R) items js := by
  obtain ⟨other, horder, himage⟩ := h
  obtain ⟨others, rfl, hparts⟩ := horder.of_tuple
  rw [image] at himage
  obtain ⟨js, hjs, rfl⟩ := map_eq_ok_iff.mp himage
  exact ⟨js, rfl, imaged_items hparts hjs⟩

/-- A set has the image of one of its orders. -/
theorem imaged_set {items : List Value} {j : Json} (h : Imaged R (.set items) j) :
    ∃ others, R items others ∧ image (.set others) = .ok j := by
  obtain ⟨other, horder, himage⟩ := h
  obtain ⟨others, rfl, hset⟩ := horder.of_set
  exact ⟨others, hset, himage⟩

/-- A mapping becomes an object of such images. -/
theorem imaged_map {entries : List (Value × Value)} {j : Json} (h : Imaged R (.map entries) j) :
    ∃ members, j = .object members ∧ List.Forall₂
      (fun entry member => keyText entry.1 = .ok member.1 ∧ Imaged R entry.2 member.2)
      entries members := by
  obtain ⟨other, horder, himage⟩ := h
  obtain ⟨others, rfl, hentries⟩ := horder.of_map
  rw [image, imageMembers_eq_mapM] at himage
  obtain ⟨members, hmembers, rfl⟩ := map_eq_ok_iff.mp himage
  refine ⟨members, rfl, forall₂_comp ?_ hentries (mapM_eq_ok_iff.mp hmembers)⟩
  intro entry other member hother hmember
  obtain ⟨hname, hpart⟩ := imageMember_eq_ok_iff.mp hmember
  rw [hother.1]
  exact ⟨hname, _, hother.2, hpart⟩

/-- A run over a list comes to an end in every order. -/
theorem exists_mapM_of_perm {ε α β : Type} {f : α → Except ε β} {items others : List α}
    (hperm : items.Perm others) {results : List β} (h : items.mapM f = .ok results) :
    ∃ otherResults, others.mapM f = .ok otherResults := by
  apply exists_mapM
  intro other hother
  obtain ⟨b, -, hb⟩ := exists_of_forall₂ (mapM_eq_ok_iff.mp h) (hperm.mem_iff.mpr hother)
  exact ⟨b, hb⟩

/-- The items have images if each of them has one. -/
theorem images_reordered {items others : List Value} {js : List Json}
    (h : ∀ item ∈ items, ∀ {other}, Reordered R item other → ∀ {j}, image item = .ok j →
      ∃ k, image other = .ok k)
    (hparts : List.Forall₂ (Reordered R) items others) (hjs : images items = .ok js) :
    ∃ ks, images others = .ok ks := by
  rw [images_eq_mapM] at hjs ⊢
  apply exists_mapM
  intro other hother
  obtain ⟨item, hitem, hrelated⟩ := exists_of_forall₂ hparts.flip hother
  obtain ⟨j, -, hj⟩ := exists_of_forall₂ (mapM_eq_ok_iff.mp hjs) hitem
  exact h item hitem hrelated hj

/-- Whether there is an image does not depend on the order. -/
theorem image_reordered {value other : Value} (hvalue : value.Loaded)
    (h : Reordered List.Perm value other) {j : Json} (hj : image value = .ok j) :
    ∃ k, image other = .ok k := by
  induction hvalue generalizing other j with
  | leaf value hleaf =>
      obtain rfl := h.of_leaf hleaf
      exact ⟨j, hj⟩
  | list items _ ih =>
      rw [image] at hj
      obtain ⟨js, hjs, -⟩ := map_eq_ok_iff.mp hj
      obtain ⟨others, rfl, hparts⟩ := h.of_list
      obtain ⟨ks, hks⟩ := images_reordered ih hparts hjs
      exact ⟨.array ks, by rw [image, hks, Except.map]⟩
  | tuple items _ ih =>
      rw [image] at hj
      obtain ⟨js, hjs, -⟩ := map_eq_ok_iff.mp hj
      obtain ⟨others, rfl, hparts⟩ := h.of_tuple
      obtain ⟨ks, hks⟩ := images_reordered ih hparts hjs
      exact ⟨.array ks, by rw [image, hks, Except.map]⟩
  | set items =>
      obtain ⟨others, rfl, hperm⟩ := h.of_set
      rw [image] at hj ⊢
      obtain ⟨texts, htexts, hj⟩ := bind_eq_ok_iff.mp hj
      obtain ⟨js, hjs, -⟩ := bind_eq_ok_iff.mp hj
      rw [images_eq_mapM] at hjs ⊢
      obtain ⟨otherTexts, hotherTexts⟩ := exists_mapM_of_perm hperm htexts
      obtain ⟨ks, hks⟩ := exists_mapM_of_perm hperm hjs
      exact ⟨_, by rw [hotherTexts, hks, bind_ok, bind_ok]; rfl⟩
  | map entries _ _ _ ih =>
      rw [image, imageMembers_eq_mapM] at hj
      obtain ⟨members, hmembers, -⟩ := map_eq_ok_iff.mp hj
      obtain ⟨others, rfl, hentries⟩ := h.of_map
      obtain ⟨ks, hks⟩ : ∃ ks, others.mapM imageMember = .ok ks := by
        apply exists_mapM
        intro other hother
        obtain ⟨entry, hentry, hkey, hrelated⟩ := exists_of_forall₂ hentries.flip hother
        obtain ⟨member, -, hmember⟩ := exists_of_forall₂ (mapM_eq_ok_iff.mp hmembers) hentry
        obtain ⟨hname, hpart⟩ := imageMember_eq_ok_iff.mp hmember
        obtain ⟨k, hk⟩ := ih entry hentry hrelated hpart
        exact ⟨(member.1, k), imageMember_eq_ok_iff.mpr ⟨hkey ▸ hname, hk⟩⟩
      exact ⟨.object ks, by rw [image, imageMembers_eq_mapM, hks, Except.map]⟩
  | cycle levels => cases hj

/-! ### Calls over the orders -/

@[simp] theorem reach_true (calls behind : Nat) : reach calls true behind = max calls behind := rfl

theorem isOk_of_eq_ok {ε α : Type} {result : Except ε α} {a : α} (h : result = .ok a) :
    result.isOk = true := by
  rw [h]
  rfl

/-- Where no part is refused, all parts are reached. -/
theorem le_reachAll {α : Type} {calls : α → Nat} {passes : α → Bool} {parts : List α}
    (hpass : ∀ part ∈ parts, passes part = true) {part : α} (h : part ∈ parts) :
    calls part ≤ reachAll calls passes parts := by
  induction parts with
  | nil => cases h
  | cons first parts ih =>
      obtain ⟨hfirst, hparts⟩ := List.forall_mem_cons.mp hpass
      rw [reachAll, hfirst, reach_true]
      rcases List.mem_cons.mp h with rfl | h
      · exact Nat.le_max_left _ _
      · exact (ih hparts h).trans (Nat.le_max_right _ _)

/-- Parts that come to no more calls than others come to no more calls together. -/
theorem reachAll_le_reachAll {α : Type} {calls : α → Nat} {passes passes' : α → Bool}
    {parts others : List α} (hpass : ∀ part ∈ parts, passes part = true)
    (h : ∀ other ∈ others, ∃ part ∈ parts, calls other ≤ calls part) :
    reachAll calls passes' others ≤ reachAll calls passes parts := by
  apply reachAll_le
  intro other hother
  obtain ⟨part, hpart, hcalls⟩ := h other hother
  exact hcalls.trans (le_reachAll hpass hpart)

/-- A run that comes to its end has passed at all items. -/
theorem isOk_of_mapM {ε α β : Type} {f : α → Except ε β} {items : List α} {results : List β}
    (h : items.mapM f = .ok results) : ∀ item ∈ items, (f item).isOk = true := by
  intro item hitem
  obtain ⟨result, -, hresult⟩ := exists_of_forall₂ (mapM_eq_ok_iff.mp h) hitem
  exact isOk_of_eq_ok hresult

/-- The items take no more calls if none of them does. -/
theorem plainItemsCalls_reordered {items others mades : List Value}
    (h : ∀ item ∈ items, ∀ {other made}, Reordered R item other → plain item = .ok made →
      plainCalls other ≤ plainCalls item)
    (hparts : List.Forall₂ (Reordered R) items others) (hmades : plainItems items = .ok mades) :
    plainItemsCalls others ≤ plainItemsCalls items := by
  rw [plainItems_eq_mapM] at hmades
  rw [plainItemsCalls_eq, plainItemsCalls_eq]
  apply reachAll_le_reachAll (isOk_of_mapM hmades)
  intro other hother
  obtain ⟨item, hitem, hrelated⟩ := exists_of_forall₂ hparts.flip hother
  obtain ⟨made, -, hmade⟩ := exists_of_forall₂ (mapM_eq_ok_iff.mp hmades) hitem
  exact ⟨item, hitem, h item hitem hrelated hmade⟩

/-- **The first pass** takes as many calls in every order. -/
theorem plainCalls_reordered {value other made : Value} (hvalue : value.Loaded)
    (h : Reordered R value other) (hmade : plain value = .ok made) :
    plainCalls other ≤ plainCalls value := by
  induction hvalue generalizing other made with
  | leaf value hleaf => rw [h.of_leaf hleaf]
  | list items _ ih =>
      rw [plain] at hmade
      obtain ⟨mades, hmades, -⟩ := map_eq_ok_iff.mp hmade
      obtain ⟨others, rfl, hparts⟩ := h.of_list
      rw [plainCalls, plainCalls]
      exact Nat.add_le_add_left (plainItemsCalls_reordered ih hparts hmades) 2
  | tuple items _ ih =>
      rw [plain] at hmade
      obtain ⟨mades, hmades, -⟩ := map_eq_ok_iff.mp hmade
      obtain ⟨others, rfl, hparts⟩ := h.of_tuple
      rw [plainCalls, plainCalls]
      exact Nat.add_le_add_left (plainItemsCalls_reordered ih hparts hmades) 2
  | set items =>
      obtain ⟨others, rfl, -⟩ := h.of_set
      simp [plainCalls]
  | map entries _ _ _ ih =>
      rw [plain, plainEntries_eq_mapM] at hmade
      obtain ⟨plains, hplains, -⟩ := map_eq_ok_iff.mp hmade
      obtain ⟨others, rfl, hentries⟩ := h.of_map
      have hpasses : ∀ entry ∈ entries,
          (plainKey entry.1).isOk = true ∧ ∃ made, plain entry.2 = .ok made := by
        intro entry hentry
        obtain ⟨made, -, hmade⟩ := exists_of_forall₂ (mapM_eq_ok_iff.mp hplains) hentry
        obtain ⟨hkey, hvalue⟩ := plainEntry_eq_ok_iff.mp hmade
        exact ⟨isOk_of_eq_ok hkey, made.2, hvalue⟩
      rw [plainCalls, plainCalls, plainEntriesCalls_eq, plainEntriesCalls_eq]
      refine Nat.add_le_add_left (reachAll_le_reachAll (fun entry hentry => ?_) ?_) 2
      · obtain ⟨hkey, made, hvalue⟩ := hpasses entry hentry
        rw [hkey, isOk_of_eq_ok hvalue, Bool.and_self]
      · intro other hother
        obtain ⟨entry, hentry, hname, hrelated⟩ := exists_of_forall₂ hentries.flip hother
        obtain ⟨hkey, made, hvalue⟩ := hpasses entry hentry
        have hcalls := ih entry hentry hrelated hvalue
        refine ⟨entry, hentry, ?_⟩
        rw [plainEntryCalls, plainEntryCalls, ← hname, hkey, reach_true, reach_true]
        omega
  | cycle levels => cases hmade

/-- The items take no more calls if none of them does. -/
theorem imagesCalls_reordered {items others : List Value} {js : List Json}
    (h : ∀ item ∈ items, ∀ {other}, Reordered R item other → ∀ {j}, image item = .ok j →
      imageCalls other ≤ imageCalls item)
    (hparts : List.Forall₂ (Reordered R) items others) (hjs : images items = .ok js) :
    imagesCalls others ≤ imagesCalls items := by
  rw [images_eq_mapM] at hjs
  rw [imagesCalls_eq, imagesCalls_eq]
  apply reachAll_le_reachAll (isOk_of_mapM hjs)
  intro other hother
  obtain ⟨item, hitem, hrelated⟩ := exists_of_forall₂ hparts.flip hother
  obtain ⟨j, -, hj⟩ := exists_of_forall₂ (mapM_eq_ok_iff.mp hjs) hitem
  exact ⟨item, hitem, h item hitem hrelated hj⟩

/-- **The second pass** takes as many calls in every order. -/
theorem imageCalls_reordered {value other : Value} (hvalue : value.Loaded)
    (h : Reordered List.Perm value other) {j : Json} (hj : image value = .ok j) :
    imageCalls other ≤ imageCalls value := by
  induction hvalue generalizing other j with
  | leaf value hleaf => rw [h.of_leaf hleaf]
  | list items _ ih =>
      rw [image] at hj
      obtain ⟨js, hjs, -⟩ := map_eq_ok_iff.mp hj
      obtain ⟨others, rfl, hparts⟩ := h.of_list
      rw [imageCalls, imageCalls]
      exact Nat.add_le_add_left (imagesCalls_reordered ih hparts hjs) 1
  | tuple items _ ih =>
      rw [image] at hj
      obtain ⟨js, hjs, -⟩ := map_eq_ok_iff.mp hj
      obtain ⟨others, rfl, hparts⟩ := h.of_tuple
      rw [imageCalls, imageCalls]
      exact Nat.add_le_add_left (imagesCalls_reordered ih hparts hjs) 1
  | set items =>
      obtain ⟨others, rfl, hperm⟩ := h.of_set
      rw [image] at hj
      obtain ⟨texts, htexts, hj⟩ := bind_eq_ok_iff.mp hj
      obtain ⟨js, hjs, -⟩ := bind_eq_ok_iff.mp hj
      rw [images_eq_mapM] at hjs
      obtain ⟨otherTexts, hotherTexts⟩ := exists_mapM_of_perm hperm htexts
      have hlisted : ∀ calls : Value → Nat, ∀ other ∈ others, ∃ item ∈ items,
          calls other ≤ calls item :=
        fun calls other hother => ⟨other, hperm.mem_iff.mpr hother, Nat.le_refl _⟩
      have hsort : sortCalls others ≤ sortCalls items :=
        reachAll_le_reachAll (isOk_of_mapM htexts) (hlisted _)
      have himages : imagesCalls others ≤ imagesCalls items := by
        rw [imagesCalls_eq, imagesCalls_eq]
        exact reachAll_le_reachAll (isOk_of_mapM hjs) (hlisted _)
      rw [imageCalls, imageCalls, isOk_of_eq_ok htexts, isOk_of_eq_ok hotherTexts, reach_true,
        reach_true]
      omega
  | map entries _ _ _ ih =>
      rw [image, imageMembers_eq_mapM] at hj
      obtain ⟨members, hmembers, -⟩ := map_eq_ok_iff.mp hj
      obtain ⟨others, rfl, hentries⟩ := h.of_map
      have hpasses : ∀ entry ∈ entries,
          (keyText entry.1).isOk = true ∧ ∃ j, image entry.2 = .ok j := by
        intro entry hentry
        obtain ⟨member, -, hmember⟩ := exists_of_forall₂ (mapM_eq_ok_iff.mp hmembers) hentry
        obtain ⟨hname, hvalue⟩ := imageMember_eq_ok_iff.mp hmember
        exact ⟨isOk_of_eq_ok hname, member.2, hvalue⟩
      rw [imageCalls, imageCalls, imageMembersCalls_eq, imageMembersCalls_eq]
      refine Nat.add_le_add_left (reachAll_le_reachAll (fun entry hentry => ?_) ?_) 1
      · obtain ⟨hname, j, hvalue⟩ := hpasses entry hentry
        rw [hname, isOk_of_eq_ok hvalue, Bool.and_self]
      · intro other hother
        obtain ⟨entry, hentry, hkey, hrelated⟩ := exists_of_forall₂ hentries.flip hother
        obtain ⟨hname, j, hvalue⟩ := hpasses entry hentry
        have hcalls := ih entry hentry hrelated hvalue
        refine ⟨entry, hentry, ?_⟩
        rw [imageMemberCalls, imageMemberCalls, ← hkey, hname, reach_true, reach_true]
        omega
  | cycle levels => cases hj

/-- Making keys plain takes as many calls in any order of the sets. -/
theorem entryCalls_reordered {value other : Value} (h : Reordered R value other) :
    entryCalls other = entryCalls value := by
  cases h <;> rfl

/-- **The calls for a value** that can be written are no more in another order of its sets. -/
theorem writeCalls_reordered {value other : Value} (hvalue : value.Loaded)
    (h : Reordered List.Perm value other) {j : Json} (hj : ofValue value = .ok j) :
    writeCalls other ≤ writeCalls value := by
  obtain ⟨made, hmade, himage⟩ := bind_eq_ok_iff.mp hj
  obtain ⟨otherMade, hother, hrelated⟩ := plain_reordered hvalue h hmade
  have hplain := plainCalls_reordered hvalue h hmade
  have hcalls := imageCalls_reordered (loaded_plain hvalue hmade) hrelated himage
  rw [writeCalls, writeCalls, hmade, hother]
  simp only [entryCalls_reordered hrelated]
  omega

end Json

end ContentCatalog
