import ContentCatalog.Proofs.FrontmatterKeys
import ContentCatalog.Proofs.JsonImage
import ContentCatalog.Proofs.SpelledKeys
import ContentCatalog.Proofs.WrittenValues

/-!
# Entries that are kept

The keys of a mapping are written as names.  A name is shared by a text and the scalar that is
spelled like it, and by the doubles that are no number; all other keys have names of their own.  So
each entry of each mapping of a value has a member of its own in what is written, and in what is
read back, exactly if no mapping holds two such keys.  Of entries that share a name one is left.

* `Clash`, `keyName_eq_iff` : different keys of one name;
* `ofValue_map` : the image of a mapping, entry by entry;
* `merged_ofValue` : what is read for the image;
* `EntryByEntry` : every entry has a member of its own;
* `kept_entries` : the statement about the values of texts.
-/

namespace ContentCatalog

namespace Json

open Value (IsLeaf Loaded Within sameKey)

/-! ### Keys of one name -/

/-- A scalar is the same key as itself, unless it is no number. -/
theorem sameKey_self {key : Value} (h : key.IsLeaf) (hnumber : key ≠ .float .notNumber) :
    sameKey key key = true := by
  cases h with
  | float x _ =>
      cases x with
      | notNumber => exact absurd rfl hnumber
      | infinite negative => simp [sameKey, Double.same]
      | finite negative significand exponent => simp [sameKey, Double.same]
  | moment m =>
      rw [sameKey, Calendar.Moment.same]
      cases m.offset <;> simp
  | _ => simp [sameKey]

/-- The keys have one name, though they are different: one is a text that is spelled like the
other, or both are the double that is no number, which is never the same key. -/
def Clash (a b : Value) : Prop :=
  a = .text (keyName b) ∨ b = .text (keyName a) ∨ (a = .float .notNumber ∧ b = .float .notNumber)

/-- **Different keys of one name.** -/
theorem keyName_eq_iff {a b : Value} (ha : a.IsLeaf) (hb : b.IsLeaf)
    (hdistinct : sameKey a b = false) : keyName a = keyName b ↔ Clash a b := by
  constructor
  · intro hname
    by_cases hatext : ∃ s, a = .text s
    · obtain ⟨s, rfl⟩ := hatext
      exact .inl (congrArg Value.text hname)
    · by_cases hbtext : ∃ s, b = .text s
      · obtain ⟨s, rfl⟩ := hbtext
        exact .inr (.inl (congrArg Value.text hname.symm))
      · rw [keyName_eq_spelled ha, keyName_eq_spelled hb] at hname
        obtain rfl := spelled_injective ha hb (fun s hs => hatext ⟨s, hs⟩)
          (fun s hs => hbtext ⟨s, hs⟩) hname
        by_cases hnumber : a = .float .notNumber
        · exact .inr (.inr ⟨hnumber, hnumber⟩)
        · rw [sameKey_self ha hnumber] at hdistinct
          cases hdistinct
  · intro hclash
    rcases hclash with rfl | rfl | ⟨rfl, rfl⟩ <;> rfl

/-- The names of a mapping's keys are different exactly if no two keys clash. -/
theorem nodup_names_iff {entries : List (Value × Value)} (hkeys : ∀ entry ∈ entries, entry.1.IsLeaf)
    (hdistinct : entries.Pairwise fun a b => sameKey a.1 b.1 = false) :
    (entries.map fun entry => keyName entry.1).Nodup ↔
      entries.Pairwise fun a b => ¬ Clash a.1 b.1 := by
  rw [List.Nodup, List.pairwise_map]
  constructor
  · intro hnames
    refine (hnames.and hdistinct).imp_of_mem ?_
    intro a b ha hb hab hclash
    exact hab.1 ((keyName_eq_iff (hkeys a ha) (hkeys b hb) hab.2).mpr hclash)
  · intro happart
    refine (happart.and hdistinct).imp_of_mem ?_
    intro a b ha hb hab hname
    exact hab.1 ((keyName_eq_iff (hkeys a ha) (hkeys b hb) hab.2).mp hname)

/-! ### Keys in the first pass -/

/-- A scalar is made plain as a key. -/
theorem plainKey_leaf {key : Value} (h : key.IsLeaf) : plainKey key = .ok (plainOf key) := by
  cases h <;> rfl

/-- The text of a plain key is its name. -/
theorem keyText_leaf {key : Value} (h : key.IsLeaf) {name : String}
    (hname : keyText (plainOf key) = .ok name) : name = keyName key := by
  cases h with
  | int i =>
      rw [plainOf, keyText, intText] at hname
      exact display_eq_spelled (.int i) (mapError_eq_ok_iff.mp hname)
  | _ => exact (Except.ok.inj hname).symm

/-- **The names tell all keys apart** that the first pass confuses with none. -/
theorem unmistaken_leaves {keys : List Value} (hkeys : ∀ key ∈ keys, key.IsLeaf)
    (hdistinct : keys.Pairwise fun a b => sameKey a b = false) :
    Dictionary.Unmistaken sameKey keyName (keys.map plainOf) := by
  apply unmistaken_of_apart hdistinct
  intro key hkey other hother hbare htext hotherBare hname
  have hotherText : ∀ s, other ≠ .text s := by
    intro s heq
    rw [heq] at hotherBare
    exact hotherBare
  rw [keyName_eq_spelled (hkeys other hother), keyName_eq_spelled (hkeys key hkey)] at hname
  obtain rfl := spelled_injective (hkeys other hother) (hkeys key hkey) hotherText htext hname
  exact hbare hotherBare

/-- Keys with different names are different in the first pass. -/
theorem pairwise_plainOf {keys : List Value} (hnames : (keys.map keyName).Nodup)
    (hdistinct : keys.Pairwise fun a b => sameKey a b = false) :
    (keys.map plainOf).Pairwise fun a b => sameKey a b = false := by
  rw [List.Nodup, List.pairwise_map] at hnames
  rw [List.pairwise_map]
  apply (hnames.and hdistinct).imp
  intro a b hab
  by_contra hsame
  obtain ⟨ha, hb, -⟩ := plainOf_of_sameKey hab.2 (Bool.eq_true_of_not_eq_false hsame)
  have hname := congrArg keyName (ha.trans hb.symm)
  rw [keyName_plainOf, keyName_plainOf] at hname
  exact hab.1 hname

/-! ### The image, part by part -/

theorem plain_leaf {value : Value} (h : value.IsLeaf) : plain value = .ok value := by
  cases h <;> rfl

/-- The image of a scalar is the scalar in JSON, in which there is nothing to merge. -/
theorem image_leaf {value : Value} (h : value.IsLeaf) {j : Json} (hj : image value = .ok j) :
    j = imageOf value ∧ merged j = j := by
  cases h with
  | int i =>
      rw [image] at hj
      obtain ⟨text, -, rfl⟩ := map_eq_ok_iff.mp hj
      exact ⟨rfl, rfl⟩
  | _ =>
      cases hj
      exact ⟨rfl, rfl⟩

/-- What is related to the items by a function. -/
theorem eq_map_of_forall₂ {α β : Type} {f : α → β} {as : List α} {bs : List β}
    (h : List.Forall₂ (fun a b => b = f a) as bs) : bs = as.map f := by
  induction h with
  | nil => rfl
  | cons hfirst _ ih => rw [List.map_cons, hfirst, ih]

/-- Over both passes items become documents one by one. -/
theorem ofValue_items {items made : List Value} {js : List Json}
    (hplain : plainItems items = .ok made) (himage : images made = .ok js) :
    List.Forall₂ (fun item j => ofValue item = .ok j) items js := by
  rw [plainItems_eq_mapM] at hplain
  rw [images_eq_mapM] at himage
  refine forall₂_comp ?_ (mapM_eq_ok_iff.mp hplain) (mapM_eq_ok_iff.mp himage)
  intro item made j hmade hj
  rw [ofValue, hmade, bind_ok, hj]

/-- A list becomes an array of the documents of its items. -/
theorem ofValue_list {items : List Value} {j : Json} (h : ofValue (.list items) = .ok j) :
    ∃ js, j = .array js ∧ List.Forall₂ (fun item j => ofValue item = .ok j) items js := by
  obtain ⟨made, hmade, himage⟩ := bind_eq_ok_iff.mp h
  rw [plain] at hmade
  obtain ⟨others, hothers, rfl⟩ := map_eq_ok_iff.mp hmade
  rw [image] at himage
  obtain ⟨js, hjs, rfl⟩ := map_eq_ok_iff.mp himage
  exact ⟨js, rfl, ofValue_items hothers hjs⟩

theorem ofValue_tuple {items : List Value} {j : Json} (h : ofValue (.tuple items) = .ok j) :
    ∃ js, j = .array js ∧ List.Forall₂ (fun item j => ofValue item = .ok j) items js := by
  have hlist : ofValue (.list items) = .ok j := by
    rw [← h, ofValue, ofValue, plain, plain]
  exact ofValue_list hlist

/-- The display of a scalar that has one. -/
theorem displayText_of_displayed {value : Value} {text : String} (h : displayed value = .ok text) :
    value.displayText = text := by
  rw [Value.displayText, mapError_eq_ok_iff.mp h]
  rfl

/-- Members are told by their names and by what stands under them. -/
theorem eq_map_of_names {α β : Type} {name : α → String} {part : α → β} {items : List α}
    {members : List (String × β)} (hnames : Dictionary.keys members = items.map name)
    (hparts : List.Forall₂ (fun item member => member.2 = part item) items members) :
    members = items.map fun item => (name item, part item) := by
  induction hparts with
  | nil => rfl
  | cons hfirst _ ih =>
      rw [Dictionary.keys, List.map_cons, List.map_cons] at hnames
      obtain ⟨hname, hnames⟩ := List.cons.inj hnames
      rw [List.map_cons, ← ih hnames, ← hname, ← hfirst]

/-- **The image of a set**, if there is one. -/
theorem image_leaves {items : List Value} (hparts : ∀ item ∈ items, item.IsLeaf) {j : Json}
    (h : image (.set items) = .ok j) : j = imageOf (.set items) ∧ merged j = j := by
  rw [image] at h
  obtain ⟨texts, htexts, h⟩ := bind_eq_ok_iff.mp h
  obtain ⟨js, hjs, h⟩ := bind_eq_ok_iff.mp h
  rw [images_eq_mapM] at hjs
  have hdisplays : texts = items.map Value.displayText :=
    eq_map_of_forall₂ ((mapM_eq_ok_iff.mp htexts).imp fun _ _ htext =>
      (displayText_of_displayed htext).symm)
  have himages : js = items.map imageOf :=
    eq_map_of_forall₂ (forall₂_imp_mem (fun item hitem j hj =>
      (image_leaf (hparts item hitem) hj).1) (mapM_eq_ok_iff.mp hjs))
  obtain rfl := Except.ok.inj h
  constructor
  · rw [imageOf, imagesOf_eq_map, hdisplays, himages]
  · have hsame : ∀ j ∈ sortedByText (texts.zip js), merged j = id j := by
      intro j hj
      obtain ⟨pair, hpair, rfl⟩ := List.mem_map.mp (mem_sortedByText hj)
      obtain ⟨item, hitem, himage⟩ := exists_of_mem_mapM hjs (List.of_mem_zip hpair).2
      exact (image_leaf (hparts item hitem) himage).2
    rw [merged, mergedItems_eq_map, List.map_congr_left hsame, List.map_id]

/-- **The image of a mapping**: of the entries whose keys are the same in the first pass, one is
left, and has a member. -/
theorem ofValue_map {entries : List (Value × Value)} (hkeys : ∀ entry ∈ entries, entry.1.IsLeaf)
    {j : Json} (h : ofValue (.map entries) = .ok j) :
    ∃ members, j = .object members ∧ List.Forall₂
      (fun entry member => member.1 = keyName entry.1 ∧ ofValue entry.2 = .ok member.2)
      (Dictionary.ofEntriesBy sameKey (entries.map fun entry => (plainOf entry.1, entry.2)))
      members := by
  obtain ⟨made, hmade, himage⟩ := bind_eq_ok_iff.mp h
  rw [plain, plainEntries_eq_mapM] at hmade
  obtain ⟨plains, hplains, rfl⟩ := map_eq_ok_iff.mp hmade
  rw [Value.mapOf, image, imageMembers_eq_mapM] at himage
  obtain ⟨members, hmembers, rfl⟩ := map_eq_ok_iff.mp himage
  refine ⟨members, rfl, ?_⟩
  have hfirst : Dictionary.KeyByKey (fun value made => plain value = .ok made)
      (entries.map fun entry => (plainOf entry.1, entry.2)) plains := by
    rw [Dictionary.KeyByKey, List.forall₂_map_left_iff]
    refine forall₂_imp_mem ?_ (mapM_eq_ok_iff.mp hplains)
    intro entry hentry made hmade
    obtain ⟨hkey, hvalue⟩ := plainEntry_eq_ok_iff.mp hmade
    rw [plainKey_leaf (hkeys entry hentry)] at hkey
    exact ⟨Except.ok.inj hkey, hvalue⟩
  refine forall₂_imp_mem ?_ (forall₂_comp (T := fun entry member =>
    keyText entry.1 = .ok member.1 ∧ ofValue entry.2 = .ok member.2) ?_
      (hfirst.ofEntriesBy sameKey) (mapM_eq_ok_iff.mp hmembers))
  · intro entry hentry member hmember
    obtain ⟨key, hkey, heq⟩ := List.mem_map.mp (Dictionary.mem_ofEntriesBy hentry).1
    obtain ⟨original, horiginal, rfl⟩ := List.mem_map.mp hkey
    have hname := hmember.1
    rw [← heq] at hname ⊢
    rw [keyName_plainOf]
    exact ⟨keyText_leaf (hkeys original horiginal) hname, hmember.2⟩
  · intro entry made member hmade hmember
    obtain ⟨hname, hvalue⟩ := imageMember_eq_ok_iff.mp hmember
    refine ⟨by rw [hmade.1, hname], ?_⟩
    rw [ofValue, hmade.2, bind_ok, hvalue]

/-- The entries as they stand before the first pass merges them. -/
theorem unmistaken_entries {entries : List (Value × Value)}
    (hkeys : ∀ entry ∈ entries, entry.1.IsLeaf)
    (hdistinct : entries.Pairwise fun a b => sameKey a.1 b.1 = false) :
    Dictionary.Unmistaken sameKey keyName
      (Dictionary.keys (entries.map fun entry => (plainOf entry.1, entry.2))) := by
  have hunmistaken : Dictionary.Unmistaken sameKey keyName
      ((entries.map fun entry => entry.1).map plainOf) :=
    unmistaken_leaves (List.forall_mem_map.mpr hkeys) (List.pairwise_map.mpr hdistinct)
  rw [List.map_map] at hunmistaken
  rw [Dictionary.keys, List.map_map]
  exact hunmistaken

/-- **What is read for an image.**  The induction is on the value; a mapping's entries are merged
twice, and the names alone tell what is left. -/
theorem merged_ofValue {value : Value} (h : value.Loaded) {j : Json} (hj : ofValue value = .ok j) :
    merged j = imageOf value := by
  have hitems : ∀ {items : List Value} {js : List Json},
      (∀ item ∈ items, ∀ {j}, ofValue item = .ok j → merged j = imageOf item) →
      List.Forall₂ (fun item j => ofValue item = .ok j) items js →
      merged (.array js) = .array (items.map imageOf) := by
    intro items js hall hjs
    rw [merged, mergedItems_eq_map]
    refine congrArg Json.array (eq_map_of_forall₂ (List.forall₂_map_right_iff.mpr ?_))
    exact forall₂_imp_mem (fun item hitem j hj => hall item hitem hj) hjs
  induction h generalizing j with
  | leaf value hleaf =>
      rw [ofValue, plain_leaf hleaf, bind_ok] at hj
      obtain ⟨himage, hmerged⟩ := image_leaf hleaf hj
      rw [hmerged, himage]
  | list items _ ih =>
      obtain ⟨js, rfl, hjs⟩ := ofValue_list hj
      rw [hitems ih hjs, imageOf, imagesOf_eq_map]
  | tuple items _ ih =>
      obtain ⟨js, rfl, hjs⟩ := ofValue_tuple hj
      rw [hitems ih hjs, imageOf, imagesOf_eq_map]
  | set items hparts _ =>
      have himage : image (.set items) = .ok j := hj
      obtain ⟨heq, hmerged⟩ := image_leaves hparts himage
      rw [hmerged, heq]
  | map entries hkeys _ hdistinct ih =>
      obtain ⟨members, rfl, hmembers⟩ := ofValue_map hkeys hj
      have hread : mergedMembers members =
          (Dictionary.ofEntriesBy sameKey (entries.map fun entry => (plainOf entry.1, entry.2))).map
            fun entry => (keyName entry.1, imageOf entry.2) := by
        rw [mergedMembers_eq_map]
        apply eq_map_of_forall₂
        rw [List.forall₂_map_right_iff]
        refine forall₂_imp_mem ?_ hmembers
        intro entry hentry member hmember
        obtain ⟨value, hvalue, heq⟩ := List.mem_map.mp (Dictionary.mem_ofEntriesBy hentry).2
        obtain ⟨original, horiginal, rfl⟩ := List.mem_map.mp hvalue
        have hpart := hmember.2
        rw [← heq] at hpart ⊢
        rw [hmember.1, ih original horiginal hpart]
      rw [merged, hread, objectOf,
        Dictionary.ofEntries_ofEntriesBy imageOf (unmistaken_entries hkeys hdistinct),
        List.map_map, imageOf_map]
      simp only [Function.comp_def, keyName_plainOf]
  | cycle levels => cases hj

/-! ### Entry by entry -/

/-- The document has a member for every entry of every mapping of the value: the members of an
object stand in the order of the entries and have different names. -/
inductive EntryByEntry : Value → Json → Prop
  | scalar (value : Value) (h : value.IsLeaf) : EntryByEntry value (imageOf value)
  | set (items : List Value) : EntryByEntry (.set items) (imageOf (.set items))
  | list {items : List Value} {js : List Json} (parts : List.Forall₂ EntryByEntry items js) :
      EntryByEntry (.list items) (.array js)
  | tuple {items : List Value} {js : List Json} (parts : List.Forall₂ EntryByEntry items js) :
      EntryByEntry (.tuple items) (.array js)
  | map {entries : List (Value × Value)} {members : List (String × Json)}
      (names : Dictionary.keys members = entries.map fun entry => keyName entry.1)
      (nodup : (Dictionary.keys members).Nodup)
      (values : List.Forall₂ (fun entry member => EntryByEntry entry.2 member.2) entries members) :
      EntryByEntry (.map entries) (.object members)

/-- No mapping of the value has keys that clash. -/
def KeysApart (value : Value) : Prop :=
  ∀ entries, Within (.map entries) value → entries.Pairwise fun a b => ¬ Clash a.1 b.1

/-- What holds entry by entry of a value holds so of all its parts. -/
theorem EntryByEntry.within {value part : Value} (hpart : Within part value) {j : Json}
    (h : EntryByEntry value j) : ∃ k, EntryByEntry part k := by
  induction hpart generalizing j with
  | self => exact ⟨j, h⟩
  | list hmem _ ih =>
      cases h with
      | scalar _ hleaf => cases hleaf
      | list hparts =>
          obtain ⟨k, -, hk⟩ := exists_of_forall₂ hparts hmem
          exact ih hk
  | tuple hmem _ ih =>
      cases h with
      | scalar _ hleaf => cases hleaf
      | tuple hparts =>
          obtain ⟨k, -, hk⟩ := exists_of_forall₂ hparts hmem
          exact ih hk
  | map hmem _ ih =>
      cases h with
      | scalar _ hleaf => cases hleaf
      | map _ _ hvalues =>
          obtain ⟨k, -, hk⟩ := exists_of_forall₂ hvalues hmem
          exact ih hk

/-- Where every entry has a member, no keys clash. -/
theorem EntryByEntry.keysApart {value : Value} (hvalue : value.Loaded) {j : Json}
    (h : EntryByEntry value j) : KeysApart value := by
  intro entries hentries
  obtain ⟨k, hk⟩ := h.within hentries
  cases hk with
  | scalar _ hleaf => cases hleaf
  | map hnames hnodup =>
      cases hvalue.within hentries with
      | leaf _ hleaf => cases hleaf
      | map _ hkeys _ hdistinct =>
          rw [hnames] at hnodup
          exact (nodup_names_iff hkeys hdistinct).mp hnodup

/-- A document with a member for every entry is the image. -/
theorem EntryByEntry.eq_imageOf {value : Value} (hvalue : value.Loaded) {j : Json}
    (h : EntryByEntry value j) : j = imageOf value := by
  have hitems : ∀ {items : List Value} {js : List Json},
      (∀ item ∈ items, ∀ {j}, EntryByEntry item j → j = imageOf item) →
      List.Forall₂ EntryByEntry items js → Json.array js = .array (imagesOf items) := by
    intro items js hall hjs
    rw [imagesOf_eq_map]
    refine congrArg Json.array (eq_map_of_forall₂ ?_)
    exact forall₂_imp_mem (fun item hitem j hj => hall item hitem hj) hjs
  induction hvalue generalizing j with
  | leaf value hleaf => cases h <;> first | rfl | cases hleaf
  | list items _ ih =>
      cases h with
      | scalar => rfl
      | list hparts => exact hitems ih hparts
  | tuple items _ ih =>
      cases h with
      | scalar => rfl
      | tuple hparts => exact hitems ih hparts
  | set items => cases h <;> rfl
  | map entries _ _ _ ih =>
      cases h with
      | scalar => rfl
      | @map _ members hnames hnodup hvalues =>
          have hmembers : members = entries.map fun entry => (keyName entry.1, imageOf entry.2) :=
            eq_map_of_names hnames (forall₂_imp_mem (fun entry hentry member hmember =>
              ih entry hentry hmember) hvalues)
          rw [imageOf_map, ← hmembers, Dictionary.ofEntries_of_nodup hnodup]
  | cycle levels => cases h; rfl

/-- **Where no keys clash**, the image has a member for every entry. -/
theorem entryByEntry_of_keysApart {value : Value} (h : value.Loaded) {j : Json}
    (hj : ofValue value = .ok j) (hkeys : KeysApart value) : EntryByEntry value j := by
  induction h generalizing j with
  | leaf value hleaf =>
      rw [ofValue, plain_leaf hleaf, bind_ok] at hj
      rw [(image_leaf hleaf hj).1]
      exact .scalar value hleaf
  | list items _ ih =>
      obtain ⟨js, rfl, hjs⟩ := ofValue_list hj
      refine .list (forall₂_imp_mem ?_ hjs)
      intro item hitem j hj
      exact ih item hitem hj fun entries hentries => hkeys entries (.list hitem hentries)
  | tuple items _ ih =>
      obtain ⟨js, rfl, hjs⟩ := ofValue_tuple hj
      refine .tuple (forall₂_imp_mem ?_ hjs)
      intro item hitem j hj
      exact ih item hitem hj fun entries hentries => hkeys entries (.tuple hitem hentries)
  | set items hparts _ =>
      have himage : image (.set items) = .ok j := hj
      rw [(image_leaves hparts himage).1]
      exact .set items
  | map entries hleaves _ hdistinct ih =>
      obtain ⟨members, rfl, hmembers⟩ := ofValue_map hleaves hj
      have hnodup := (nodup_names_iff hleaves hdistinct).mpr (hkeys entries (.self _))
      -- The names are different, so the first pass merges nothing.
      rw [Dictionary.ofEntriesBy_of_pairwise, List.forall₂_map_left_iff] at hmembers
      · have hnames : Dictionary.keys members = entries.map fun entry => keyName entry.1 := by
          rw [Dictionary.keys]
          refine eq_map_of_forall₂ (List.forall₂_map_right_iff.mpr (hmembers.imp ?_))
          intro entry member hmember
          rw [hmember.1, keyName_plainOf]
        refine .map hnames (hnames ▸ hnodup) (forall₂_imp_mem ?_ hmembers)
        intro entry hentry member hmember
        exact ih entry hentry hmember.2 fun others hothers => hkeys others (.map hentry hothers)
      · have happart : ((entries.map fun entry => entry.1).map plainOf).Pairwise
            fun a b => sameKey a b = false :=
          pairwise_plainOf (by rwa [List.map_map]) (List.pairwise_map.mpr hdistinct)
        rw [List.map_map] at happart
        rw [Dictionary.keys, List.map_map]
        exact happart
  | cycle levels => cases hj

/-! ### What is read back -/

/-- The doubles of a value that was loaded are proper ones. -/
theorem rounded_of_loaded {value : Value} (h : value.Loaded) : value.Rounded := by
  have hleaf : ∀ {value : Value}, value.IsLeaf → value.Rounded := by
    intro value h
    cases h with
    | float x hproper => exact .float x hproper
    | _ => exact .scalar _ trivial
  induction h with
  | leaf value h => exact hleaf h
  | list items _ ih => exact .list items ih
  | tuple items _ ih => exact .tuple items ih
  | set items hparts _ => exact .set items fun item hitem => hleaf (hparts item hitem)
  | map entries _ _ _ ih => exact .map entries ih
  | cycle levels => exact .scalar _ trivial

/-- Of a mapping's entries as many are read back as there are, exactly if no two keys clash. -/
theorem length_members_eq_iff {entries : List (Value × Value)} (h : (Value.map entries).Loaded) :
    ∃ members, imageOf (.map entries) = .object members ∧
      (members.length = entries.length ↔ entries.Pairwise fun a b => ¬ Clash a.1 b.1) := by
  refine ⟨_, imageOf_map entries, ?_⟩
  cases h with
  | leaf _ hleaf => cases hleaf
  | map _ hkeys _ hdistinct =>
      have hlength : ∀ named : List (String × Json), named.length = entries.length →
          ((Dictionary.ofEntries named).length = entries.length ↔
            (Dictionary.keys named).Nodup) := by
        intro named heq
        rw [← heq]
        exact Dictionary.length_ofEntries_eq_iff
      rw [hlength _ (List.length_map _), Dictionary.keys, List.map_map]
      exact nodup_names_iff hkeys hdistinct

/-- **Entries that are kept.**  The text of a document's value is read as its image.  What is
written has a member for every entry of every mapping, and so has what is read, exactly if no
mapping at any depth has keys that clash; and a single mapping is read with all of its entries
exactly if its own keys do not. -/
theorem kept_entries {text : List Char} {value : Value} {out : String}
    (hload : Yaml.load .decoded text = .ok value) (hwrite : write value = .ok out) :
    ∃ document, out = render document ∧ read out.toList = .ok (imageOf value) ∧
      (EntryByEntry value document ↔ KeysApart value) ∧
      (EntryByEntry value (imageOf value) ↔ KeysApart value) ∧
      ∀ entries, Within (.map entries) value → ∃ members,
        imageOf (.map entries) = .object members ∧
          (members.length = entries.length ↔ entries.Pairwise fun a b => ¬ Clash a.1 b.1) := by
  have hloaded := Yaml.loaded_of_load hload
  obtain ⟨-, document, hdocument, rfl⟩ := writeWithin_eq_ok_iff.mp hwrite
  have hapart : KeysApart value → EntryByEntry value document :=
    entryByEntry_of_keysApart hloaded hdocument
  refine ⟨document, rfl, ?_, ⟨EntryByEntry.keysApart hloaded, hapart⟩,
    ⟨EntryByEntry.keysApart hloaded, fun hkeys => ?_⟩, ?_⟩
  · obtain ⟨made, hmade, himage⟩ := bind_eq_ok_iff.mp hdocument
    have hwritable := writable_of_image (plain_rounded (rounded_of_loaded hloaded) hmade) himage
    rw [read_render hwritable, merged_ofValue hloaded hdocument]
  · have hmembers := hapart hkeys
    rwa [hmembers.eq_imageOf hloaded] at hmembers
  · intro entries hentries
    exact length_members_eq_iff (hloaded.within hentries)

/-- A moment in universal time, and a text that is spelled like its name. -/
def clashText : List Char :=
  "2024-01-01T00:00:00Z: a\n\x222024-01-01T00:00:00+00:00\x22: b\n".toList

/-- The value is a mapping with these keys, and can be written. -/
def isClash (value : Value) : Bool :=
  match value with
  | .map [(.moment m, _), (.text s, _)] => decide (s = m.iso) && (write value).toOption.isSome
  | _ => false

/-- A timestamp and the equal text are two keys, of which one member is left. -/
theorem kept_entries_sample :
    ∃ entries out members, Yaml.load .decoded clashText = .ok (.map entries) ∧
      write (.map entries) = .ok out ∧ entries.length = 2 ∧
      read out.toList = .ok (.object members) ∧ members.length ≠ 2 ∧
      ¬ EntryByEntry (.map entries) (.object members) := by
  obtain ⟨value, hload, hclash⟩ : ∃ value, Yaml.load .decoded clashText = .ok value ∧
      isClash value = true := Source.ok_of_any (by decide +kernel)
  unfold isClash at hclash
  split at hclash
  · next m first s second =>
      rw [Bool.and_eq_true, decide_eq_true_eq] at hclash
      obtain ⟨rfl, hwrite⟩ := hclash
      obtain ⟨out, hout⟩ := exists_eq_ok hwrite
      obtain ⟨-, -, hread, -, happart, hmembers⟩ := kept_entries hload hout
      obtain ⟨members, himage, hlength⟩ := hmembers _ (.self _)
      have hclash : ¬ [(Value.moment m, first), (Value.text m.iso, second)].Pairwise
          fun a b => ¬ Clash a.1 b.1 := by
        intro hkeys
        exact List.rel_of_pairwise_cons hkeys List.mem_cons_self (.inr (.inl rfl))
      rw [himage] at hread happart
      refine ⟨_, out, members, hload, hout, rfl, hread, mt hlength.mp hclash, fun h => ?_⟩
      exact hclash (happart.mp h _ (.self _))
  · cases hclash

end Json

end ContentCatalog
